import Drocsid.Texts
import Drocsid.Notices
/-!
# Departures — the leave of every session that joined

Who removes a session records its leave: its handler if it joined, its writer if it finds the joined flag set.  The two
loops that drop overloaded clients record none, and the flag is set after the join was recorded.  In a run in which no
loop drops a client that is ready, and no writer reads the flag while its handler is entering the chat, a session that
recorded its join has recorded its leave when its handler and its writer have ended (`leave_recorded`).
-/
namespace Drocsid

open Text Protocol

namespace Server

/-- The replay made its client ready. -/
def Running.readied : Running → Bool
  | .critical (.replayed (.ok ())) | .done (.ok _) => true
  | _ => false

/-- The handler's client is ready, and its joined flag not yet set. -/
def HandlerPc.entering : HandlerPc → Bool
  | .serving _ (.calling .history call) => call.readied
  | .serving _ (.calling .presence _) | .serving _ (.calling .join _) | .serving _ (.calling .joinPresence _)
  | .serving _ .storeJoined => true
  | _ => false

/-- No loop drops a client that is ready, and a writer that removed its client does not find the joined flag unset while
its handler is entering the chat. -/
structure Announces (w : World) (l : Label) : Prop where
  spares : ∀ task call a t, l.task = some task → w.calls task = some call → call.dooms = some (a, t) →
    ∀ p ∈ w.st.delivering, p.2.token = t → p.2.ready = false
  waits : ∀ c s, l.task = some (.writer c) → (w.conns c).writer = .running s .loadJoined →
    (w.conns c).joined = true ∨ (w.conns c).handler.entering = false

/-- The session's `serve` has ended. -/
def HandlerPc.served : HandlerPc → Option Session
  | .dropPermit s | .dropGlobal s | .returned s => s
  | _ => none

/-- The session whose `serve` and writer have both ended. -/
def Conn.over (conn : Conn) : Option Session :=
  match conn.handler.served, conn.writer with
  | some s, .ended s' => if s = s' then some s else none
  | _, _ => none

theorem Conn.over_eq_some {conn : Conn} {s : Session} (h : conn.over = some s) :
    conn.handler.served = some s ∧ conn.writer = .ended s := by
  unfold Conn.over at h
  split at h
  · rename_i hs hw
    split at h
    · rename_i he
      cases h
      exact ⟨hs, by rw [hw, he]⟩
    · cases h
  · cases h

/-! ## Removals of a ready client -/

/-- A loop that spares the clients that are ready removes no session that is. -/
theorem CallTurn.spares {w w' : World} {me : Task} {a : SocketAddr} {t : ClientToken} {rx : List Rx}
    {call call' : Running} (htracked : Tracked w.shared) (hcon : Consistent w.st)
    (h : CallTurn w me a t rx call w' call')
    (hspares : ∀ b u, call.dooms = some (b, u) → ∀ p ∈ w.st.delivering, p.2.token = u → p.2.ready = false)
    {u : ClientToken} (hready : .ready u ∈ w.trace) (hrem : .removed u ∈ w'.trace) : .removed u ∈ w.trace := by
  have hdropped : ∀ {b v removed st}, call.dooms = some (b, v) → removeClientIfCurrent w.st b v = some (removed, st) →
      .removed u ∈ removedEvent v removed ++ w.trace → .removed u ∈ w.trace := by
    intro b v removed st hdooms hr hmem
    rcases List.mem_append.1 hmem with hmem | hmem
    · exfalso
      cases removed with
      | false => cases hmem
      | true =>
        cases List.mem_singleton.1 hmem
        have hid : (b, u) ∈ w.st.sessionIds := (removeClientIfCurrent_some hcon hr).1.result.1 rfl
        obtain ⟨d, hd, rfl⟩ := mem_deliveryIds.1 (hcon.same.mem_iff.2 hid)
        have hfalse := hspares b d.token hdooms (b, d) hd rfl
        rw [(htracked.ready (b, d) hd).2 hready] at hfalse
        cases hfalse
    · exact hmem
  cases h with
  | advance hd hc =>
    cases advances_of_step hc with
    | drop hr => exact hdropped rfl hr hrem
    | unknown | found | unencoded | refused | unreadied => exact hrem
    | snapshot | replayed | readied | record | deliver => simpa using hrem
  | prunes hr => exact hdropped rfl hr hrem
  | drops hr => exact hdropped rfl hr hrem
  | present => simpa using hrem
  | lockReplay | lockRecord | unlock | prune | taken | unencoded | dropped => exact hrem

/-- A replay's section makes its client ready, or leaves it as far as it was. -/
theorem CallTurn.readies {w w' : World} {me : Task} {a : SocketAddr} {t : ClientToken} {rx : List Rx}
    {call call' : Running} (hcon : Consistent w.st) (h : CallTurn w me a t rx call w' call')
    (hs : call.Serves a t .replay) :
    (call'.readied = call.readied ∧ (.ready t ∈ w'.trace → .ready t ∈ w.trace)) ∨
      (call'.readied = true ∧ w'.trace = .ready t :: w.trace ∧ (a, t) ∈ w.st.sessionIds) := by
  cases hs with
  | lockReplay => cases h; exact .inl ⟨rfl, id⟩
  | done => cases h
  | critical hs =>
    cases h with
    | unlock hd =>
      cases hs with
      | @replayed replayed =>
        cases replayed <;> cases hd <;> exact .inl ⟨rfl, id⟩
      | lookup | snapshot | replay => cases hd
    | advance hd hc =>
      cases advances_of_step hc with
      | unknown | found | unencoded | refused | unreadied => exact .inl ⟨rfl, id⟩
      | snapshot | replayed => exact .inl ⟨rfl, by simp⟩
      | readied hm =>
        cases hs
        refine .inr ⟨rfl, rfl, ?_⟩
        by_contra hid
        rw [markClientReady_unknown hcon hid] at hm
        cases hm
      | record | deliver | drop => cases hs

/-! ## Each session's departure -/

/-- The session entered the chat, or is entering it. -/
def Conn.enters (conn : Conn) : Bool := conn.handler.entering || conn.joined

/-- A session that entered is ready, and once it is removed its leave is recorded or about to be. -/
structure Departs (tr : List Event) (conn : Conn) (t : ClientToken) : Prop where
  ready : conn.enters = true → .ready t ∈ tr
  joins : 0 < recordings t .join tr → conn.enters = true
  owed : conn.enters = true → .removed t ∈ tr →
    0 < recordings t .leave tr ∨ conn.handler.leaving = true ∨ conn.writer.leaving = true
  spawned : conn.joined = true → conn.handler.spawns = true

/-- A step that records no message of the session and does not remove it, if it entered. -/
theorem Departs.frame {tr tr' : List Event} {conn conn' : Conn} {t : ClientToken} (h : Departs tr conn t)
    (hrec : ∀ kind, recordings t kind tr' = recordings t kind tr) (hready : .ready t ∈ tr → .ready t ∈ tr')
    (hrem : conn.enters = true → .removed t ∈ tr' → .removed t ∈ tr) (he : conn'.enters = conn.enters)
    (hl : conn.handler.leaving = true ∨ conn.writer.leaving = true → conn'.handler.leaving = true ∨
      conn'.writer.leaving = true)
    (hs : conn'.joined = true → conn'.handler.spawns = true) : Departs tr' conn' t := by
  refine ⟨fun h' => ?_, fun h' => ?_, fun h' hr => ?_, hs⟩
  · rw [he] at h'
    exact hready (h.ready h')
  · rw [hrec] at h'
    rw [he]
    exact h.joins h'
  · rw [he] at h'
    rw [hrec]
    rcases h.owed h' (hrem h' hr) with hleave | hleaving
    · exact .inl hleave
    · exact .inr (hl hleaving)

/-- A step of a session that has not entered, and does not. -/
theorem Departs.outside {tr tr' : List Event} {conn conn' : Conn} {t : ClientToken} (h : Departs tr conn t)
    (hrec : ∀ kind, recordings t kind tr' = recordings t kind tr) (ho : conn.enters = false) (hj : conn'.joined = false)
    (he : conn'.handler.entering = false) : Departs tr' conn' t := by
  have ho' : conn'.enters = false := by rw [Conn.enters, hj, he]; rfl
  refine ⟨fun h' => ?_, fun h' => ?_, fun h' => ?_, fun h' => ?_⟩
  · rw [ho'] at h'; cases h'
  · rw [hrec] at h'
    have := h.joins h'
    rw [ho] at this; cases this
  · rw [ho'] at h'; cases h'
  · rw [hj] at h'; cases h'

/-- A session whose writer is not spawned has not entered. -/
theorem Departs.enters_of_unspawned {tr : List Event} {conn : Conn} {t : ClientToken} (h : Departs tr conn t)
    (hs : conn.handler.spawns = false) (he : conn.handler.entering = false) : conn.joined = false ∧
      conn.enters = false := by
  have hj : conn.joined = false := Bool.eq_false_iff.2 fun hj => by
    have := h.spawned hj
    rw [hs] at this; cases this
  exact ⟨hj, by rw [Conn.enters, he, hj]; rfl⟩

theorem Resumes.entering {s : Session} {next : After} {result : Except ServerError Bool} {pc : HandlerPc}
    (h : Resumes s next result pc) (hf : (Running.done result).Fine next.purpose) :
      pc.entering = (HandlerPc.serving s (.calling next (.done result))).entering := by
  cases h with
  | unencoded hj =>
    obtain ⟨post, hp, -⟩ := joinPost_ok s
    rw [hj] at hp
    cases hp
  | abandons hn => rcases hn with rfl | rfl <;> cases hf
  | @failed next =>
    cases next with
    | history => rfl
    | presence | join | joinPresence | chat | chatPresence | leave | leavePresence => cases hf
  | replayed | presented | joinDropped | joined | joinPresented | chatDropped | chatted | chatPresented | left
  | leavePresented => rfl

theorem entering_received (s : Session) (result : Except ServerError (Option Frame)) :
    (received s result).entering = false := by
  unfold received
  split
  · rfl
  · rfl
  · split <;> rfl

/-- A handler that goes on enters no further and has no leave to record. -/
theorem HandlerPc.Waits.entering {pc pc' : HandlerPc} (h : pc.Waits pc') (hf : pc.Fine) :
    pc'.entering = pc.entering ∧ pc.leaving = false := by
  cases h with
  | @resume s next result =>
    refine ⟨(resumes_resume s next result).entering hf, ?_⟩
    cases next <;> rfl
  | received => exact ⟨entering_received _ _, rfl⟩
  | timeout | refused | named | disconnected | limited | allowed | slept | tooLong => exact ⟨rfl, rfl⟩

/-- The handler's removal: if it removed its client and that joined, its leave is next. -/
theorem entering_afterRemoval (s : Session) (mode : FinishMode) (removed joined : Bool) :
    (afterRemoval s mode removed joined).entering = false ∧
      (removed = true → joined = true → (afterRemoval s mode removed joined).leaving = true) ∧
      (afterRemoval s mode removed joined).spawns = true := by
  obtain ⟨post, hp, -⟩ := leavePost_ok s
  unfold afterRemoval
  rw [hp]
  cases removed with
  | false => exact ⟨rfl, (by intro h; cases h), rfl⟩
  | true =>
    cases joined with
    | false => exact ⟨rfl, (by intro _ h; cases h), rfl⟩
    | true => exact ⟨rfl, fun _ _ => rfl, rfl⟩

/-- A section of a call that records its message. -/
theorem Departs.records {tr : List Event} {conn conn' : Conn} {post : Post} (h : Departs tr conn post.session)
    (he : conn'.enters = conn.enters) (hjoin : post.kind = .join → conn'.enters = true)
    (hl : post.kind ≠ .leave → conn.handler.leaving = true ∨ conn.writer.leaving = true →
      conn'.handler.leaving = true ∨ conn'.writer.leaving = true)
    (hs : conn'.joined = true → conn'.handler.spawns = true) : Departs (.recorded post :: tr) conn' post.session := by
  have hrec : ∀ kind, recordings post.session kind (.recorded post :: tr) =
      recordings post.session kind tr + if post.kind = kind then 1 else 0 := by
    intro kind
    exact recordings_recorded rfl kind tr
  refine ⟨fun h' => ?_, fun h' => ?_, fun h' hr => ?_, hs⟩
  · rw [he] at h'
    exact List.mem_cons_of_mem _ (h.ready h')
  · rw [hrec] at h'
    by_cases hk : post.kind = .join
    · exact hjoin hk
    · rw [if_neg hk] at h'
      rw [he]
      exact h.joins h'
  · rw [he] at h'
    rw [hrec]
    by_cases hk : post.kind = .leave
    · rw [if_pos hk]
      exact .inl (Nat.succ_pos _)
    · have hr' : .removed post.session ∈ tr := by simpa using hr
      rw [if_neg hk]
      exact (h.owed h' hr').imp id (hl hk)

/-- A section of a handler's call. -/
theorem Departs.handlerCall {w w' : World} {c : Nat} {s : Session} {next : After} {rx : List Rx} {call call' : Running}
    (htracked : Tracked w.shared) (hcon : Consistent w.st) (hb : (w.conns c).Bound w.trace)
    (hh : (w.conns c).handler = .serving s (.calling next call))
    (ht : CallTurn w (.handler c) (w.conns c).addr s.token rx call w' call')
    (hspares : ∀ b u, call.dooms = some (b, u) → ∀ p ∈ w.st.delivering, p.2.token = u → p.2.ready = false)
    (h : Departs w.trace (w.conns c) s.token) :
    Departs w'.trace { w.conns c with handler := .serving s (.calling next call') } s.token := by
  have hserves := hb.handling
  rw [hh] at hserves
  have hspawned : (HandlerPc.serving s (.calling next call')).spawns = true := rfl
  have henters : (HandlerPc.serving s (.calling next call')).entering = (w.conns c).handler.entering →
      Conn.enters { w.conns c with handler := .serving s (.calling next call') } = (w.conns c).enters := by
    intro he
    rw [Conn.enters, he]
    rfl
  rcases ht.recording hserves with ⟨post, rfl, rfl, hp, hsess, htr⟩ | ⟨hrecords, -, hrec⟩
  · have hentering : (HandlerPc.serving s (.calling next (.critical (.deliver post none)))).entering =
      (w.conns c).handler.entering := by
      rw [hh]
      cases next with
      | history | presence | joinPresence | chatPresence | leavePresence => cases hp
      | join | chat | leave => rfl
    rw [htr]
    rw [← hsess] at h ⊢
    refine h.records (henters hentering) ?_ ?_ fun _ => hspawned
    · intro hk
      cases next with
      | join => rfl
      | chat | leave => rw [hk] at hp; cases hp
      | history | presence | joinPresence | chatPresence | leavePresence => cases hp
    · intro hk hl
      refine hl.imp_left fun hl => ?_
      rw [hh] at hl
      cases next with
      | leave => exact absurd (Purpose.post.inj hp).symm hk
      | history | presence | join | joinPresence | chat | chatPresence | leavePresence => cases hl
  · obtain ⟨events, htr, -⟩ := (ht.serves hserves).2
    have hready : .ready s.token ∈ w.trace → .ready s.token ∈ w'.trace := by
      intro hr
      rw [htr]
      exact List.mem_append_right _ hr
    have hframe : (HandlerPc.serving s (.calling next call')).entering = (w.conns c).handler.entering →
        Departs w'.trace { w.conns c with handler := .serving s (.calling next call') } s.token := by
      intro he
      refine h.frame (fun kind => hrec _ kind) hready ?_ (henters he) ?_ fun _ => hspawned
      · intro hen hrem
        exact ht.spares htracked hcon hspares (h.ready hen) hrem
      · intro hl
        refine hl.imp_left fun hl => ?_
        rw [hh] at hl
        cases next with
        | leave => exact hrecords.trans hl
        | history | presence | join | joinPresence | chat | chatPresence | leavePresence => cases hl
    cases next with
    | history =>
      rcases ht.readies hcon hserves with ⟨he, -⟩ | ⟨he, htr', hid⟩
      · exact hframe (by rw [hh]; exact he)
      · -- the client is made ready while it is in the registry
        have hlive : .removed s.token ∉ w.trace := ((htracked.live _ _).1 hid).2
        refine ⟨fun _ => ?_, fun _ => ?_, fun _ hrem => ?_, fun _ => hspawned⟩
        · rw [htr']
          exact List.mem_cons_self
        · rw [Conn.enters]
          simp [HandlerPc.entering, he]
        · rw [htr'] at hrem
          exact absurd (by simpa using hrem) hlive
    | presence | join | joinPresence | chat | chatPresence | leave | leavePresence => exact hframe (by rw [hh]; rfl)

/-- A section of a writer's call. -/
theorem Departs.writerCall {w w' : World} {c : Nat} {s : Session} {pc : WritePc} {rx : List Rx} {call call' : Running}
    {goto : Running → WritePc} (htracked : Tracked w.shared) (hcon : Consistent w.st) (hb : (w.conns c).Bound w.trace)
    (hw : (w.conns c).writer = .running s pc) (hpc : pc.Calls call goto)
    (ht : CallTurn w (.writer c) (w.conns c).addr s.token rx call w' call')
    (hspares : ∀ b u, call.dooms = some (b, u) → ∀ p ∈ w.st.delivering, p.2.token = u → p.2.ready = false)
    (h : Departs w.trace (w.conns c) s.token) :
    Departs w'.trace { w.conns c with writer := .running s (goto call') } s.token := by
  obtain ⟨-, p, -, hserves, -⟩ := hb.calls hw hpc
  obtain ⟨events, htr, -⟩ := (ht.serves hserves).2
  have hready : .ready s.token ∈ w.trace → .ready s.token ∈ w'.trace := by
    intro hr
    rw [htr]
    exact List.mem_append_right _ hr
  have hrem : (w.conns c).enters = true → .removed s.token ∈ w'.trace → .removed s.token ∈ w.trace := by
    intro hen hrem
    exact ht.spares htracked hcon hspares (h.ready hen) hrem
  have hserves := hb.writing
  rw [hw] at hserves
  cases hpc with
  | posting =>
    rcases ht.recording hserves with ⟨post, rfl, rfl, hp, hsess, htr⟩ | ⟨hrecords, -, hrec⟩
    · have hk : post.kind = .leave := (Purpose.post.inj hp).symm
      rw [htr]
      rw [← hsess] at h ⊢
      refine h.records rfl ?_ ?_ h.spawned
      · intro hk'
        rw [hk] at hk'
        cases hk'
      · intro hk'
        exact absurd hk hk'
    · refine h.frame (fun kind => hrec _ kind) hready hrem rfl ?_ h.spawned
      intro hl
      refine hl.imp_right fun hl => ?_
      rw [hw] at hl
      exact hrecords.trans hl
  | presenting =>
    rcases ht.recording hserves with ⟨post, -, -, hp, -⟩ | ⟨-, -, hrec⟩
    · cases hp
    · refine h.frame (fun kind => hrec _ kind) hready hrem rfl ?_ h.spawned
      intro hl
      refine hl.imp_right fun hl => ?_
      rw [hw] at hl
      cases hl

/-- A session whose writer is not spawned, after a step that records nothing. -/
theorem Departs.unspawned {tr tr' : List Event} {conn conn' : Conn} {t : ClientToken} (h : Departs tr conn t)
    (hs : conn.handler.spawns = false) (he : conn.handler.entering = false)
    (hrec : ∀ kind, recordings t kind tr' = recordings t kind tr) (hj : conn'.joined = conn.joined)
    (he' : conn'.handler.entering = false) : Departs tr' conn' t := by
  obtain ⟨hjoined, ho⟩ := h.enters_of_unspawned hs he
  exact h.outside hrec ho (hj.trans hjoined) he'

theorem departs_registered {tr : List Event} {conn : Conn} {s : Session} {a : SocketAddr} (hj : conn.joined = false)
    (hrec : ∀ kind, recordings s.token kind tr = 0) :
    Departs (.registered s.token a :: tr) { conn with handler := .serving s .setUsername } s.token := by
  have ho : Conn.enters { conn with handler := .serving s .setUsername } = false := by
    rw [Conn.enters, hj]
    rfl
  refine ⟨fun he => ?_, fun hjoin => ?_, fun he => ?_, fun hjoined => ?_⟩
  · rw [ho] at he; cases he
  · have hnone : recordings s.token .join (.registered s.token a :: tr) = 0 := hrec .join
    omega
  · rw [ho] at he; cases he
  · rw [hj] at hjoined; cases hjoined

/-- The handler's removal: the leave is its own to record, or someone else removed the client. -/
theorem Departs.finishes {tr : List Event} {conn : Conn} {s : Session} {mode : FinishMode} (h : Departs tr conn s.token)
    (hh : conn.handler = .serving s (.finish mode)) (removed : Bool) :
    Departs (removedEvent s.token removed ++ tr)
      { conn with handler := afterRemoval s mode removed conn.joined } s.token := by
  obtain ⟨hentering, hleaving, hspawns⟩ := entering_afterRemoval s mode removed conn.joined
  have he : Conn.enters { conn with handler := afterRemoval s mode removed conn.joined } = conn.enters := by
    rw [Conn.enters, Conn.enters, hh, hentering]
    rfl
  cases removed with
  | false =>
    refine h.frame (fun _ => rfl) id (fun _ => id) he ?_ fun _ => hspawns
    intro hl
    refine .inr (hl.resolve_left ?_)
    rw [hh]
    exact Bool.false_ne_true
  | true =>
    refine ⟨fun h' => ?_, fun h' => ?_, fun h' _ => ?_, fun _ => hspawns⟩
    · rw [he] at h'
      exact List.mem_append_right _ (h.ready h')
    · rw [recordings_removed] at h'
      rw [he]
      exact h.joins h'
    · rw [Conn.enters, hentering, Bool.false_or] at h'
      exact .inr (.inl (hleaving rfl h'))

/-- The writer's removal. -/
theorem Departs.removes {tr : List Event} {conn : Conn} {s : Session} (h : Departs tr conn s.token)
    (hw : conn.writer = .running s .remove) (removed : Bool) : Departs (removedEvent s.token removed ++ tr)
      { conn with writer := .running s (if removed then .loadJoined else .stopping) } s.token := by
  cases removed with
  | false =>
    refine h.frame (fun _ => rfl) id (fun _ => id) rfl ?_ h.spawned
    intro hl
    refine .inl (hl.resolve_right ?_)
    rw [hw]
    exact Bool.false_ne_true
  | true =>
    refine ⟨fun h' => List.mem_append_right _ (h.ready h'), fun h' => ?_, fun _ _ => .inr (.inr rfl), h.spawned⟩
    rw [recordings_removed] at h'
    exact h.joins h'

/-- The writer goes on: if it finds the joined flag unset, its handler is not about to set it. -/
theorem Departs.writerWaits {tr : List Event} {conn : Conn} {s : Session} {t : ClientToken} {pc pc' : WritePc}
    (h : Departs tr conn t) (hw : conn.writer = .running s pc) (hwait : pc.Waits s conn.joined pc')
    (hwaits : pc = .loadJoined → conn.joined = true ∨ conn.handler.entering = false) :
    Departs tr { conn with writer := .running s pc' } t := by
  have hframe : (WriterPc.running s pc).leaving = false ∨ (WriterPc.running s pc').leaving = true →
      Departs tr { conn with writer := .running s pc' } t := by
    intro hl
    refine h.frame (fun _ => rfl) id (fun _ => id) rfl ?_ h.spawned
    rintro (hh | hwl)
    · exact .inl hh
    · rcases hl with hl | hl
      · rw [hw, hl] at hwl; cases hwl
      · exact .inr hl
  cases hwait with
  | announces => exact hframe (.inr rfl)
  | unencoded hj hp =>
    obtain ⟨post, hok, -⟩ := leavePost_ok s
    rw [hp] at hok
    cases hok
  | unjoined hj =>
    have he : conn.handler.entering = false := (hwaits rfl).resolve_left (by rw [hj]; exact Bool.false_ne_true)
    refine h.outside (fun _ => rfl) ?_ hj he
    rw [Conn.enters, he, hj]
    rfl
  | gone | written | failed | posted | presented => exact hframe (.inl rfl)

theorem Turn.departs {w w' : World} {c : Nat} {l : Label} {conn : Conn} (hw : System.Reach server Announces w)
    (hG : Announces w l) (h : Turn w c l w' conn)
    (hP : ∀ s, (w.conns c).handler.session = some s → Departs w.trace (w.conns c) s.token) :
    ∀ s, conn.handler.session = some s → Departs w'.trace conn s.token := by
  obtain ⟨hsound, hr⟩ := sound_of_reach hw
  have htracked := tracked_of_reach hr
  have hcon : Consistent w.st := (fed_of_reach hr).consistent
  have hb := hsound.bound c
  intro s hs
  cases h with
  | @registered _ username _ _ hh hreg =>
    obtain ⟨rfl, -⟩ := registerClientWithStatus_ok hreg
    cases hs
    apply departs_registered (s := ⟨w.st.nextToken, username⟩) ((announced_of_reach hw c).1 (by rw [hh]; rfl))
    intro kind
    exact recordings_fresh hw kind
  | accept | acquired | full | admitted | refused | unregistered => cases hs
  | named hh | unnamed hh =>
    cases hs
    exact (hP s (by rw [hh]; rfl)).unspawned (by rw [hh]; rfl) (by rw [hh]; rfl) (fun _ => rfl) rfl rfl
  | unregister hh =>
    cases hs
    exact (hP s (by rw [hh]; rfl)).unspawned (by rw [hh]; rfl) (by rw [hh]; rfl)
      (fun kind => recordings_removed _ _ kind _ _) rfl rfl
  | @call s₀ next rx r _ r' hh ht =>
    cases hs
    apply (hP s (by rw [hh]; rfl)).handlerCall htracked hcon hb hh ht
    intro b u hdooms
    exact hG.spares (.handler c) _ b u rfl (by rw [World.calls, hh]; rfl) hdooms
  | storeJoined hh =>
    cases hs
    refine (hP s (by rw [hh]; rfl)).frame (fun _ => rfl) id (fun _ => id) ?_ ?_ fun _ => rfl
    · rw [Conn.enters, Conn.enters, hh]
      rfl
    · intro hl
      refine hl.imp_left fun hl => ?_
      rw [hh] at hl
      cases hl
  | @finish _ s₀ mode removed st hh hrem =>
    rw [(session_afterRemoval s₀ mode removed (w.conns c).joined).1] at hs
    cases hs
    exact (hP s (by rw [hh]; rfl)).finishes hh removed
  | @wait _ pc pc' hh hwait =>
    have hs₀ : (w.conns c).handler.session = some s := by rw [hh, ← hwait.same.1]; exact hs
    have hf := (fine_of_reach hw c).1
    rw [hh] at hf
    obtain ⟨hentering, hleaving⟩ := hwait.entering hf
    refine (hP s hs₀).frame (fun _ => rfl) id (fun _ => id) ?_ ?_ fun _ => (hwait.begins (w.conns c).addr).spawns
    · rw [Conn.enters, Conn.enters, hh, hentering]
    · intro hl
      refine .inr (hl.resolve_left ?_)
      rw [hh, hleaving]
      exact Bool.false_ne_true
  | dropPermit hh | dropGlobal hh =>
    refine (hP s (by rw [hh]; exact hs)).frame (fun _ => rfl) id (fun _ => id) ?_ ?_ fun _ => rfl
    · rw [Conn.enters, Conn.enters, hh]
      rfl
    · intro hl
      refine .inr (hl.resolve_left ?_)
      rw [hh]
      exact Bool.false_ne_true
  | receive hwr | stop hwr =>
    refine (hP s hs).frame (fun _ => rfl) id (fun _ => id) rfl ?_ (hP s hs).spawned
    intro hl
    refine .inl (hl.resolve_right ?_)
    rw [hwr]
    exact Bool.false_ne_true
  | @remove _ s₀ removed st hwr hrem =>
    have hs₀ := hb.writer s₀ (by rw [hwr]; rfl)
    rw [hs₀] at hs
    cases hs
    exact (hP s hs₀).removes hwr removed
  | @writerCall s₀ rx pc r _ r' goto hwr hpc ht =>
    have hs₀ := (hb.calls hwr hpc).1
    rw [hs₀] at hs
    cases hs
    apply (hP s hs₀).writerCall htracked hcon hb hwr hpc ht
    intro b u hdooms
    refine hG.spares (.writer c) _ b u rfl ?_ hdooms
    rw [World.calls, hwr]
    cases hpc <;> rfl
  | @writerWait _ s₀ pc pc' hwr hwait =>
    apply (hP s hs).writerWaits hwr hwait
    rintro rfl
    exact hG.waits c s₀ rfl hwr

/-- A step of another connection removes no session that is ready. -/
theorem Turn.spares_other {w w' : World} {c : Nat} {l : Label} {conn : Conn} (hsound : Sound w)
    (htracked : Tracked w.shared) (hcon : Consistent w.st) (hG : Announces w l) (h : Turn w c l w' conn) {d : Nat}
    (hd : d ≠ c) {s : Session} (hs : (w.conns d).handler.session = some s) (hready : .ready s.token ∈ w.trace)
    (hrem : .removed s.token ∈ w'.trace) : .removed s.token ∈ w.trace := by
  have hb := hsound.bound c
  have hother : ∀ {s' removed}, (w.conns c).handler.session = some s' →
      .removed s.token ∈ removedEvent s'.token removed ++ w.trace → .removed s.token ∈ w.trace := by
    intro s' removed hs' hmem
    refine (List.mem_append.1 hmem).resolve_left fun hmem => hd ?_
    cases removed with
    | false => cases hmem
    | true => exact hsound.distinct d c s s' hs hs' (Event.removed.inj (List.mem_singleton.1 hmem))
  cases h with
  | call hh ht =>
    refine ht.spares htracked hcon (fun b u hdooms => ?_) hready hrem
    exact hG.spares (.handler c) _ b u rfl (by rw [World.calls, hh]; rfl) hdooms
  | writerCall hwr hpc ht =>
    refine ht.spares htracked hcon (fun b u hdooms => ?_) hready hrem
    refine hG.spares (.writer c) _ b u rfl ?_ hdooms
    rw [World.calls, hwr]
    cases hpc <;> rfl
  | unregister hh | finish hh => exact hother (by rw [hh]; rfl) hrem
  | remove hwr => exact hother (hb.writer _ (by rw [hwr]; rfl)) hrem
  | registered | named => simpa using hrem
  | accept | acquired | full | admitted | refused | unregistered | unnamed | storeJoined | wait | dropPermit
  | dropGlobal | receive | writerWait | stop => exact hrem

theorem departs_of_reach {w : World} (hw : System.Reach server Announces w) (c : Nat) :
    ∀ s, (w.conns c).handler.session = some s → Departs w.trace (w.conns c) s.token := by
  refine forall_conns (P := fun tr conn => ∀ s, conn.handler.session = some s → Departs tr conn s.token) ?_ ?_ ?_ hw c
  · intro s hs
    cases hs
  · intro w l c w' conn hr hG h hP
    exact h.departs hr hG hP
  · intro w l c w' conn d hr hG h hd hf hP s hs
    obtain ⟨hsound, hr'⟩ := sound_of_reach hr
    have htracked := tracked_of_reach hr'
    have hcon : Consistent w.st := (fed_of_reach hr').consistent
    have hP' := hP s hs
    refine hP'.frame (fun kind => (hf s hs).recordings kind) ((hf s hs).mem rfl).2 ?_ rfl id hP'.spawned
    intro hen hrem
    exact h.spares_other hsound htracked hcon hG hd hs (hP'.ready hen) hrem

/-- **Every join has its leave.**  In a run in which no loop drops a client that is ready, and no writer that removed
its client finds the joined flag unset while its handler is entering the chat: a session that recorded its join has
recorded its leave by the time its `serve` and its writer have ended. -/
theorem leave_recorded {w : World} (hw : System.Reach server Announces w) {c : Nat} {s : Session}
    (hover : (w.conns c).over = some s) (hjoin : 0 < recordings s.token .join w.trace) :
    0 < recordings s.token .leave w.trace := by
  obtain ⟨hh, hwr⟩ := Conn.over_eq_some hover
  have hout : (w.conns c).handler.out = some s ∧ (w.conns c).handler.session = some s ∧
    (w.conns c).handler.leaving = false := by
    revert hh
    cases (w.conns c).handler <;> intro hh <;> cases hh <;> exact ⟨rfl, rfl, rfl⟩
  obtain ⟨hout, hs, hleaving⟩ := hout
  have h := departs_of_reach hw c s hs
  rcases h.owed (h.joins hjoin) (removed_of_out hw c hout) with hleave | hl | hl
  · exact hleave
  · rw [hleaving] at hl
    cases hl
  · rw [hwr] at hl
    cases hl

/-! ## A write that fails -/

/-- The loop's next client, if any, is not ready. -/
def sparesReady (w : World) (call : Running) : Bool :=
  match call.dooms with
  | some (_, t) => w.st.delivering.all fun p => p.2.token != t || !p.2.ready
  | none => true

def announces (w : World) (l : Label) : Bool :=
  (l.task.bind w.calls).all (sparesReady w) &&
    match l.task with
    | some (.writer c) =>
      match (w.conns c).writer with
      | .running _ .loadJoined => (w.conns c).joined || !(w.conns c).handler.entering
      | _ => true
    | _ => true

theorem announces_sound (w : World) (l : Label) (h : announces w l = true) : Announces w l := by
  rw [announces, Bool.and_eq_true] at h
  obtain ⟨hspares, hwaits⟩ := h
  refine ⟨?_, ?_⟩
  · intro task call a t hl hcall hdooms p hp ht
    rw [hl, Option.bind_some, hcall, Option.all_some, sparesReady, hdooms] at hspares
    have := List.all_eq_true.1 hspares p hp
    simpa [ht] using this
  · intro c s hl hwr
    rw [hl] at hwaits
    simp only [hwr, Bool.or_eq_true, Bool.not_eq_true'] at hwaits
    exact hwaits

/-- The writer takes so many messages, writes them, and ends. -/
def drains (c messages : Nat) : List Label :=
  (List.replicate messages [.writer c .go, .writer c (.written true)]).flatten ++ [.writer c .go, .writer c .go]

/-- The session is over, and recorded its join and so many leaves. -/
def departed (w : World) (c leaves : Nat) : Bool :=
  (w.conns c).over.any fun s => recordings s.token .join w.trace == 1 && recordings s.token .leave w.trace == leaves

theorem over_of_departed {w : World} {c leaves : Nat} (h : departed w c leaves = true) :
    ∃ s, (w.conns c).over = some s ∧
    recordings s.token .join w.trace = 1 ∧ recordings s.token .leave w.trace = leaves := by
  unfold departed at h
  cases hs : (w.conns c).over with
  | none =>
    rw [hs] at h
    cases h
  | some s =>
    rw [hs, Option.any_some, Bool.and_eq_true, beq_iff_eq, beq_iff_eq] at h
    exact ⟨s, rfl, h⟩

/-- Bob joins and leaves. -/
theorem leave_recorded_bob : ∃ w s, System.Reach server Announces w ∧ (w.conns 0).over = some s ∧
    0 < recordings s.token .join w.trace ∧ 0 < recordings s.token .leave w.trace := by
  obtain ⟨w, hw, ht⟩ := System.exists_of_runIf announces_sound server (fun w => departed w 0 1)
    (registers 0 bobAddr "bob" ++ replays 0 0 ++ enters 0 ++ leaves 0 ++ [.handler 0 .go] ++ sectionsOf 4 0 ++
      [.handler 0 .go] ++
      drains 0 2) (by decide)
  obtain ⟨s, hover, hjoin, -⟩ := over_of_departed ht
  have hpos : 0 < recordings s.token .join w.trace := by omega
  exact ⟨w, s, hw, hover, hpos, leave_recorded hw hover hpos⟩

/-- Bob's first write fails while he enters: his writer removes him and finds the joined flag unset, his handler records
the join and sets the flag, and no one records his leave. -/
theorem leave_not_recorded : ∃ w s, System.Reach server System.Any w ∧ (w.conns 0).over = some s ∧
    0 < recordings s.token .join w.trace ∧ ¬ 0 < recordings s.token .leave w.trace := by
  obtain ⟨w, hw, ht⟩ := System.exists_of_run server (fun w => departed w 0 0)
    (registers 0 bobAddr "bob" ++ replays 0 0 ++ sectionsOf 3 0 ++
      [.writer 0 .go, .writer 0 (.written false), .writer 0 .go, .writer 0 .go] ++
        List.replicate 4 (.writer 0 (.rx [])) ++
      [.writer 0 .go, .writer 0 .go] ++ sectionsOf 1 0 ++ [.handler 0 .go] ++ sectionsOf 4 0 ++
        [.handler 0 .go, .handler 0 .go] ++
      [.handler 0 .disconnected, .handler 0 .go]) (by decide)
  obtain ⟨s, hover, hjoin, hleave⟩ := over_of_departed ht
  exact ⟨w, s, hw, hover, by omega, by omega⟩

end Server
end Drocsid
