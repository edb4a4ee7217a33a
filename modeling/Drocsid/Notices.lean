import Drocsid.Permits
import Drocsid.Names
/-!
# Notices — the joins and leaves a session announces

A session's leave is announced by who removed it, the handler or its writer, and a removal succeeds once; so of a
session in the registry, a leave about to be recorded and a leave recorded there is at most one (`Announced.once`).
Both look at the joined flag first, which is set when the join is recorded: a leave comes after its join
(`leaves_after_joins`).
-/
namespace Drocsid

open Text Protocol

namespace Server

/-- The event records a message of the session, of that kind. -/
def Event.records (t : ClientToken) (kind : PostKind) : Event → Bool
  | .recorded post => post.session == t && post.kind == kind
  | _ => false

/-- How many messages of a kind a session recorded. -/
def recordings (t : ClientToken) (kind : PostKind) (tr : List Event) : Nat := tr.countP (Event.records t kind)

/-- Every event of a trace is as it should be after those before it. -/
def Throughout (p : Event → List Event → Prop) : List Event → Prop
  | [] => True
  | e :: tr => p e tr ∧ Throughout p tr

theorem Throughout.split {p : Event → List Event → Prop} {tr₁ tr₂ : List Event} {e : Event}
    (h : Throughout p (tr₁ ++ e :: tr₂)) : p e tr₂ := by
  induction tr₁ with
  | nil => exact h.1
  | cons d tr₁ ih => exact ih h.2

/-- A trace that gained only events of which there is nothing to say. -/
theorem Throughout.append {p : Event → List Event → Prop} : ∀ {events tr : List Event}, Throughout p tr →
    (∀ e ∈ events, ∀ tr, p e tr) → Throughout p (events ++ tr)
  | [], _, h, _ => h
  | e :: _, _, h, hev => ⟨hev e List.mem_cons_self _, h.append fun e he => hev e (List.mem_cons_of_mem _ he)⟩

theorem author_of_records {t : ClientToken} {kind : PostKind} {e : Event} (h : e.records t kind = true) :
    e.author = some t := by
  cases e with
  | recorded post =>
    simp only [Event.records, Bool.and_eq_true, beq_iff_eq] at h
    exact congrArg some h.1
  | registered | named | snapshot | replayed | ready | broadcast | removed => cases h

theorem recordings_append {t : ClientToken} {kind : PostKind} {events : List Event}
    (h : ∀ e ∈ events, e.records t kind = false) (tr : List Event) :
      recordings t kind (events ++ tr) = recordings t kind tr := by
  rw [recordings, List.countP_append, List.countP_eq_zero.2 fun e he => by simp [h e he], Nat.zero_add]
  rfl

theorem recordings_removed (t u : ClientToken) (kind : PostKind) (removed : Bool) (tr : List Event) :
    recordings t kind (removedEvent u removed ++ tr) = recordings t kind tr := by
  cases removed <;> rfl

/-- A recorded message is one more of its session and kind. -/
theorem recordings_recorded {t : ClientToken} {post : Post} (h : post.session = t) (kind : PostKind) (tr : List Event) :
    recordings t kind (.recorded post :: tr) = recordings t kind tr + if post.kind = kind then 1 else 0 := by
  rw [recordings, List.countP_cons]
  simp [Event.records, h, recordings]

theorem Foreign.recordings {t : ClientToken} {tr tr' : List Event} (h : Foreign t tr tr') (kind : PostKind) :
    recordings t kind tr' = recordings t kind tr := by
  obtain ⟨events, rfl, hev⟩ := h
  exact recordings_append (fun e he => Bool.eq_false_iff.2 fun hr => hev e he (author_of_records hr)) tr

/-- An event is of a session that registered. -/
theorem registered_of_author {G : World → Label → Prop} {w : World} (hw : System.Reach server G w) {e : Event}
    (he : e ∈ w.trace) {t : ClientToken} (ht : e.author = some t) : ∃ a, .registered t a ∈ w.trace := by
  refine hw.invariant (I := fun w => ∀ e ∈ w.trace, ∀ t, e.author = some t → ∃ a, .registered t a ∈ w.trace) nofun
    (fun w l w' hr hI _ hstep e he t ht => ?_) e he t ht
  cases steps_of_step hstep with
  | reorder => exact hI e he t ht
  | @turn _ c w' conn h =>
    obtain ⟨hsound, hr'⟩ := sound_of_reach hr
    obtain ⟨events, htr, hev⟩ := h.events (hsound.bound c)
    have he : e ∈ w'.trace := he
    rw [htr] at he
    rcases List.mem_append.1 he with he | he
    · obtain ⟨s, hs, rfl⟩ := hev e he t ht
      exact ⟨_, (h.bound (fed_of_reach hr') (hsound.bound c)).registered s hs⟩
    · obtain ⟨a, ha⟩ := hI e he t ht
      refine ⟨a, ?_⟩
      show Event.registered t a ∈ w'.trace
      rw [htr]
      exact List.mem_append_right _ ha

/-- A session about to register recorded nothing. -/
theorem recordings_fresh {G : World → Label → Prop} {w : World} (hw : System.Reach server G w) (kind : PostKind) :
    recordings w.st.nextToken kind w.trace = 0 := by
  refine List.countP_eq_zero.2 fun e he hr => ?_
  obtain ⟨a, ha⟩ := registered_of_author hw he (author_of_records hr)
  exact Nat.lt_irrefl _ ((tracked_of_reach (sound_of_reach hw).2).registered_lt _ _ ha)

/-! ## Where a session is with its notices -/

/-- The call has its message to record. -/
def Running.records : Running → Bool
  | .lockRecord _ | .critical (.record _ _) => true
  | _ => false

/-- The call recorded its message. -/
def Running.recorded : Running → Bool
  | .critical (.deliver _ _) | .critical (.drop _ _) | .done _ => true
  | _ => false

/-- The handler removed the client and has its leave to record. -/
def HandlerPc.leaving : HandlerPc → Bool
  | .serving _ (.calling (.leave _) call) => call.records
  | _ => false

/-- The join is recorded, and the joined flag not yet set. -/
def HandlerPc.entered : HandlerPc → Bool
  | .serving _ (.calling .join call) => call.recorded
  | .serving _ (.calling .joinPresence _) | .serving _ .storeJoined => true
  | _ => false

/-- The writer removed the client and has its leave to record. -/
def WriterPc.announcing : WriterPc → Bool
  | .running _ (.posting call) => call.records
  | _ => false

/-- The writer removed the client, and has its leave to record if it joined. -/
def WriterPc.leaving : WriterPc → Bool
  | .running _ .loadJoined => true
  | .running _ (.posting call) => call.records
  | _ => false

/-- A section of a call records its message, or nothing. -/
theorem CallTurn.recording {w w' : World} {me : Task} {a : SocketAddr} {t : ClientToken} {rx : List Rx} {p : Purpose}
    {call call' : Running} (h : CallTurn w me a t rx call w' call') (hs : call.Serves a t p) :
    (∃ post, call = .critical (.record post none) ∧ call' = .critical (.deliver post none) ∧ p = .post post.kind ∧
      post.session = t ∧ w'.trace = .recorded post :: w.trace) ∨
    (call'.records = call.records ∧ (∀ kind, p = .post kind → call'.recorded = call.recorded) ∧
      ∀ u kind, recordings u kind w'.trace = recordings u kind w.trace) := by
  cases h with
  | lockReplay | lockRecord => exact .inr ⟨rfl, fun _ _ => rfl, fun _ _ => rfl⟩
  | unlock hd =>
    cases hs with
    | critical hs =>
      cases hs with
      | replayed => exact .inr ⟨rfl, nofun, fun _ _ => rfl⟩
      | drop => exact .inr ⟨rfl, fun _ _ => rfl, fun _ _ => rfl⟩
      | lookup | snapshot | replay | record | deliver => cases hd
  | advance _ hc =>
    cases hs with
    | critical hs =>
      cases advances_of_step hc with
      | record => cases hs with | record hsess hk => exact .inl ⟨_, rfl, rfl, by rw [hk], hsess, rfl⟩
      | deliver => exact .inr ⟨rfl, fun _ _ => rfl, fun _ _ => rfl⟩
      | drop => exact .inr ⟨rfl, fun _ _ => rfl, fun u kind => recordings_removed _ _ _ _ _⟩
      | unknown | found | snapshot | unencoded | refused | replayed | readied | unreadied =>
        cases hs
        exact .inr ⟨rfl, nofun, fun _ _ => rfl⟩
  | prune | taken | unencoded => cases hs; exact .inr ⟨rfl, nofun, fun _ _ => rfl⟩
  | prunes | drops => cases hs; exact .inr ⟨rfl, nofun, fun u kind => recordings_removed _ _ _ _ _⟩
  | present => cases hs; exact .inr ⟨rfl, nofun, fun _ _ => rfl⟩
  | dropped => cases hs; exact .inr ⟨rfl, nofun, fun _ _ => rfl⟩

/-! ## Each session's notices -/

/-- A session's notices, by where its connection is: of being registered, about to record its leave and having recorded
it there is at most one; and who is to announce a leave saw the joined flag, which is set after the join is recorded. -/
structure Announced (tr : List Event) (conn : Conn) (t : ClientToken) : Prop where
  once : recordings t .leave tr + conn.handler.leaving.toNat + conn.writer.leaving.toNat +
    (if .removed t ∈ tr then 0 else 1) ≤ 1
  joined : conn.joined = true → 0 < recordings t .join tr
  entered : conn.handler.entered = true → 0 < recordings t .join tr
  handlerLeaves : conn.handler.leaving = true → conn.joined = true
  writerLeaves : conn.writer.announcing = true → conn.joined = true

theorem toNat_le {a b : Bool} (h : a = true → b = true) : a.toNat ≤ b.toNat := by
  cases a with
  | false => exact Nat.zero_le _
  | true => rw [h rfl]

/-- A step that records no message of the session and takes on no leave. -/
theorem Announced.frame {tr tr' : List Event} {conn conn' : Conn} {t : ClientToken} (h : Announced tr conn t)
    (hrec : ∀ kind, recordings t kind tr' = recordings t kind tr) (hrem : .removed t ∈ tr → .removed t ∈ tr')
    (hj : conn'.joined = conn.joined) (hl : conn'.handler.leaving = true → conn.handler.leaving = true)
    (he : conn'.handler.entered = true → conn.handler.entered = true)
    (hw : conn'.writer.leaving = true → conn.writer.leaving = true)
    (ha : conn'.writer.announcing = true → conn.writer.announcing = true) : Announced tr' conn' t := by
  refine ⟨?_, fun h' => ?_, fun h' => ?_, fun h' => ?_, fun h' => ?_⟩
  · have := h.once
    have hl' := toNat_le hl
    have hw' := toNat_le hw
    rw [hrec]
    by_cases hr : .removed t ∈ tr
    · rw [if_pos hr] at this; rw [if_pos (hrem hr)]; omega
    · rw [if_neg hr] at this; split <;> omega
  · rw [hrec]; exact h.joined (hj ▸ h')
  · rw [hrec]; exact h.entered (he h')
  · rw [hj]; exact h.handlerLeaves (hl h')
  · rw [hj]; exact h.writerLeaves (ha h')

theorem Resumes.leaving {s : Session} {next : After} {result : Except ServerError Bool} {pc : HandlerPc}
    (h : Resumes s next result pc) :
    pc.leaving = false ∧ (pc.entered = true → (HandlerPc.serving s (.calling next (.done result))).entered = true) := by
  cases h with
  | joinDropped | joined | joinPresented => exact ⟨rfl, fun _ => rfl⟩
  | @abandons _ mode => cases mode <;> exact ⟨rfl, fun hs => by cases hs⟩
  | replayed | presented | unencoded | chatDropped | chatted | chatPresented | left | leavePresented | failed =>
    exact ⟨rfl, fun hs => by cases hs⟩

theorem leaving_received (s : Session) (result : Except ServerError (Option Frame)) :
    (received s result).leaving = false ∧ (received s result).entered = false := by
  unfold received
  split
  · exact ⟨rfl, rfl⟩
  · exact ⟨rfl, rfl⟩
  · split <;> exact ⟨rfl, rfl⟩

theorem HandlerPc.Waits.leaving {pc pc' : HandlerPc} (h : pc.Waits pc') :
    pc'.leaving = false ∧ (pc'.entered = true → pc.entered = true) := by
  cases h with
  | resume => exact (resumes_resume _ _ _).leaving
  | received => exact ⟨(leaving_received _ _).1, fun h => by rw [(leaving_received _ _).2] at h; cases h⟩
  | timeout | refused | named | disconnected | limited | allowed | slept | tooLong => exact ⟨rfl, nofun⟩

theorem leaving_afterRemoval (s : Session) (mode : FinishMode) (removed joined : Bool) :
    ((afterRemoval s mode removed joined).leaving = true → removed = true ∧ joined = true) ∧
      (afterRemoval s mode removed joined).entered = false := by
  unfold afterRemoval
  split
  · rename_i hr
    rw [Bool.and_eq_true] at hr
    split
    · exact ⟨fun _ => hr, rfl⟩
    · cases mode <;> exact ⟨nofun, rfl⟩
  · exact ⟨nofun, rfl⟩

/-- A session's first notices: none. -/
theorem announced_registered {tr : List Event} {conn : Conn} {t : ClientToken} {a : SocketAddr}
    (hfresh : ∀ kind, recordings t kind tr = 0) (hj : conn.joined = false) (hl : conn.handler.leaving = false)
    (he : conn.handler.entered = false) (hw : conn.writer = .unspawned) : Announced (.registered t a :: tr) conn t := by
  have hrec : ∀ kind, recordings t kind (.registered t a :: tr) = 0 := hfresh
  refine ⟨?_, fun h => ?_, fun h => ?_, fun h => ?_, fun h => ?_⟩
  · rw [hrec, hl, hw]
    split <;> simp [WriterPc.leaving]
  · rw [hj] at h; cases h
  · rw [he] at h; cases h
  · rw [hl] at h; cases h
  · rw [hw] at h; cases h

/-- A call's section that records no message. -/
theorem Announced.handlerCall {w w' : World} {conn : Conn} {s : Session} {next : After} {call call' : Running}
    (h : Announced w.trace conn s.token) (hh : conn.handler = .serving s (.calling next call))
    (hrem : .removed s.token ∈ w.trace → .removed s.token ∈ w'.trace) (hr : call'.records = call.records)
    (hrec : ∀ kind, next.purpose = .post kind → call'.recorded = call.recorded)
    (htr : ∀ kind, recordings s.token kind w'.trace = recordings s.token kind w.trace) :
    Announced w'.trace { conn with handler := .serving s (.calling next call') } s.token := by
  refine h.frame htr hrem rfl (fun hl => ?_) (fun he => ?_) id id
  · rw [hh]
    cases next with
    | leave mode => exact hr.symm.trans hl
    | _ => cases hl
  · rw [hh]
    cases next with
    | join => exact (hrec .join rfl).symm.trans he
    | joinPresence => rfl
    | _ => cases he

/-- The section of a handler's call that records its message. -/
theorem Announced.handlerRecords {tr : List Event} {conn : Conn} {s : Session} {next : After} {post : Post}
    (h : Announced tr conn s.token) (hh : conn.handler = .serving s (.calling next (.critical (.record post none))))
    (hp : next.purpose = .post post.kind) (hs : post.session = s.token) :
    Announced (.recorded post :: tr)
      { conn with handler := .serving s (.calling next (.critical (.deliver post none))) } s.token := by
  have hrec := recordings_recorded hs
  have hle : ∀ kind, recordings s.token kind tr ≤ recordings s.token kind (.recorded post :: tr) := fun kind => by
    rw [hrec]; exact Nat.le_add_right _ _
  have honce := h.once
  have hleaves := h.handlerLeaves
  rw [hh] at honce hleaves
  refine ⟨?_, fun hj => (h.joined hj).trans_le (hle _), fun he => ?_, fun hl => ?_, h.writerLeaves⟩
  · simp only [List.mem_cons, reduceCtorEq, false_or]
    rw [hrec]
    cases next with
    | leave mode =>
      -- the leave about to be recorded is the one recorded
      have hk : post.kind = .leave := (Purpose.post.inj hp).symm
      simp only [HandlerPc.leaving, Running.records, hk, if_true, Bool.toNat_true, Bool.toNat_false] at honce ⊢
      omega
    | join | chat =>
      have hk : post.kind ≠ .leave := by rw [← Purpose.post.inj hp]; exact nofun
      rw [if_neg hk]
      exact honce
    | history | presence | joinPresence | chatPresence | leavePresence => cases hp
  · cases next with
    | join =>
      have hk : post.kind = .join := (Purpose.post.inj hp).symm
      rw [hrec, if_pos hk]
      exact Nat.succ_pos _
    | history | presence | joinPresence | chatPresence | leavePresence => cases hp
    | chat | leave => cases he
  · cases next <;> cases hl

/-- The section of a writer's call that records its leave. -/
theorem Announced.writerRecords {tr : List Event} {conn : Conn} {s : Session} {post : Post}
    (h : Announced tr conn s.token) (hw : conn.writer = .running s (.posting (.critical (.record post none))))
    (hk : post.kind = .leave) (hs : post.session = s.token) :
    Announced (.recorded post :: tr)
      { conn with writer := .running s (.posting (.critical (.deliver post none))) } s.token := by
  have hrec := recordings_recorded hs
  have hle : ∀ kind, recordings s.token kind tr ≤ recordings s.token kind (.recorded post :: tr) := fun kind => by
    rw [hrec]; exact Nat.le_add_right _ _
  have honce := h.once
  rw [hw] at honce
  refine ⟨?_, fun hj => (h.joined hj).trans_le (hle _), fun he => (h.entered he).trans_le (hle _), h.handlerLeaves,
    nofun⟩
  simp only [List.mem_cons, reduceCtorEq, false_or]
  rw [hrec]
  simp only [WriterPc.leaving, Running.records, hk, if_true, Bool.toNat_true, Bool.toNat_false] at honce ⊢
  omega

/-- A removal by the session's own handler or writer, which may then have the leave to record. -/
theorem Announced.removes {w : World} {conn conn' : Conn} {t : ClientToken} {removed : Bool}
    (h : Announced w.trace conn t)
    (hr : removed = true ↔ .removed t ∉ w.trace) (hmem : .removed t ∈ removedEvent t removed ++ w.trace)
    (hj : conn'.joined = conn.joined) (he : conn'.handler.entered = true → conn.handler.entered = true)
    (hleave : conn'.handler.leaving.toNat + conn'.writer.leaving.toNat ≤
      conn.handler.leaving.toNat + conn.writer.leaving.toNat + removed.toNat)
    (hhandler : conn'.handler.leaving = true → conn.joined = true)
    (hwriter : conn'.writer.announcing = true → conn.writer.announcing = true) :
    Announced (removedEvent t removed ++ w.trace) conn' t := by
  have hrec := fun kind => recordings_removed t t kind removed w.trace
  refine ⟨?_, fun h' => ?_, fun h' => ?_, fun h' => ?_, fun h' => ?_⟩
  · have := h.once
    rw [hrec, if_pos hmem]
    by_cases hin : .removed t ∈ w.trace
    · have hremoved : removed = false := Bool.eq_false_iff.2 fun hr' => hr.1 hr' hin
      rw [if_pos hin] at this
      rw [hremoved, Bool.toNat_false] at hleave
      omega
    · rw [if_neg hin] at this
      have := Bool.toNat_le removed
      omega
  · rw [hrec]; exact h.joined (hj ▸ h')
  · rw [hrec]; exact h.entered (he h')
  · rw [hj]; exact hhandler h'
  · rw [hj]; exact h.writerLeaves (hwriter h')

/-- The joined flag is a session's. -/
theorem Turn.joins {w w' : World} {c : Nat} {l : Label} {conn : Conn} (h : Turn w c l w' conn)
    (hj : conn.joined = true) : (w.conns c).joined = true ∨ ∃ s, conn.handler.session = some s := by
  cases h with
  | accept => cases hj
  | storeJoined => exact .inr ⟨_, rfl⟩
  | acquired | full | admitted | refused | registered | unregistered | named | unnamed | unregister | call | finish
  | wait | dropPermit | dropGlobal | receive | remove | writerCall | writerWait | stop => exact .inl hj

theorem Turn.announced {G : World → Label → Prop} {w w' : World} {c : Nat} {l : Label} {conn : Conn}
    (hw : System.Reach server G w) (h : Turn w c l w' conn)
    (hj : (w.conns c).handler.session = none → (w.conns c).joined = false)
    (hP : ∀ s, (w.conns c).handler.session = some s → Announced w.trace (w.conns c) s.token) :
    ∀ s, conn.handler.session = some s → Announced w'.trace conn s.token := by
  obtain ⟨hsound, hr⟩ := sound_of_reach hw
  have htracked := tracked_of_reach hr
  have hcon := (fed_of_reach hr).consistent
  have hb := hsound.bound c
  obtain ⟨events, htr, -⟩ := h.events hb
  have hmono : ∀ {e}, e ∈ w.trace → e ∈ w'.trace := fun he => htr ▸ List.mem_append_right _ he
  have hremoved : ∀ {s removed st}, (w.conns c).handler.session = some s →
      removeClientIfCurrent w.st (w.conns c).addr s.token = some (removed, st) →
      (removed = true ↔ .removed s.token ∉ w.trace) ∧ .removed s.token ∈ removedEvent s.token removed ++ w.trace :=
    fun hs hrem => removed_after htracked hcon (hb.registered _ hs) hrem
  intro s hs
  cases h with
  | registered hh hreg =>
    obtain ⟨rfl, -⟩ := registerClientWithStatus_ok hreg
    cases hs
    have hunspawned := hb.unspawned (.inl (by rw [hh]; rfl))
    exact announced_registered (fun kind => recordings_fresh hw kind) (hj (by rw [hh]; rfl)) rfl rfl hunspawned
  | accept | acquired | full | admitted | refused | unregistered => cases hs
  | named hh =>
    cases hs
    have hunspawned := hb.unspawned (.inr (by rw [hh]; rfl))
    exact (hP s (by rw [hh]; rfl)).frame (fun _ => rfl) hmono rfl nofun nofun (by rw [hunspawned]; exact id)
      (by rw [hunspawned]; exact id)
  | unnamed hh => cases hs; exact (hP s (by rw [hh]; rfl)).frame (fun _ => rfl) id rfl nofun nofun id id
  | unregister hh hrem =>
    cases hs
    obtain ⟨hiff, hmem⟩ := hremoved (by rw [hh]; rfl) hrem
    exact (hP s (by rw [hh]; rfl)).removes hiff hmem rfl nofun (by rw [hh]; simp [HandlerPc.leaving]) nofun id
  | @call s₀ next rx r _ r' hh ht =>
    cases hs
    have hP' := hP s (by rw [hh]; rfl)
    have hserves := hb.handling
    rw [hh] at hserves
    rcases ht.recording hserves with ⟨post, rfl, rfl, hp, hsess, htr'⟩ | ⟨hr, hrec, hsame⟩
    · rw [htr']
      exact hP'.handlerRecords hh hp hsess
    · exact hP'.handlerCall hh hmono hr hrec fun kind => hsame _ kind
  | storeJoined hh =>
    cases hs
    have hP' := hP s (by rw [hh]; rfl)
    have honce := hP'.once
    rw [hh] at honce
    exact ⟨honce, fun _ => hP'.entered (by rw [hh]; rfl), nofun, nofun, fun _ => rfl⟩
  | @finish _ s₀ mode removed st hh hrem =>
    have hsess := (session_afterRemoval s₀ mode removed (w.conns c).joined).1
    rw [hsess] at hs
    cases hs
    obtain ⟨hiff, hmem⟩ := hremoved (by rw [hh]; rfl) hrem
    obtain ⟨hleaving, hentered⟩ := leaving_afterRemoval s mode removed (w.conns c).joined
    refine (hP s (by rw [hh]; rfl)).removes hiff hmem rfl (fun he => ?_) ?_ (fun hl => (hleaving hl).2) id
    · rw [hentered] at he; cases he
    · have := toNat_le fun hl => (hleaving hl).1
      show (afterRemoval s mode removed (w.conns c).joined).leaving.toNat + (w.conns c).writer.leaving.toNat ≤ _
      omega
  | wait hh hwait =>
    have hsame := hwait.same.1
    rw [hsame] at hs
    exact (hP s (by rw [hh]; exact hs)).frame (fun _ => rfl) id rfl (fun hl => by rw [hwait.leaving.1] at hl; cases hl)
      (fun he => by rw [hh]; exact hwait.leaving.2 he) id id
  | dropPermit hh | dropGlobal hh =>
    exact (hP s (by rw [hh]; exact hs)).frame (fun _ => rfl) id rfl nofun nofun id id
  | receive hwr => exact (hP s hs).frame (fun _ => rfl) id rfl id id nofun nofun
  | @remove _ s₀ removed st hwr hrem =>
    have hs₀ := hb.writer s₀ (by rw [hwr]; rfl)
    rw [hs₀] at hs
    cases hs
    obtain ⟨hiff, hmem⟩ := hremoved hs₀ hrem
    refine (hP s hs₀).removes hiff hmem rfl id ?_ (hP s hs₀).handlerLeaves (fun ha => ?_)
    · rw [hwr]
      cases removed <;> simp [WriterPc.leaving]
    · cases removed <;> cases ha
  | @writerCall s₀ rx pc r _ r' goto hwr hpc ht =>
    obtain ⟨hs₀, p, -, hserves, -⟩ := hb.calls hwr hpc
    rw [hs₀] at hs
    cases hs
    have hserves := hb.writing
    rw [hwr] at hserves
    cases hpc with
    | posting =>
      rcases ht.recording hserves with ⟨post, rfl, rfl, hp, hsess, htr'⟩ | ⟨hr, -, hsame⟩
      · rw [htr']
        exact (hP s hs₀).writerRecords hwr (Purpose.post.inj hp).symm hsess
      · exact (hP s hs₀).frame (fun kind => hsame _ kind) hmono rfl id id
          (fun hl => by rw [hwr]; exact hr.symm.trans hl) (fun ha => by rw [hwr]; exact hr.symm.trans ha)
    | presenting =>
      rcases ht.recording hserves with ⟨post, -, -, hp, -⟩ | ⟨-, -, hsame⟩
      · cases hp
      · exact (hP s hs₀).frame (fun kind => hsame _ kind) hmono rfl id id nofun nofun
  | writerWait hwr hwait =>
    have hP' := hP s hs
    cases hwait with
    | announces hj hp =>
      refine ⟨?_, hP'.joined, hP'.entered, hP'.handlerLeaves, fun _ => hj⟩
      have := hP'.once
      rw [hwr] at this
      exact this
    | gone | written | failed | unencoded | unjoined | posted | presented =>
      exact hP'.frame (fun _ => rfl) id rfl id id nofun nofun
  | stop hwr => exact (hP s hs).frame (fun _ => rfl) id rfl id id nofun nofun

theorem announced_of_reach {G : World → Label → Prop} {w : World} (hw : System.Reach server G w) (c : Nat) :
    ((w.conns c).handler.session = none → (w.conns c).joined = false) ∧
      ∀ s, (w.conns c).handler.session = some s → Announced w.trace (w.conns c) s.token := by
  refine forall_conns (P := fun tr conn => (conn.handler.session = none → conn.joined = false) ∧
    ∀ s, conn.handler.session = some s → Announced tr conn s.token) ⟨fun _ => rfl, nofun⟩ ?_ ?_ hw c
  · intro w l c w' conn hr _ h hP
    refine ⟨fun hs => Bool.eq_false_iff.2 fun hj => ?_, h.announced hr hP.1 hP.2⟩
    rcases h.joins hj with hj | ⟨s, hs'⟩
    · rcases h.session with he | ⟨-, s, hs', -⟩
      · rw [hP.1 (he ▸ hs)] at hj; cases hj
      · rw [hs] at hs'; cases hs'
    · rw [hs] at hs'; cases hs'
  · intro w l c w' conn d _ _ _ _ hf hP
    refine ⟨hP.1, fun s hs => (hP.2 s hs).frame (fun kind => (hf s hs).recordings kind) (fun hm => ?_) rfl id id id id⟩
    obtain ⟨events, he, -⟩ := hf s hs
    rw [he]
    exact List.mem_append_right _ hm

/-! ## The messages of a run -/

/-- A step records its session's message, at the section of a call that has it to record, or no message. -/
theorem Turn.records {w w' : World} {c : Nat} {l : Label} {conn : Conn} (h : Turn w c l w' conn)
    (hb : (w.conns c).Bound w.trace) :
    (∃ s post, (w.conns c).handler.session = some s ∧ post.session = s.token ∧ w'.trace = .recorded post :: w.trace ∧
      (post.kind = .leave → (w.conns c).handler.leaving = true ∨ (w.conns c).writer.announcing = true)) ∨
    ∀ u kind, recordings u kind w'.trace = recordings u kind w.trace := by
  cases h with
  | @call s next _ _ _ _ hh ht =>
    have hs := hb.handling
    rw [hh] at hs
    rcases ht.recording hs with ⟨post, rfl, -, hp, hsess, htr⟩ | ⟨-, -, hsame⟩
    · refine .inl ⟨s, post, by rw [hh]; rfl, hsess, htr, fun hk => .inl ?_⟩
      rw [hh]
      rw [hk] at hp
      cases next with
      | leave => rfl
      | history | presence | join | joinPresence | chat | chatPresence | leavePresence => cases hp
    · exact .inr hsame
  | writerCall hw hpc ht =>
    have hs := hb.writing
    rw [hw] at hs
    obtain ⟨hsess, -⟩ := hb.calls hw hpc
    cases hpc with
    | posting =>
      rcases ht.recording hs with ⟨post, rfl, -, -, hsess', htr⟩ | ⟨-, -, hsame⟩
      · exact .inl ⟨_, post, hsess, hsess', htr, fun _ => .inr (by rw [hw]; rfl)⟩
      · exact .inr hsame
    | presenting =>
      rcases ht.recording hs with ⟨post, -, -, hp, -⟩ | ⟨-, -, hsame⟩
      · cases hp
      · exact .inr hsame
  | unregister | finish | remove => exact .inr fun u kind => recordings_removed _ _ _ _ _
  | accept | acquired | full | admitted | refused | registered | unregistered | named | unnamed | storeJoined | wait
  | dropPermit | dropGlobal | receive | writerWait | stop => exact .inr fun _ _ => rfl

/-- Where a trace gained no message, no event it gained recorded one. -/
theorem not_records_of_recordings {t : ClientToken} {kind : PostKind} {events tr : List Event}
    (h : recordings t kind (events ++ tr) = recordings t kind tr) : ∀ e ∈ events, e.records t kind = false :=
      fun e he =>
  Bool.eq_false_iff.2 fun hr => by
    rw [recordings, List.countP_append] at h
    have := List.countP_pos_iff.2 ⟨e, he, hr⟩
    have := recordings.eq_def t kind tr
    omega

theorem leave_after_join {w : World} (hw : System.Reach server System.Any w) (t : ClientToken) :
    Throughout (fun e tr => e.records t .leave = true → 0 < recordings t .join tr) w.trace := by
  refine hw.invariant (I := fun w => Throughout (fun e tr => e.records t .leave = true → 0 < recordings t .join tr)
    w.trace) (show Throughout _ [] from trivial) fun w l w' hr hI _ hstep => ?_
  obtain ⟨hsound, -⟩ := sound_of_reach hr
  cases steps_of_step hstep with
  | reorder => exact hI
  | @turn _ c w' conn h =>
    show Throughout _ w'.trace
    rcases h.records (hsound.bound c) with ⟨s, post, hs, hsess, htr, hleave⟩ | hsame
    · rw [htr]
      refine ⟨fun hrec => ?_, hI⟩
      have hann := (announced_of_reach hr c).2 s hs
      simp only [Event.records, Bool.and_eq_true, beq_iff_eq] at hrec
      rw [← hrec.1, hsess]
      rcases hleave hrec.2 with hl | hl
      · exact hann.joined (hann.handlerLeaves hl)
      · exact hann.joined (hann.writerLeaves hl)
    · obtain ⟨events, htr, -⟩ := h.events (hsound.bound c)
      rw [htr] at hsame ⊢
      exact hI.append fun e he tr hrec => by rw [not_records_of_recordings (hsame t .leave) e he] at hrec; cases hrec

/-- **One leave, after the join.**  A session records at most one leave, and when it does it recorded its join
before. -/
theorem leave_once_after_join {w : World} (hw : System.Reach server System.Any w) (t : ClientToken) :
    recordings t .leave w.trace ≤ 1 ∧
      Throughout (fun e tr => e.records t .leave = true → 0 < recordings t .join tr) w.trace := by
  refine ⟨?_, leave_after_join hw t⟩
  by_cases hpos : 0 < recordings t .leave w.trace
  · obtain ⟨e, he, hrec⟩ := List.countP_pos_iff.1 hpos
    obtain ⟨a, ha⟩ := registered_of_author hw he (author_of_records hrec)
    obtain ⟨c, s, hs, rfl, -⟩ := exists_conn hw ha
    have := ((announced_of_reach hw c).2 s hs).once
    omega
  · omega

/-- The client closes its side, and the handler records its leave and broadcasts it. -/
def leaves (c : Nat) : List Label := [.handler c (.frame (.ok none)), .handler c .go] ++ sectionsOf 4 c

/-- Bob joins and leaves. -/
theorem leave_once_after_join_bob : ∃ w, System.Reach server System.Any w ∧ recordings 0 .leave w.trace = 1 ∧
    Throughout (fun e tr => e.records 0 .leave = true → 0 < recordings 0 .join tr) w.trace := by
  obtain ⟨w, hw, ht⟩ := System.exists_of_run server (fun w => recordings 0 .leave w.trace == 1)
    (registers 0 bobAddr "bob" ++ replays 0 0 ++ enters 0 ++ leaves 0) (by decide)
  exact ⟨w, hw, by simpa using ht, (leave_once_after_join hw 0).2⟩

end Server
end Drocsid
