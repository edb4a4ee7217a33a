import Drocsid.Departures
import Drocsid.Publication
/-!
# Roster — the usernames a client was last sent, when nobody has anything to broadcast

Who names or removes a client then broadcasts the presence: it takes the usernames in one section and sends them in
another, so that two broadcasts may be sent in the other order than they were taken in.  In a run with room for every
message, in which no broadcast sends older usernames than were sent before, the last presence on the channel of each
ready client is of the usernames there are, whenever every broadcast owed has been sent (`roster_current`).
-/
namespace Drocsid

open Text Protocol

namespace Server

/-- No client's channel is full or closed, and no pending list at its limit. -/
def Roomy (st : ServerState) : Prop := ∀ p ∈ st.delivering, (st.channels p.2.writer).closed = false ∧
  (st.channels p.2.writer).isFull = false ∧ p.2.pendingMessages.length < pendingMessagesLimit

/-- The step leaves room. -/
def LeavesRoom (w : World) (l : Label) : Prop := ∀ w', server.step w l = some w' → Roomy w'.st

/-- The usernames that a broadcast sends are no older than those sent last. -/
def SendsNewer (w : World) (l : Label) : Prop := ∀ task users taken, l.task = some task →
  w.calls task = some (.present users taken) → w.presented ≤ taken

def Running.isDone : Running → Bool
  | .done _ => true
  | _ => false

/-- The handler named or removed its client, and the broadcast of that is not finished. -/
def HandlerPc.owes : HandlerPc → Bool
  | .serving _ (.calling .history _) | .serving _ (.calling (.leave _) _) => true
  | .serving _ (.calling .presence call) | .serving _ (.calling (.leavePresence _) call) => !call.isDone
  | _ => false

/-- The writer removed its client, and the broadcast of that is not finished. -/
def WriterPc.owes : WriterPc → Bool
  | .running _ .loadJoined | .running _ (.posting _) => true
  | .running _ (.presenting call) => !call.isDone
  | _ => false

/-- The label is of a connection below that number, if of any. -/
def Label.below (n : Nat) : Label → Bool
  | .accept c _ | .handler c _ | .writer c _ => decide (c < n)
  | .reorder .. => true

/-- Every session that set a username or was removed has finished the broadcast that follows. -/
def Quiescent (w : World) : Prop := ∀ c, (w.conns c).handler.owes = false ∧ (w.conns c).writer.owes = false

/-! ## Where there is room -/

theorem roomy_of_reach {w : World} (hw : System.Reach server LeavesRoom w) : Roomy w.st := by
  cases hw with
  | init =>
    intro p hp
    cases hp
  | step _ hG h => exact hG _ h

theorem Roomy.not_overloaded {st : ServerState} (h : Roomy st) {p : SocketAddr × ClientDelivery}
    (hp : p ∈ st.delivering) : ¬ Overloaded st p.2 := by
  obtain ⟨hclosed, -, hlimit⟩ := h p hp
  unfold Overloaded
  by_cases hr : p.2.ready = true
  · rw [if_pos hr, hclosed]
    exact Bool.false_ne_true
  · rw [if_neg hr]
    omega

theorem Roomy.overloadedClients {st : ServerState} (h : Roomy st) : overloadedClients st = [] := by
  unfold Server.overloadedClients
  rw [List.filterMap_eq_nil_iff]
  intro d hd
  obtain ⟨p, hp, rfl⟩ := List.mem_map.1 hd
  have hno := h.not_overloaded hp
  unfold Overloaded at hno
  by_cases hr : p.2.ready = true
  · rw [if_pos hr] at hno
    simp [hr, hno]
  · rw [if_neg hr] at hno
    simp only [hr, Bool.false_eq_true, if_false, decide_eq_true_eq, if_neg hno]

theorem Roomy.doomed {st : ServerState} (hn : (st.delivering.map (·.2.writer)).Nodup) (h : Roomy st) (frame : Bytes)
    (ex : Option SocketAddr) : (deliver st frame ex).2 = [] := by
  obtain ⟨-, -, hdoomed⟩ := deliver_spec hn frame ex
  rw [hdoomed, List.map_eq_nil_iff, List.filter_eq_nil_iff]
  intro p hp hrefuses
  have hnone : p.2.refuses st.channels none = true := by
    unfold ClientDelivery.refuses at hrefuses ⊢
    exact (Bool.and_eq_true_iff.1 hrefuses).2
  have hover := (refuses_iff_overflows (h.not_overloaded hp)).1 hnone
  have hfull := hover.2.2
  rw [(h p hp).2.1] at hfull
  cases hfull

/-- Where there is room no loop has a client to drop. -/
theorem CallTurn.dooms {w w' : World} {me : Task} {a : SocketAddr} {t : ClientToken} {rx : List Rx}
    {call call' : Running} (hfed : Fed w.shared) (hroom : Roomy w.st) (h : CallTurn w me a t rx call w' call')
    (hd : call.dooms = none) : call'.dooms = none := by
  have hdoomed : ∀ frame ex, (deliver w.st frame ex).2 = [] := hroom.doomed hfed.writers
  cases h with
  | prune => rw [hroom.overloadedClients]; rfl
  | present => rw [hdoomed]; rfl
  | prunes | drops => cases hd
  | advance hr hc =>
    cases advances_of_step hc with
    | deliver => rw [hdoomed]; rfl
    | drop => cases hd
    | unknown | found | snapshot | unencoded | refused | replayed | readied | unreadied | record => rfl
  | lockReplay | lockRecord | unlock | taken | unencoded | dropped => rfl

/-! ## Replays -/

/-- The replay failed. -/
def Running.failed : Running → Bool
  | .critical (.replayed (.error _)) | .done (.error _) => true
  | _ => false

/-- A section that finds its client in the registry names it. -/
theorem setClientUsername_of_mem {st : ServerState} {a : SocketAddr} {t : ClientToken} (u : Str)
    (h : (a, t) ∈ st.sessionIds) : ∃ st', setClientUsername st a t u = .ok st' := by
  obtain ⟨s, hs, ht⟩ := mem_sessionIds.1 h
  obtain ⟨entries, hentries, hmem⟩ := mem_sessions.1 hs
  have hany : entries.any (·.token == t) = true := List.any_eq_true.2 ⟨s, hmem, by simp [ht]⟩
  unfold setClientUsername
  rw [hentries]
  exact ⟨_, if_pos hany⟩

/-- A send refused in the middle of a list leaves the channel full or closed. -/
theorem sendAll_error : ∀ (c : Fifo Bytes) (as : List Bytes) (rx : List Rx) (e : SendError),
    (c.sendAll as rx).2.2 = some e → (c.sendAll as rx).1.closed = true ∨ (c.sendAll as rx).1.isFull = true
  | _, [], _, _, h => by cases h
  | c, a :: as, rx, e, h => by
    unfold Fifo.sendAll at h ⊢
    split at h
    · rename_i c' hs
      exact sendAll_error c' as rx.tail e h
    · rename_i e' he
      unfold Fifo.trySend at he
      split at he
      · rename_i hclosed
        exact .inl hclosed
      · split at he
        · rename_i hfull
          exact .inr hfull
        · cases he

/-- **A replay fails only once its client is removed**, where there is room before and after. -/
theorem CallTurn.fails {w w' : World} {me : Task} {a : SocketAddr} {t : ClientToken} {rx : List Rx}
    {call call' : Running} (hfed : Fed w.shared) (henc : Encodes w) (hheld : w.held me = call.held)
    (hbar : ∀ c, call.held = some c → w.barrier = some me) (hroom : Roomy w.st) (hroom' : Roomy w'.st)
    (h : CallTurn w me a t rx call w' call') (hs : call.Serves a t .replay) (hf : call'.failed = true) :
    call.failed = true ∨ (a, t) ∉ w.st.sessionIds := by
  have hcon : Consistent w.st := hfed.consistent
  -- the channel the replay sends on is the client's, while there is one
  have hreplay : ∀ wr history, call = .critical (.replay a t wr history) → (a, t) ∈ w.st.sessionIds →
      ∃ d, (a, d) ∈ w.st.delivering ∧ d.token = t ∧ d.writer = wr := by
    rintro wr history rfl hid
    have hholder := hfed.holder
    rw [World.shared, hbar _ rfl, Option.bind_some, hheld] at hholder
    obtain ⟨-, rfl, -⟩ := hholder
    obtain ⟨d, hmem, ht⟩ := mem_deliveryIds.1 (hcon.same.mem_iff.2 hid)
    exact ⟨d, hmem, ht, (hfed.handles _ hmem).1.trans ht⟩
  cases hs with
  | lockReplay => cases h; cases hf
  | done => cases h
  | critical hs =>
    cases h with
    | unlock hd =>
      cases hs with
      | @replayed result => cases result <;> cases hd <;> first | exact .inl rfl | cases hf
      | lookup | snapshot | replay => cases hd
    | @advance _ _ st _ hd hc =>
      cases advances_of_step hc with
      | unknown hw =>
        cases hs
        exact .inr ((findDelivery_eq_none hcon).1 (Option.map_eq_none_iff.1 hw))
      | found | snapshot | replayed | readied | record | deliver | drop => cases hf
      | @unencoded b u wr m rest e hframe =>
        obtain ⟨frame, hok, -⟩ := henc.history m (.inr ⟨me, b, u, wr, m :: rest, hheld, List.mem_cons_self⟩)
        rw [hframe] at hok
        cases hok
      | @refused b u wr m rest frame e hframe hsend =>
        cases hs
        refine .inr fun hid => ?_
        obtain ⟨d, hmem, -, rfl⟩ := hreplay _ _ rfl hid
        obtain ⟨hclosed, hfull, -⟩ := hroom _ hmem
        rw [Fifo.trySend_eq_ok.2 ⟨hclosed, hfull, rfl⟩] at hsend
        cases hsend
      | @unreadied b u wr e st hm =>
        cases hs
        refine .inr fun hid => ?_
        obtain ⟨d, hmem, rfl, -⟩ := hreplay _ _ rfl hid
        obtain ⟨channel, unsent, e', hsend, hres, hch, hdel, -⟩ := markClientReady_spec hcon hmem rx
        rw [hm] at hres hch hdel
        cases e' with
        | none => cases hres
        | some e' =>
          -- the send that was refused left the channel full or closed, and the client is still there
          have hkept : (a, { d with pendingMessages := unsent, ready := d.ready || (some e').isNone }) ∈
            st.delivering := by
            rw [hdel.mem_iff]
            exact List.mem_map.2 ⟨(a, d), hmem, if_pos ⟨rfl, rfl⟩⟩
          obtain ⟨hclosed, hfull, -⟩ := hroom' _ hkept
          have hchannel : st.channels d.writer = channel := by rw [hch, Function.update_self]
          rw [hchannel] at hclosed hfull
          rcases sendAll_error (w.st.channels d.writer) d.pendingMessages rx e' (by rw [hsend]) with he | he
          · rw [hsend, hclosed] at he
            cases he
          · rw [hsend, hfull] at he
            cases he

/-! ## Where a session is with its presence -/

/-- A presence was broadcast since the session registered. -/
def presentedSince (t : ClientToken) : List Event → Bool
  | [] => false
  | .registered t' _ :: tr => if t' = t then false else presentedSince t tr
  | .broadcast _ _ _ none :: _ => true
  | _ :: tr => presentedSince t tr

/-- The broadcast has not sent its usernames yet. -/
def Running.unsent : Running → Bool
  | .prune | .pruned _ | .present _ _ => true
  | _ => false

/-- The handler's first presence is still to be sent. -/
def HandlerPc.unsent : HandlerPc → Bool
  | .serving _ (.calling .history _) => true
  | .serving _ (.calling .presence call) => call.unsent
  | _ => false

/-- Who gives up before it joined has lost its client. -/
def HandlerPc.Settles (tr : List Event) (joined : Bool) : HandlerPc → Prop
  | .serving s .unregister => .removed s.token ∈ tr
  | .serving s (.calling .history call) =>
    (call.failed = true → .removed s.token ∈ tr) ∧ (call.readied = false → .ready s.token ∉ tr)
  | .serving s (.finish _) => joined = true ∨ .removed s.token ∈ tr
  | .serving _ .select | .serving _ (.allow _) | .serving _ (.sleep _) | .serving _ (.calling .chat _)
  | .serving _ (.calling .chatPresence _) => joined = true
  | _ => True

/-- A task of the connection is in the call. -/
def Conn.Calls (conn : Conn) (call : Running) : Prop := conn.handler.calls = some call ∨ conn.writer.calls = some call

structure Settled (tr : List Event) (conn : Conn) : Prop where
  settles : conn.handler.Settles tr conn.joined
  dooms : ∀ call, conn.Calls call → call.dooms = none
  heard : ∀ s, conn.handler.session = some s → .ready s.token ∈ tr → conn.handler.unsent = true ∨
    presentedSince s.token tr = true

theorem presentedSince_append {t : ClientToken} {events : List Event} (h : ∀ e ∈ events, ∀ a, e ≠ .registered t a)
    {tr : List Event} (hh : presentedSince t tr = true) : presentedSince t (events ++ tr) = true := by
  induction events with
  | nil => exact hh
  | cons e events ih =>
    have ih := ih fun e he => h e (List.mem_cons_of_mem _ he)
    rw [List.cons_append]
    cases e with
    | registered t' a =>
      have hne : t' ≠ t := by
        rintro rfl
        exact h _ List.mem_cons_self a rfl
      rw [presentedSince, if_neg hne]
      exact ih
    | broadcast frame ex doomed post =>
      cases post with
      | none => rfl
      | some post => exact ih
    | named | snapshot | replayed | ready | recorded | removed => exact ih

/-- The handler's phase, in a longer trace that does not make its client ready. -/
theorem HandlerPc.Settles.mono {tr tr' : List Event} {joined : Bool} {pc : HandlerPc} (h : pc.Settles tr joined)
    (hsub : ∀ e ∈ tr, e ∈ tr') (hready : ∀ s, pc.session = some s → .ready s.token ∈ tr' → .ready s.token ∈ tr) :
    pc.Settles tr' joined := by
  revert h
  unfold HandlerPc.Settles
  split
  · exact fun h => hsub _ h
  · intro h
    exact ⟨fun hf => hsub _ (h.1 hf), fun hr hmem => h.2 hr (hready _ rfl hmem)⟩
  · exact fun h => h.imp_right (hsub _)
  · exact id
  · exact id
  · exact id
  · exact id
  · exact id
  · exact id

theorem settles_received {tr : List Event} (s : Session) (result : Except ServerError (Option Frame)) :
    (received s result).Settles tr true := by
  unfold received
  split
  · exact .inl rfl
  · exact .inl rfl
  · split
    · exact .inl rfl
    · rfl
    · rfl

/-- The handler's phase after a call that returned. -/
theorem Resumes.settles {tr : List Event} {joined : Bool} {s : Session} {next : After}
    {result : Except ServerError Bool} {pc : HandlerPc} (h : Resumes s next result pc)
    (hf : (Running.done result).Fine next.purpose)
    (hs : (HandlerPc.serving s (.calling next (.done result))).Settles tr joined) : pc.Settles tr joined := by
  cases h with
  | unencoded hj =>
    obtain ⟨post, hp, -⟩ := joinPost_ok s
    rw [hj] at hp
    cases hp
  | abandons hn => rcases hn with rfl | rfl <;> cases hf
  | @failed next =>
    cases next with
    | history => exact .inr (hs.1 rfl)
    | presence | join | joinPresence | chat | chatPresence | leave | leavePresence => cases hf
  | chatDropped | chatted | chatPresented => exact hs
  | replayed | presented | joinDropped | joined | joinPresented | left | leavePresented => trivial

theorem settles_afterRemoval {tr : List Event} {joined : Bool} (s : Session) (mode : FinishMode)
    (removed joined' : Bool) : (afterRemoval s mode removed joined').Settles tr joined := by
  obtain ⟨post, hp, -⟩ := leavePost_ok s
  unfold afterRemoval
  rw [hp]
  cases removed <;> cases joined' <;> trivial

/-- What a handler calls first drops nobody. -/
theorem HandlerPc.Begins.dooms {a : SocketAddr} {pc : HandlerPc} (h : pc.Begins a) {call : Running}
    (hc : pc.calls = some call) : call.dooms = none := by
  unfold HandlerPc.calls at hc
  split at hc
  · cases hc
    have hfirst := h.2
    cases call with
    | lockRecord | prune => rfl
    | lockReplay | critical | pruned | present | drop | done => cases hfirst
  · cases hc

theorem ne_registered_of_removedEvent {t u : ClientToken} {removed : Bool} : ∀ e ∈ removedEvent u removed, ∀ a,
    e ≠ .registered t a := by
  intro e he a
  cases removed with
  | false => cases he
  | true => cases List.mem_singleton.1 he; exact Event.noConfusion

theorem ne_registered_of_from {t u : ClientToken} {p : Purpose} {e : Event} (h : e.From u p) (a : SocketAddr) :
    e ≠ .registered t a := by
  cases h <;> exact Event.noConfusion

theorem ready_of_removedEvent {t u : ClientToken} {removed : Bool} {tr : List Event}
    (h : .ready t ∈ removedEvent u removed ++ tr) :
    .ready t ∈ tr := by
  refine (List.mem_append.1 h).resolve_left fun h => ?_
  cases removed with
  | false => cases h
  | true => cases List.mem_singleton.1 h

/-- A step of the handler outside calls, to a phase that is known: it broadcasts nothing. -/
theorem Settled.goto {tr tr' : List Event} {conn conn' : Conn} (h : Settled tr conn) (events : List Event)
    (htr : tr' = events ++ tr)
    (hreg : ∀ t, ∀ e ∈ events, ∀ a, e ≠ .registered t a) (hsettles : conn'.handler.Settles tr' conn'.joined)
    (hcalls : ∀ call, conn'.handler.calls = some call → call.dooms = none)
    (hwriter : ∀ call, conn'.writer.calls = some call → conn.writer.calls = some call)
    (hheard : ∀ s, conn'.handler.session = some s → .ready s.token ∈ tr' → conn'.handler.unsent = false →
      conn.handler.session = some s ∧ .ready s.token ∈ tr ∧ conn.handler.unsent = false) : Settled tr' conn' := by
  refine ⟨hsettles, ?_, fun s hs hr => ?_⟩
  · rintro call (hc | hc)
    · exact hcalls call hc
    · exact h.dooms call (.inr (hwriter call hc))
  · cases hu : conn'.handler.unsent with
    | true => exact .inl rfl
    | false =>
      obtain ⟨hs', hr', hu'⟩ := hheard s hs hr hu
      have hold := (h.heard s hs' hr').resolve_left (by rw [hu']; exact Bool.false_ne_true)
      exact .inr (by rw [htr]; exact presentedSince_append (hreg _) hold)

/-- Such a step that leaves the session as it is, with no broadcast before it or after. -/
theorem Settled.passes {tr tr' : List Event} {conn conn' : Conn} (h : Settled tr conn) (events : List Event)
    (htr : tr' = events ++ tr) (hreg : ∀ t, ∀ e ∈ events, ∀ a, e ≠ .registered t a)
    (hready : ∀ t, .ready t ∈ tr' → .ready t ∈ tr) (hsettles : conn'.handler.Settles tr' conn'.joined)
    (hcalls : conn'.handler.calls = none) (hwriter : conn'.writer = conn.writer)
    (hsession : conn'.handler.session = conn.handler.session) (hunsent : conn.handler.unsent = false) :
    Settled tr' conn' := by
  refine h.goto events htr hreg hsettles ?_ (fun call hc => by rw [← hwriter]; exact hc) ?_
  · intro call hc
    rw [hcalls] at hc
    cases hc
  · intro s hs hmem _
    exact ⟨hsession.symm.trans hs, hready _ hmem, hunsent⟩

/-- A broadcast's section has its usernames still to send, or has just sent them, or had. -/
theorem CallTurn.sends {w w' : World} {me : Task} {a : SocketAddr} {t u : ClientToken} {rx : List Rx}
    {call call' : Running} (h : CallTurn w me a t rx call w' call') (hs : call.Serves a t .presence)
    (hf : call.Fine .presence) : call'.unsent = true ∨ presentedSince u w'.trace = true ∨ call.unsent = false := by
  cases h with
  | prune | prunes | taken => exact .inl rfl
  | present => exact .inr (.inl rfl)
  | drops | dropped => exact .inr (.inr rfl)
  | unencoded he =>
    obtain ⟨frame, hok⟩ := presenceFrame_of_fine hf
    rw [he] at hok
    cases hok
  | lockReplay | lockRecord => cases hs
  | unlock | advance => exact .inr (.inr rfl)

/-- A section of a handler's call. -/
theorem Settled.handlerCall {w w' : World} {c : Nat} {s : Session} {next : After} {rx : List Rx} {call call' : Running}
    (hw : System.Reach server System.Any w) (hroom : Roomy w.st) (hroom' : Roomy w'.st)
    (hh : (w.conns c).handler = .serving s (.calling next call))
    (ht : CallTurn w (.handler c) (w.conns c).addr s.token rx call w' call') (h : Settled w.trace (w.conns c)) :
    Settled w'.trace { w.conns c with handler := .serving s (.calling next call') } := by
  obtain ⟨hsound, hr⟩ := sound_of_reach hw
  have hfed := fed_of_reach hr
  have hcon : Consistent w.st := hfed.consistent
  have htracked := tracked_of_reach hr
  have hb := hsound.bound c
  have hserves := hb.handling
  have hfine := (fine_of_reach hw c).1
  rw [hh] at hserves hfine
  obtain ⟨events, htr, hev⟩ := (ht.serves hserves).2
  have hsettles := h.settles
  rw [hh] at hsettles
  have hold : next.purpose ≠ .replay → .ready s.token ∈ w'.trace →
    (HandlerPc.serving s (.calling next call)).unsent = false →
      presentedSince s.token w'.trace = true := by
    intro hp hready hu
    rw [htr] at hready
    have hready : .ready s.token ∈ w.trace := by
      refine (List.mem_append.1 hready).resolve_left fun hm => hp ?_
      have hfrom := hev _ hm
      generalize next.purpose = p at hfrom
      cases hfrom
      rfl
    have hheard := (h.heard s (by rw [hh]; rfl) hready).resolve_left (by rw [hh, hu]; exact Bool.false_ne_true)
    rw [htr]
    exact presentedSince_append (fun e he => ne_registered_of_from (hev e he)) hheard
  refine ⟨?_, ?_, ?_⟩
  · cases next with
    | history =>
      refine ⟨fun hf => ?_, fun hready hmem => ?_⟩
      · have hbar : ∀ c', call.held = some c' → w.barrier = some (.handler c) := by
          intro c' hc'
          apply (hsound.holder (.handler c)).1
          rw [World.held, hh, HandlerPc.held, hc']
          rfl
        have hheld : w.held (.handler c) = call.held := by rw [World.held, hh]; rfl
        rw [htr]
        apply List.mem_append_right _
        rcases ht.fails hfed (encodes_of_reach hw) hheld hbar hroom hroom' hserves hf with hf | hid
        · exact hsettles.1 hf
        · by_contra hrem
          exact hid ((htracked.live _ _).2 ⟨hb.registered s (by rw [hh]; rfl), hrem⟩)
      · rcases ht.readies hcon hserves with ⟨he, hsame⟩ | ⟨he, -⟩
        · exact hsettles.2 (he.symm.trans hready) (hsame hmem)
        · rw [he] at hready
          cases hready
    | chat | chatPresence => exact hsettles
    | presence | join | joinPresence | leave | leavePresence => trivial
  · rintro call'' (hc | hc)
    · cases hc
      exact ht.dooms hfed hroom (h.dooms call (.inl (by rw [hh]; rfl)))
    · exact h.dooms call'' (.inr hc)
  · intro s' hs' hready
    cases hs'
    cases next with
    | history => exact .inl rfl
    | presence =>
      rcases ht.sends (u := s.token) hserves hfine with hu | hheard | hu
      · exact .inl hu
      · exact .inr hheard
      · exact .inr (hold Purpose.noConfusion hready hu)
    | join | joinPresence | chat | chatPresence | leave
    | leavePresence => exact .inr (hold Purpose.noConfusion hready rfl)

/-- A section of a writer's call. -/
theorem Settled.writerCall {w w' : World} {c : Nat} {s : Session} {pc : WritePc} {rx : List Rx} {call call' : Running}
    {goto : Running → WritePc} (hw : System.Reach server System.Any w) (hroom : Roomy w.st)
    (hwr : (w.conns c).writer = .running s pc) (hpc : pc.Calls call goto)
    (ht : CallTurn w (.writer c) (w.conns c).addr s.token rx call w' call') (h : Settled w.trace (w.conns c)) :
    Settled w'.trace { w.conns c with writer := .running s (goto call') } := by
  obtain ⟨hsound, hr⟩ := sound_of_reach hw
  obtain ⟨-, p, hp, hserves, -⟩ := (hsound.bound c).calls hwr hpc
  obtain ⟨events, htr, hev⟩ := (ht.serves hserves).2
  have hready : ∀ t, .ready t ∈ w'.trace → .ready t ∈ w.trace := by
    intro t hmem
    rw [htr] at hmem
    refine (List.mem_append.1 hmem).resolve_left fun hm => hp ?_
    cases hev _ hm
    rfl
  have hcalls : (w.conns c).writer.calls = some call ∧ ∀ call'', (WriterPc.running s (goto call')).calls = some call'' →
    call'' = call' := by
    rw [hwr]
    cases hpc <;> exact ⟨rfl, fun _ hc => (Option.some.inj hc).symm⟩
  refine ⟨?_, ?_, ?_⟩
  · exact h.settles.mono (fun e he => by rw [htr]; exact List.mem_append_right _ he) fun s _ => hready s.token
  · rintro call'' (hc | hc)
    · exact h.dooms call'' (.inl hc)
    · obtain rfl := hcalls.2 call'' hc
      exact ht.dooms (fed_of_reach hr) hroom (h.dooms call (.inr hcalls.1))
  · intro s' hs' hmem
    refine (h.heard s' hs' (hready _ hmem)).imp_right fun hh => ?_
    rw [htr]
    exact presentedSince_append (fun e he => ne_registered_of_from (hev e he)) hh

/-- The handler's removal. -/
theorem Settled.finishes {tr : List Event} {conn : Conn} {s : Session} {mode : FinishMode} (h : Settled tr conn)
    (hh : conn.handler = .serving s (.finish mode)) (removed : Bool) :
    Settled (removedEvent s.token removed ++ tr) { conn with handler := afterRemoval s mode removed conn.joined } := by
  have hbegins := begins_afterRemoval conn.addr s mode removed conn.joined
  refine h.goto _ rfl (fun t => ne_registered_of_removedEvent) (settles_afterRemoval _ _ _ _)
    (fun call hc => hbegins.dooms hc) (fun _ hc => hc) ?_
  intro s' hs' hready _
  rw [(session_afterRemoval s mode removed conn.joined).1] at hs'
  cases hs'
  exact ⟨by rw [hh]; rfl, ready_of_removedEvent hready, by rw [hh]; rfl⟩

/-- The writer's removal. -/
theorem Settled.removes {tr : List Event} {conn : Conn} {s : Session} (h : Settled tr conn) (removed : Bool) :
    Settled (removedEvent s.token removed ++ tr)
      { conn with writer := .running s (if removed then .loadJoined else .stopping) } := by
  refine ⟨?_, ?_, ?_⟩
  · exact h.settles.mono (fun e he => List.mem_append_right _ he) fun _ _ => ready_of_removedEvent
  · rintro call (hc | hc)
    · exact h.dooms call (.inl hc)
    · cases removed <;> cases hc
  · intro s' hs' hready
    exact (h.heard s' hs' (ready_of_removedEvent hready)).imp_right
      (presentedSince_append ne_registered_of_removedEvent)

/-- A handler that goes on. -/
theorem Settled.waits {tr : List Event} {conn : Conn} {pc : HandlerPc} (h : Settled tr conn)
    (hwait : conn.handler.Waits pc) (hfine : conn.handler.Fine) : Settled tr { conn with handler := pc } := by
  have hbegins := hwait.begins conn.addr
  have hsettles := h.settles
  have hsame := hwait.same.1
  refine h.goto [] rfl (fun t e he => by cases he) ?_ (fun call hc => hbegins.dooms hc) (fun _ hc => hc) ?_
  · generalize conn.handler = pc₀ at hwait hsettles hfine
    cases hwait with
    | resume => exact (resumes_resume _ _ _).settles hfine hsettles
    | received =>
      show (received _ _).Settles tr conn.joined
      rw [show conn.joined = true from hsettles]
      exact settles_received _ _
    | disconnected | limited | tooLong => exact .inl hsettles
    | allowed | slept => exact hsettles
    | timeout | refused | named => trivial
  · intro s hs hready hu
    refine ⟨hsame.symm.trans hs, hready, ?_⟩
    generalize conn.handler = pc₀ at hwait hsettles
    cases hwait with
    | @resume s₀ next result =>
      cases next with
      | history =>
        cases result with
        | ok => cases hu
        | error e =>
          cases hs
          exact absurd hready (hsettles.2 rfl)
      | presence | join | joinPresence | chat | chatPresence | leave | leavePresence => rfl
    | timeout | refused | named | disconnected | received | limited | allowed | slept | tooLong => rfl

theorem Turn.settled {w w' : World} {c : Nat} {l : Label} {conn : Conn} (hw : System.Reach server System.Any w)
    (hroom : Roomy w.st) (hroom' : Roomy w'.st) (h : Turn w c l w' conn) (hP : Settled w.trace (w.conns c)) :
    Settled w'.trace conn := by
  obtain ⟨hsound, hr⟩ := sound_of_reach hw
  have htracked := tracked_of_reach hr
  have hord := inOrder_of_reach hr
  have hb := hsound.bound c
  have hnil : ∀ (t : ClientToken), ∀ e ∈ ([] : List Event), ∀ a, e ≠ .registered t a := by
    intro t e he
    cases he
  cases h with
  | accept =>
    refine ⟨trivial, ?_, ?_⟩
    · rintro call (hc | hc) <;> cases hc
    · intro s hs
      cases hs
  | acquired | full | admitted | refused | unregistered =>
    refine hP.goto [] rfl hnil trivial ?_ (fun _ hc => hc) ?_
    · intro call hc
      cases hc
    · intro s hs
      cases hs
  | registered hh hreg =>
    obtain ⟨rfl, -⟩ := registerClientWithStatus_ok hreg
    refine ⟨trivial, ?_, ?_⟩
    · rintro call (hc | hc)
      · cases hc
      · exact hP.dooms call (.inr hc)
    · intro s hs hready
      cases hs
      have hmem : Event.ready w.st.nextToken ∈ w.trace := by simpa using hready
      exact absurd (htracked.ready_lt _ hmem) (Nat.lt_irrefl _)
  | @named _ s st hh hu =>
    have hunreplayed : s.token ∉ snapshots w.trace := by
      have := hb.unreplayed
      rw [hh] at this
      exact this
    refine ⟨⟨fun hf => ?_, fun _ hready => ?_⟩, ?_, fun s' hs' hready => .inl rfl⟩
    · cases hf
    · have hmem : Event.ready s.token ∈ w.trace := by simpa using hready
      exact hunreplayed (hord.readied _ hmem).1
    · rintro call (hc | hc) <;> cases hc
      rfl
  | @unnamed _ s e hh hu =>
    have hremoved : Event.removed s.token ∈ w.trace := by
      by_contra hrem
      have hid : ((w.conns c).addr, s.token) ∈ w.st.sessionIds :=
        (htracked.live _ _).2 ⟨hb.registered s (by rw [hh]; rfl), hrem⟩
      obtain ⟨st, hok⟩ := setClientUsername_of_mem s.username.1 hid
      rw [hu] at hok
      cases hok
    exact hP.passes [] rfl hnil (fun _ => id) hremoved rfl rfl (by rw [hh]; rfl) (by rw [hh]; rfl)
  | @unregister _ s removed st hh hrem =>
    exact hP.passes _ rfl (fun t => ne_registered_of_removedEvent) (fun _ => ready_of_removedEvent) trivial rfl rfl
      (by rw [hh]; rfl) (by rw [hh]; rfl)
  | call hh ht => exact hP.handlerCall hw hroom hroom' hh ht
  | storeJoined hh =>
    exact hP.passes [] rfl hnil (fun _ => id) rfl rfl rfl (by rw [hh]; rfl) (by rw [hh]; rfl)
  | @finish _ s mode removed st hh hrem => exact hP.finishes hh removed
  | wait hh hwait =>
    subst hh
    exact hP.waits hwait (fine_of_reach hw c).1
  | dropPermit hh | dropGlobal hh =>
    exact hP.passes [] rfl hnil (fun _ => id) trivial rfl rfl (by rw [hh]; rfl) (by rw [hh]; rfl)
  | receive hwr | stop hwr =>
    refine ⟨hP.settles, ?_, hP.heard⟩
    rintro call (hc | hc)
    · exact hP.dooms call (.inl hc)
    · cases hc
  | @remove _ s removed => exact hP.removes removed
  | writerCall hwr hpc ht => exact hP.writerCall hw hroom hwr hpc ht
  | @writerWait _ s pc pc' hwr hwait =>
    refine ⟨hP.settles, ?_, hP.heard⟩
    rintro call (hc | hc)
    · exact hP.dooms call (.inl hc)
    · cases hwait <;> cases hc <;> rfl

/-- **In a run that leaves room every session is settled.** -/
theorem settled_of_reach {w : World} (hw : System.Reach server LeavesRoom w) (c : Nat) :
    Settled w.trace (w.conns c) := by
  refine forall_conns_step (P := Settled) ?_ ?_ ?_ hw c
  · refine ⟨trivial, ?_, ?_⟩
    · rintro call (hc | hc) <;> cases hc
    · intro s hs
      cases hs
  · intro w l c w' conn hr hg hstep h hP
    have hroom' : Roomy (w.after c w' conn).st := hg _ hstep
    exact h.settled hr.any (roomy_of_reach hr) hroom' hP
  · intro w l c w' conn d hr _ h hd hf hP
    obtain ⟨events, htr, -⟩ := h.events ((sound_of_reach hr).1.bound c)
    refine ⟨?_, hP.dooms, ?_⟩
    · refine hP.settles.mono (fun e he => by rw [htr]; exact List.mem_append_right _ he) ?_
      intro s hs hready
      exact ((hf s hs).mem rfl).1 hready
    · intro s hs hready
      refine (hP.heard s hs (((hf s hs).mem rfl).1 hready)).imp_right fun hh => ?_
      obtain ⟨events', htr', hev⟩ := hf s hs
      rw [htr']
      exact presentedSince_append (fun e he a hreg => hev e he (by rw [hreg]; rfl)) hh

/-! ## What the presences broadcast -/

/-- The frame of the last presence broadcast. -/
def newestPresence : List Event → Option Bytes
  | [] => none
  | .broadcast frame _ _ none :: _ => some frame
  | _ :: tr => newestPresence tr

/-- Broadcasts doom nobody; those that record nothing are of presences, to all, and no other frame is. -/
def Event.Roomy : Event → Prop
  | .broadcast frame ex doomed none => ex = none ∧ doomed = [] ∧ isPresenceFrame frame = true
  | .broadcast frame _ doomed (some _) => doomed = [] ∧ isPresenceFrame frame = false
  | .replayed _ frame => isPresenceFrame frame = false
  | _ => True

theorem isPresenceFrame_of_encodeFrame {kind : FrameType} {payload frame : Bytes}
    (h : encodeFrame kind payload = .ok frame) : isPresenceFrame frame = (kind == .presence) := by
  obtain ⟨-, rfl⟩ := encodeFrame_eq_ok.1 h
  cases kind <;> rfl

theorem isPresenceFrame_of_chatFrame {text : Str} {frame : Bytes} (h : chatFrame text = .ok frame) :
    isPresenceFrame frame = false :=
  isPresenceFrame_of_encodeFrame (encodeFrame_of_chatFrame h)

theorem isPresenceFrame_of_presenceFrame {users : List Str} {frame : Bytes} (h : presenceFrame users = .ok frame) :
    isPresenceFrame frame = true := by
  obtain ⟨payload, henc, -⟩ := parsePresence_encode (encodePresence_of_presenceFrame h)
  exact isPresenceFrame_of_encodeFrame henc

/-- A section where there is room adds such events. -/
theorem Moves.roomy {s s' : Shared} {l : Section} (hn : (s.st.delivering.map (·.2.writer)).Nodup) (hroom : Roomy s.st)
    (hl : ∀ users ex, l = .broadcast users ex → ex = none) (hm : Moves s l s') : ∀ e ∈ s'.trace, e ∈ s.trace ∨
      e.Roomy := by
  have hone : ∀ {e : Event}, e.Roomy → ∀ e' ∈ e :: s.trace, e' ∈ s.trace ∨ e'.Roomy := by
    intro e he e' he'
    rcases List.mem_cons.1 he' with rfl | he'
    · exact .inr he
    · exact .inl he'
  have hremoved : ∀ {t : ClientToken} {removed : Bool}, ∀ e ∈ removedEvent t removed ++ s.trace, e ∈ s.trace ∨
    e.Roomy := by
    intro t removed e he
    cases removed with
    | false => exact .inl he
    | true => exact hone (show (Event.removed t).Roomy from trivial) e he
  cases hm with
  | register | setUsername | snapshot | readied | record =>
    apply hone
    trivial
  | remove | drop => exact hremoved
  | replayed _ hf => exact hone (isPresenceFrame_of_chatFrame hf)
  | @deliver post => exact hone ⟨by rw [hroom.doomed hn]; rfl, isPresenceFrame_of_chatFrame post.encoded⟩
  | @broadcast users ex frame hf =>
    cases hl users ex rfl
    exact hone ⟨rfl, by rw [hroom.doomed hn]; rfl, isPresenceFrame_of_presenceFrame hf⟩
  | barrier | unreadied | tick | reorder => exact fun e he => .inl he

theorem events_roomy {w : World} (hw : System.Reach server LeavesRoom w) : ∀ e ∈ w.trace, e.Roomy := by
  refine hw.invariant (I := fun w => ∀ e ∈ w.trace, e.Roomy) ?_ ?_
  · intro e he
    cases he
  · intro w l w' hr hI _ hstep e he
    obtain ⟨hsound, hr'⟩ := sound_of_reach hr
    rcases (steps_of_step hstep).simulates hsound with hsame | ⟨k, hk, hsec⟩
    · have htr : w'.trace = w.trace := congrArg Shared.trace hsame
      rw [htr] at he
      exact hI e he
    · refine ((moves_of_step hsec).roomy (fed_of_reach hr').writers (roomy_of_reach hr) ?_ e he).elim (hI e) id
      rintro users ex rfl
      exact hk

/-- No broadcast failed for anyone. -/
theorem failed_of_roomy {tr : List Event} (h : ∀ e ∈ tr, e.Roomy) : failed tr = [] := by
  induction tr with
  | nil => rfl
  | cons e tr ih =>
    have ih := ih fun e he => h e (List.mem_cons_of_mem _ he)
    have he := h e List.mem_cons_self
    cases e with
    | broadcast frame ex doomed post =>
      have hdoomed : doomed = [] := by
        cases post with
        | none => exact he.2.1
        | some post => exact he.1
      rw [failed, hdoomed, ih]
      rfl
    | registered | named | snapshot | replayed | ready | recorded | removed => exact ih

/-- No presence is replayed. -/
theorem presences_replayed {t : ClientToken} {tr : List Event} (h : ∀ e ∈ tr, e.Roomy) :
    (replayedFrames t tr).filter isPresenceFrame = [] := by
  induction tr with
  | nil => rfl
  | cons e tr ih =>
    have ih := ih fun e he => h e (List.mem_cons_of_mem _ he)
    have he := h e List.mem_cons_self
    cases e with
    | replayed t' frame =>
      have hno : ¬ isPresenceFrame frame = true := by
        rw [show isPresenceFrame frame = false from he]
        exact Bool.false_ne_true
      rw [replayedFrames]
      split
      · rw [List.filter_append, ih, List.filter_cons_of_neg hno]
        rfl
      · exact ih
    | registered | named | snapshot | ready | recorded | broadcast | removed => exact ih

/-- **The last presence in a client's feed is the newest**, if any was broadcast since it registered. -/
theorem feed_newest {t : ClientToken} {a : SocketAddr} {tr : List Event} (h : ∀ e ∈ tr, e.Roomy)
    (hp : presentedSince t tr = true) :
    ∃ frame, newestPresence tr = some frame ∧ ((feed t a tr).filter isPresenceFrame).getLast? = some frame := by
  induction tr with
  | nil => cases hp
  | cons e tr ih =>
    have ih := ih fun e he => h e (List.mem_cons_of_mem _ he)
    have he := h e List.mem_cons_self
    cases e with
    | registered t' b =>
      rw [presentedSince] at hp
      split at hp
      · cases hp
      · rename_i hne
        rw [feed, if_neg hne]
        exact ih hp
    | broadcast frame ex doomed post =>
      cases post with
      | none =>
        obtain ⟨rfl, -, hframe⟩ := he
        refine ⟨frame, rfl, ?_⟩
        rw [feed, if_neg (by intro hc; cases hc), List.filter_append, List.filter_cons_of_pos hframe, List.filter_nil,
          List.getLast?_concat]
      | some post =>
        have hno : ¬ isPresenceFrame frame = true := by
          rw [he.2]
          exact Bool.false_ne_true
        have hfeed : (feed t a (.broadcast frame ex doomed (some post) :: tr)).filter isPresenceFrame =
            (feed t a tr).filter isPresenceFrame := by
          rw [feed]
          split
          · rfl
          · rw [List.filter_append, List.filter_cons_of_neg hno, List.filter_nil, List.append_nil]
        rw [hfeed]
        exact ih hp
    | named | snapshot | replayed | ready | recorded | removed => exact ih hp

/-! ## Who still has the usernames to send -/

/-- The broadcast will send the usernames after so many changes. -/
def Running.Due (n : Nat) : Running → Prop
  | .prune | .pruned _ => True
  | .present _ taken => taken = n
  | _ => False

/-- The handler will broadcast the usernames there are. -/
def HandlerPc.Due (tr : List Event) : HandlerPc → Prop
  | .serving s (.calling .history _) => .removed s.token ∉ tr
  | .serving _ (.calling (.leave _) _) => True
  | .serving _ (.calling .presence call) | .serving _ (.calling (.leavePresence _) call) => call.Due (changes tr)
  | _ => False

/-- The writer will. -/
def WriterPc.Due (tr : List Event) : WriterPc → Prop
  | .running _ .loadJoined | .running _ (.posting _) => True
  | .running _ (.presenting call) => call.Due (changes tr)
  | _ => False

def Conn.Due (tr : List Event) (conn : Conn) : Prop := conn.handler.Due tr ∨ conn.writer.Due tr

theorem changes_append_le (events tr : List Event) : changes tr ≤ changes (events ++ tr) := by
  induction events with
  | nil => exact Nat.le_refl _
  | cons e events ih =>
    rw [List.cons_append]
    cases e with
    | named | removed => exact Nat.le_succ_of_le ih
    | registered | snapshot | replayed | ready | recorded | broadcast => exact ih

/-- Where nothing changed, nobody was removed. -/
theorem removed_of_changes {events tr : List Event} (h : changes (events ++ tr) = changes tr) {t : ClientToken}
    (hm : .removed t ∈ events ++ tr) : .removed t ∈ tr := by
  induction events with
  | nil => exact hm
  | cons e events ih =>
    have hle := changes_append_le events tr
    rw [List.cons_append] at h hm
    cases e with
    | named | removed =>
      rw [changes] at h
      omega
    | registered | snapshot | replayed | ready | recorded | broadcast =>
      exact ih h ((List.mem_cons.1 hm).resolve_left Event.noConfusion)

theorem HandlerPc.Due.mono {events tr : List Event} {pc : HandlerPc} (hc : changes (events ++ tr) = changes tr)
    (h : pc.Due tr) : pc.Due (events ++ tr) := by
  revert h
  unfold HandlerPc.Due
  split
  · exact fun h hm => h (removed_of_changes hc hm)
  · exact id
  · rw [hc]
    exact id
  · rw [hc]
    exact id
  · exact id

theorem WriterPc.Due.mono {events tr : List Event} {pc : WriterPc} (hc : changes (events ++ tr) = changes tr)
    (h : pc.Due tr) : pc.Due (events ++ tr) := by
  revert h
  unfold WriterPc.Due
  split
  · exact id
  · exact id
  · rw [hc]
    exact id
  · exact id

theorem Conn.Due.mono {events tr : List Event} {conn : Conn} (hc : changes (events ++ tr) = changes tr)
    (h : conn.Due tr) : conn.Due (events ++ tr) := h.imp (HandlerPc.Due.mono hc) (WriterPc.Due.mono hc)

theorem Running.Due.isDone {n : Nat} {call : Running} (h : call.Due n) : (!call.isDone) = true := by
  cases call with
  | prune | pruned | present => rfl
  | lockReplay | lockRecord | critical | drop | done => cases h

theorem HandlerPc.Due.owes {tr : List Event} {pc : HandlerPc} (h : pc.Due tr) : pc.owes = true := by
  revert h
  unfold HandlerPc.Due
  split
  · exact fun _ => rfl
  · exact fun _ => rfl
  · exact Running.Due.isDone
  · exact Running.Due.isDone
  · exact False.elim

theorem WriterPc.Due.owes {tr : List Event} {pc : WriterPc} (h : pc.Due tr) : pc.owes = true := by
  revert h
  unfold WriterPc.Due
  split
  · exact fun _ => rfl
  · exact fun _ => rfl
  · exact Running.Due.isDone
  · exact False.elim

/-- A section that drops nobody changes no usernames. -/
theorem CallTurn.unchanged {w w' : World} {me : Task} {a : SocketAddr} {t : ClientToken} {rx : List Rx}
    {call call' : Running} (h : CallTurn w me a t rx call w' call') (hd : call.dooms = none) :
    changes w'.trace = changes w.trace := by
  cases h with
  | prunes | drops => cases hd
  | advance hr hc =>
    cases advances_of_step hc with
    | drop => cases hd
    | unknown | found | snapshot | unencoded | refused | replayed | readied | unreadied | record | deliver => rfl
  | lockReplay | lockRecord | unlock | prune | taken | unencoded | present | dropped => rfl

/-- **A broadcast that is due stays so until it has sent the usernames there are.** -/
theorem CallTurn.due {w w' : World} {me : Task} {a : SocketAddr} {t : ClientToken} {rx : List Rx} {call call' : Running}
    (h : CallTurn w me a t rx call w' call') (hf : call.Fine .presence) (hd : call.dooms = none)
    (hdue : call.Due (changes w.trace)) : call'.Due (changes w'.trace) ∨ w'.presented = changes w'.trace := by
  cases h with
  | prune => exact .inl trivial
  | prunes => cases hd
  | taken => exact .inl rfl
  | present => exact .inr hdue
  | unencoded he =>
    obtain ⟨frame, hok⟩ := presenceFrame_of_fine hf
    rw [he] at hok
    cases hok
  | lockReplay | lockRecord | unlock | advance | drops | dropped => cases hdue

/-- **Whoever changes the usernames has them to broadcast.** -/
theorem Turn.changed {w w' : World} {c : Nat} {l : Label} {conn : Conn} (hw : System.Reach server System.Any w)
    (hP : Settled w.trace (w.conns c)) (h : Turn w c l w' conn) (hc : changes w'.trace ≠ changes w.trace) :
      conn.Due w'.trace := by
  obtain ⟨hsound, hr⟩ := sound_of_reach hw
  have htracked := tracked_of_reach hr
  have hcon : Consistent w.st := (fed_of_reach hr).consistent
  have hsettles := hP.settles
  have hlive : ∀ {t removed st}, removeClientIfCurrent w.st (w.conns c).addr t = some (removed, st) → removed = true →
      .removed t ∉ w.trace := by
    intro t removed st hrem htrue
    exact ((htracked.live _ _).1 ((removeClientIfCurrent_some hcon hrem).1.result.1 htrue)).2
  cases h with
  | @named _ s st hh hu =>
    refine .inl fun hmem => ?_
    have hmem' : Event.removed s.token ∈ w.trace := by simpa using hmem
    exact ((htracked.live _ _).1 (setClientUsername_ok hu).1).2 hmem'
  | @unregister _ s removed st hh hrem =>
    rw [hh] at hsettles
    cases removed with
    | false => exact absurd rfl hc
    | true => exact absurd hsettles (hlive hrem rfl)
  | @finish _ s mode removed st hh hrem =>
    rw [hh] at hsettles
    cases removed with
    | false => exact absurd rfl hc
    | true =>
      have hjoined : (w.conns c).joined = true := hsettles.resolve_right (hlive hrem rfl)
      obtain ⟨post, hp, -⟩ := leavePost_ok s
      refine .inl ?_
      show (afterRemoval s mode true (w.conns c).joined).Due _
      rw [hjoined]
      simp only [afterRemoval, hp]
      trivial
  | @remove _ s removed st hwr hrem =>
    cases removed with
    | false => exact absurd rfl hc
    | true => exact .inr trivial
  | call hh ht => exact absurd (ht.unchanged (hP.dooms _ (.inl (by rw [hh]; rfl)))) hc
  | writerCall hwr hpc ht =>
    refine absurd (ht.unchanged (hP.dooms _ (.inr ?_))) hc
    rw [hwr]
    cases hpc <;> rfl
  | accept | acquired | full | admitted | refused | registered | unregistered | unnamed | storeJoined | wait
  | dropPermit | dropGlobal | receive | writerWait | stop => exact absurd rfl hc

/-- A handler with usernames to broadcast has them still, or has just sent them. -/
theorem Turn.handlerDue {w w' : World} {c : Nat} {l : Label} {conn : Conn} (hw : System.Reach server System.Any w)
    (hP : Settled w.trace (w.conns c)) (h : Turn w c l w' conn) {events : List Event}
    (htr : w'.trace = events ++ w.trace) (hsame : changes (events ++ w.trace) = changes w.trace)
    (hdue : (w.conns c).handler.Due w.trace) : conn.Due w'.trace ∨ w'.presented = changes w'.trace := by
  have hfine := (fine_of_reach hw c).1
  have hsettles := hP.settles
  cases h with
  | @call s next rx r _ r' hh ht =>
    have hd : r.dooms = none := hP.dooms r (.inl (by rw [hh]; rfl))
    rw [hh] at hdue hfine
    cases next with
    | history =>
      refine .inl (.inl fun hmem => ?_)
      rw [htr] at hmem
      exact hdue (removed_of_changes hsame hmem)
    | presence | leavePresence => exact (ht.due hfine hd hdue).imp_left .inl
    | leave => exact .inl (.inl trivial)
    | join | joinPresence | chat | chatPresence => cases hdue
  | wait hh hwait =>
    rw [hh] at hdue hfine hsettles
    cases hwait with
    | @resume s next result =>
      cases next with
      | history =>
        cases result with
        | ok => exact .inl (.inl trivial)
        | error e => exact absurd (hsettles.1 rfl) hdue
      | leave mode =>
        cases result with
        | ok => exact .inl (.inl trivial)
        | error e => cases hfine
      | presence | join | joinPresence | chat | chatPresence | leavePresence => cases hdue
    | timeout | refused | named | disconnected | received | limited | allowed | slept | tooLong => cases hdue
  | accept hh | acquired hh | full hh | admitted hh | refused hh | registered hh | unregistered hh | named hh
  | unnamed hh | unregister hh | storeJoined hh | finish hh | dropPermit hh | dropGlobal hh =>
    rw [hh] at hdue
    cases hdue
  | receive | remove | writerCall | writerWait | stop => exact .inl (.inl (by rw [htr]; exact hdue.mono hsame))

/-- A writer too. -/
theorem Turn.writerDue {w w' : World} {c : Nat} {l : Label} {conn : Conn} (hw : System.Reach server System.Any w)
    (hP : Settled w.trace (w.conns c)) (h : Turn w c l w' conn) {events : List Event}
    (htr : w'.trace = events ++ w.trace) (hsame : changes (events ++ w.trace) = changes w.trace)
    (hdue : (w.conns c).writer.Due w.trace) : conn.Due w'.trace ∨ w'.presented = changes w'.trace := by
  have hb := (sound_of_reach hw).1.bound c
  have hfine := (fine_of_reach hw c).2
  cases h with
  | accept hh =>
    rw [hb.unspawned (.inl (by rw [hh]; rfl))] at hdue
    cases hdue
  | named hh =>
    rw [hb.unspawned (.inr (by rw [hh]; rfl))] at hdue
    cases hdue
  | writerCall hwr hpc ht =>
    have hd := hP.dooms _ (.inr (show (w.conns c).writer.calls = some _ by rw [hwr]; cases hpc <;> rfl))
    rw [hwr] at hdue hfine
    cases hpc with
    | posting => exact .inl (.inr trivial)
    | presenting => exact (ht.due hfine hd hdue).imp_left .inr
  | writerWait hwr hwait =>
    rw [hwr] at hdue
    cases hwait with
    | announces | unencoded | unjoined | posted => exact .inl (.inr trivial)
    | gone | written | failed | presented => cases hdue
  | receive hwr | remove hwr | stop hwr =>
    rw [hwr] at hdue
    cases hdue
  | acquired | full | admitted | refused | registered | unregistered | unnamed | unregister | call | storeJoined
  | finish | wait | dropPermit | dropGlobal => exact .inl (.inr (by rw [htr]; exact hdue.mono hsame))

/-- **Who has usernames to broadcast has them still**, or has just sent them. -/
theorem Turn.due {w w' : World} {c : Nat} {l : Label} {conn : Conn} (hw : System.Reach server System.Any w)
    (hP : Settled w.trace (w.conns c)) (h : Turn w c l w' conn) (hc : changes w'.trace = changes w.trace)
    (hdue : (w.conns c).Due w.trace) : conn.Due w'.trace ∨ w'.presented = changes w'.trace := by
  obtain ⟨events, htr, -⟩ := h.events ((sound_of_reach hw).1.bound c)
  have hsame : changes (events ++ w.trace) = changes w.trace := by rw [← htr]; exact hc
  rcases hdue with hdue | hdue
  · exact h.handlerDue hw hP htr hsame hdue
  · exact h.writerDue hw hP htr hsame hdue

/-! ## The usernames a broadcast took -/

theorem newestPresence_append {events tr : List Event}
    (h : ∀ e ∈ events, ∀ frame ex doomed, e ≠ .broadcast frame ex doomed none) :
    newestPresence (events ++ tr) = newestPresence tr := by
  induction events with
  | nil => rfl
  | cons e events ih =>
    have ih := ih fun e he => h e (List.mem_cons_of_mem _ he)
    rw [List.cons_append]
    cases e with
    | broadcast frame ex doomed post =>
      cases post with
      | none => exact absurd rfl (h _ List.mem_cons_self frame ex doomed)
      | some post => exact ih
    | registered | named | snapshot | replayed | ready | recorded | removed => exact ih

theorem newestPresence_removed (t : ClientToken) (removed : Bool) (tr : List Event) :
    newestPresence (removedEvent t removed ++ tr) = newestPresence tr := by
  cases removed <;> rfl

/-- A section sends the usernames its call took, or no presence. -/
theorem CallTurn.presents {w w' : World} {me : Task} {a : SocketAddr} {t : ClientToken} {rx : List Rx} {p : Purpose}
    {call call' : Running} (h : CallTurn w me a t rx call w' call') (hs : call.Serves a t p) :
    (w'.presented = w.presented ∧ newestPresence w'.trace = newestPresence w.trace) ∨
      ∃ users taken frame, call = .present users taken ∧ presenceFrame users = .ok frame ∧ w'.presented = taken ∧
        newestPresence w'.trace = some frame ∧ changes w'.trace = changes w.trace := by
  cases h with
  | present hf => exact .inr ⟨_, _, _, rfl, hf, rfl, rfl, rfl⟩
  | prunes | drops => exact .inl ⟨rfl, newestPresence_removed _ _ _⟩
  | advance hd hc =>
    cases hs with
    | critical hs =>
      refine .inl ⟨rfl, newestPresence_append fun e he frame ex doomed hbroadcast => ?_⟩
      have hfrom := (hs.step hc).2 e he
      rw [hbroadcast] at hfrom
      cases hfrom
      cases hs
  | lockReplay | lockRecord | unlock | prune | taken | unencoded | dropped => exact .inl ⟨rfl, rfl⟩

theorem Turn.presents {w w' : World} {c : Nat} {l : Label} {conn : Conn} (hb : (w.conns c).Bound w.trace)
    (h : Turn w c l w' conn) : (w'.presented = w.presented ∧ newestPresence w'.trace = newestPresence w.trace) ∨
      ∃ task users taken frame, l.task = some task ∧ w.calls task = some (.present users taken) ∧
        (w.conns c).Calls (.present users taken) ∧ presenceFrame users = .ok frame ∧ w'.presented = taken ∧
        newestPresence w'.trace = some frame ∧ changes w'.trace = changes w.trace := by
  cases h with
  | call hh ht =>
    have hserves := hb.handling
    rw [hh] at hserves
    rcases ht.presents hserves with hsame | ⟨users, taken, frame, rfl, hrest⟩
    · exact .inl hsame
    · have hcalls : (w.conns c).handler.calls = some (.present users taken) := by rw [hh]; rfl
      exact .inr ⟨.handler c, users, taken, frame, rfl, hcalls, .inl hcalls, hrest⟩
  | @writerCall s rx pc r _ r' goto hwr hpc ht =>
    obtain ⟨-, p, -, hserves, -⟩ := hb.calls hwr hpc
    rcases ht.presents hserves with hsame | ⟨users, taken, frame, rfl, hrest⟩
    · exact .inl hsame
    · have hcalls : (w.conns c).writer.calls = some (.present users taken) := by
        rw [hwr]
        cases hpc <;> rfl
      exact .inr ⟨.writer c, users, taken, frame, rfl, hcalls, .inr hcalls, hrest⟩
  | unregister | finish | remove => exact .inl ⟨rfl, newestPresence_removed _ _ _⟩
  | accept | acquired | full | admitted | refused | registered | unregistered | named | unnamed | storeJoined | wait
  | dropPermit | dropGlobal | receive | writerWait | stop => exact .inl ⟨rfl, rfl⟩

theorem HandlerPc.Begins.not_present {a : SocketAddr} {pc : HandlerPc} (h : pc.Begins a) {users : List Str}
    {taken : Nat} : pc.calls ≠ some (.present users taken) := by
  intro hc
  unfold HandlerPc.calls at hc
  split at hc
  · cases hc
    cases h.2
  · cases hc

/-- A call has the usernames it had, or those there are. -/
theorem Turn.takes {w w' : World} {c : Nat} {l : Label} {conn : Conn} (h : Turn w c l w' conn) {users : List Str}
    {taken : Nat} (hc : conn.Calls (.present users taken)) : (w.conns c).Calls (.present users taken) ∨
      taken = changes w.trace ∧ users = usernames w.st := by
  rcases hc with hc | hc
  · cases h with
    | call hh ht =>
      cases hc
      cases ht
      exact .inr ⟨rfl, rfl⟩
    | @finish _ s mode removed =>
      exact absurd hc (begins_afterRemoval (w.conns c).addr s mode removed (w.conns c).joined).not_present
    | wait hh hwait => exact absurd hc (hwait.begins (w.conns c).addr).not_present
    | receive | remove | writerCall | writerWait | stop => exact .inl (.inl hc)
    | accept | acquired | full | admitted | refused | registered | unregistered | named | unnamed | unregister
    | storeJoined | dropPermit | dropGlobal => cases hc
  · cases h with
    | @writerCall s rx pc r _ r' goto hwr hpc ht =>
      have he : r' = .present users taken := by
        cases hpc <;> exact Option.some.inj hc
      subst he
      cases ht
      exact .inr ⟨rfl, rfl⟩
    | @remove _ s removed => cases removed <;> cases hc
    | writerWait hwr hwait => cases hwait <;> cases hc
    | accept | named | receive | stop => cases hc
    | acquired | full | admitted | refused | registered | unregistered | unnamed | unregister | call | storeJoined
    | finish | wait | dropPermit | dropGlobal => exact .inl (.inr hc)

theorem Steps.renames {w w' : World} {l : Label} (hs : Sound w) (hcon : Consistent w.st) (h : Steps w l w') :
    (usernames w'.st).Perm (usernames w.st) ∧ changes w'.trace = changes w.trace ∨
      changes w'.trace = changes w.trace + 1 := by
  rcases h.simulates hs with hsame | ⟨k, -, hk⟩
  · have hst : w'.st = w.st := congrArg Shared.st hsame
    have htr : w'.trace = w.trace := congrArg Shared.trace hsame
    rw [hst, htr]
    exact .inl ⟨.refl _, rfl⟩
  · exact (moves_of_step hk).usernames hcon

/-- What is known of the presences: they are of usernames there were, and if there are others by now someone has those
to send. -/
structure Rostered (w : World) : Prop where
  le : w.presented ≤ changes w.trace
  taken : ∀ c users taken, (w.conns c).Calls (.present users taken) →
    taken ≤ changes w.trace ∧ (taken = changes w.trace → users.Perm (usernames w.st))
  newest : ∀ frame, newestPresence w.trace = some frame →
    ∃ users, presenceFrame users = .ok frame ∧ (w.presented = changes w.trace → users.Perm (usernames w.st))
  owed : w.presented = changes w.trace ∨ ∃ c, (w.conns c).Due w.trace

theorem rostered_init : Rostered .init where
  le := Nat.le_refl _
  taken := by
    rintro c users taken (hc | hc) <;> cases hc
  newest := by
    intro frame h
    cases h
  owed := .inl rfl

/-- The run leaves room, and its broadcasts send the usernames in the order they took them. -/
def Orderly (w : World) (l : Label) : Prop := LeavesRoom w l ∧ SendsNewer w l

theorem Turn.rostered {w w' : World} {c : Nat} {l : Label} {conn : Conn} (hw : System.Reach server Orderly w)
    (hnewer : SendsNewer w l) (h : Turn w c l w' conn) (hI : Rostered w) : Rostered (w.after c w' conn) := by
  obtain ⟨hsound, hr⟩ := sound_of_reach hw
  have hb := hsound.bound c
  have hP := settled_of_reach (hw.mono fun _ _ hG => hG.1)
  obtain ⟨events, htr, -⟩ := h.events hb
  have hnames : (usernames w'.st).Perm (usernames w.st) ∧ changes w'.trace = changes w.trace ∨
      changes w'.trace = changes w.trace + 1 :=
    @Steps.renames w (w.after c w' conn) l hsound (fed_of_reach hr).consistent (.turn h)
  have hle : changes w.trace ≤ changes w'.trace := by
    rcases hnames with ⟨-, hc⟩ | hc <;> omega
  -- what was of the usernames there were, and took their number, is of those there are
  have hperm : ∀ {users : List Str} {n : Nat}, n ≤ changes w.trace ∧
    (n = changes w.trace → users.Perm (usernames w.st)) →
      n ≤ changes w'.trace ∧ (n = changes w'.trace → users.Perm (usernames w'.st)) := by
    rintro users n ⟨hn, hu⟩
    refine ⟨hn.trans hle, fun he => ?_⟩
    rcases hnames with ⟨hp, hc⟩ | hc
    · exact (hu (by omega)).trans hp.symm
    · omega
  refine ⟨?_, ?_, ?_, ?_⟩
  · show w'.presented ≤ changes w'.trace
    rcases h.presents hb with ⟨hsame, -⟩ | ⟨_, _, _, _, -, -, hcalls, -, hpres, -⟩
    · rw [hsame]
      exact hI.le.trans hle
    · rw [hpres]
      exact (hI.taken _ _ _ hcalls).1.trans hle
  · intro d users taken hc
    show taken ≤ changes w'.trace ∧ (taken = changes w'.trace → users.Perm (usernames w'.st))
    by_cases hd : d = c
    · subst hd
      rw [World.after_self] at hc
      rcases h.takes hc with hold | ⟨rfl, rfl⟩
      · exact hperm (hI.taken d users taken hold)
      · exact hperm ⟨Nat.le_refl _, fun _ => .refl _⟩
    · rw [World.after_of_ne w hd] at hc
      exact hperm (hI.taken d users taken hc)
  · intro frame hnew
    show ∃ users, presenceFrame users = .ok frame ∧ (w'.presented = changes w'.trace → users.Perm (usernames w'.st))
    have hnew' : newestPresence w'.trace = some frame := hnew
    rcases h.presents hb with ⟨hsame, htail⟩ | ⟨_, users, taken, frame', -, -, hcalls, hf, hpres, hlast, -⟩
    · rw [htail] at hnew'
      obtain ⟨users, hf, hu⟩ := hI.newest frame hnew'
      rw [hsame]
      exact ⟨users, hf, (hperm ⟨hI.le, hu⟩).2⟩
    · rw [hlast] at hnew'
      cases hnew'
      rw [hpres]
      exact ⟨users, hf, (hperm (hI.taken c users taken hcalls)).2⟩
  · show w'.presented = changes w'.trace ∨ ∃ d, ((w.after c w' conn).conns d).Due w'.trace
    by_cases hc : changes w'.trace = changes w.trace
    · rcases hI.owed with hold | ⟨d, hd⟩
      · -- the usernames sent last are those there are: only the same ones may be sent now
        refine .inl ?_
        rcases h.presents hb with ⟨hsame, -⟩ | ⟨task, users, taken, _, hl, hcall, hcalls, -, hpres, -⟩
        · rw [hsame, hold, hc]
        · have hge := hnewer task users taken hl hcall
          have hle' := (hI.taken c users taken hcalls).1
          omega
      · by_cases hdc : d = c
        · subst hdc
          rcases h.due hw.any (hP d) hc hd with hdue | hpres
          · exact .inr ⟨d, by rw [World.after_self]; exact hdue⟩
          · exact .inl hpres
        · refine .inr ⟨d, ?_⟩
          rw [World.after_of_ne w hdc, htr]
          rw [htr] at hc
          exact hd.mono hc
    · exact .inr ⟨c, by rw [World.after_self]; exact h.changed hw.any (hP c) hc⟩

theorem rostered_of_reach {w : World} (hw : System.Reach server Orderly w) : Rostered w := by
  apply hw.invariant rostered_init
  intro w l w' hr hI hG hstep
  have h := steps_of_step hstep
  obtain ⟨hsound, hr'⟩ := sound_of_reach hr
  cases h with
  | @turn _ c w' conn h => exact h.rostered hr hG.2 hI
  | @reorder _ _ st hre =>
    have hperm : (usernames st).Perm (usernames w.st) := by
      rcases (Steps.reorder hre).renames hsound (fed_of_reach hr').consistent with ⟨hp, -⟩ | hc
      · exact hp
      · exact absurd hc (Nat.succ_ne_self _).symm
    refine ⟨hI.le, fun c users taken hc => ?_, fun frame hf => ?_, hI.owed⟩
    · exact (hI.taken c users taken hc).imp_right fun hu he => (hu he).trans hperm.symm
    · obtain ⟨users, hu, hp⟩ := hI.newest frame hf
      exact ⟨users, hu, fun he => (hp he).trans hperm.symm⟩

theorem lastPresence_of_getLast {users : List Str} {frame : Bytes} {frames : List Bytes}
    (h : presenceFrame users = .ok frame) (hl : (frames.filter isPresenceFrame).getLast? = some frame) :
    lastPresence frames = some users := by
  have hone := lastPresence_concat h []
  unfold lastPresence at hone ⊢
  rw [List.nil_append, List.filter_cons_of_pos (isPresenceFrame_of_presenceFrame h), List.filter_nil] at hone
  rw [hl]
  exact hone

theorem HandlerPc.owes_of_unsent {pc : HandlerPc} (h : pc.unsent = true) : pc.owes = true := by
  revert h
  unfold HandlerPc.unsent
  split
  · exact fun _ => rfl
  · rename_i call
    cases call with
    | prune | pruned | present => exact fun _ => rfl
    | lockReplay | lockRecord | critical | drop | done =>
      intro h
      cases h
  · intro h
    cases h

/-- Where no broadcast is owed, the usernames sent last are of the last change. -/
theorem presented_of_quiescent {w : World} (hw : System.Reach server Orderly w) (hq : Quiescent w) :
    w.presented = changes w.trace := by
  apply (rostered_of_reach hw).owed.resolve_right
  rintro ⟨c, hd | hd⟩
  · have howes := hd.owes
    rw [(hq c).1] at howes
    cases howes
  · have howes := hd.owes
    rw [(hq c).2] at howes
    cases howes

theorem heard_of_quiescent {w : World} (hw : System.Reach server LeavesRoom w) (hq : Quiescent w) {c : Nat}
    {s : Session} (hs : (w.conns c).handler.session = some s) (hready : .ready s.token ∈ w.trace) :
    presentedSince s.token w.trace = true := by
  refine ((settled_of_reach hw c).heard s hs hready).resolve_left fun hu => ?_
  have howes := HandlerPc.owes_of_unsent hu
  rw [(hq c).1] at howes
  cases howes

/-- **One roster for all**: the last presence addressed to each ready session is of the same usernames, those there are
in some order. -/
theorem exists_roster {w : World} (hw : System.Reach server Orderly w) (hq : Quiescent w) :
    ∃ users, users.Perm (usernames w.st) ∧ ∀ c s, (w.conns c).handler.session = some s → .ready s.token ∈ w.trace →
      ∀ a, lastPresence (replayedFrames s.token w.trace ++ feed s.token a w.trace) = some users := by
  have hroom := hw.mono (H := LeavesRoom) fun _ _ hG => hG.1
  have hroomy := events_roomy hroom
  -- the last presence addressed to a ready session is the newest
  have hnewest : ∀ c s, (w.conns c).handler.session = some s → .ready s.token ∈ w.trace → ∀ a,
      ∃ frame, newestPresence w.trace = some frame ∧
        ((replayedFrames s.token w.trace ++ feed s.token a w.trace).filter isPresenceFrame).getLast? = some frame := by
    intro c s hs hready a
    rw [List.filter_append, presences_replayed hroomy, List.nil_append]
    exact feed_newest hroomy (heard_of_quiescent hroom hq hs hready)
  cases hnew : newestPresence w.trace with
  | none =>
    refine ⟨usernames w.st, .refl _, fun c s hs hready a => ?_⟩
    obtain ⟨frame, h, -⟩ := hnewest c s hs hready a
    cases hnew.symm.trans h
  | some frame =>
    obtain ⟨users, hf, hu⟩ := (rostered_of_reach hw).newest frame hnew
    refine ⟨users, hu (presented_of_quiescent hw hq), fun c s hs hready a => ?_⟩
    obtain ⟨frame', h, hlast⟩ := hnewest c s hs hready a
    cases hnew.symm.trans h
    exact lastPresence_of_getLast hf hlast

/-- **The roster every client has is the one there is.**  In a run with room for every message, in which no broadcast
sends usernames taken before those sent last: in every state where each session that set its username or was removed has
finished the broadcast that follows, the last presence on the channel of each ready client is of the usernames there
are. -/
theorem roster_current {w : World} (hw : System.Reach server Orderly w) (hq : Quiescent w) :
    ∀ p ∈ w.st.delivering, p.2.ready = true →
      ∃ users, lastPresence (w.st.channels p.2.writer).sent = some users ∧ users.Perm (usernames w.st) := by
  intro p hp hready
  have hroom := hw.mono (H := LeavesRoom) fun _ _ hG => hG.1
  obtain ⟨hsound, hr⟩ := sound_of_reach hw
  have hfed := fed_of_reach hr
  have htracked := tracked_of_reach hr
  have hid : (p.1, p.2.token) ∈ w.st.sessionIds := hfed.consistent.same.mem_iff.1 (mem_deliveryIds.2 ⟨p.2, hp, rfl⟩)
  obtain ⟨c, s, hs, ht, -⟩ := exists_conn hw ((htracked.live _ _).1 hid).1
  have hmem : .ready s.token ∈ w.trace := by
    rw [ht]
    exact (htracked.ready p hp).1 hready
  obtain ⟨users, hperm, hlast⟩ := exists_roster hw hq
  refine ⟨users, ?_, hperm⟩
  have hfailed : p.2.token ∉ failed w.trace := by
    rw [failed_of_roomy (events_roomy hroom)]
    exact List.not_mem_nil
  have hsent : (w.st.channels p.2.token).sent ++ p.2.pendingMessages =
      replayedFrames p.2.token w.trace ++ feed p.2.token p.2.addr w.trace := hfed.fed p hp hfailed
  rw [hfed.readied p hp hready, List.append_nil, ← ht] at hsent
  rw [(hfed.handles p hp).1, ← ht, hsent]
  exact hlast c s hs hmem p.2.addr

/-! ## Bob and alice -/

def roomy (st : ServerState) : Bool := st.delivering.all fun p =>
  !(st.channels p.2.writer).closed && !(st.channels p.2.writer).isFull &&
    decide (p.2.pendingMessages.length < pendingMessagesLimit)

/-- The step leaves room, and is none of a connection from that number on. -/
def leavesRoom (n : Nat) (w : World) (l : Label) : Bool := l.below n && (server.step w l).all fun w' => roomy w'.st

def sendsNewer (w : World) (l : Label) : Bool :=
  match l.task.bind w.calls with
  | some (.present _ taken) => decide (w.presented ≤ taken)
  | _ => true

theorem leavesRoom_sound {n : Nat} (w : World) (l : Label) (h : leavesRoom n w l = true) : LeavesRoom w l ∧
    l.below n = true := by
  obtain ⟨hbelow, hroom⟩ := Bool.and_eq_true_iff.1 h
  refine ⟨fun w' hstep p hp => ?_, hbelow⟩
  rw [hstep, Option.all_some] at hroom
  have hp' := List.all_eq_true.1 hroom p hp
  simpa [and_assoc] using hp'

theorem sendsNewer_sound {w : World} {l : Label} (h : sendsNewer w l = true) : SendsNewer w l := by
  intro task users taken hl hcall
  rw [sendsNewer, hl, Option.bind_some, hcall] at h
  exact of_decide_eq_true h

/-- Nobody of the connections below that number has a presence to broadcast. -/
def quiet (n : Nat) (w : World) : Bool := (List.range n).all fun c => !(w.conns c).handler.owes &&
    !(w.conns c).writer.owes

/-- The connections from that number on are as at the start. -/
theorem untouched_of_reach {n : Nat} {w : World} (hw : System.Reach server (fun _ l => l.below n = true) w) {c : Nat}
    (hc : n ≤ c) : w.conns c = World.init.conns c := by
  refine hw.invariant (I := fun w => w.conns c = World.init.conns c) rfl ?_
  intro w l w' _ hI hl hstep
  cases steps_of_step hstep with
  | reorder => exact hI
  | @turn _ d w' conn h =>
    have hd : d < n := by
      cases h <;> exact of_decide_eq_true hl
    have hne : c ≠ d := by omega
    exact (World.after_of_ne w hne w' conn).trans hI

theorem quiescent_of_quiet {n : Nat} {w : World} (hw : System.Reach server (fun _ l => l.below n = true) w)
    (h : quiet n w = true) : Quiescent w := by
  intro c
  by_cases hc : c < n
  · have hquiet := List.all_eq_true.1 h c (List.mem_range.2 hc)
    simpa using hquiet
  · rw [untouched_of_reach hw (Nat.le_of_not_lt hc)]
    exact ⟨rfl, rfl⟩

def orderly (n : Nat) (w : World) (l : Label) : Bool := leavesRoom n w l && sendsNewer w l

theorem orderly_sound {n : Nat} (w : World) (l : Label) (h : orderly n w l = true) : Orderly w l ∧
    l.below n = true := by
  obtain ⟨hroom, hnewer⟩ := Bool.and_eq_true_iff.1 h
  obtain ⟨hroom, hbelow⟩ := leavesRoom_sound w l hroom
  exact ⟨⟨hroom, sendsNewer_sound hnewer⟩, hbelow⟩

/-- Bob joins, and then alice. -/
theorem roster_current_alice : ∃ w, System.Reach server Orderly w ∧ Quiescent w ∧
    (w.st.delivering.map (·.2.ready)) = [true, true] ∧ ∀ p ∈ w.st.delivering, p.2.ready = true →
      ∃ users, lastPresence (w.st.channels p.2.writer).sent = some users ∧ users.Perm (usernames w.st) := by
  obtain ⟨w, hw, ht⟩ := System.exists_of_runIf (@orderly_sound 2) server
    (fun w => quiet 2 w && w.st.delivering.map (·.2.ready) == [true, true])
    (registers 0 bobAddr "bob" ++ replays 0 0 ++ enters 0 ++ registers 1 aliceAddr "alice" ++ replays 1 1 ++ enters 1)
      (by decide)
  obtain ⟨hquiet, hready⟩ := Bool.and_eq_true_iff.1 ht
  have hq := quiescent_of_quiet (hw.mono fun _ _ hG => hG.2) hquiet
  have hw' := hw.mono fun _ _ hG => hG.1
  exact ⟨w, hw', hq, by simpa using hready, roster_current hw' hq⟩

/-- A ready client was last sent a presence of fewer users than there are. -/
def outdated (w : World) : Bool := w.st.delivering.any fun p =>
  p.2.ready && (lastPresence (w.st.channels p.2.writer).sent).all fun users => decide
    (users.length < (usernames w.st).length)

/-- Bob takes the usernames while he is alone.  Alice joins, and sends hers and his; then bob sends his own. -/
theorem roster_outdated : ∃ w, System.Reach server LeavesRoom w ∧ Quiescent w ∧
    ∃ p ∈ w.st.delivering, p.2.ready = true ∧
    ¬ ∃ users, lastPresence (w.st.channels p.2.writer).sent = some users ∧ users.Perm (usernames w.st) := by
  obtain ⟨w, hw, ht⟩ := System.exists_of_runIf (@leavesRoom_sound 2) server (fun w => quiet 2 w && outdated w)
    (registers 0 bobAddr "bob" ++ replays 0 0 ++ sectionsOf 2 0 ++ registers 1 aliceAddr "alice" ++ replays 1 0 ++
      enters 1 ++
      sectionsOf 2 0 ++ [.handler 0 .go] ++ sectionsOf 4 0 ++ [.handler 0 .go, .handler 0 .go]) (by decide)
  obtain ⟨hquiet, hold⟩ := Bool.and_eq_true_iff.1 ht
  refine ⟨w, hw.mono fun _ _ hG => hG.1, quiescent_of_quiet (hw.mono fun _ _ hG => hG.2) hquiet, ?_⟩
  obtain ⟨p, hp, hold⟩ := List.any_eq_true.1 hold
  obtain ⟨hready, hfewer⟩ := Bool.and_eq_true_iff.1 hold
  refine ⟨p, hp, hready, ?_⟩
  rintro ⟨users, hlast, hperm⟩
  rw [hlast, Option.all_some, decide_eq_true_eq, hperm.length_eq] at hfewer
  exact Nat.lt_irrefl _ hfewer

end Server
end Drocsid
