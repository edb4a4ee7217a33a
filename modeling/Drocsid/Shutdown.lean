import Drocsid.Downstream
import Drocsid.Permits
import Drocsid.Termination
/-!
# Shutdown — the server once its clients are gone

No connection is accepted any more and nothing is read but the end of a stream or an error, while tasks go on in any
order and the limiter, the clock and the sockets do as they like (`Label.winds`).  Each step takes a task closer to its
end, a call closer to its return, or a message off a queue (`spends_of_step`), and while any task is not at its end some
task can go on (`exists_step`): the holder of the barrier, if it is held.  So the server comes to rest after finitely
many steps, with nothing left of any connection (`winds_down`).
-/
namespace Drocsid

open Text Protocol

namespace Server

/-- A step of a task, for which no message came. -/
def Label.winds : Label → Bool
  | .handler _ (.frame (.ok (some _))) => false
  | .handler _ _ | .writer _ _ => true
  | .accept _ _ | .reorder _ _ => false

/-! ## What is left to do

Ranks count down to a task's end, stages to a call's return. -/

@[simp] def After.rank : After → Nat
  | .history => 18
  | .presence => 17
  | .join => 16
  | .joinPresence => 15
  | .chat => 11
  | .chatPresence => 10
  | .leave .normal => 7
  | .leavePresence .normal => 6
  | .leave .cleanup => 4
  | .leavePresence .cleanup => 3

@[simp] def ServePc.rank : ServePc → Nat
  | .setUsername => 19
  | .unregister => 3
  | .calling next _ => next.rank
  | .storeJoined => 14
  | .select => 9
  | .allow _ => 13
  | .sleep _ => 12
  | .finish .normal => 8
  | .finish .cleanup => 5

@[simp] def HandlerPc.rank : HandlerPc → Nat
  | .idle | .refused | .returned _ => 0
  | .acquire => 23
  | .acquireIp => 22
  | .handshake => 21
  | .register _ => 20
  | .serving _ pc => pc.rank
  | .dropPermit _ => 2
  | .dropGlobal _ => 1

@[simp] def WritePc.rank : WritePc → Nat
  | .recv | .write => 6
  | .remove => 5
  | .loadJoined => 4
  | .posting _ => 3
  | .presenting _ => 2
  | .stopping => 1

@[simp] def WriterPc.rank : WriterPc → Nat
  | .unspawned | .ended _ => 0
  | .running _ pc => pc.rank

@[simp] def Critical.stage : Critical → Nat
  | .lookup .. => 4
  | .snapshot .. | .record .. => 3
  | .replay .. | .deliver .. => 2
  | .replayed _ | .drop .. => 1

@[simp] def Running.stage : Running → Nat
  | .lockReplay => 5
  | .lockRecord _ => 4
  | .critical c => c.stage
  | .prune => 4
  | .pruned _ => 3
  | .present _ _ => 2
  | .drop _ _ => 1
  | .done _ => 0

/-- What a loop has before it. -/
@[simp] def Running.loop : Running → Nat
  | .critical (.replay _ _ _ history) => history.length
  | .critical (.drop doomed _) | .pruned doomed | .drop doomed _ => doomed.length
  | _ => 0

/-- What is left of the calls a connection is in: stages first, and then loops. -/
def callEffort (handler writer : Option Running) : ℕ ×ₗ ℕ :=
  toLex ((handler.elim 0 Running.stage) + (writer.elim 0 Running.stage),
    (handler.elim 0 Running.loop) + (writer.elim 0 Running.loop))

/-- What a connection's tasks have left to do, but for messages: a handler starts a writer once. -/
def Conn.effort (conn : Conn) : ℕ ×ₗ ℕ ×ₗ ℕ :=
  toLex (7 * conn.handler.rank + conn.writer.rank, callEffort conn.handler.calls conn.writer.calls)

/-- The messages a writer has to take and to write. -/
def WriterPc.messages (channels : Channels) : WriterPc → Nat
  | .running s .write => 2 * (channels s.token).queued.length + 1
  | .running s _ => 2 * (channels s.token).queued.length
  | .unspawned | .ended _ => 0

/-! ## One step -/

theorem callEffort_lt_handler {call call' : Running} {writer : Option Running}
    (h : call'.stage < call.stage ∨ call'.stage = call.stage ∧ call'.loop < call.loop) :
    callEffort (some call') writer < callEffort (some call) writer := by
  unfold callEffort
  rw [Prod.Lex.toLex_lt_toLex]
  rcases h with h | ⟨h, hloop⟩
  · exact .inl (Nat.add_lt_add_right h _)
  · exact .inr ⟨congrArg (· + _) h, Nat.add_lt_add_right hloop _⟩

theorem callEffort_lt_writer {call call' : Running} {handler : Option Running}
    (h : call'.stage < call.stage ∨ call'.stage = call.stage ∧ call'.loop < call.loop) :
    callEffort handler (some call') < callEffort handler (some call) := by
  unfold callEffort
  rw [Prod.Lex.toLex_lt_toLex]
  rcases h with h | ⟨h, hloop⟩
  · exact .inl (Nat.add_lt_add_left h _)
  · exact .inr ⟨congrArg (_ + ·) h, Nat.add_lt_add_left hloop _⟩

theorem Critical.stage_pos (c : Critical) : 0 < c.stage := by
  cases c <;> exact Nat.succ_pos _

/-- **A section of a call takes it to its next stage**, or on in a loop. -/
theorem CallTurn.spends {w w' : World} {me : Task} {a : SocketAddr} {t : ClientToken} {rx : List Rx}
    {call call' : Running} (h : CallTurn w me a t rx call w' call') :
    call'.stage < call.stage ∨ call'.stage = call.stage ∧ call'.loop < call.loop := by
  cases h with
  | lockReplay | lockRecord | prune | taken | unencoded | present | dropped =>
    exact .inl (by simp)
  | unlock => exact .inl (Critical.stage_pos _)
  | advance _ hc =>
    cases advances_of_step hc with
    | unknown | found | snapshot | unencoded | refused | readied | unreadied | record | deliver =>
      exact .inl (by simp)
    | replayed | drop => exact .inr ⟨rfl, Nat.lt_succ_self _⟩
  | prunes | drops => exact .inr ⟨rfl, Nat.lt_succ_self _⟩

theorem rank_abandon (s : Session) (mode : FinishMode) : (abandon s mode).rank < (After.leavePresence mode).rank := by
  cases mode <;> simp [abandon]

theorem Resumes.rank {s : Session} {next : After} {result : Except ServerError Bool} {pc : HandlerPc}
    (h : Resumes s next result pc) : pc.rank < next.rank := by
  cases h with
  | @abandons _ mode e hn =>
    have hlt := rank_abandon s mode
    rcases hn with rfl | rfl
    · refine Nat.lt_trans hlt ?_
      cases mode <;> decide
    · exact hlt
  | @left mode | @leavePresented mode => cases mode <;> simp
  | @failed _ e h =>
    cases next with
    | leave mode => exact absurd rfl (h mode).1
    | leavePresence mode => exact absurd rfl (h mode).2
    | history | presence | join | joinPresence | chat | chatPresence => simp
  | replayed | presented | unencoded | joinDropped | joined | joinPresented | chatDropped | chatted | chatPresented =>
    simp

theorem rank_afterRemoval (s : Session) (mode : FinishMode) (removed joined : Bool) :
    (afterRemoval s mode removed joined).rank < (ServePc.finish mode).rank := by
  unfold afterRemoval
  split
  · split
    · cases mode <;> simp
    · cases mode <;> simp [abandon]
  · cases mode <;> simp

/-- A message loop that is given no message ends. -/
theorem finish_of_select {w w' : World} {c : Nat} {input : Input} {s : Session}
    (hstep : server.step w (.handler c input) = some w') (hl : (Label.handler c input).winds = true)
    (hh : (w.conns c).handler = .serving s .select) :
    ∃ mode, (w'.conns c).handler = .serving s (.finish mode) := by
  replace hstep : w.handlerStep c input = some w' := hstep
  simp only [World.handlerStep, hh] at hstep
  cases input with
  | disconnected =>
    rw [World.serveStep] at hstep
    split at hstep
    · cases hstep
      exact ⟨.normal, by simp [World.goto]⟩
    · cases hstep
  | frame result =>
    cases hstep
    cases result with
    | error e => exact ⟨.cleanup, by simp [World.goto, received]⟩
    | ok frame =>
      cases frame with
      | none => exact ⟨.normal, by simp [World.goto, received]⟩
      | some frame => cases hl
  | go | timeout | allowed | time | rx | written => cases hstep

theorem Conn.effort_lt {conn conn' : Conn}
    (h : 7 * conn'.handler.rank + conn'.writer.rank < 7 * conn.handler.rank + conn.writer.rank) :
    conn'.effort < conn.effort := by
  unfold Conn.effort
  rw [Prod.Lex.toLex_lt_toLex]
  exact .inl h

theorem Conn.effort_lt_of_calls {conn conn' : Conn} (hh : conn'.handler.rank = conn.handler.rank)
    (hw : conn'.writer.rank = conn.writer.rank)
    (h : callEffort conn'.handler.calls conn'.writer.calls < callEffort conn.handler.calls conn.writer.calls) :
    conn'.effort < conn.effort := by
  unfold Conn.effort
  rw [Prod.Lex.toLex_lt_toLex]
  exact .inr ⟨by rw [hh, hw], h⟩

/-- A handler that goes on, of the other tasks' inputs none, is closer to its end. -/
theorem HandlerPc.Waits.rank {w w' : World} {c : Nat} {input : Input} {pc pc' : HandlerPc} (h : pc.Waits pc')
    (hstep : server.step w (.handler c input) = some w') (hl : (Label.handler c input).winds = true)
    (hpc : (w.conns c).handler = pc) (hpc' : (w'.conns c).handler = pc') : pc'.rank < pc.rank := by
  cases h with
  | resume => exact (resumes_resume _ _ _).rank
  | received =>
    obtain ⟨mode, he⟩ := finish_of_select hstep hl hpc
    rw [← hpc', he]
    cases mode <;> simp
  | timeout | refused | named | disconnected | limited | allowed | slept | tooLong => simp

/-- A receiver that finds a message takes it. -/
theorem length_queued_receive {st : ServerState} {t : ClientToken} (h : (st.channels t).queued ≠ []) :
    ((receiveOn st t).channels t).queued.length + 1 = (st.channels t).queued.length := by
  simp only [receiveOn, setChannel, Function.update_self, Fifo.queued, Fifo.tick, List.length_drop, ne_eq,
    List.drop_eq_nil_iff, Nat.not_le] at h ⊢
  omega

/-- What a step takes from a connection: effort, or else a message. -/
theorem Turn.spends {w w' : World} {c : Nat} {l : Label} {conn : Conn} (hl : l.winds = true)
    (hstep : server.step w l = some (w.after c w' conn)) (ht : Turn w c l w' conn) :
    conn.effort < (w.conns c).effort ∨
    conn.effort = (w.conns c).effort ∧ ∃ s, (w.conns c).writer.session = some s ∧
      conn.writer.messages w'.st.channels < (w.conns c).writer.messages w.st.channels ∧
      ∀ t, t ≠ s.token → w'.st.channels t = w.st.channels t := by
  have hself : (w.after c w' conn).conns c = conn := World.after_self ..
  cases ht with
  | accept => cases hl
  | acquired hh | full hh | admitted hh | refused hh | registered hh | unregistered hh | unnamed hh | unregister hh
  | storeJoined hh | dropPermit hh | dropGlobal hh => exact .inl (Conn.effort_lt (by simp [hh]))
  | named hh => exact .inl (Conn.effort_lt (by simp [hh]; omega))
  | @finish input s mode removed st hh hrem =>
    have hlt : _ < (HandlerPc.serving s (.finish mode)).rank := rank_afterRemoval s mode removed (w.conns c).joined
    rw [← hh] at hlt
    exact .inl (Conn.effort_lt (Nat.add_lt_add_right (Nat.mul_lt_mul_of_pos_left hlt (by decide)) _))
  | call hh hcall =>
    refine .inl (Conn.effort_lt_of_calls (by simp [hh]) rfl ?_)
    simpa only [hh, HandlerPc.calls] using callEffort_lt_handler hcall.spends
  | wait hh hwait =>
    have hlt := hwait.rank hstep hl hh (congrArg Conn.handler hself)
    rw [← hh] at hlt
    exact .inl (Conn.effort_lt (Nat.add_lt_add_right (Nat.mul_lt_mul_of_pos_left hlt (by decide)) _))
  | @receive input s hwr =>
    have hq := queued_of_step hstep hwr (congrArg Conn.writer hself)
    refine .inr ⟨?_, s, by rw [hwr]; rfl, ?_, ?_⟩
    · simp [Conn.effort, hwr, WriterPc.calls]
    · have := length_queued_receive hq
      simp only [hwr, WriterPc.messages]
      omega
    · intro t ht
      exact Function.update_of_ne ht ..
  | @remove input s removed st hwr =>
    refine .inl (Conn.effort_lt ?_)
    cases removed <;> simp [hwr]
  | writerCall hwr hpc hcall =>
    refine .inl (Conn.effort_lt_of_calls rfl ?_ ?_)
    · cases hpc <;> simp [hwr]
    · cases hpc <;> simpa only [hwr, WriterPc.calls] using callEffort_lt_writer hcall.spends
  | @writerWait input s pc pc' hwr hwait =>
    cases hwait with
    | written =>
      refine .inr ⟨?_, s, by rw [hwr]; rfl, ?_, fun t _ => rfl⟩
      · simp [Conn.effort, hwr, WriterPc.calls]
      · simp [hwr, WriterPc.messages]
    | gone | failed | announces | unencoded | unjoined | posted | presented =>
      exact .inl (Conn.effort_lt (by simp [hwr]))
  | stop hwr => exact .inl (Conn.effort_lt (by simp [hwr]))

theorem WriterPc.messages_congr {channels channels' : Channels} {pc : WriterPc}
    (h : ∀ s, pc.session = some s → channels' s.token = channels s.token) :
    pc.messages channels' = pc.messages channels := by
  cases pc with
  | unspawned | ended => rfl
  | running s pc => cases pc <;> simp [messages, h s rfl]

/-- Where nothing was accepted there is nothing to do. -/
theorem Conn.not_effort_lt {tr : List Event} {conn conn' : Conn} (hb : conn.Bound tr) (hh : conn.handler = .idle) :
    ¬ conn'.effort < conn.effort := by
  have hwr := hb.unspawned (.inl (by rw [hh]; rfl))
  simp [Conn.effort, callEffort, hh, hwr, HandlerPc.calls, WriterPc.calls, Prod.Lex.toLex_lt_toLex]

/-- **Every step spends what its connection has left to do.** -/
theorem spends_of_step {w w' : World} {l : Label} (hw : System.Reach server System.Any w) (hl : l.winds = true)
    (hstep : server.step w l = some w') : ∃ c, (w.conns c).handler ≠ .idle ∧ (∀ d, d ≠ c → w'.conns d = w.conns d) ∧
      Termination.Spends (fun d => (w.conns d).effort) (fun d => (w.conns d).writer.messages w.st.channels)
        (fun d => (w'.conns d).effort) (fun d => (w'.conns d).writer.messages w'.st.channels) c := by
  obtain ⟨hsound, -⟩ := sound_of_reach hw
  cases steps_of_step hstep with
  | reorder => cases hl
  | @turn _ c w' conn ht =>
    have hother : ∀ d, d ≠ c → (w.after c w' conn).conns d = w.conns d := fun d hd => World.after_of_ne w hd ..
    have hself : (w.after c w' conn).conns c = conn := World.after_self ..
    rcases ht.spends hl hstep with hlt | ⟨heq, s, hs, hlt, hrest⟩
    · refine ⟨c, fun hh => Conn.not_effort_lt (hsound.bound c) hh hlt, hother, .first ?_ fun d hd => ?_⟩
      · show ((w.after c w' conn).conns c).effort < _
        rw [hself]
        exact hlt
      · exact congrArg Conn.effort (hother d hd)
    · have hsession := (hsound.bound c).writer s hs
      refine ⟨c, fun hh => ?_, hother, .second (funext fun d => ?_) ?_ fun d hd => ?_⟩
      · rw [hh] at hsession
        cases hsession
      · by_cases hd : d = c
        · subst hd
          exact (congrArg Conn.effort hself).trans heq
        · exact congrArg Conn.effort (hother d hd)
      · show ((w.after c w' conn).conns c).writer.messages w'.st.channels < _
        rw [hself]
        exact hlt
      · show ((w.after c w' conn).conns d).writer.messages w'.st.channels = _
        rw [hother d hd]
        refine WriterPc.messages_congr fun s' hs' => hrest _ fun htoken => hd ?_
        exact hsound.distinct d c s' s ((hsound.bound d).writer s' hs') hsession htoken

/-- Only so many connections were ever accepted. -/
theorem exists_bound {w : World} (hw : System.Reach server System.Any w) :
    ∃ n, ∀ c, n ≤ c → (w.conns c).handler = .idle := by
  refine hw.invariant (I := fun w => ∃ n, ∀ c, n ≤ c → (w.conns c).handler = .idle) ⟨0, fun _ _ => rfl⟩ ?_
  rintro w l w' - ⟨n, hn⟩ - hstep
  cases steps_of_step hstep with
  | reorder => exact ⟨n, hn⟩
  | @turn _ c w' conn ht =>
    refine ⟨max n (c + 1), fun d hd => ?_⟩
    have hdc : d ≠ c := by
      rintro rfl
      exact absurd (le_trans (le_max_right _ _) hd) (Nat.not_succ_le_self d)
    show ((w.after c w' conn).conns d).handler = .idle
    rw [World.after_of_ne w hdc]
    exact hn d (le_trans (le_max_left _ _) hd)

/-- A step that the server takes once its clients are gone. -/
def Winds (w w' : World) : Prop := ∃ l : Label, l.winds = true ∧ server.step w l = some w'

/-- **It cannot go on for ever.** -/
theorem acc_winds {w : World} (hw : System.Reach server System.Any w) : Acc (fun w' w => Winds w w') w := by
  obtain ⟨n, hn⟩ := exists_bound hw
  refine Termination.acc_of_spends (I := fun w => System.Reach server System.Any w ∧
      ∀ c, n ≤ c → (w.conns c).handler = .idle) n (fun w c => (w.conns c).effort)
    (fun w c => (w.conns c).writer.messages w.st.channels) ?_ ⟨hw, hn⟩
  rintro w w' ⟨hr, hidle⟩ ⟨l, hl, hstep⟩
  obtain ⟨c, hc, hother, hspends⟩ := spends_of_step hr hl hstep
  have hlt : c < n := Nat.lt_of_not_le fun hle => hc (hidle c hle)
  refine ⟨⟨.step hr trivial hstep, fun d hd => ?_⟩, c, hlt, hspends⟩
  rw [hother d (fun he => absurd hd (Nat.not_le_of_lt (he ▸ hlt)))]
  exact hidle d hd

/-! ## Some task goes on -/

def HandlerPc.finished : HandlerPc → Bool
  | .idle | .refused | .returned _ => true
  | _ => false

def WriterPc.finished : WriterPc → Bool
  | .unspawned | .ended _ => true
  | .running _ _ => false

theorem HandlerPc.unfinished_of_held {pc : HandlerPc} (h : pc.held.isSome = true) : pc.finished = false := by
  cases pc with
  | idle | refused | returned => cases h
  | acquire | acquireIp | handshake | register | serving | dropPermit | dropGlobal => rfl

theorem WriterPc.unfinished_of_held {pc : WriterPc} (h : pc.held.isSome = true) : pc.finished = false := by
  cases pc with
  | unspawned | ended => cases h
  | running => rfl

/-- The holder of the barrier goes on, or is done with it. -/
theorem exists_critical {st : ServerState} (h : Consistent st) (c : Critical) :
    (∃ result, c.result = some result) ∨ c.result = none ∧ ∃ r, c.step st [] = some r := by
  cases c with
  | lookup a t =>
    refine .inr ⟨rfl, ?_⟩
    rw [Critical.step]
    split <;> exact ⟨_, rfl⟩
  | snapshot | record | deliver => exact .inr ⟨rfl, _, rfl⟩
  | replay a t writer history =>
    refine .inr ⟨rfl, ?_⟩
    cases history with
    | nil =>
      rw [Critical.step]
      split <;> exact ⟨_, rfl⟩
    | cons message history =>
      rw [Critical.step]
      split
      · exact ⟨_, rfl⟩
      · split <;> exact ⟨_, rfl⟩
  | replayed result => cases result <;> exact .inl ⟨_, rfl⟩
  | drop doomed dropped =>
    cases doomed with
    | nil => exact .inl ⟨_, rfl⟩
    | cons d doomed =>
      obtain ⟨removed, st', hr, -⟩ := removeClientIfCurrent_spec h d.1 d.2
      exact .inr ⟨rfl, by rw [Critical.step, hr]; exact ⟨_, rfl⟩⟩

/-- A call goes on unless it waits for the barrier while another task holds it. -/
theorem exists_call {w : World} (h : Consistent w.st) (me : Task) (a : SocketAddr) (t : ClientToken) {call : Running}
    (hb : w.barrier = none ∨ call.held.isSome = true) (hn : ∀ result, call ≠ .done result) :
    ∃ r, w.call me a t [] call = some r := by
  cases call with
  | lockReplay | lockRecord =>
    have hnone := hb.resolve_right Bool.false_ne_true
    exact ⟨_, by rw [World.call, hnone]; rfl⟩
  | critical c =>
    rw [World.call]
    rcases exists_critical h c with ⟨result, hresult⟩ | ⟨hresult, r, hr⟩
    · rw [hresult]
      exact ⟨_, rfl⟩
    · rw [hresult]
      dsimp only
      rw [hr]
      exact ⟨_, rfl⟩
  | prune => exact ⟨_, rfl⟩
  | pruned doomed =>
    cases doomed with
    | nil => exact ⟨_, rfl⟩
    | cons d doomed =>
      obtain ⟨removed, st', hr, -⟩ := removeClientIfCurrent_spec h d.1 d.2
      exact ⟨_, by rw [World.call, hr]; rfl⟩
  | present users taken =>
    rw [World.call]
    split <;> exact ⟨_, rfl⟩
  | drop doomed dropped =>
    cases doomed with
    | nil => exact ⟨_, rfl⟩
    | cons d doomed =>
      obtain ⟨removed, st', hr, -⟩ := removeClientIfCurrent_spec h d.1 d.2
      exact ⟨_, by rw [World.call, hr]; rfl⟩
  | done result => exact absurd rfl (hn result)

/-- From its registration on. -/
theorem exists_serveStep {w : World} (h : Consistent w.st) {c : Nat} {s : Session} {pc : ServePc}
    (hb : w.barrier = none ∨ (HandlerPc.serving s pc).held.isSome = true) :
    ∃ input w', (Label.handler c input).winds = true ∧ w.serveStep c s pc input = some w' := by
  cases pc with
  | setUsername =>
    cases hu : setClientUsername w.st (w.conns c).addr s.token s.username with
    | error e => exact ⟨.go, _, rfl, by rw [World.serveStep, hu]⟩
    | ok st => exact ⟨.go, _, rfl, by rw [World.serveStep, hu]⟩
  | unregister =>
    obtain ⟨removed, st, hr, -⟩ := removeClientIfCurrent_spec h (w.conns c).addr s.token
    exact ⟨.go, _, rfl, by rw [World.serveStep, hr]; rfl⟩
  | calling next call =>
    by_cases hd : ∃ result, call = .done result
    · obtain ⟨result, rfl⟩ := hd
      exact ⟨.go, _, rfl, rfl⟩
    · have hn : ∀ result, call ≠ .done result := fun result he => hd ⟨result, he⟩
      obtain ⟨r, hr⟩ := exists_call h (.handler c) (w.conns c).addr s.token hb hn
      have hstep : w.serveStep c s (.calling next call) (.rx []) =
          some (r.1.goto c (.serving s (.calling next r.2))) := by
        rw [World.serveStep, hr]
        rfl
      exact ⟨.rx [], _, rfl, hstep⟩
  | storeJoined => exact ⟨.go, _, rfl, rfl⟩
  | select => exact ⟨.frame (.ok none), _, rfl, rfl⟩
  | allow content => exact ⟨.allowed false, _, rfl, rfl⟩
  | sleep content =>
    refine ⟨.time ⟨Fin.last 23, Fin.last 59⟩, ?_⟩
    rw [World.serveStep]
    split <;> exact ⟨_, rfl, rfl⟩
  | finish mode =>
    obtain ⟨removed, st, hr, -⟩ := removeClientIfCurrent_spec h (w.conns c).addr s.token
    exact ⟨.go, _, rfl, by rw [World.serveStep, hr]; rfl⟩

/-- A handler goes on unless it waits for the barrier while another task holds it. -/
theorem exists_handlerStep {w : World} (hw : System.Reach server System.Any w) {c : Nat}
    (hb : w.barrier = none ∨ (w.conns c).handler.held.isSome = true) (hf : (w.conns c).handler.finished = false) :
    ∃ w', Winds w w' := by
  have hc := (fed_of_reach (sound_of_reach hw).2).consistent
  suffices h : ∃ input w', (Label.handler c input).winds = true ∧ w.handlerStep c input = some w' by
    obtain ⟨input, w', hl, hstep⟩ := h
    exact ⟨w', _, hl, hstep⟩
  cases hh : (w.conns c).handler with
  | idle | refused | returned =>
    rw [hh] at hf
    cases hf
  | acquire =>
    cases ha : w.admission.acquire c with
    | none => exact ⟨.go, _, rfl, by simp only [World.handlerStep, hh, ha]; rfl⟩
    | some admission => exact ⟨.go, _, rfl, by simp only [World.handlerStep, hh, ha]; rfl⟩
  | acquireIp =>
    cases ha : w.admission.acquireIp c (w.conns c).addr.ip with
    | none => exact ⟨.go, _, rfl, by simp only [World.handlerStep, hh, ha]; rfl⟩
    | some admission => exact ⟨.go, _, rfl, by simp only [World.handlerStep, hh, ha]; rfl⟩
  | handshake => exact ⟨.timeout, _, rfl, by simp only [World.handlerStep, hh]; rfl⟩
  | register username =>
    cases hr : registerSession w.st (w.conns c).addr with
    | error e => exact ⟨.go, _, rfl, by simp only [World.handlerStep, hh, hr]; rfl⟩
    | ok r => exact ⟨.go, _, rfl, by simp only [World.handlerStep, hh, hr]; rfl⟩
  | serving s pc =>
    rw [hh] at hb
    simpa only [World.handlerStep, hh] using exists_serveStep hc hb
  | dropPermit s =>
    obtain ⟨admission, ha, -⟩ := (accounted_of_reach hw).dropPermit hh
    exact ⟨.go, _, rfl, by simp only [World.handlerStep, hh, ha]; rfl⟩
  | dropGlobal s => exact ⟨.go, _, rfl, by simp only [World.handlerStep, hh]; rfl⟩

/-- A session that its handler took out has no sender left. -/
theorem sendersGone_of_returned {w : World} (hw : System.Reach server System.Any w) {c : Nat} {s : Session}
    (hh : (w.conns c).handler = .returned (some s)) : w.sendersGone c s.token = true := by
  obtain ⟨-, hr⟩ := sound_of_reach hw
  have hfed := fed_of_reach hr
  have hremoved := removed_of_out hw c (s := s) (by rw [hh]; rfl)
  have hnone : w.st.delivering.any (fun p => p.2.writer == s.token) = false := by
    refine List.any_eq_false.2 fun p hp he => ?_
    have htoken : p.2.token = s.token := (hfed.handles p hp).1.symm.trans (beq_iff_eq.1 he)
    have hid := hfed.consistent.same.mem_iff.1 (mem_deliveryIds.2 ⟨p.2, hp, htoken⟩)
    exact (((tracked_of_reach hr).live _ _).1 hid).2 hremoved
  rw [World.sendersGone, hnone, hh]
  rfl

/-- A writer in a call. -/
theorem exists_writeCall {w : World} (h : Consistent w.st) {c : Nat} {s : Session} {pc : WritePc} {call : Running}
    {goto : Running → WritePc} (hpc : pc.Calls call goto) (hb : w.barrier = none ∨ call.held.isSome = true) :
    ∃ input w', w.writeStep c s pc input = some w' := by
  by_cases hd : ∃ result, call = .done result
  · obtain ⟨result, rfl⟩ := hd
    cases hpc <;> exact ⟨.go, _, rfl⟩
  · have hn : ∀ result, call ≠ .done result := fun result he => hd ⟨result, he⟩
    obtain ⟨r, hr⟩ := exists_call h (.writer c) (w.conns c).addr s.token hb hn
    have hstep : w.writeStep c s pc (.rx []) = some (r.1.gotoWriter c (.running s (goto r.2))) := by
      cases hpc with
      | posting =>
        rw [World.writeStep, hr]
        rfl
      | presenting =>
        rw [World.writeStep, hr]
        rfl
    exact ⟨.rx [], _, hstep⟩

/-- A writer goes on, at the latest when its handler has returned. -/
theorem exists_writerStep {w : World} (hw : System.Reach server System.Any w) {c : Nat}
    (hb : w.barrier = none ∧ (w.conns c).handler.finished = true ∨ (w.conns c).writer.held.isSome = true)
    (hf : (w.conns c).writer.finished = false) : ∃ w', Winds w w' := by
  obtain ⟨hsound, hr⟩ := sound_of_reach hw
  have hc : Consistent w.st := (fed_of_reach hr).consistent
  cases hwr : (w.conns c).writer with
  | unspawned | ended =>
    rw [hwr] at hf
    cases hf
  | running s pc =>
    suffices h : ∃ input w', w.writeStep c s pc input = some w' by
      obtain ⟨input, w', hstep⟩ := h
      exact ⟨w', .writer c input, rfl, by simp only [server, hwr]; exact hstep⟩
    rw [hwr] at hb
    have hbarrier : ∀ call : Running, (WriterPc.running s pc).held = call.held →
        w.barrier = none ∨ call.held.isSome = true := by
      intro call he
      rw [← he]
      exact hb.imp_left And.left
    cases pc with
    | recv =>
      have hfinished := (hb.resolve_right Bool.false_ne_true).2
      have hsession := (hsound.bound c).writer s (by rw [hwr]; rfl)
      have hreturned : (w.conns c).handler = .returned (some s) := by
        cases hh : (w.conns c).handler with
        | returned s' =>
          rw [hh] at hsession
          rw [show s' = some s from hsession]
        | idle | refused | acquire | acquireIp | handshake | register =>
          rw [hh] at hsession
          cases hsession
        | serving | dropPermit | dropGlobal =>
          rw [hh] at hfinished
          cases hfinished
      refine ⟨.go, ?_⟩
      rw [World.writeStep, if_pos (sendersGone_of_returned hw hreturned)]
      split <;> exact ⟨_, rfl⟩
    | write => exact ⟨.written true, _, rfl⟩
    | remove =>
      obtain ⟨removed, st, hremove, -⟩ := removeClientIfCurrent_spec hc (w.conns c).addr s.token
      exact ⟨.go, _, by rw [World.writeStep, hremove]; rfl⟩
    | loadJoined =>
      refine ⟨.go, ?_⟩
      rw [World.writeStep]
      split
      · split <;> exact ⟨_, rfl⟩
      · exact ⟨_, rfl⟩
    | posting call => exact exists_writeCall hc .posting (hbarrier call rfl)
    | presenting call => exact exists_writeCall hc .presenting (hbarrier call rfl)
    | stopping => exact ⟨.go, _, rfl⟩

/-- **While any task is not at its end some task goes on.** -/
theorem exists_step {w : World} (hw : System.Reach server System.Any w)
    (h : ∃ c, (w.conns c).handler.finished = false ∨ (w.conns c).writer.finished = false) : ∃ w', Winds w w' := by
  obtain ⟨hsound, -⟩ := sound_of_reach hw
  cases hb : w.barrier with
  | none =>
    obtain ⟨c, hc⟩ := h
    by_cases hf : (w.conns c).handler.finished = true
    · exact exists_writerStep hw (.inl ⟨hb, hf⟩) (hc.resolve_left fun hn => Bool.false_ne_true (hn.symm.trans hf))
    · exact exists_handlerStep hw (.inl hb) (Bool.eq_false_iff.2 hf)
  | some task =>
    have hheld := (hsound.holder task).2 hb
    cases task with
    | handler c =>
      exact exists_handlerStep hw (.inr hheld) (HandlerPc.unfinished_of_held hheld)
    | writer c =>
      exact exists_writerStep hw (.inr hheld) (WriterPc.unfinished_of_held hheld)

/-! ## At rest -/

/-- Nothing is left of any connection: the registries, the admission and the barrier are as when the server started. -/
structure AtRest (w : World) : Prop where
  handlers : ∀ c, (w.conns c).handler.finished = true
  writers : ∀ c, (w.conns c).writer.finished = true
  barrier : w.barrier = none
  clients : w.st.clients = ServerState.new.clients
  deliveries : w.st.deliveries = ServerState.new.deliveries
  admission : w.admission = .new

theorem HandlerPc.permits_of_finished {pc : HandlerPc} (h : pc.finished = true) :
    pc.hasGlobal = false ∧ pc.hasPermit = false := by
  cases pc with
  | idle | refused | returned => exact ⟨rfl, rfl⟩
  | acquire | acquireIp | handshake | register | serving | dropPermit | dropGlobal => cases h

theorem Accounted.eq_new {ad : Admission} {conns : Nat → Conn} (h : Accounted ad conns)
    (hf : ∀ c, (conns c).handler.finished = true) : ad = .new := by
  have hglobals : ad.globals = [] := by
    refine List.eq_nil_iff_forall_not_mem.2 fun c hc => ?_
    rw [h.globals, (HandlerPc.permits_of_finished (hf c)).1] at hc
    cases hc
  have hpermits : ad.permits = [] := by
    refine List.eq_nil_iff_forall_not_mem.2 fun p hp => ?_
    have hc := ((h.permits p.1 p.2).1 hp).1
    rw [(HandlerPc.permits_of_finished (hf p.1)).2] at hc
    cases hc
  have hperIp : ad.perIp = .empty := by
    refine Table.eq_empty_of_get? fun ip => ?_
    rw [h.perIp, hpermits]
    rfl
  have havailable := h.available
  rw [hglobals, List.length_nil, Nat.add_zero] at havailable
  obtain ⟨available, globals, perIp, permits⟩ := ad
  cases hglobals
  cases hpermits
  cases hperIp
  cases havailable
  rfl

/-- With every task at its end nothing is left. -/
theorem atRest_of_finished {w : World} (hw : System.Reach server System.Any w)
    (hh : ∀ c, (w.conns c).handler.finished = true) (hwr : ∀ c, (w.conns c).writer.finished = true) : AtRest w := by
  obtain ⟨hsound, hr⟩ := sound_of_reach hw
  have hcon : Consistent w.st := (fed_of_reach hr).consistent
  have hids : w.st.sessionIds = [] := by
    refine List.eq_nil_iff_forall_not_mem.2 fun p hp => ?_
    obtain ⟨c, s, pc, hserving, -⟩ := exists_host hw hp
    have hf := hh c
    rw [hserving] at hf
    cases hf
  have hbarrier : w.barrier = none := by
    cases hb : w.barrier with
    | none => rfl
    | some task =>
      have hheld := (hsound.holder task).2 hb
      cases task with
      | handler c => exact absurd ((HandlerPc.unfinished_of_held hheld).symm.trans (hh c)) Bool.false_ne_true
      | writer c => exact absurd ((WriterPc.unfinished_of_held hheld).symm.trans (hwr c)) Bool.false_ne_true
  have hclients : w.st.clients.byAddr = .empty :=
    hcon.clientsNoEmpty.eq_empty (List.map_eq_nil_iff.1 hids)
  have hdeliveries : w.st.deliveries.byAddr = .empty :=
    hcon.deliveriesNoEmpty.eq_empty (List.map_eq_nil_iff.1 (List.perm_nil.1 (hids ▸ hcon.same)))
  have hperIp : w.st.clients.perIp = .empty := by
    refine Table.eq_empty_of_get? fun ip => ?_
    rw [hcon.perIp, hids]
    rfl
  have htotal : w.st.clients.total = 0 := by rw [hcon.total, hids]; rfl
  refine ⟨hh, hwr, hbarrier, ?_, ?_, (accounted_of_reach hw).eq_new hh⟩
  · show ClientRegistry.mk w.st.clients.byAddr w.st.clients.perIp w.st.clients.total = _
    rw [hclients, hperIp, htotal]
    rfl
  · show DeliveryRegistry.mk w.st.deliveries.byAddr = _
    rw [hdeliveries]
    rfl

theorem reach_of_winds {w w' : World} (hw : System.Reach server System.Any w) (h : Relation.ReflTransGen Winds w w') :
    System.Reach server System.Any w' := by
  induction h with
  | refl => exact hw
  | tail _ hlast ih =>
    obtain ⟨l, -, hstep⟩ := hlast
    exact .step ih trivial hstep

/-- Where the server cannot go on nothing is left. -/
theorem atRest_of_stuck {w : World} (hw : System.Reach server System.Any w) (h : ∀ w', ¬ Winds w w') : AtRest w := by
  have hfinished : ∀ c, ¬ ((w.conns c).handler.finished = false ∨ (w.conns c).writer.finished = false) := by
    intro c hc
    obtain ⟨w', hwinds⟩ := exists_step hw ⟨c, hc⟩
    exact h w' hwinds
  refine atRest_of_finished hw (fun c => ?_) fun c => ?_
  · exact Bool.of_not_eq_false fun hf => hfinished c (.inl hf)
  · exact Bool.of_not_eq_false fun hf => hfinished c (.inr hf)

theorem exists_atRest {w : World} (hw : System.Reach server System.Any w) :
    ∃ w', Relation.ReflTransGen Winds w w' ∧ AtRest w' := by
  have hacc := acc_winds hw
  induction hacc with
  | intro w _ ih =>
    by_cases h : ∃ w', Winds w w'
    · obtain ⟨w', hwinds⟩ := h
      obtain ⟨w'', hrun, hrest⟩ := ih w' hwinds (reach_of_winds hw (.single hwinds))
      exact ⟨w'', .head hwinds hrun, hrest⟩
    · exact ⟨w, .refl, atRest_of_stuck hw fun w' hwinds => h ⟨w', hwinds⟩⟩

/-- **Once its clients are gone the server comes to rest**, from every state it can be in, whatever the order its tasks
go on in and whatever the sockets, the limiter and the clock do meanwhile: it cannot go on for ever, and where it cannot
go on nothing is left of any connection. -/
theorem winds_down {w : World} (hw : System.Reach server System.Any w) :
    Acc (fun w' w => Winds w w') w ∧
    (∀ w', Relation.ReflTransGen Winds w w' → (∀ w'', ¬ Winds w' w'') → AtRest w') ∧
    ∃ w', Relation.ReflTransGen Winds w w' ∧ AtRest w' :=
  ⟨acc_winds hw, fun _ hrun hstuck => atRest_of_stuck (reach_of_winds hw hrun) hstuck, exists_atRest hw⟩

/-- Bob is in the chat, with messages on his queue, and Alice has registered. -/
theorem winds_down_bob : ∃ w w' : World, w.st.clients.total = 2 ∧ (w.st.channels 0).queued.length = 2 ∧
    Relation.ReflTransGen Winds w w' ∧ AtRest w' := by
  obtain ⟨w, hw, ht⟩ := System.exists_of_run server
    (fun w => w.st.clients.total == 2 && (w.st.channels 0).queued.length == 2)
    (registers 0 bobAddr "bob" ++ replays 0 0 ++ enters 0 ++ registers 1 aliceAddr "alice") (by decide)
  rw [Bool.and_eq_true, beq_iff_eq, beq_iff_eq] at ht
  obtain ⟨-, -, w', hrun, hrest⟩ := winds_down hw
  exact ⟨w, w', ht.1, ht.2, hrun, hrest⟩

end Server
end Drocsid
