import Drocsid.Session
/-!
# Turn — what a step of the server can do

`Turn w c l w' conn`: the step `l` is one of connection `c`, whose state is then `conn`; `w'` is what it makes of the
rest.  A call's section is the same for a handler and for a writer (`CallTurn`); a task that only goes on is at a wait
(`HandlerPc.Waits`, `WriterPc.Waits`).
-/
namespace Drocsid

open Text Protocol

namespace Server

/-- The next section of a call, by what it writes. -/
inductive CallTurn (w : World) (me : Task) (a : SocketAddr) (t : ClientToken) (rx : List Rx) : Running → World →
    Running → Prop
  | lockReplay (hb : w.barrier = none) :
    CallTurn w me a t rx .lockReplay { w with barrier := some me } (.critical (.lookup a t))
  | lockRecord {post} (hb : w.barrier = none) :
    CallTurn w me a t rx (.lockRecord post) { w with barrier := some me } (.critical (.record post none))
  | unlock {c result} (hd : c.result = some result) :
    CallTurn w me a t rx (.critical c) { w with barrier := none } (.done result)
  | advance {c c' st events} (hd : c.result = none) (h : c.step w.st rx = some (st, c', events)) :
    CallTurn w me a t rx (.critical c) { w with st, trace := events ++ w.trace } (.critical c')
  | prune : CallTurn w me a t rx .prune w (.pruned (overloadedClients w.st))
  | prunes {b u doomed removed st} (h : removeClientIfCurrent w.st b u = some (removed, st)) :
    CallTurn w me a t rx (.pruned ((b, u) :: doomed)) { w with st, trace := removedEvent u removed ++ w.trace }
      (.pruned doomed)
  | taken : CallTurn w me a t rx (.pruned []) w (.present (usernames w.st) (changes w.trace))
  | unencoded {users taken e} (h : presenceFrame users = .error e) :
    CallTurn w me a t rx (.present users taken) w (.done (.error e))
  | present {users taken frame} (h : presenceFrame users = .ok frame) : CallTurn w me a t rx (.present users taken)
      { w with st := (deliver w.st frame none).1,
               trace := .broadcast frame none ((deliver w.st frame none).2.map Prod.snd) none :: w.trace,
               presented := taken }
      (.drop (deliver w.st frame none).2 !(deliver w.st frame none).2.isEmpty)
  | drops {b u doomed dropped removed st} (h : removeClientIfCurrent w.st b u = some (removed, st)) :
    CallTurn w me a t rx (.drop ((b, u) :: doomed) dropped) { w with st, trace := removedEvent u removed ++ w.trace }
      (.drop doomed dropped)
  | dropped {dropped} : CallTurn w me a t rx (.drop [] dropped) w (.done (.ok dropped))

theorem callTurn_of_call {w w' : World} {me : Task} {a : SocketAddr} {t : ClientToken} {rx : List Rx}
    {call call' : Running} (h : w.call me a t rx call = some (w', call')) : CallTurn w me a t rx call w' call' := by
  cases call with
  | lockReplay =>
    rw [World.call] at h
    split at h
    · rename_i hb; cases h; exact .lockReplay (Option.isNone_iff_eq_none.1 hb)
    · cases h
  | lockRecord post =>
    rw [World.call] at h
    split at h
    · rename_i hb; cases h; exact .lockRecord (Option.isNone_iff_eq_none.1 hb)
    · cases h
  | critical c =>
    rw [World.call] at h
    split at h
    · rename_i hd; cases h; exact .unlock hd
    · rename_i hd
      obtain ⟨⟨st, c', events⟩, hc, he⟩ := Option.map_eq_some_iff.1 h
      cases he
      exact .advance hd hc
  | prune => cases h; exact .prune
  | pruned doomed =>
    cases doomed with
    | nil => cases h; exact .taken
    | cons x doomed =>
      obtain ⟨⟨removed, st⟩, hr, he⟩ := Option.map_eq_some_iff.1 h
      cases he
      exact .prunes hr
  | present users taken =>
    rw [World.call] at h
    split at h
    · rename_i hp; cases h; exact .unencoded hp
    · rename_i hp; cases h; exact .present hp
  | drop doomed dropped =>
    cases doomed with
    | nil => cases h; exact .dropped
    | cons x doomed =>
      obtain ⟨⟨removed, st⟩, hr, he⟩ := Option.map_eq_some_iff.1 h
      cases he
      exact .drops hr
  | done result => cases h

/-- Where a handler goes from a call that returned, by what it called and what that returned. -/
inductive Resumes (s : Session) : After → Except ServerError Bool → HandlerPc → Prop
  | replayed {dropped} : Resumes s .history (.ok dropped) (.serving s (.calling .presence .prune))
  | presented {dropped post} (h : joinPost s = .ok post) :
    Resumes s .presence (.ok dropped) (.serving s (.calling .join (.lockRecord post)))
  | unencoded {dropped e} (h : joinPost s = .error e) : Resumes s .presence (.ok dropped)
    (.serving s (.finish .cleanup))
  | joinDropped : Resumes s .join (.ok true) (.serving s (.calling .joinPresence .prune))
  | joined : Resumes s .join (.ok false) (.serving s .storeJoined)
  | joinPresented {dropped} : Resumes s .joinPresence (.ok dropped) (.serving s .storeJoined)
  | chatDropped : Resumes s .chat (.ok true) (.serving s (.calling .chatPresence .prune))
  | chatted : Resumes s .chat (.ok false) (.serving s .select)
  | chatPresented {dropped} : Resumes s .chatPresence (.ok dropped) (.serving s .select)
  | left {mode dropped} : Resumes s (.leave mode) (.ok dropped) (.serving s (.calling (.leavePresence mode) .prune))
  | leavePresented {mode dropped} : Resumes s (.leavePresence mode) (.ok dropped) (.dropPermit (some s))
  | abandons {next mode e} (h : next = .leave mode ∨ next = .leavePresence mode) : Resumes s next (.error e)
    (abandon s mode)
  | failed {next e} (h : ∀ mode, next ≠ .leave mode ∧ next ≠ .leavePresence mode) :
    Resumes s next (.error e) (.serving s (.finish .cleanup))

theorem resumes_resume (s : Session) (next : After) (result : Except ServerError Bool) :
    Resumes s next result (resume s next result) := by
  cases result with
  | error e =>
    cases next with
    | leave mode => exact .abandons (.inl rfl)
    | leavePresence mode => exact .abandons (.inr rfl)
    | history | presence | join | joinPresence | chat | chatPresence =>
      exact .failed fun mode => ⟨After.noConfusion, After.noConfusion⟩
  | ok dropped =>
    cases next with
    | history => exact .replayed
    | presence =>
      rw [resume]
      split
      · rename_i h; exact .presented h
      · rename_i h; exact .unencoded h
    | join =>
      cases dropped with
      | true => exact .joinDropped
      | false => exact .joined
    | joinPresence => exact .joinPresented
    | chat =>
      cases dropped with
      | true => exact .chatDropped
      | false => exact .chatted
    | chatPresence => exact .chatPresented
    | leave mode => exact .left
    | leavePresence mode => exact .leavePresented

/-- A handler goes on, and writes nothing. -/
inductive HandlerPc.Waits : HandlerPc → HandlerPc → Prop
  | timeout : Waits .handshake (.dropPermit none)
  | refused : Waits .handshake (.dropPermit none)
  | named {username} : Waits .handshake (.register username)
  | resume {s next result} : Waits (.serving s (.calling next (.done result))) (resume s next result)
  | disconnected {s} : Waits (.serving s .select) (.serving s (.finish .normal))
  | received {s result} : Waits (.serving s .select) (received s result)
  | limited {s content} : Waits (.serving s (.allow content)) (.serving s (.finish .cleanup))
  | allowed {s content} : Waits (.serving s (.allow content)) (.serving s (.sleep content))
  | slept {s content now post} (h : chatPost s now content = .ok post) :
    Waits (.serving s (.sleep content)) (.serving s (.calling .chat (.lockRecord post)))
  | tooLong {s content} : Waits (.serving s (.sleep content)) (.serving s (.finish .cleanup))

/-- A writer goes on, and writes nothing but that it is about to end. -/
inductive WritePc.Waits (s : Session) (joined : Bool) : WritePc → WritePc → Prop
  | gone : Waits s joined .recv .stopping
  | written : Waits s joined .write .recv
  | failed : Waits s joined .write .remove
  | announces {post} (hj : joined = true) (h : leavePost s = .ok post) :
    Waits s joined .loadJoined (.posting (.lockRecord post))
  | unencoded {e} (hj : joined = true) (h : leavePost s = .error e) : Waits s joined .loadJoined (.presenting .prune)
  | unjoined (hj : joined = false) : Waits s joined .loadJoined (.presenting .prune)
  | posted {result} : Waits s joined (.posting (.done result)) (.presenting .prune)
  | presented {result} : Waits s joined (.presenting (.done result)) .stopping

/-- What a writer calls. -/
inductive WritePc.Calls : Running → WritePc → (Running → WritePc) → Prop
  | posting {call} : Calls call (.posting call) .posting
  | presenting {call} : Calls call (.presenting call) .presenting

/-- A step of connection `c`: what it makes of the rest of the world, and of the connection. -/
inductive Turn (w : World) (c : Nat) : Label → World → Conn → Prop
  | accept {addr} (hh : (w.conns c).handler = .idle) : Turn w c (.accept c addr) w ⟨addr, .acquire, .unspawned, false⟩
  | acquired {input admission} (hh : (w.conns c).handler = .acquire) (h : w.admission.acquire c = some admission) :
    Turn w c (.handler c input) { w with admission } { w.conns c with handler := .acquireIp }
  | full {input} (hh : (w.conns c).handler = .acquire) (h : w.admission.acquire c = none) :
    Turn w c (.handler c input) w { w.conns c with handler := .refused }
  | admitted {input admission} (hh : (w.conns c).handler = .acquireIp)
      (h : w.admission.acquireIp c (w.conns c).addr.ip = some admission) :
    Turn w c (.handler c input) { w with admission } { w.conns c with handler := .handshake }
  | refused {input} (hh : (w.conns c).handler = .acquireIp) (h : w.admission.acquireIp c (w.conns c).addr.ip = none) :
    Turn w c (.handler c input) { w with admission := w.admission.dropGlobal c } { w.conns c with handler := .refused }
  | registered {input username token st} (hh : (w.conns c).handler = .register username)
      (h : registerSession w.st (w.conns c).addr = .ok (token, st)) :
    Turn w c (.handler c input) { w with st, trace := .registered token (w.conns c).addr :: w.trace }
      { w.conns c with handler := .serving ⟨token, username⟩ .setUsername }
  | unregistered {input username e} (hh : (w.conns c).handler = .register username)
      (h : registerSession w.st (w.conns c).addr = .error e) :
    Turn w c (.handler c input) w { w.conns c with handler := .dropPermit none }
  | named {input s st} (hh : (w.conns c).handler = .serving s .setUsername)
      (h : setClientUsername w.st (w.conns c).addr s.token s.username = .ok st) :
    Turn w c (.handler c input) { w with st, trace := .named s.token :: w.trace }
      { w.conns c with handler := .serving s (.calling .history .lockReplay), writer := .running s .recv }
  | unnamed {input s e} (hh : (w.conns c).handler = .serving s .setUsername)
      (h : setClientUsername w.st (w.conns c).addr s.token s.username = .error e) :
    Turn w c (.handler c input) w { w.conns c with handler := .serving s .unregister }
  | unregister {input s removed st} (hh : (w.conns c).handler = .serving s .unregister)
      (h : removeClientIfCurrent w.st (w.conns c).addr s.token = some (removed, st)) :
    Turn w c (.handler c input) { w with st, trace := removedEvent s.token removed ++ w.trace }
      { w.conns c with handler := .dropPermit (some s) }
  | call {s next rx call w' call'} (hh : (w.conns c).handler = .serving s (.calling next call))
      (h : CallTurn w (.handler c) (w.conns c).addr s.token rx call w' call') :
    Turn w c (.handler c (.rx rx)) w' { w.conns c with handler := .serving s (.calling next call') }
  | storeJoined {input s} (hh : (w.conns c).handler = .serving s .storeJoined) :
    Turn w c (.handler c input) w { w.conns c with handler := .serving s .select, joined := true }
  | finish {input s mode removed st} (hh : (w.conns c).handler = .serving s (.finish mode))
      (h : removeClientIfCurrent w.st (w.conns c).addr s.token = some (removed, st)) :
    Turn w c (.handler c input) { w with st, trace := removedEvent s.token removed ++ w.trace }
      { w.conns c with handler := afterRemoval s mode removed (w.conns c).joined }
  | wait {input pc pc'} (hh : (w.conns c).handler = pc) (h : pc.Waits pc') :
    Turn w c (.handler c input) w { w.conns c with handler := pc' }
  | dropPermit {input s admission} (hh : (w.conns c).handler = .dropPermit s)
      (h : w.admission.dropPermit c (w.conns c).addr.ip = some admission) :
    Turn w c (.handler c input) { w with admission } { w.conns c with handler := .dropGlobal s }
  | dropGlobal {input s} (hh : (w.conns c).handler = .dropGlobal s) :
    Turn w c (.handler c input) { w with admission := w.admission.dropGlobal c }
      { w.conns c with handler := .returned s }
  | receive {input s} (hw : (w.conns c).writer = .running s .recv) :
    Turn w c (.writer c input) { w with st := receiveOn w.st s.token } { w.conns c with writer := .running s .write }
  | remove {input s removed st} (hw : (w.conns c).writer = .running s .remove)
      (h : removeClientIfCurrent w.st (w.conns c).addr s.token = some (removed, st)) :
    Turn w c (.writer c input) { w with st, trace := removedEvent s.token removed ++ w.trace }
      { w.conns c with writer := .running s (if removed then .loadJoined else .stopping) }
  | writerCall {s rx pc call w' call' goto} (hw : (w.conns c).writer = .running s pc) (hpc : pc.Calls call goto)
      (h : CallTurn w (.writer c) (w.conns c).addr s.token rx call w' call') :
    Turn w c (.writer c (.rx rx)) w' { w.conns c with writer := .running s (goto call') }
  | writerWait {input s pc pc'} (hw : (w.conns c).writer = .running s pc) (h : pc.Waits s (w.conns c).joined pc') :
    Turn w c (.writer c input) w { w.conns c with writer := .running s pc' }
  | stop {input s} (hw : (w.conns c).writer = .running s .stopping) :
    Turn w c (.writer c input) { w with st := closeOn w.st s.token } { w.conns c with writer := .ended s }

/-- A step of the server. -/
inductive Steps (w : World) : Label → World → Prop
  | turn {l c w' conn} (h : Turn w c l w' conn) : Steps w l { w' with conns := Function.update w.conns c conn }
  | reorder {clients deliveries st} (h : reorder w.st clients deliveries = some st) :
    Steps w (.reorder clients deliveries) { w with st }

/-- The client that a loop over the doomed takes out next. -/
def Running.dooms : Running → Option Doomed
  | .pruned (doomed :: _) | .drop (doomed :: _) _ | .critical (.drop (doomed :: _) _) => some doomed
  | _ => none

def HandlerPc.calls : HandlerPc → Option Running
  | .serving _ (.calling _ call) => some call
  | _ => none

def WriterPc.calls : WriterPc → Option Running
  | .running _ (.posting call) | .running _ (.presenting call) => some call
  | _ => none

/-- The call a task is in. -/
def World.calls (w : World) : Task → Option Running
  | .handler c => (w.conns c).handler.calls
  | .writer c => (w.conns c).writer.calls

/-- A call writes no connection, and no permit. -/
theorem CallTurn.conns {w w' : World} {me : Task} {a : SocketAddr} {t : ClientToken} {rx : List Rx}
    {call call' : Running} (h : CallTurn w me a t rx call w' call') :
    w'.conns = w.conns ∧ w'.admission = w.admission := by
  cases h <;> exact ⟨rfl, rfl⟩

/-- Going on, written as a step of the connection. -/
theorem steps_goto {w w' : World} {c : Nat} {l : Label} {pc : HandlerPc} (hc : w'.conns = w.conns)
    (h : Turn w c l w' { w.conns c with handler := pc }) : Steps w l (w'.goto c pc) := by
  rw [World.goto, hc]
  exact .turn h

theorem steps_gotoWriter {w w' : World} {c : Nat} {l : Label} {pc : WriterPc} (hc : w'.conns = w.conns)
    (h : Turn w c l w' { w.conns c with writer := pc }) : Steps w l (w'.gotoWriter c pc) := by
  rw [World.gotoWriter, hc]
  exact .turn h

theorem steps_of_serveStep {w w' : World} {c : Nat} {s : Session} {pc : ServePc} {input : Input}
    (hh : (w.conns c).handler = .serving s pc) (h : w.serveStep c s pc input = some w') :
      Steps w (.handler c input) w' := by
  unfold World.serveStep at h
  split at h
  · split at h
    · rename_i hu
      cases h
      have : Steps w (.handler c .go) _ := .turn (.named hh hu)
      simpa [World.goto, World.gotoWriter] using this
    · rename_i hu
      cases h
      exact steps_goto rfl (.unnamed hh hu)
  · obtain ⟨⟨removed, st⟩, hr, he⟩ := Option.map_eq_some_iff.1 h
    cases he
    exact steps_goto rfl (.unregister hh hr)
  · cases h
    exact steps_goto rfl (.wait hh .resume)
  · obtain ⟨⟨w'', call'⟩, hr, he⟩ := Option.map_eq_some_iff.1 h
    cases he
    have ht := callTurn_of_call hr
    exact steps_goto ht.conns.1 (.call hh ht)
  · cases h
    have : Steps w (.handler c .go) _ := .turn (.storeJoined hh)
    simpa [World.goto] using this
  · split at h
    · cases h
      exact steps_goto rfl (.wait hh .disconnected)
    · cases h
  · cases h
    exact steps_goto rfl (.wait hh .received)
  · cases h
    split
    · exact steps_goto rfl (.wait hh .allowed)
    · exact steps_goto rfl (.wait hh .limited)
  · split at h
    · rename_i hp
      cases h
      exact steps_goto rfl (.wait hh (.slept hp))
    · cases h
      exact steps_goto rfl (.wait hh .tooLong)
  · obtain ⟨⟨removed, st⟩, hr, he⟩ := Option.map_eq_some_iff.1 h
    cases he
    exact steps_goto rfl (.finish hh hr)
  · cases h

theorem steps_of_handlerStep {w w' : World} {c : Nat} {input : Input} (h : w.handlerStep c input = some w') :
    Steps w (.handler c input) w' := by
  unfold World.handlerStep at h
  split at h
  · rename_i hh
    split at h
    · rename_i ha; cases h; exact steps_goto rfl (.acquired hh ha)
    · rename_i ha; cases h; exact steps_goto rfl (.full hh ha)
  · rename_i hh
    split at h
    · rename_i ha; cases h; exact steps_goto rfl (.admitted hh ha)
    · rename_i ha; cases h; exact steps_goto rfl (.refused hh ha)
  · rename_i hh
    cases h
    exact steps_goto rfl (.wait hh .timeout)
  · rename_i hh
    split at h
    · cases h; exact steps_goto rfl (.wait hh .named)
    · cases h; exact steps_goto rfl (.wait hh .refused)
  · rename_i hh
    split at h
    · rename_i hr; cases h; exact steps_goto rfl (.registered hh hr)
    · rename_i hr; cases h; exact steps_goto rfl (.unregistered hh hr)
  · rename_i hh
    exact steps_of_serveStep hh h
  · rename_i hh
    obtain ⟨admission, ha, he⟩ := Option.map_eq_some_iff.1 h
    cases he
    exact steps_goto rfl (.dropPermit hh ha)
  · rename_i hh
    cases h
    exact steps_goto rfl (.dropGlobal hh)
  · cases h

theorem steps_of_writeStep {w w' : World} {c : Nat} {s : Session} {pc : WritePc} {input : Input}
    (hw : (w.conns c).writer = .running s pc) (h : w.writeStep c s pc input = some w') :
      Steps w (.writer c input) w' := by
  unfold World.writeStep at h
  split at h
  · split at h
    · split at h
      · cases h; exact steps_gotoWriter rfl (.writerWait hw .gone)
      · cases h
    · cases h; exact steps_gotoWriter rfl (.receive hw)
  · cases h
    split
    · exact steps_gotoWriter rfl (.writerWait hw .written)
    · exact steps_gotoWriter rfl (.writerWait hw .failed)
  · obtain ⟨⟨removed, st⟩, hr, he⟩ := Option.map_eq_some_iff.1 h
    cases he
    exact steps_gotoWriter rfl (.remove hw hr)
  · split at h
    · rename_i hj
      split at h
      · rename_i hp; cases h; exact steps_gotoWriter rfl (.writerWait hw (.announces hj hp))
      · rename_i hp; cases h; exact steps_gotoWriter rfl (.writerWait hw (.unencoded hj hp))
    · rename_i hj; cases h; exact steps_gotoWriter rfl (.writerWait hw (.unjoined (by simpa using hj)))
  · cases h; exact steps_gotoWriter rfl (.writerWait hw .posted)
  · obtain ⟨⟨w'', call'⟩, hr, he⟩ := Option.map_eq_some_iff.1 h
    cases he
    have ht := callTurn_of_call hr
    exact steps_gotoWriter ht.conns.1 (.writerCall hw .posting ht)
  · cases h; exact steps_gotoWriter rfl (.writerWait hw .presented)
  · obtain ⟨⟨w'', call'⟩, hr, he⟩ := Option.map_eq_some_iff.1 h
    cases he
    have ht := callTurn_of_call hr
    exact steps_gotoWriter ht.conns.1 (.writerCall hw .presenting ht)
  · cases h; exact steps_gotoWriter rfl (.stop hw)
  · cases h

theorem steps_of_step {w w' : World} {l : Label} (h : server.step w l = some w') : Steps w l w' := by
  cases l with
  | accept c addr =>
    simp only [server] at h
    split at h
    · rename_i hh; cases h; exact .turn (.accept hh)
    · cases h
  | handler c input => exact steps_of_handlerStep h
  | writer c input =>
    simp only [server] at h
    split at h
    · rename_i hw; exact steps_of_writeStep hw h
    · cases h
  | reorder clients deliveries =>
    obtain ⟨st, hr, he⟩ := Option.map_eq_some_iff.1 h
    cases he
    exact .reorder hr

end Server
end Drocsid
