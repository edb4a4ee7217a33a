import Drocsid.Sections
/-!
# Session — the server: each connection's handler and outbound writer (`crates/server/src/connection.rs`, `lib.rs`)

Each accepted connection has a handler, which admits it and runs `serve`, and once registered an `outbound_writer`.
Every task is where its next lock section, atomic access or wait is; a step takes one task there and on to the next.
What the clients send, what the sockets do, the rate limiter's answers and the clock are inputs.
-/
namespace Drocsid

open Text Protocol

namespace Server

/-- A name `read_handshake_username` returned. -/
abbrev Username := { u : Str // IsUsername u }

/-- What `serve` has once it is registered, and its writer a copy of. -/
structure Session where
  token    : ClientToken
  username : Username
  deriving DecidableEq

/-- One of the state's compound functions, called by a task, by the section it takes next. -/
inductive Running
  /-- `with_history_replay`, waiting for the barrier. -/
  | lockReplay
  /-- `record_and_broadcast`, waiting for the barrier. -/
  | lockRecord (post : Post)
  | critical (c : Critical)
  /-- `prune_overloaded_clients`. -/
  | prune
  /-- Its loop; and after it `usernames`. -/
  | pruned (doomed : List Doomed)
  /-- `encode_presence` and `broadcast`'s deliveries section, with the usernames and how many changes of them
  preceded. -/
  | present (users : List Str) (taken : Nat)
  /-- `broadcast`'s loop over the doomed. -/
  | drop (doomed : List Doomed) (dropped : Bool)
  | done (result : Except ServerError Bool)

/-- Whether `finish_session` runs at the end of `serve_authenticated` or on its error. -/
inductive FinishMode
  | normal | cleanup
  deriving DecidableEq, Repr

/-- What a handler called a function for. -/
inductive After
  | history | presence | join | joinPresence | chat | chatPresence
  | leave (mode : FinishMode) | leavePresence (mode : FinishMode)
  deriving DecidableEq, Repr

/-- `serve`, from its registration to its end. -/
inductive ServePc
  | setUsername
  | unregister
  | calling (next : After) (call : Running)
  | storeJoined
  | select
  | allow (content : Str)
  | sleep (content : Str)
  | finish (mode : FinishMode)

inductive HandlerPc
  | idle
  /-- `try_acquire`, at the semaphore. -/
  | acquire
  /-- `try_acquire`, at the per-address counts. -/
  | acquireIp
  | refused
  | handshake
  | register (username : Username)
  | serving (session : Session) (pc : ServePc)
  /-- `serve` is done, and its permit is dropped: the per-address count first. -/
  | dropPermit (session : Option Session)
  | dropGlobal (session : Option Session)
  | returned (session : Option Session)

inductive WritePc
  | recv | write | remove | loadJoined
  | posting (call : Running)
  | presenting (call : Running)
  /-- The receiver is dropped. -/
  | stopping

inductive WriterPc
  | unspawned
  | running (session : Session) (pc : WritePc)
  | ended (session : Session)

structure Conn where
  addr    : SocketAddr
  handler : HandlerPc
  writer  : WriterPc
  /-- Both copies of the flag. -/
  joined  : Bool

/-- A task of the connection of that number. -/
inductive Task
  | handler (c : Nat)
  | writer (c : Nat)
  deriving DecidableEq, Repr

/-- `ConnectionAdmission`, and the permits it gave and has not got back. -/
structure Admission where
  /-- The semaphore's free permits, and the connections that hold one. -/
  available : Nat
  globals   : List Nat
  perIp     : Table IpAddr Nat
  /-- The `ConnectionPermit`s, by connection. -/
  permits   : List (Nat × IpAddr)

def Admission.new : Admission := ⟨maxConnections, [], .empty, []⟩

structure World where
  st        : ServerState
  /-- The holder of `replay_barrier`. -/
  barrier   : Option Task
  trace     : List Event
  conns     : Nat → Conn
  admission : Admission
  /-- When the usernames of the last presence broadcast were taken. -/
  presented : Nat

def World.init : World where
  st        := .new
  barrier   := none
  trace     := []
  conns     := fun _ => ⟨.v4 0 0, .idle, .unspawned, false⟩
  admission := .new
  presented := 0

/-- The changes of the usernames so far. -/
def changes : List Event → Nat
  | [] => 0
  | .named _ :: tr => changes tr + 1
  | .removed _ :: tr => changes tr + 1
  | _ :: tr => changes tr

/-! ## The texts a session posts -/

theorem byteLen_historyEntry_le (s : Str) : byteLen (historyEntry s) ≤ byteLen s :=
  byteLen_le_of_infix (List.rdropWhile_prefix _ s).isInfix

theorem historyEntry_concat (s : Str) {c : Char} (hc : c ≠ '\n') : historyEntry (s ++ [c] ++ ['\n']) = s ++ [c] := by
  rw [historyEntry, trimEndMatches, List.rdropWhile_concat_pos _ _ _ (by rfl),
    List.rdropWhile_concat_neg _ _ _ (by simpa using hc)]

theorem historyEntry_joinMessage (u : Str) : historyEntry (joinMessage u) = trimEnd (joinMessage u) := by
  rw [trimEnd_joinMessage, show joinMessage u = ((lit "@" ++ u ++ lit " has entered the chat. Say hello") ++ ['!']) ++
    ['\n'] by
    simp [joinMessage, lit], historyEntry_concat _ (by decide)]
  simp [lit]

theorem historyEntry_leaveMessage (u : Str) : historyEntry (leaveMessage u) = trimEnd (leaveMessage u) := by
  rw [trimEnd_leaveMessage, show leaveMessage u = ((u ++ lit " has left the cha") ++ ['t']) ++ ['\n'] by
    simp [leaveMessage, lit], historyEntry_concat _ (by decide)]
  simp [lit]

def joinPost (s : Session) : Except ServerError Post :=
  Post.encode s.token .join (joinMessage s.username) (trimEnd (joinMessage s.username))
    (by rw [historyEntry_joinMessage])

def leavePost (s : Session) : Except ServerError Post :=
  Post.encode s.token .leave (leaveMessage s.username) (trimEnd (leaveMessage s.username))
    (by rw [historyEntry_leaveMessage])

def chatPost (s : Session) (now : HhMm) (content : Str) : Except ServerError Post :=
  let message := formatChatMessage s.username now.text content
  Post.encode s.token .chat message message (byteLen_historyEntry_le message)

/-! ## Calls -/

/-- The next section of a call: the world after it, and where the call is then. -/
def World.call (w : World) (me : Task) (addr : SocketAddr) (token : ClientToken) (rx : List Rx) :
    Running → Option (World × Running)
  | .lockReplay =>
    if w.barrier.isNone then some ({ w with barrier := some me }, .critical (.lookup addr token)) else none
  | .lockRecord post =>
    if w.barrier.isNone then some ({ w with barrier := some me }, .critical (.record post none)) else none
  | .critical c =>
    match c.result with
    | some result => some ({ w with barrier := none }, .done result)
    | none => (c.step w.st rx).map fun (st, c, events) => ({ w with st, trace := events ++ w.trace }, .critical c)
  | .prune => some (w, .pruned (overloadedClients w.st))
  | .pruned ((a, t) :: doomed) => (removeClientIfCurrent w.st a t).map fun (removed, st) =>
      ({ w with st, trace := removedEvent t removed ++ w.trace }, .pruned doomed)
  | .pruned [] => some (w, .present (usernames w.st) (changes w.trace))
  | .present users taken =>
    match presenceFrame users with
    | .error e => some (w, .done (.error e))
    | .ok frame =>
      let (st, doomed) := deliver w.st frame none
      some ({ w with st, trace := .broadcast frame none (doomed.map Prod.snd) none :: w.trace, presented := taken },
        .drop doomed !doomed.isEmpty)
  | .drop ((a, t) :: doomed) dropped => (removeClientIfCurrent w.st a t).map fun (removed, st) =>
      ({ w with st, trace := removedEvent t removed ++ w.trace }, .drop doomed dropped)
  | .drop [] dropped => some (w, .done (.ok dropped))
  | .done _ => none

/-! ## The handler -/

/-- `try_acquire_owned`. -/
def Admission.acquire (ad : Admission) (c : Nat) : Option Admission :=
  match ad.available with
  | 0 => none
  | n + 1 => some { ad with available := n, globals := c :: ad.globals }

/-- The semaphore's permit is dropped. -/
def Admission.dropGlobal (ad : Admission) (c : Nat) : Admission :=
  { ad with available := ad.available + 1, globals := ad.globals.erase c }

/-- `try_acquire`'s per-address section; none refuses. -/
def Admission.acquireIp (ad : Admission) (c : Nat) (ip : IpAddr) : Option Admission :=
  let count := (ad.perIp.get? ip).getD 0
  if count ≥ maxConnectionsPerIp then none
  else some { ad with perIp := ad.perIp.insert ip (count + 1), permits := (c, ip) :: ad.permits }

/-- `ConnectionPermit::drop`'s section; none panics. -/
def Admission.dropPermit (ad : Admission) (c : Nat) (ip : IpAddr) : Option Admission :=
  match ad.perIp.get? ip with
  | none => some { ad with permits := ad.permits.erase (c, ip) }
  | some 0 => none
  | some (count + 1) => some { ad with
      perIp := if count = 0 then ad.perIp.erase ip else ad.perIp.insert ip count
      permits := ad.permits.erase (c, ip) }

/-- What a task is given at its step. -/
inductive Input
  | go
  /-- What `read_async_frame` returned. -/
  | frame (result : Except ServerError (Option Frame))
  | timeout
  /-- `disconnect.changed()` is ready. -/
  | disconnected
  | allowed (ok : Bool)
  | time (now : HhMm)
  /-- A call's section, and what the receiver does meanwhile. -/
  | rx (rx : List Rx)
  | written (ok : Bool)

/-- An error from `finish_session`: it ends `serve_authenticated`, or it is logged. -/
def abandon (s : Session) : FinishMode → HandlerPc
  | .normal => .serving s (.finish .cleanup)
  | .cleanup => .dropPermit (some s)

/-- Where the handler goes from a call that returned. -/
def resume (s : Session) : After → Except ServerError Bool → HandlerPc
  | .history, .ok _ => .serving s (.calling .presence .prune)
  | .presence, .ok _ =>
    match joinPost s with
    | .ok post => .serving s (.calling .join (.lockRecord post))
    | .error _ => .serving s (.finish .cleanup)
  | .join, .ok dropped => .serving s (if dropped then .calling .joinPresence .prune else .storeJoined)
  | .joinPresence, .ok _ => .serving s .storeJoined
  | .chat, .ok dropped => .serving s (if dropped then .calling .chatPresence .prune else .select)
  | .chatPresence, .ok _ => .serving s .select
  | .leave mode, .ok _ => .serving s (.calling (.leavePresence mode) .prune)
  | .leavePresence _, .ok _ => .dropPermit (some s)
  | .leave mode, .error _ => abandon s mode
  | .leavePresence mode, .error _ => abandon s mode
  | _, .error _ => .serving s (.finish .cleanup)

/-- Where the handler goes once `finish_session` tried to remove its client. -/
def afterRemoval (s : Session) (mode : FinishMode) (removed joined : Bool) : HandlerPc :=
  if removed && joined then
    match leavePost s with
    | .ok post => .serving s (.calling (.leave mode) (.lockRecord post))
    | .error _ => abandon s mode
  else .dropPermit (some s)

/-- Where the message loop goes from what it read. -/
def received (s : Session) : Except ServerError (Option Frame) → HandlerPc
  | .error _ => .serving s (.finish .cleanup)
  | .ok none => .serving s (.finish .normal)
  | .ok (some frame) =>
    match acceptChat frame with
    | .error _ => .serving s (.finish .cleanup)
    | .ok none => .serving s .select
    | .ok (some content) => .serving s (.allow content)

def World.goto (w : World) (c : Nat) (pc : HandlerPc) : World :=
  { w with conns := Function.update w.conns c { w.conns c with handler := pc } }

def World.gotoWriter (w : World) (c : Nat) (pc : WriterPc) : World :=
  { w with conns := Function.update w.conns c { w.conns c with writer := pc } }

def World.serveStep (w : World) (c : Nat) (s : Session) : ServePc → Input → Option World
  | .setUsername, .go =>
    match setClientUsername w.st (w.conns c).addr s.token s.username with
    | .ok st => some (({ w with st, trace := .named s.token :: w.trace }.gotoWriter c (.running s .recv)).goto c
        (.serving s (.calling .history .lockReplay)))
    | .error _ => some (w.goto c (.serving s .unregister))
  | .unregister, .go => (removeClientIfCurrent w.st (w.conns c).addr s.token).map fun (removed, st) =>
      { w with st, trace := removedEvent s.token removed ++ w.trace }.goto c (.dropPermit (some s))
  | .calling next (.done result), .go => some (w.goto c (resume s next result))
  | .calling next call, .rx rx => (w.call (.handler c) (w.conns c).addr s.token rx call).map fun (w, call) =>
      w.goto c (.serving s (.calling next call))
  | .storeJoined, .go =>
    some ({ w with conns := Function.update w.conns c { w.conns c with joined := true } }.goto c (.serving s .select))
  | .select, .disconnected => if w.st.disconnects s.token then some (w.goto c (.serving s (.finish .normal))) else none
  | .select, .frame result => some (w.goto c (received s result))
  | .allow content, .allowed ok => some (w.goto c (.serving s (if ok then .sleep content else .finish .cleanup)))
  | .sleep content, .time now =>
    match chatPost s now content with
    | .ok post => some (w.goto c (.serving s (.calling .chat (.lockRecord post))))
    | .error _ => some (w.goto c (.serving s (.finish .cleanup)))
  | .finish mode, .go => (removeClientIfCurrent w.st (w.conns c).addr s.token).map fun (removed, st) =>
      { w with st, trace := removedEvent s.token removed ++ w.trace }.goto c
        (afterRemoval s mode removed (w.conns c).joined)
  | _, _ => none

def World.handlerStep (w : World) (c : Nat) (input : Input) : Option World :=
  match (w.conns c).handler, input with
  | .acquire, .go =>
    match w.admission.acquire c with
    | some admission => some ({ w with admission }.goto c .acquireIp)
    | none => some (w.goto c .refused)
  | .acquireIp, .go =>
    match w.admission.acquireIp c (w.conns c).addr.ip with
    | some admission => some ({ w with admission }.goto c .handshake)
    | none => some ({ w with admission := w.admission.dropGlobal c }.goto c .refused)
  | .handshake, .timeout => some (w.goto c (.dropPermit none))
  | .handshake, .frame result =>
    match h : handshakeUsername result with
    | .ok username => some (w.goto c (.register ⟨username, isUsername_of_handshake h⟩))
    | .error _ => some (w.goto c (.dropPermit none))
  | .register username, .go =>
    match registerSession w.st (w.conns c).addr with
    | .ok (token, st) => some ({ w with st, trace := .registered token (w.conns c).addr :: w.trace }.goto c
        (.serving ⟨token, username⟩ .setUsername))
    | .error _ => some (w.goto c (.dropPermit none))
  | .serving s pc, input => w.serveStep c s pc input
  | .dropPermit s, .go => (w.admission.dropPermit c (w.conns c).addr.ip).map fun admission =>
      { w with admission }.goto c (.dropGlobal s)
  | .dropGlobal s, .go => some ({ w with admission := w.admission.dropGlobal c }.goto c (.returned s))
  | _, _ => none

/-! ## The writer -/

/-- The handler's replay has a sender of its channel. -/
def HandlerPc.holdsWriter : HandlerPc → Bool
  | .serving _ (.calling .history (.critical (.snapshot ..))) => true
  | .serving _ (.calling .history (.critical (.replay ..))) => true
  | _ => false

/-- All senders of a session's channel are gone. -/
def World.sendersGone (w : World) (c : Nat) (token : ClientToken) : Bool :=
  !w.st.delivering.any (·.2.writer == token) && !(w.conns c).handler.holdsWriter

def World.writeStep (w : World) (c : Nat) (s : Session) : WritePc → Input → Option World
  | .recv, .go =>
    if (w.st.channels s.token).queued.isEmpty then
      if w.sendersGone c s.token then some (w.gotoWriter c (.running s .stopping)) else none
    else some ({ w with st := receiveOn w.st s.token }.gotoWriter c (.running s .write))
  | .write, .written ok => some (w.gotoWriter c (.running s (if ok then .recv else .remove)))
  | .remove, .go => (removeClientIfCurrent w.st (w.conns c).addr s.token).map fun (removed, st) =>
      { w with st, trace := removedEvent s.token removed ++ w.trace }.gotoWriter c
        (.running s (if removed then .loadJoined else .stopping))
  | .loadJoined, .go =>
    if (w.conns c).joined then
      match leavePost s with
      | .ok post => some (w.gotoWriter c (.running s (.posting (.lockRecord post))))
      | .error _ => some (w.gotoWriter c (.running s (.presenting .prune)))
    else some (w.gotoWriter c (.running s (.presenting .prune)))
  | .posting (.done _), .go => some (w.gotoWriter c (.running s (.presenting .prune)))
  | .posting call, .rx rx => (w.call (.writer c) (w.conns c).addr s.token rx call).map fun (w, call) =>
      w.gotoWriter c (.running s (.posting call))
  | .presenting (.done _), .go => some (w.gotoWriter c (.running s .stopping))
  | .presenting call, .rx rx => (w.call (.writer c) (w.conns c).addr s.token rx call).map fun (w, call) =>
      w.gotoWriter c (.running s (.presenting call))
  | .stopping, .go => some ({ w with st := closeOn w.st s.token }.gotoWriter c (.ended s))
  | _, _ => none

inductive Label
  | accept (c : Nat) (addr : SocketAddr)
  | handler (c : Nat) (input : Input)
  | writer (c : Nat) (input : Input)
  | reorder (clients : Table SocketAddr (List ClientSession)) (deliveries : Table SocketAddr (List ClientDelivery))

def server : System World Label where
  init := .init
  step w
    | .accept c addr =>
      match (w.conns c).handler with
      | .idle => some { w with conns := Function.update w.conns c ⟨addr, .acquire, .unspawned, false⟩ }
      | _ => none
    | .handler c input => w.handlerStep c input
    | .writer c input =>
      match (w.conns c).writer with
      | .running s pc => w.writeStep c s pc input
      | _ => none
    | .reorder clients deliveries => (reorder w.st clients deliveries).map fun st => { w with st }

/-! ## Schedules -/

/-- So many sections of a call. -/
def sectionsOf (n c : Nat) : List Label := List.replicate n (.handler c (.rx []))

/-- The connection is accepted and registers. -/
def registers (c : Nat) (addr : SocketAddr) (name : String) : List Label :=
  [.accept c addr, .handler c .go, .handler c .go,
    .handler c (.frame (.ok (some ⟨currentProtocolVersion, .handshake, toBytes (lit name)⟩))), .handler c .go]

/-- It takes its name and a history of so many messages. -/
def replays (c messages : Nat) : List Label := .handler c .go :: (sectionsOf (messages + 5) c ++ [.handler c .go])

/-- It broadcasts the presence and its join. -/
def enters (c : Nat) : List Label :=
  sectionsOf 4 c ++ [.handler c .go] ++ sectionsOf 4 c ++ [.handler c .go, .handler c .go]

/-- The handler reads a chat, and is about to record it. -/
def sends (c : Nat) (text : String) : List Label :=
  [.handler c (.frame (.ok (some ⟨currentProtocolVersion, .chat, toBytes (lit text)⟩))), .handler c (.allowed true),
    .handler c (.time ⟨12, 0⟩)]

def bobAddr : SocketAddr := .v4 0x7f000001 1001
def aliceAddr : SocketAddr := .v4 0x7f000001 1002

end Server
end Drocsid
