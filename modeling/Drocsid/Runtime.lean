import Drocsid.Network
import Drocsid.Terminal
import Drocsid.Fifo
/-!
# Runtime — the client's two threads (`crates/tui/src/lib.rs`, `crates/client/src/network.rs`)

`run_client` connects, spawns the reader and loops: it drains the network events, draws, and handles one terminal
event.  The reader sends its events on a bounded channel, where it waits while that is full.  A step takes one thread
to its next read, send, receive or wait.  What is read, what the terminal gives and what the socket takes are inputs;
`Acts` lists what a step can do.  What was read and what the user submitted is kept in the state (`heard`, `submitted`),
and no step looks at it.
-/
namespace Drocsid

open Text ByteSource Protocol Server

namespace Client

open Tui (MessageState ChatMessage)

def networkEventCapacity : Nat := 256

/-! ## The socket -/

/-- What was written to a socket. -/
structure Socket where
  /-- The bytes it took. -/
  bytes : Bytes
  /-- What each `write_all` that returned had been given. -/
  whole : List Bytes
  deriving DecidableEq, Repr

def Socket.new : Socket := ⟨[], []⟩

/-- What becomes of a `write_all`: one that fails did not write its last byte. -/
inductive Written
  | ok
  | failed (error : IoError) (taken : Nat)
  deriving DecidableEq, Repr

/-- What it wrote. -/
def Written.of (bytes : Bytes) : Written → Bytes
  | .ok => bytes
  | .failed _ taken => bytes.dropLast.take taken

def Socket.writeAll (outcome : Written) (bytes : Bytes) (socket : Socket) : Except IoError Unit × Socket :=
  match outcome with
  | .ok => (.ok (), ⟨socket.bytes ++ outcome.of bytes, socket.whole ++ [bytes]⟩)
  | .failed error _ => (.error error, ⟨socket.bytes ++ outcome.of bytes, socket.whole⟩)

/-- What becomes of `TcpStream::connect`, `try_clone` and the handshake's `write_all`. -/
inductive Dial
  | unconnected (error : IoError)
  | uncloned (error : IoError)
  | connected (outcome : Written)
  deriving DecidableEq, Repr

/-- `ClientConnection::connect`: the result, and the socket. -/
def connect (username : Str) : Dial → Except IoError Unit × Socket
  | .unconnected error => (.error error, .new)
  | .uncloned error => (.error error, .new)
  | .connected outcome =>
    match encodeFrame .handshake (toBytes username) with
    | .error _ => (.error ⟨.invalidInput, lit "username is too large"⟩, .new)
    | .ok handshake => Socket.writeAll outcome handshake .new

/-! ## The terminal -/

inductive KeyCode
  | char (character : Char)
  | esc | up | down | tab | enter | backspace | other
  deriving DecidableEq, Repr

inductive KeyEventKind
  | press | repeated | release
  deriving DecidableEq, Repr

structure KeyEvent where
  code    : KeyCode
  kind    : KeyEventKind
  /-- Its modifiers contain `CONTROL`. -/
  control : Bool
  deriving DecidableEq, Repr

inductive TerminalEvent
  | key (key : KeyEvent)
  | resize | other
  deriving DecidableEq, Repr

/-- What `event::poll` and `event::read` return. -/
inductive Polled
  | idle
  | failed (error : IoError)
  | event (event : TerminalEvent)
  deriving DecidableEq, Repr

def ChatApp.hasExitNotice (app : ChatApp) : Bool := app.exitNotice.isSome

def ChatApp.quit (app : ChatApp) : ChatApp := { app with shouldQuit := true }

section Handling

variable {σ : Type} (writeAll : Bytes → σ → Except IoError Unit × σ)

/-- None is a panic. -/
def handleKeyEvent (app : ChatApp) (stream : σ) (key : KeyEvent) : Option (Except IoError Unit × ChatApp × σ) :=
  if app.hasExitNotice then some (.ok (), if key.code = .enter then app.quit else app, stream)
  else match key.code with
    | .char character =>
      if character = 'q' ∧ key.control = true then some (.ok (), app.quit, stream)
      else if key.control then some (.ok (), app, stream)
      else some (.ok (), app.appendInput character, stream)
    | .esc => some (.ok (), app.quit, stream)
    | .up => some (.ok (), app.selectPreviousMention, stream)
    | .down => some (.ok (), app.selectNextMention, stream)
    | .tab => app.applySelectedMention.map fun app => (.ok (), app, stream)
    | .enter => some (submitInput writeAll app stream)
    | .backspace => some (.ok (), app.popInput, stream)
    | .other => some (.ok (), app, stream)

def handleTerminalEvent (app : ChatApp) (stream : σ) : Polled → Option (Except IoError Unit × ChatApp × σ)
  | .idle => some (.ok (), app, stream)
  | .failed error => some (.error error, app, stream)
  | .event (.key key) =>
    if key.kind = .press then handleKeyEvent writeAll app stream key else some (.ok (), app, stream)
  | .event _ => some (.ok (), app, stream)

end Handling

/-- A press of Enter. -/
def Polled.enters : Polled → Bool
  | .event (.key key) => decide (key.kind = .press ∧ key.code = .enter)
  | _ => false

/-- What the user submits with a terminal event: at a press of Enter the trimmed input, unless that is blank or too
long, the client is offline or shows that the connection is lost, or the write fails. -/
def ChatApp.submits (app : ChatApp) (polled : Polled) (outcome : Written) : Option Str :=
  if polled.enters = true ∧ outcome = .ok ∧ app.exitNotice = none ∧ app.connected = true ∧ trim app.input ≠ [] ∧
    byteLen (trim app.input) ≤ maxChatMessageBytes then some (trim app.input) else none

/-! ## The threads -/

inductive UiPc
  | start
  /-- `while !app.should_quit`. -/
  | turn
  | drain | draw | handle
  | returned (result : Except IoError Unit)
  | panicked

inductive ReaderPc
  | unspawned | reading
  /-- At a `tx.send`, and whether it reads on after it. -/
  | sending (event : NetworkEvent) (goOn : Bool)
  | finished
  deriving DecidableEq, Repr

structure Runtime where
  app       : ChatApp
  ui        : UiPc
  reader    : ReaderPc
  events    : Fifo NetworkEvent
  socket    : Socket
  /-- What the reader's reads returned. -/
  heard     : List (Except FrameError (Option Frame))
  /-- What the user submitted at the presses of Enter. -/
  submitted : List Str

/-- What the reader makes of what it read: whether to go on, and the events it sends. -/
def hear : Except FrameError (Option Frame) → Bool × List NetworkEvent
  | .ok none => (false, [.disconnected .serverDisconnected])
  | .error e => (false, [.disconnected (.connectionError e)])
  | .ok (some frame) => processFrame frame

/-- Where the reader goes with what it has to send. -/
def ReaderPc.after : Bool × List NetworkEvent → ReaderPc
  | (goOn, event :: _) => .sending event goOn
  | (true, []) => .reading
  | (false, []) => .finished

/-- `run_client` ends, and drops the receiver. -/
def Runtime.endAt (r : Runtime) (ui : UiPc) : Runtime := { r with ui, events := { r.events with closed := true } }

def Runtime.ret (r : Runtime) (result : Except IoError Unit) : Runtime := r.endAt (.returned result)

/-- What the terminal event submits is noted. -/
def Runtime.submit (r : Runtime) (polled : Polled) (outcome : Written) : Runtime :=
  { r with submitted := r.submitted ++ (r.app.submits polled outcome).toList }

/-- What a thread is given at its step. -/
inductive Action
  | start (dial : Dial)
  | turn | tryRecv
  | draw (result : Except IoError Unit)
  | handle (polled : Polled) (outcome : Written)
  /-- What `read_frame` returned. -/
  | read (result : Except FrameError (Option Frame))
  | send

section Client

-- `display` gives the text of a reason.
variable (display : Reason → Str)

def NetworkEvent.applyTo (app : ChatApp) : NetworkEvent → ChatApp
  | .message text => app.receiveMessage text
  | .userList users => app.updateConnectedUsers users
  | .disconnected reason => app.beginShutdown (display reason)

variable (username serverAddr : Str)

def Runtime.init : Runtime where
  app       := .new username serverAddr
  ui        := .start
  reader    := .unspawned
  events    := .new networkEventCapacity
  socket    := .new
  heard     := []
  submitted := []

def Runtime.step (r : Runtime) : Action → Option Runtime
  | .start dial =>
    match r.ui with
    | .start =>
      if (trim username).isEmpty then some (r.ret (.error ⟨.invalidInput, lit "username cannot be empty"⟩))
      else match connect username dial with
        | (.ok (), socket) => some { r with ui := .turn, reader := .reading, socket }
        | (.error error, socket) => some { r.ret (.error error) with socket }
    | _ => none
  | .turn =>
    match r.ui with
    | .turn => some (if r.app.shouldQuit then r.ret (.ok ()) else { r with ui := .drain })
    | _ => none
  | .tryRecv =>
    match r.ui with
    | .drain =>
      match r.events.tryRecv with
      | some (event, events) => some { r with app := event.applyTo display r.app, events }
      | none => some { r with ui := .draw }
    | _ => none
  | .draw result =>
    match r.ui with
    | .draw =>
      match result with
      | .ok () => some { r with ui := .handle }
      | .error error => some (r.ret (.error error))
    | _ => none
  | .handle polled outcome =>
    match r.ui with
    | .handle =>
      match handleTerminalEvent (Socket.writeAll outcome) r.app r.socket polled with
      | some (.ok (), app, socket) => some { r.submit polled outcome with ui := .turn, app, socket }
      | some (.error error, app, socket) => some { (r.submit polled outcome).ret (.error error) with app, socket }
      | none => some ((r.submit polled outcome).endAt .panicked)
    | _ => none
  | .read result =>
    match r.reader with
    | .reading => some { r with reader := .after (hear result), heard := r.heard ++ [result] }
    | _ => none
  | .send =>
    match r.reader with
    | .sending event goOn =>
      match r.events.trySend event with
      | .ok events => some { r with events, reader := .after (goOn, []) }
      | .error .closed => some { r with reader := .after (goOn, []) }
      | .error .full => none
    | _ => none

/-- The client of a user, from the start of `run_client`. -/
def client : System Runtime Action := ⟨.init username serverAddr, Runtime.step display username⟩

end Client

/-! ## What a key does -/

/-- A call that a key other than Enter makes. -/
def Call.edits : Call → Bool
  | .appendInput _ | .popInput | .selectPreviousMention | .selectNextMention | .applySelectedMention => true
  | _ => false

/-- The press of a key that quits: of Enter alone under a notice. -/
def Polled.quits (noticed : Bool) : Polled → Bool
  | .event (.key key) => decide (key.kind = .press) &&
    if noticed then decide (key.code = .enter)
    else decide (key.code = .esc ∨ key.code = .char 'q' ∧ key.control = true)
  | _ => false

/-- What handling one terminal event does to the app and the socket, and whether it was a press of Enter. -/
inductive Handles (polled : Polled) (outcome : Written) (app : ChatApp) (socket : Socket) :
    Except IoError Unit → ChatApp → Socket → Prop
  | nothing (hs : app.submits polled outcome = none) : Handles polled outcome app socket (.ok ()) app socket
  | unpolled {error} (hp : polled = .failed error) : Handles polled outcome app socket (.error error) app socket
  | quit (hq : polled.quits app.hasExitNotice = true) : Handles polled outcome app socket (.ok ()) app.quit socket
  | edit {c app'} (hn : app.exitNotice = none) (hc : c.edits = true) (h : app.call c = some app')
      (hk : polled.enters = false) : Handles polled outcome app socket (.ok ()) app' socket
  | blank (hn : app.exitNotice = none) (h : trim app.input = []) (hk : polled.enters = true) :
    Handles polled outcome app socket (.ok ()) app.takeInput.2 socket
  | offline (hn : app.exitNotice = none) (hc : app.connected = false) (hne : trim app.input ≠ [])
      (hk : polled.enters = true) :
    Handles polled outcome app socket (.ok ()) (app.takeInput.2.pushMessage
      (lit "[system] message not sent because the client is offline") .confirmed) socket
  | refused (hn : app.exitNotice = none) (hc : app.connected = true)
      (hl : maxChatMessageBytes < byteLen (trim app.input)) (hk : polled.enters = true) :
    Handles polled outcome app socket (.error tooLarge)
      (app.takeInput.2.markOffline (lit "failed to send message: " ++ tooLarge.text)) socket
  | sent {frame} (hn : app.exitNotice = none) (hc : app.connected = true) (hne : trim app.input ≠ [])
      (henc : encodeChatFrame (trim app.input) = .ok frame) (ho : outcome = .ok) (hk : polled.enters = true) :
    Handles polled outcome app socket (.ok ()) app.takeInput.2 ⟨socket.bytes ++ frame, socket.whole ++ [frame]⟩
  | lost {frame error taken} (hn : app.exitNotice = none) (hc : app.connected = true) (hne : trim app.input ≠ [])
      (henc : encodeChatFrame (trim app.input) = .ok frame) (ho : outcome = .failed error taken)
      (hd : isDisconnectError error = true) (hk : polled.enters = true) :
    Handles polled outcome app socket (.ok ())
      (app.takeInput.2.beginShutdown (lit "server unavailable: " ++ error.text))
      ⟨socket.bytes ++ frame.dropLast.take taken, socket.whole⟩
  | failed {frame error taken} (hn : app.exitNotice = none) (hc : app.connected = true) (hne : trim app.input ≠ [])
      (henc : encodeChatFrame (trim app.input) = .ok frame) (ho : outcome = .failed error taken)
      (hd : isDisconnectError error = false) (hk : polled.enters = true) :
    Handles polled outcome app socket (.error error)
      (app.takeInput.2.markOffline (lit "failed to send message: " ++ error.text))
      ⟨socket.bytes ++ frame.dropLast.take taken, socket.whole⟩

/-- Nothing is submitted but by a press of Enter, of a client that shows no notice. -/
theorem submits_eq_none {polled : Polled} {outcome : Written} {app : ChatApp}
    (h : polled.enters = false ∨ app.hasExitNotice = true) : app.submits polled outcome = none := by
  refine if_neg ?_
  rintro ⟨hk, -, hn, -⟩
  rcases h with h | h
  · rw [hk] at h
    cases h
  · rw [ChatApp.hasExitNotice, hn] at h
    cases h

theorem Polled.enters_of_quits {polled : Polled} (h : polled.quits false = true) : polled.enters = false := by
  unfold Polled.quits at h
  split at h
  · rename_i key
    simp only [Bool.false_eq_true, if_false, Bool.and_eq_true, decide_eq_true_eq] at h
    refine decide_eq_false ?_
    rintro ⟨-, hcode⟩
    rw [hcode] at h
    simp at h
  · cases h

/-- **What is submitted is what is written whole**, as a chat of it. -/
theorem Handles.submits {polled : Polled} {outcome : Written} {app app' : ChatApp} {socket socket' : Socket}
    {result : Except IoError Unit} (h : Handles polled outcome app socket result app' socket') :
    app.submits polled outcome = none ∧ socket'.whole = socket.whole ∨
      ∃ frame, app.submits polled outcome = some (trim app.input) ∧ trim app.input ≠ [] ∧
        encodeChatFrame (trim app.input) = .ok frame ∧ socket'.whole = socket.whole ++ [frame] := by
  cases h with
  | nothing hs => exact .inl ⟨hs, rfl⟩
  | unpolled hp =>
    rw [hp]
    exact .inl ⟨submits_eq_none (.inl rfl), rfl⟩
  | quit hq =>
    refine .inl ⟨submits_eq_none ?_, rfl⟩
    cases hhas : app.hasExitNotice with
    | true => exact .inr rfl
    | false => exact .inl (Polled.enters_of_quits (hhas ▸ hq))
  | edit _ _ _ hk => exact .inl ⟨submits_eq_none (.inl hk), rfl⟩
  | blank _ h =>
    refine .inl ⟨if_neg ?_, rfl⟩
    rintro ⟨-, -, -, -, hne, -⟩
    exact hne h
  | offline _ hc =>
    refine .inl ⟨if_neg ?_, rfl⟩
    rintro ⟨-, -, -, hc', -⟩
    rw [hc] at hc'
    cases hc'
  | refused _ _ hl =>
    refine .inl ⟨if_neg ?_, rfl⟩
    rintro ⟨-, -, -, -, -, hshort⟩
    exact Nat.not_lt.2 hshort hl
  | @sent frame hn hc hne henc ho hk =>
    refine .inr ⟨frame, if_pos ⟨hk, ho, hn, hc, hne, ?_⟩, hne, henc, rfl⟩
    by_contra hl
    rw [encodeChatFrame_long (Nat.lt_of_not_le hl)] at henc
    cases henc
  | lost _ _ _ _ ho | failed _ _ _ _ ho =>
    refine .inl ⟨if_neg ?_, rfl⟩
    rintro ⟨-, ho', -⟩
    rw [ho] at ho'
    cases ho'

theorem Runtime.submit_of_none {r : Runtime} {polled : Polled} {outcome : Written}
    (h : r.app.submits polled outcome = none) : r.submit polled outcome = r := by
  unfold Runtime.submit
  rw [h, Option.toList_none, List.append_nil]

theorem encodeChatFrame_error {message : Str} {error : IoError} (h : encodeChatFrame message = .error error) :
    error = tooLarge ∧ maxChatMessageBytes < byteLen message := by
  by_cases hl : byteLen message ≤ maxChatMessageBytes
  · obtain ⟨frame, henc⟩ := encodeChatFrame_ok hl
    rw [henc] at h
    cases h
  · rw [encodeChatFrame_long (Nat.lt_of_not_le hl)] at h
    exact ⟨(Except.error.inj h).symm, Nat.lt_of_not_le hl⟩

theorem handles_submitInput {polled : Polled} {outcome : Written} {app app' : ChatApp} {socket socket' : Socket}
    {result : Except IoError Unit} (hn : app.exitNotice = none) (hk : polled.enters = true)
    (h : submitInput (Socket.writeAll outcome) app socket = (result, app', socket')) :
    Handles polled outcome app socket result app' socket' := by
  by_cases hne : trim app.input = []
  · rw [submitInput_blank _ hne] at h
    cases h
    exact .blank hn hne hk
  · cases hc : app.connected with
    | false =>
      unfold submitInput at h
      dsimp only at h
      rw [if_neg (by simpa [ChatApp.takeInput] using hne), if_pos (by simp [ChatApp.takeInput, hc])] at h
      cases h
      exact .offline hn hc hne hk
    | true =>
      cases henc : encodeChatFrame (trim app.input) with
      | error error =>
        obtain ⟨rfl, hl⟩ := encodeChatFrame_error henc
        rw [submitInput_refused _ hc hl] at h
        cases h
        exact .refused hn hc hl hk
      | ok frame =>
        have hs := sendMessage_encoded (Socket.writeAll outcome) henc socket
        cases outcome with
        | ok =>
          rw [submitInput_sent _ hc hne hs] at h
          cases h
          exact .sent hn hc hne henc rfl hk
        | failed error taken =>
          rw [submitInput_failed _ hc hne hs] at h
          split at h
          · rename_i hd
            cases h
            exact .lost hn hc hne henc rfl hd hk
          · rename_i hd
            cases h
            exact .failed hn hc hne henc rfl (Bool.eq_false_iff.2 hd) hk

theorem handles_handleKeyEvent {outcome : Written} {app app' : ChatApp} {socket socket' : Socket} {key : KeyEvent}
    {result : Except IoError Unit} (hp : key.kind = .press)
    (h : handleKeyEvent (Socket.writeAll outcome) app socket key = some (result, app', socket')) :
    Handles (.event (.key key)) outcome app socket result app' socket' := by
  unfold handleKeyEvent at h
  split at h
  · rename_i hn
    split at h
    · rename_i henter
      cases h
      exact .quit (by simp [Polled.quits, hp, hn, henter])
    · cases h
      exact .nothing (submits_eq_none (.inr hn))
  · rename_i hhas
    have hn : app.exitNotice = none := by simpa [ChatApp.hasExitNotice] using hhas
    rw [Bool.not_eq_true] at hhas
    have hother : key.code ≠ .enter → (Polled.event (.key key)).enters = false := by
      intro hne
      simp [Polled.enters, hne]
    split at h
    · rename_i hcode
      split at h
      · rename_i hq
        cases h
        exact .quit (by simp [Polled.quits, hp, hhas, hcode, hq])
      · split at h
        · cases h
          exact .nothing (submits_eq_none (.inl (hother (by simp [hcode]))))
        · cases h
          exact .edit (c := .appendInput _) hn rfl rfl (hother (by simp [hcode]))
    · rename_i hcode
      cases h
      exact .quit (by simp [Polled.quits, hp, hhas, hcode])
    · rename_i hcode
      cases h
      exact .edit (c := .selectPreviousMention) hn rfl rfl (hother (by simp [hcode]))
    · rename_i hcode
      cases h
      exact .edit (c := .selectNextMention) hn rfl rfl (hother (by simp [hcode]))
    · rename_i hcode
      obtain ⟨app₁, happ, he⟩ := Option.map_eq_some_iff.1 h
      cases he
      exact .edit (c := .applySelectedMention) hn rfl happ (hother (by simp [hcode]))
    · rename_i hcode
      exact handles_submitInput hn (by simp [Polled.enters, hp, hcode]) (Option.some.inj h)
    · rename_i hcode
      cases h
      exact .edit (c := .popInput) hn rfl rfl (hother (by simp [hcode]))
    · rename_i hcode
      cases h
      exact .nothing (submits_eq_none (.inl (hother (by simp [hcode]))))

theorem handles_handleTerminalEvent {outcome : Written} {app app' : ChatApp} {socket socket' : Socket} {polled : Polled}
    {result : Except IoError Unit}
    (h : handleTerminalEvent (Socket.writeAll outcome) app socket polled = some (result, app', socket')) :
    Handles polled outcome app socket result app' socket' := by
  cases polled with
  | idle =>
    cases h
    exact .nothing (submits_eq_none (.inl rfl))
  | failed error =>
    cases h
    exact .unpolled rfl
  | event event =>
    cases event with
    | key key =>
      rw [handleTerminalEvent] at h
      split at h
      · rename_i hp
        exact handles_handleKeyEvent hp h
      · rename_i hp
        cases h
        exact .nothing (submits_eq_none (.inl (by simp [Polled.enters, hp])))
    | resize | other =>
      cases h
      exact .nothing (submits_eq_none (.inl rfl))

/-- Only the completion of a mention can panic. -/
theorem applySelectedMention_of_panic {outcome : Written} {app : ChatApp} {socket : Socket} {polled : Polled}
    (h : handleTerminalEvent (Socket.writeAll outcome) app socket polled = none) :
    app.applySelectedMention = none ∧ app.submits polled outcome = none := by
  cases polled with
  | idle | failed => cases h
  | event event =>
    cases event with
    | resize | other => cases h
    | key key =>
      rw [handleTerminalEvent] at h
      split at h
      · unfold handleKeyEvent at h
        split at h
        · cases h
        · split at h
          · split at h
            · cases h
            · split at h
              · cases h
              · cases h
          · cases h
          · cases h
          · cases h
          · rename_i hcode
            exact ⟨Option.map_eq_none_iff.1 h, submits_eq_none (.inl (by simp [Polled.enters, hcode]))⟩
          · cases h
          · cases h
          · cases h
      · cases h

/-! ## What a step does -/

section Client

variable {display : Reason → Str} {username serverAddr : Str}

/-- A step of the client. -/
inductive Acts (display : Reason → Str) (username : Str) (r : Runtime) : Action → Runtime → Prop
  | unnamed {dial} (hu : r.ui = .start) (h : trim username = []) :
    Acts display username r (.start dial) (r.ret (.error ⟨.invalidInput, lit "username cannot be empty"⟩))
  | connected {dial socket} (hu : r.ui = .start) (hne : trim username ≠ [])
      (h : connect username dial = (.ok (), socket)) :
    Acts display username r (.start dial) { r with ui := .turn, reader := .reading, socket }
  | unconnected {dial socket error} (hu : r.ui = .start) (hne : trim username ≠ [])
      (h : connect username dial = (.error error, socket)) :
    Acts display username r (.start dial) { r.ret (.error error) with socket }
  | ended (hu : r.ui = .turn) (hq : r.app.shouldQuit = true) : Acts display username r .turn (r.ret (.ok ()))
  | turn (hu : r.ui = .turn) (hq : r.app.shouldQuit = false) : Acts display username r .turn { r with ui := .drain }
  | drained (hu : r.ui = .drain) (h : r.events.queued = []) : Acts display username r .tryRecv { r with ui := .draw }
  | received {event rest} (hu : r.ui = .drain) (h : r.events.queued = event :: rest) :
    Acts display username r .tryRecv { r with app := event.applyTo display r.app,
                                              events := { r.events with received := r.events.received + 1 } }
  | drawn (hu : r.ui = .draw) : Acts display username r (.draw (.ok ())) { r with ui := .handle }
  | undrawn {error} (hu : r.ui = .draw) : Acts display username r (.draw (.error error)) (r.ret (.error error))
  | handled {polled outcome app socket} (hu : r.ui = .handle)
      (h : Handles polled outcome r.app r.socket (.ok ()) app socket) :
    Acts display username r (.handle polled outcome) { r.submit polled outcome with ui := .turn, app, socket }
  | unhandled {polled outcome app socket error} (hu : r.ui = .handle)
      (h : Handles polled outcome r.app r.socket (.error error) app socket) :
    Acts display username r (.handle polled outcome) { (r.submit polled outcome).ret (.error error) with app, socket }
  | panics {polled outcome} (hu : r.ui = .handle) (h : r.app.applySelectedMention = none)
      (hs : r.app.submits polled outcome = none) :
    Acts display username r (.handle polled outcome) ((r.submit polled outcome).endAt .panicked)
  | read {result} (hr : r.reader = .reading) :
    Acts display username r (.read result) { r with reader := .after (hear result), heard := r.heard ++ [result] }
  | sent {event goOn} (hr : r.reader = .sending event goOn) (ho : r.events.closed = false)
      (hroom : r.events.queued.length < r.events.capacity) :
    Acts display username r .send { r with events := { r.events with sent := r.events.sent ++ [event] },
                                           reader := .after (goOn, []) }
  | unsent {event goOn} (hr : r.reader = .sending event goOn) (hc : r.events.closed = true) :
    Acts display username r .send { r with reader := .after (goOn, []) }

theorem acts_of_step {r r' : Runtime} {a : Action} (h : (client display username serverAddr).step r a = some r') :
    Acts display username r a r' := by
  replace h : Runtime.step display username r a = some r' := h
  cases a with
  | start dial =>
    rw [Runtime.step] at h
    split at h
    · rename_i hu
      split at h
      · rename_i hb
        cases h
        exact .unnamed hu (List.isEmpty_iff.1 hb)
      · rename_i hb
        replace hb : trim username ≠ [] := by simpa using hb
        split at h
        · rename_i hc
          cases h
          exact .connected hu hb hc
        · rename_i hc
          cases h
          exact .unconnected hu hb hc
    · cases h
  | turn =>
    rw [Runtime.step] at h
    split at h
    · rename_i hu
      obtain rfl := Option.some.inj h
      split
      · rename_i hq
        exact .ended hu hq
      · rename_i hq
        exact .turn hu (Bool.eq_false_iff.2 hq)
    · cases h
  | tryRecv =>
    rw [Runtime.step] at h
    split at h
    · rename_i hu
      cases hq : r.events.queued with
      | nil =>
        simp only [Fifo.tryRecv, hq, List.head?_nil, Option.map_none] at h
        cases h
        exact .drained hu hq
      | cons event rest =>
        simp only [Fifo.tryRecv, hq, List.head?_cons, Option.map_some] at h
        cases h
        exact .received hu hq
    · cases h
  | draw result =>
    unfold Runtime.step at h
    dsimp only at h
    split at h
    · rename_i hu
      cases result with
      | ok =>
        cases h
        exact .drawn hu
      | error =>
        cases h
        exact .undrawn hu
    · cases h
  | handle polled outcome =>
    rw [Runtime.step] at h
    split at h
    · rename_i hu
      split at h
      · rename_i hh
        cases h
        exact .handled hu (handles_handleTerminalEvent hh)
      · rename_i hh
        cases h
        exact .unhandled hu (handles_handleTerminalEvent hh)
      · rename_i hh
        cases h
        obtain ⟨happly, hs⟩ := applySelectedMention_of_panic hh
        exact .panics hu happly hs
    · cases h
  | read result =>
    rw [Runtime.step] at h
    split at h
    · rename_i hr
      cases h
      exact .read hr
    · cases h
  | send =>
    rw [Runtime.step] at h
    split at h
    · rename_i event goOn hr
      cases ht : r.events.trySend event with
      | ok events =>
        rw [ht] at h
        cases h
        obtain ⟨ho, hf, rfl⟩ := Fifo.trySend_eq_ok.1 ht
        exact .sent hr ho (Nat.lt_of_not_le (of_decide_eq_false hf))
      | error e =>
        rw [ht] at h
        cases e with
        | full => cases h
        | closed =>
          cases h
          refine .unsent hr ?_
          unfold Fifo.trySend at ht
          split at ht
          · assumption
          · split at ht
            · cases ht
            · cases ht
    · cases h

end Client

end Client
end Drocsid
