import Drocsid.Selection
/-!
# Terminal — submitting the input (`crates/tui/src/lib.rs`)

`submitInput` takes the input, encodes it and writes it to the socket.  An input over the byte limit of a chat message
is refused before anything is written, by an error of the same type as a failed write; the caller tells the two apart by
no more than `isDisconnectError`, so a refused input ends the run like a broken socket (`submitInput_long`).
-/
namespace Drocsid

open Text ByteSource Protocol Server

namespace Client

open Tui (MessageState ChatMessage)

/-- `std::io::Error`: its kind, and the text it is displayed as. -/
structure IoError where
  kind : ErrorKind
  text : Str
  deriving DecidableEq, Repr

/-- The error of a message that is not sent. -/
def tooLarge : IoError := ⟨.invalidInput, lit "message is too large"⟩

def encodeChatFrame (message : Str) : Except IoError Bytes :=
  if byteLen message > maxChatMessageBytes then .error tooLarge
  else match encodeFrame .chat (toBytes message) with
    | .error _ => .error tooLarge
    | .ok frame => .ok frame

def isDisconnectError (error : IoError) : Bool :=
  match error.kind with
  | .brokenPipe | .connectionAborted | .connectionReset => true
  | _ => false

section Socket

variable {σ : Type} (writeAll : Bytes → σ → Except IoError Unit × σ)

/-- `send_message` on a socket in some state, which `writeAll` writes to. -/
def sendMessage (message : Str) (stream : σ) : Except IoError Unit × σ :=
  match encodeChatFrame message with
  | .error error => (.error error, stream)
  | .ok frame => writeAll frame stream

def submitInput (app : ChatApp) (stream : σ) : Except IoError Unit × ChatApp × σ :=
  let (content, app) := app.takeInput
  if content.isEmpty then (.ok (), app, stream)
  else if !app.connected then
    (.ok (), app.pushMessage (lit "[system] message not sent because the client is offline") .confirmed, stream)
  else match sendMessage writeAll content stream with
    | (.ok (), stream) => (.ok (), app, stream)
    | (.error error, stream) =>
      if isDisconnectError error then
        (.ok (), app.beginShutdown (lit "server unavailable: " ++ error.text), stream)
      else (.error error, app.markOffline (lit "failed to send message: " ++ error.text), stream)

/-! ## What is sent -/

/-- **Up to the limit every message is encoded**: it fits a frame. -/
theorem encodeChatFrame_ok {message : Str} (h : byteLen message ≤ maxChatMessageBytes) :
    ∃ frame, encodeChatFrame message = .ok frame := by
  have hpayload : (toBytes message).length ≤ maxFramePayloadBytes := by
    rw [length_toBytes]
    unfold maxChatMessageBytes at h
    unfold maxFramePayloadBytes
    omega
  refine ⟨frameHeader .chat (toBytes message).length ++ toBytes message, ?_⟩
  unfold encodeChatFrame
  rw [if_neg (Nat.not_lt.2 h), encodeFrame_eq_ok.2 ⟨hpayload, rfl⟩]

theorem encodeChatFrame_long {message : Str} (h : maxChatMessageBytes < byteLen message) :
    encodeChatFrame message = .error tooLarge := if_pos h

/-- A message refused is not written, nor any of it. -/
theorem sendMessage_refused {message : Str} {error : IoError} (h : encodeChatFrame message = .error error)
    (stream : σ) :
    sendMessage writeAll message stream = (.error error, stream) := by
  unfold sendMessage
  rw [h]

theorem sendMessage_encoded {message : Str} {frame : Bytes} (h : encodeChatFrame message = .ok frame) (stream : σ) :
    sendMessage writeAll message stream = writeAll frame stream := by
  unfold sendMessage
  rw [h]

/-! ## A submission, by what the send returned -/

variable {app : ChatApp} {stream stream' : σ}

theorem submitInput_blank (h : trim app.input = []) :
    submitInput writeAll app stream = (.ok (), app.takeInput.2, stream) := by
  unfold submitInput ChatApp.takeInput
  dsimp only
  rw [h]
  rfl

theorem submitInput_sent (hc : app.connected = true) (hne : trim app.input ≠ [])
    (hs : sendMessage writeAll (trim app.input) stream = (.ok (), stream')) :
    submitInput writeAll app stream = (.ok (), app.takeInput.2, stream') := by
  unfold submitInput ChatApp.takeInput
  dsimp only
  rw [if_neg (by simpa using hne), if_neg (by simp [hc]), hs]

theorem submitInput_failed {error : IoError} (hc : app.connected = true) (hne : trim app.input ≠ [])
    (hs : sendMessage writeAll (trim app.input) stream = (.error error, stream')) :
    submitInput writeAll app stream =
      if isDisconnectError error then
        (.ok (), app.takeInput.2.beginShutdown (lit "server unavailable: " ++ error.text), stream')
      else (.error error, app.takeInput.2.markOffline (lit "failed to send message: " ++ error.text), stream') := by
  unfold submitInput ChatApp.takeInput
  dsimp only
  rw [if_neg (by simpa using hne), if_neg (by simp [hc]), hs]

/-! ## Which submissions end the session -/

/-- The client is marked offline, begins to shut down or is ended by an error. -/
def Ends (app : ChatApp) (r : Except IoError Unit × ChatApp × σ) : Prop :=
  (∃ error, r.1 = .error error) ∨ r.2.1.connected = false ∨ r.2.1.exitNotice ≠ app.exitNotice

/-- Only a frame the socket would not take ends the session. -/
def EndsOnlyOnWrite (app : ChatApp) (stream : σ) : Prop :=
  Ends app (submitInput writeAll app stream) → ∃ frame error stream',
    encodeChatFrame (trim app.input) = .ok frame ∧ writeAll frame stream = (.error error, stream')

/-- A submission that went well leaves the session running. -/
theorem not_ends_takeInput (hc : app.connected = true) :
    ¬ Ends app ((.ok (), app.takeInput.2, stream) : Except IoError Unit × ChatApp × σ) := by
  rintro (⟨error, h⟩ | h | h)
  · cases h
  · exact absurd (hc.symm.trans h) (by decide)
  · exact h rfl

/-- **An input over the limit ends the session**, with nothing written. -/
theorem submitInput_refused (hc : app.connected = true) (hl : maxChatMessageBytes < byteLen (trim app.input)) :
    submitInput writeAll app stream =
      (.error tooLarge, app.takeInput.2.markOffline (lit "failed to send message: " ++ tooLarge.text), stream) := by
  have hne : trim app.input ≠ [] := by
    intro h
    rw [h] at hl
    exact absurd hl (by decide)
  rw [submitInput_failed writeAll hc hne (sendMessage_refused writeAll (encodeChatFrame_long hl) stream)]
  rfl

/-- **A submission ends the session on a failed write alone exactly when its input is within the limit.** -/
theorem submitInput_exact (hc : app.connected = true) :
    EndsOnlyOnWrite writeAll app stream ↔ byteLen (trim app.input) ≤ maxChatMessageBytes := by
  constructor
  · intro h
    by_contra hl
    have hlong : maxChatMessageBytes < byteLen (trim app.input) := Nat.lt_of_not_le hl
    have hends : Ends app (submitInput writeAll app stream) := by
      rw [submitInput_refused writeAll hc hlong]
      exact Or.inl ⟨_, rfl⟩
    obtain ⟨frame, _, _, henc, -⟩ := h hends
    rw [encodeChatFrame_long hlong] at henc
    cases henc
  · intro hl hends
    obtain ⟨frame, henc⟩ := encodeChatFrame_ok hl
    by_cases hne : trim app.input = []
    · rw [submitInput_blank writeAll hne] at hends
      exact absurd hends (not_ends_takeInput hc)
    · have hsend := sendMessage_encoded writeAll henc stream
      cases hw : writeAll frame stream with
      | mk r stream' =>
        rw [hw] at hsend
        cases r with
        | ok u =>
          rw [submitInput_sent writeAll hc hne hsend] at hends
          exact absurd hends (not_ends_takeInput hc)
        | error error => exact ⟨frame, error, stream', henc, hw⟩

end Socket

/-- A socket that takes every frame. -/
def taking : Bytes → Unit → Except IoError Unit × Unit := fun _ _ => (.ok (), ())

/-- Alice, with an input typed. -/
def aliceWith (input : Str) : ChatApp := (ChatApp.new (lit "alice") (lit "localhost:8080")).type input

theorem connected_type (app : ChatApp) (text : Str) : (app.type text).connected = app.connected := by
  induction text generalizing app with
  | nil => rfl
  | cons c text ih => exact ih (app.appendInput c)

theorem submitInput_exact_hi :
    EndsOnlyOnWrite taking (aliceWith (lit " hi ")) () ↔
      byteLen (trim (aliceWith (lit " hi ")).input) ≤ maxChatMessageBytes :=
  submitInput_exact taking (connected_type _ _)

theorem trim_xs (n : Nat) : trim (List.replicate n 'x') = List.replicate n 'x' := by
  cases n with
  | zero => rfl
  | succ n =>
    have h := trim_append (a := []) (m := List.replicate (n + 1) 'x') (e := [])
      (by intro c hc; rw [List.mem_replicate.1 (List.mem_of_mem_head? hc) |>.2]; decide)
      (by intro c hc; rw [List.mem_replicate.1 (List.mem_of_mem_getLast? hc) |>.2]; decide)
      (by simp)
    simpa [trimStart, trimEnd] using h

/-- Alice types 4097 letters and submits: she is offline and her client ends, and the socket would have taken it. -/
theorem submitInput_long :
    Reached (lit "alice") (lit "localhost:8080") (aliceWith (List.replicate 4097 'x')) ∧
    (aliceWith (List.replicate 4097 'x')).connected = true ∧
    (submitInput taking (aliceWith (List.replicate 4097 'x')) ()).1 = .error tooLarge ∧
    (submitInput taking (aliceWith (List.replicate 4097 'x')) ()).2.1.connected = false ∧
    ¬ EndsOnlyOnWrite taking (aliceWith (List.replicate 4097 'x')) () := by
  have hc : (aliceWith (List.replicate 4097 'x')).connected = true := connected_type _ _
  have hinput : trim (aliceWith (List.replicate 4097 'x')).input = List.replicate 4097 'x' := by
    rw [aliceWith, input_type]
    exact trim_xs 4097
  have hl : maxChatMessageBytes < byteLen (trim (aliceWith (List.replicate 4097 'x')).input) := by
    have hlen : (List.replicate 4097 'x').length ≤ byteLen (List.replicate 4097 'x') := length_le_byteLen _
    rw [hinput]
    rw [List.length_replicate] at hlen
    exact hlen
  have hrun : submitInput taking (aliceWith (List.replicate 4097 'x')) () = _ := submitInput_refused taking hc hl
  refine ⟨reached_type .init _, hc, ?_, ?_, ?_⟩
  · rw [hrun]
  · rw [hrun]
    rfl
  · intro h
    obtain ⟨frame, _, _, henc, -⟩ := h (by rw [hrun]; exact Or.inl ⟨_, rfl⟩)
    rw [encodeChatFrame_long hl] at henc
    cases henc

end Client
end Drocsid
