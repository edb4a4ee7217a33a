import Drocsid.Framing
/-!
# Handshake — the name a session takes and the texts the server makes of it (`crates/server/src/connection.rs`)

`read_handshake_username` bounds the bytes of the name before it trims it; what it returns is trimmed, not blank, has no
control character and at most `MAX_USERNAME_BYTES` bytes (`isUsername_of_handshake`).
-/
namespace Drocsid

open Text ByteSource Protocol

namespace Server

def maxUsernameBytes : Nat := 32

/-- `read_handshake_username`, from what `read_async_frame` returned. -/
def handshakeUsername : Except ServerError (Option Frame) → Except ServerError Str
  | .ok none => .error .emptyHandshakeUsername
  | .error .messageTooLong => .error .usernameTooLong
  | .error e => .error e
  | .ok (some frame) =>
    if frame.kind ≠ .handshake then .error .invalidFrameType
    else match fromUtf8 frame.payload with
      | none => .error .invalidUtf8
      | some username =>
        if byteLen username > maxUsernameBytes then .error .usernameTooLong
        else if (trim username).isEmpty then .error .emptyHandshakeUsername
        else if !isValidUsername username then .error .usernameContainsControlCharacters
        else .ok (trim username)

def readHandshakeUsername (src : Source) : Except ServerError Str × Source :=
  let (result, src') := readAsyncFrame src
  (handshakeUsername result, src')

/-- What `read_handshake_username` promises of a name. -/
structure IsUsername (u : Str) : Prop where
  trimmed : trim u = u
  nonempty : u ≠ []
  printable : u.any isControl = false
  short : byteLen u ≤ maxUsernameBytes

theorem isUsername_of_handshake {r : Except ServerError (Option Frame)} {u : Str} (h : handshakeUsername r = .ok u) :
    IsUsername u := by
  unfold handshakeUsername at h
  split at h
  · cases h
  · cases h
  · cases h
  · split at h
    · cases h
    · split at h
      · cases h
      · rename_i name _
        split at h
        · cases h
        · rename_i hshort
          split at h
          · cases h
          · rename_i hblank
            split at h
            · cases h
            · rename_i hvalid
              cases h
              have hctl : name.any isControl = false := by
                simp only [isValidUsername, Bool.not_eq_true', Bool.and_eq_false_iff, not_or, Bool.not_eq_false]
                  at hvalid
                simpa using hvalid.2
              refine ⟨trim_trim name, by simpa using hblank, ?_, ?_⟩
              · exact List.any_eq_false.2 (fun c hc => List.any_eq_false.1 hctl c (mem_of_mem_trim hc))
              · exact Nat.le_trans (byteLen_trim_le name) (Nat.not_lt.1 hshort)

theorem IsUsername.valid {u : Str} (h : IsUsername u) : isValidUsername u = true := by
  simp only [isValidUsername, h.trimmed, h.printable, Bool.not_false, Bool.and_true, Bool.not_eq_true',
    List.isEmpty_eq_false_iff]
  exact h.nonempty

/-! ## The texts -/

/-- A `%H:%M` time. -/
structure HhMm where
  hour   : Fin 24
  minute : Fin 60
  deriving DecidableEq, Repr

/-- Two decimal digits. -/
def twoDigits (n : Nat) : Str := [Char.ofNat (48 + n / 10), Char.ofNat (48 + n % 10)]

def HhMm.text (t : HhMm) : Str := twoDigits t.hour ++ lit ":" ++ twoDigits t.minute

def joinMessage (username : Str) : Str := lit "@" ++ username ++ lit " has entered the chat. Say hello!\n"

def leaveMessage (username : Str) : Str := username ++ lit " has left the chat\n"

/-- `encode_frame(FrameType::Chat, ..).map_err(|_| ServerError::MessageTooLong)`. -/
def chatFrame (text : Str) : Except ServerError Bytes :=
  match encodeFrame .chat (toBytes text) with
  | .ok frame => .ok frame
  | .error _ => .error .messageTooLong

theorem encodeFrame_of_chatFrame {text : Str} {frame : Bytes} (h : chatFrame text = .ok frame) :
    encodeFrame .chat (toBytes text) = .ok frame := by
  unfold chatFrame at h
  split at h
  · rename_i he; cases h; exact he
  · cases h

theorem trimEnd_joinMessage (username : Str) :
    trimEnd (joinMessage username) = lit "@" ++ username ++ lit " has entered the chat. Say hello!" := by
  rw [show joinMessage username = ((lit "@" ++ username ++ lit " has entered the chat. Say hello") ++ ['!']) ++
    ['\n'] by
    simp [joinMessage, lit]]
  rw [trimEnd_concat_of_whitespace _ (by decide), trimEnd_concat_of_not_whitespace _ (by decide)]
  simp [lit]

theorem trimEnd_leaveMessage (username : Str) : trimEnd (leaveMessage username) = username ++
    lit " has left the chat" := by
  rw [show leaveMessage username = ((username ++ lit " has left the cha") ++ ['t']) ++
    ['\n'] by simp [leaveMessage, lit]]
  rw [trimEnd_concat_of_whitespace _ (by decide), trimEnd_concat_of_not_whitespace _ (by decide)]
  simp [lit]

/-- The characters of a time are digits and a colon. -/
theorem HhMm.space_not_mem (t : HhMm) : ' ' ∉ t.text := by
  have hdigits : ∀ n : Fin 60, ' ' ∉ twoDigits n := by decide
  have hh := hdigits ⟨t.hour, by omega⟩
  have hm := hdigits t.minute
  simp only [HhMm.text, List.mem_append, not_or]
  exact ⟨⟨hh, by decide⟩, hm⟩

theorem HhMm.no_closeTime (t : HhMm) : ¬ lit "): " <:+: t.text := fun h => t.space_not_mem (h.subset (by decide))

/-- The checks the message loop makes of a frame: an error, a blank message passed over (none), or its content. -/
def acceptChat (frame : Frame) : Except ServerError (Option Str) :=
  if frame.kind ≠ .chat then .error .invalidFrameType
  else if frame.payload.length > maxChatMessageBytes then .error .messageTooLong
  else match fromUtf8 frame.payload with
    | none => .error .invalidUtf8
    | some content => if (trim content).isEmpty then .ok none else .ok (some content)

theorem byteLen_of_acceptChat {frame : Frame} {content : Str} (h : acceptChat frame = .ok (some content)) :
    byteLen content ≤ maxChatMessageBytes := by
  unfold acceptChat at h
  split at h
  · cases h
  · split at h
    · cases h
    · rename_i hlen
      split at h
      · cases h
      · rename_i c hc
        split at h
        · cases h
        · cases h
          rw [← length_toBytes, fromUtf8_eq_some.1 hc]
          omega

end Server
end Drocsid
