import Drocsid.Text
import Drocsid.ByteSource
/-!
# Protocol — the wire format (`crates/protocol`)

A frame is a six-byte header (version, kind, big-endian payload length) and its payload.  A presence payload is a
big-endian count and that many length-prefixed usernames.  A chat message is a text `[user](time): body` inside a
chat payload.
-/
namespace Drocsid

open Text ByteSource

abbrev Bytes := List UInt8

/-- A slice at an offset that is not a character boundary of the string, which panics. -/
inductive Panic
  | sliceBoundary
  deriving DecidableEq, Repr

/-- `&s[i..]`. -/
def indexFrom (s : Str) (i : Nat) : Except Panic Str :=
  match dropBytes s i with
  | some t => .ok t
  | none   => .error .sliceBoundary

namespace Protocol

def currentProtocolVersion : UInt8 := 1
def frameHeaderBytes : Nat := 6
def maxChatMessageBytes : Nat := 4 * 1024
def maxFramePayloadBytes : Nat := 16 * 1024

inductive FrameType
  | handshake | chat | presence
  deriving DecidableEq, Repr

/-- `kind as u8`. -/
def FrameType.toByte : FrameType → UInt8
  | .handshake => 1
  | .chat      => 2
  | .presence  => 3

structure Frame where
  version : UInt8
  kind    : FrameType
  payload : Bytes
  deriving DecidableEq, Repr

inductive FrameError
  | io (kind : ErrorKind)
  | unsupportedVersion (version : UInt8)
  | unknownType (value : UInt8)
  | tooLarge (len : Nat)
  | invalidUsername
  | truncated
  deriving DecidableEq, Repr

/-- `TryFrom<u8> for FrameType`. -/
def FrameType.tryFrom (value : UInt8) : Except FrameError FrameType :=
  if value = 1 then .ok .handshake
  else if value = 2 then .ok .chat
  else if value = 3 then .ok .presence
  else .error (.unknownType value)

def encodeFrame (kind : FrameType) (payload : Bytes) : Except FrameError Bytes :=
  if payload.length > maxFramePayloadBytes then .error (.tooLarge payload.length)
  else .ok ([currentProtocolVersion, kind.toByte,
      UInt8.ofNat ((payload.length >>> 24) &&& 0xff),
      UInt8.ofNat ((payload.length >>> 16) &&& 0xff),
      UInt8.ofNat ((payload.length >>> 8) &&& 0xff),
      UInt8.ofNat (payload.length &&& 0xff)] ++ payload)

/-- `u32::from_be_bytes`. -/
def u32FromBeBytes (b0 b1 b2 b3 : UInt8) : Nat :=
  ((b0.toNat * 256 + b1.toNat) * 256 + b2.toNat) * 256 + b3.toNat

/-- `u16::from_be_bytes`. -/
def u16FromBeBytes (b0 b1 : UInt8) : Nat := b0.toNat * 256 + b1.toNat

/-- `u16::to_be_bytes`. -/
def u16ToBeBytes (n : Nat) : Bytes := [UInt8.ofNat (n / 256), UInt8.ofNat n]

/-- `u16::try_from`. -/
def u16TryFrom (n : Nat) : Option Nat := if n < 2 ^ 16 then some n else none

def isValidUsername (username : Str) : Bool := !(trim username).isEmpty && !username.any isControl

/-- The length-prefixed users of a presence payload. -/
def encodeUsers : List Str → Except FrameError Bytes
  | [] => .ok []
  | user :: users =>
    if !isValidUsername user then .error .invalidUsername
    else match u16TryFrom (byteLen user) with
      | none => .error (.tooLarge (byteLen user))
      | some length =>
        match encodeUsers users with
        | .error e => .error e
        | .ok rest => .ok (u16ToBeBytes length ++ toBytes user ++ rest)

def encodePresence (users : List Str) : Except FrameError Bytes :=
  match u16TryFrom users.length with
  | none => .error (.tooLarge (2 ^ 64 - 1))
  | some count =>
    match encodeUsers users with
    | .error e => .error e
    | .ok rest => encodeFrame .presence (u16ToBeBytes count ++ rest)

/-- `payload.get(i..j)`. -/
def getRange (payload : Bytes) (i j : Nat) : Option Bytes :=
  if i ≤ j ∧ j ≤ payload.length then some ((payload.drop i).take (j - i)) else none

/-- `u16::from_be_bytes(payload.get(i..i + 2)?.try_into().ok()?)`. -/
def getU16 (payload : Bytes) (i : Nat) : Option Nat :=
  match getRange payload i (i + 2) with
  | some [b0, b1] => some (u16FromBeBytes b0 b1)
  | _ => none

/-- `parse_presence`'s loop: the users still to read, and the offset they start at. -/
def parseUsers (payload : Bytes) : Nat → Nat → Option (List Str × Nat)
  | 0, offset => some ([], offset)
  | count + 1, offset => do
    let length ← getU16 payload offset
    let user ← fromUtf8 (← getRange payload (offset + 2) (offset + 2 + length))
    if !isValidUsername user then none
    else
      let (users, last) ← parseUsers payload count (offset + 2 + length)
      some (user :: users, last)

def parsePresence (payload : Bytes) : Option (List Str) := do
  let count ← getU16 payload 0
  let (users, offset) ← parseUsers payload count 2
  if offset = payload.length then some users else none

/-- The text of a string literal. -/
def lit (s : String) : Str := s.toList

def formatChatMessage (username timestamp content : Str) : Str :=
  lit "[" ++ username ++ lit "](" ++ timestamp ++ lit "): " ++ content

/-- `parse_chat_message`: the inner none is its `None`, an error is a slice off a character boundary. -/
def parseChatMessage (message : Str) : Except Panic (Option (Str × Str × Str)) :=
  match find (lit "](") message with
  | none => .ok none
  | some closeUser =>
    match indexFrom message (closeUser + 2) with
    | .error e => .error e
    | .ok tail =>
      match find (lit "): ") tail with
      | none => .ok none
      | some i =>
        let closeTime := i + closeUser + 2
        .ok (do
          let username ← sliceBytes message 1 closeUser
          let timestamp ← sliceBytes message (closeUser + 2) closeTime
          let body ← dropBytes message (closeTime + 3)
          if (lit "[").isPrefixOf message then some (username, timestamp, body) else none)

/-- `format!("@{username}")`. -/
def mentionNeedle (username : Str) : Str := '@' :: username

/-- `message_mentions_user`'s loop from `search_start`; `isAlphanumeric` is `char::is_alphanumeric`. -/
def mentionsFrom (isAlphanumeric : Char → Bool) (text username : Str) (searchStart : Nat) : Except Panic Bool :=
  match dropBytes text searchStart with
  | none => .error .sliceBoundary
  | some rest =>
    match find (mentionNeedle username) rest with
    | none => .ok false
    | some relativeIndex =>
      match _ha : dropBytes text (searchStart + relativeIndex + byteLen (mentionNeedle username)) with
      | none => .error .sliceBoundary
      | some after =>
        if after.head?.all (fun ch => !isAlphanumeric ch && ch != '_') then .ok true
        else mentionsFrom isAlphanumeric text username (searchStart + relativeIndex + byteLen (mentionNeedle username))
termination_by byteLen text - searchStart
decreasing_by
  -- the next start is a boundary of the text, past the needle's first byte
  obtain ⟨b, rfl, hb⟩ := dropBytes_eq_some.1 _ha
  have : 0 < byteLen (mentionNeedle username) := by
    have := Char.utf8Size_pos '@'
    rw [mentionNeedle, byteLen_cons]; omega
  rw [byteLen_append]; omega

def messageMentionsUser (isAlphanumeric : Char → Bool) (text username : Str) : Except Panic Bool :=
  mentionsFrom isAlphanumeric text username 0

end Protocol
end Drocsid
