import Drocsid.Presence
/-!
# Network — what the client makes of the server's stream (`crates/client/src/network.rs`)

The reader thread reads a frame at a time and sends an event for it, until the stream ends or a frame is not acceptable.
 On any chunking of any bytes it sends the events of the longest prefix of acceptable frames, and then one
 `Disconnected` (`spawnReader_events`).
-/
namespace Drocsid

open Text ByteSource Protocol

/-! ## What a read consumes -/

theorem stream_readHeader {got header : Bytes} {src src' : Source}
    (h : readHeader got src = (.ok (some header), src')) :
    ∃ bs, header = got ++ bs ∧ stream src = bs ++ stream src' ∧ frameHeaderBytes ≤ header.length := by
  induction got, src using readHeader.induct with
  | case1 src src₁ hlt hr => rw [readHeader, if_pos hlt, hr] at h; simp at h
  | case2 got src hlt src₁ hr hnil => rw [readHeader, if_pos hlt, hr] at h; simp [hnil] at h
  | case3 got src hlt b bs src₁ hr ih =>
    rw [readHeader, if_pos hlt, hr] at h
    obtain ⟨rest, rfl, hs, hlen⟩ := ih h
    exact ⟨b :: bs ++ rest, List.append_assoc _ _ _, by rw [stream_read hr, hs, List.append_assoc], hlen⟩
  | case4 got src hlt kind src₁ hr => rw [readHeader, if_pos hlt, hr] at h; cases h
  | case5 got src hlt =>
    rw [readHeader, if_neg hlt] at h
    cases h
    exact ⟨[], (List.append_nil _).symm, rfl, Nat.not_lt.1 hlt⟩

/-- A frame that was read took bytes, its header at least. -/
theorem length_readFrame {src src' : Source} {frame : Frame} (h : readFrame src = (.ok (some frame), src')) :
    (stream src').length < (stream src).length := by
  cases hr : readHeader [] src with
  | mk r src₁ =>
    cases r with
    | error e =>
      rw [readFrame_header_error hr] at h
      cases h
    | ok r =>
      cases r with
      | none =>
        rw [readFrame_none hr] at h
        cases h
      | some header =>
        obtain ⟨bs, hbs, hs, hlen⟩ := stream_readHeader hr
        rw [List.nil_append] at hbs
        subst hbs
        cases hk : checkHeader header with
        | error e =>
          rw [readFrame_rejected hr hk] at h
          cases h
        | ok kind =>
          cases hp : readExact true (headerLen header) src₁ with
          | mk p src₂ =>
            rw [readFrame_accepted hr hk, hp] at h
            cases p with
            | error e => cases e <;> cases h
            | ok payload =>
              cases h
              rw [hs, stream_readExact hp, List.length_append, List.length_append]
              unfold frameHeaderBytes at hlen
              omega

namespace Client

/-- Why the reader stopped. -/
inductive Reason
  /-- "server disconnected" -/
  | serverDisconnected
  /-- "connection error: " and the error's debug text -/
  | connectionError (error : FrameError)
  /-- "server sent invalid UTF-8 chat payload" -/
  | invalidUtf8
  /-- "server sent an invalid presence payload" -/
  | invalidPresence
  /-- "server sent an unexpected handshake frame" -/
  | unexpectedHandshake
  deriving DecidableEq, Repr

inductive NetworkEvent
  | message (text : Str)
  | userList (users : List Str)
  | disconnected (reason : Reason)
  deriving DecidableEq, Repr

/-- Whether to go on, and the events sent. -/
def processFrame (frame : Frame) : Bool × List NetworkEvent :=
  match frame.kind with
  | .chat =>
    match fromUtf8 frame.payload with
    | none => (false, [.disconnected .invalidUtf8])
    | some message => (true, if !(trim message).isEmpty then [.message message] else [])
  | .presence =>
    match parsePresence frame.payload with
    | none => (false, [.disconnected .invalidPresence])
    | some users => (true, [.userList users])
  | .handshake => (false, [.disconnected .unexpectedHandshake])

/-- `spawn_reader`'s loop: the events it sends, when it ends. -/
def spawnReader (src : Source) : List NetworkEvent :=
  match _h : readFrame src with
  | (.ok none, _) => [.disconnected .serverDisconnected]
  | (.error e, _) => [.disconnected (.connectionError e)]
  | (.ok (some frame), src') =>
    if (processFrame frame).1 then (processFrame frame).2 ++ spawnReader src' else (processFrame frame).2
termination_by (stream src).length
decreasing_by exact length_readFrame _h

/-! ## The events of a stream -/

/-- The frame is acceptable, and these are its events. -/
inductive Accepts : Frame → List NetworkEvent → Prop
  | message {version payload text} (h : fromUtf8 payload = some text) (hblank : trim text ≠ []) :
    Accepts ⟨version, .chat, payload⟩ [.message text]
  | blank {version payload text} (h : fromUtf8 payload = some text) (hblank : trim text = []) :
    Accepts ⟨version, .chat, payload⟩ []
  | presence {version payload users} (h : parsePresence payload = some users) :
    Accepts ⟨version, .presence, payload⟩ [.userList users]

/-- The bytes after the acceptable frames, and what is wrong with them. -/
inductive Stops : Bytes → Reason → Prop
  | eof : Stops [] .serverDisconnected
  | framing {rest e} (hne : rest ≠ []) (h : ¬ BeginsWithFrame rest) : Stops rest (.connectionError e)
  | invalidUtf8 {payload bytes rest} (henc : encodeFrame .chat payload = .ok bytes) (h : fromUtf8 payload = none) :
    Stops (bytes ++ rest) .invalidUtf8
  | invalidPresence {payload bytes rest} (henc : encodeFrame .presence payload = .ok bytes)
    (h : parsePresence payload = none) : Stops (bytes ++ rest) .invalidPresence
  | unexpectedHandshake {payload bytes rest} (henc : encodeFrame .handshake payload = .ok bytes) :
    Stops (bytes ++ rest) .unexpectedHandshake

/-- No acceptable frame begins the bytes. -/
def Unacceptable (rest : Bytes) : Prop := ∀ frame events bytes, Accepts frame events →
    encodeFrame frame.kind frame.payload = .ok bytes →
  ¬ bytes <+: rest

/-- **A frame goes on exactly when it is acceptable**, with its events. -/
theorem processFrame_accepts {frame : Frame} {events : List NetworkEvent} (h : Accepts frame events) :
    processFrame frame = (true, events) := by
  cases h with
  | message h hblank => simp [processFrame, h, hblank]
  | blank h hblank => simp [processFrame, h, hblank]
  | presence h => simp [processFrame, h]

/-- A frame that is not acceptable stops the reader, with one event. -/
theorem processFrame_cases (frame : Frame) : (∃ events, Accepts frame events) ∨
    ∃ reason, processFrame frame = (false, [.disconnected reason]) ∧
      ∀ {bytes}, encodeFrame frame.kind frame.payload = .ok bytes → ∀ rest, Stops (bytes ++ rest) reason := by
  obtain ⟨version, kind, payload⟩ := frame
  cases kind with
  | chat =>
    cases hu : fromUtf8 payload with
    | none => exact .inr ⟨.invalidUtf8, by simp [processFrame, hu], fun henc _ => .invalidUtf8 henc hu⟩
    | some text =>
      by_cases hb : trim text = []
      · exact .inl ⟨_, .blank hu hb⟩
      · exact .inl ⟨_, .message hu hb⟩
  | presence =>
    cases hp : parsePresence payload with
    | none => exact .inr ⟨.invalidPresence, by simp [processFrame, hp], fun henc _ => .invalidPresence henc hp⟩
    | some users => exact .inl ⟨_, .presence hp⟩
  | handshake => exact .inr ⟨.unexpectedHandshake, rfl, fun henc _ => .unexpectedHandshake henc⟩

/-- Two encoded frames that begin the same bytes are one. -/
theorem frame_unique {kind kind' : FrameType} {payload payload' bytes bytes' rest rest' : Bytes}
    (h : encodeFrame kind payload = .ok bytes) (h' : encodeFrame kind' payload' = .ok bytes')
    (he : bytes ++ rest = bytes' ++ rest') : kind = kind' ∧ payload = payload' ∧ rest = rest' := by
  obtain ⟨-, hk, hl, -, h6, hdrop⟩ := frame_fields h rfl
  obtain ⟨-, hk', hl', -, -, hdrop'⟩ := frame_fields h' he
  have hkind : kind = kind' := by
    have := hk.symm.trans hk'
    have := congrArg FrameType.tryFrom this
    rw [tryFrom_toByte, tryFrom_toByte] at this
    exact Except.ok.inj this
  have hrest := hdrop.symm.trans hdrop'
  obtain ⟨hp, hr⟩ := List.append_inj hrest (hl.symm.trans hl')
  exact ⟨hkind, hp, hr⟩

theorem Stops.unacceptable {rest : Bytes} {reason : Reason} (h : Stops rest reason) : Unacceptable rest := by
  rintro frame events bytes hacc henc ⟨rest', hrest⟩
  cases h with
  | eof => exact not_beginsWithFrame_nil ⟨_, _, _, henc, _, hrest⟩
  | framing _ h => exact h ⟨_, _, _, henc, _, hrest⟩
  | invalidUtf8 henc' h =>
    obtain ⟨hk, hp, -⟩ := frame_unique henc henc' hrest
    cases hacc with
    | message h' | blank h' => rw [← hp] at h; cases h.symm.trans h'
    | presence => cases hk
  | invalidPresence henc' h =>
    obtain ⟨hk, hp, -⟩ := frame_unique henc henc' hrest
    cases hacc with
    | message | blank => cases hk
    | presence h' => rw [← hp] at h; cases h.symm.trans h'
  | unexpectedHandshake henc' =>
    obtain ⟨hk, -⟩ := frame_unique henc henc' hrest
    cases hacc <;> cases hk

theorem spawnReader_eq (src : Source) : spawnReader src =
    match readFrame src with
    | (.ok none, _) => [.disconnected .serverDisconnected]
    | (.error e, _) => [.disconnected (.connectionError e)]
    | (.ok (some frame), src') =>
      if (processFrame frame).1 then (processFrame frame).2 ++ spawnReader src' else (processFrame frame).2 := by
  rw [spawnReader]
  split <;> rename_i hr <;> rw [hr]

/-- **The events of a stream.**  On any chunking of any bytes the reader ends, having sent the events of the acceptable
frames the bytes begin with, up to the first place where none begins, and then one `Disconnected`, for what is there. -/
theorem spawnReader_events : ∀ src, Chunked src → ∃ (frames : List Frame) (events : List (List NetworkEvent))
    (reason : Reason)
    (bytes rest : Bytes), spawnReader src = events.flatten ++ [.disconnected reason] ∧
      List.Forall₂ Accepts frames events ∧
      encodeAll frames = .ok bytes ∧ stream src = bytes ++ rest ∧ Stops rest reason ∧ Unacceptable rest := by
  intro src
  induction hn : (stream src).length using Nat.strongRecOn generalizing src with
  | ind n ih =>
    intro hc
    have hstop : ∀ {reason}, spawnReader src = [.disconnected reason] → Stops (stream src) reason →
        ∃ (frames : List Frame) (events : List (List NetworkEvent)) (reason : Reason) (bytes rest : Bytes),
          spawnReader src = events.flatten ++ [.disconnected reason] ∧ List.Forall₂ Accepts frames events ∧
          encodeAll frames = .ok bytes ∧ stream src = bytes ++ rest ∧ Stops rest reason ∧ Unacceptable rest :=
      fun {reason} hr hs => ⟨[], [], reason, [], stream src, hr, .nil, rfl, rfl, hs, hs.unacceptable⟩
    by_cases hnil : stream src = []
    · obtain ⟨src', hr⟩ := readsFrames_readFrame.eof hc hnil
      exact hstop (by rw [spawnReader_eq, hr]) (by rw [hnil]; exact .eof)
    · by_cases hb : BeginsWithFrame (stream src)
      · obtain ⟨kind, payload, bytes, henc, rest, hrest⟩ := hb
        obtain ⟨src', hr, hs', hc'⟩ := readsFrames_readFrame.frame hc henc hrest.symm
        rcases processFrame_cases ⟨currentProtocolVersion, kind, payload⟩ with ⟨events, hacc⟩ | ⟨reason, hp, hstops⟩
        · obtain ⟨frames, eventss, reason, bytes', rest', hevents, hall, henc', hsplit, hstops, hun⟩ :=
            ih _ (by rw [← hn]; exact length_readFrame hr) src' rfl hc'
          refine ⟨_ :: frames, events :: eventss, reason, bytes ++ bytes', rest', ?_, .cons hacc hall,
            encodeAll_cons henc henc', ?_, hstops, hun⟩
          · rw [spawnReader_eq, hr]
            simp only [processFrame_accepts hacc, if_true, hevents, List.flatten_cons, List.append_assoc]
          · rw [← hrest, ← hs', hsplit, List.append_assoc]
        · have hs : Stops (stream src) reason := by rw [← hrest]; exact hstops henc rest
          refine hstop ?_ hs
          rw [spawnReader_eq, hr]
          simp [hp]
      · obtain ⟨e, src', hr⟩ := readsFrames_readFrame.error hc hnil hb
        exact hstop (by rw [spawnReader_eq, hr]) (.framing hnil hb)

/-- The chat "hi", cut in its header and in its payload, and nothing after it. -/
def chunkedHi : Source := [.data [1, 2, 0, 0], .data [0, 2, 0x68], .data [0x69]]

theorem spawnReader_events_chunkedHi : ∃ (frames : List Frame) (events : List (List NetworkEvent)) (reason : Reason)
    (bytes rest : Bytes), spawnReader chunkedHi = events.flatten ++ [.disconnected reason] ∧
      List.Forall₂ Accepts frames events ∧
      encodeAll frames = .ok bytes ∧ stream chunkedHi = bytes ++ rest ∧ Stops rest reason ∧ Unacceptable rest :=
  spawnReader_events chunkedHi (by simp [Chunked, chunkedHi])

end Client
end Drocsid
