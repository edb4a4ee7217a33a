import Drocsid.Framing
/-!
# Readers — the client's reader and the server's, side by side

Both are `decode` with the same checks in another order (`checkHeader`, `checkAsyncHeader`), so on every stream they
return the same frame, end alike or fail alike, and take the same bytes.  The order shows on a header that announces
too long a payload and is also of an unknown version or kind (`DoublyWrong`): each reports the fault it looks for first.
-/
namespace Drocsid

open Text ByteSource Protocol

/-- The server's error for a fault both readers find. -/
def serverError : FrameError → Option ServerError
  | .unsupportedVersion _ => some .unsupportedProtocolVersion
  | .unknownType _        => some .unknownProtocolFrameType
  | .tooLarge _           => some .messageTooLong
  | .truncated            => some .truncatedProtocolFrame
  | .io _                 => none
  | .invalidUsername      => none

/-- The same frame, or both none, or errors that correspond. -/
def Corresponds (r : Except FrameError (Option Frame)) (r' : Except ServerError (Option Frame)) : Prop :=
  match r, r' with
  | .ok f, .ok f'       => f = f'
  | .error e, .error e' => serverError e = some e'
  | _, _                => False

/-- A header too long and wrong in its version or its kind as well. -/
structure DoublyWrong (s : Bytes) : Prop where
  whole : frameHeaderBytes ≤ s.length
  long  : maxFramePayloadBytes < headerLen s
  field : headerByte s 0 ≠ currentProtocolVersion ∨
    FrameType.tryFrom (headerByte s 1) = .error (.unknownType (headerByte s 1))

/-! ## The checks, in their two orders -/

theorem checkAsyncHeader_long {header : Bytes} (hl : maxFramePayloadBytes < headerLen header) :
    checkAsyncHeader header = .error .messageTooLong := if_pos hl

/-- Past the length check the two orders agree. -/
theorem checks_short {header : Bytes} {e : FrameError} (hl : headerLen header ≤ maxFramePayloadBytes)
    (h : checkHeader header = .error e) : ∃ e', checkAsyncHeader header = .error e' ∧ serverError e = some e' := by
  unfold checkHeader at h
  unfold checkAsyncHeader
  rw [if_neg (Nat.not_lt.2 hl)]
  by_cases hv : headerByte header 0 = currentProtocolVersion
  · rw [if_neg (not_not.2 hv)] at h ⊢
    cases hk : FrameType.tryFrom (headerByte header 1) with
    | error e₁ =>
      rw [hk] at h
      cases h
      obtain rfl := tryFrom_error hk
      exact ⟨_, rfl, rfl⟩
    | ok kind =>
      rw [hk] at h
      replace h : (if headerLen header > maxFramePayloadBytes then
        Except.error (FrameError.tooLarge (headerLen header)) else .ok kind) = .error e := h
      rw [if_neg (Nat.not_lt.2 hl)] at h
      cases h
  · rw [if_pos hv] at h ⊢
    cases h
    exact ⟨_, rfl, rfl⟩

/-- A header that is too long and otherwise right. -/
theorem checkHeader_long {header : Bytes} {kind : FrameType} (hl : maxFramePayloadBytes < headerLen header)
    (hv : headerByte header 0 = currentProtocolVersion) (hk : FrameType.tryFrom (headerByte header 1) = .ok kind) :
    checkHeader header = .error (.tooLarge (headerLen header)) := by
  unfold checkHeader
  rw [if_neg (not_not.2 hv), hk]
  exact if_pos hl

/-- The fault `read_frame` reports of a doubly wrong header. -/
def firstFault (s : Bytes) : FrameError :=
  if headerByte s 0 ≠ currentProtocolVersion then .unsupportedVersion (headerByte s 0)
  else .unknownType (headerByte s 1)

theorem checkHeader_doublyWrong {s : Bytes} (hw : DoublyWrong s) : checkHeader s = .error (firstFault s) := by
  unfold checkHeader firstFault
  by_cases hv : headerByte s 0 = currentProtocolVersion
  · rw [if_neg (not_not.2 hv), if_neg (not_not.2 hv), hw.field.resolve_left (not_not.2 hv)]
  · rw [if_pos hv, if_pos hv]

/-- The two orders reject the same headers, and blame the same field unless two are wrong. -/
theorem checks_rejected {s : Bytes} {e : FrameError} (h6 : frameHeaderBytes ≤ s.length) (h : checkHeader s = .error e) :
    ∃ e', checkAsyncHeader s = .error e' ∧ (serverError e = some e' ↔ ¬ DoublyWrong s) := by
  by_cases hl : headerLen s ≤ maxFramePayloadBytes
  · obtain ⟨e', he', hs⟩ := checks_short hl h
    refine ⟨e', he', iff_of_true hs ?_⟩
    intro hw
    exact absurd hw.long (Nat.not_lt.2 hl)
  · have hlong : maxFramePayloadBytes < headerLen s := Nat.lt_of_not_le hl
    refine ⟨.messageTooLong, checkAsyncHeader_long hlong, ?_⟩
    by_cases hw : DoublyWrong s
    · refine iff_of_false ?_ (not_not.2 hw)
      rw [checkHeader_doublyWrong hw] at h
      cases h
      unfold firstFault
      split
      · intro hc
        cases hc
      · intro hc
        cases hc
    · refine iff_of_true ?_ hw
      by_cases hv : headerByte s 0 = currentProtocolVersion
      · cases hk : FrameType.tryFrom (headerByte s 1) with
        | error e₁ =>
          obtain rfl := tryFrom_error hk
          exact absurd ⟨h6, hlong, Or.inr hk⟩ hw
        | ok kind =>
          rw [checkHeader_long hlong hv hk] at h
          cases h
          rfl
      · exact absurd ⟨h6, hlong, Or.inl hv⟩ hw

/-! ## The readers -/

/-- **The two decoders**: the same bytes left, the same ending, and errors that correspond unless the header is wrong
twice. -/
theorem decoders_agree (s : Bytes) :
    (decode checkHeader .truncated s).2 = (decode checkAsyncHeader .truncatedProtocolFrame s).2 ∧
      (Corresponds (decode checkHeader .truncated s).1 (decode checkAsyncHeader .truncatedProtocolFrame s).1 ↔
        ¬ DoublyWrong s) := by
  by_cases h6 : frameHeaderBytes ≤ s.length
  · cases hk : checkHeader s with
    | error e =>
      obtain ⟨e', hk', hiff⟩ := checks_rejected h6 hk
      rw [decode_rejected h6 hk, decode_rejected h6 hk']
      exact ⟨rfl, hiff⟩
    | ok kind =>
      have ha := checkHeader_eq_ok.1 hk
      have hk' := checkAsyncHeader_eq_ok.2 ha
      have hw : ¬ DoublyWrong s := by
        intro hw
        exact absurd hw.long (Nat.not_lt.2 ha.len)
      by_cases hl : (s.drop frameHeaderBytes).length < headerLen s
      · rw [decode_truncated h6 hk hl, decode_truncated h6 hk' hl]
        exact ⟨rfl, iff_of_true rfl hw⟩
      · rw [decode_frame h6 hk (Nat.not_lt.1 hl), decode_frame h6 hk' (Nat.not_lt.1 hl)]
        exact ⟨rfl, iff_of_true rfl hw⟩
  · have hw : ¬ DoublyWrong s := by
      intro hw
      exact h6 hw.whole
    by_cases hne : s = []
    · subst hne
      exact ⟨rfl, iff_of_true rfl hw⟩
    · rw [decode_short hne (Nat.lt_of_not_le h6), decode_short hne (Nat.lt_of_not_le h6)]
      exact ⟨rfl, iff_of_true rfl hw⟩

/-- What each reader says of a doubly wrong header. -/
theorem decoders_doublyWrong {s : Bytes} (hw : DoublyWrong s) :
    decode checkHeader .truncated s = (.error (firstFault s), s.drop frameHeaderBytes) ∧
      decode checkAsyncHeader .truncatedProtocolFrame s = (.error .messageTooLong, s.drop frameHeaderBytes) :=
  ⟨decode_rejected hw.whole (checkHeader_doublyWrong hw), decode_rejected hw.whole (checkAsyncHeader_long hw.long)⟩

/-- One read of a stream by each reader, each over a chunking of its own. -/
structure ReadAlike (s : Bytes) (r : Except FrameError (Option Frame) × Source)
    (r' : Except ServerError (Option Frame) × Source) : Prop where
  /-- The bytes each took, the same ones. -/
  taken : ∃ bytes, s = bytes ++ stream r.2 ∧ s = bytes ++ stream r'.2
  corresponds : Corresponds r.1 r'.1 ↔ ¬ DoublyWrong s
  doublyWrong : DoublyWrong s → r.1 = .error (firstFault s) ∧ r'.1 = .error .messageTooLong

theorem decode_suffix {ε : Type} (check : Bytes → Except ε FrameType) (truncated : ε) (s : Bytes) :
    ∃ bytes, s = bytes ++ (decode check truncated s).2 := by
  by_cases h6 : frameHeaderBytes ≤ s.length
  · cases hk : check s with
    | error e =>
      rw [decode_rejected h6 hk]
      exact ⟨_, (List.take_append_drop frameHeaderBytes s).symm⟩
    | ok kind =>
      by_cases hl : (s.drop frameHeaderBytes).length < headerLen s
      · rw [decode_truncated h6 hk hl]
        exact ⟨s, (List.append_nil s).symm⟩
      · rw [decode_frame h6 hk (Nat.not_lt.1 hl), List.drop_drop]
        exact ⟨_, (List.take_append_drop _ s).symm⟩
  · by_cases hne : s = []
    · subst hne
      exact ⟨[], rfl⟩
    · rw [decode_short hne (Nat.lt_of_not_le h6)]
      exact ⟨s, (List.append_nil s).symm⟩

/-- **The two readers read every stream alike**, in whatever chunks each is handed it, but for the error of a doubly
wrong header. -/
theorem readers_read_alike {src src' : Source} (hc : Chunked src) (hc' : Chunked src') (hs : stream src = stream src') :
    ReadAlike (stream src) (readFrame src) (readAsyncFrame src') := by
  obtain ⟨rest, hr, hrest, -⟩ := decodes_readFrame hc
  obtain ⟨rest', hr', hrest', -⟩ := decodes_readAsyncFrame hc'
  obtain ⟨hleft, hiff⟩ := decoders_agree (stream src)
  rw [← hs] at hr' hrest'
  rw [hr, hr']
  constructor
  case taken =>
    obtain ⟨bytes, hb⟩ := decode_suffix checkHeader .truncated (stream src)
    refine ⟨bytes, ?_, ?_⟩
    · show stream src = bytes ++ stream rest
      rw [hrest]
      exact hb
    · show stream src = bytes ++ stream rest'
      rw [hrest', ← hleft]
      exact hb
  case corresponds => exact hiff
  case doublyWrong =>
    intro hw
    obtain ⟨h, h'⟩ := decoders_doublyWrong hw
    rw [h, h']
    exact ⟨rfl, rfl⟩

/-- One chat frame of a byte, whole for one reader and byte by byte for the other. -/
theorem readers_read_alike_chat :
    ReadAlike [1, 2, 0, 0, 0, 1, 65] (readFrame [.data [1, 2, 0, 0, 0, 1, 65]])
      (readAsyncFrame [.data [1], .data [2, 0], .data [0, 0, 1], .data [65]]) := by
  have hc : Chunked [.data [1, 2, 0, 0, 0, 1, 65]] := by simp [Chunked]
  have hc' : Chunked [.data [1], .data [2, 0], .data [0, 0, 1], .data [65]] := by simp [Chunked]
  exact readers_read_alike hc hc' rfl

/-- Version nine, and a length of `2 ^ 32 - 1`: one reader names the version, the other the length. -/
theorem readers_differ : ¬ Corresponds (readFrame [.data [9, 2, 255, 255, 255, 255]]).1
    (readAsyncFrame [.data [9, 2, 255, 255, 255, 255]]).1 := by
  have hc : Chunked [.data [9, 2, 255, 255, 255, 255]] := by simp [Chunked]
  obtain ⟨src, hr, -, -⟩ := decodes_readFrame hc
  obtain ⟨src', hr', -, -⟩ := decodes_readAsyncFrame hc
  rw [hr, hr']
  refine fun h => (decoders_agree _).2.1 h ⟨by decide, by decide, Or.inl (by decide)⟩

end Drocsid
