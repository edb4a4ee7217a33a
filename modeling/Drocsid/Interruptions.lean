import Drocsid.Framing
/-!
# Interruptions — `read_frame` on a transport that is interrupted

The payload is read by `read_exact`, which tries an interrupted read again (`readExact_quiet`); the header is read by a
loop of the crate's own, which does not.  So an interruption is invisible exactly when the header is complete, or its
reading already over, before it (`InterruptedWithin`).
-/
namespace Drocsid

open Text ByteSource Protocol

/-- An interruption comes before `n` bytes have, and nothing but chunks before it. -/
def InterruptedWithin (n : Nat) (src : Source) : Prop :=
  ∃ before rest, src = before ++ .fail .interrupted :: rest ∧ Chunked before ∧ (stream before).length < n

theorem interruptedWithin_interrupted {n : Nat} (h : 0 < n) (src : Source) :
    InterruptedWithin n (.fail .interrupted :: src) := ⟨[], src, rfl, chunked_nil, h⟩

theorem interruptedWithin_data {n : Nat} {bs : Bytes} {src : Source} (hne : bs ≠ [])
    (h : InterruptedWithin (n - bs.length) src) : InterruptedWithin n (.data bs :: src) := by
  obtain ⟨before, rest, rfl, hc, hl⟩ := h
  refine ⟨.data bs :: before, rest, rfl, chunked_cons.2 ⟨⟨bs, rfl, hne⟩, hc⟩, ?_⟩
  rw [stream_data, List.length_append]
  omega

/-! ## The header's loop at a chunk -/

/-- A chunk that does not fill the header. -/
theorem readHeader_data {got bs : Bytes} (h : got.length < frameHeaderBytes) (hne : bs ≠ [])
    (hl : bs.length ≤ frameHeaderBytes - got.length) (src : Source) :
    readHeader got (.data bs :: src) = readHeader (got ++ bs) src := by
  apply readHeader_turn h hne
  rw [ByteSource.read, List.take_of_length_le hl, if_pos hl]

/-- A chunk that fills it and has bytes to spare. -/
theorem readHeader_within {got bs : Bytes} (h : got.length < frameHeaderBytes)
    (hl : frameHeaderBytes - got.length < bs.length) (src : Source) :
    readHeader got (.data bs :: src) = (.ok (some (got ++ bs.take (frameHeaderBytes - got.length))),
      .data (bs.drop (frameHeaderBytes - got.length)) :: src) := by
  have hlen : (bs.take (frameHeaderBytes - got.length)).length = frameHeaderBytes - got.length := by
    rw [List.length_take, Nat.min_eq_left (Nat.le_of_lt hl)]
  have hne : bs.take (frameHeaderBytes - got.length) ≠ [] := by
    intro hnil
    rw [hnil, List.length_nil] at hlen
    omega
  have hr : ByteSource.read (frameHeaderBytes - got.length) (.data bs :: src) =
      (.ok (bs.take (frameHeaderBytes - got.length)), .data (bs.drop (frameHeaderBytes - got.length)) :: src) := by
    rw [ByteSource.read, if_neg (Nat.not_le.2 hl)]
  rw [readHeader_turn h hne hr]
  apply readHeader_full
  rw [List.length_append, hlen]
  omega

/-! ## What the header's loop makes of an interruption -/

/-- **An interruption inside the header is the loop's error.** -/
theorem readHeader_interrupted (rest : Source) : ∀ (before : Source) (got : Bytes), Chunked before →
    got.length + (stream before).length < frameHeaderBytes →
    readHeader got (before ++ .fail .interrupted :: rest) = (.error (.io .interrupted), rest)
  | [], got, _, hl => readHeader_fail (by simpa using hl) .interrupted rest
  | e :: before, got, hc, hl => by
    obtain ⟨⟨bs, rfl, hne⟩, hc'⟩ := chunked_cons.1 hc
    rw [stream_data, List.length_append] at hl
    rw [List.cons_append, readHeader_data (by omega) hne (by omega)]
    apply readHeader_interrupted rest before (got ++ bs) hc'
    rw [List.length_append]
    omega

/-- **Elsewhere the loop does not see it.** -/
theorem readHeader_quiet : ∀ (src : Source) (got : Bytes), ¬ InterruptedWithin (frameHeaderBytes - got.length) src →
    readHeader got (quiet src) = ((readHeader got src).1, quiet (readHeader got src).2) := by
  intro src
  induction src with
  | nil =>
    intro got _
    by_cases h : got.length < frameHeaderBytes
    · rw [quiet_nil, readHeader_eof h (read_nil _)]
      rfl
    · rw [quiet_nil, readHeader_full (Nat.not_lt.1 h)]
      rfl
  | cons e src ih =>
    intro got hn
    by_cases h : got.length < frameHeaderBytes
    · cases e with
      | fail kind =>
        have hk : kind ≠ .interrupted := by
          rintro rfl
          exact hn (interruptedWithin_interrupted (by omega) src)
        rw [quiet_fail hk, readHeader_fail h, readHeader_fail h]
      | data bs =>
        rw [quiet_data]
        by_cases hl : bs.length ≤ frameHeaderBytes - got.length
        · by_cases hne : bs = []
          · subst hne
            have hr : ∀ src', ByteSource.read (frameHeaderBytes - got.length) (.data [] :: src') = (.ok [], src') := by
              intro src'
              rw [ByteSource.read, if_pos hl, List.take_nil]
            rw [readHeader_eof h (hr _), readHeader_eof h (hr _)]
          · rw [readHeader_data h hne hl, readHeader_data h hne hl]
            apply ih
            intro hw
            apply hn
            apply interruptedWithin_data hne
            rwa [List.length_append, Nat.sub_add_eq] at hw
        · rw [readHeader_within h (Nat.lt_of_not_le hl), readHeader_within h (Nat.lt_of_not_le hl), quiet_data]
    · rw [readHeader_full (Nat.not_lt.1 h), readHeader_full (Nat.not_lt.1 h)]

/-- The loop's transport errors are the source's. -/
theorem readHeader_io {kind : ErrorKind} : ∀ (src : Source) (got : Bytes),
    (readHeader got src).1 = .error (.io kind) → Event.fail kind ∈ src := by
  intro src
  induction src with
  | nil =>
    intro got he
    by_cases h : got.length < frameHeaderBytes
    · rw [readHeader_eof h (read_nil _)] at he
      split at he <;> cases he
    · rw [readHeader_full (Nat.not_lt.1 h)] at he
      cases he
  | cons e src ih =>
    intro got he
    by_cases h : got.length < frameHeaderBytes
    · cases e with
      | fail k =>
        rw [readHeader_fail h] at he
        cases he
        exact List.mem_cons_self
      | data bs =>
        by_cases hl : bs.length ≤ frameHeaderBytes - got.length
        · by_cases hne : bs = []
          · subst hne
            rw [readHeader_eof h (by rw [ByteSource.read, List.take_nil])] at he
            split at he <;> cases he
          · rw [readHeader_data h hne hl] at he
            exact List.mem_cons_of_mem _ (ih _ he)
        · rw [readHeader_within h (Nat.lt_of_not_le hl)] at he
          cases he
    · rw [readHeader_full (Nat.not_lt.1 h)] at he
      cases he

/-! ## The frame -/

theorem checkHeader_ne_io {header : Bytes} {kind : ErrorKind} : checkHeader header ≠ .error (.io kind) := by
  unfold checkHeader
  intro h
  split at h
  · cases h
  · split at h
    · rename_i e he
      cases h
      cases tryFrom_error he
    · split at h <;> cases h

/-- Past a header that is the same with and without the interruptions, so is everything. -/
theorem readFrame_quiet {src : Source} (h : ¬ InterruptedWithin frameHeaderBytes src) :
    readFrame (quiet src) = ((readFrame src).1, quiet (readFrame src).2) := by
  have hq := readHeader_quiet src [] (by rwa [List.length_nil, Nat.sub_zero])
  cases hr : readHeader [] src with
  | mk r src₁ =>
    rw [hr] at hq
    cases r with
    | error e => rw [readFrame_header_error hr, readFrame_header_error hq]
    | ok r =>
      cases r with
      | none => rw [readFrame_none hr, readFrame_none hq]
      | some header =>
        cases hk : checkHeader header with
        | error e => rw [readFrame_rejected hr hk, readFrame_rejected hq hk]
        | ok kind =>
          rw [readFrame_accepted hr hk, readFrame_accepted hq hk, readExact_quiet]
          cases readExact true (headerLen header) src₁ with
          | mk p src₂ =>
            cases p with
            | ok payload => rfl
            | error kind => cases kind <;> rfl

/-- Without interruptions none is reported. -/
theorem readFrame_quiet_ne (src : Source) : (readFrame (quiet src)).1 ≠ .error (.io .interrupted) := by
  intro he
  cases hr : readHeader [] (quiet src) with
  | mk r src₁ =>
    cases r with
    | error e =>
      rw [readFrame_header_error hr] at he
      apply fail_not_mem_quiet src
      apply readHeader_io (quiet src) []
      rw [hr, Except.error.inj he]
    | ok r =>
      cases r with
      | none =>
        rw [readFrame_none hr] at he
        cases he
      | some header =>
        cases hk : checkHeader header with
        | error e =>
          rw [readFrame_rejected hr hk] at he
          cases he
          exact checkHeader_ne_io hk
        | ok kind =>
          have hne := readExact_ne_interrupted src₁ (headerLen header)
          rw [readFrame_accepted hr hk] at he
          cases hp : readExact true (headerLen header) src₁ with
          | mk p src₂ =>
            rw [hp] at he hne
            cases p with
            | ok payload => cases he
            | error kind =>
              cases kind with
              | interrupted => exact hne rfl
              | _ => cases he

theorem readFrame_interrupted {src : Source} (h : InterruptedWithin frameHeaderBytes src) :
    (readFrame src).1 = .error (.io .interrupted) := by
  obtain ⟨before, rest, rfl, hc, hl⟩ := h
  rw [readFrame_header_error (readHeader_interrupted rest before [] hc (by rwa [List.length_nil, Nat.zero_add]))]

/-- **Interruptions change what `read_frame` returns exactly when one falls inside the header**: on every other script
of chunks, interruptions and errors the result is the one without them. -/
theorem readFrame_insensitive (src : Source) :
    (readFrame src).1 = (readFrame (quiet src)).1 ↔ ¬ InterruptedWithin frameHeaderBytes src := by
  constructor
  · intro heq h
    apply readFrame_quiet_ne src
    rw [← heq, readFrame_interrupted h]
  · intro h
    rw [readFrame_quiet h]

/-- Interrupted before its first byte, an empty chat frame is an error; left alone it is the frame. -/
theorem readFrame_interrupted_chat :
    (readFrame [.fail .interrupted, .data [1, 2, 0, 0, 0, 0]]).1 = .error (.io .interrupted) ∧
      (readFrame (quiet [.fail .interrupted, .data [1, 2, 0, 0, 0, 0]])).1 = .ok (some ⟨1, .chat, []⟩) ∧
      (readFrame [.fail .interrupted, .data [1, 2, 0, 0, 0, 0]]).1 ≠
        (readFrame (quiet [.fail .interrupted, .data [1, 2, 0, 0, 0, 0]])).1 := by
  have hl : (readFrame [.fail .interrupted, .data [1, 2, 0, 0, 0, 0]]).1 = .error (.io .interrupted) :=
    readFrame_interrupted (interruptedWithin_interrupted (by decide) _)
  have hq : (readFrame (quiet [.fail .interrupted, .data [1, 2, 0, 0, 0, 0]])).1 = .ok (some ⟨1, .chat, []⟩) := by
    have hc : Chunked [.data [1, 2, 0, 0, 0, 0]] := by simp [Chunked]
    obtain ⟨src, hr, -⟩ := decodes_readFrame hc
    rw [quiet_interrupted]
    show (readFrame [.data [1, 2, 0, 0, 0, 0]]).1 = _
    rw [hr]
    show (decode checkHeader .truncated [1, 2, 0, 0, 0, 0]).1 = .ok (some ⟨1, .chat, []⟩)
    decide
  refine ⟨hl, hq, ?_⟩
  rw [hl, hq]
  intro h
  cases h

end Drocsid
