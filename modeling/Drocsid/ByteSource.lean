import Mathlib.Data.List.Basic
/-!
# ByteSource — a transport as the outcomes its reads meet

A source is the list of what a reader will be handed: chunks of bytes, and errors between them; its end is the end of
the file.  `read` takes at most one chunk's worth; `readExact` is the libraries' loop over it, which reports a short
read and, in the blocking library only, retries an interrupted one.  On a source that is chunked (non-empty chunks, no
errors) both depend on the bytes alone (`read_chunked`, `readExact_chunked`, `readExact_short`).
-/
namespace ByteSource

/-- `std::io::ErrorKind`, as far as readers tell kinds apart. -/
inductive ErrorKind
  | unexpectedEof | interrupted | timedOut | invalidInput | brokenPipe | connectionAborted | connectionReset
  | other (code : Nat)
  deriving DecidableEq, Repr

inductive Event
  | data (bytes : List UInt8)
  | fail (kind : ErrorKind)
  deriving DecidableEq, Repr

abbrev Source := List Event

/-- One read into a buffer of `n` bytes: the bytes read, none of them at the end of the file. -/
def read (n : Nat) : Source → Except ErrorKind (List UInt8) × Source
  | [] => (.ok [], [])
  | .data bs :: src => (.ok (bs.take n), if bs.length ≤ n then src else .data (bs.drop n) :: src)
  | .fail kind :: src => (.error kind, src)

@[simp] theorem read_nil (n : Nat) : read n [] = (.ok [], []) := rfl

theorem length_read_fail {n : Nat} {src src' : Source} {kind : ErrorKind} (h : read n src = (.error kind, src')) :
    src'.length < src.length := by
  cases src with
  | nil => cases h
  | cons e src =>
    cases e with
    | data bs => cases h
    | fail k => cases h; simp

/-- `read_exact` into a buffer of `n` bytes; `retry` is whether an interrupted read is tried again. -/
def readExact (retry : Bool) (n : Nat) (src : Source) : Except ErrorKind (List UInt8) × Source :=
  if n = 0 then (.ok [], src)
  else match _h : read n src with
    | (.ok [], src') => (.error .unexpectedEof, src')
    | (.ok (b :: bs), src') =>
      match readExact retry (n - (b :: bs).length) src' with
      | (.ok rest, src'') => (.ok (b :: bs ++ rest), src'')
      | (.error kind, src'') => (.error kind, src'')
    | (.error kind, src') => if retry ∧ kind = .interrupted then readExact retry n src' else (.error kind, src')
termination_by (n, src.length)
decreasing_by
  · exact Prod.Lex.left _ _ (by simp only [List.length_cons]; omega)
  · exact Prod.Lex.right _ (length_read_fail _h)

/-- The bytes of a source. -/
def stream (src : Source) : List UInt8 :=
  src.flatMap (fun e => match e with | .data bs => bs | .fail _ => [])

/-- A read takes bytes off the front of the stream, whatever errors it meets. -/
theorem stream_read {n : Nat} {src src' : Source} {bs : List UInt8} (h : read n src = (.ok bs, src')) :
    stream src = bs ++ stream src' := by
  cases src with
  | nil => cases h; rfl
  | cons e src =>
    cases e with
    | fail kind => cases h
    | data chunk =>
      simp only [read, Prod.mk.injEq, Except.ok.injEq] at h
      obtain ⟨rfl, rfl⟩ := h
      show chunk ++ stream src = _
      split
      · rename_i hle; rw [List.take_of_length_le hle]
      · show _ = chunk.take n ++ (chunk.drop n ++ stream src)
        rw [← List.append_assoc, List.take_append_drop]

theorem stream_read_fail {n : Nat} {src src' : Source} {kind : ErrorKind} (h : read n src = (.error kind, src')) :
    stream src = stream src' := by
  cases src with
  | nil => cases h
  | cons e src =>
    cases e with
    | data bs => cases h
    | fail k => cases h; rfl

theorem length_read {n : Nat} {src src' : Source} {bs : List UInt8} (h : read n src = (.ok bs, src')) :
    bs.length ≤ n := by
  cases src with
  | nil => cases h; exact Nat.zero_le n
  | cons e src =>
    cases e with
    | fail kind => cases h
    | data chunk => cases h; exact List.length_take_le n chunk

/-- Only non-empty chunks: no errors, and no chunk that reads as the end of the file. -/
def Chunked (src : Source) : Prop := ∀ e ∈ src, ∃ bs, e = .data bs ∧ bs ≠ []

@[simp] theorem stream_nil : stream [] = [] := rfl

@[simp] theorem stream_data (bs : List UInt8) (src : Source) : stream (.data bs :: src) = bs ++ stream src := by
  simp [stream]

theorem chunked_nil : Chunked [] := fun e he => by cases he

theorem chunked_cons {e : Event} {src : Source} : Chunked (e :: src) ↔ (∃ bs, e = .data bs ∧ bs ≠ []) ∧
    Chunked src := by
  simp [Chunked]

/-- **A read of a chunked source** takes a non-empty prefix of its bytes, unless it is at its end. -/
theorem read_chunked {n : Nat} {src : Source} (hn : 0 < n) (hc : Chunked src) :
    ∃ bs src', read n src = (.ok bs, src') ∧ stream src = bs ++ stream src' ∧ bs.length ≤ n ∧ Chunked src' ∧
      (bs = [] → src = []) := by
  cases src with
  | nil => exact ⟨[], [], rfl, rfl, Nat.zero_le _, chunked_nil, fun _ => rfl⟩
  | cons e src =>
    obtain ⟨⟨bs, rfl, hne⟩, hc'⟩ := chunked_cons.1 hc
    have hempty : bs.take n = [] → (Event.data bs :: src) = [] := fun h => by
      rcases List.take_eq_nil_iff.1 h with h | h
      · omega
      · exact absurd h hne
    by_cases hl : bs.length ≤ n
    · refine ⟨bs.take n, src, by simp [read, hl], ?_, List.length_take_le n bs, hc', hempty⟩
      rw [stream_data, List.take_of_length_le hl]
    · refine ⟨bs.take n, .data (bs.drop n) :: src, by simp [read, hl], ?_, List.length_take_le n bs,
        chunked_cons.2 ⟨⟨_, rfl, by simp; omega⟩, hc'⟩, hempty⟩
      rw [stream_data, stream_data, ← List.append_assoc, List.take_append_drop]

theorem readExact_zero (retry : Bool) (src : Source) : readExact retry 0 src = (.ok [], src) := by rw [readExact]; simp

/-- One turn of the loop, by what its read returned. -/
theorem readExact_eq {retry : Bool} {n : Nat} {src : Source} (h0 : n ≠ 0) : readExact retry n src =
    match read n src with
    | (.ok [], src') => (.error .unexpectedEof, src')
    | (.ok (b :: bs), src') =>
      match readExact retry (n - (b :: bs).length) src' with
      | (.ok rest, src'') => (.ok (b :: bs ++ rest), src'')
      | (.error kind, src'') => (.error kind, src'')
    | (.error kind, src') =>
      if retry ∧ kind = .interrupted then readExact retry n src' else (.error kind, src') := by
  rw [readExact, if_neg h0]
  split <;> rename_i hr <;> rw [hr]

/-- **`readExact` takes its bytes off the front of the stream.** -/
theorem stream_readExact {retry : Bool} {n : Nat} {src src' : Source} {bs : List UInt8}
    (h : readExact retry n src = (.ok bs, src')) : stream src = bs ++ stream src' := by
  induction n, src using readExact.induct retry generalizing bs src' with
  | case1 src => rw [readExact_zero] at h; cases h; rfl
  | case2 n src hn src₁ hr => rw [readExact_eq hn, hr] at h; cases h
  | case3 n src hn b bs₁ src₁ hr rest src₂ hrest ih =>
    rw [readExact_eq hn, hr] at h
    simp only [hrest] at h
    cases h
    rw [stream_read hr, ih hrest, List.append_assoc]
  | case4 n src hn b bs₁ src₁ hr kind src₂ hrest =>
    rw [readExact_eq hn, hr] at h
    simp only [hrest] at h
    cases h
  | case5 n src hn kind src₁ hr hretry ih =>
    rw [readExact_eq hn, hr] at h
    simp only [if_pos hretry] at h
    rw [stream_read_fail hr, ih h]
  | case6 n src hn kind src₁ hr hretry =>
    rw [readExact_eq hn, hr] at h
    simp only [if_neg hretry] at h
    cases h

/-- **`readExact` returns as many bytes as it was asked for.** -/
theorem length_readExact {retry : Bool} {n : Nat} {src src' : Source} {bs : List UInt8}
    (h : readExact retry n src = (.ok bs, src')) : bs.length = n := by
  induction n, src using readExact.induct retry generalizing bs src' with
  | case1 src => rw [readExact_zero] at h; cases h; rfl
  | case2 n src hn src₁ hr => rw [readExact_eq hn, hr] at h; cases h
  | case3 n src hn b bs₁ src₁ hr rest src₂ hrest ih =>
    rw [readExact_eq hn, hr] at h
    simp only [hrest] at h
    cases h
    have hle := length_read hr
    rw [List.length_append, ih hrest]
    omega
  | case4 n src hn b bs₁ src₁ hr kind src₂ hrest =>
    rw [readExact_eq hn, hr] at h
    simp only [hrest] at h
    cases h
  | case5 n src hn kind src₁ hr hretry ih =>
    rw [readExact_eq hn, hr] at h
    simp only [if_pos hretry] at h
    exact ih h
  | case6 n src hn kind src₁ hr hretry =>
    rw [readExact_eq hn, hr] at h
    simp only [if_neg hretry] at h
    cases h

theorem stream_eq_nil {src : Source} (hc : Chunked src) : stream src = [] ↔ src = [] := by
  cases src with
  | nil => simp
  | cons e src =>
    obtain ⟨⟨bs, rfl, hne⟩, -⟩ := chunked_cons.1 hc
    simp [hne]

/-- **`readExact` on enough bytes** returns the first `n` of them. -/
theorem readExact_chunked (retry : Bool) : ∀ (n : Nat) {src : Source}, Chunked src → n ≤ (stream src).length →
    ∃ src', readExact retry n src = (.ok ((stream src).take n), src') ∧ stream src' = (stream src).drop n ∧
      Chunked src' := by
  intro n
  induction n using Nat.strongRecOn with
  | ind n ih =>
    intro src hc hn
    by_cases h0 : n = 0
    · subst h0; exact ⟨src, by rw [readExact_zero]; rfl, rfl, hc⟩
    · obtain ⟨bs, src₁, hr, hs, hl, hc₁, hnil⟩ := read_chunked (Nat.pos_of_ne_zero h0) hc
      cases bs with
      | nil => rw [hnil rfl] at hn; simp at hn; exact absurd hn h0
      | cons b bs =>
        rw [hs, List.length_append] at hn
        obtain ⟨src₂, h2, hs2, hc2⟩ := ih (n - (b :: bs).length) (by simp only [List.length_cons]; omega) hc₁ (by omega)
        refine ⟨src₂, ?_, ?_, hc2⟩
        · simp only [readExact_eq h0, hr, h2, hs]
          rw [List.take_append, List.take_of_length_le hl]
        · rw [hs2, hs, List.drop_append, List.drop_eq_nil_of_le hl]; rfl

/-- **`readExact` on too few bytes** is a short read, to the end of the source. -/
theorem readExact_short (retry : Bool) : ∀ (n : Nat) {src : Source}, Chunked src → (stream src).length < n →
    readExact retry n src = (.error .unexpectedEof, []) := by
  intro n
  induction n using Nat.strongRecOn with
  | ind n ih =>
    intro src hc hn
    have h0 : n ≠ 0 := by omega
    obtain ⟨bs, src₁, hr, hs, hl, hc₁, hnil⟩ := read_chunked (Nat.pos_of_ne_zero h0) hc
    cases bs with
    | nil =>
      obtain rfl := hnil rfl
      cases hr
      rw [readExact_eq h0]
      rfl
    | cons b bs =>
      rw [hs, List.length_append] at hn
      have h2 := ih (n - (b :: bs).length) (by simp only [List.length_cons]; omega) hc₁ (by omega)
      simp only [readExact_eq h0, hr, h2]

/-! ## Interrupted reads -/

/-- The source without its interruptions. -/
def quiet (src : Source) : Source := src.filter (fun e => decide (e ≠ .fail .interrupted))

@[simp] theorem quiet_nil : quiet [] = [] := rfl

@[simp] theorem quiet_data (bs : List UInt8) (src : Source) : quiet (.data bs :: src) = .data bs :: quiet src := rfl

@[simp] theorem quiet_interrupted (src : Source) : quiet (.fail .interrupted :: src) = quiet src := rfl

theorem quiet_fail {kind : ErrorKind} (h : kind ≠ .interrupted) (src : Source) :
    quiet (.fail kind :: src) = .fail kind :: quiet src := by
  unfold quiet
  rw [List.filter_cons_of_pos (by simpa using h)]

theorem fail_not_mem_quiet (src : Source) : Event.fail .interrupted ∉ quiet src := by
  intro h
  simpa using (List.mem_filter.1 h).2

/-- One turn of the retrying loop at an interruption. -/
theorem readExact_interrupted {n : Nat} (h0 : n ≠ 0) (src : Source) :
    readExact true n (.fail .interrupted :: src) = readExact true n src := by
  rw [readExact_eq h0]
  exact if_pos ⟨rfl, rfl⟩

theorem readExact_fail {retry : Bool} {n : Nat} {kind : ErrorKind} (h0 : n ≠ 0) (h : kind ≠ .interrupted)
    (src : Source) : readExact retry n (.fail kind :: src) = (.error kind, src) := by
  rw [readExact_eq h0]
  exact if_neg (fun hk => h hk.2)

/-- A chunk that does not fill the buffer is taken whole. -/
theorem readExact_data {retry : Bool} {n : Nat} {b : UInt8} {bs : List UInt8} (hl : (b :: bs).length ≤ n)
    (src : Source) : readExact retry n (.data (b :: bs) :: src) =
      match readExact retry (n - (b :: bs).length) src with
      | (.ok rest, src') => (.ok (b :: bs ++ rest), src')
      | (.error kind, src') => (.error kind, src') := by
  have h0 : n ≠ 0 := by
    rw [List.length_cons] at hl
    omega
  have hread : read n (.data (b :: bs) :: src) = (.ok (b :: bs), src) := by
    rw [read, List.take_of_length_le hl, if_pos hl]
  rw [readExact_eq h0, hread]

/-- A longer chunk fills it. -/
theorem readExact_within {retry : Bool} {n : Nat} {bs : List UInt8} (hl : n ≤ bs.length) (h0 : n ≠ 0) (src : Source) :
    readExact retry n (.data bs :: src) =
      (.ok (bs.take n), if bs.length ≤ n then src else .data (bs.drop n) :: src) := by
  cases ht : bs.take n with
  | nil =>
    rcases List.take_eq_nil_iff.1 ht with h | h
    · exact absurd h h0
    · subst h
      exact absurd (Nat.le_zero.1 hl) h0
  | cons b rest =>
    have hlen : (b :: rest).length = n := by rw [← ht, List.length_take, Nat.min_eq_left hl]
    rw [readExact_eq h0]
    simp only [read, ht, hlen, Nat.sub_self, readExact_zero, List.append_nil]

/-- **A retrying `readExact` does not see interruptions**: what it returns, and what it leaves. -/
theorem readExact_quiet : ∀ (src : Source) (n : Nat),
    readExact true n (quiet src) = ((readExact true n src).1, quiet (readExact true n src).2)
  | src, 0 => by rw [readExact_zero, readExact_zero]
  | [], n + 1 => by
    rw [quiet_nil, readExact_eq (Nat.succ_ne_zero n)]
    rfl
  | .fail kind :: src, n + 1 => by
    by_cases hk : kind = .interrupted
    · subst hk
      rw [quiet_interrupted, readExact_interrupted (Nat.succ_ne_zero n)]
      exact readExact_quiet src (n + 1)
    · rw [quiet_fail hk, readExact_fail (Nat.succ_ne_zero n) hk, readExact_fail (Nat.succ_ne_zero n) hk]
  | .data bs :: src, n + 1 => by
    rw [quiet_data]
    by_cases hl : n + 1 ≤ bs.length
    · rw [readExact_within hl (Nat.succ_ne_zero n), readExact_within hl (Nat.succ_ne_zero n)]
      split <;> rfl
    · cases bs with
      | nil =>
        rw [readExact_eq (Nat.succ_ne_zero n), readExact_eq (Nat.succ_ne_zero n)]
        rfl
      | cons b bs =>
        have hle : (b :: bs).length ≤ n + 1 := by omega
        rw [readExact_data hle, readExact_data hle, readExact_quiet src]
        cases readExact true (n + 1 - (b :: bs).length) src with
        | mk r src' =>
          cases r with
          | ok rest => rfl
          | error kind => rfl

/-- Nor does it report one. -/
theorem readExact_ne_interrupted : ∀ (src : Source) (n : Nat), (readExact true n src).1 ≠ .error .interrupted
  | src, 0 => by
    rw [readExact_zero]
    intro h
    cases h
  | [], n + 1 => by
    rw [readExact_eq (Nat.succ_ne_zero n)]
    intro h
    cases h
  | .fail kind :: src, n + 1 => by
    by_cases hk : kind = .interrupted
    · subst hk
      rw [readExact_interrupted (Nat.succ_ne_zero n)]
      exact readExact_ne_interrupted src (n + 1)
    · rw [readExact_fail (Nat.succ_ne_zero n) hk]
      intro h
      exact hk (Except.error.inj h)
  | .data bs :: src, n + 1 => by
    by_cases hl : n + 1 ≤ bs.length
    · rw [readExact_within hl (Nat.succ_ne_zero n)]
      intro h
      cases h
    · cases bs with
      | nil =>
        rw [readExact_eq (Nat.succ_ne_zero n)]
        intro h
        cases h
      | cons b bs =>
        have ih := readExact_ne_interrupted src (n + 1 - (b :: bs).length)
        rw [readExact_data (by omega)]
        cases hr : readExact true (n + 1 - (b :: bs).length) src with
        | mk r src' =>
          rw [hr] at ih
          cases r with
          | ok rest =>
            intro h
            cases h
          | error kind => exact ih

end ByteSource
