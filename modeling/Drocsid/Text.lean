import Mathlib.Algebra.GroupWithZero.Nat
import Mathlib.Data.List.DropRight
import Mathlib.Data.List.Infix
/-!
# Text — strings as scalar values, addressed by UTF-8 byte offset

A string is a list of Unicode scalar values.  Its bytes are their UTF-8 encodings, and every position in it is a byte
offset: `find` returns one, and a slice at an offset that is not a character boundary has no value (`dropBytes`,
`takeBytes`).  `fromUtf8` accepts exactly the encodings (`fromUtf8_eq_some`).
-/
namespace Text

/-- A string: its Unicode scalar values, in order. -/
abbrev Str := List Char

/-- The string's bytes. -/
def toBytes (s : Str) : List UInt8 := s.flatMap String.utf8EncodeChar

/-- The string's length in bytes. -/
def byteLen (s : Str) : Nat := (s.map Char.utf8Size).sum

@[simp] theorem toBytes_nil : toBytes [] = [] := rfl

@[simp] theorem toBytes_cons (c : Char) (s : Str) : toBytes (c :: s) = String.utf8EncodeChar c ++ toBytes s := rfl

@[simp] theorem toBytes_append (s t : Str) : toBytes (s ++ t) = toBytes s ++ toBytes t := by
  simp [toBytes]

@[simp] theorem byteLen_nil : byteLen [] = 0 := rfl

@[simp] theorem byteLen_cons (c : Char) (s : Str) : byteLen (c :: s) = c.utf8Size + byteLen s := by
  simp [byteLen]

@[simp] theorem byteLen_append (s t : Str) : byteLen (s ++ t) = byteLen s + byteLen t := by
  simp [byteLen]

@[simp] theorem length_toBytes : ∀ (s : Str), (toBytes s).length = byteLen s
  | [] => rfl
  | c :: s => by rw [toBytes_cons, List.length_append, length_toBytes s, String.length_utf8EncodeChar, byteLen_cons]

theorem byteLen_eq_zero {s : Str} : byteLen s = 0 ↔ s = [] := by
  cases s with
  | nil => simp
  | cons c s => have := c.utf8Size_pos; simp only [byteLen_cons, reduceCtorEq, iff_false]; omega

/-! ## Decoding -/

/-- Decode one character per step; `fuel` bounds the characters left, which the bytes left do. -/
def fromUtf8Go : Nat → List UInt8 → Option Str
  | _, [] => some []
  | 0, _ :: _ => none
  | fuel + 1, b :: bs =>
    match ByteArray.utf8DecodeChar? (b :: bs).toByteArray 0 with
    | none => none
    | some c => (fromUtf8Go fuel ((b :: bs).drop c.utf8Size)).map (c :: ·)

/-- The string these bytes encode, when they are valid UTF-8. -/
def fromUtf8 (bs : List UInt8) : Option Str := fromUtf8Go bs.length bs

theorem encode_ne_nil (c : Char) : String.utf8EncodeChar c ≠ [] := String.utf8EncodeChar_ne_nil

theorem decodeChar_encode (c : Char) (bs : List UInt8) :
    ByteArray.utf8DecodeChar? (String.utf8EncodeChar c ++ bs).toByteArray 0 = some c := by
  rw [List.toByteArray_append]
  exact ByteArray.utf8DecodeChar?_utf8EncodeChar_append

theorem fromUtf8Go_toBytes : ∀ (s : Str) (fuel : Nat), s.length ≤ fuel → fromUtf8Go fuel (toBytes s) = some s
  | [], _, _ => by simp [fromUtf8Go]
  | c :: s, 0, h => by simp at h
  | c :: s, fuel + 1, h => by
    have hdec := decodeChar_encode c (toBytes s)
    have hdrop : (String.utf8EncodeChar c ++ toBytes s).drop c.utf8Size = toBytes s := by
      rw [← String.length_utf8EncodeChar c, List.drop_left]
    rw [toBytes_cons]
    obtain ⟨b, bs, hb⟩ := List.exists_cons_of_ne_nil (List.append_ne_nil_of_left_ne_nil (encode_ne_nil c) (toBytes s))
    rw [hb] at hdec hdrop ⊢
    simp only [fromUtf8Go, hdec, hdrop]
    rw [fromUtf8Go_toBytes s fuel (by simpa using h)]
    rfl

theorem length_le_byteLen : ∀ (s : Str), s.length ≤ byteLen s
  | [] => Nat.le_refl _
  | c :: s => by
    have := length_le_byteLen s
    have := c.utf8Size_pos
    simp only [List.length_cons, byteLen_cons]; omega

@[simp] theorem fromUtf8_toBytes (s : Str) : fromUtf8 (toBytes s) = some s :=
  fromUtf8Go_toBytes s _ (by rw [length_toBytes]; exact length_le_byteLen s)

theorem toBytes_of_fromUtf8Go : ∀ (fuel : Nat) (bs : List UInt8) (s : Str), fromUtf8Go fuel bs = some s → toBytes s = bs
  | 0, [], s, h => by simp only [fromUtf8Go, Option.some.injEq] at h; subst h; rfl
  | _ + 1, [], s, h => by simp only [fromUtf8Go, Option.some.injEq] at h; subst h; rfl
  | 0, _ :: _, s, h => by simp [fromUtf8Go] at h
  | fuel + 1, b :: bs, s, h => by
    simp only [fromUtf8Go] at h
    split at h
    · cases h
    · rename_i c hc
      obtain ⟨t, ht, rfl⟩ := Option.map_eq_some_iff.1 h
      have hrest := toBytes_of_fromUtf8Go fuel _ t ht
      have htake : String.utf8EncodeChar c = (b :: bs).take c.utf8Size := by
        have henc := congrArg (·.data.toList) (String.toByteArray_utf8EncodeChar_of_utf8DecodeChar?_eq_some hc)
        simpa using henc
      rw [toBytes_cons, hrest, htake, List.take_append_drop]

theorem fromUtf8_eq_some {bs : List UInt8} {s : Str} : fromUtf8 bs = some s ↔ toBytes s = bs := by
  refine ⟨toBytes_of_fromUtf8Go _ bs s, fun h => ?_⟩
  rw [← h, fromUtf8_toBytes]

theorem toBytes_injective {s t : Str} (h : toBytes s = toBytes t) : s = t := by
  have hs := fromUtf8_toBytes s
  rw [h, fromUtf8_toBytes] at hs
  exact (Option.some.inj hs).symm

example : fromUtf8 [0xE2, 0x82, 0xAC, 0x78] = some ['€', 'x'] := by decide

/-! ## Character classes and trimming -/

/-- Unicode `White_Space`. -/
def isWhitespace (c : Char) : Bool :=
  let v := c.toNat
  (0x09 ≤ v && v ≤ 0x0D) || v == 0x20 || v == 0x85 || v == 0xA0 || v == 0x1680 || (0x2000 ≤ v && v ≤ 0x200A) ||
    v == 0x2028 || v == 0x2029 || v == 0x202F || v == 0x205F || v == 0x3000

/-- Unicode general category `Cc`. -/
def isControl (c : Char) : Bool := c.toNat < 0x20 || (0x7F ≤ c.toNat && c.toNat ≤ 0x9F)

def trimStart (s : Str) : Str := s.dropWhile isWhitespace

def trimEnd (s : Str) : Str := s.rdropWhile isWhitespace

def trim (s : Str) : Str := trimEnd (trimStart s)

/-- The string without its trailing run of `c`. -/
def trimEndMatches (c : Char) (s : Str) : Str := s.rdropWhile (· == c)

theorem trimEnd_concat_of_whitespace (s : Str) {c : Char} (h : isWhitespace c = true) :
    trimEnd (s ++ [c]) = trimEnd s := List.rdropWhile_concat_pos _ _ _ h

theorem trimEnd_concat_of_not_whitespace (s : Str) {c : Char} (h : isWhitespace c = false) :
    trimEnd (s ++ [c]) = s ++ [c] := List.rdropWhile_concat_neg _ _ _ (by simp [h])

theorem isInfix_trim (s : Str) : trim s <:+: s :=
  (List.rdropWhile_prefix _ _).isInfix.trans (List.dropWhile_suffix _).isInfix

theorem mem_of_mem_trim {s : Str} {c : Char} (h : c ∈ trim s) : c ∈ s := (isInfix_trim s).subset h

theorem byteLen_le_of_infix {s t : Str} (h : s <:+: t) : byteLen s ≤ byteLen t := by
  obtain ⟨a, b, rfl⟩ := h
  simp only [byteLen_append]; omega

theorem byteLen_trim_le (s : Str) : byteLen (trim s) ≤ byteLen s := byteLen_le_of_infix (isInfix_trim s)

/-- A string trimmed on the left starts with something other than white space, and trimming its right end keeps that. -/
theorem head_trim {s : Str} {c : Char} (h : (trim s).head? = some c) : isWhitespace c = false := by
  have hpre : (trim s).head? = (trimStart s).head? := by
    obtain ⟨r, hr⟩ : trim s <+: trimStart s := List.rdropWhile_prefix _ _
    rw [← hr]
    cases ht : trim s with
    | nil => rw [ht] at h; cases h
    | cons d ds => rfl
  rw [hpre] at h
  have := List.head?_dropWhile_not isWhitespace s
  unfold trimStart at h
  rw [h] at this
  simpa using this

theorem trim_trim (s : Str) : trim (trim s) = trim s := by
  have hstart : trimStart (trim s) = trim s := by
    unfold trimStart
    cases ht : trim s with
    | nil => rfl
    | cons c cs =>
      have := head_trim (s := s) (c := c) (by rw [ht]; rfl)
      rw [List.dropWhile_cons_of_neg (by simp [this])]
  calc trim (trim s) = trimEnd (trim s) := by rw [trim, hstart]
    _ = trim s := List.rdropWhile_idempotent _ _

/-- A character that is not white space is left by trimming. -/
theorem mem_trim {s : Str} {c : Char} (h : c ∈ s) (hc : isWhitespace c = false) : c ∈ trim s := by
  have hstart : c ∈ trimStart s := by
    rw [← List.takeWhile_append_dropWhile (p := isWhitespace) (l := s)] at h
    refine (List.mem_append.1 h).resolve_left fun h => ?_
    rw [List.mem_takeWhile_imp h] at hc
    cases hc
  rw [← List.rdropWhile_append_rtakeWhile (p := isWhitespace) (l := trimStart s)] at hstart
  refine (List.mem_append.1 hstart).resolve_right fun h => ?_
  rw [List.mem_rtakeWhile_imp h] at hc
  cases hc

/-- **Trimming leaves what stands between two characters that are not white space.** -/
theorem trim_append {a m e : Str} (hhead : ∀ c, m.head? = some c → isWhitespace c = false)
    (hlast : ∀ c, m.getLast? = some c → isWhitespace c = false) (hm : m ≠ []) :
    trim (a ++ (m ++ e)) = trimStart a ++ (m ++ trimEnd e) := by
  obtain ⟨d, l, rfl⟩ := List.exists_cons_of_ne_nil hm
  have hd : isWhitespace d = false := hhead d rfl
  have hend : trimEnd ((trimStart a ++ d :: l) ++ e) = (trimStart a ++ d :: l) ++ trimEnd e := by
    induction e using List.reverseRecOn with
    | nil =>
      have hl := List.getLast?_eq_some_getLast (List.cons_ne_nil d l)
      rw [List.append_nil, show trimEnd [] = [] from rfl, List.append_nil]
      refine List.rdropWhile_eq_self_iff.2 fun hne => ?_
      rw [List.getLast_append_of_ne_nil _ (List.cons_ne_nil d l), hlast _ hl]
      exact Bool.false_ne_true
    | append_singleton e c ih =>
      rw [← List.append_assoc]
      cases hc : isWhitespace c with
      | true => rw [trimEnd_concat_of_whitespace _ hc, trimEnd_concat_of_whitespace _ hc, ih]
      | false => rw [trimEnd_concat_of_not_whitespace _ hc, trimEnd_concat_of_not_whitespace _ hc, List.append_assoc]
  have hstart : trimStart (a ++ (d :: l ++ e)) = trimStart a ++ (d :: l ++ e) := by
    unfold trimStart
    rw [List.dropWhile_append, List.cons_append, List.dropWhile_cons_of_neg (by simp [hd])]
    split
    · rename_i h
      rw [List.isEmpty_iff.1 h, List.nil_append]
    · rfl
  rw [trim, hstart, ← List.append_assoc, hend, List.append_assoc]

/-- The last character of a string trimmed on the left is the string's. -/
theorem getLast_trimStart {s : Str} {c : Char} (h : (trimStart s).getLast? = some c) : s.getLast? = some c := by
  obtain ⟨a, ha⟩ : trimStart s <:+ s := List.dropWhile_suffix _
  rw [← ha, List.getLast?_append, h, Option.some_or]

/-- A trimmed string ends in something other than white space. -/
theorem getLast_trim {s : Str} {c : Char} (h : (trim s).getLast? = some c) : isWhitespace c = false := by
  have hne : trim s ≠ [] := by
    intro h0
    rw [h0] at h
    cases h
  have := List.rdropWhile_last_not isWhitespace (trimStart s) hne
  rw [List.getLast?_eq_some_getLast hne] at h
  rw [← Option.some.inj h]
  exact Bool.eq_false_iff.2 this

theorem mem_trimEndMatches {s : Str} {c d : Char} (h : c ∈ s) (hc : c ≠ d) : c ∈ trimEndMatches d s := by
  rw [← List.rdropWhile_append_rtakeWhile (p := (· == d)) (l := s)] at h
  refine (List.mem_append.1 h).resolve_right fun h => hc ?_
  simpa using List.mem_rtakeWhile_imp h

/-- What stands before another character than those taken off stays. -/
theorem trimEndMatches_append {s t : Str} {c d : Char} (h : c ∈ t) (hc : c ≠ d) :
    trimEndMatches d (s ++ t) = s ++ trimEndMatches d t := by
  have hne : ¬ (t.reverse.dropWhile (· == d)).isEmpty := by
    rw [List.isEmpty_iff, List.dropWhile_eq_nil_iff]
    exact fun hall => hc (beq_iff_eq.1 (hall c (List.mem_reverse.2 h)))
  unfold trimEndMatches List.rdropWhile
  rw [List.reverse_append, List.dropWhile_append, if_neg hne, List.reverse_append, List.reverse_reverse]

/-- `to_ascii_lowercase`. -/
def toAsciiLowercase (s : Str) : Str := s.map Char.toLower

/-- `rsplit_once(c)`: what stands before and after the last `c`. -/
def rsplitOnce (c : Char) : Str → Option (Str × Str)
  | [] => none
  | d :: s =>
    match rsplitOnce c s with
    | some (before, after) => some (d :: before, after)
    | none => if d = c then some ([], s) else none

theorem rsplitOnce_eq_none {c : Char} : ∀ {s : Str}, rsplitOnce c s = none ↔ c ∉ s
  | [] => by simp [rsplitOnce]
  | d :: s => by
    have ih := rsplitOnce_eq_none (c := c) (s := s)
    unfold rsplitOnce
    split
    · rename_i h
      rw [h] at ih
      simp only [reduceCtorEq, false_iff, not_not] at ih ⊢
      exact List.mem_cons_of_mem d ih
    · rename_i h
      have hc := ih.1 h
      by_cases hd : d = c
      · simp [hd]
      · simp [hd, hc, Ne.symm hd]

theorem rsplitOnce_append {c : Char} {after : Str} (h : c ∉ after) :
    ∀ before : Str, rsplitOnce c (before ++ c :: after) = some (before, after)
  | [] => by
    rw [List.nil_append, rsplitOnce, rsplitOnce_eq_none.2 h]
    exact if_pos rfl
  | d :: before => by
    rw [List.cons_append, rsplitOnce, rsplitOnce_append h before]

/-- **`rsplitOnce` splits at the last occurrence.** -/
theorem rsplitOnce_eq_some {c : Char} {s before after : Str} :
    rsplitOnce c s = some (before, after) ↔ s = before ++ c :: after ∧ c ∉ after := by
  constructor
  · intro h
    induction s generalizing before with
    | nil => cases h
    | cons d s ih =>
      unfold rsplitOnce at h
      split at h
      · rename_i b a hs
        cases h
        obtain ⟨rfl, hc⟩ := ih hs
        exact ⟨rfl, hc⟩
      · rename_i hs
        split at h
        · rename_i hd
          cases h
          exact ⟨by rw [hd, List.nil_append], rsplitOnce_eq_none.1 hs⟩
        · cases h
  · rintro ⟨rfl, h⟩
    exact rsplitOnce_append h before

/-! ## Searching and slicing by byte offset -/

/-- The byte offset of the first occurrence of `needle`. -/
def find (needle : Str) : Str → Option Nat
  | [] => if needle.isPrefixOf [] then some 0 else none
  | c :: s => if needle.isPrefixOf (c :: s) then some 0 else (find needle s).map (· + c.utf8Size)

/-- The string from byte offset `n` on; none when `n` is past the end or inside a character. -/
def dropBytes : Str → Nat → Option Str
  | s, 0 => some s
  | [], _ + 1 => none
  | c :: s, n + 1 => if c.utf8Size ≤ n + 1 then dropBytes s (n + 1 - c.utf8Size) else none

/-- The string up to byte offset `n`; none when `n` is past the end or inside a character. -/
def takeBytes : Str → Nat → Option Str
  | _, 0 => some []
  | [], _ + 1 => none
  | c :: s, n + 1 => if c.utf8Size ≤ n + 1 then (takeBytes s (n + 1 - c.utf8Size)).map (c :: ·) else none

/-- The string between byte offsets `i` and `j`; none unless `i ≤ j` and both are character boundaries. -/
def sliceBytes (s : Str) (i j : Nat) : Option Str :=
  if i ≤ j then (dropBytes s i).bind (fun t => takeBytes t (j - i)) else none

@[simp] theorem dropBytes_zero (s : Str) : dropBytes s 0 = some s := by cases s <;> rfl

@[simp] theorem takeBytes_zero (s : Str) : takeBytes s 0 = some [] := by cases s <;> rfl

theorem dropBytes_cons (c : Char) (s : Str) (n : Nat) : dropBytes (c :: s) (c.utf8Size + n) = dropBytes s n := by
  obtain ⟨k, hk⟩ := Nat.exists_eq_succ_of_ne_zero (Nat.ne_of_gt c.utf8Size_pos)
  rw [show c.utf8Size + n = (k + n) + 1 by omega, dropBytes, if_pos (by omega)]
  congr 1; omega

theorem takeBytes_cons (c : Char) (s : Str) (n : Nat) :
    takeBytes (c :: s) (c.utf8Size + n) = (takeBytes s n).map (c :: ·) := by
  obtain ⟨k, hk⟩ := Nat.exists_eq_succ_of_ne_zero (Nat.ne_of_gt c.utf8Size_pos)
  rw [show c.utf8Size + n = (k + n) + 1 by omega, takeBytes, if_pos (by omega)]
  congr 2; omega

@[simp] theorem dropBytes_append : ∀ (a b : Str), dropBytes (a ++ b) (byteLen a) = some b
  | [], b => by simp
  | c :: a, b => by rw [List.cons_append, byteLen_cons, dropBytes_cons, dropBytes_append a b]

@[simp] theorem takeBytes_append : ∀ (a b : Str), takeBytes (a ++ b) (byteLen a) = some a
  | [], b => by simp
  | c :: a, b => by rw [List.cons_append, byteLen_cons, takeBytes_cons, takeBytes_append a b]; rfl

theorem sliceBytes_append (a b r : Str) : sliceBytes (a ++ (b ++ r)) (byteLen a) (byteLen a + byteLen b) = some b := by
  rw [sliceBytes, if_pos (by omega), dropBytes_append, Option.bind_some, Nat.add_sub_cancel_left, takeBytes_append]

/-- **A slice from a boundary splits the string there.** -/
theorem dropBytes_eq_some : ∀ {s : Str} {n : Nat} {t : Str}, dropBytes s n = some t ↔ ∃ a, s = a ++ t ∧ byteLen a = n
  | s, 0, t => by
    rw [dropBytes_zero]
    constructor
    · intro h; exact ⟨[], by simpa using h, rfl⟩
    · rintro ⟨a, rfl, ha⟩; rw [byteLen_eq_zero.1 ha]; rfl
  | [], n + 1, t => by
    simp only [dropBytes, reduceCtorEq, false_iff]
    rintro ⟨a, h, ha⟩
    obtain ⟨rfl, -⟩ := List.nil_eq_append_iff.1 h
    simp at ha
  | c :: s, n + 1, t => by
    unfold dropBytes
    split
    · rename_i hle
      rw [dropBytes_eq_some]
      constructor
      · rintro ⟨a, rfl, ha⟩
        exact ⟨c :: a, rfl, by rw [byteLen_cons]; omega⟩
      · rintro ⟨a, h, ha⟩
        cases a with
        | nil => simp at ha
        | cons d a =>
          simp only [List.cons_append, List.cons.injEq] at h
          obtain ⟨rfl, rfl⟩ := h
          exact ⟨a, rfl, by rw [byteLen_cons] at ha; omega⟩
    · rename_i hle
      simp only [reduceCtorEq, false_iff]
      rintro ⟨a, h, ha⟩
      cases a with
      | nil => simp at ha
      | cons d a =>
        simp only [List.cons_append, List.cons.injEq] at h
        obtain ⟨rfl, rfl⟩ := h
        rw [byteLen_cons] at ha; omega

/-- The needle occurs in the string at byte offset `i`. -/
def OccursAt (needle s : Str) (i : Nat) : Prop := ∃ a b, s = a ++ (needle ++ b) ∧ byteLen a = i

theorem occursAt_zero {needle s : Str} : OccursAt needle s 0 ↔ needle <+: s := by
  constructor
  · rintro ⟨a, b, rfl, ha⟩
    rw [byteLen_eq_zero.1 ha]; exact List.prefix_append _ _
  · rintro ⟨b, rfl⟩; exact ⟨[], b, rfl, rfl⟩

theorem occursAt_cons {needle s : Str} {c : Char} {i : Nat} :
    OccursAt needle (c :: s) (i + c.utf8Size) ↔ OccursAt needle s i := by
  have hc := c.utf8Size_pos
  constructor
  · rintro ⟨a, b, h, ha⟩
    cases a with
    | nil => simp only [byteLen_nil] at ha; omega
    | cons d a =>
      simp only [List.cons_append, List.cons.injEq] at h
      obtain ⟨rfl, rfl⟩ := h
      exact ⟨a, b, rfl, by rw [byteLen_cons] at ha; omega⟩
  · rintro ⟨a, b, rfl, rfl⟩
    exact ⟨c :: a, b, rfl, by rw [byteLen_cons, Nat.add_comm]⟩

theorem occursAt_cons_inv {needle s : Str} {c : Char} {i : Nat} (h : OccursAt needle (c :: s) i) (hi : i ≠ 0) :
    ∃ j, i = j + c.utf8Size ∧ OccursAt needle s j := by
  obtain ⟨a, b, hs, rfl⟩ := h
  cases a with
  | nil => simp at hi
  | cons d a =>
    simp only [List.cons_append, List.cons.injEq] at hs
    obtain ⟨rfl, rfl⟩ := hs
    exact ⟨byteLen a, by rw [byteLen_cons, Nat.add_comm], a, b, rfl, rfl⟩

/-- **`find` returns the first occurrence.** -/
theorem find_eq_some {needle : Str} : ∀ {s : Str} {i : Nat},
    find needle s = some i ↔ OccursAt needle s i ∧ ∀ j, j < i → ¬ OccursAt needle s j
  | [], i => by
    unfold find
    cases needle with
    | nil =>
      simp only [List.isPrefixOf_nil_left, if_true, Option.some.injEq]
      constructor
      · rintro rfl; exact ⟨occursAt_zero.2 (List.nil_prefix), fun j hj => by omega⟩
      · rintro ⟨⟨a, b, h, rfl⟩, -⟩
        obtain ⟨rfl, -⟩ := List.nil_eq_append_iff.1 h; rfl
    | cons c cs =>
      simp only [List.isPrefixOf_cons_nil, Bool.false_eq_true, if_false, reduceCtorEq, false_iff, not_and]
      rintro ⟨a, b, h, -⟩
      simp at h
  | c :: s, i => by
    unfold find
    split
    · rename_i hp
      have h0 : OccursAt needle (c :: s) 0 := occursAt_zero.2 (List.isPrefixOf_iff_prefix.1 hp)
      simp only [Option.some.injEq]
      constructor
      · rintro rfl; exact ⟨h0, fun j hj => by omega⟩
      · rintro ⟨-, h⟩
        by_cases hi : i = 0
        · exact hi.symm
        · exact absurd h0 (h 0 (by omega))
    · rename_i hp
      have h0 : ¬ OccursAt needle (c :: s) 0 := fun h => hp (List.isPrefixOf_iff_prefix.2 (occursAt_zero.1 h))
      simp only [Option.map_eq_some_iff, find_eq_some]
      constructor
      · rintro ⟨k, ⟨hk, hmin⟩, rfl⟩
        refine ⟨occursAt_cons.2 hk, fun j hj hocc => ?_⟩
        by_cases hj0 : j = 0
        · subst hj0; exact h0 hocc
        · obtain ⟨l, rfl, hl⟩ := occursAt_cons_inv hocc hj0
          exact hmin l (by omega) hl
      · rintro ⟨hocc, hmin⟩
        have hi : i ≠ 0 := fun h => h0 (h ▸ hocc)
        obtain ⟨k, rfl, hk⟩ := occursAt_cons_inv hocc hi
        exact ⟨k, ⟨hk, fun j hj hl => hmin (j + c.utf8Size) (by omega) (occursAt_cons.2 hl)⟩, rfl⟩

/-- The needle occurs somewhere. -/
theorem exists_occursAt {needle s : Str} : (∃ i, OccursAt needle s i) ↔ needle <:+: s := by
  constructor
  · rintro ⟨i, a, b, rfl, -⟩; exact ⟨a, b, by simp⟩
  · rintro ⟨a, b, rfl⟩; exact ⟨byteLen a, a, b, by simp, rfl⟩

theorem find_eq_none {needle s : Str} : find needle s = none ↔ ¬ needle <:+: s := by
  rw [← exists_occursAt]
  constructor
  · intro h ⟨i, hi⟩
    induction i using Nat.strong_induction_on with
    | _ i ih =>
      by_cases hex : ∃ j, j < i ∧ OccursAt needle s j
      · obtain ⟨j, hj, hocc⟩ := hex
        exact ih j hj hocc
      · have := find_eq_some.2 ⟨hi, fun j hj hocc => hex ⟨j, hj, hocc⟩⟩
        rw [h] at this; cases this
  · intro h
    cases hf : find needle s with
    | none => rfl
    | some i => exact absurd ⟨i, (find_eq_some.1 hf).1⟩ h

/-- **The first occurrence splits the string.** -/
theorem find_split {needle s : Str} {i : Nat} (h : find needle s = some i) :
    ∃ a b, s = a ++ (needle ++ b) ∧ byteLen a = i := (find_eq_some.1 h).1

theorem append_inj_of_byteLen {a x b y : Str} (h : a ++ b = x ++ y) (hl : byteLen x ≤ byteLen a) :
    ∃ r, a = x ++ r ∧ y = r ++ b := by
  rcases List.append_eq_append_iff.1 h with ⟨r, rfl, rfl⟩ | ⟨r, rfl, rfl⟩
  · rw [byteLen_append] at hl
    obtain rfl : r = [] := byteLen_eq_zero.1 (by omega)
    exact ⟨[], by simp, by simp⟩
  · exact ⟨r, rfl, rfl⟩

/-- **A needle is found where it was put** unless it already occurs before its last character there: an earlier
occurrence may straddle the joint, but it ends before the needle put there does. -/
theorem find_append {a needle b : Str} (h : ¬ needle <:+: a ++ needle.dropLast) :
    find needle (a ++ (needle ++ b)) = some (byteLen a) := by
  refine find_eq_some.2 ⟨⟨a, b, rfl, rfl⟩, ?_⟩
  rintro j hj ⟨x, y, hs, rfl⟩
  apply h
  obtain ⟨r, rfl, hr⟩ := append_inj_of_byteLen hs (Nat.le_of_lt hj)
  have hne : r ≠ [] := by rintro rfl; simp at hj
  -- `needle` is a prefix of `r ++ needle.dropLast`, which is at least as long
  have hlen : needle.length ≤ (r ++ needle.dropLast).length := by
    have := List.length_pos_of_ne_nil hne
    rw [List.length_append, List.length_dropLast]; omega
  have hpre : needle <+: r ++ needle.dropLast := by
    refine List.prefix_of_prefix_length_le (List.prefix_append needle y) ?_ hlen
    rw [hr, ← List.append_assoc]
    exact ((List.prefix_append_right_inj r).2 (List.dropLast_prefix needle)).trans (List.prefix_append _ _)
  rw [List.append_assoc]
  exact hpre.isInfix.trans (List.suffix_append x _).isInfix

/-- The first occurrence comes no later than the one put there; `rest` stands between their ends. -/
theorem find_append_le {a needle b : Str} {i : Nat} (hn : needle ≠ []) (h : find needle (a ++ (needle ++ b)) = some i) :
    ∃ first rest, a ++ needle = first ++ needle ++ rest ∧ byteLen first = i ∧
      (rest = [] ∨ rest.getLast? = needle.getLast?) := by
  obtain ⟨⟨x, y, hs, rfl⟩, hmin⟩ := find_eq_some.1 h
  have hle : byteLen x ≤ byteLen a := by
    by_contra hgt
    exact hmin _ (Nat.lt_of_not_le hgt) ⟨a, b, rfl, rfl⟩
  have hlen : byteLen (x ++ needle) ≤ byteLen (a ++ needle) := by simp only [byteLen_append]; omega
  rw [← List.append_assoc, ← List.append_assoc] at hs
  obtain ⟨rest, hrest, -⟩ := append_inj_of_byteLen hs hlen
  refine ⟨x, rest, hrest, rfl, ?_⟩
  by_cases hr : rest = []
  · exact Or.inl hr
  · have hlast := congrArg List.getLast? hrest
    rw [List.getLast?_append_of_ne_nil _ hn, List.getLast?_append_of_ne_nil _ hr] at hlast
    exact Or.inr hlast.symm

end Text
