import Mathlib.Data.List.Basic
/-!
# Matches — the matches of a needle that a scan without overlaps takes

A scan takes the first occurrence, goes on after its end, and so on (`Match`).  An occurrence it does not take begins
inside one it takes (`match_or_inside`), and one it takes never does (`Match.not_inside`).
-/
namespace Matches

variable {α : Type} {needle : List α}

/-- No occurrence comes before the one after `x`. -/
def Leftmost (needle x y : List α) : Prop :=
  ∀ x' y', x ++ (needle ++ y) = x' ++ (needle ++ y') → x.length ≤ x'.length

/-- `Match needle text before after`: the scan of `text` takes the occurrence between `before` and `after`. -/
inductive Match (needle : List α) : List α → List α → List α → Prop
  | first {x y : List α} : Leftmost needle x y → Match needle (x ++ (needle ++ y)) x y
  | later {x y before after : List α} : Leftmost needle x y → Match needle y before after →
      Match needle (x ++ (needle ++ y)) (x ++ (needle ++ before)) after

/-- What comes after `x` begins inside a match. -/
def Inside (needle text x : List α) : Prop :=
  ∃ before after, Match needle text before after ∧ before.length < x.length ∧
    x.length < before.length + needle.length

/-- Two splits of a text at the same length are one. -/
theorem split_unique {x x' y y' : List α} (h : x ++ (needle ++ y) = x' ++ (needle ++ y')) (hl : x.length = x'.length) :
    x = x' ∧ y = y' := by
  obtain ⟨hx, hy⟩ := List.append_inj h hl
  exact ⟨hx, List.append_cancel_left hy⟩

theorem exists_leftmost {text : List α} (h : needle <:+: text) :
    ∃ x y, text = x ++ (needle ++ y) ∧ Leftmost needle x y := by
  obtain ⟨x, y, hxy⟩ := h
  rw [List.append_assoc] at hxy
  induction hn : x.length using Nat.strongRecOn generalizing x y with
  | ind n ih =>
    by_cases hex : ∃ x' y', x ++ (needle ++ y) = x' ++ (needle ++ y') ∧ x'.length < x.length
    · obtain ⟨x', y', he, hl⟩ := hex
      exact ih x'.length (hn ▸ hl) x' y' (by rw [← he, hxy]) rfl
    · refine ⟨x, y, hxy.symm, ?_⟩
      intro x' y' he
      by_contra hlt
      exact hex ⟨x', y', he, Nat.lt_of_not_le hlt⟩

theorem Match.occurs {text before after : List α} (m : Match needle text before after) :
    text = before ++ (needle ++ after) := by
  induction m with
  | first h => rfl
  | later h m ih =>
    rw [ih]
    simp only [List.append_assoc]

/-- **A match of a text is its first occurrence, or a match of what follows that.** -/
theorem Match.inv {text before after : List α} (m : Match needle text before after) {x y : List α}
    (ht : text = x ++ (needle ++ y)) (hl : Leftmost needle x y) :
    before = x ∧ after = y ∨ ∃ before', before = x ++ (needle ++ before') ∧ Match needle y before' after := by
  cases m with
  | first h =>
    have hlen := Nat.le_antisymm (h x y ht) (hl before after ht.symm)
    exact Or.inl (split_unique ht hlen)
  | @later x' y' before' _ h m =>
    have hlen := Nat.le_antisymm (h x y ht) (hl x' y' ht.symm)
    obtain ⟨rfl, rfl⟩ := split_unique ht hlen
    exact Or.inr ⟨before', rfl, m⟩

/-- Beginning inside a match of what follows the first occurrence. -/
theorem Inside.later {x y z : List α} (hl : Leftmost needle x y) (h : Inside needle y z) :
    Inside needle (x ++ (needle ++ y)) (x ++ (needle ++ z)) := by
  obtain ⟨before, after, m, hlt, hgt⟩ := h
  refine ⟨_, after, .later hl m, ?_, ?_⟩
  · simp only [List.length_append]
    omega
  · simp only [List.length_append]
    omega

/-- **An occurrence is taken, or begins inside one that is.** -/
theorem match_or_inside (hn : needle ≠ []) {text x y : List α} (h : text = x ++ (needle ++ y)) :
    Match needle text x y ∨ Inside needle text x := by
  have hpos : 0 < needle.length := List.length_pos_of_ne_nil hn
  induction hlen : text.length using Nat.strongRecOn generalizing text x y with
  | ind n ih =>
    have hin : needle <:+: text := ⟨x, y, by rw [h, List.append_assoc]⟩
    obtain ⟨x₀, y₀, ht, hl⟩ := exists_leftmost hin
    subst ht
    have hle : x₀.length ≤ x.length := hl x y h
    by_cases heq : x₀.length = x.length
    · obtain ⟨rfl, rfl⟩ := split_unique h heq
      exact Or.inl (.first hl)
    · by_cases hin : x.length < x₀.length + needle.length
      · exact Or.inr ⟨x₀, y₀, .first hl, by omega, hin⟩
      · -- the occurrence is past the first one's end
        have hsplit : (x₀ ++ needle) ++ y₀ = x ++ (needle ++ y) := by rw [List.append_assoc, h]
        obtain ⟨z, hx, hy⟩ : ∃ z, x = (x₀ ++ needle) ++ z ∧ y₀ = z ++ (needle ++ y) := by
          rcases List.append_eq_append_iff.1 hsplit with ⟨z, hx, hy⟩ | ⟨z, hx, hy⟩
          · exact ⟨z, hx, hy⟩
          · have := congrArg List.length hx
            simp only [List.length_append] at this
            obtain rfl : z = [] := List.eq_nil_of_length_eq_zero (by omega)
            exact ⟨[], by rw [List.append_nil, hx, List.append_nil], by simpa using hy.symm⟩
        rw [List.append_assoc] at hx
        subst hx
        rcases ih y₀.length (by simp only [List.length_append] at hlen; omega) hy rfl with m | hi
        · exact Or.inl (.later hl m)
        · exact Or.inr (hi.later hl)

/-- **A match does not begin inside a match.** -/
theorem Match.not_inside {text x y : List α} (m : Match needle text x y) : ¬ Inside needle text x := by
  induction m with
  | @first x y hl =>
    rintro ⟨before, after, m', hlt, -⟩
    exact absurd (hl before after m'.occurs) (Nat.not_le.2 hlt)
  | @later x y before after hl m ih =>
    rintro ⟨before', after', m', hlt, hgt⟩
    simp only [List.length_append] at hlt hgt
    rcases m'.inv rfl hl with ⟨rfl, -⟩ | ⟨z, rfl, m''⟩
    · omega
    · simp only [List.length_append] at hlt hgt
      exact ih ⟨z, after', m'', by omega, by omega⟩

/-- **Two occurrences that overlap** share the end of the first and the beginning of the second. -/
theorem overlap_of_inside {before after x y : List α} (h : before ++ (needle ++ after) = x ++ (needle ++ y))
    (hlt : before.length < x.length) (hgt : x.length < before.length + needle.length) :
    ∃ b w c, needle = b ++ w ∧ needle = w ++ c ∧ b ≠ [] ∧ w ≠ [] ∧ x = before ++ b ∧ after = c ++ y := by
  obtain ⟨b, rfl, hb⟩ : ∃ b, x = before ++ b ∧ needle ++ after = b ++ (needle ++ y) := by
    rcases List.append_eq_append_iff.1 h with ⟨b, hx, hb⟩ | ⟨b, hx, hb⟩
    · exact ⟨b, hx, hb⟩
    · have := congrArg List.length hx
      rw [List.length_append] at this
      omega
  rw [List.length_append] at hlt hgt
  obtain ⟨w, hw, hy⟩ : ∃ w, needle = b ++ w ∧ needle ++ y = w ++ after := by
    rcases List.append_eq_append_iff.1 hb with ⟨w, hw, hy⟩ | ⟨w, hw, hy⟩
    · have := congrArg List.length hw
      rw [List.length_append] at this
      omega
    · exact ⟨w, hw, hy⟩
  have hlen := congrArg List.length hw
  rw [List.length_append] at hlen
  obtain ⟨c, hc, ha⟩ : ∃ c, needle = w ++ c ∧ after = c ++ y := by
    rcases List.append_eq_append_iff.1 hy with ⟨c, hc, ha⟩ | ⟨c, hc, ha⟩
    · have := congrArg List.length hc
      rw [List.length_append] at this
      omega
    · exact ⟨c, hc, ha⟩
  refine ⟨b, w, c, hw, hc, ?_, ?_, rfl, ha⟩
  · rintro rfl
    simp at hlt
  · rintro rfl
    simp at hlen
    omega

end Matches
