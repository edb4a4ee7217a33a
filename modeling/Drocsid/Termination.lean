import Mathlib.Data.DFinsupp.WellFounded
import Mathlib.Data.Prod.Lex
/-!
# Termination — steps that each take effort from one of many parts

The parts are numbered, and those from some number on do nothing.  A step takes of what one part has to do and leaves
the other parts', or it leaves that of all parts and takes of what one part has to do besides: there is no endless run
(`acc_of_spends`).
-/
namespace Termination

variable {σ α β : Type*} [Preorder α] [Preorder β]

/-- The first parts. -/
def upTo {γ : Type*} (n : Nat) (f : Nat → γ) (i : Fin n) : γ := f i

/-- Taking from one part takes from all of them together. -/
theorem upTo_lt {n i : Nat} (hi : i < n) {f f' : Nat → α} (h : f' i < f i) (hother : ∀ j, j ≠ i → f' j = f j) :
    upTo n f' < upTo n f := by
  refine Pi.lt_def.2 ⟨fun j => ?_, ⟨i, hi⟩, h⟩
  by_cases hj : j.val = i
  · exact (hj ▸ h.le : f' j.val ≤ f j.val)
  · exact (hother j hj).le

/-- A step of part `i`, from what the parts have to do and have to do besides. -/
inductive Spends (f : Nat → α) (g : Nat → β) (f' : Nat → α) (g' : Nat → β) (i : Nat) : Prop
  | first (h : f' i < f i) (hother : ∀ j, j ≠ i → f' j = f j)
  | second (hf : f' = f) (h : g' i < g i) (hother : ∀ j, j ≠ i → g' j = g j)

/-- What the first parts have to do, and besides. -/
def together (n : Nat) (f : Nat → α) (g : Nat → β) : (Fin n → α) ×ₗ (Fin n → β) := toLex (upTo n f, upTo n g)

theorem Spends.together_lt {n i : Nat} (hi : i < n) {f f' : Nat → α} {g g' : Nat → β} (h : Spends f g f' g' i) :
    together n f' g' < together n f g := by
  unfold together
  rw [Prod.Lex.toLex_lt_toLex]
  cases h with
  | first hlt hother => exact .inl (upTo_lt hi hlt hother)
  | second hf hlt hother => exact .inr ⟨by rw [hf], upTo_lt hi hlt hother⟩

variable [WellFoundedLT α] [WellFoundedLT β]

/-- **No run is endless whose every step spends effort.** -/
theorem acc_of_spends {R : σ → σ → Prop} {I : σ → Prop} (n : Nat) (f : σ → Nat → α) (g : σ → Nat → β)
    (h : ∀ s s', I s → R s' s → I s' ∧ ∃ i < n, Spends (f s) (g s) (f s') (g s') i) {s : σ} (hs : I s) : Acc R s := by
  generalize hm : together n (f s) (g s) = m
  induction m using WellFoundedLT.induction generalizing s with
  | ind m ih =>
    refine ⟨s, fun s' hR => ?_⟩
    obtain ⟨hs', i, hi, hspends⟩ := h s s' hs hR
    exact ih _ (hm ▸ hspends.together_lt hi) hs' rfl

end Termination
