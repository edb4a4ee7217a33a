import Mathlib.Algebra.BigOperators.Group.List.Basic
import Mathlib.Algebra.GroupWithZero.Nat
/-!
# Screen — rectangles of a terminal's cells, and rows behind a window

Coordinates are words of sixteen bits, and their sums may overflow (`U16.add`).  A rectangle lies within another exactly
when none of its sums passes the other's, and then every cell it covers is one of the other's (`Rect.Within.covers`).
Lines drawn on one or more rows each are seen through a window that skips rows, not lines: the windows that show the
last row are those of `seen_last_iff`.
-/
namespace Screen

/-! ## Words -/

inductive Overflow
  | add
  deriving DecidableEq, Repr

section

variable {α β ε : Type}

theorem bind_eq_ok_iff {x : Except ε α} {f : α → Except ε β} {b : β} :
    (x >>= f) = .ok b ↔ ∃ a, x = .ok a ∧ f a = .ok b := by
  cases x with
  | error e => simp [bind, Except.bind]
  | ok a => simp [bind, Except.bind]

theorem mapError_eq_ok_iff {δ : Type} {x : Except ε α} {f : ε → δ} {a : α} : x.mapError f = .ok a ↔ x = .ok a := by
  cases x with
  | error e =>
    constructor <;>
    · intro h
      cases h
  | ok a' => rw [Except.mapError, Except.ok.injEq, Except.ok.injEq]

/-- A list of checked computations succeeds when each of them does. -/
theorem mapM_eq_ok_iff {f : α → Except ε β} {g : α → β} {P : α → Prop} (hf : ∀ a b, f a = .ok b ↔ P a ∧ g a = b) :
    ∀ {as : List α} {bs : List β}, as.mapM f = .ok bs ↔ (∀ a ∈ as, P a) ∧ as.map g = bs
  | [], bs => by simp [pure, Except.pure]
  | a :: as, bs => by
    simp only [List.mapM_cons, bind_eq_ok_iff, hf, mapM_eq_ok_iff hf, List.forall_mem_cons, List.map_cons, pure,
      Except.pure, Except.ok.injEq]
    constructor
    · rintro ⟨_, ⟨hP, rfl⟩, _, ⟨hPs, rfl⟩, rfl⟩
      exact ⟨⟨hP, hPs⟩, rfl⟩
    · rintro ⟨⟨hP, hPs⟩, rfl⟩
      exact ⟨_, ⟨hP, rfl⟩, _, ⟨hPs, rfl⟩, rfl⟩

end

namespace U16

/-- `a + b`: past the last word it panics where overflow is checked and wraps where it is not. -/
def add (overflowChecks : Bool) (a b : UInt16) : Except Overflow UInt16 :=
  if overflowChecks = true ∧ 2 ^ 16 ≤ a.toNat + b.toNat then .error .add else .ok (a + b)

def saturatingSub (a b : UInt16) : UInt16 := if b ≤ a then a - b else 0

def saturatingAdd (a b : UInt16) : UInt16 := if a.toNat + b.toNat < 2 ^ 16 then a + b else .ofNat (2 ^ 16 - 1)

theorem add_eq_ok_iff {overflowChecks : Bool} {a b c : UInt16} :
    add overflowChecks a b = .ok c ↔ (overflowChecks = true → a.toNat + b.toNat < 2 ^ 16) ∧ a + b = c := by
  unfold add
  split
  · rename_i h
    constructor
    · intro he
      cases he
    · rintro ⟨hlt, -⟩
      exact absurd (hlt h.1) (Nat.not_lt.2 h.2)
  · rename_i h
    rw [Except.ok.injEq]
    exact (and_iff_right fun hchecks => Nat.lt_of_not_le fun hle => h ⟨hchecks, hle⟩).symm

@[simp] theorem toNat_saturatingSub (a b : UInt16) : (saturatingSub a b).toNat = a.toNat - b.toNat := by
  unfold saturatingSub
  split
  · rename_i hle
    exact UInt16.toNat_sub_of_le a b hle
  · rename_i hlt
    rw [UInt16.le_iff_toNat_le] at hlt
    rw [Nat.sub_eq_zero_of_le (Nat.le_of_not_le hlt)]
    rfl

@[simp] theorem toNat_saturatingAdd (a b : UInt16) :
    (saturatingAdd a b).toNat = min (a.toNat + b.toNat) (2 ^ 16 - 1) := by
  unfold saturatingAdd
  split
  · rename_i hlt
    rw [UInt16.toNat_add, Nat.mod_eq_of_lt hlt]
    omega
  · rename_i hge
    rw [UInt16.toNat_ofNat']
    omega

end U16

/-! ## Rectangles -/

structure Rect where
  x      : UInt16
  y      : UInt16
  width  : UInt16
  height : UInt16
  deriving DecidableEq, Repr

namespace Rect

/-- The cell is one of the rectangle's. -/
def Covers (r : Rect) (column row : Nat) : Prop :=
  (r.x.toNat ≤ column ∧ column < r.x.toNat + r.width.toNat) ∧ r.y.toNat ≤ row ∧ row < r.y.toNat + r.height.toNat

instance (r : Rect) (column row : Nat) : Decidable (r.Covers column row) := inferInstanceAs (Decidable (_ ∧ _))

/-- The rectangle starts in `frame` and ends in it, on both axes. -/
structure Within (r frame : Rect) : Prop where
  left   : frame.x.toNat ≤ r.x.toNat
  right  : r.x.toNat + r.width.toNat ≤ frame.x.toNat + frame.width.toNat
  top    : frame.y.toNat ≤ r.y.toNat
  bottom : r.y.toNat + r.height.toNat ≤ frame.y.toNat + frame.height.toNat

instance (r frame : Rect) : Decidable (r.Within frame) :=
  decidable_of_iff
    ((frame.x.toNat ≤ r.x.toNat ∧ r.x.toNat + r.width.toNat ≤ frame.x.toNat + frame.width.toNat) ∧
      frame.y.toNat ≤ r.y.toNat ∧ r.y.toNat + r.height.toNat ≤ frame.y.toNat + frame.height.toNat)
    ⟨fun h => ⟨h.1.1, h.1.2, h.2.1, h.2.2⟩, fun h => ⟨⟨h.left, h.right⟩, h.top, h.bottom⟩⟩

theorem Within.refl (r : Rect) : r.Within r := ⟨Nat.le_refl _, Nat.le_refl _, Nat.le_refl _, Nat.le_refl _⟩

theorem Within.trans {r area frame : Rect} (h : r.Within area) (h' : area.Within frame) : r.Within frame where
  left := Nat.le_trans h'.left h.left
  right := Nat.le_trans h.right h'.right
  top := Nat.le_trans h'.top h.top
  bottom := Nat.le_trans h.bottom h'.bottom

theorem Within.covers {r frame : Rect} (h : r.Within frame) {column row : Nat} (hc : r.Covers column row) :
    frame.Covers column row := by
  obtain ⟨⟨hleft, hright⟩, htop, hbottom⟩ := hc
  exact ⟨⟨Nat.le_trans h.left hleft, Nat.lt_of_lt_of_le hright h.right⟩, Nat.le_trans h.top htop,
    Nat.lt_of_lt_of_le hbottom h.bottom⟩

end Rect

/-- The cells of a terminal of this size. -/
def terminalArea (width height : UInt16) : Rect := ⟨0, 0, width, height⟩

/-! ## Rows

`heights` lists the rows each line is drawn on, top to bottom. -/

/-- The last row that line `i` is drawn on. -/
def lastRow (heights : List Nat) (i : Nat) : Nat := (heights.take (i + 1)).sum - 1

/-- A window of `height` rows that skips `scroll` of them shows the row. -/
def Seen (scroll height row : Nat) : Prop := scroll ≤ row ∧ row < scroll + height

instance (scroll height row : Nat) : Decidable (Seen scroll height row) := inferInstanceAs (Decidable (_ ∧ _))

/-- The last row of the last line is shown; with no line there is none to show. -/
def LastShown (heights : List Nat) (scroll height : Nat) : Prop :=
  ∀ i, i + 1 = heights.length → Seen scroll height (lastRow heights i)

theorem lastRow_last {heights : List Nat} {i : Nat} (h : i + 1 = heights.length) :
    lastRow heights i = heights.sum - 1 := by
  rw [lastRow, h, List.take_length]

/-- **The windows that show the last row** end at it or below, and start above its end. -/
theorem seen_last_iff {rows scroll height : Nat} (h : 0 < rows) :
    Seen scroll height (rows - 1) ↔ rows ≤ scroll + height ∧ scroll < rows := by
  unfold Seen
  omega

theorem lastShown_iff {heights : List Nat} {scroll height : Nat} (hrows : ∀ h ∈ heights, 1 ≤ h) :
    LastShown heights scroll height ↔ heights = [] ∨ (heights.sum ≤ scroll + height ∧ scroll < heights.sum) := by
  have hlen := List.length_le_sum_of_one_le heights hrows
  cases hn : heights.length with
  | zero =>
    obtain rfl := List.eq_nil_of_length_eq_zero hn
    exact iff_of_true (fun i hi => absurd hi (Nat.succ_ne_zero i)) (Or.inl rfl)
  | succ n =>
    have hne : heights ≠ [] := List.ne_nil_of_length_eq_add_one hn
    have hlast := lastRow_last hn.symm
    have hpos : 0 < heights.sum := by omega
    rw [or_iff_right hne, ← seen_last_iff hpos, ← hlast]
    constructor
    · exact fun h => h n hn.symm
    · intro h i hi
      obtain rfl : i = n := by omega
      exact h

end Screen
