import Mathlib.Algebra.Order.Field.Basic
import Mathlib.Tactic.Linarith
import Mathlib.Tactic.Ring
/-!
# TokenBucket — tokens refilled at a rate up to a burst, and taken one at a time

Over any linearly ordered field of times and tokens.  In no window of time are more takes granted than the burst and
what the rate gives in the window (`granted_window`).  A bucket left alone long enough is as good as a full one
(`refill_idle`).
-/

/-- Its tokens, as of a time. -/
structure TokenBucket (K : Type*) where
  tokens     : K
  lastRefill : K
  deriving DecidableEq, Repr

namespace TokenBucket

variable {K : Type*} [LinearOrder K]

/-- How many of these times lie in a window. -/
def within (s t : K) (times : List K) : Nat := times.countP fun u => decide (s ≤ u ∧ u ≤ t)

theorem within_eq_zero {s t : K} {times : List K} (h : ∀ u ∈ times, t < u) : within s t times = 0 := by
  apply List.countP_eq_zero.2
  intro u hu
  have := h u hu
  simp [not_le.2 this]

variable [Field K] (rate burst : K)

def full (now : K) : TokenBucket K := ⟨burst, now⟩

/-- The time since an earlier one, and zero if it was not earlier. -/
def elapsed (now earlier : K) : K := max (now - earlier) 0

def refill (b : TokenBucket K) (now : K) : TokenBucket K :=
    ⟨min (b.tokens + elapsed now b.lastRefill * rate) burst, now⟩

/-- Whether a token was there to take, and the bucket after; it is refilled either way. -/
def take (b : TokenBucket K) (now : K) : Bool × TokenBucket K :=
  let b := refill rate burst b now
  if b.tokens < 1 then (false, b) else (true, { b with tokens := b.tokens - 1 })

/-- The times of a list of takes that were granted. -/
def granted : TokenBucket K → List K → List K
  | _, [] => []
  | b, now :: times => if (take rate burst b now).1 then now :: granted (take rate burst b now).2 times
    else granted (take rate burst b now).2 times

variable {rate burst}

theorem elapsed_nonneg (now earlier : K) : 0 ≤ elapsed now earlier := le_max_right _ _

@[simp] theorem take_lastRefill (b : TokenBucket K) (now : K) : (take rate burst b now).2.lastRefill = now := by
  unfold take
  simp only
  split <;> rfl

/-- What the bucket has at a time. -/
def level (rate burst : K) (b : TokenBucket K) (now : K) : K := (refill rate burst b now).tokens

theorem level_le (b : TokenBucket K) (now : K) : level rate burst b now ≤ burst := min_le_right _ _

/-- A take reads the bucket as refilled, and nothing else of it. -/
theorem take_congr {b b' : TokenBucket K} {now : K} (h : refill rate burst b now = refill rate burst b' now) :
    take rate burst b now = take rate burst b' now := by
  unfold take
  rw [h]

theorem granted_subset : ∀ (b : TokenBucket K) (times : List K), granted rate burst b times ⊆ times
  | _, [] => List.Subset.refl _
  | b, now :: times => by
    unfold granted
    split
    · exact List.cons_subset_cons _ (granted_subset _ times)
    · exact List.subset_cons_of_subset _ (granted_subset _ times)

variable [IsStrictOrderedRing K]

theorem elapsed_eq {now earlier : K} (h : earlier ≤ now) : elapsed now earlier = now - earlier :=
  max_eq_left (sub_nonneg.2 h)

theorem refill_nonneg (hrate : 0 ≤ rate) (hburst : 0 ≤ burst) {b : TokenBucket K} (h : 0 ≤ b.tokens) (now : K) :
    0 ≤ (refill rate burst b now).tokens :=
  le_min (add_nonneg h (mul_nonneg (elapsed_nonneg _ _) hrate)) hburst

theorem take_nonneg (hrate : 0 ≤ rate) (hburst : 0 ≤ burst) {b : TokenBucket K} (h : 0 ≤ b.tokens) (now : K) :
    0 ≤ (take rate burst b now).2.tokens := by
  unfold take
  simp only
  split
  · exact refill_nonneg hrate hburst h now
  · rename_i hone
    exact sub_nonneg.2 (not_lt.1 hone)

/-- **A bucket left alone for as long as the burst takes to refill is full.** -/
theorem refill_idle (hrate : 0 ≤ rate) {b : TokenBucket K} (h : 0 ≤ b.tokens) {idle now : K}
    (hidle : idle ≤ elapsed now b.lastRefill) (hburst : burst ≤ idle * rate) :
    refill rate burst b now = refill rate burst (full burst now) now := by
  have hgain : burst ≤ b.tokens + elapsed now b.lastRefill * rate := by
    have hmul : idle * rate ≤ elapsed now b.lastRefill * rate := mul_le_mul_of_nonneg_right hidle hrate
    linarith
  have hfull : burst ≤ burst + elapsed now now * rate := by
    have hmul : 0 ≤ elapsed now now * rate := mul_nonneg (elapsed_nonneg _ _) hrate
    linarith
  unfold refill full
  rw [min_eq_right hgain, min_eq_right hfull]

/-- A full bucket stays as it is. -/
theorem refill_full (hrate : 0 ≤ rate) (earlier now : K) :
    refill rate burst (full burst earlier) now = refill rate burst (full burst now) now := by
  have hfull : ∀ since, burst ≤ burst + elapsed now since * rate := by
    intro since
    have hmul : 0 ≤ elapsed now since * rate := mul_nonneg (elapsed_nonneg _ _) hrate
    linarith
  unfold refill full
  rw [min_eq_right (hfull earlier), min_eq_right (hfull now)]

/-! ## Levels -/

theorem level_full (hrate : 0 ≤ rate) (earlier now : K) : level rate burst (full burst earlier) now = burst := by
  have hmul : 0 ≤ elapsed now earlier * rate := mul_nonneg (elapsed_nonneg _ _) hrate
  exact min_eq_right (le_add_of_nonneg_right hmul)

/-- It gains what the rate gives, at most. -/
theorem level_later (hrate : 0 ≤ rate) (b : TokenBucket K) {now later : K} (h : now ≤ later) :
    level rate burst b later ≤ level rate burst b now + rate * (later - now) := by
  have helapsed : elapsed later b.lastRefill ≤ elapsed now b.lastRefill + (later - now) := by
    refine max_le ?_ (add_nonneg (elapsed_nonneg _ _) (sub_nonneg.2 h))
    have := le_max_left (now - b.lastRefill) 0
    unfold elapsed
    linarith
  have hgain : elapsed later b.lastRefill * rate ≤ elapsed now b.lastRefill * rate + rate * (later - now) := by
    rw [mul_comm rate, ← add_mul]
    exact mul_le_mul_of_nonneg_right helapsed hrate
  have hmore : 0 ≤ rate * (later - now) := mul_nonneg hrate (sub_nonneg.2 h)
  unfold level refill
  rcases min_cases (b.tokens + elapsed now b.lastRefill * rate) burst with ⟨he, -⟩ | ⟨he, -⟩
  · rw [he]
    exact (min_le_left _ _).trans (by linarith)
  · rw [he]
    exact (min_le_right _ _).trans (by linarith)

/-- **A take that is granted costs a token**, and one that is not costs none. -/
theorem level_take (b : TokenBucket K) (now : K) :
    level rate burst (take rate burst b now).2 now =
      level rate burst b now - if (take rate burst b now).1 then 1 else 0 := by
  have hzero : elapsed now now = 0 := by rw [elapsed_eq (le_refl now), sub_self]
  have hcap : (refill rate burst b now).tokens ≤ burst := min_le_right _ _
  have hstays : ∀ tokens : K, tokens ≤ burst → level rate burst ⟨tokens, now⟩ now = tokens := by
    intro tokens h
    unfold level refill
    rw [hzero, zero_mul, add_zero, min_eq_left h]
  unfold take
  simp only
  split
  · rw [if_neg Bool.false_ne_true, sub_zero]
    exact hstays _ hcap
  · rw [if_pos rfl]
    exact hstays _ (by linarith)

/-! ## Windows -/

/-- A bucket grants, up to a time, what it has and what it gains. -/
theorem granted_upto (hrate : 0 ≤ rate) (hburst : 0 ≤ burst) (s t : K) : ∀ (times : List K) (b : TokenBucket K),
    0 ≤ b.tokens → b.lastRefill ≤ t → (∀ u ∈ times, b.lastRefill ≤ u) → times.Pairwise (· ≤ ·) →
    (within s t (granted rate burst b times) : K) ≤ b.tokens + (t - b.lastRefill) * rate := by
  intro times
  induction times with
  | nil =>
    intro b hb ht _ _
    have hgain : 0 ≤ (t - b.lastRefill) * rate := mul_nonneg (sub_nonneg.2 ht) hrate
    simp only [granted, within, List.countP_nil, Nat.cast_zero]
    linarith
  | cons now times ih =>
    intro b hb ht hafter hsorted
    obtain ⟨hnow, hsorted⟩ := List.pairwise_cons.1 hsorted
    have hlast : b.lastRefill ≤ now := hafter now List.mem_cons_self
    by_cases hlate : t < now
    · have hnone : within s t (granted rate burst b (now :: times)) = 0 := by
        apply within_eq_zero
        intro u hu
        rcases List.mem_cons.1 (granted_subset b (now :: times) hu) with rfl | hu
        · exact hlate
        · exact lt_of_lt_of_le hlate (hnow u hu)
      have hgain : 0 ≤ (t - b.lastRefill) * rate := mul_nonneg (sub_nonneg.2 ht) hrate
      rw [hnone, Nat.cast_zero]
      linarith
    · have hle : now ≤ t := not_lt.1 hlate
      have hrest := ih (take rate burst b now).2 (take_nonneg hrate hburst hb now) (by rw [take_lastRefill]; exact hle)
        (by rw [take_lastRefill]; exact hnow) hsorted
      rw [take_lastRefill] at hrest
      have hrefill : (refill rate burst b now).tokens ≤ b.tokens + (now - b.lastRefill) * rate := by
        rw [← elapsed_eq hlast]
        exact min_le_left _ _
      have hsplit : (t - b.lastRefill) * rate = (now - b.lastRefill) * rate + (t - now) * rate := by ring
      unfold granted
      split
      · rename_i hok
        have htokens : (take rate burst b now).2.tokens = (refill rate burst b now).tokens - 1 := by
          unfold take at hok ⊢
          simp only at hok ⊢
          split
          · rename_i hlow
            rw [if_pos hlow] at hok
            cases hok
          · rfl
        have hcount : within s t (now :: granted rate burst (take rate burst b now).2 times) ≤
            within s t (granted rate burst (take rate burst b now).2 times) + 1 := by
          unfold within
          rw [List.countP_cons]
          split <;> omega
        have hcast : (within s t (now :: granted rate burst (take rate burst b now).2 times) : K) ≤
            (within s t (granted rate burst (take rate burst b now).2 times) : K) + 1 := by exact_mod_cast hcount
        linarith
      · rename_i hno
        have htokens : (take rate burst b now).2.tokens = (refill rate burst b now).tokens := by
          unfold take at hno ⊢
          simp only at hno ⊢
          split
          · rfl
          · rename_i hlow
            rw [if_neg hlow] at hno
            exact absurd rfl hno
        linarith

/-- **In a window a bucket grants no more than the burst and what the rate gives.** -/
theorem granted_window (hrate : 0 ≤ rate) (hburst : 0 ≤ burst) {s t : K} (hst : s ≤ t) : ∀ (times : List K)
    (b : TokenBucket K),
    0 ≤ b.tokens → (∀ u ∈ times, b.lastRefill ≤ u) → times.Pairwise (· ≤ ·) →
    (within s t (granted rate burst b times) : K) ≤ burst + rate * (t - s) := by
  intro times
  have hwindow : 0 ≤ rate * (t - s) := mul_nonneg hrate (sub_nonneg.2 hst)
  induction times with
  | nil =>
    intro b _ _ _
    simp only [granted, within, List.countP_nil, Nat.cast_zero]
    linarith
  | cons now times ih =>
    intro b hb hafter hsorted
    obtain ⟨hnow, hrestSorted⟩ := List.pairwise_cons.1 hsorted
    by_cases hearly : now < s
    · -- The take is before the window.
      have hrest := ih (take rate burst b now).2 (take_nonneg hrate hburst hb now)
        (by rw [take_lastRefill]; exact hnow) hrestSorted
      unfold granted
      split
      · have hskip : within s t (now :: granted rate burst (take rate burst b now).2 times) =
            within s t (granted rate burst (take rate burst b now).2 times) := by
          unfold within
          rw [List.countP_cons_of_neg]
          simp [not_le.2 hearly]
        rw [hskip]
        exact hrest
      · exact hrest
    · have hs : s ≤ now := not_lt.1 hearly
      by_cases hlate : t < now
      · have hnone : within s t (granted rate burst b (now :: times)) = 0 := by
          apply within_eq_zero
          intro u hu
          rcases List.mem_cons.1 (granted_subset b (now :: times) hu) with rfl | hu
          · exact hlate
          · exact lt_of_lt_of_le hlate (hnow u hu)
        rw [hnone, Nat.cast_zero]
        linarith
      · -- From the first take in the window on, the bucket had at most the burst.
        have hle : now ≤ t := not_lt.1 hlate
        have hsame : granted rate burst b (now :: times) = granted rate burst (refill rate burst b now)
          (now :: times) := by
          have htake : take rate burst b now = take rate burst (refill rate burst b now) now := by
            apply take_congr
            have hcap : (refill rate burst b now).tokens ≤ burst := min_le_right _ _
            have hzero : elapsed now now = 0 := by rw [elapsed_eq (le_refl now), sub_self]
            show refill rate burst b now =
              ⟨min ((refill rate burst b now).tokens + elapsed now now * rate) burst, now⟩
            rw [hzero, zero_mul, add_zero, min_eq_left hcap]
            rfl
          unfold granted
          rw [htake]
        have hupto := granted_upto hrate hburst s t (now :: times) (refill rate burst b now)
          (refill_nonneg hrate hburst hb now) hle (by
            intro u hu
            rcases List.mem_cons.1 hu with rfl | hu
            · exact le_refl _
            · exact hnow u hu) hsorted
        have hcap : (refill rate burst b now).tokens ≤ burst := min_le_right _ _
        have hgain : (t - now) * rate ≤ rate * (t - s) := by
          rw [mul_comm]
          exact mul_le_mul_of_nonneg_left (sub_le_sub_left hs t) hrate
        have hlast : (refill rate burst b now).lastRefill = now := rfl
        rw [hlast] at hupto
        rw [hsame]
        linarith

end TokenBucket
