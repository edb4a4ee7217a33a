import Mathlib.Tactic.TypeStar
/-!
# Transition — runs of a system whose steps are labelled and may be restricted

`Reach sys G s`: some run from the initial state ends in `s`, and each of its steps met `G` at the state it was taken
in.  An invariant may use another one already known (`Reach.invariant`); a refinement sends every step of one system to
a step of another, or to none (`Refines.reach`).
-/
structure System (σ ι : Type*) where
  init : σ
  step : σ → ι → Option σ

namespace System

variable {σ ι τ κ : Type*}

/-- No restriction. -/
def Any : σ → ι → Prop := fun _ _ => True

inductive Reach (sys : System σ ι) (G : σ → ι → Prop) : σ → Prop
  | init : Reach sys G sys.init
  | step {s s' : σ} {l : ι} : Reach sys G s → G s l → sys.step s l = some s' → Reach sys G s'

variable {sys : System σ ι} {G : σ → ι → Prop}

theorem Reach.mono {H : σ → ι → Prop} (h : ∀ s l, G s l → H s l) {s : σ} (hs : Reach sys G s) : Reach sys H s := by
  induction hs with
  | init => exact .init
  | step _ hG hstep ih => exact .step ih (h _ _ hG) hstep

theorem Reach.any {s : σ} (hs : Reach sys G s) : Reach sys Any s := hs.mono fun _ _ _ => trivial

/-- **An inductive invariant holds in every state reached.**  Its step may use that the state before it was reached. -/
theorem Reach.invariant {I : σ → Prop} (h0 : I sys.init)
    (hstep : ∀ s l s', Reach sys G s → I s → G s l → sys.step s l = some s' → I s') {s : σ} (hs : Reach sys G s) :
    I s := by
  induction hs with
  | init => exact h0
  | step hr hG h ih => exact hstep _ _ _ hr ih hG h

/-- The state after a list of labels. -/
def run (sys : System σ ι) : σ → List ι → Option σ
  | s, [] => some s
  | s, l :: ls => (sys.step s l).bind fun s' => sys.run s' ls

/-- The state after a list of labels, each of which passes the test where it is taken. -/
def runIf (sys : System σ ι) (test : σ → ι → Bool) : σ → List ι → Option σ
  | s, [] => some s
  | s, l :: ls => if test s l then (sys.step s l).bind fun s' => sys.runIf test s' ls else none

theorem reach_of_runIf {test : σ → ι → Bool} (h : ∀ s l, test s l = true → G s l) :
    ∀ {s s' : σ} {ls : List ι}, Reach sys G s → sys.runIf test s ls = some s' → Reach sys G s'
  | s, s', [], hs, hr => by cases hr; exact hs
  | s, s', l :: ls, hs, hr => by
    unfold runIf at hr
    split at hr
    · rename_i ht
      obtain ⟨t, ht', hrest⟩ := Option.bind_eq_some_iff.1 hr
      exact reach_of_runIf h (.step hs (h _ _ ht) ht') hrest
    · cases hr

theorem reach_of_run : ∀ {s s' : σ} {ls : List ι}, Reach sys Any s → sys.run s ls = some s' → Reach sys Any s'
  | s, s', [], hs, hr => by cases hr; exact hs
  | s, s', l :: ls, hs, hr => by
    obtain ⟨t, ht', hrest⟩ := Option.bind_eq_some_iff.1 hr
    exact reach_of_run (.step hs trivial ht') hrest

/-- **What holds of a run from a state reached**, from what a step adds in front. -/
theorem run_induction {P : σ → List ι → σ → Prop} (nil : ∀ s, P s [] s)
    (cons : ∀ s l t ls s', Reach sys Any s → sys.step s l = some t → P t ls s' → P s (l :: ls) s') :
    ∀ {s s' : σ} {ls : List ι}, Reach sys Any s → sys.run s ls = some s' → P s ls s'
  | s, s', [], _, hr => by cases hr; exact nil s
  | s, s', l :: ls, hs, hr => by
    obtain ⟨t, ht, hrest⟩ := Option.bind_eq_some_iff.1 hr
    exact cons s l t ls s' hs ht (run_induction nil cons (.step hs trivial ht) hrest)

/-- Some step of the run is as `P` says, of the state it was taken in, its label and the state it led to. -/
def Occurs (sys : System σ ι) (P : σ → ι → σ → Prop) (s : σ) (ls : List ι) : Prop :=
  ∃ before l after t t', ls = before ++ l :: after ∧ sys.run s before = some t ∧ sys.step t l = some t' ∧ P t l t'

theorem Occurs.head {P : σ → ι → σ → Prop} {s t : σ} {l : ι} (hstep : sys.step s l = some t) (h : P s l t)
    (ls : List ι) : sys.Occurs P s (l :: ls) :=
  ⟨[], l, ls, s, t, rfl, rfl, hstep, h⟩

theorem Occurs.cons {P : σ → ι → σ → Prop} {s t : σ} {l : ι} {ls : List ι} (hstep : sys.step s l = some t)
    (h : sys.Occurs P t ls) : sys.Occurs P s (l :: ls) := by
  obtain ⟨before, l', after, u, u', rfl, hrun, hlater⟩ := h
  refine ⟨l :: before, l', after, u, u', rfl, ?_, hlater⟩
  rw [run, hstep]
  exact hrun

/-- A state with a property one can compute is reached, if the run computes to one. -/
theorem exists_of_run (sys : System σ ι) (test : σ → Bool) (ls : List ι)
    (h : ((sys.run sys.init ls).map test) = some true) : ∃ s, Reach sys Any s ∧ test s = true := by
  obtain ⟨s, hs, ht⟩ := Option.map_eq_some_iff.1 h
  exact ⟨s, reach_of_run .init hs, ht⟩

theorem exists_of_runIf {test : σ → ι → Bool} (hG : ∀ s l, test s l = true → G s l) (sys : System σ ι)
    (observe : σ → Bool) (ls : List ι) (h : ((sys.runIf test sys.init ls).map observe) = some true) :
    ∃ s, Reach sys G s ∧ observe s = true := by
  obtain ⟨s, hs, ht⟩ := Option.map_eq_some_iff.1 h
  exact ⟨s, reach_of_runIf hG .init hs, ht⟩

/-- `abs` maps every step of `sys` that meets `G` to a step of `spec` that meets `H`, with the same start and end, or to
no step. -/
structure Refines (sys : System σ ι) (G : σ → ι → Prop) (spec : System τ κ) (H : τ → κ → Prop) (abs : σ → τ) :
    Prop where
  init : abs sys.init = spec.init
  step : ∀ s l s', Reach sys G s → G s l → sys.step s l = some s' →
    abs s' = abs s ∨ ∃ k, H (abs s) k ∧ spec.step (abs s) k = some (abs s')

/-- **A refinement maps runs to runs.** -/
theorem Refines.reach {spec : System τ κ} {H : τ → κ → Prop} {abs : σ → τ} (R : Refines sys G spec H abs) {s : σ}
    (hs : Reach sys G s) : Reach spec H (abs s) := by
  induction hs with
  | init => rw [R.init]; exact .init
  | step hr hG h ih =>
    rcases R.step _ _ _ hr hG h with he | ⟨k, hk, hstep⟩
    · rw [he]; exact ih
    · exact .step ih hk hstep

end System
