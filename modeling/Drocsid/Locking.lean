import Mathlib.Logic.Function.Basic
import Mathlib.Logic.Relation
import Mathlib.Order.BooleanAlgebra.Set
import Mathlib.Order.Defs.Unbundled
import Drocsid.Transition
/-!
# Locking — programs that lock mutexes, and mutexes that are locked in an order

A program is the tree of what it may do next, for every state it may find.  `Ordered lt held left p`: on every path of
`p`, begun with `held` locked, a mutex is locked above all that are held, only a held one is unlocked, and the path ends
with `left` locked.  Threads that run ordered programs never wait for one another in a cycle (`no_cycle`).
-/
namespace Locking

universe u v

/-- What a program does to a mutex. -/
inductive Act (M : Type u)
  | acquire (m : M)
  | release (m : M)
  deriving DecidableEq, Repr

/-- A program over a state.  A mutex is acquired with the state found there, or found poisoned. -/
inductive Prog (M : Type u) (σ α : Type v)
  | done (result : α)
  | look (next : σ → Prog M σ α)
  | write (change : σ → σ) (next : Prog M σ α)
  | acquire (m : M) (next : Option σ → Prog M σ α)
  | release (m : M) (next : Prog M σ α)

variable {M : Type u} {σ α β ε : Type v}

namespace Prog

def bind : Prog M σ α → (α → Prog M σ β) → Prog M σ β
  | done a, f => f a
  | look next, f => .look fun st => (next st).bind f
  | write change next, f => .write change (next.bind f)
  | acquire m next, f => .acquire m fun met => (next met).bind f
  | release m next, f => .release m (next.bind f)

/-- The program with no other running, no mutex locked and none poisoned. -/
def alone : Prog M σ α → σ → α × σ
  | done a, st => (a, st)
  | look next, st => (next st).alone st
  | write change next, st => next.alone (change st)
  | acquire _ next, st => (next (some st)).alone st
  | release _ next, st => next.alone st

theorem alone_bind (f : α → Prog M σ β) : ∀ (p : Prog M σ α) (st : σ),
    (p.bind f).alone st = (f (p.alone st).1).alone (p.alone st).2
  | done _, _ => rfl
  | look next, st => alone_bind f (next st) st
  | write change next, st => alone_bind f next (change st)
  | acquire _ next, st => alone_bind f (next (some st)) st
  | release _ next, st => alone_bind f next st

/-- The paths of a program, as they lock and unlock. -/
inductive Trace : Prog M σ α → List (Act M) → Prop
  | done (a : α) : Trace (.done a) []
  | look {next : σ → Prog M σ α} {t : List (Act M)} (st : σ) (h : Trace (next st) t) : Trace (.look next) t
  | write {change : σ → σ} {next : Prog M σ α} {t : List (Act M)} (h : Trace next t) : Trace (.write change next) t
  | acquire {m : M} {next : Option σ → Prog M σ α} {t : List (Act M)} (met : Option σ) (h : Trace (next met) t) :
    Trace (.acquire m next) (.acquire m :: t)
  | release {m : M} {next : Prog M σ α} {t : List (Act M)} (h : Trace next t) : Trace (.release m next)
    (.release m :: t)

end Prog

/-! ## The order -/

/-- A mutex above all of these. -/
def Above (lt : M → M → Prop) (held : Set M) (m : M) : Prop := ∀ h ∈ held, lt h m

/-- A trace that locks in order, never what it holds, and leaves nothing locked. -/
def Disciplined (lt : M → M → Prop) : Set M → List (Act M) → Prop
  | held, [] => held = ∅
  | held, .acquire m :: t => m ∉ held ∧ Above lt held m ∧ Disciplined lt (insert m held) t
  | held, .release m :: t => m ∈ held ∧ Disciplined lt (held \ {m}) t

/-- **A program that locks in order**, from what is held to what it leaves. -/
def Prog.Ordered (lt : M → M → Prop) : Set M → Set M → Prog M σ α → Prop
  | held, left, .done _ => held = left
  | held, left, .look next => ∀ st, (next st).Ordered lt held left
  | held, left, .write _ next => next.Ordered lt held left
  | held, left, .acquire m next => m ∉ held ∧ Above lt held m ∧ ∀ met, (next met).Ordered lt (insert m held) left
  | held, left, .release m next => m ∈ held ∧ next.Ordered lt (held \ {m}) left

namespace Prog

variable {lt : M → M → Prop}

/-- Its traces do. -/
theorem Ordered.disciplined {p : Prog M σ α} {t : List (Act M)} (ht : Trace p t) :
    ∀ {held : Set M}, p.Ordered lt held ∅ → Disciplined lt held t := by
  induction ht with
  | done => intro held h; exact h
  | look st _ ih => intro held h; exact ih (h st)
  | write _ ih => intro held h; exact ih h
  | acquire met _ ih => intro held h; exact ⟨h.1, h.2.1, ih (h.2.2 met)⟩
  | release _ ih => intro held h; exact ⟨h.1, ih h.2⟩

theorem Ordered.bind {mid left : Set M} {f : α → Prog M σ β} (hf : ∀ a, (f a).Ordered lt mid left) :
    ∀ {p : Prog M σ α} {held : Set M}, p.Ordered lt held mid → (p.bind f).Ordered lt held left
  | done a, held, h => by
    have he : held = mid := h
    rw [he]
    exact hf a
  | look next, held, h => fun st => Ordered.bind hf (p := next st) (h st)
  | write change next, held, h => Ordered.bind hf (p := next) h
  | acquire m next, held, h => ⟨h.1, h.2.1, fun met => Ordered.bind hf (p := next met) (h.2.2 met)⟩
  | release m next, held, h => ⟨h.1, Ordered.bind hf (p := next) h.2⟩

end Prog

/-! ## Guards -/

/-- A program that may stop early. -/
abbrev Fallible (M : Type u) (σ ε α : Type v) := Prog M σ (Except ε α)

namespace Fallible

def pure (a : α) : Fallible M σ ε α := .done (.ok a)

def throw (e : ε) : Fallible M σ ε α := .done (.error e)

/-- The rest runs if this did not stop. -/
def andThen (p : Fallible M σ ε α) (f : α → Fallible M σ ε β) : Fallible M σ ε β :=
  p.bind fun result => match result with
    | .ok a => f a
    | .error e => .done (.error e)

def write (change : σ → σ) : Fallible M σ ε PUnit := Prog.write change (pure ⟨⟩)

/-- A guard around a block: unlocked however the block ends. -/
def guarded (m : M) (poisoned : ε) (body : σ → Fallible M σ ε α) : Fallible M σ ε α :=
  .acquire m fun met => match met with
    | none => .release m (throw poisoned)
    | some st => (body st).bind fun result => .release m (.done result)

/-- A loop over a list. -/
def each (f : α → Fallible M σ ε PUnit) : List α → Fallible M σ ε PUnit
  | [] => pure ⟨⟩
  | a :: l => andThen (f a) fun _ => each f l

/-- The program for its effect alone. -/
def discard (p : Fallible M σ ε α) : Prog M σ PUnit := p.bind fun _ => .done ⟨⟩

/-- **A program that gives back what it locks**, in order. -/
def Keeps (lt : M → M → Prop) (held : Set M) (p : Fallible M σ ε α) : Prop := p.Ordered lt held held

/-- A program that, wherever all of these mutexes lie above what is held, gives back what it locks. -/
def Uses (lt : M → M → Prop) (ms : List M) (p : Fallible M σ ε α) : Prop :=
  ∀ held : Set M, (∀ m ∈ ms, Above lt held m) → Keeps lt held p

section Rules

variable {lt : M → M → Prop} {ms : List M}

theorem uses_pure (a : α) : Uses lt ms (pure a : Fallible M σ ε α) := fun _ _ => rfl

theorem uses_throw (e : ε) : Uses lt ms (throw e : Fallible M σ ε α) := fun _ _ => rfl

theorem uses_write (change : σ → σ) : Uses lt ms (write change : Fallible M σ ε PUnit) := fun _ _ => rfl

theorem uses_look {next : σ → Fallible M σ ε α} (h : ∀ st, Uses lt ms (next st)) :
    Uses lt ms (.look next : Fallible M σ ε α) := fun held hms st => h st held hms

theorem Uses.mono {ms' : List M} {p : Fallible M σ ε α} (h : Uses lt ms p) (hsub : ms ⊆ ms') : Uses lt ms' p := by
  intro held hms
  exact h held fun m hm => hms m (hsub hm)

theorem Uses.andThen {p : Fallible M σ ε α} {f : α → Fallible M σ ε β} (hp : Uses lt ms p)
    (hf : ∀ a, Uses lt ms (f a)) : Uses lt ms (andThen p f) := by
  intro held hms
  refine Prog.Ordered.bind ?_ (hp held hms)
  intro result
  cases result with
  | ok a => exact hf a held hms
  | error e => exact rfl

/-- Under a guard, what lies above its mutex may be locked. -/
theorem Uses.guarded [Std.Irrefl lt] {m : M} {poisoned : ε} {body : σ → Fallible M σ ε α} (hm : ∀ m' ∈ ms, lt m m')
    (hbody : ∀ st, Uses lt ms (body st)) : Uses lt (m :: ms) (guarded m poisoned body) := by
  intro held hms
  have hnot : m ∉ held := by
    intro h
    exact Std.Irrefl.irrefl m (hms m List.mem_cons_self m h)
  have hback : insert m held \ {m} = held := Set.insert_sdiff_self_of_notMem hnot
  have habove : ∀ m' ∈ ms, Above lt (insert m held) m' := by
    intro m' hm' h hh
    rcases hh with rfl | hh
    · exact hm m' hm'
    · exact hms m' (List.mem_cons_of_mem m hm') h hh
  refine ⟨hnot, hms m List.mem_cons_self, ?_⟩
  intro met
  cases met with
  | none => exact ⟨Set.mem_insert m held, hback⟩
  | some st =>
    refine Prog.Ordered.bind ?_ (hbody st (insert m held) habove)
    intro result
    exact ⟨Set.mem_insert m held, hback⟩

theorem uses_each {f : α → Fallible M σ ε PUnit} (hf : ∀ a, Uses lt ms (f a)) : ∀ l, Uses lt ms (each f l)
  | [] => uses_pure _
  | a :: l => (hf a).andThen fun _ => uses_each hf l

/-- With nothing held, all mutexes lie above what is. -/
theorem Uses.ordered {p : Fallible M σ ε α} (h : Uses lt ms p) : (discard p).Ordered lt ∅ ∅ := by
  refine Prog.Ordered.bind ?_ (h ∅ ?_)
  · intro result
    exact rfl
  · intro m hm l hl
    exact hl.elim

end Rules

/-! ### Alone -/

theorem alone_andThen (p : Fallible M σ ε α) (f : α → Fallible M σ ε β) (st : σ) : (andThen p f).alone st =
    match p.alone st with
    | (.ok a, st') => (f a).alone st'
    | (.error e, st') => (.error e, st') := by
  rw [andThen, Prog.alone_bind]
  rcases p.alone st with ⟨result, st'⟩
  cases result <;> rfl

theorem alone_guarded (m : M) (poisoned : ε) (body : σ → Fallible M σ ε α) (st : σ) :
    (guarded m poisoned body).alone st = (body st).alone st := Prog.alone_bind _ (body st) st

end Fallible

/-! ## Threads -/

/-- Threads, each with the rest of its program, and who holds each mutex. -/
structure Threads (ι M : Type u) (σ : Type v) where
  prog  : ι → Prog M σ PUnit
  owner : M → Option ι

/-- A thread that is done starts an operation, or one that is not goes on, having met a state or a poisoned mutex. -/
inductive Move (ι κ : Type u) (σ : Type v)
  | start (i : ι) (op : κ)
  | go (i : ι) (met : Option σ)

variable {ι κ : Type u} [DecidableEq ι] [DecidableEq M]

/-- What a thread meets is anything: the others may have changed the state in any way since. -/
def threads (ops : κ → Prog M σ PUnit) : System (Threads ι M σ) (Move ι κ σ) where
  init := ⟨fun _ => .done ⟨⟩, fun _ => none⟩
  step s
    | .start i op =>
      match s.prog i with
      | .done _ => some { s with prog := Function.update s.prog i (ops op) }
      | _ => none
    | .go i met =>
      match s.prog i with
      | .done _ => none
      | .look next => met.map fun st => { s with prog := Function.update s.prog i (next st) }
      | .write _ next => some { s with prog := Function.update s.prog i next }
      | .acquire m next =>
        if s.owner m = none then
          some ⟨Function.update s.prog i (next met), Function.update s.owner m (some i)⟩
        else none
      | .release m next => some ⟨Function.update s.prog i next, Function.update s.owner m none⟩

namespace Threads

/-- A thread is about to lock a mutex that another holds, or that it holds itself. -/
def WaitsFor (s : Threads ι M σ) (i j : ι) : Prop := ∃ m next, s.prog i = .acquire m next ∧ s.owner m = some j

def held (s : Threads ι M σ) (i : ι) : Set M := {m | s.owner m = some i}

/-- Every thread's rest is in order from what the thread holds. -/
def Orderly (lt : M → M → Prop) (s : Threads ι M σ) : Prop := ∀ i, (s.prog i).Ordered lt (s.held i) ∅

variable {lt : M → M → Prop}

theorem Orderly.step {ops : κ → Prog M σ PUnit} (hops : ∀ op, (ops op).Ordered lt ∅ ∅) {s s' : Threads ι M σ}
    {l : Move ι κ σ} (h : Orderly lt s) (hs : (threads ops).step s l = some s') : Orderly lt s' := by
  -- A thread other than the one that moves has its rest and what it holds.
  have hframe : ∀ (i : ι) (rest : Prog M σ PUnit) (owner : M → Option ι),
      (∀ j, j ≠ i → {m | owner m = some j} = s.held j) → rest.Ordered lt {m | owner m = some i} ∅ →
      Orderly lt (⟨Function.update s.prog i rest, owner⟩ : Threads ι M σ) := by
    intro i rest owner hothers hself j
    by_cases hj : j = i
    · subst hj
      simp only [Function.update_self]
      exact hself
    · simp only [Function.update_of_ne hj]
      show (s.prog j).Ordered lt {m | owner m = some j} ∅
      rw [hothers j hj]
      exact h j
  cases l with
  | start i op =>
    have hi := h i
    simp only [threads] at hs
    split at hs
    · rename_i hp
      cases hs
      rw [hp] at hi
      refine hframe i _ _ (fun _ _ => rfl) ?_
      have hnone : s.held i = ∅ := hi
      show (ops op).Ordered lt (s.held i) ∅
      rw [hnone]
      exact hops op
    · cases hs
  | go i met =>
    have hi := h i
    simp only [threads] at hs
    split at hs <;> rename_i hp <;> rw [hp] at hi
    · cases hs
    · obtain ⟨st, -, rfl⟩ := Option.map_eq_some_iff.1 hs
      exact hframe i _ _ (fun _ _ => rfl) (hi st)
    · cases hs
      exact hframe i _ _ (fun _ _ => rfl) hi
    · split at hs
      · rename_i m next hfree
        cases hs
        refine hframe i _ _ ?_ ?_
        · intro j hj
          ext m'
          by_cases hm : m' = m
          · subst hm
            simp [held, hfree, Ne.symm hj]
          · simp [held, hm]
        · have : {m' | Function.update s.owner m (some i) m' = some i} = insert m (s.held i) := by
            ext m'
            by_cases hm : m' = m
            · simp [hm]
            · simp [held, hm]
          rw [this]
          exact hi.2.2 met
      · cases hs
    · rename_i m next
      cases hs
      have hothers : ∀ j, {m' | Function.update s.owner m none m' = some j} = s.held j \ {m} := by
        intro j
        ext m'
        by_cases hm : m' = m
        · simp [hm]
        · simp [held, hm]
      refine hframe i _ _ ?_ ?_
      · intro j hj
        rw [hothers]
        apply Set.sdiff_singleton_eq_self
        intro hm
        have hm' : s.owner m = some i := hi.1
        exact hj (Option.some.inj (hm.symm.trans hm'))
      · rw [hothers]
        exact hi.2

theorem orderly_of_reach {ops : κ → Prog M σ PUnit} (hops : ∀ op, (ops op).Ordered lt ∅ ∅)
    {G : Threads ι M σ → Move ι κ σ → Prop} {s : Threads ι M σ} (hs : System.Reach (threads ops) G s) :
    Orderly lt s := by
  refine hs.invariant (I := Orderly lt) ?_ fun _ _ _ _ h _ hstep => h.step hops hstep
  intro i
  show {m : M | none = some i} = ∅
  simp

omit [DecidableEq ι] [DecidableEq M] in
/-- Along a chain of waiting threads, what the last is waited for lies above what the first waits for, or is that. -/
theorem Orderly.chain [IsTrans M lt] {s : Threads ι M σ} (h : Orderly lt s) {i j : ι}
    (hw : Relation.TransGen s.WaitsFor i j) :
    ∀ {m next}, s.prog i = .acquire m next → ∃ m' ∈ s.held j, m' = m ∨ lt m m' := by
  induction hw with
  | single hw =>
    intro m next hi
    obtain ⟨m', next', hi', hown⟩ := hw
    cases hi.symm.trans hi'
    exact ⟨m, hown, .inl rfl⟩
  | @tail j k _ hw ih =>
    intro m next hi
    obtain ⟨m₁, hheld, hle⟩ := ih hi
    obtain ⟨m₂, next₂, hj, hown⟩ := hw
    have hord := h j
    rw [hj] at hord
    have hlt : lt m₁ m₂ := hord.2.1 m₁ hheld
    refine ⟨m₂, hown, .inr ?_⟩
    rcases hle with rfl | hle
    · exact hlt
    · exact IsTrans.trans _ _ _ hle hlt

omit [DecidableEq ι] [DecidableEq M] in
/-- **No deadlock**: no thread waits for itself through others. -/
theorem Orderly.no_cycle [IsStrictOrder M lt] {s : Threads ι M σ} (h : Orderly lt s) (i : ι) :
    ¬ Relation.TransGen s.WaitsFor i i := by
  intro hw
  obtain ⟨j, ⟨m, next, hi, -⟩, -⟩ := Relation.TransGen.head'_iff.1 hw
  obtain ⟨m', hheld, hle⟩ := h.chain hw hi
  have hord := h i
  rw [hi] at hord
  have hlt : lt m' m := hord.2.1 m' hheld
  rcases hle with rfl | hle
  · exact irrefl m' hlt
  · exact irrefl m' (IsTrans.trans _ _ _ hlt hle)

end Threads
end Locking
