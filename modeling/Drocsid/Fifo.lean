import Mathlib.Data.List.Basic
/-!
# Fifo — a bounded first-in-first-out channel

A channel keeps all that was ever sent on it, in order, and how much of it was received: what is queued is the rest.
A send is refused when the receiver is gone, else when the queue is full.  `sendAll` sends a list while the receiver
goes on (`Rx`); it never loses or reorders a message (`sendAll_conserves`).
-/
structure Fifo (α : Type*) where
  capacity : Nat
  sent     : List α
  received : Nat
  closed   : Bool

inductive SendError
  | full | closed
  deriving DecidableEq, Repr

/-- What the receiver does between two sends: receives some messages, and perhaps goes away. -/
structure Rx where
  take  : Nat := 0
  close : Bool := false
  deriving DecidableEq, Repr

namespace Fifo

variable {α : Type*}

def new (capacity : Nat) : Fifo α := ⟨capacity, [], 0, false⟩

/-- The messages sent and not yet received. -/
def queued (c : Fifo α) : List α := c.sent.drop c.received

def isFull (c : Fifo α) : Bool := decide (c.capacity ≤ c.queued.length)

def trySend (c : Fifo α) (a : α) : Except SendError (Fifo α) :=
  if c.closed then .error .closed
  else if c.isFull then .error .full
  else .ok { c with sent := c.sent ++ [a] }

def tick (rx : Rx) (c : Fifo α) : Fifo α :=
  { c with received := min (c.received + rx.take) c.sent.length, closed := c.closed || rx.close }

/-- The next message, and the channel without it. -/
def tryRecv (c : Fifo α) : Option (α × Fifo α) := c.queued.head?.map fun a => (a, { c with received := c.received + 1 })

/-- Sends the messages one by one until one is refused, with the receiver's doings before each: the messages not sent,
and why. -/
def sendAll : Fifo α → List α → List Rx → Fifo α × List α × Option SendError
  | c, [], _ => (c, [], none)
  | c, a :: as, rx =>
    match (c.tick (rx.headD {})).trySend a with
    | .ok c' => sendAll c' as rx.tail
    | .error e => (c.tick (rx.headD {}), a :: as, some e)

/-- Whether a send would succeed. -/
def accepts (c : Fifo α) : Bool := !c.closed && !c.isFull

/-- The channel after a send, refused or not. -/
def offer (c : Fifo α) (a : α) : Fifo α := if c.accepts then { c with sent := c.sent ++ [a] } else c

@[simp] theorem sent_tick (rx : Rx) (c : Fifo α) : (c.tick rx).sent = c.sent := rfl

@[simp] theorem capacity_tick (rx : Rx) (c : Fifo α) : (c.tick rx).capacity = c.capacity := rfl

theorem trySend_eq_ok {c c' : Fifo α} {a : α} :
    c.trySend a = .ok c' ↔ c.closed = false ∧ c.isFull = false ∧ c' = { c with sent := c.sent ++ [a] } := by
  unfold trySend
  split
  · rename_i h; simp [h]
  · rename_i h
    split
    · rename_i hf; simp [hf]
    · rename_i hf
      simp only [Except.ok.injEq, Bool.not_eq_true] at h hf ⊢
      exact ⟨fun he => ⟨h, hf, he.symm⟩, fun he => he.2.2.symm⟩

theorem sent_trySend {c c' : Fifo α} {a : α} (h : c.trySend a = .ok c') : c'.sent = c.sent ++ [a] := by
  obtain ⟨-, -, rfl⟩ := trySend_eq_ok.1 h
  rfl

theorem trySend_of_accepts {c : Fifo α} (a : α) (h : c.accepts = true) : c.trySend a = .ok (c.offer a) := by
  rw [offer, if_pos h]
  simp only [accepts, Bool.and_eq_true, Bool.not_eq_true'] at h
  exact trySend_eq_ok.2 ⟨h.1, h.2, rfl⟩

/-- A refused send found the channel closed or full. -/
theorem trySend_of_not_accepts {c : Fifo α} (a : α) (h : c.accepts = false) : ∃ e, c.trySend a = .error e := by
  cases he : c.trySend a with
  | error e => exact ⟨e, rfl⟩
  | ok c' =>
    obtain ⟨hc, hf, -⟩ := trySend_eq_ok.1 he
    simp [accepts, hc, hf] at h

theorem sent_offer (c : Fifo α) (a : α) : (c.offer a).sent = c.sent ++ if c.accepts then [a] else [] := by
  unfold offer; split <;> simp

/-- A send refused for want of room found as many messages sent as there is room for. -/
theorem capacity_le_of_full {c : Fifo α} {a : α} (h : c.trySend a = .error .full) : c.capacity ≤ c.sent.length := by
  unfold trySend at h
  split at h
  · cases h
  · split at h
    · rename_i hf
      have : c.capacity ≤ c.queued.length := of_decide_eq_true hf
      rw [queued, List.length_drop] at this
      omega
    · cases h

theorem capacity_offer (c : Fifo α) (a : α) : (c.offer a).capacity = c.capacity := by unfold offer; split <;> rfl

/-- **What has room is not refused for want of it.** -/
theorem sendAll_not_full : ∀ (c : Fifo α) (as : List α) (rx : List Rx), c.sent.length + as.length ≤ c.capacity →
    (c.sendAll as rx).2.2 ≠ some .full ∧ (c.sendAll as rx).1.capacity = c.capacity
  | _, [], _, _ => ⟨nofun, rfl⟩
  | c, a :: as, rx, h => by
    rw [List.length_cons] at h
    unfold sendAll
    split
    · rename_i c' hs
      obtain ⟨-, -, rfl⟩ := trySend_eq_ok.1 hs
      apply sendAll_not_full _ as rx.tail
      simp only [sent_tick, capacity_tick, List.length_append, List.length_singleton]
      omega
    · rename_i e he
      refine ⟨fun hfull => ?_, rfl⟩
      cases hfull
      have := capacity_le_of_full he
      simp only [sent_tick, capacity_tick] at this
      omega

/-- **Sending conserves messages**: those on the channel and those not sent are the ones there were, in order. -/
theorem sendAll_conserves : ∀ (c : Fifo α) (as : List α) (rx : List Rx),
    (c.sendAll as rx).1.sent ++ (c.sendAll as rx).2.1 = c.sent ++ as
  | _, [], _ => rfl
  | c, a :: as, rx => by
    unfold sendAll
    split
    · rename_i c' h
      rw [sendAll_conserves c' as rx.tail, sent_trySend h, sent_tick, List.append_assoc]
      rfl
    · rfl

/-- Sending takes nothing off the channel. -/
theorem sent_le_sendAll : ∀ (c : Fifo α) (as : List α) (rx : List Rx), c.sent.length ≤ (c.sendAll as rx).1.sent.length
  | _, [], _ => Nat.le_refl _
  | c, a :: as, rx => by
    unfold sendAll
    split
    · rename_i c' h
      refine Nat.le_trans ?_ (sent_le_sendAll c' as rx.tail)
      rw [sent_trySend h, sent_tick, List.length_append]
      exact Nat.le_add_right _ _
    · exact Nat.le_refl _

/-- All was sent unless one was refused. -/
theorem sendAll_unsent : ∀ (c : Fifo α) (as : List α) (rx : List Rx),
    (c.sendAll as rx).2.1 = [] ↔ (c.sendAll as rx).2.2 = none
  | _, [], _ => by simp [sendAll]
  | c, a :: as, rx => by
    unfold sendAll
    split
    · rename_i c' h
      exact sendAll_unsent c' as rx.tail
    · simp

/-- A receiver takes from the front. -/
theorem queued_tick (rx : Rx) (c : Fifo α) : ∃ taken, c.queued = taken ++ (c.tick rx).queued ∧
    (rx.take = 0 → taken = []) := by
  rcases Nat.le_total c.sent.length c.received with hle | hle
  · refine ⟨[], ?_, fun _ => rfl⟩
    have hmin : (c.tick rx).received = c.sent.length := by
      unfold tick
      dsimp only
      omega
    rw [queued, queued, hmin, sent_tick, List.drop_length, List.drop_eq_nil_of_le hle, List.nil_append]
  · refine ⟨(c.queued).take rx.take, ?_, fun h => by rw [h, List.take_zero]⟩
    have hdrop : (c.tick rx).queued = c.queued.drop rx.take := by
      rw [queued, queued, sent_tick, List.drop_drop]
      show c.sent.drop (min (c.received + rx.take) c.sent.length) = _
      rcases Nat.le_total (c.received + rx.take) c.sent.length with h | h
      · rw [Nat.min_eq_left h]
      · rw [Nat.min_eq_right h, List.drop_length, List.drop_eq_nil_of_le h]
    rw [hdrop, List.take_append_drop]

/-- A send the channel takes goes to the end of the queue. -/
theorem queued_trySend {c c' : Fifo α} {a : α} {rx : Rx} (h : (c.tick rx).trySend a = .ok c') :
    c'.queued = (c.tick rx).queued ++ [a] := by
  obtain ⟨-, -, rfl⟩ := trySend_eq_ok.1 h
  have hle : (c.tick rx).received ≤ (c.tick rx).sent.length := Nat.min_le_right _ _
  rw [queued, queued]
  exact List.drop_append_of_le_length hle

/-- **Sending conserves what is queued**: what the receiver took meanwhile, what is queued after and what was not sent
are what was queued before and what was to be sent, in order. -/
theorem sendAll_queued : ∀ (c : Fifo α) (as : List α) (rx : List Rx), ∃ taken,
    taken ++ ((c.sendAll as rx).1.queued ++ (c.sendAll as rx).2.1) = c.queued ++ as ∧ (rx = [] → taken = [])
  | c, [], rx => ⟨[], rfl, fun _ => rfl⟩
  | c, a :: as, rx => by
    obtain ⟨taken, htaken, hnone⟩ := c.queued_tick (rx.headD {})
    have hidle : rx = [] → taken = [] := by
      rintro rfl
      exact hnone rfl
    unfold sendAll
    split
    · rename_i c' h
      obtain ⟨taken', htaken', hnone'⟩ := sendAll_queued c' as rx.tail
      refine ⟨taken ++ taken', ?_, ?_⟩
      · rw [List.append_assoc, htaken', queued_trySend h, htaken]
        simp
      · rintro rfl
        rw [hidle rfl, hnone' rfl]
        rfl
    · refine ⟨taken, ?_, hidle⟩
      rw [htaken, List.append_assoc]

/-- **Whether all is sent**, while nothing is received: a closed channel refuses the first message, an open one the
first it has no room for. -/
theorem sendAll_result : ∀ (c : Fifo α) (as : List α), (c.sendAll as []).2.2 =
    if as = [] then none else if c.closed then some .closed
    else if c.queued.length + as.length ≤ c.capacity then none else some .full
  | _, [] => rfl
  | c, a :: as => by
    obtain ⟨taken, htaken, hnone⟩ := c.queued_tick {}
    obtain rfl := hnone rfl
    rw [List.nil_append] at htaken
    have hclosed : (c.tick {}).closed = c.closed := Bool.or_false c.closed
    unfold sendAll
    rw [List.headD_nil, if_neg (List.cons_ne_nil a as)]
    split
    · rename_i c' h
      have hqueued := queued_trySend h
      obtain ⟨hopen, hroom, rfl⟩ := trySend_eq_ok.1 h
      rw [hclosed] at hopen
      have hlen : c.queued.length < c.capacity := by
        rw [htaken]
        exact Nat.lt_of_not_le (of_decide_eq_false hroom)
      rw [List.tail_nil, sendAll_result, hqueued, ← htaken]
      dsimp only
      rw [hclosed, hopen, capacity_tick, List.length_append, List.length_singleton, List.length_cons]
      by_cases has : as = []
      · subst has
        simp [Nat.succ_le_of_lt hlen]
      · rw [if_neg has, Nat.add_right_comm, Nat.add_assoc]
    · rename_i e h
      unfold trySend at h
      rw [hclosed] at h
      split at h
      · rename_i hc
        cases h
        rw [if_pos hc]
      · rename_i hc
        split at h
        · rename_i hf
          cases h
          have hfull : c.capacity ≤ c.queued.length := by
            rw [htaken]
            exact of_decide_eq_true hf
          rw [if_neg hc, if_neg]
          rw [List.length_cons]
          omega
        · cases h

/-- More was sent, and more received. -/
structure Grows (c c' : Fifo α) : Prop where
  sent : c.sent <+: c'.sent
  received : c.received ≤ c.sent.length → c.received ≤ c'.received ∧ c'.received ≤ c'.sent.length

theorem Grows.refl (c : Fifo α) : Grows c c := ⟨List.prefix_rfl, fun h => ⟨Nat.le_refl _, h⟩⟩

theorem Grows.trans {a b c : Fifo α} (h : Grows a b) (h' : Grows b c) : Grows a c := by
  refine ⟨h.sent.trans h'.sent, fun hr => ?_⟩
  obtain ⟨hle, hwithin⟩ := h.received hr
  obtain ⟨hle', hwithin'⟩ := h'.received hwithin
  exact ⟨Nat.le_trans hle hle', hwithin'⟩

theorem grows_tick (rx : Rx) (c : Fifo α) : Grows c (c.tick rx) := by
  refine ⟨List.prefix_rfl, fun h => ⟨?_, Nat.min_le_right _ _⟩⟩
  exact Nat.le_min.2 ⟨Nat.le_add_right _ _, h⟩

theorem grows_trySend {c c' : Fifo α} {a : α} (h : c.trySend a = .ok c') : Grows c c' := by
  obtain ⟨-, -, rfl⟩ := trySend_eq_ok.1 h
  exact ⟨List.prefix_append _ _, fun h => ⟨Nat.le_refl _, Nat.le_trans h (List.prefix_append _ _).length_le⟩⟩

theorem grows_offer (c : Fifo α) (a : α) : Grows c (c.offer a) := by
  cases h : c.accepts with
  | true => exact grows_trySend (trySend_of_accepts a h)
  | false =>
    rw [offer, h]
    exact .refl c

theorem grows_sendAll : ∀ (c : Fifo α) (as : List α) (rx : List Rx), Grows c (c.sendAll as rx).1
  | c, [], _ => .refl c
  | c, a :: as, rx => by
    unfold sendAll
    split
    · rename_i c' h
      exact ((grows_tick _ c).trans (grows_trySend h)).trans (grows_sendAll c' as rx.tail)
    · exact grows_tick _ c

/-- What was received stays so. -/
theorem Grows.taken {c c' : Fifo α} (h : Grows c c') (hr : c.received ≤ c.sent.length) (n : Nat) :
    c.sent.take (c.received - n) <+: c'.sent.take (c'.received - n) := by
  have hle := (h.received hr).1
  refine List.prefix_take_iff.2 ⟨(List.take_prefix _ _).trans h.sent, ?_⟩
  rw [List.length_take]
  omega

end Fifo
