import Mathlib.Algebra.Order.Ring.Unbundled.Rat
import Mathlib.Algebra.Field.Rat
import Drocsid.State
import Drocsid.TokenBucket
/-!
# RateLimit — the message rate limiter (`crates/server/src/state.rs`)

Each address has a token bucket, made full at its first message; stale ones are forgotten.  Times and tokens are exact.
What an address is allowed is what one bucket of its own grants it, whatever is cleaned up and whoever else sends
(`cleanup_unobservable`); so in no window is it allowed more than the burst and what the rate gives (`allowed_window`).
-/
namespace Drocsid
namespace Server

/-- `Instant` and `Duration`, in seconds. -/
abbrev Seconds := ℚ

def messageRatePerSecond : ℚ := 10
def messageBurstSize : ℚ := 20
def rateLimitIdleExpiry : Seconds := 60

structure RateLimitState where
  tokens     : ℚ
  lastRefill : Seconds
  deriving DecidableEq, Repr

abbrev RateLimits := Table IpAddr RateLimitState

/-- `Instant::duration_since`, which saturates. -/
def durationSince (now earlier : Seconds) : Seconds := max (now - earlier) 0

def allowMessage (rateLimits : RateLimits) (now : Seconds) (senderAddr : SocketAddr) :
    Except ServerError Unit × RateLimits :=
  let limiter := (rateLimits.get? senderAddr.ip).getD ⟨messageBurstSize, now⟩
  let elapsed := durationSince now limiter.lastRefill
  let tokens := min (limiter.tokens + elapsed * messageRatePerSecond) messageBurstSize
  if tokens < 1 then (.error .messageRateLimitExceeded, rateLimits.insert senderAddr.ip ⟨tokens, now⟩)
  else (.ok (), rateLimits.insert senderAddr.ip ⟨tokens - 1, now⟩)

def cleanupRateLimits (rateLimits : RateLimits) (now : Seconds) : RateLimits :=
  rateLimits.retain fun _ limiter => decide (durationSince now limiter.lastRefill < rateLimitIdleExpiry)

/-! ## Runs -/

/-- A call of the limiter, with the time it read. -/
inductive LimiterCall
  | allow (now : Seconds) (senderAddr : SocketAddr)
  | cleanup (now : Seconds)
  deriving DecidableEq, Repr

/-- What an `allow_message` was asked and answered. -/
structure Decision where
  now        : Seconds
  senderAddr : SocketAddr
  result     : Except ServerError Unit
  deriving DecidableEq

/-- The decisions of a list of calls, in the order they take the mutex. -/
def decisions : RateLimits → List LimiterCall → List Decision
  | _, [] => []
  | rateLimits, .allow now sender :: calls =>
    ⟨now, sender, (allowMessage rateLimits now sender).1⟩ :: decisions (allowMessage rateLimits now sender).2 calls
  | rateLimits, .cleanup now :: calls => decisions (cleanupRateLimits rateLimits now) calls

def LimiterCall.now : LimiterCall → Seconds
  | .allow now _ => now
  | .cleanup now => now

/-- An `allow_message` of this address. -/
def LimiterCall.isAllowFor (ip : IpAddr) : LimiterCall → Bool
  | .allow _ sender => sender.ip == ip
  | .cleanup _ => false

/-- `Instant::now()` does not decrease.  `allow_message` reads it with the mutex locked, so not before any call that
came earlier; `cleanup_rate_limits` reads it before it locks the mutex, so only not after any that comes later. -/
def Timely (calls : List LimiterCall) : Prop := calls.Pairwise fun c d => ∀ now sender, d = .allow now sender →
    c.now ≤ now

/-- The decisions for one address. -/
def decisionsFor (ip : IpAddr) (ds : List Decision) : List Decision := ds.filter fun d => d.senderAddr.ip == ip

def Decision.accepted (d : Decision) : Bool := d.result.isOk

/-! ## One bucket for each address -/

abbrev Bucket := TokenBucket ℚ

def RateLimitState.bucket (limiter : RateLimitState) : Bucket := ⟨limiter.tokens, limiter.lastRefill⟩

namespace RateLimit

/-- The bucket an address would find. -/
def bucketOf (rateLimits : RateLimits) (ip : IpAddr) (now : Seconds) : Bucket :=
  ((rateLimits.get? ip).map (·.bucket)).getD (.full messageBurstSize now)

def refill (b : Bucket) (now : Seconds) : Bucket := b.refill messageRatePerSecond messageBurstSize now

def take (b : Bucket) (now : Seconds) : Bool × Bucket := b.take messageRatePerSecond messageBurstSize now

/-- `allow_message`'s answer. -/
def answer (granted : Bool) : Except ServerError Unit := if granted then .ok () else .error .messageRateLimitExceeded

@[simp] theorem isOk_answer (granted : Bool) : (answer granted).isOk = granted := by
  cases granted <;> rfl

/-- No bucket owes tokens. -/
def Solvent (rateLimits : RateLimits) : Prop := ∀ ip limiter, rateLimits.get? ip = some limiter → 0 ≤ limiter.tokens

theorem solvent_empty : Solvent .empty := by
  intro ip limiter h
  cases h

theorem Solvent.bucketOf {rateLimits : RateLimits} (h : Solvent rateLimits) (ip : IpAddr) (now : Seconds) :
    0 ≤ (bucketOf rateLimits ip now).tokens := by
  unfold RateLimit.bucketOf
  cases he : rateLimits.get? ip with
  | none => exact (by decide +kernel : (0 : ℚ) ≤ messageBurstSize)
  | some limiter => exact h ip limiter he

theorem rate_nonneg : 0 ≤ messageRatePerSecond := by decide +kernel

theorem burst_nonneg : 0 ≤ messageBurstSize := by decide +kernel

/-- **`allow_message` takes from the address's bucket**, and leaves the other buckets. -/
theorem allowMessage_eq (rateLimits : RateLimits) (now : Seconds) (sender : SocketAddr) :
    (allowMessage rateLimits now sender).1 = answer (take (bucketOf rateLimits sender.ip now) now).1 ∧
    ∀ ip u, bucketOf (allowMessage rateLimits now sender).2 ip u =
      if ip = sender.ip then (take (bucketOf rateLimits sender.ip now) now).2 else bucketOf rateLimits ip u := by
  have hbucket : bucketOf rateLimits sender.ip now =
      ((rateLimits.get? sender.ip).getD ⟨messageBurstSize, now⟩).bucket := by
    unfold bucketOf
    cases rateLimits.get? sender.ip <;> rfl
  have htake : take (bucketOf rateLimits sender.ip now) now =
      if min (((rateLimits.get? sender.ip).getD ⟨messageBurstSize, now⟩).tokens +
          durationSince now ((rateLimits.get? sender.ip).getD ⟨messageBurstSize, now⟩).lastRefill *
            messageRatePerSecond)
          messageBurstSize < 1 then
        (false, ⟨min (((rateLimits.get? sender.ip).getD ⟨messageBurstSize, now⟩).tokens +
          durationSince now ((rateLimits.get? sender.ip).getD ⟨messageBurstSize, now⟩).lastRefill *
            messageRatePerSecond)
          messageBurstSize, now⟩)
      else (true, ⟨min (((rateLimits.get? sender.ip).getD ⟨messageBurstSize, now⟩).tokens +
          durationSince now ((rateLimits.get? sender.ip).getD ⟨messageBurstSize, now⟩).lastRefill *
            messageRatePerSecond)
          messageBurstSize - 1, now⟩) := by
    rw [hbucket]
    rfl
  rw [htake]
  unfold allowMessage
  simp only
  split
  · refine ⟨rfl, ?_⟩
    intro ip u
    unfold bucketOf
    rw [Table.get?_insert]
    split <;> rfl
  · refine ⟨rfl, ?_⟩
    intro ip u
    unfold bucketOf
    rw [Table.get?_insert]
    split <;> rfl

theorem Solvent.allowMessage {rateLimits : RateLimits} (h : Solvent rateLimits) (now : Seconds) (sender : SocketAddr) :
    Solvent (allowMessage rateLimits now sender).2 := by
  intro ip limiter hl
  have hbucket := (allowMessage_eq rateLimits now sender).2 ip now
  have hfound : RateLimit.bucketOf (Server.allowMessage rateLimits now sender).2 ip now = limiter.bucket := by
    unfold RateLimit.bucketOf
    rw [hl]
    rfl
  rw [hfound] at hbucket
  show 0 ≤ limiter.bucket.tokens
  rw [hbucket]
  split
  · exact TokenBucket.take_nonneg rate_nonneg burst_nonneg (h.bucketOf sender.ip now) now
  · exact h.bucketOf ip now

theorem get?_cleanupRateLimits (rateLimits : RateLimits) (now : Seconds) (ip : IpAddr) :
    (cleanupRateLimits rateLimits now).get? ip =
      (rateLimits.get? ip).filter fun limiter => decide (durationSince now limiter.lastRefill < rateLimitIdleExpiry) :=
  Table.get?_retain _ _ ip

theorem Solvent.cleanup {rateLimits : RateLimits} (h : Solvent rateLimits) (now : Seconds) :
    Solvent (cleanupRateLimits rateLimits now) := by
  intro ip limiter hl
  rw [get?_cleanupRateLimits] at hl
  exact h ip limiter (Option.mem_filter_iff.1 hl).1

/-- **A forgotten bucket would be full**: it has been idle for longer than the burst takes to refill. -/
theorem refill_cleanup {rateLimits : RateLimits} (h : Solvent rateLimits) {now u : Seconds} (hu : now ≤ u)
    (ip : IpAddr) :
    refill (bucketOf (cleanupRateLimits rateLimits now) ip u) u = refill (bucketOf rateLimits ip u) u := by
  unfold bucketOf
  rw [get?_cleanupRateLimits]
  cases hl : rateLimits.get? ip with
  | none => rfl
  | some limiter =>
    by_cases hkeep : durationSince now limiter.lastRefill < rateLimitIdleExpiry
    · rw [Option.filter_some_pos (by simpa using hkeep)]
    · rw [Option.filter_some_neg (by simpa using hkeep)]
      have hidle : rateLimitIdleExpiry ≤ TokenBucket.elapsed u limiter.lastRefill := by
        apply le_trans (not_lt.1 hkeep)
        exact max_le_max (sub_le_sub_right hu _) (le_refl 0)
      have hrefills : messageBurstSize ≤ rateLimitIdleExpiry * messageRatePerSecond := by decide +kernel
      exact (TokenBucket.refill_idle rate_nonneg (b := limiter.bucket) (h ip limiter hl) hidle hrefills).symm

/-! ## Every run -/

/-- The times of the calls of `allow_message`. -/
def allowTimes (calls : List LimiterCall) : List Seconds :=
  calls.filterMap fun c => match c with
    | .allow now _ => some now
    | .cleanup _   => none

theorem mem_allowTimes {calls : List LimiterCall} {u : Seconds} : u ∈ allowTimes calls ↔
    ∃ sender, .allow u sender ∈ calls := by
  unfold allowTimes
  rw [List.mem_filterMap]
  constructor
  · rintro ⟨c, hc, he⟩
    cases c with
    | allow now sender =>
      cases he
      exact ⟨sender, hc⟩
    | cleanup => cases he
  · rintro ⟨sender, h⟩
    exact ⟨.allow u sender, h, rfl⟩

/-- At these times the two would find the address's bucket refilled to the same. -/
def Alike (ip : IpAddr) (times : List Seconds) (l l' : RateLimits) : Prop :=
  ∀ u ∈ times, refill (bucketOf l ip u) u = refill (bucketOf l' ip u) u

/-- **A run decides for one address as the run of that address alone.**  The two tables agree on its bucket at all times
to come. -/
theorem decisionsFor_decisions (ip : IpAddr) : ∀ (calls : List LimiterCall) {l l' : RateLimits}, Solvent l →
    Solvent l' → Timely calls → Alike ip (allowTimes calls) l l' →
    decisionsFor ip (decisions l calls) = decisions l' (calls.filter (LimiterCall.isAllowFor ip)) := by
  intro calls
  induction calls with
  | nil => intros; rfl
  | cons c calls ih =>
    intro l l' hl hl' htimely halike
    obtain ⟨hlater, hcalls⟩ := List.pairwise_cons.1 htimely
    cases c with
    | allow now sender =>
      have hrest : Alike ip (allowTimes calls) l l' := fun u hu => halike u (List.mem_cons_of_mem now hu)
      obtain ⟨hans, hnext⟩ := allowMessage_eq l now sender
      by_cases hip : sender.ip = ip
      · subst hip
        obtain ⟨hans', hnext'⟩ := allowMessage_eq l' now sender
        have htake : take (bucketOf l sender.ip now) now = take (bucketOf l' sender.ip now) now :=
          TokenBucket.take_congr (halike now List.mem_cons_self)
        have hafter : Alike sender.ip (allowTimes calls)
          (allowMessage l now sender).2 (allowMessage l' now sender).2 := by
          intro u _
          rw [hnext, hnext', if_pos rfl, if_pos rfl, htake]
        have hih := ih (hl.allowMessage now sender) (hl'.allowMessage now sender) hcalls hafter
        rw [List.filter_cons_of_pos (by simp [LimiterCall.isAllowFor])]
        rw [decisions, decisions, decisionsFor, List.filter_cons_of_pos (by simp), hans, hans', htake]
        exact congrArg (List.cons _) hih
      · have hafter : Alike ip (allowTimes calls) (allowMessage l now sender).2 l' := by
          intro u hu
          rw [hnext, if_neg (Ne.symm hip)]
          exact hrest u hu
        have hih := ih (hl.allowMessage now sender) hl' hcalls hafter
        rw [List.filter_cons_of_neg (by simpa [LimiterCall.isAllowFor] using hip)]
        rw [decisions, decisionsFor, List.filter_cons_of_neg (by simpa using hip)]
        exact hih
    | cleanup now =>
      have hafter : Alike ip (allowTimes calls) (cleanupRateLimits l now) l' := by
        intro u hu
        obtain ⟨sender, hmem⟩ := mem_allowTimes.1 hu
        have hnow : now ≤ u := hlater _ hmem u sender rfl
        rw [refill_cleanup hl hnow]
        exact halike u hu
      exact ih (hl.cleanup now) hl' hcalls hafter

/-- **Cleaning up is unobservable, and addresses are independent**: the decisions for an address are those of the run
with all cleanups and all other addresses' calls removed. -/
theorem cleanup_unobservable (calls : List LimiterCall) (h : Timely calls) (ip : IpAddr) :
    decisionsFor ip (decisions .empty calls) = decisions .empty (calls.filter (LimiterCall.isAllowFor ip)) :=
  decisionsFor_decisions ip calls solvent_empty solvent_empty h fun _ _ => rfl

/-- Bob at the first second, a cleanup after he has been idle for the expiry, and bob again. -/
def bobCalls : List LimiterCall := [.allow 1 (.v4 1 1), .cleanup 61, .allow 61 (.v4 1 2)]

theorem timely_bobCalls : Timely bobCalls := by
  unfold Timely bobCalls
  simp [LimiterCall.now]

theorem cleanup_unobservable_bob :
    decisionsFor (.v4 1) (decisions .empty bobCalls) =
      decisions .empty (bobCalls.filter (LimiterCall.isAllowFor (.v4 1))) :=
  cleanup_unobservable bobCalls timely_bobCalls (.v4 1)

/-! ## Windows -/

/-- The run of one address is its bucket's. -/
theorem accepted_granted (ip : IpAddr) : ∀ (calls : List LimiterCall) (l : RateLimits) (b : Bucket),
    (∀ c ∈ calls, c.isAllowFor ip = true) → (∀ u ∈ allowTimes calls, refill (bucketOf l ip u) u = refill b u) →
    ((decisions l calls).filter Decision.accepted).map Decision.now =
      b.granted messageRatePerSecond messageBurstSize (allowTimes calls) := by
  intro calls
  induction calls with
  | nil => intros; rfl
  | cons c calls ih =>
    intro l b honly hsame
    have hrest : ∀ c ∈ calls, c.isAllowFor ip = true := fun c hc => honly c (List.mem_cons_of_mem _ hc)
    cases c with
    | cleanup now => cases honly _ List.mem_cons_self
    | allow now sender =>
      have hip : sender.ip = ip := by simpa [LimiterCall.isAllowFor] using honly _ List.mem_cons_self
      subst hip
      obtain ⟨hans, hnext⟩ := allowMessage_eq l now sender
      have htake : take (bucketOf l sender.ip now) now = take b now :=
        TokenBucket.take_congr (hsame now List.mem_cons_self)
      have hih := ih (allowMessage l now sender).2 (take b now).2 hrest fun u _ => by rw [hnext, if_pos rfl, htake]
      rw [decisions, hans, htake]
      show _ = b.granted messageRatePerSecond messageBurstSize (now :: allowTimes calls)
      unfold TokenBucket.granted
      cases hok : (take b now).1 with
      | true =>
        rw [List.filter_cons_of_pos (by simp [Decision.accepted]), List.map_cons, hih]
        exact (if_pos hok).symm
      | false =>
        rw [List.filter_cons_of_neg (by simp [Decision.accepted]), hih]
        refine (if_neg ?_).symm
        intro h
        exact Bool.false_ne_true (hok.symm.trans h)

theorem allowTimes_sorted {calls : List LimiterCall} (h : Timely calls) : (allowTimes calls).Pairwise (· ≤ ·) := by
  unfold allowTimes
  rw [List.pairwise_filterMap]
  refine List.Pairwise.imp ?_ h
  intro c d hle u hu v hv
  cases c with
  | cleanup => cases hu
  | allow now sender =>
    cases d with
    | cleanup => cases hv
    | allow now' sender' =>
      cases hu
      cases hv
      exact hle _ _ rfl

/-- **In a window an address is allowed no more than the burst and what the rate gives**, from whatever ports it calls
and whenever it comes back. -/
theorem allowed_window (calls : List LimiterCall) (h : Timely calls) (ip : IpAddr) (s t : Seconds) (hst : s ≤ t) :
    (((decisions .empty calls).countP fun d =>
        d.senderAddr.ip == ip && d.accepted && decide (s ≤ d.now ∧ d.now ≤ t) : Nat) : ℚ) ≤
      messageBurstSize + messageRatePerSecond * (t - s) := by
  have halone := cleanup_unobservable calls h ip
  have honly : ∀ c ∈ calls.filter (LimiterCall.isAllowFor ip), c.isAllowFor ip = true :=
    fun c hc => (List.mem_filter.1 hc).2
  have htimely : Timely (calls.filter (LimiterCall.isAllowFor ip)) := List.Pairwise.filter _ h
  generalize calls.filter (LimiterCall.isAllowFor ip) = own at halone honly htimely
  have hsorted := allowTimes_sorted htimely
  have hcount : (decisions .empty calls).countP (fun d => d.senderAddr.ip == ip && d.accepted &&
    decide (s ≤ d.now ∧ d.now ≤ t)) =
      TokenBucket.within s t (((decisions .empty own).filter Decision.accepted).map Decision.now) := by
    rw [← halone, decisionsFor, TokenBucket.within, List.countP_map, List.countP_filter, List.countP_filter]
    apply List.countP_congr
    intro d _
    simp only [Function.comp, Bool.and_eq_true, decide_eq_true_eq]
    constructor
    · rintro ⟨⟨hip, hok⟩, hin⟩
      exact ⟨⟨hin, hok⟩, hip⟩
    · rintro ⟨⟨hin, hok⟩, hip⟩
      exact ⟨⟨hip, hok⟩, hin⟩
  rw [hcount]
  cases htimes : allowTimes own with
  | nil =>
    have hgranted := accepted_granted ip own .empty (.full messageBurstSize 0) honly
      (by rw [htimes]; intro u hu; cases hu)
    rw [hgranted, htimes]
    exact TokenBucket.granted_window rate_nonneg burst_nonneg hst [] (.full messageBurstSize 0) burst_nonneg
      (fun u hu => by cases hu) .nil
  | cons first times =>
    have hgranted := accepted_granted ip own .empty (.full messageBurstSize first) honly fun u _ =>
      (TokenBucket.refill_full rate_nonneg first u).symm
    rw [hgranted, htimes]
    rw [htimes] at hsorted
    refine TokenBucket.granted_window rate_nonneg burst_nonneg hst _ (.full messageBurstSize first) burst_nonneg ?_
      hsorted
    intro u hu
    rcases List.mem_cons.1 hu with rfl | hu
    · exact le_refl _
    · exact (List.pairwise_cons.1 hsorted).1 u hu

theorem allowed_window_bob : (((decisions .empty bobCalls).countP fun d =>
      d.senderAddr.ip == .v4 1 && d.accepted && decide (1 ≤ d.now ∧ d.now ≤ 61) : Nat) : ℚ) ≤
    messageBurstSize + messageRatePerSecond * (61 - 1) :=
  allowed_window bobCalls timely_bobCalls (.v4 1) 1 61 (by decide +kernel)

end RateLimit
end Server
end Drocsid
