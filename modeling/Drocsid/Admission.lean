import Drocsid.Session
/-!
# Admission — `ConnectionAdmission` by itself (`crates/server/src/lib.rs`)

`try_acquire` takes from the semaphore, and then from the address's count; dropping the permit it gave gives both back,
the count first. Call after call, both are exact for the permits outstanding (`Admission.Counts`), so an attempt is
refused at a limit only, and a count never goes below zero (`admission_exact`).
-/
namespace Drocsid
namespace Server

/-- `try_acquire`, whole: whether it granted a permit, which then goes by the number given. -/
def Admission.tryAcquire (ad : Admission) (permit : Nat) (address : SocketAddr) : Bool × Admission :=
  match ad.acquire permit with
  | none => (false, ad)
  | some ad =>
    match ad.acquireIp permit address.ip with
    | none => (false, ad.dropGlobal permit)
    | some ad => (true, ad)

/-- A `ConnectionPermit` is dropped: `drop`, and then its fields. -/
def Admission.drop (ad : Admission) (permit : Nat) (ip : IpAddr) : Option Admission :=
  (ad.dropPermit permit ip).map fun ad => ad.dropGlobal permit

/-- The permits outstanding for an address. -/
def Admission.outstanding (ad : Admission) (ip : IpAddr) : Nat := ad.permits.countP fun permit => permit.2 = ip

/-- The semaphore and the counts are exact for the permits. -/
structure Admission.Counts (ad : Admission) : Prop where
  available : ad.available + ad.permits.length = maxConnections
  perIp : ∀ ip, ad.perIp.get? ip = slots (ad.outstanding ip)

theorem counts_new : Admission.new.Counts where
  available := rfl
  perIp _ := rfl

theorem Admission.acquire_eq (ad : Admission) (permit : Nat) : ad.acquire permit =
    if 0 < ad.available then some { ad with available := ad.available - 1, globals := permit :: ad.globals }
      else none := by
  unfold Admission.acquire
  split
  · rename_i h
    rw [h]
    rfl
  · rename_i n h
    rw [h, if_pos (Nat.succ_pos n)]
    rfl

/-! ## One attempt, by what it runs into -/

theorem Admission.tryAcquire_full {ad : Admission} (hfull : ad.available = 0) (permit : Nat) (address : SocketAddr) :
    ad.tryAcquire permit address = (false, ad) := by
  unfold Admission.tryAcquire
  rw [Admission.acquire_eq, if_neg (by omega)]

/-- A connection too many of one address gives back what it took of the total. -/
theorem Admission.tryAcquire_refused {ad : Admission} {address : SocketAddr} (hfree : 0 < ad.available)
    (hroom : maxConnectionsPerIp ≤ (ad.perIp.get? address.ip).getD 0) (permit : Nat) :
    ad.tryAcquire permit address = (false, ad) := by
  unfold Admission.tryAcquire
  rw [Admission.acquire_eq, if_pos hfree]
  simp only [Admission.acquireIp, if_pos hroom, Admission.dropGlobal]
  rw [List.erase_cons_head, Nat.sub_add_cancel hfree]

theorem Admission.tryAcquire_granted {ad : Admission} {address : SocketAddr} (hfree : 0 < ad.available)
    (hroom : (ad.perIp.get? address.ip).getD 0 < maxConnectionsPerIp) (permit : Nat) :
    ad.tryAcquire permit address = (true, { ad with
      available := ad.available - 1
      globals := permit :: ad.globals
      perIp := ad.perIp.insert address.ip ((ad.perIp.get? address.ip).getD 0 + 1)
      permits := (permit, address.ip) :: ad.permits }) := by
  unfold Admission.tryAcquire
  rw [Admission.acquire_eq, if_pos hfree]
  simp only [Admission.acquireIp, if_neg (Nat.not_le.2 hroom)]

/-- **An attempt is granted below both limits**, and a refused one changes nothing. -/
theorem Admission.Counts.tryAcquire {ad : Admission} (h : ad.Counts) (permit : Nat) (address : SocketAddr) :
    (ad.permits.length < maxConnections ∧ ad.outstanding address.ip < maxConnectionsPerIp) ∧
      (∃ ad', ad.tryAcquire permit address = (true, ad') ∧ ad'.permits = (permit, address.ip) :: ad.permits ∧
        ad'.Counts) ∨
    ¬ (ad.permits.length < maxConnections ∧ ad.outstanding address.ip < maxConnectionsPerIp) ∧
      ad.tryAcquire permit address = (false, ad) := by
  have havailable := h.available
  have hcount : (ad.perIp.get? address.ip).getD 0 = ad.outstanding address.ip := by rw [h.perIp, slots_getD]
  by_cases hfree : 0 < ad.available
  · by_cases hroom : ad.outstanding address.ip < maxConnectionsPerIp
    · refine Or.inl ⟨⟨by omega, hroom⟩, _, Admission.tryAcquire_granted hfree (by rw [hcount]; exact hroom) permit, rfl,
        ?_, fun ip => ?_⟩
      · show ad.available - 1 + (ad.permits.length + 1) = maxConnections
        omega
      · show (ad.perIp.insert address.ip ((ad.perIp.get? address.ip).getD 0 + 1)).get? ip =
          slots (List.countP _ (_ :: ad.permits))
        rw [hcount, Table.get?_insert, List.countP_cons, h.perIp]
        by_cases hip : ip = address.ip
        · subst hip
          simp [slots, Admission.outstanding]
        · simp [hip, Ne.symm hip, Admission.outstanding]
    · refine Or.inr ⟨fun hlimits => hroom hlimits.2, ?_⟩
      exact Admission.tryAcquire_refused hfree (by rw [hcount]; exact Nat.not_lt.1 hroom) permit
  · refine Or.inr ⟨?_, Admission.tryAcquire_full (by omega) permit address⟩
    rintro ⟨hbelow, -⟩
    omega

/-- **Dropping an outstanding permit** gives back what it took; its count is not zero. -/
theorem Admission.Counts.drop {ad : Admission} (h : ad.Counts) {permit : Nat} {ip : IpAddr}
    (hmem : (permit, ip) ∈ ad.permits) :
    (∃ count, ad.perIp.get? ip = some (count + 1)) ∧
    ∃ ad', ad.drop permit ip = some ad' ∧ ad'.permits = ad.permits.erase (permit, ip) ∧ ad'.Counts := by
  have hperm : ad.permits.Perm ((permit, ip) :: ad.permits.erase (permit, ip)) := List.perm_cons_erase hmem
  have hcount : ∀ i, ad.outstanding i = (ad.permits.erase (permit, ip)).countP (fun p : Nat × IpAddr => p.2 = i) +
      if ip = i then 1 else 0 := by
    intro i
    rw [Admission.outstanding, hperm.countP_eq, List.countP_cons]
    simp
  have hself : ad.perIp.get? ip =
      some ((ad.permits.erase (permit, ip)).countP (fun p : Nat × IpAddr => p.2 = ip) + 1) := by
    rw [h.perIp, hcount]
    simp [slots]
  have hdrop : ad.drop permit ip = some ({ ad with
      perIp := if (ad.permits.erase (permit, ip)).countP (fun p : Nat × IpAddr => p.2 = ip) = 0 then ad.perIp.erase ip
        else ad.perIp.insert ip ((ad.permits.erase (permit, ip)).countP (fun p : Nat × IpAddr => p.2 = ip))
      permits := ad.permits.erase (permit, ip) }.dropGlobal permit) := by
    unfold Admission.drop Admission.dropPermit
    rw [hself]
    rfl
  refine ⟨⟨_, hself⟩, _, hdrop, rfl, ?_, fun i => ?_⟩
  · have havailable := h.available
    rw [hperm.length_eq, List.length_cons] at havailable
    show ad.available + 1 + (ad.permits.erase (permit, ip)).length = maxConnections
    omega
  · show Table.get? (if _ then _ else _) i =
      slots ((ad.permits.erase (permit, ip)).countP (fun p : Nat × IpAddr => p.2 = i))
    by_cases hi : i = ip
    · subst hi
      split
      · rename_i hzero
        rw [Table.get?_erase, if_pos rfl, hzero]
        rfl
      · rename_i hpos
        rw [Table.get?_insert, if_pos rfl, slots, if_neg hpos]
    · have hother : ad.perIp.get? i =
          slots ((ad.permits.erase (permit, ip)).countP (fun p : Nat × IpAddr => p.2 = i)) := by
        rw [h.perIp, hcount, if_neg (Ne.symm hi), Nat.add_zero]
      split
      · rw [Table.get?_erase, if_neg hi, hother]
      · rw [Table.get?_insert, if_neg hi, hother]

/-! ## Call after call -/

/-- The admission, and the number of the next permit. -/
structure Admitting where
  admission : Admission
  next      : Nat

inductive AdmissionCall
  | tryAcquire (address : SocketAddr)
  | drop (permit : Nat) (ip : IpAddr)
  deriving DecidableEq, Repr

/-- Attempts for any addresses, and drops of the permits granted, in any order; a drop that would underflow has no
step. -/
def admissions : System Admitting AdmissionCall where
  init := ⟨.new, 0⟩
  step s
    | .tryAcquire address => some ⟨(s.admission.tryAcquire s.next address).2, s.next + 1⟩
    | .drop permit ip =>
      if (permit, ip) ∈ s.admission.permits then (s.admission.drop permit ip).map fun admission => { s with admission }
        else none

theorem counts_of_reach {s : Admitting} (hs : System.Reach admissions System.Any s) : s.admission.Counts := by
  refine hs.invariant (I := fun s => s.admission.Counts) counts_new ?_
  intro s l s' _ h _ hstep
  cases l with
  | tryAcquire address =>
    cases hstep
    show (s.admission.tryAcquire s.next address).2.Counts
    rcases h.tryAcquire s.next address with ⟨-, ad', hr, -, hcounts⟩ | ⟨-, hr⟩
    · rw [hr]
      exact hcounts
    · rw [hr]
      exact h
  | drop permit ip =>
    simp only [admissions] at hstep
    split at hstep
    · rename_i hmem
      obtain ⟨-, ad', hdrop, -, hcounts⟩ := h.drop hmem
      rw [hdrop] at hstep
      cases hstep
      exact hcounts
    · cases hstep

/-- **The admission is exact** after any attempts and drops: the counts and the semaphore are those of the permits
outstanding and no count is zero; the next attempt succeeds exactly below both limits, and leaves both counters alone if
refused; and every outstanding permit can be dropped, without an underflow. -/
theorem admission_exact {s : Admitting} (hs : System.Reach admissions System.Any s) :
    (∀ ip, (s.admission.perIp.get? ip).getD 0 = s.admission.outstanding ip ∧ s.admission.perIp.get? ip ≠ some 0) ∧
    s.admission.available + s.admission.permits.length = maxConnections ∧
    (∀ address, ((s.admission.tryAcquire s.next address).1 = true ↔
        s.admission.permits.length < maxConnections ∧ s.admission.outstanding address.ip < maxConnectionsPerIp) ∧
      ((s.admission.tryAcquire s.next address).1 = true →
        (s.admission.tryAcquire s.next address).2.permits = (s.next, address.ip) :: s.admission.permits) ∧
      ((s.admission.tryAcquire s.next address).1 = false → (s.admission.tryAcquire s.next address).2 = s.admission)) ∧
    ∀ permit ip, (permit, ip) ∈ s.admission.permits → (∃ count, s.admission.perIp.get? ip = some (count + 1)) ∧
      ∃ ad, s.admission.drop permit ip = some ad ∧ ad.permits = s.admission.permits.erase (permit, ip) := by
  have h := counts_of_reach hs
  refine ⟨fun ip => ⟨?_, ?_⟩, h.available, fun address => ?_, fun permit ip hmem => ?_⟩
  · rw [h.perIp, slots_getD]
  · rw [h.perIp]
    exact slots_ne_zero _
  · rcases h.tryAcquire s.next address with ⟨hlimits, ad', hr, hpermits, -⟩ | ⟨hlimits, hr⟩
    · rw [hr]
      refine ⟨iff_of_true rfl hlimits, fun _ => hpermits, ?_⟩
      intro hfalse
      cases hfalse
    · rw [hr]
      refine ⟨iff_of_false (fun htrue => by cases htrue) hlimits, ?_, fun _ => rfl⟩
      intro htrue
      cases htrue
  · obtain ⟨hcount, ad, hdrop, hpermits, -⟩ := h.drop hmem
    exact ⟨hcount, ad, hdrop, hpermits⟩

/-- Four connections of one address, of which one goes: the fifth is refused, and the sixth admitted. -/
def sixth : List AdmissionCall :=
  List.replicate 5 (.tryAcquire bobAddr) ++ [.drop 2 bobAddr.ip, .tryAcquire aliceAddr]

theorem admission_exact_sixth : ∃ s, System.Reach admissions System.Any s ∧
    s.admission.permits.map Prod.fst = [5, 3, 1, 0] ∧
    ((s.admission.tryAcquire s.next bobAddr).1 = true ↔
      s.admission.permits.length < maxConnections ∧ s.admission.outstanding bobAddr.ip < maxConnectionsPerIp) := by
  obtain ⟨s, hs, ht⟩ := System.exists_of_run admissions (fun s => s.admission.permits.map Prod.fst == [5, 3, 1, 0])
    sixth (by decide)
  exact ⟨s, hs, by simpa using ht, ((admission_exact hs).2.2.1 bobAddr).1⟩

end Server
end Drocsid
