import Mathlib.Data.List.Dedup
import Drocsid.State
import Drocsid.Transition
/-!
# Registry — the two registries and their counters stay in step

A session is known by its address and token (`ServerState.sessionIds`, `deliveryIds`).  Each lock section is described
once by what it does to these and to the deliveries; `Consistent` is kept by every section, and so by every call
(`Calls`).
-/
namespace Drocsid

open Text Protocol

namespace Server

namespace ServerState

def sessionIds (st : ServerState) : List (SocketAddr × ClientToken) := st.sessions.map fun p => (p.1, p.2.token)

def deliveryIds (st : ServerState) : List (SocketAddr × ClientToken) := st.delivering.map fun p => (p.1, p.2.token)

end ServerState

/-- A `per_ip` entry for so many connections. -/
def slots (n : Nat) : Option Nat := if n = 0 then none else some n

theorem slots_getD (n : Nat) : (slots n).getD 0 = n := by
  unfold slots; split <;> simp [*]

theorem slots_ne_zero (n : Nat) : slots n ≠ some 0 := by
  unfold slots
  split
  · exact nofun
  · rename_i h; exact fun he => h (Option.some.inj he)

structure Consistent (st : ServerState) : Prop where
  total : st.clients.total = st.sessionIds.length
  perIp : ∀ ip, st.clients.perIp.get? ip = slots (st.sessionIds.countP (·.1.ip = ip))
  clientsNoEmpty : st.clients.byAddr.NoEmpty
  deliveriesNoEmpty : st.deliveries.byAddr.NoEmpty
  tokens : (st.sessionIds.map Prod.snd).Nodup
  fresh : ∀ p ∈ st.sessionIds, p.2 < st.nextToken
  same : st.deliveryIds.Perm st.sessionIds
  addr : ∀ p ∈ st.delivering, p.2.addr = p.1
  total_le : st.sessionIds.length ≤ maxConnections
  perIp_le : ∀ ip, st.sessionIds.countP (·.1.ip = ip) ≤ maxConnectionsPerIp

theorem consistent_new : Consistent .new where
  total := rfl
  perIp _ := rfl
  clientsNoEmpty := Table.noEmpty_empty
  deliveriesNoEmpty := Table.noEmpty_empty
  tokens := List.nodup_nil
  fresh _ h := by cases h
  same := .nil
  addr _ h := by cases h
  total_le := Nat.zero_le _
  perIp_le _ := Nat.zero_le _

/-- A section that leaves the counters and the ids alone keeps the registries consistent. -/
theorem Consistent.frame {st st' : ServerState} (h : Consistent st) (htotal : st'.clients.total = st.clients.total)
    (hperIp : st'.clients.perIp = st.clients.perIp) (hsessions : st'.sessionIds.Perm st.sessionIds)
    (hdeliveries : st'.deliveryIds.Perm st.deliveryIds) (hce : st'.clients.byAddr.NoEmpty)
    (hde : st'.deliveries.byAddr.NoEmpty) (hfresh : st'.nextToken = st.nextToken)
    (haddr : ∀ p ∈ st'.delivering, p.2.addr = p.1) : Consistent st' where
  total := by rw [htotal, h.total, hsessions.length_eq]
  perIp ip := by rw [hperIp, h.perIp, hsessions.countP_eq]
  clientsNoEmpty := hce
  deliveriesNoEmpty := hde
  tokens := (hsessions.map Prod.snd).nodup_iff.2 h.tokens
  fresh p hp := hfresh ▸ h.fresh p (hsessions.mem_iff.1 hp)
  same := hdeliveries.trans (h.same.trans hsessions.symm)
  addr := haddr
  total_le := hsessions.length_eq ▸ h.total_le
  perIp_le ip := hsessions.countP_eq _ ▸ h.perIp_le ip

/-! ## Looking a client up -/

theorem eq_of_token {st : ServerState} (h : Consistent st) {a b : SocketAddr} {t : ClientToken}
    (ha : (a, t) ∈ st.sessionIds) (hb : (b, t) ∈ st.sessionIds) : a = b :=
  congrArg Prod.fst (List.inj_on_of_nodup_map h.tokens ha hb rfl)

theorem Consistent.deliveryTokens {st : ServerState} (h : Consistent st) : (st.deliveryIds.map Prod.snd).Nodup :=
  (h.same.map Prod.snd).nodup_iff.2 h.tokens

/-- A token has one delivery. -/
theorem Consistent.unique {st : ServerState} (h : Consistent st) {p q : SocketAddr × ClientDelivery}
    (hp : p ∈ st.delivering) (hq : q ∈ st.delivering) (ht : p.2.token = q.2.token) : p = q := by
  have hn := h.deliveryTokens
  rw [ServerState.deliveryIds, List.map_map] at hn
  exact List.inj_on_of_nodup_map hn hp hq ht

theorem mem_delivering {st : ServerState} {a : SocketAddr} {d : ClientDelivery} :
    (a, d) ∈ st.delivering ↔ ∃ l, st.deliveries.byAddr.get? a = some l ∧ d ∈ l := Table.mem_items

theorem mem_sessions {st : ServerState} {a : SocketAddr} {s : ClientSession} :
    (a, s) ∈ st.sessions ↔ ∃ l, st.clients.byAddr.get? a = some l ∧ s ∈ l := Table.mem_items

theorem mem_sessionIds {st : ServerState} {a : SocketAddr} {t : ClientToken} :
    (a, t) ∈ st.sessionIds ↔ ∃ s, (a, s) ∈ st.sessions ∧ s.token = t := by
  simp [ServerState.sessionIds]

theorem mem_deliveryIds {st : ServerState} {a : SocketAddr} {t : ClientToken} :
    (a, t) ∈ st.deliveryIds ↔ ∃ d, (a, d) ∈ st.delivering ∧ d.token = t := by
  simp [ServerState.deliveryIds]

theorem findDelivery_eq_some {st : ServerState} (h : Consistent st) {a : SocketAddr} {t : ClientToken}
    {d : ClientDelivery} : findDelivery st a t = some d ↔ (a, d) ∈ st.delivering ∧ d.token = t := by
  simp only [findDelivery, Option.bind_eq_some_iff]
  constructor
  · rintro ⟨l, hl, hd⟩
    exact ⟨mem_delivering.2 ⟨l, hl, List.mem_of_find?_eq_some hd⟩, by simpa using List.find?_some hd⟩
  · rintro ⟨hd, ht⟩
    obtain ⟨l, hl, hmem⟩ := mem_delivering.1 hd
    refine ⟨l, hl, ?_⟩
    cases hf : l.find? (·.token == t) with
    | none => exact absurd ht (by simpa using List.find?_eq_none.1 hf d hmem)
    | some e =>
      have he := h.unique (mem_delivering.2 ⟨l, hl, List.mem_of_find?_eq_some hf⟩) hd
        (by rw [ht]; simpa using List.find?_some hf)
      rw [(Prod.mk.inj he).2]

theorem findDelivery_eq_none {st : ServerState} (h : Consistent st) {a : SocketAddr} {t : ClientToken} :
    findDelivery st a t = none ↔ (a, t) ∉ st.sessionIds := by
  rw [← h.same.mem_iff, mem_deliveryIds, Option.eq_none_iff_forall_ne_some]
  simp only [ne_eq, findDelivery_eq_some h, not_exists]

/-! ## Registering -/

/-- A refused registration found a limit reached; else one session and one delivery are new, under a fresh token. -/
theorem registerClientWithStatus_ok {st st' : ServerState} {a : SocketAddr} {w : ChannelId} {disc : Option WatchId}
    {r : Bool} {t : ClientToken} (h : registerClientWithStatus st a w disc r = .ok (t, st')) :
    t = st.nextToken ∧ st'.nextToken = t + 1 ∧ st'.sessions.Perm ((a, ⟨t, none⟩) :: st.sessions) ∧
      st'.delivering.Perm ((a, ⟨a, t, w, disc, r, []⟩) :: st.delivering) ∧
      st'.history = st.history ∧ st'.channels = st.channels ∧ st'.disconnects = st.disconnects := by
  unfold registerClientWithStatus at h
  split at h
  · cases h
  · cases h
    exact ⟨rfl, rfl, Table.items_push _ _ _, Table.items_push _ _ _, rfl, rfl, rfl⟩

theorem Consistent.register {st st' : ServerState} (h : Consistent st) {a : SocketAddr} {w : ChannelId}
    {disc : Option WatchId} {r : Bool} {t : ClientToken} (hr : registerClientWithStatus st a w disc r = .ok (t, st')) :
    Consistent st' := by
  obtain ⟨ht, -, hs, hd, -⟩ := registerClientWithStatus_ok hr
  have hids : st'.sessionIds.Perm ((a, t) :: st.sessionIds) := hs.map _
  unfold registerClientWithStatus at hr
  split at hr
  · cases hr
  · rename_i hlimit
    rw [not_or, Nat.not_le, Nat.not_le, h.total, h.perIp, slots_getD] at hlimit
    cases hr
    refine ⟨?_, fun ip => ?_, h.clientsNoEmpty.push _ _, h.deliveriesNoEmpty.push _ _, ?_, fun p hp => ?_, ?_,
      fun p hp => ?_,
      ?_, fun ip => ?_⟩
    · rw [hids.length_eq, List.length_cons, ← h.total]
    · rw [hids.countP_eq, List.countP_cons]
      simp only [Table.get?_insert, h.perIp]
      by_cases hip : ip = a.ip
      · subst hip; simp [slots_getD]; simp [slots]
      · simp [hip, Ne.symm hip]
    · rw [(hids.map Prod.snd).nodup_iff, List.map_cons, List.nodup_cons]
      refine ⟨fun hmem => ?_, h.tokens⟩
      obtain ⟨p, hp, he⟩ := List.mem_map.1 hmem
      exact Nat.ne_of_lt (h.fresh p hp) he
    · rcases List.mem_cons.1 (hids.mem_iff.1 hp) with rfl | hp
      · exact Nat.lt_succ_self _
      · exact Nat.lt_succ_of_lt (h.fresh p hp)
    · exact (hd.map _).trans ((h.same.cons _).trans hids.symm)
    · rcases List.mem_cons.1 (hd.mem_iff.1 hp) with rfl | hp
      · rfl
      · exact h.addr p hp
    · rw [hids.length_eq, List.length_cons]; exact hlimit.1
    · rw [hids.countP_eq, List.countP_cons]
      by_cases hip : a.ip = ip
      · subst hip; simpa [Nat.succ_le_iff] using hlimit.2
      · simpa [hip] using h.perIp_le ip

/-! ## Writing one client -/

theorem map_modifyFirst {α β : Type*} {p : α → Bool} {f : α → α} {g : α → β} (h : ∀ a, g (f a) = g a) :
    ∀ l : List α, (modifyFirst p f l).map g = l.map g
  | [] => rfl
  | a :: l => by
    unfold modifyFirst
    split
    · rw [List.map_cons, List.map_cons, h]
    · rw [List.map_cons, List.map_cons, map_modifyFirst h l]

theorem mem_modifyFirst {α : Type*} {p : α → Bool} {f : α → α} {b : α} :
    ∀ {l : List α}, b ∈ modifyFirst p f l → b ∈ l ∨ ∃ a ∈ l, p a = true ∧ b = f a
  | [], h => by cases h
  | a :: l, h => by
    unfold modifyFirst at h
    split at h
    · rename_i hp
      rcases List.mem_cons.1 h with rfl | h
      · exact .inr ⟨a, List.mem_cons_self, hp, rfl⟩
      · exact .inl (List.mem_cons_of_mem _ h)
    · rcases List.mem_cons.1 h with rfl | h
      · exact .inl List.mem_cons_self
      · rcases mem_modifyFirst h with h | ⟨c, hc, hpc, rfl⟩
        · exact .inl (List.mem_cons_of_mem _ h)
        · exact .inr ⟨c, List.mem_cons_of_mem _ hc, hpc, rfl⟩

/-- The first member with a property that no two have. -/
theorem modifyFirst_eq_map {α : Type*} {p : α → Bool} {f : α → α} : ∀ {l : List α},
    l.Pairwise (fun a b => ¬ (p a = true ∧ p b = true)) → modifyFirst p f l = l.map fun a => if p a then f a else a
  | [], _ => rfl
  | a :: l, h => by
    rw [List.pairwise_cons] at h
    unfold modifyFirst
    split
    · rename_i hp
      rw [List.map_cons, if_pos hp]
      refine congrArg _ (List.map_id'' (fun _ => rfl) l |>.symm.trans (List.map_congr_left fun b hb => ?_))
      rw [if_neg fun hb' => h.1 b hb ⟨hp, hb'⟩]
    · rename_i hp
      rw [List.map_cons, if_neg hp, modifyFirst_eq_map h.2]

/-- **Writing a client**: its delivery is the function of what it was, the others are as they were. -/
theorem delivering_writeDelivery {st : ServerState} (h : Consistent st) (a : SocketAddr) (t : ClientToken)
    (f : ClientDelivery → ClientDelivery) : (writeDelivery st a t f).delivering.Perm
      (st.delivering.map fun p => if p.1 = a ∧ p.2.token = t then (p.1, f p.2) else p) := by
  unfold writeDelivery
  split
  · rename_i hnone
    refine .of_eq ((List.map_congr_left fun p hp => ?_).trans (List.map_id _)).symm
    obtain ⟨l, hl, -⟩ := mem_delivering.1 hp
    exact if_neg fun hk => by rw [← hk.1, hl] at hnone; cases hnone
  · rename_i l hl
    have hpair : l.Pairwise fun d e => ¬ ((d.token == t) = true ∧ (e.token == t) = true) := by
      have hn : (l.map (·.token)).Nodup := by
        have := ((Table.items_of_get? hl).map (·.2.token)).nodup_iff.1
          (by simpa [ServerState.deliveryIds, Function.comp_def, ServerState.delivering] using h.deliveryTokens)
        rw [List.map_append, List.map_map] at this
        exact (List.nodup_append.1 this).1
      refine (List.pairwise_map.1 hn).imp fun hne => ?_
      rintro ⟨h1, h2⟩
      exact hne (by rw [beq_iff_eq] at h1 h2; rw [h1, h2])
    rw [modifyFirst_eq_map hpair]
    refine (Table.items_mapBucket hl _).trans (.of_eq (List.map_congr_left fun p _ => ?_))
    by_cases ht : p.2.token = t <;> simp [ht]

@[simp] theorem sessions_writeDelivery (st : ServerState) (a : SocketAddr) (t : ClientToken) (f) :
    (writeDelivery st a t f).clients = st.clients ∧ (writeDelivery st a t f).history = st.history ∧
      (writeDelivery st a t f).channels = st.channels ∧ (writeDelivery st a t f).disconnects = st.disconnects ∧
      (writeDelivery st a t f).nextToken = st.nextToken := by
  unfold writeDelivery; split <;> exact ⟨rfl, rfl, rfl, rfl, rfl⟩

theorem noEmpty_writeDelivery {st : ServerState} (h : st.deliveries.byAddr.NoEmpty) (a : SocketAddr) (t : ClientToken)
    (f) : (writeDelivery st a t f).deliveries.byAddr.NoEmpty := by
  unfold writeDelivery
  split
  · exact h
  · rename_i l hl
    refine h.insert _ fun hnil => h _ (Table.get?_eq_some.1 hl) ?_
    cases l with
    | nil => rfl
    | cons d l => unfold modifyFirst at hnil; split at hnil <;> cases hnil

theorem deliveryIds_writeDelivery {st : ServerState} (h : Consistent st) (a : SocketAddr) (t : ClientToken)
    {f : ClientDelivery → ClientDelivery} (hf : ∀ d, (f d).token = d.token) :
    (writeDelivery st a t f).deliveryIds.Perm st.deliveryIds := by
  refine ((delivering_writeDelivery h a t f).map _).trans (.of_eq ?_)
  rw [List.map_map]
  refine List.map_congr_left fun p _ => ?_
  simp only [Function.comp_apply]
  split <;> simp [hf]

theorem Consistent.writeDelivery {st : ServerState} (h : Consistent st) (a : SocketAddr) (t : ClientToken)
    {f : ClientDelivery → ClientDelivery} (hf : ∀ d, (f d).token = d.token ∧ (f d).addr = d.addr) :
    Consistent (writeDelivery st a t f) := by
  obtain ⟨hc, -, -, -, hn⟩ := sessions_writeDelivery st a t f
  have hids : (Server.writeDelivery st a t f).sessionIds = st.sessionIds := by
    unfold ServerState.sessionIds ServerState.sessions; rw [hc]
  refine h.frame (by rw [hc]) (by rw [hc]) (.of_eq hids) (deliveryIds_writeDelivery h a t fun d => (hf d).1)
    (by rw [hc]; exact h.clientsNoEmpty) (noEmpty_writeDelivery h.deliveriesNoEmpty a t f) hn fun p hp => ?_
  obtain ⟨q, hq, rfl⟩ := List.mem_map.1 ((delivering_writeDelivery h a t f).mem_iff.1 hp)
  split
  · rw [(hf _).2]; exact h.addr q hq
  · exact h.addr q hq

theorem Consistent.setChannel {st : ServerState} (h : Consistent st) (w : ChannelId) (c : Fifo Bytes) :
    Consistent (setChannel st w c) :=
  h.frame rfl rfl (.refl _) (.refl _) h.clientsNoEmpty h.deliveriesNoEmpty rfl h.addr

theorem Consistent.markClientReady {st : ServerState} (h : Consistent st) (a : SocketAddr) (t : ClientToken)
    (rx : List Rx) : Consistent (markClientReady st a t rx).2 := by
  unfold Server.markClientReady
  split
  · exact h
  · split
    · exact (h.setChannel _ _).writeDelivery a t fun _ => ⟨rfl, rfl⟩
    · exact (h.setChannel _ _).writeDelivery a t fun _ => ⟨rfl, rfl⟩

/-- Naming a session changes no id. -/
theorem setClientUsername_ok {st st' : ServerState} {a : SocketAddr} {t : ClientToken} {u : Str}
    (h : setClientUsername st a t u = .ok st') : (a, t) ∈ st.sessionIds ∧ st'.sessionIds.Perm st.sessionIds ∧
      ∃ byAddr, st' = { st with clients := { st.clients with byAddr := byAddr } } ∧
        (st.clients.byAddr.NoEmpty → byAddr.NoEmpty) := by
  unfold setClientUsername at h
  split at h
  · cases h
  · rename_i l hl
    split at h
    · rename_i hany
      cases h
      obtain ⟨s, hs, ht⟩ := List.any_eq_true.1 hany
      refine ⟨mem_sessionIds.2 ⟨s, mem_sessions.2 ⟨l, hl, hs⟩, by simpa using ht⟩, ?_, _, rfl, fun hn => hn.insert _ ?_⟩
      · simp only [ServerState.sessionIds, ServerState.sessions]
        refine ((List.Perm.of_eq (Table.items_insert _ _ _)).map _).trans
          (.trans ?_ ((Table.items_of_get? hl).map _).symm)
        have hsame := @map_modifyFirst ClientSession _ (·.token == t) (fun client => { client with username := some u })
          (fun s => (a, s.token)) (fun _ => rfl) l
        rw [List.map_append, List.map_append, List.map_map, List.map_map]
        exact .of_eq (congrArg (· ++ _) hsame)
      · cases l with
        | nil => cases hs
        | cons d l => unfold modifyFirst; split <;> simp
    · cases h

theorem Consistent.setClientUsername {st st' : ServerState} (h : Consistent st) {a : SocketAddr} {t : ClientToken}
    {u : Str} (hs : setClientUsername st a t u = .ok st') : Consistent st' := by
  obtain ⟨-, hids, byAddr, rfl, hn⟩ := setClientUsername_ok hs
  exact h.frame rfl rfl hids (.refl _) (hn h.clientsNoEmpty) h.deliveriesNoEmpty rfl h.addr

/-! ## Removing -/

/-- What a removal does: the session and delivery of that address and token are taken out, and nothing else changes but
the delivery's watch. -/
structure Removes (st : ServerState) (a : SocketAddr) (t : ClientToken) (removed : Bool) (st' : ServerState) :
    Prop where
  result : removed = true ↔ (a, t) ∈ st.sessionIds
  sessions : st'.sessions.Perm (st.sessions.filter fun p => p.1 ≠ a || p.2.token != t)
  delivering : st'.delivering.Perm (st.delivering.filter fun p => p.1 ≠ a || p.2.token != t)
  disconnects : ∀ w, st'.disconnects w =
    (st.disconnects w || st.delivering.any fun p => p.1 = a && p.2.token == t && p.2.disconnect == some w)
  history : st'.history = st.history
  channels : st'.channels = st.channels
  nextToken : st'.nextToken = st.nextToken

theorem Removes.sessionIds {st st' : ServerState} {a : SocketAddr} {t : ClientToken} {b : Bool}
    (h : Removes st a t b st') : st'.sessionIds.Perm (st.sessionIds.filter (· != (a, t))) := by
  refine (h.sessions.map _).trans (.of_eq ?_)
  rw [ServerState.sessionIds, List.filter_map]
  refine congrArg _ (List.filter_congr fun p _ => ?_)
  by_cases hp : p.1 = a <;> by_cases ht : p.2.token = t <;> simp [hp, ht, bne]

theorem Removes.deliveryIds {st st' : ServerState} {a : SocketAddr} {t : ClientToken} {b : Bool}
    (h : Removes st a t b st') : st'.deliveryIds.Perm (st.deliveryIds.filter (· != (a, t))) := by
  refine (h.delivering.map _).trans (.of_eq ?_)
  rw [ServerState.deliveryIds, List.filter_map]
  refine congrArg _ (List.filter_congr fun p _ => ?_)
  by_cases hp : p.1 = a <;> by_cases ht : p.2.token = t <;> simp [hp, ht, bne]

/-- A removed id was there once. -/
theorem Consistent.erase_id {st : ServerState} (h : Consistent st) {p : SocketAddr × ClientToken}
    (hp : p ∈ st.sessionIds) : st.sessionIds.Perm (p :: st.sessionIds.filter (· != p)) := by
  have := List.perm_cons_erase hp
  rwa [(List.Nodup.of_map _ h.tokens).erase_eq_filter] at this

/-- The counters have the slot a registered session is given back. -/
theorem releaseSlot_some {clients : ClientRegistry} {ip : IpAddr} {n : Nat} {byIp : IpAddr → Nat}
    (htotal : clients.total = n + 1) (hperIp : ∀ i, clients.perIp.get? i = slots (byIp i + if ip = i then 1 else 0)) :
    ∃ clients', releaseSlot clients ip = some clients' ∧ clients'.byAddr = clients.byAddr ∧ clients'.total = n ∧
      ∀ i, clients'.perIp.get? i = slots (byIp i) := by
  have hip : clients.perIp.get? ip = some (byIp ip + 1) := by rw [hperIp]; simp [slots]
  refine ⟨{ clients with
    total := n
    perIp := if byIp ip = 0 then clients.perIp.erase ip else clients.perIp.insert ip (byIp ip) },
    by simp only [releaseSlot, htotal, hip], rfl, rfl, fun i => ?_⟩
  by_cases hi : i = ip
  · subst hi
    by_cases h0 : byIp i = 0 <;> simp [h0, slots]
  · have := hperIp i
    rw [if_neg (Ne.symm hi), Nat.add_zero] at this
    by_cases h0 : byIp ip = 0 <;> simp [h0, hi, this]

/-- The deliveries section of a removal. -/
theorem delivering_forgetDelivery (st : ServerState) (a : SocketAddr) (t : ClientToken) :
    (forgetDelivery st a t).delivering.Perm (st.delivering.filter fun p => p.1 ≠ a || p.2.token != t) ∧
      ∀ w, (forgetDelivery st a t).disconnects w =
        (st.disconnects w || st.delivering.any fun p => p.1 = a && p.2.token == t && p.2.disconnect == some w) := by
  unfold forgetDelivery
  split
  · rename_i hnone
    have hne : ∀ p ∈ st.delivering, p.1 ≠ a := fun p hp ha => by
      obtain ⟨l, hl, -⟩ := mem_delivering.1 hp
      rw [ha, hnone] at hl; cases hl
    refine ⟨.of_eq (List.filter_eq_self.2 fun p hp => by simp [hne p hp]).symm, fun w => ?_⟩
    rw [List.any_eq_false.2 fun p hp => by simp [hne p hp], Bool.or_false]
  · rename_i l hl
    refine ⟨Table.items_retain hl _, fun w => congrArg (st.disconnects w || ·) (Bool.eq_iff_iff.2 ?_)⟩
    simp only [List.any_eq_true, List.mem_filter, Bool.and_eq_true, decide_eq_true_eq, beq_iff_eq]
    constructor
    · rintro ⟨d, ⟨hd, ht⟩, hw⟩
      exact ⟨(a, d), mem_delivering.2 ⟨l, hl, hd⟩, ⟨rfl, ht⟩, hw⟩
    · rintro ⟨⟨a', d⟩, hp, ⟨rfl, ht⟩, hw⟩
      obtain ⟨l', hl', hd⟩ := mem_delivering.1 hp
      rw [hl] at hl'; cases hl'
      exact ⟨d, ⟨hd, ht⟩, hw⟩

theorem noEmpty_forgetDelivery {st : ServerState} (h : st.deliveries.byAddr.NoEmpty) (a : SocketAddr)
    (t : ClientToken) : (forgetDelivery st a t).deliveries.byAddr.NoEmpty := by
  unfold forgetDelivery
  split
  · exact h
  · exact h.setBucket _ _

@[simp] theorem clients_forgetDelivery (st : ServerState) (a : SocketAddr) (t : ClientToken) :
    (forgetDelivery st a t).clients = st.clients ∧ (forgetDelivery st a t).history = st.history ∧
      (forgetDelivery st a t).channels = st.channels ∧ (forgetDelivery st a t).nextToken = st.nextToken := by
  unfold forgetDelivery; split <;> exact ⟨rfl, rfl, rfl, rfl⟩

/-- A removal that finds no such session changes nothing. -/
theorem removes_absent {st st' : ServerState} (h : Consistent st) {a : SocketAddr} {t : ClientToken}
    (hid : (a, t) ∉ st.sessionIds) (hs : st'.sessions.Perm st.sessions) (hd : st'.deliveries = st.deliveries)
    (hrest : st'.history = st.history ∧ st'.channels = st.channels ∧ st'.nextToken = st.nextToken ∧
      st'.disconnects = st.disconnects) : Removes st a t false st' := by
  have hdid : ∀ p ∈ st.delivering, ¬ (p.1 = a ∧ p.2.token = t) := fun p hp hpt =>
    hid (h.same.mem_iff.1 (mem_deliveryIds.2 ⟨p.2, hpt.1 ▸ hp, hpt.2⟩))
  have hsid : ∀ p ∈ st.sessions, ¬ (p.1 = a ∧ p.2.token = t) := fun p hp hpt =>
    hid (mem_sessionIds.2 ⟨p.2, hpt.1 ▸ hp, hpt.2⟩)
  refine ⟨by simpa using hid, hs.trans (.of_eq ?_), .of_eq ?_, fun w => ?_, hrest.1, hrest.2.1, hrest.2.2.1⟩
  · refine (List.filter_eq_self.2 fun p hp => ?_).symm
    have := hsid p hp
    rw [not_and] at this
    by_cases hp1 : p.1 = a <;> simp_all
  · rw [ServerState.delivering, hd]
    refine (List.filter_eq_self.2 fun p hp => ?_).symm
    have := hdid p hp
    rw [not_and] at this
    by_cases hp1 : p.1 = a <;> simp_all
  · rw [hrest.2.2.2, List.any_eq_false.2 fun p hp => ?_, Bool.or_false]
    simp only [Bool.and_eq_true, decide_eq_true_eq, beq_iff_eq, not_and]
    exact fun hpt => absurd hpt (hdid p hp)

/-- **A removal never panics**, and keeps the registries consistent. -/
theorem removeClientIfCurrent_spec {st : ServerState} (h : Consistent st) (a : SocketAddr) (t : ClientToken) :
    ∃ removed st', removeClientIfCurrent st a t = some (removed, st') ∧ Removes st a t removed st' ∧
      Consistent st' := by
  unfold removeClientIfCurrent
  split
  · rename_i hnone
    refine ⟨false, st, rfl, removes_absent h ?_ (.refl _) rfl ⟨rfl, rfl, rfl, rfl⟩, h⟩
    rw [mem_sessionIds]
    rintro ⟨s, hs, -⟩
    obtain ⟨l, hl, -⟩ := mem_sessions.1 hs
    rw [hnone] at hl; cases hl
  · rename_i l hl
    have hid : (a, t) ∈ st.sessionIds ↔ (l.filter (·.token != t)).length ≠ l.length := by
      rw [mem_sessionIds, ne_eq, List.length_filter_eq_length_iff]
      constructor
      · rintro ⟨s, hs, ht⟩ hall
        obtain ⟨l', hl', hmem⟩ := mem_sessions.1 hs
        rw [hl] at hl'; cases hl'
        simpa [ht] using hall s hmem
      · intro hall
        simp only [bne_iff_ne, ne_eq, not_forall, not_not] at hall
        obtain ⟨s, hmem, ht⟩ := hall
        exact ⟨s, mem_sessions.2 ⟨l, hl, hmem⟩, ht⟩
    have hsessions := Table.items_retain hl (·.token != t)
    dsimp only
    split
    · rename_i hlen
      have hmem := hid.2 hlen
      have hids := h.erase_id hmem
      obtain ⟨clients', hr, hby, htot, hper⟩ := @releaseSlot_some
        { st.clients with byAddr := st.clients.byAddr.setBucket a (l.filter (·.token != t)) } a.ip
        (st.sessionIds.filter (· != (a, t))).length (fun i => (st.sessionIds.filter (· != (a, t))).countP (·.1.ip = i))
        (by rw [h.total, hids.length_eq, List.length_cons])
        (fun i => by rw [h.perIp, hids.countP_eq, List.countP_cons]; simp)
      obtain ⟨hc, hh, hch, hn⟩ := clients_forgetDelivery { st with clients := clients' } a t
      obtain ⟨hdel, hdisc⟩ := delivering_forgetDelivery { st with clients := clients' } a t
      have hrem : Removes st a t true (forgetDelivery { st with clients := clients' } a t) := by
        refine ⟨by simpa using hmem, ?_, hdel, hdisc, hh, hch, hn⟩
        rw [ServerState.sessions, hc, hby]
        exact hsessions
      refine ⟨true, _, by rw [hr]; rfl, hrem, ?_⟩
      have hsi := hrem.sessionIds
      refine ⟨?_, fun ip => ?_, ?_, noEmpty_forgetDelivery (by exact h.deliveriesNoEmpty) a t, ?_, fun p hp => ?_, ?_,
        fun p hp => ?_, ?_, fun ip => ?_⟩
      · rw [hc, htot, hsi.length_eq]
      · rw [hc, hper, hsi.countP_eq]
      · rw [hc, hby]; exact h.clientsNoEmpty.setBucket _ _
      · exact (hsi.map _).nodup_iff.2 ((List.filter_sublist.map _).nodup h.tokens)
      · rw [hn]; exact h.fresh p (List.mem_filter.1 (hsi.mem_iff.1 hp)).1
      · exact hrem.deliveryIds.trans ((h.same.filter _).trans hsi.symm)
      · exact h.addr p (List.mem_filter.1 (hdel.mem_iff.1 hp)).1
      · exact hsi.length_eq ▸ (List.length_filter_le _ _).trans h.total_le
      · exact hsi.countP_eq _ ▸ (List.filter_sublist.countP_le).trans (h.perIp_le ip)
    · rename_i hlen
      have hnot := mt hid.1 hlen
      have hself : (st.sessions.filter fun p => p.1 ≠ a || p.2.token != t) = st.sessions := by
        refine List.filter_eq_self.2 fun p hp => ?_
        by_cases hp1 : p.1 = a
        · have : p.2.token ≠ t := fun ht => hnot (mem_sessionIds.2 ⟨p.2, hp1 ▸ hp, ht⟩)
          simp [this]
        · simp [hp1]
      have hs' := hsessions.trans (.of_eq hself)
      exact ⟨false, _, rfl, removes_absent h hnot hs' rfl ⟨rfl, rfl, rfl, rfl⟩,
        h.frame rfl rfl (hs'.map _) (.refl _) (h.clientsNoEmpty.setBucket _ _) h.deliveriesNoEmpty rfl h.addr⟩

theorem removeClientIfCurrent_some {st st' : ServerState} (h : Consistent st) {a : SocketAddr} {t : ClientToken}
    {b : Bool} (hr : removeClientIfCurrent st a t = some (b, st')) : Removes st a t b st' ∧ Consistent st' := by
  obtain ⟨b', st'', he, hrem, hcon⟩ := removeClientIfCurrent_spec h a t
  rw [hr] at he
  cases he
  exact ⟨hrem, hcon⟩

/-! ## Broadcasting -/

/-- What a broadcast makes of a client's own record: a pending client with room queues the frame. -/
def ClientDelivery.queue (frame : Bytes) (excludeAddr : Option SocketAddr) (client : ClientDelivery) : ClientDelivery :=
  if excludeAddr = some client.addr ∨ client.ready = true ∨ client.pendingMessages.length ≥ pendingMessagesLimit then
    client
  else { client with pendingMessages := client.pendingMessages ++ [frame] }

@[simp] theorem ClientDelivery.queue_ids (frame : Bytes) (excludeAddr : Option SocketAddr) (client : ClientDelivery) :
    (client.queue frame excludeAddr).addr = client.addr ∧ (client.queue frame excludeAddr).token = client.token ∧
      (client.queue frame excludeAddr).writer = client.writer ∧ (client.queue frame excludeAddr).ready = client.ready ∧
      (client.queue frame excludeAddr).disconnect = client.disconnect := by
  unfold ClientDelivery.queue; split <;> exact ⟨rfl, rfl, rfl, rfl, rfl⟩

theorem deliverTo_snd (frame : Bytes) (ex : Option SocketAddr) (acc : Channels × List Doomed) (d : ClientDelivery) :
    (deliverTo frame ex acc d).2 = d.queue frame ex := by
  unfold deliverTo ClientDelivery.queue
  split
  · rename_i h; simp [h]
  · rename_i h
    split
    · rename_i hr
      split <;> simp [hr]
    · rename_i hr
      split
      · rename_i hl; simp [hl]
      · rename_i hl; simp [h, hr, hl]

/-- A broadcast's turn for each client is the same whatever it made of the others. -/
theorem delivering_deliver (st : ServerState) (frame : Bytes) (ex : Option SocketAddr) :
    (deliver st frame ex).1.delivering = st.delivering.map fun p => (p.1, p.2.queue frame ex) :=
  Table.items_forItems (deliverTo_snd frame ex) _ _

theorem exists_of_mem_deliver {st : ServerState} {frame : Bytes} {ex : Option SocketAddr}
    {q : SocketAddr × ClientDelivery} (h : q ∈ (deliver st frame ex).1.delivering) :
    ∃ p ∈ st.delivering, q = (p.1, p.2.queue frame ex) := by
  rw [delivering_deliver] at h
  obtain ⟨p, hp, rfl⟩ := List.mem_map.1 h
  exact ⟨p, hp, rfl⟩

theorem deliveryIds_deliver (st : ServerState) (frame : Bytes) (ex : Option SocketAddr) :
    (deliver st frame ex).1.deliveryIds = st.deliveryIds := by
  rw [ServerState.deliveryIds, delivering_deliver, List.map_map]
  exact List.map_congr_left fun p _ => by simp

theorem Consistent.deliver {st : ServerState} (h : Consistent st) (frame : Bytes) (ex : Option SocketAddr) :
    Consistent (deliver st frame ex).1 := by
  refine h.frame rfl rfl (.refl _) (.of_eq (deliveryIds_deliver st frame ex)) h.clientsNoEmpty
    (h.deliveriesNoEmpty.forItems (deliverTo_snd frame ex) _) rfl fun p hp => ?_
  obtain ⟨q, hq, rfl⟩ := exists_of_mem_deliver hp
  simpa using h.addr q hq

theorem removeAll_some {st : ServerState} (h : Consistent st) : ∀ doomed : List Doomed,
    ∃ st', removeAll st doomed = some st' ∧ Consistent st' := by
  intro doomed
  induction doomed generalizing st with
  | nil => exact ⟨st, rfl, h⟩
  | cons p doomed ih =>
    obtain ⟨b, st', hr, -, hcon⟩ := removeClientIfCurrent_spec h p.1 p.2
    obtain ⟨st'', hr', hcon'⟩ := ih hcon
    exact ⟨st'', by rw [removeAll, hr]; exact hr', hcon'⟩

theorem broadcast_some {st : ServerState} (h : Consistent st) (frame : Bytes) (ex : Option SocketAddr) :
    ∃ b st', broadcast st frame ex = some (b, st') ∧ Consistent st' := by
  obtain ⟨st', hr, hcon⟩ := removeAll_some (h.deliver frame ex) (deliver st frame ex).2
  exact ⟨_, st', by rw [broadcast]; simp only [hr]; rfl, hcon⟩

theorem recordAndBroadcast_some {st : ServerState} (h : Consistent st) (message : Str) (frame : Bytes)
    (ex : Option SocketAddr) : ∃ b st', recordAndBroadcast st message frame ex = some (b, st') ∧ Consistent st' :=
  have hrec : Consistent { st with history := st.history.record message } :=
    h.frame rfl rfl (.refl _) (.refl _) h.clientsNoEmpty h.deliveriesNoEmpty rfl h.addr
  broadcast_some hrec frame ex

theorem broadcastPresence_some {st : ServerState} (h : Consistent st) :
    ∃ r st', broadcastPresence st = some (r, st') ∧ Consistent st' := by
  obtain ⟨st₁, hr, hcon⟩ := removeAll_some h (overloadedClients st)
  unfold broadcastPresence
  rw [hr]
  cases hp : presenceFrame (usernames st₁) with
  | error e => exact ⟨.error e, st₁, by simp [hp], hcon⟩
  | ok frame =>
    obtain ⟨b, st₂, hb, hcon₂⟩ := broadcast_some hcon frame none
    exact ⟨.ok (), st₂, by simp [hp, hb], hcon₂⟩

/-! ## Sequences of calls -/

/-- A call of one of the state's functions. -/
inductive Call
  | registerClientWithStatus (address : SocketAddr) (writer : ChannelId) (disconnect : Option WatchId) (ready : Bool)
  | setClientUsername (targetAddr : SocketAddr) (targetToken : ClientToken) (username : Str)
  | markClientReady (targetAddr : SocketAddr) (targetToken : ClientToken) (rx : List Rx)
  | broadcast (frame : Bytes) (excludeAddr : Option SocketAddr)
  | recordAndBroadcast (message : Str) (frame : Bytes) (excludeAddr : Option SocketAddr)
  | broadcastPresence
  | removeClientIfCurrent (targetAddr : SocketAddr) (targetToken : ClientToken)

/-- The state after a call; none if it panics. -/
def Call.run (st : ServerState) : Call → Option ServerState
  | .registerClientWithStatus a w disc r =>
    match Server.registerClientWithStatus st a w disc r with
    | .ok (_, st') => some st'
    | .error _ => some st
  | .setClientUsername a t u =>
    match Server.setClientUsername st a t u with
    | .ok st' => some st'
    | .error _ => some st
  | .markClientReady a t rx => some (Server.markClientReady st a t rx).2
  | .broadcast frame ex => (Server.broadcast st frame ex).map Prod.snd
  | .recordAndBroadcast message frame ex => (Server.recordAndBroadcast st message frame ex).map Prod.snd
  | .broadcastPresence => (Server.broadcastPresence st).map Prod.snd
  | .removeClientIfCurrent a t => (Server.removeClientIfCurrent st a t).map Prod.snd

/-- The maps' orders are of no meaning: they may be any, at any time. -/
def reorder (st : ServerState) (clients : Table SocketAddr (List ClientSession))
    (deliveries : Table SocketAddr (List ClientDelivery)) : Option ServerState :=
  if clients.entries.Perm st.clients.byAddr.entries ∧ deliveries.entries.Perm st.deliveries.byAddr.entries then
    some { st with clients := { st.clients with byAddr := clients }, deliveries := ⟨deliveries⟩ }
  else none

inductive CallLabel
  | call (c : Call)
  /-- Between calls, receivers run and channels close. -/
  | channels (channels : Channels)
  | reorder (clients : Table SocketAddr (List ClientSession)) (deliveries : Table SocketAddr (List ClientDelivery))

/-- Any calls in any order. -/
def calls : System ServerState CallLabel where
  init := .new
  step st
    | .call c => c.run st
    | .channels channels => some { st with channels := channels }
    | .reorder clients deliveries => reorder st clients deliveries

/-- **No call panics**, and every call keeps the registries consistent. -/
theorem Call.run_some {st : ServerState} (h : Consistent st) (c : Call) : ∃ st', c.run st = some st' ∧
    Consistent st' := by
  cases c with
  | registerClientWithStatus a w disc r =>
    cases hr : Server.registerClientWithStatus st a w disc r with
    | error e => exact ⟨st, by simp only [Call.run, hr], h⟩
    | ok p => exact ⟨p.2, by simp only [Call.run, hr], h.register hr⟩
  | setClientUsername a t u =>
    cases hr : Server.setClientUsername st a t u with
    | error e => exact ⟨st, by simp only [Call.run, hr], h⟩
    | ok st' => exact ⟨st', by simp only [Call.run, hr], h.setClientUsername hr⟩
  | markClientReady a t rx => exact ⟨_, rfl, h.markClientReady a t rx⟩
  | broadcast frame ex =>
    obtain ⟨b, st', hr, hcon⟩ := broadcast_some h frame ex
    exact ⟨st', by rw [Call.run, hr]; rfl, hcon⟩
  | recordAndBroadcast message frame ex =>
    obtain ⟨b, st', hr, hcon⟩ := recordAndBroadcast_some h message frame ex
    exact ⟨st', by rw [Call.run, hr]; rfl, hcon⟩
  | broadcastPresence =>
    obtain ⟨r, st', hr, hcon⟩ := broadcastPresence_some h
    exact ⟨st', by rw [Call.run, hr]; rfl, hcon⟩
  | removeClientIfCurrent a t =>
    obtain ⟨b, st', hr, -, hcon⟩ := removeClientIfCurrent_spec h a t
    exact ⟨st', by rw [Call.run, hr]; rfl, hcon⟩

theorem Consistent.reorder {st st' : ServerState} (h : Consistent st) {clients : Table SocketAddr (List ClientSession)}
    {deliveries : Table SocketAddr (List ClientDelivery)} (hr : reorder st clients deliveries = some st') :
      Consistent st' := by
  unfold Server.reorder at hr
  split at hr
  · rename_i hp
    cases hr
    have hd := Table.Same.items hp.2
    exact h.frame rfl rfl ((Table.Same.items hp.1).map _) (hd.map _) (Table.Same.noEmpty hp.1.symm h.clientsNoEmpty)
      (Table.Same.noEmpty hp.2.symm h.deliveriesNoEmpty) rfl fun p hp => h.addr p (hd.mem_iff.1 hp)
  · cases hr

theorem consistent_of_reach {st : ServerState} (hr : System.Reach calls System.Any st) : Consistent st := by
  refine hr.invariant consistent_new fun st l st' _ h _ hstep => ?_
  cases l with
  | call c =>
    obtain ⟨st'', hrun, hcon⟩ := Call.run_some h c
    rw [show calls.step st (.call c) = c.run st from rfl, hrun] at hstep
    cases hstep
    exact hcon
  | channels chs =>
    cases hstep
    exact h.frame rfl rfl (.refl _) (.refl _) h.clientsNoEmpty h.deliveriesNoEmpty rfl h.addr
  | reorder clients deliveries => exact h.reorder hstep

/-- **The registries and their counters stay in step** under any calls: the total and per-address counters are the
numbers of sessions, no counter is zero and no bucket empty, tokens are distinct, both registries hold the same sessions
under their own addresses, the limits are kept; and no call panics. -/
theorem registries_consistent {st : ServerState} (hr : System.Reach calls System.Any st) :
    st.clients.total = st.sessions.length ∧
    (∀ ip, (st.clients.perIp.get? ip).getD 0 = st.sessions.countP (·.1.ip = ip) ∧ st.clients.perIp.get? ip ≠ some 0) ∧
    (∀ a, st.clients.byAddr.get? a ≠ some [] ∧ st.deliveries.byAddr.get? a ≠ some []) ∧
    (st.sessions.map (·.2.token)).Nodup ∧ (st.delivering.map (·.2.token)).Nodup ∧
    (∀ a t, (∃ s, (a, s) ∈ st.sessions ∧ s.token = t) ↔ ∃ d, (a, d) ∈ st.delivering ∧ d.token = t) ∧
    (∀ a d, (a, d) ∈ st.delivering → d.addr = a) ∧
    st.clients.total ≤ maxConnections ∧ (∀ ip, (st.clients.perIp.get? ip).getD 0 ≤ maxConnectionsPerIp) ∧
    ∀ c : Call, (c.run st).isSome := by
  have h := consistent_of_reach hr
  have hcount : ∀ ip, st.sessionIds.countP (·.1.ip = ip) = st.sessions.countP (·.1.ip = ip) := fun ip => by
    rw [ServerState.sessionIds, List.countP_map]; rfl
  refine ⟨?_, fun ip => ⟨?_, ?_⟩, fun a => ⟨fun hnil => ?_, fun hnil => ?_⟩, ?_, ?_, fun a t => ?_,
    fun a d hd => h.addr _ hd, ?_, fun ip => ?_, fun c => ?_⟩
  · rw [h.total, ServerState.sessionIds, List.length_map]
  · rw [h.perIp, slots_getD, hcount]
  · rw [h.perIp]; exact slots_ne_zero _
  · exact h.clientsNoEmpty _ (Table.get?_eq_some.1 hnil) rfl
  · exact h.deliveriesNoEmpty _ (Table.get?_eq_some.1 hnil) rfl
  · simpa [ServerState.sessionIds, Function.comp_def] using h.tokens
  · simpa [ServerState.deliveryIds, Function.comp_def] using h.deliveryTokens
  · rw [← mem_sessionIds, ← mem_deliveryIds]; exact h.same.symm.mem_iff
  · rw [h.total]; exact h.total_le
  · rw [h.perIp, slots_getD]; exact h.perIp_le ip
  · obtain ⟨st', hrun, -⟩ := Call.run_some h c
    rw [hrun]; rfl

/-- Two sessions on one address, of which a broadcast drops the ready one: its channel is closed. -/
def dropOne : List CallLabel :=
  let address : SocketAddr := .v4 0x7f000001 7878
  [.call (.registerClientWithStatus address 0 none true), .call (.registerClientWithStatus address 1 none false),
    .channels (fun _ => { Fifo.new outboundQueueSize with closed := true }), .call (.broadcast [] none),
    .call (.removeClientIfCurrent address 0)]

theorem registries_consistent_dropOne : ∃ st, System.Reach calls System.Any st ∧ st.clients.total = 1 ∧
    st.clients.total = st.sessions.length ∧ ∀ c : Call, (c.run st).isSome := by
  obtain ⟨st, hr, ht⟩ := System.exists_of_run calls (fun st => st.clients.total == 1) dropOne (by decide)
  obtain ⟨htotal, -, -, -, -, -, -, -, -, hrun⟩ := registries_consistent hr
  exact ⟨st, hr, by simpa using ht, htotal, hrun⟩

end Server
end Drocsid
