import Drocsid.Feed
/-!
# Tracked — the registry, read off the trace

A session is in the registry from its registration to its removal, and ready from the end of its replay: both are events
of the trace (`Tracked`).
-/
namespace Drocsid

open Text Protocol

namespace Server

structure Tracked (s : Shared) : Prop where
  live : ∀ a t, (a, t) ∈ s.st.sessionIds ↔ .registered t a ∈ s.trace ∧ .removed t ∉ s.trace
  registered_lt : ∀ a t, .registered t a ∈ s.trace → t < s.st.nextToken
  allocated : ∀ t < s.st.nextToken, ∃ a, .registered t a ∈ s.trace
  removed_lt : ∀ t, .removed t ∈ s.trace → t < s.st.nextToken
  ready : ∀ p ∈ s.st.delivering, p.2.ready = true ↔ .ready p.2.token ∈ s.trace
  ready_lt : ∀ t, .ready t ∈ s.trace → t < s.st.nextToken
  replaying : ∀ a t w rest, s.barrier = some (.replay a t w rest) → .ready t ∉ s.trace

theorem tracked_init : Tracked sections.init where
  live _ _ := ⟨nofun, nofun⟩
  registered_lt _ _ h := by cases h
  allocated t h := absurd h (Nat.not_lt_zero t)
  removed_lt _ h := by cases h
  ready _ h := by cases h
  ready_lt _ h := by cases h
  replaying _ _ _ _ h := by cases h

/-- The event registers, removes or readies a session. -/
def Event.isMembership : Event → Bool
  | .registered .. | .removed .. | .ready .. => true
  | _ => false

/-- A section that registers, removes and readies no one. -/
theorem Tracked.frame {s s' : Shared} (h : Tracked s) (evs : List Event) (htr : s'.trace = evs ++ s.trace)
    (hevs : ∀ e ∈ evs, e.isMembership = false) (hids : ∀ p, p ∈ s'.st.sessionIds ↔ p ∈ s.st.sessionIds)
    (hnext : s'.st.nextToken = s.st.nextToken)
    (hdel : ∀ q ∈ s'.st.delivering, ∃ p ∈ s.st.delivering, p.2.token = q.2.token ∧ p.2.ready = q.2.ready)
    (hb : ∀ a t w rest, s'.barrier = some (.replay a t w rest) → .ready t ∉ s.trace) : Tracked s' := by
  have hmem : ∀ e : Event, e.isMembership = true → (e ∈ s'.trace ↔ e ∈ s.trace) := fun e he => by
    rw [htr, List.mem_append]
    refine ⟨fun hm => hm.resolve_left fun hm => ?_, .inr⟩
    rw [hevs e hm] at he
    cases he
  refine ⟨fun a t => ?_, fun a t ht => ?_, fun t ht => ?_, fun t ht => ?_, fun q hq => ?_, fun t ht => ?_,
    fun a t w rest hc => ?_⟩
  · rw [hids, hmem _ rfl, hmem _ rfl]; exact h.live a t
  · rw [hnext]; exact h.registered_lt a t ((hmem _ rfl).1 ht)
  · simp only [hmem (.registered t _) rfl]
    exact h.allocated t (hnext ▸ ht)
  · rw [hnext]; exact h.removed_lt t ((hmem _ rfl).1 ht)
  · obtain ⟨p, hp, ht, hr⟩ := hdel q hq
    rw [hmem _ rfl, ← ht, ← hr]
    exact h.ready p hp
  · rw [hnext]; exact h.ready_lt t ((hmem _ rfl).1 ht)
  · rw [hmem _ rfl]; exact hb a t w rest hc

theorem Tracked.register {s : Shared} (h : Tracked s) {a : SocketAddr} {t : ClientToken} {st : ServerState}
    (hr : registerSession s.st a = .ok (t, st)) : Tracked { s with st, trace := .registered t a :: s.trace } := by
  obtain ⟨rfl, hnext, hs, hd, -⟩ := registerClientWithStatus_ok hr
  have hids : st.sessionIds.Perm ((a, s.st.nextToken) :: s.st.sessionIds) := hs.map _
  have hlt : ∀ {u}, u < s.st.nextToken → u < st.nextToken := fun hu => hnext ▸ Nat.lt_succ_of_lt hu
  have hself : s.st.nextToken < st.nextToken := hnext ▸ Nat.lt_succ_self _
  refine ⟨fun b u => ?_, fun b u hu => ?_, fun u hu => ?_, fun u hu => ?_, fun p hp => ?_, fun u hu => ?_,
    fun b u w rest hc => by simpa using h.replaying b u w rest hc⟩
  · rw [hids.mem_iff, List.mem_cons, h.live, List.mem_cons, List.mem_cons]
    simp only [Prod.mk.injEq, Event.registered.injEq, reduceCtorEq, false_or]
    constructor
    · rintro (⟨rfl, rfl⟩ | ⟨hreg, hrem⟩)
      · exact ⟨.inl ⟨rfl, rfl⟩, fun hrem => Nat.lt_irrefl _ (h.removed_lt _ hrem)⟩
      · exact ⟨.inr hreg, hrem⟩
    · rintro ⟨⟨rfl, rfl⟩ | hreg, hrem⟩
      · exact .inl ⟨rfl, rfl⟩
      · exact .inr ⟨hreg, hrem⟩
  · rcases List.mem_cons.1 hu with hu | hu
    · cases hu; exact hself
    · exact hlt (h.registered_lt b u hu)
  · rcases Nat.lt_or_eq_of_le (Nat.le_of_lt_succ (hnext ▸ hu)) with hu | rfl
    · obtain ⟨b, hb⟩ := h.allocated u hu
      exact ⟨b, List.mem_cons_of_mem _ hb⟩
    · exact ⟨a, List.mem_cons_self⟩
  · exact hlt (h.removed_lt u (by simpa using hu))
  · rcases List.mem_cons.1 (hd.mem_iff.1 hp) with rfl | hp
    · have hnot : .ready s.st.nextToken ∉ s.trace := fun hready => Nat.lt_irrefl _ (h.ready_lt _ hready)
      simpa using hnot
    · simpa using h.ready p hp
  · exact hlt (h.ready_lt u (by simpa using hu))

theorem Tracked.remove {s : Shared} (hcon : Consistent s.st) (h : Tracked s) {a : SocketAddr} {t : ClientToken}
    {removed : Bool} {st : ServerState} (hr : removeClientIfCurrent s.st a t = some (removed, st)) {c : Option Critical}
    (hb : ∀ a t w rest, c = some (.replay a t w rest) → .ready t ∉ s.trace) :
    Tracked ⟨st, c, removedEvent t removed ++ s.trace⟩ := by
  obtain ⟨hrem, -⟩ := removeClientIfCurrent_some hcon hr
  have hids := hrem.sessionIds
  cases removed with
  | false =>
    have hnot : (a, t) ∉ s.st.sessionIds := fun hid => by simpa using hrem.result.2 hid
    refine h.frame [] rfl nofun (fun p => ?_) hrem.nextToken
      (fun q hq => ⟨q, (List.mem_filter.1 (hrem.delivering.mem_iff.1 hq)).1, rfl, rfl⟩) hb
    rw [hids.mem_iff, List.mem_filter]
    exact ⟨And.left, fun hp => ⟨hp, by simpa using fun he : p = (a, t) => hnot (he ▸ hp)⟩⟩
  | true =>
    have hid := hrem.result.1 rfl
    refine ⟨fun b u => ?_, fun b u hu => ?_, fun u hu => ?_, fun u hu => ?_, fun p hp => ?_, fun u hu => ?_,
      fun b u w rest hc => by simpa [removedEvent] using hb b u w rest hc⟩
    · rw [hids.mem_iff, List.mem_filter, h.live]
      simp only [removedEvent, if_true, List.cons_append, List.nil_append, List.mem_cons, reduceCtorEq, false_or,
        not_or, Event.removed.injEq, bne_iff_ne, ne_eq, Prod.mk.injEq, not_and]
      constructor
      · rintro ⟨⟨hreg, hnrem⟩, hne⟩
        refine ⟨hreg, fun hut => ?_, hnrem⟩
        subst hut
        exact hne (eq_of_token hcon ((h.live b u).2 ⟨hreg, hnrem⟩) hid) rfl
      · rintro ⟨hreg, hne, hnrem⟩
        exact ⟨⟨hreg, hnrem⟩, fun _ => hne⟩
    · exact hrem.nextToken ▸ h.registered_lt b u (by simpa [removedEvent] using hu)
    · obtain ⟨b, hb⟩ := h.allocated u (hrem.nextToken ▸ hu)
      exact ⟨b, List.mem_append_right _ hb⟩
    · show u < st.nextToken
      rw [hrem.nextToken]
      rcases List.mem_append.1 hu with hu | hu
      · cases List.mem_singleton.1 hu
        exact hcon.fresh _ hid
      · exact h.removed_lt u hu
    · simpa [removedEvent] using h.ready p (List.mem_filter.1 (hrem.delivering.mem_iff.1 hp)).1
    · exact hrem.nextToken ▸ h.ready_lt u (by simpa [removedEvent] using hu)

theorem Tracked.readied {s : Shared} (hfed : Fed s) (h : Tracked s) {a : SocketAddr} {t : ClientToken} {rx : List Rx}
    {st : ServerState} (hm : markClientReady s.st a t rx = (.ok (), st)) :
    Tracked ⟨st, some (.replayed (.ok ())), .ready t :: s.trace⟩ := by
  have hid : (a, t) ∈ s.st.sessionIds := by
    by_contra hid
    rw [markClientReady_unknown hfed.consistent hid] at hm
    cases hm
  obtain ⟨d, hd, rfl⟩ := mem_deliveryIds.1 (hfed.consistent.same.mem_iff.2 hid)
  obtain ⟨channel, unsent, e, -, hres, -, hmem⟩ := markClientReady_mem hfed hd rfl rx
  obtain ⟨-, -, -, -, -, -, -, hclients, -, -, hnext⟩ := markClientReady_spec hfed.consistent hd rx
  rw [hm] at hres hmem hclients hnext
  have hids : st.sessionIds = s.st.sessionIds := by
    rw [ServerState.sessionIds, ServerState.sessions, hclients]; rfl
  cases e with
  | some e => cases hres
  | none =>
    have hbar : ∀ b u w rest, some (Critical.replayed (.ok ())) = some (.replay b u w rest) →
      .ready u ∉ .ready d.token :: s.trace := by
      intro _ _ _ _ hc
      cases hc
    refine ⟨fun b u => ?_, fun b u hu => ?_, fun u hu => ?_, fun u hu => ?_, fun q hq => ?_, fun u hu => ?_, hbar⟩
    · rw [hids]; simpa using h.live b u
    · exact hnext ▸ h.registered_lt b u (by simpa using hu)
    · obtain ⟨b, hb⟩ := h.allocated u (hnext ▸ hu)
      exact ⟨b, List.mem_cons_of_mem _ hb⟩
    · exact hnext ▸ h.removed_lt u (by simpa using hu)
    · rcases hmem q hq with rfl | ⟨hq, hne⟩
      · simp
      · simpa [hne] using h.ready q hq
    · show u < st.nextToken
      rw [hnext]
      rcases List.mem_cons.1 hu with hu | hu
      · cases hu; exact hfed.consistent.token_lt hd
      · exact h.ready_lt u hu

/-- A replay that failed made no one ready. -/
theorem Tracked.unreadied {s : Shared} (hfed : Fed s) (h : Tracked s) {a : SocketAddr} {t : ClientToken} {rx : List Rx}
    {e : ServerError} {st : ServerState} (hm : markClientReady s.st a t rx = (.error e, st)) :
    Tracked ⟨st, some (.replayed (.error e)), s.trace⟩ := by
  have hnil : ∀ e ∈ ([] : List Event), e.isMembership = false := by
    intro e he
    cases he
  have hbar : ∀ b u w rest, some (Critical.replayed (.error e)) = some (.replay b u w rest) → .ready u ∉ s.trace := by
    intro _ _ _ _ hc
    cases hc
  by_cases hid : (a, t) ∈ s.st.sessionIds
  · obtain ⟨d, hd, rfl⟩ := mem_deliveryIds.1 (hfed.consistent.same.mem_iff.2 hid)
    obtain ⟨channel, unsent, e', -, hres, -, hmem⟩ := markClientReady_mem hfed hd rfl rx
    obtain ⟨-, -, -, -, -, -, -, hclients, -, -, hnext⟩ := markClientReady_spec hfed.consistent hd rx
    rw [hm] at hres hmem hclients hnext
    have hids : st.sessionIds = s.st.sessionIds := by
      rw [ServerState.sessionIds, ServerState.sessions, hclients]; rfl
    cases e' with
    | none => cases hres
    | some e' =>
      refine h.frame [] rfl hnil (fun p => by rw [hids]) hnext (fun q hq => ?_) hbar
      rcases hmem q hq with rfl | ⟨hq, -⟩
      · exact ⟨_, hd, rfl, by simp⟩
      · exact ⟨q, hq, rfl, rfl⟩
  · rw [markClientReady_unknown hfed.consistent hid] at hm
    cases hm
    exact h.frame [] rfl hnil (fun _ => .rfl) rfl (fun q hq => ⟨q, hq, rfl, rfl⟩) hbar

theorem Tracked.deliver {s : Shared} (h : Tracked s) (frame : Bytes) (ex : Option SocketAddr) {e : Event}
    (he : e.isMembership = false) {c : Option Critical}
    (hb : ∀ a t w rest, c = some (.replay a t w rest) → .ready t ∉ s.trace) :
    Tracked ⟨(Server.deliver s.st frame ex).1, c, e :: s.trace⟩ := by
  refine h.frame [e] rfl (fun e' he' => List.mem_singleton.1 he' ▸ he) (fun _ => .rfl) rfl (fun q hq => ?_) hb
  obtain ⟨p, hp, rfl⟩ := exists_of_mem_deliver hq
  exact ⟨p, hp, by simp, by simp⟩

theorem Tracked.step {s s' : Shared} {l : Section} (hfed : Fed s) (hord : InOrder s) (h : Tracked s)
    (hm : Moves s l s') : Tracked s' := by
  have hself : ∀ q ∈ s.st.delivering, ∃ p ∈ s.st.delivering, p.2.token = q.2.token ∧ p.2.ready = q.2.ready :=
    fun q hq => ⟨q, hq, rfl, rfl⟩
  have hone : ∀ e : Event, e.isMembership = false → ∀ e' ∈ [e], e'.isMembership = false := fun e he e' he' =>
    List.mem_singleton.1 he' ▸ he
  have hold := hfed.holder
  cases hm with
  | register hr => exact h.register hr
  | setUsername hu =>
    obtain ⟨-, hids, byAddr, rfl, -⟩ := setClientUsername_ok hu
    exact h.frame [_] rfl (hone (.named _) rfl) (fun p => hids.mem_iff) rfl hself h.replaying
  | remove hr => exact h.remove hfed.consistent hr h.replaying
  | barrier hb =>
    refine h.frame [] rfl nofun (fun _ => .rfl) rfl hself fun a t w rest hc => ?_
    cases hb <;> cases hc
  | snapshot hb =>
    rw [hb] at hold
    refine h.frame [_] rfl (hone (.snapshot _ _) rfl) (fun _ => .rfl) rfl hself fun a t w rest hc hready => ?_
    cases hc
    exact hold.1 (hord.readied _ hready).1
  | replayed hb =>
    refine h.frame [_] rfl (hone (.replayed _ _) rfl) (fun _ => .rfl) rfl hself fun a t w rest hc => ?_
    cases hc
    exact h.replaying _ _ _ _ hb
  | readied hb hm => exact h.readied hfed hm
  | unreadied hb hm => exact h.unreadied hfed hm
  | record hb => exact h.frame [_] rfl (hone (.recorded _) rfl) (fun _ => .rfl) rfl hself nofun
  | deliver hb => exact h.deliver _ _ rfl nofun
  | drop hb hr => exact h.remove hfed.consistent hr nofun
  | broadcast => exact h.deliver _ _ rfl h.replaying
  | tick => exact h.frame [] rfl nofun (fun _ => .rfl) rfl hself h.replaying
  | reorder hr =>
    unfold Server.reorder at hr
    split at hr
    · rename_i hp
      cases hr
      exact h.frame [] rfl nofun (fun p => ((Table.Same.items hp.1).map _).mem_iff) rfl
        (fun q hq => ⟨q, (Table.Same.items hp.2).mem_iff.1 hq, rfl, rfl⟩) h.replaying
    · cases hr

theorem tracked_of_reach {G : Shared → Section → Prop} {s : Shared} (hs : System.Reach sections G s) : Tracked s :=
  hs.invariant tracked_init fun _ _ _ hr h _ hstep => h.step (fed_of_reach hr) (inOrder_of_reach hr)
    (moves_of_step hstep)

end Server
end Drocsid
