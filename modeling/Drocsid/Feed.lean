import Drocsid.Sections
/-!
# Feed — what a client is sent, in order

For a registered client that no broadcast failed to enqueue to, the channel and then the pending list hold the frames
replayed to it and then every frame broadcast to it since it registered (`client_fed`).  One invariant (`Fed`) carries
this over any interleaving: broadcasts append to a ready client's channel or a pending one's list, a replay appends
while the list waits, and making the client ready moves the list behind what was replayed.
-/
namespace Drocsid

open Text Protocol

namespace Server

/-- The history frames put on a client's channel. -/
def replayedFrames (t : ClientToken) : List Event → List Bytes
  | [] => []
  | .replayed t' frame :: tr => if t' = t then replayedFrames t tr ++ [frame] else replayedFrames t tr
  | _ :: tr => replayedFrames t tr

/-- The frames broadcast without excluding the client's address since it registered. -/
def feed (t : ClientToken) (addr : SocketAddr) : List Event → List Bytes
  | [] => []
  | .registered t' _ :: tr => if t' = t then [] else feed t addr tr
  | .broadcast frame ex _ _ :: tr => if ex = some addr then feed t addr tr else feed t addr tr ++ [frame]
  | _ :: tr => feed t addr tr

/-- The clients an enqueue failed for in some broadcast. -/
def failed : List Event → List ClientToken
  | [] => []
  | .broadcast _ _ doomed _ :: tr => doomed ++ failed tr
  | _ :: tr => failed tr

/-- What a section adds to the trace concerns no channel. -/
structure SameFeeds (tr tr' : List Event) : Prop where
  replayedFrames : ∀ t, replayedFrames t tr' = replayedFrames t tr
  feed : ∀ t a, feed t a tr' = feed t a tr
  failed : failed tr' = failed tr
  snapshots : snapshots tr' = snapshots tr

theorem SameFeeds.refl (tr : List Event) : SameFeeds tr tr := ⟨fun _ => rfl, fun _ _ => rfl, rfl, rfl⟩

theorem SameFeeds.removed (t : ClientToken) (b : Bool) (tr : List Event) : SameFeeds tr (removedEvent t b ++ tr) := by
  cases b <;> exact ⟨fun _ => rfl, fun _ _ => rfl, rfl, rfl⟩

/-- What is known while `replay_barrier` is held for a replay: the session's own replay has not begun, or its channel
has what was replayed and it is not ready. -/
def HolderFed (st : ServerState) (tr : List Event) : Option Critical → Prop
  | some (.lookup _ t) => t ∉ snapshots tr
  | some (.snapshot _ t w) => t ∉ snapshots tr ∧ w = t ∧ t < st.nextToken
  | some (.replay _ t w _) => t ∈ snapshots tr ∧ w = t ∧ t < st.nextToken ∧ ∀ p ∈ st.delivering, p.2.token = t →
      p.2.ready = false ∧ (st.channels t).sent = replayedFrames t tr
  | _ => True

structure Fed (s : Shared) : Prop where
  consistent : Consistent s.st
  handles : ∀ p ∈ s.st.delivering, p.2.writer = p.2.token ∧ p.2.disconnect = some p.2.token
  unused : ∀ t, s.st.nextToken ≤ t → (s.st.channels t).sent = [] ∧ replayedFrames t s.trace = [] ∧
    t ∉ snapshots s.trace ∧ t ∉ failed s.trace
  fed : ∀ p ∈ s.st.delivering, p.2.token ∉ failed s.trace →
    (s.st.channels p.2.token).sent ++ p.2.pendingMessages = replayedFrames p.2.token s.trace ++
      feed p.2.token p.2.addr s.trace
  readied : ∀ p ∈ s.st.delivering, p.2.ready = true → p.2.pendingMessages = []
  waiting : ∀ p ∈ s.st.delivering, p.2.token ∉ snapshots s.trace →
    p.2.ready = false ∧ (s.st.channels p.2.token).sent = [] ∧ replayedFrames p.2.token s.trace = []
  holder : HolderFed s.st s.trace s.barrier

theorem fed_init : Fed sections.init where
  consistent := consistent_new
  handles _ h := by cases h
  unused t _ := ⟨rfl, rfl, nofun, nofun⟩
  fed _ h := by cases h
  readied _ h := by cases h
  waiting _ h := by cases h
  holder := trivial

/-- A delivery's token was allocated. -/
theorem Consistent.token_lt {st : ServerState} (h : Consistent st) {p : SocketAddr × ClientDelivery}
    (hp : p ∈ st.delivering) : p.2.token < st.nextToken :=
  h.fresh (p.1, p.2.token) (h.same.mem_iff.1 (mem_deliveryIds.2 ⟨p.2, hp, rfl⟩))

/-- A section that leaves the surviving clients, their channels and the feeds as they were. -/
structure Quiet (s s' : Shared) : Prop where
  consistent : Consistent s'.st
  delivering : ∀ p ∈ s'.st.delivering, p ∈ s.st.delivering
  sent : ∀ w, (s'.st.channels w).sent = (s.st.channels w).sent
  nextToken : s'.st.nextToken = s.st.nextToken
  trace : SameFeeds s.trace s'.trace

/-- What was known of the holder is known after a quiet section. -/
theorem HolderFed.quiet {s s' : Shared} (q : Quiet s s') {c : Option Critical} (h : HolderFed s.st s.trace c) :
    HolderFed s'.st s'.trace c := by
  match c with
  | none => trivial
  | some c =>
    cases c with
    | lookup a t => rw [HolderFed, q.trace.snapshots]; exact h
    | snapshot a t w => rw [HolderFed, q.trace.snapshots, q.nextToken]; exact h
    | replay a t w m =>
      rw [HolderFed, q.trace.snapshots, q.nextToken, q.sent, q.trace.replayedFrames]
      exact ⟨h.1, h.2.1, h.2.2.1, fun p hp ht => h.2.2.2 p (q.delivering p hp) ht⟩
    | replayed | record | deliver | drop => trivial

theorem Fed.quiet {s s' : Shared} (h : Fed s) (q : Quiet s s') (hb : HolderFed s'.st s'.trace s'.barrier) : Fed s' where
  consistent := q.consistent
  handles p hp := h.handles p (q.delivering p hp)
  unused t ht := by
    rw [q.sent, q.trace.replayedFrames, q.trace.snapshots, q.trace.failed]
    exact h.unused t (q.nextToken ▸ ht)
  fed p hp := by
    rw [q.sent, q.trace.replayedFrames, q.trace.feed, q.trace.failed]
    exact h.fed p (q.delivering p hp)
  readied p hp := h.readied p (q.delivering p hp)
  waiting p hp := by
    rw [q.sent, q.trace.replayedFrames, q.trace.snapshots]
    exact h.waiting p (q.delivering p hp)
  holder := hb

theorem Fed.writers {s : Shared} (h : Fed s) : (s.st.delivering.map (·.2.writer)).Nodup := by
  have heq : s.st.delivering.map (·.2.writer) = s.st.deliveryIds.map Prod.snd := by
    rw [ServerState.deliveryIds, List.map_map]
    exact List.map_congr_left fun p hp => (h.handles p hp).1
  rw [heq]
  exact h.consistent.deliveryTokens

/-! ## The sections -/

theorem Fed.register {s : Shared} (h : Fed s) {a : SocketAddr} {t : ClientToken} {st : ServerState}
    (hr : registerSession s.st a = .ok (t, st)) : Fed { s with st, trace := .registered t a :: s.trace } := by
  have hcon := h.consistent.register hr
  obtain ⟨rfl, hnext, -, hd, -, hch, -⟩ := registerClientWithStatus_ok hr
  obtain ⟨hsent, hrep, hsnap, hfail⟩ := h.unused s.st.nextToken (Nat.le_refl _)
  have hne : ∀ p ∈ s.st.delivering, p.2.token ≠ s.st.nextToken := fun p hp => Nat.ne_of_lt (h.consistent.token_lt hp)
  refine ⟨hcon, fun p hp => ?_, fun t ht => ?_, fun p hp hf => ?_, fun p hp hready => ?_, fun p hp hw => ?_, ?_⟩
  · rcases List.mem_cons.1 (hd.mem_iff.1 hp) with rfl | hp
    · exact ⟨rfl, rfl⟩
    · exact h.handles p hp
  · rw [hch]
    have ht : st.nextToken ≤ t := ht
    rw [hnext] at ht
    exact h.unused t (Nat.le_of_succ_le ht)
  · rcases List.mem_cons.1 (hd.mem_iff.1 hp) with rfl | hp
    · simp [hch, hsent, replayedFrames, hrep, feed]
    · rw [hch, feed, if_neg (Ne.symm (hne p hp))]
      exact h.fed p hp hf
  · rcases List.mem_cons.1 (hd.mem_iff.1 hp) with rfl | hp
    · rfl
    · exact h.readied p hp hready
  · rw [hch]
    rcases List.mem_cons.1 (hd.mem_iff.1 hp) with rfl | hp
    · exact ⟨rfl, hsent, hrep⟩
    · exact h.waiting p hp hw
  · -- the holder's session is an older one
    have hold := h.holder
    revert hold
    cases s.barrier with
    | none => exact fun _ => trivial
    | some c =>
      cases c with
      | lookup a' t => exact id
      | snapshot a' t w => exact fun hc => ⟨hc.1, hc.2.1, hnext ▸ Nat.lt_succ_of_lt hc.2.2⟩
      | replay a' t w m =>
        rintro ⟨h1, h2, h3, h4⟩
        refine ⟨h1, h2, hnext ▸ Nat.lt_succ_of_lt h3, fun p hp ht => ?_⟩
        rcases List.mem_cons.1 (hd.mem_iff.1 hp) with rfl | hp
        · exact absurd ht (Nat.ne_of_gt h3)
        · rw [hch]; exact h4 p hp ht
      | replayed | record | deliver | drop => exact fun _ => trivial

/-- A client's channel after a broadcast. -/
theorem Fed.deliver_channel {s : Shared} (h : Fed s) (frame : Bytes) (ex : Option SocketAddr)
    {p : SocketAddr × ClientDelivery} (hp : p ∈ s.st.delivering) : ((deliver s.st frame ex).1.channels p.2.token).sent =
      (s.st.channels p.2.token).sent ++ if p.2.sends ex && (s.st.channels p.2.token).accepts then [frame] else [] := by
  have hch := (deliver_spec h.writers frame ex).2.1 p hp
  rw [(h.handles p hp).1] at hch
  rw [hch]
  cases p.2.sends ex with
  | true => simp [Fifo.sent_offer]
  | false => simp

theorem Fed.deliver_failed {s : Shared} (h : Fed s) (frame : Bytes) (ex : Option SocketAddr)
    {p : SocketAddr × ClientDelivery} (hp : p ∈ s.st.delivering) :
    p.2.token ∈ (deliver s.st frame ex).2.map Prod.snd ↔ p.2.refuses s.st.channels ex = true := by
  rw [(deliver_spec h.writers frame ex).2.2, List.map_map, List.mem_map]
  constructor
  · rintro ⟨q, hq, ht⟩
    have := h.consistent.unique (List.mem_filter.1 hq).1 hp ht
    exact this ▸ (List.mem_filter.1 hq).2
  · intro hr
    exact ⟨p, List.mem_filter.2 ⟨hp, hr⟩, rfl⟩

theorem Fed.deliver {s : Shared} (h : Fed s) (frame : Bytes) (ex : Option SocketAddr) (post : Option Post)
    {c : Option Critical} (hc : c = s.barrier ∨ ∃ ds b, c = some (.drop ds b)) :
    Fed ⟨(Server.deliver s.st frame ex).1, c,
      .broadcast frame ex ((Server.deliver s.st frame ex).2.map Prod.snd) post :: s.trace⟩ := by
  refine ⟨h.consistent.deliver frame ex, fun q hq => ?_, fun t ht => ?_, fun q hq hf => ?_, fun q hq hready => ?_,
    fun q hq hw => ?_, ?_⟩
  · obtain ⟨p, hp, rfl⟩ := exists_of_mem_deliver hq
    simpa using h.handles p hp
  · -- no client has the channel yet
    obtain ⟨h1, h2, h3, h4⟩ := h.unused t ht
    have hw : t ∉ s.st.delivering.map (·.2.writer) := fun hw => by
      obtain ⟨p, hp, rfl⟩ := List.mem_map.1 hw
      have := h.consistent.token_lt hp
      rw [← (h.handles p hp).1] at this
      exact absurd this (Nat.not_lt.2 ht)
    refine ⟨by rw [(deliver_spec h.writers frame ex).1 t hw]; exact h1, h2, h3, ?_⟩
    rw [failed, List.mem_append, not_or]
    refine ⟨fun hd => ?_, h4⟩
    rw [(deliver_spec h.writers frame ex).2.2, List.map_map] at hd
    obtain ⟨p, hp, rfl⟩ := List.mem_map.1 hd
    exact absurd (h.consistent.token_lt (List.mem_filter.1 hp).1) (Nat.not_lt.2 ht)
  · obtain ⟨p, hp, rfl⟩ := exists_of_mem_deliver hq
    obtain ⟨haddr, htok, -⟩ := p.2.queue_ids frame ex
    simp only [haddr, htok, failed, List.mem_append, not_or, h.deliver_failed frame ex hp] at hf ⊢
    have hfed := h.fed p hp hf.2
    rw [h.deliver_channel frame ex hp]
    simp only [replayedFrames, feed]
    by_cases hex : ex = some p.2.addr
    · simpa [ClientDelivery.sends, ClientDelivery.queue, hex] using hfed
    · cases hr : p.2.ready with
      | true =>
        have hacc : (s.st.channels p.2.token).accepts = true := by
          simpa [ClientDelivery.refuses, hex, hr, (h.handles p hp).1] using hf.1
        have hpend := h.readied p hp hr
        rw [hpend, List.append_nil] at hfed
        simp [ClientDelivery.sends, ClientDelivery.queue, hex, hr, hacc, hpend, hfed]
      | false =>
        have hroom : p.2.pendingMessages.length < pendingMessagesLimit := by
          simpa [ClientDelivery.refuses, hex, hr] using hf.1
        simp [ClientDelivery.sends, ClientDelivery.queue, hex, hr, Nat.not_le.2 hroom, ← List.append_assoc, hfed]
  · obtain ⟨p, hp, rfl⟩ := exists_of_mem_deliver hq
    have hr : p.2.ready = true := by simpa using hready
    simpa [ClientDelivery.queue, hr] using h.readied p hp hr
  · obtain ⟨p, hp, rfl⟩ := exists_of_mem_deliver hq
    simp only [(p.2.queue_ids frame ex).2.1, (p.2.queue_ids frame ex).2.2.2.1] at hw ⊢
    obtain ⟨hr, hs, hrep⟩ := h.waiting p hp hw
    exact ⟨hr, by rw [h.deliver_channel frame ex hp, hs]; simp [ClientDelivery.sends, hr], hrep⟩
  · rcases hc with rfl | ⟨ds, b, rfl⟩
    · have hold := h.holder
      revert hold
      cases hbar : s.barrier with
      | none => exact fun _ => trivial
      | some c =>
        cases c with
        | lookup a t => exact id
        | snapshot a t w => exact id
        | replay a t w m =>
          rintro ⟨h1, h2, h3, h4⟩
          refine ⟨h1, h2, h3, fun q hq ht => ?_⟩
          obtain ⟨p, hp, rfl⟩ := exists_of_mem_deliver hq
          simp only [(p.2.queue_ids frame ex).2.1, (p.2.queue_ids frame ex).2.2.2.1] at ht ⊢
          obtain ⟨hr, hs⟩ := h4 p hp ht
          have hch := h.deliver_channel frame ex hp
          rw [ht] at hch
          exact ⟨hr, by rw [hch, hs]; simp [ClientDelivery.sends, hr, replayedFrames]⟩
        | replayed | record | deliver | drop => exact fun _ => trivial
    · trivial

/-- A session's replay begins: its channel is empty, and it is not ready. -/
theorem Fed.snapshot {s : Shared} (h : Fed s) {a : SocketAddr} {t : ClientToken} {w : ChannelId}
    (hb : s.barrier = some (.snapshot a t w)) : Fed ⟨s.st, some (.replay a t w s.st.history.snapshot),
      .snapshot t s.st.history.snapshot :: s.trace⟩ := by
  have hold := h.holder
  rw [hb] at hold
  obtain ⟨hsnap, rfl, hlt⟩ := hold
  refine ⟨h.consistent, h.handles, fun t' ht' => ?_, h.fed, h.readied, fun p hp hw => ?_, ?_⟩
  · obtain ⟨h1, h2, h3, h4⟩ := h.unused t' ht'
    refine ⟨h1, h2, ?_, h4⟩
    rw [snapshots, List.mem_cons, not_or]
    exact ⟨Nat.ne_of_gt (Nat.lt_of_lt_of_le hlt ht'), h3⟩
  · rw [snapshots, List.mem_cons, not_or] at hw
    exact h.waiting p hp hw.2
  · refine ⟨List.mem_cons_self, rfl, hlt, fun p hp ht => ?_⟩
    obtain ⟨hr, hs, hrep⟩ := h.waiting p hp (ht ▸ hsnap)
    rw [ht] at hs hrep
    exact ⟨hr, hs.trans hrep.symm⟩

/-- A history frame goes to the replaying session's channel: its pending list keeps what was broadcast since. -/
theorem Fed.replayed {s : Shared} (h : Fed s) {a : SocketAddr} {t : ClientToken} {w : ChannelId} {m : Str}
    {rest : List Str} (hb : s.barrier = some (.replay a t w (m :: rest))) {frame : Bytes} {channel : Fifo Bytes}
    (hsend : (s.st.channels w).trySend frame = .ok channel) :
    Fed ⟨setChannel s.st w channel, some (.replay a t w rest), .replayed t frame :: s.trace⟩ := by
  have hold := h.holder
  rw [hb] at hold
  obtain ⟨hsnap, rfl, hlt, hold⟩ := hold
  have hch : ∀ u, ((setChannel s.st w channel).channels u).sent =
      (s.st.channels u).sent ++ if w = u then [frame] else [] := by
    intro u
    by_cases hu : w = u
    · subst hu; simp [setChannel, Fifo.sent_trySend hsend]
    · simp [setChannel, Function.update_of_ne (Ne.symm hu), hu]
  have hrep : ∀ u, replayedFrames u (.replayed w frame :: s.trace) =
      replayedFrames u s.trace ++ if w = u then [frame] else [] := by
    intro u
    by_cases hu : w = u <;> simp [replayedFrames, hu]
  refine ⟨h.consistent.setChannel _ _, h.handles, fun u hu => ?_, fun p hp hf => ?_, h.readied, fun p hp hw => ?_, ?_⟩
  · obtain ⟨h1, h2, h3, h4⟩ := h.unused u hu
    have hne : w ≠ u := Nat.ne_of_lt (Nat.lt_of_lt_of_le hlt hu)
    exact ⟨by rw [hch, h1, if_neg hne]; rfl, by rw [hrep, h2, if_neg hne]; rfl, h3, h4⟩
  · have hfed := h.fed p hp hf
    rw [hch, hrep]
    by_cases ht : w = p.2.token
    · -- so far the channel has the replayed frames alone
      obtain ⟨-, hs⟩ := hold p hp ht.symm
      rw [← ht, hs, List.append_cancel_left_eq] at hfed
      rw [if_pos ht, hfed, ← ht, hs]
      rfl
    · rw [if_neg ht, List.append_nil, List.append_nil]
      exact hfed
  · have hne : w ≠ p.2.token := fun ht => hw (ht ▸ hsnap)
    obtain ⟨hr, hs, hrep'⟩ := h.waiting p hp hw
    exact ⟨hr, by rw [hch, hs, if_neg hne]; rfl, by rw [hrep, hrep', if_neg hne]; rfl⟩
  · refine ⟨hsnap, rfl, hlt, fun p hp ht => ?_⟩
    obtain ⟨hr, hs⟩ := hold p hp ht
    exact ⟨hr, by rw [hch, hrep, hs]⟩

/-- A delivery after `mark_client_ready`: the one it was called for, or one of another token. -/
theorem markClientReady_mem {s : Shared} (hfed : Fed s) {a : SocketAddr} {t : ClientToken} {d : ClientDelivery}
    (hd : (a, d) ∈ s.st.delivering) (ht : d.token = t) (rx : List Rx) :
    ∃ channel unsent e, (s.st.channels t).sendAll d.pendingMessages rx = (channel, unsent, e) ∧
      (markClientReady s.st a t rx).1 = (match e with | none => .ok () | some e => .error (sendError e)) ∧
      (markClientReady s.st a t rx).2.channels = Function.update s.st.channels t channel ∧
      ∀ q ∈ (markClientReady s.st a t rx).2.delivering,
        q = (a, { d with pendingMessages := unsent, ready := d.ready || e.isNone }) ∨
        q ∈ s.st.delivering ∧ q.2.token ≠ t := by
  subst ht
  obtain ⟨channel, unsent, e, hsend, hres, hch, hdel, -⟩ := markClientReady_spec hfed.consistent hd rx
  rw [(hfed.handles _ hd).1] at hsend hch
  refine ⟨channel, unsent, e, hsend, hres, hch, fun q hq => ?_⟩
  obtain ⟨p, hp, rfl⟩ := List.mem_map.1 (hdel.mem_iff.1 hq)
  by_cases htok : p.2.token = d.token
  · have := hfed.consistent.unique hp hd htok
    subst this
    exact .inl (if_pos ⟨rfl, rfl⟩)
  · rw [if_neg fun hc => htok hc.2]
    exact .inr ⟨hp, htok⟩

/-- The pending list moves to the channel, as far as it goes. -/
theorem Fed.markReady {s : Shared} (h : Fed s) {a : SocketAddr} {t : ClientToken} {w : ChannelId}
    (hb : s.barrier = some (.replay a t w [])) (rx : List Rx) (result : Except ServerError Unit) {tr : List Event}
    (htr : SameFeeds s.trace tr) : Fed ⟨(markClientReady s.st a t rx).2, some (.replayed result), tr⟩ := by
  have hold := h.holder
  rw [hb] at hold
  obtain ⟨hsnap, rfl, hlt, hold⟩ := hold
  have hcon := h.consistent.markClientReady a w rx
  by_cases hid : (a, w) ∈ s.st.sessionIds
  · obtain ⟨d, hd, rfl⟩ := mem_deliveryIds.1 (h.consistent.same.mem_iff.2 hid)
    obtain ⟨channel, unsent, e, hsend, -, hch, hmem⟩ := markClientReady_mem h hd rfl rx
    obtain ⟨-, -, -, -, -, -, -, -, -, -, hnext⟩ := markClientReady_spec h.consistent hd rx
    have hcons := Fifo.sendAll_conserves (s.st.channels d.token) d.pendingMessages rx
    have hunsent := Fifo.sendAll_unsent (s.st.channels d.token) d.pendingMessages rx
    rw [hsend] at hcons hunsent
    have hother : ∀ u ≠ d.token, ((markClientReady s.st a d.token rx).2.channels u).sent = (s.st.channels u).sent :=
      fun u hu => by rw [hch, Function.update_of_ne hu]
    have hself : ((markClientReady s.st a d.token rx).2.channels d.token).sent = channel.sent := by
      rw [hch, Function.update_self]
    refine ⟨hcon, fun q hq => ?_, fun u hu => ?_, fun q hq hf => ?_, fun q hq hready => ?_, fun q hq hw => ?_, trivial⟩
    · rcases hmem q hq with rfl | ⟨hq, -⟩
      · exact h.handles (a, d) hd
      · exact h.handles q hq
    · rw [htr.replayedFrames, htr.snapshots, htr.failed,
        hother u (Nat.ne_of_gt (Nat.lt_of_lt_of_le hlt (hnext ▸ hu)))]
      exact h.unused u (hnext ▸ hu)
    · rw [htr.failed] at hf
      rw [htr.replayedFrames, htr.feed]
      rcases hmem q hq with rfl | ⟨hq, hne⟩
      · rw [hself]
        exact hcons.trans (h.fed _ hd hf)
      · rw [hother _ hne]
        exact h.fed q hq hf
    · rcases hmem q hq with rfl | ⟨hq, -⟩
      · have hr : d.ready = false := (hold _ hd rfl).1
        apply hunsent.2
        simpa [hr] using hready
      · exact h.readied q hq hready
    · rw [htr.snapshots] at hw
      rw [htr.replayedFrames]
      rcases hmem q hq with rfl | ⟨hq, hne⟩
      · exact absurd hsnap hw
      · rw [hother _ hne]
        exact h.waiting q hq hw
  · refine h.quiet ⟨hcon, fun p hp => ?_, fun u => ?_, ?_, htr⟩ trivial
    all_goals simp only [markClientReady_unknown h.consistent hid] at *
    exact hp

/-- What a receiver does to a channel changes nothing of what was sent on it. -/
theorem sent_setChannel_tick (st : ServerState) (w u : ChannelId) (rx : Rx) :
    ((setChannel st w ((st.channels w).tick rx)).channels u).sent = (st.channels u).sent := by
  by_cases hu : u = w
  · subst hu; simp [setChannel]
  · simp [setChannel, Function.update_of_ne hu]

theorem Consistent.record {st : ServerState} (h : Consistent st) (history : MessageHistory) :
    Consistent { st with history } :=
  h.frame rfl rfl (.refl _) (.refl _) h.clientsNoEmpty h.deliveriesNoEmpty rfl h.addr

theorem Quiet.remove {s : Shared} (h : Consistent s.st) {a : SocketAddr} {t : ClientToken} {removed : Bool}
    {st : ServerState} (hr : removeClientIfCurrent s.st a t = some (removed, st)) (c : Option Critical) :
    Quiet s ⟨st, c, removedEvent t removed ++ s.trace⟩ := by
  obtain ⟨hrem, hcon⟩ := removeClientIfCurrent_some h hr
  exact ⟨hcon, fun p hp => (List.mem_filter.1 (hrem.delivering.mem_iff.1 hp)).1, fun w => by rw [hrem.channels],
    hrem.nextToken, .removed _ _ _⟩

theorem Quiet.barrier {s : Shared} (h : Consistent s.st) (c : Option Critical) : Quiet s { s with barrier := c } :=
  ⟨h, fun _ hp => hp, fun _ => rfl, rfl, .refl _⟩

theorem Quiet.setUsername {s : Shared} (h : Consistent s.st) {a : SocketAddr} {t : ClientToken} {u : Str}
    {st : ServerState} (hu : setClientUsername s.st a t u = .ok st) :
    Quiet s { s with st, trace := .named t :: s.trace } := by
  have hcon := h.setClientUsername hu
  obtain ⟨-, -, byAddr, rfl, -⟩ := setClientUsername_ok hu
  exact ⟨hcon, fun _ hp => hp, fun _ => rfl, rfl, fun _ => rfl, fun _ _ => rfl, rfl, rfl⟩

theorem Quiet.record {s : Shared} (h : Consistent s.st) (post : Post) (c : Option Critical) :
    Quiet s ⟨{ s.st with history := s.st.history.record post.message }, c, .recorded post :: s.trace⟩ :=
  ⟨h.record _, fun _ hp => hp, fun _ => rfl, rfl, fun _ => rfl, fun _ _ => rfl, rfl, rfl⟩

theorem Quiet.tick {s : Shared} (h : Consistent s.st) (w : ChannelId) (rx : Rx) :
    Quiet s { s with st := setChannel s.st w ((s.st.channels w).tick rx) } :=
  ⟨h.setChannel _ _, fun _ hp => hp, fun u => sent_setChannel_tick _ _ u _, rfl, .refl _⟩

theorem Quiet.reorder {s : Shared} (h : Consistent s.st) {clients : Table SocketAddr (List ClientSession)}
    {deliveries : Table SocketAddr (List ClientDelivery)} {st : ServerState}
    (hr : Server.reorder s.st clients deliveries = some st) : Quiet s { s with st } := by
  have hcon := h.reorder hr
  unfold Server.reorder at hr
  split at hr
  · rename_i hp
    cases hr
    exact ⟨hcon, fun p hp' => (Table.Same.items hp.2).mem_iff.1 hp', fun _ => rfl, rfl, .refl _⟩
  · cases hr

theorem Fed.movesBarrier {s : Shared} (h : Fed s) {l : Section} {c : Option Critical} (hm : MovesBarrier s l c) :
    Fed { s with barrier := c } := by
  apply h.quiet (.barrier h.consistent c)
  have hold := h.holder
  cases hm with
  | lockReplay hb ht => exact ht
  | @found a t d _ hb hd =>
    rw [hb] at hold
    obtain ⟨hmem, rfl⟩ := (findDelivery_eq_some h.consistent).1 hd
    exact ⟨hold, (h.handles (a, d) hmem).1, h.consistent.token_lt hmem⟩
  | lockRecord | unlock | unknown | refused => trivial

theorem Fed.step {s s' : Shared} {l : Section} (h : Fed s) (hm : Moves s l s') : Fed s' := by
  have hkeep : ∀ {s' : Shared}, Quiet s s' → s'.barrier = s.barrier → Fed s' := fun q hb =>
    h.quiet q (hb ▸ h.holder.quiet q)
  cases hm with
  | register hr => exact h.register hr
  | setUsername hu => exact hkeep (.setUsername h.consistent hu) rfl
  | remove hr => exact hkeep (.remove h.consistent hr _) rfl
  | barrier hb => exact h.movesBarrier hb
  | snapshot hb => exact h.snapshot hb
  | replayed hb _ hs => exact h.replayed hb hs
  | @readied a t w st rx hb hm =>
    have := h.markReady hb rx (.ok ()) (show SameFeeds s.trace (.ready t :: s.trace) from
      ⟨fun _ => rfl, fun _ _ => rfl, rfl, rfl⟩)
    rwa [hm] at this
  | @unreadied a t w e st rx hb hm =>
    have := h.markReady hb rx (.error e) (.refl _)
    rwa [hm] at this
  | record hb => exact h.quiet (.record h.consistent _ _) trivial
  | deliver hb => exact h.deliver _ _ _ (.inr ⟨_, _, rfl⟩)
  | drop hb hr => exact h.quiet (.remove h.consistent hr _) trivial
  | broadcast hf => exact h.deliver _ _ _ (.inl rfl)
  | tick => exact hkeep (.tick h.consistent _ _) rfl
  | reorder hr => exact hkeep (.reorder h.consistent hr) rfl

theorem fed_of_reach {G : Shared → Section → Prop} {s : Shared} (hs : System.Reach sections G s) : Fed s :=
  hs.invariant fed_init fun _ _ _ _ h _ hstep => h.step (moves_of_step hstep)

/-! ## History first, in order -/

/-- The history a session's replay began with. -/
def replayHistory (t : ClientToken) : List Event → List Str
  | [] => []
  | .snapshot t' history :: tr => if t' = t then history else replayHistory t tr
  | _ :: tr => replayHistory t tr

/-- What was replayed to a session is all of its history but `rest`, in order. -/
def ReplayedTo (t : ClientToken) (rest : List Str) (tr : List Event) : Prop :=
  ∃ done, replayHistory t tr = done ++ rest ∧ done.map chatFrame = (replayedFrames t tr).map .ok

/-- Replays send their history from its first message on. -/
structure InOrder (s : Shared) : Prop where
  begun : ∀ t, ∃ rest, ReplayedTo t rest s.trace
  unbegun : ∀ t, t ∉ snapshots s.trace → replayedFrames t s.trace = []
  holder : ∀ a t w rest, s.barrier = some (.replay a t w rest) → ReplayedTo t rest s.trace
  readied : ∀ t, .ready t ∈ s.trace → t ∈ snapshots s.trace ∧ ReplayedTo t [] s.trace

theorem inOrder_init : InOrder sections.init where
  begun _ := ⟨[], [], rfl, rfl⟩
  unbegun _ _ := rfl
  holder _ _ _ _ h := by cases h
  readied _ h := by cases h

/-- The event is about a replay. -/
def Event.isReplay : Event → Bool
  | .snapshot .. | .replayed .. | .ready .. => true
  | _ => false

/-- A section outside replays tells nothing about them. -/
theorem trace_of_not_isReplay {evs : List Event} (h : ∀ e ∈ evs, e.isReplay = false) (tr : List Event)
    (t : ClientToken) :
    replayHistory t (evs ++ tr) = replayHistory t tr ∧ replayedFrames t (evs ++ tr) = replayedFrames t tr ∧
      snapshots (evs ++ tr) = snapshots tr ∧ (.ready t ∈ evs ++ tr ↔ .ready t ∈ tr) := by
  induction evs with
  | nil => exact ⟨rfl, rfl, rfl, .rfl⟩
  | cons e evs ih =>
    obtain ⟨h1, h2, h3, h4⟩ := ih fun e he => h e (List.mem_cons_of_mem _ he)
    have he := h e List.mem_cons_self
    rw [List.cons_append, List.mem_cons, h4]
    cases e with
    | snapshot | replayed | ready => cases he
    | registered | named | recorded | broadcast | removed => exact ⟨h1, h2, h3, by simp⟩

theorem InOrder.frame {s s' : Shared} (h : InOrder s) (evs : List Event) (he : ∀ e ∈ evs, e.isReplay = false)
    (htr : s'.trace = evs ++ s.trace)
    (hb : ∀ a t w rest, s'.barrier = some (.replay a t w rest) → s.barrier = some (.replay a t w rest)) :
      InOrder s' := by
  have htrace := trace_of_not_isReplay he s.trace
  have hsame : ∀ t rest, ReplayedTo t rest s.trace → ReplayedTo t rest s'.trace := fun t rest hr => by
    rw [ReplayedTo, htr, (htrace t).1, (htrace t).2.1]; exact hr
  refine ⟨fun t => ?_, fun t ht => ?_, fun a t w rest hc => hsame t rest (h.holder a t w rest (hb a t w rest hc)),
    fun t ht => ?_⟩
  · obtain ⟨rest, hr⟩ := h.begun t
    exact ⟨rest, hsame t rest hr⟩
  · rw [htr, (htrace t).2.2.1] at ht
    rw [htr, (htrace t).2.1]
    exact h.unbegun t ht
  · rw [htr, (htrace t).2.2.2] at ht
    exact ⟨by rw [htr, (htrace t).2.2.1]; exact (h.readied t ht).1, hsame t [] (h.readied t ht).2⟩

theorem InOrder.snapshot {s : Shared} (h : InOrder s) {a : SocketAddr} {t : ClientToken} {w : ChannelId}
    (ht : t ∉ snapshots s.trace) : InOrder ⟨s.st, some (.replay a t w s.st.history.snapshot),
      .snapshot t s.st.history.snapshot :: s.trace⟩ := by
  have hself : ReplayedTo t s.st.history.snapshot (.snapshot t s.st.history.snapshot :: s.trace) :=
    ⟨[], by simp [replayHistory], by simp [replayedFrames, h.unbegun t ht]⟩
  have hother : ∀ u rest, u ≠ t → ReplayedTo u rest s.trace →
      ReplayedTo u rest (.snapshot t s.st.history.snapshot :: s.trace) := fun u rest hu hr => by
    rw [ReplayedTo, replayHistory, if_neg (Ne.symm hu)]; exact hr
  refine ⟨fun u => ?_, fun u hu => ?_, fun a t w rest hc => ?_, fun u hu => ?_⟩
  · by_cases hut : u = t
    · subst hut; exact ⟨_, hself⟩
    · obtain ⟨rest, hr⟩ := h.begun u
      exact ⟨rest, hother u rest hut hr⟩
  · rw [snapshots, List.mem_cons, not_or] at hu
    exact h.unbegun u hu.2
  · cases hc; exact hself
  · obtain ⟨hsnap, hr⟩ := h.readied u (by simpa using hu)
    exact ⟨List.mem_cons_of_mem _ hsnap, hother u [] (fun hut => ht (hut ▸ hsnap)) hr⟩

theorem InOrder.replayed {s : Shared} (h : InOrder s) {a : SocketAddr} {t : ClientToken} {w : ChannelId} {m : Str}
    {rest : List Str} (hb : s.barrier = some (.replay a t w (m :: rest))) {frame : Bytes} (hf : chatFrame m = .ok frame)
    (st : ServerState) (hsnap : t ∈ snapshots s.trace) :
    InOrder ⟨st, some (.replay a t w rest), .replayed t frame :: s.trace⟩ := by
  obtain ⟨done, hh, hd⟩ := h.holder a t w _ hb
  have hself : ReplayedTo t rest (.replayed t frame :: s.trace) := by
    refine ⟨done ++ [m], ?_, ?_⟩
    · rw [replayHistory, hh, List.append_assoc]; rfl
      exact nofun
    · rw [replayedFrames, if_pos rfl, List.map_append, List.map_append, hd]
      simp [hf]
  have hother : ∀ u rest, u ≠ t → ReplayedTo u rest s.trace → ReplayedTo u rest (.replayed t frame :: s.trace) :=
    fun u rest hu hr => by rw [ReplayedTo, replayedFrames, if_neg (Ne.symm hu)]; exact hr
  refine ⟨fun u => ?_, fun u hu => ?_, fun a t w rest hc => ?_, fun u hu => ?_⟩
  · by_cases hut : u = t
    · subst hut; exact ⟨_, hself⟩
    · obtain ⟨rest, hr⟩ := h.begun u
      exact ⟨rest, hother u rest hut hr⟩
  · have hut : t ≠ u := fun htu => hu (htu ▸ hsnap)
    rw [replayedFrames, if_neg hut]
    exact h.unbegun u hu
  · cases hc; exact hself
  · obtain ⟨husnap, done', hh', hd'⟩ := h.readied u (by simpa using hu)
    refine ⟨husnap, hother u [] (fun hut => ?_) ⟨done', hh', hd'⟩⟩
    -- a client that is ready has no message left to replay
    subst hut
    have hlen := congrArg List.length (hh.symm.trans hh')
    have hlen' := congrArg List.length (hd.trans hd'.symm)
    simp only [List.length_append, List.length_cons, List.length_map, List.length_nil] at hlen hlen'
    omega

theorem InOrder.readies {s : Shared} (h : InOrder s) {a : SocketAddr} {t : ClientToken} {w : ChannelId}
    (hb : s.barrier = some (.replay a t w [])) (st : ServerState) (hsnap : t ∈ snapshots s.trace) :
    InOrder ⟨st, some (.replayed (.ok ())), .ready t :: s.trace⟩ := by
  refine ⟨h.begun, h.unbegun, nofun, fun u hu => ?_⟩
  rcases List.mem_cons.1 hu with hu | hu
  · cases hu
    exact ⟨hsnap, h.holder a t w [] hb⟩
  · exact h.readied u hu

theorem InOrder.step {s s' : Shared} {l : Section} (hfed : Fed s) (h : InOrder s) (hm : Moves s l s') : InOrder s' := by
  have hone : ∀ e : Event, e.isReplay = false → ∀ e' ∈ [e], e'.isReplay = false := fun e he e' he' =>
    List.mem_singleton.1 he' ▸ he
  have hremoved : ∀ t b, ∀ e ∈ removedEvent t b, e.isReplay = false := fun t b e he => by
    cases b with
    | false => cases he
    | true => exact List.mem_singleton.1 he ▸ rfl
  have hold := hfed.holder
  cases hm with
  | register => exact h.frame [_] (hone (.registered _ _) rfl) rfl fun _ _ _ _ => id
  | setUsername => exact h.frame [_] (hone (.named _) rfl) rfl fun _ _ _ _ => id
  | remove => exact h.frame _ (hremoved _ _) rfl fun _ _ _ _ => id
  | barrier hb =>
    refine h.frame [] nofun rfl fun a t w rest hc => ?_
    cases hb <;> cases hc
  | snapshot hb => rw [hb] at hold; exact h.snapshot hold.1
  | replayed hb hf hs => rw [hb] at hold; exact h.replayed hb hf _ hold.1
  | readied hb => rw [hb] at hold; exact h.readies hb _ hold.1
  | unreadied hb => exact h.frame [] nofun rfl fun _ _ _ _ hc => by cases hc
  | record hb => exact h.frame [_] (hone (.recorded _) rfl) rfl fun _ _ _ _ hc => by cases hc
  | deliver hb => exact h.frame [_] (hone (.broadcast _ _ _ _) rfl) rfl fun _ _ _ _ hc => by cases hc
  | drop hb => exact h.frame _ (hremoved _ _) rfl fun _ _ _ _ hc => by cases hc
  | broadcast => exact h.frame [_] (hone (.broadcast _ _ _ _) rfl) rfl fun _ _ _ _ => id
  | tick => exact h.frame [] nofun rfl fun _ _ _ _ => id
  | reorder => exact h.frame [] nofun rfl fun _ _ _ _ => id

theorem inOrder_of_reach {G : Shared → Section → Prop} {s : Shared} (hs : System.Reach sections G s) : InOrder s :=
  hs.invariant inOrder_init fun _ _ _ hr h _ hstep => h.step (fed_of_reach hr) (moves_of_step hstep)

/-- **What a client is sent.**  For every registered client that no broadcast failed to enqueue to: its channel, then
its pending list, hold the frames replayed to it and then every frame broadcast since it registered without excluding
its address, in the broadcasts' order; what was replayed is a first part of its history, in order; ready, it has nothing
pending. -/
theorem client_fed {s : Shared} (hs : System.Reach sections System.Any s) {a : SocketAddr} {d : ClientDelivery}
    (hd : (a, d) ∈ s.st.delivering) (hf : d.token ∉ failed s.trace) :
    (s.st.channels d.writer).sent ++ d.pendingMessages = replayedFrames d.token s.trace ++ feed d.token a s.trace ∧
    (∃ rest, ReplayedTo d.token rest s.trace) ∧ (d.ready = true → d.pendingMessages = []) := by
  have h := fed_of_reach hs
  have hfed := h.fed _ hd hf
  rw [h.consistent.addr _ hd] at hfed
  rw [(h.handles _ hd).1]
  exact ⟨hfed, (inOrder_of_reach hs).begun d.token, h.readied _ hd⟩

/-- A client hears of another's name while it waits, and of a message once it is ready. -/
def oneClient : List Section :=
  let address : SocketAddr := .v4 0x7f000001 7878
  match Post.encode 1 .chat (lit "hi") (lit "hi") (by decide) with
  | .error _ => []
  | .ok post =>
    [.register address, .broadcast [lit "bob"] none, .lockReplay address 0, .advance [], .advance [], .advance [],
      .unlock,
      .lockRecord post none, .advance [], .advance [], .unlock]

theorem client_fed_oneClient : ∃ s a d, System.Reach sections System.Any s ∧ (a, d) ∈ s.st.delivering ∧ d.ready = true ∧
    (s.st.channels d.writer).sent.length = 2 ∧
    (s.st.channels d.writer).sent ++ d.pendingMessages = replayedFrames d.token s.trace ++ feed d.token a s.trace := by
  obtain ⟨s, hs, ht⟩ := System.exists_of_run sections (fun s => (failed s.trace).isEmpty &&
    s.st.delivering.any fun p => p.2.ready && (s.st.channels p.2.writer).sent.length == 2) oneClient (by decide)
  simp only [Bool.and_eq_true, List.any_eq_true, List.isEmpty_iff, beq_iff_eq] at ht
  obtain ⟨hfailed, ⟨a, d⟩, hd, hready, hlen⟩ := ht
  exact ⟨s, a, d, hs, hd, hready, hlen, (client_fed hs hd (by rw [hfailed]; exact nofun)).1⟩

end Server
end Drocsid
