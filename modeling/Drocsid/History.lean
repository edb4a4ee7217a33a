import Drocsid.Simulation
/-!
# History — what the history holds, and that a replay of it fits its channel

The history holds entries of messages recorded, at most its limit of them (`Kept`).  A session's channel is empty until
its replay begins, and until it is ready only the replay sends on it; its pending list never passes its own limit.  The
channel's capacity is the sum of the two limits, so no send of a replay finds it full (`replay_result`).
-/
namespace Drocsid

open Text Protocol

namespace Server

@[simp] theorem history_markClientReady (st : ServerState) (a : SocketAddr) (t : ClientToken) (rx : List Rx) :
    (markClientReady st a t rx).2.history = st.history := by
  unfold markClientReady
  split
  · rfl
  · split <;> exact (sessions_writeDelivery _ _ _ _).2.1

/-- A section leaves the history, or records a message in it. -/
theorem Moves.history {s s' : Shared} {l : Section} (hcon : Consistent s.st) (hm : Moves s l s') :
    (∃ events, s'.trace = events ++ s.trace) ∧ (s'.st.history = s.st.history ∨
      ∃ post, .recorded post ∈ s'.trace ∧ s'.st.history = s.st.history.record post.message) := by
  cases hm with
  | register hr => exact ⟨⟨[_], rfl⟩, .inl (registerClientWithStatus_ok hr).2.2.2.2.1⟩
  | setUsername hu =>
    obtain ⟨-, -, byAddr, rfl, -⟩ := setClientUsername_ok hu
    exact ⟨⟨[_], rfl⟩, .inl rfl⟩
  | remove hr | drop _ hr => exact ⟨⟨_, rfl⟩, .inl (removeClientIfCurrent_some hcon hr).1.history⟩
  | @readied a t w st rx hb hm =>
    have := history_markClientReady s.st a t rx
    rw [hm] at this
    exact ⟨⟨[_], rfl⟩, .inl this⟩
  | @unreadied a t w e st rx hb hm =>
    have := history_markClientReady s.st a t rx
    rw [hm] at this
    exact ⟨⟨[], rfl⟩, .inl this⟩
  | record => exact ⟨⟨[_], rfl⟩, .inr ⟨_, List.mem_cons_self, rfl⟩⟩
  | snapshot | replayed | deliver | broadcast => exact ⟨⟨[_], rfl⟩, .inl rfl⟩
  | barrier | tick => exact ⟨⟨[], rfl⟩, .inl rfl⟩
  | reorder hr =>
    unfold Server.reorder at hr
    split at hr
    · cases hr; exact ⟨⟨[], rfl⟩, .inl rfl⟩
    · cases hr

/-- Where a replay is after a section: where it was, at its begin, or a message further. -/
theorem Moves.replaying {s s' : Shared} {l : Section} (hm : Moves s l s') {a : SocketAddr} {t : ClientToken}
    {w : ChannelId} {rest : List Str} (hb' : s'.barrier = some (.replay a t w rest)) :
    s.barrier = some (.replay a t w rest) ∨
      s.barrier = some (.snapshot a t w) ∧ s'.st = s.st ∧ rest = s.st.history.entries ∨
      ∃ m frame channel, s.barrier = some (.replay a t w (m :: rest)) ∧ chatFrame m = .ok frame ∧
        (s.st.channels w).trySend frame = .ok channel ∧ s'.st = setChannel s.st w channel := by
  cases hm with
  | snapshot hb => cases hb'; exact .inr (.inl ⟨hb, rfl, rfl⟩)
  | replayed hb hf hs => cases hb'; exact .inr (.inr ⟨_, _, _, hb, hf, hs, rfl⟩)
  | barrier h => cases h <;> cases hb'
  | readied | unreadied | record | deliver | drop => cases hb'
  | register | setUsername | remove | broadcast | tick | reorder => exact .inl hb'

/-! ## The entries -/

/-- The text is the history entry of a message recorded. -/
def OfRecorded (tr : List Event) (m : Str) : Prop := ∃ post, .recorded post ∈ tr ∧ m = post.entry

/-- The history holds entries of messages recorded, at most its limit; and so does what a replay has left to send. -/
structure Kept (s : Shared) : Prop where
  limit : s.st.history.limit = messageHistoryLimit
  length : s.st.history.entries.length ≤ messageHistoryLimit
  entries : ∀ m ∈ s.st.history.entries, OfRecorded s.trace m
  replaying : ∀ a t w rest, s.barrier = some (.replay a t w rest) → ∀ m ∈ rest, OfRecorded s.trace m

theorem kept_init : Kept sections.init where
  limit := rfl
  length := Nat.zero_le _
  entries _ h := by cases h
  replaying _ _ _ _ h := by cases h

theorem Kept.step {s s' : Shared} {l : Section} (hcon : Consistent s.st) (h : Kept s) (hm : Moves s l s') :
    Kept s' := by
  obtain ⟨⟨events, htr⟩, hhist⟩ := hm.history hcon
  have hmono : ∀ {m}, OfRecorded s.trace m → OfRecorded s'.trace m := fun ⟨post, hp, he⟩ =>
    ⟨post, htr ▸ List.mem_append_right _ hp, he⟩
  have hreplaying : ∀ a t w rest, s'.barrier = some (.replay a t w rest) → ∀ m ∈ rest, OfRecorded s'.trace m := by
    intro a t w rest hb' m hmem
    rcases hm.replaying hb' with hb | ⟨-, -, rfl⟩ | ⟨m', -, -, hb, -⟩
    · exact hmono (h.replaying a t w rest hb m hmem)
    · exact hmono (h.entries m hmem)
    · exact hmono (h.replaying a t w _ hb m (List.mem_cons_of_mem _ hmem))
  rcases hhist with hsame | ⟨post, hp, hrec⟩
  · exact ⟨hsame ▸ h.limit, hsame ▸ h.length, hsame ▸ fun m hmem => hmono (h.entries m hmem), hreplaying⟩
  · have hentries : ∀ m ∈ s.st.history.entries ++ [historyEntry post.message], OfRecorded s'.trace m := fun m hmem => by
      rcases List.mem_append.1 hmem with hmem | hmem
      · exact hmono (h.entries m hmem)
      · exact ⟨post, hp, List.mem_singleton.1 hmem⟩
    refine ⟨by rw [hrec]; exact h.limit, ?_, fun m hmem => hentries m ?_, hreplaying⟩
    · rw [hrec, MessageHistory.record]
      simp only
      have := h.length
      split
      · rw [List.length_tail, List.length_append]; simp only [List.length_singleton]; omega
      · rename_i hle; rw [h.limit] at hle; omega
    · rw [hrec, MessageHistory.record] at hmem
      simp only at hmem
      split at hmem
      · exact List.mem_of_mem_tail hmem
      · exact hmem

theorem kept_of_reach {G : Shared → Section → Prop} {s : Shared} (hs : System.Reach sections G s) : Kept s :=
  hs.invariant kept_init fun _ _ _ hr h _ hstep => h.step (fed_of_reach hr).consistent (moves_of_step hstep)

/-- An entry of a recorded message always encodes. -/
theorem OfRecorded.encodes {tr : List Event} {m : Str} (h : OfRecorded tr m) : ∃ frame, chatFrame m = .ok frame := by
  obtain ⟨post, -, rfl⟩ := h
  have hlen := post.fits
  have henc := post.encoded
  unfold chatFrame at henc ⊢
  split at henc
  · rename_i he
    have := (encodeFrame_eq_ok.1 he).1
    rw [length_toBytes] at this
    rw [encodeFrame_eq_ok.2 ⟨by rw [length_toBytes]; exact hlen.trans this, rfl⟩]
    exact ⟨_, rfl⟩
  · cases henc

/-! ## The channel of a replay -/

/-- What is on the channels: nothing before a session's replay begins, and no more than the history while it lasts; and
the pending lists are within their limit. -/
structure Fits (s : Shared) : Prop where
  capacity : ∀ w, (s.st.channels w).capacity = outboundQueueSize
  pending : ∀ p ∈ s.st.delivering, p.2.pendingMessages.length ≤ pendingMessagesLimit
  fresh : ∀ t, t ∉ snapshots s.trace → (s.st.channels t).sent = []
  replaying : ∀ a t w rest, s.barrier = some (.replay a t w rest) →
    (s.st.channels w).sent.length + rest.length ≤ messageHistoryLimit

theorem fits_init : Fits sections.init where
  capacity _ := rfl
  pending _ h := by cases h
  fresh _ _ := rfl
  replaying _ _ _ _ h := by cases h

/-- A section that sends nothing. -/
theorem Fits.frame {s s' : Shared} (h : Fits s) (hch : ∀ w, (s'.st.channels w).capacity = (s.st.channels w).capacity ∧
      (s'.st.channels w).sent = (s.st.channels w).sent)
    (hpend : ∀ p ∈ s'.st.delivering, p.2.pendingMessages = [] ∨
      ∃ q ∈ s.st.delivering, q.2.pendingMessages = p.2.pendingMessages)
    (hsnap : ∀ t ∈ snapshots s.trace, t ∈ snapshots s'.trace)
    (hb : ∀ a t w rest, s'.barrier = some (.replay a t w rest) → s.barrier = some (.replay a t w rest)) : Fits s' where
  capacity w := by rw [(hch w).1]; exact h.capacity w
  pending p hp := by
    rcases hpend p hp with he | ⟨q, hq, he⟩
    · rw [he]; exact Nat.zero_le _
    · rw [← he]; exact h.pending q hq
  fresh t ht := by rw [(hch t).2]; exact h.fresh t fun hm => ht (hsnap t hm)
  replaying a t w rest hr := by rw [(hch w).2]; exact h.replaying a t w rest (hb a t w rest hr)

theorem capacity_setChannel_tick (st : ServerState) (w u : ChannelId) (rx : Rx) :
    ((setChannel st w ((st.channels w).tick rx)).channels u).capacity = (st.channels u).capacity ∧
      ((setChannel st w ((st.channels w).tick rx)).channels u).sent = (st.channels u).sent := by
  refine ⟨?_, sent_setChannel_tick st w u rx⟩
  by_cases hu : u = w
  · subst hu; simp [setChannel]
  · simp [setChannel, hu]

/-- A client whose replay has not begun or is under way is sent no broadcast. -/
theorem Fits.deliver {s : Shared} (hfed : Fed s) (h : Fits s) (frame : Bytes) (ex : Option SocketAddr)
    (post : Option Post) {c : Option Critical}
    (hc : ∀ a t w rest, c = some (.replay a t w rest) → s.barrier = some (.replay a t w rest)) :
    Fits ⟨(Server.deliver s.st frame ex).1, c,
      .broadcast frame ex ((Server.deliver s.st frame ex).2.map Prod.snd) post :: s.trace⟩ := by
  obtain ⟨hother, hmem, -⟩ := deliver_spec hfed.writers frame ex
  -- a channel no ready client has is left as it was
  have hsame : ∀ w, (∀ p ∈ s.st.delivering, p.2.token = w → p.2.ready = false) →
      (Server.deliver s.st frame ex).1.channels w = s.st.channels w := fun w hw => by
    by_cases hin : w ∈ s.st.delivering.map (·.2.writer)
    · obtain ⟨p, hp, rfl⟩ := List.mem_map.1 hin
      rw [hmem p hp, if_neg]
      simp [ClientDelivery.sends, hw p hp (hfed.handles p hp).1.symm]
    · exact hother w hin
  refine ⟨fun w => ?_, fun q hq => ?_, fun t ht => ?_, fun a t w rest hr => ?_⟩
  · by_cases hin : w ∈ s.st.delivering.map (·.2.writer)
    · obtain ⟨p, hp, rfl⟩ := List.mem_map.1 hin
      show ((Server.deliver s.st frame ex).1.channels p.2.writer).capacity = _
      rw [hmem p hp]
      split
      · rw [Fifo.capacity_offer]; exact h.capacity _
      · exact h.capacity _
    · show ((Server.deliver s.st frame ex).1.channels w).capacity = _
      rw [hother w hin]
      exact h.capacity w
  · have hq : q ∈ (Server.deliver s.st frame ex).1.delivering := hq
    obtain ⟨p, hp, rfl⟩ := exists_of_mem_deliver hq
    have := h.pending p hp
    show (p.2.queue frame ex).pendingMessages.length ≤ _
    unfold ClientDelivery.queue
    split
    · exact this
    · rename_i hroom
      simp only [not_or, Nat.not_le] at hroom
      simp only [List.length_append, List.length_singleton]
      omega
  · show ((Server.deliver s.st frame ex).1.channels t).sent = []
    rw [hsame t fun p hp he => (hfed.waiting p hp (he ▸ ht)).1]
    exact h.fresh t ht
  · have hb := hc a t w rest hr
    have hold := hfed.holder
    rw [hb] at hold
    obtain ⟨-, rfl, -, hready⟩ := hold
    show ((Server.deliver s.st frame ex).1.channels w).sent.length + rest.length ≤ _
    rw [hsame w fun p hp he => (hready p hp he).1]
    exact h.replaying a w w rest hb

/-- Making a client ready sends what is pending on its channel, and has no other to send. -/
theorem Fits.markReady {s : Shared} (hfed : Fed s) (h : Fits s) {a : SocketAddr} {t : ClientToken} {w : ChannelId}
    (hb : s.barrier = some (.replay a t w [])) (rx : List Rx) (result : Except ServerError Unit) (tr : List Event)
    (htr : ∀ u ∈ snapshots s.trace, u ∈ snapshots tr) :
      Fits ⟨(markClientReady s.st a t rx).2, some (.replayed result), tr⟩ := by
  have hold := hfed.holder
  rw [hb] at hold
  obtain ⟨hsnap, rfl, -, -⟩ := hold
  by_cases hid : (a, w) ∈ s.st.sessionIds
  · obtain ⟨d, hd, rfl⟩ := mem_deliveryIds.1 (hfed.consistent.same.mem_iff.2 hid)
    obtain ⟨channel, unsent, e, hsend, -, hch, hmem⟩ := markClientReady_mem hfed hd rfl rx
    have hcons := Fifo.sendAll_conserves (s.st.channels d.token) d.pendingMessages rx
    have hlen := h.replaying _ _ _ _ hb
    have hpend := h.pending _ hd
    have hfull := Fifo.sendAll_not_full (s.st.channels d.token) d.pendingMessages rx (by
      rw [h.capacity, outboundQueueSize]; simp only [List.length_nil] at hlen; simp only at hpend; omega)
    rw [hsend] at hcons hfull
    refine ⟨fun u => ?_, fun q hq => ?_, fun u hu => ?_, nofun⟩
    · show ((markClientReady s.st a d.token rx).2.channels u).capacity = _
      rw [hch]
      by_cases hu : u = d.token
      · subst hu; rw [Function.update_self, hfull.2]; exact h.capacity _
      · rw [Function.update_of_ne hu]; exact h.capacity u
    · rcases hmem q hq with rfl | ⟨hq, -⟩
      · have hunsent := congrArg List.length hcons
        have hsub : unsent.length ≤ d.pendingMessages.length := by
          have := Fifo.sent_le_sendAll (s.st.channels d.token) d.pendingMessages rx
          rw [hsend] at this
          simp only [List.length_append] at this hunsent
          omega
        exact hsub.trans hpend
      · exact h.pending q hq
    · have hne : u ≠ d.token := by rintro rfl; exact hu (htr _ hsnap)
      show ((markClientReady s.st a d.token rx).2.channels u).sent = []
      rw [hch, Function.update_of_ne hne]
      exact h.fresh u fun hm => hu (htr u hm)
  · rw [markClientReady_unknown hfed.consistent hid]
    exact h.frame (fun _ => ⟨rfl, rfl⟩) (fun p hp => .inr ⟨p, hp, rfl⟩) htr fun _ _ _ _ hc => by cases hc

theorem Fits.step {s s' : Shared} {l : Section} (hfed : Fed s) (hkept : Kept s) (h : Fits s) (hm : Moves s l s') :
    Fits s' := by
  have hcon := hfed.consistent
  have hself : ∀ p ∈ s.st.delivering, p.2.pendingMessages = [] ∨
    ∃ q ∈ s.st.delivering, q.2.pendingMessages = p.2.pendingMessages :=
    fun p hp => .inr ⟨p, hp, rfl⟩
  have hsnap : ∀ {t removed}, ∀ u ∈ snapshots s.trace, u ∈ snapshots (removedEvent t removed ++ s.trace) :=
    fun {t removed} u hu => by
    rw [(SameFeeds.removed t removed s.trace).snapshots]; exact hu
  have hold := hfed.holder
  cases hm with
  | register hr =>
    obtain ⟨-, -, -, hd, -, hch, -⟩ := registerClientWithStatus_ok hr
    refine h.frame (fun w => by rw [hch]; exact ⟨rfl, rfl⟩) (fun p hp => ?_) (fun _ => id) fun _ _ _ _ => id
    rcases List.mem_cons.1 (hd.mem_iff.1 hp) with rfl | hp
    · exact .inl rfl
    · exact hself p hp
  | setUsername hu =>
    obtain ⟨-, -, byAddr, rfl, -⟩ := setClientUsername_ok hu
    exact h.frame (fun _ => ⟨rfl, rfl⟩) hself (fun _ => id) fun _ _ _ _ => id
  | remove hr =>
    obtain ⟨hrem, -⟩ := removeClientIfCurrent_some hcon hr
    exact h.frame (fun w => by rw [hrem.channels]; exact ⟨rfl, rfl⟩)
      (fun p hp => hself p (List.mem_filter.1 (hrem.delivering.mem_iff.1 hp)).1) hsnap fun _ _ _ _ => id
  | drop hb hr =>
    obtain ⟨hrem, -⟩ := removeClientIfCurrent_some hcon hr
    exact h.frame (fun w => by rw [hrem.channels]; exact ⟨rfl, rfl⟩)
      (fun p hp => hself p (List.mem_filter.1 (hrem.delivering.mem_iff.1 hp)).1) hsnap fun _ _ _ _ hc => by cases hc
  | barrier hb => exact h.frame (fun _ => ⟨rfl, rfl⟩) hself (fun _ => id) fun a t w rest hc => by cases hb <;> cases hc
  | @snapshot a t w rx hb =>
    rw [hb] at hold
    obtain ⟨hnot, rfl, -⟩ := hold
    refine ⟨h.capacity, h.pending, fun u hu => h.fresh u fun hm => hu (List.mem_cons_of_mem _ hm),
      fun b u x rest hc => ?_⟩
    cases hc
    show (s.st.channels w).sent.length + s.st.history.entries.length ≤ _
    rw [h.fresh w hnot, List.length_nil, Nat.zero_add]
    exact hkept.length
  | @replayed a t w m rest frame channel rx hb hf hs =>
    rw [hb] at hold
    obtain ⟨hin, rfl, -⟩ := hold
    have hlen := h.replaying _ _ _ _ hb
    rw [List.length_cons] at hlen
    obtain ⟨-, -, rfl⟩ := Fifo.trySend_eq_ok.1 hs
    refine ⟨fun u => ?_, h.pending, fun u hu => ?_, fun b u x rest hc => ?_⟩
    · by_cases hu : u = w
      · subst hu; simp only [setChannel, Function.update_self]; exact h.capacity _
      · simp only [setChannel, Function.update_of_ne hu]; exact h.capacity u
    · have hne : u ≠ w := by rintro rfl; exact hu hin
      simp only [setChannel, Function.update_of_ne hne]
      exact h.fresh u hu
    · cases hc
      simp only [setChannel, Function.update_self, List.length_append, List.length_singleton]
      omega
  | @readied a t w st rx hb hm =>
    have := h.markReady hfed hb rx (.ok ()) (.ready t :: s.trace) fun _ => id
    rwa [hm] at this
  | @unreadied a t w e st rx hb hm =>
    have := h.markReady hfed hb rx (.error e) s.trace fun _ => id
    rwa [hm] at this
  | record hb => exact h.frame (fun _ => ⟨rfl, rfl⟩) hself (fun _ => id) fun _ _ _ _ hc => by cases hc
  | deliver hb => exact h.deliver hfed _ _ _ fun _ _ _ _ hc => by cases hc
  | broadcast => exact h.deliver hfed _ _ _ fun _ _ _ _ => id
  | tick => exact h.frame (fun w => capacity_setChannel_tick _ _ _ _) hself (fun _ => id) fun _ _ _ _ => id
  | reorder hr =>
    unfold Server.reorder at hr
    split at hr
    · rename_i hp
      cases hr
      exact h.frame (fun _ => ⟨rfl, rfl⟩) (fun p hp' => hself p ((Table.Same.items hp.2).mem_iff.1 hp')) (fun _ => id)
        fun _ _ _ _ => id
    · cases hr

theorem fits_of_reach {G : Shared → Section → Prop} {s : Shared} (hs : System.Reach sections G s) : Fits s :=
  hs.invariant fits_init fun _ _ _ hr h _ hstep => h.step (fed_of_reach hr) (kept_of_reach hr) (moves_of_step hstep)

/-! ## What a replay returns -/

/-- What `send_message_history` may return. -/
def Returns (result : Except ServerError Unit) : Prop :=
  result = .ok () ∨ result = .error .unknownClient ∨ result = .error .outboundWriterGone

theorem returns_sendError {e : SendError} (h : e ≠ .full) : Returns (.error (sendError e)) := by
  cases e with
  | full => exact absurd rfl h
  | closed => exact .inr (.inr rfl)

/-- The end of a replay: the client is made ready, or its channel is closed. -/
theorem returns_markClientReady {s : Shared} (hfed : Fed s) (h : Fits s) {a : SocketAddr} {t : ClientToken}
    {w : ChannelId} (hb : s.barrier = some (.replay a t w [])) (rx : List Rx) :
    Returns (markClientReady s.st a t rx).1 := by
  have hold := hfed.holder
  rw [hb] at hold
  obtain ⟨-, rfl, -, -⟩ := hold
  by_cases hid : (a, w) ∈ s.st.sessionIds
  · obtain ⟨d, hd, rfl⟩ := mem_deliveryIds.1 (hfed.consistent.same.mem_iff.2 hid)
    obtain ⟨channel, unsent, e, hsend, hres, -⟩ := markClientReady_mem hfed hd rfl rx
    have hlen := h.replaying _ _ _ _ hb
    have hpend := h.pending _ hd
    have hfull := (Fifo.sendAll_not_full (s.st.channels d.token) d.pendingMessages rx (by
      rw [h.capacity, outboundQueueSize]; simp only [List.length_nil] at hlen; simp only at hpend; omega)).1
    rw [hsend] at hfull
    rw [hres]
    cases e with
    | none => exact .inl rfl
    | some e => exact returns_sendError fun he => hfull (by rw [he])
  · rw [markClientReady_unknown hfed.consistent hid]
    exact .inr (.inl rfl)

/-- A section of a replay that refuses a message found the channel closed. -/
theorem returns_refused {s s' : Shared} (hkept : Kept s) (h : Fits s) {a : SocketAddr} {t : ClientToken} {w : ChannelId}
    {m : Str} {rest : List Str} {rx : List Rx} {e : ServerError} (hb : s.barrier = some (.replay a t w (m :: rest)))
    (hstep : sections.step s (.advance rx) = some s') (hb' : s'.barrier = some (.replayed (.error e))) :
      Returns (.error e) := by
  obtain ⟨frame, hf⟩ := (hkept.replaying a t w _ hb m List.mem_cons_self).encodes
  simp only [sections, hb, Option.bind_some, Critical.step, hf] at hstep
  have hlen := h.replaying a t w _ hb
  rw [List.length_cons] at hlen
  cases hsend : (s.st.channels w).trySend frame with
  | ok channel => rw [hsend] at hstep; cases hstep; cases hb'
  | error se =>
    rw [hsend] at hstep
    cases hstep
    cases hb'
    refine returns_sendError fun hfull => ?_
    rw [hfull] at hsend
    have := Fifo.capacity_le_of_full hsend
    rw [h.capacity, outboundQueueSize] at this
    omega

/-- **A replay that fails found its client or its channel's receiver gone.** -/
theorem replay_returns {G : Shared → Section → Prop} {s : Shared} (hs : System.Reach sections G s) :
    ∀ result, s.barrier = some (.replayed result) → Returns result := by
  refine hs.invariant (I := fun s => ∀ result, s.barrier = some (.replayed result) → Returns result)
    (fun _ h => by cases h) fun s l s' hr hI _ hstep result hb' => ?_
  have hfed := fed_of_reach hr
  have hfits := fits_of_reach hr
  cases moves_of_step hstep with
  | barrier hm =>
    cases hm with
    | unknown => cases hb'; exact .inr (.inl rfl)
    | @refused _ _ _ _ _ e rx hb => cases hb'; exact returns_refused (kept_of_reach hr) hfits hb hstep rfl
    | lockReplay | lockRecord | unlock | found => cases hb'
  | @readied a t w st rx hb hm =>
    cases hb'
    exact .inl rfl
  | @unreadied a t w e st rx hb hm =>
    cases hb'
    have := returns_markClientReady hfed hfits hb rx
    rwa [hm] at this
  | snapshot | replayed | record | deliver | drop => cases hb'
  | register | setUsername | remove | broadcast | tick | reorder => exact hI result hb'

/-- A handler whose history replay returned. -/
def HandlerPc.Replied : HandlerPc → Prop
  | .serving _ (.calling .history (.done result)) =>
    result = .ok false ∨ result = .error .unknownClient ∨ result = .error .outboundWriterGone
  | _ => True

theorem HandlerPc.Begins.replied {a : SocketAddr} {pc : HandlerPc} (h : pc.Begins a) : pc.Replied := by
  unfold HandlerPc.Replied
  split
  · exact nomatch h.2
  · trivial

theorem Turn.replied {G : World → Label → Prop} {w w' : World} (hw : System.Reach server G w) {c : Nat} {l : Label}
    {conn : Conn} (h : Turn w c l w' conn) (hP : (w.conns c).handler.Replied) : conn.handler.Replied := by
  obtain ⟨hsound, hr⟩ := sound_of_reach hw
  cases h with
  | @call s next rx r _ r' hh ht =>
    have hs := (hsound.bound c).handling
    rw [hh] at hs
    cases ht with
    | @unlock k result hd =>
      cases next with
      | history =>
        have hheld : w.held (.handler c) = some k := by rw [World.held, hh]; rfl
        have hbar : w.shared.barrier = some k := by
          rw [World.shared, (hsound.holder (.handler c)).1 (by rw [hheld]; rfl)]
          exact hheld
        cases hs with
        | critical hs =>
          cases hs with
          | @replayed r =>
            rcases replay_returns hr r hbar with rfl | rfl | rfl <;> cases hd
            · exact .inl rfl
            · exact .inr (.inl rfl)
            · exact .inr (.inr rfl)
          | lookup | snapshot | replay => cases hd
      | _ => trivial
    | unencoded | dropped =>
      cases next with
      | history => cases hs
      | _ => trivial
    | lockReplay | lockRecord | advance | prune | prunes | taken | present | drops => cases next <;> trivial
  | finish => exact (begins_afterRemoval (w.conns c).addr _ _ _ _).replied
  | wait _ hw => exact (hw.begins (w.conns c).addr).replied
  | receive | remove | writerCall | writerWait | stop => exact hP
  | accept | acquired | full | admitted | refused | registered | unregistered | named | unnamed | unregister
  | storeJoined | dropPermit | dropGlobal => trivial

/-- **The history and the pending messages always fit.**  In every run, a session's `send_message_history` returns, if
at all, that its client is ready, that it is gone, or that its channel's receiver is; it never finds the channel
full. -/
theorem history_fits {w : World} (hw : System.Reach server System.Any w) {c : Nat} {s : Session}
    {result : Except ServerError Bool} (hh : (w.conns c).handler = .serving s (.calling .history (.done result))) :
    result = .ok false ∨ result = .error .unknownClient ∨ result = .error .outboundWriterGone := by
  have := forall_conns (P := fun _ conn => conn.handler.Replied) trivial
    (fun w l c w' conn hr _ h hP => h.replied hr hP) (fun _ _ _ _ _ _ _ _ _ _ _ hP => hP) hw c
  rw [hh] at this
  exact this

/-- Bob registers, Alice joins, and then Bob's history is replayed: her join, and the two messages pending. -/
theorem history_fits_bob : ∃ w s result frame pending, System.Reach server System.Any w ∧
    (w.conns 0).handler = .serving s (.calling .history (.done result)) ∧ .replayed 0 frame ∈ w.trace ∧
    (w.st.channels 0).sent = frame :: pending ∧ pending.length = 2 ∧
    (result = .ok false ∨ result = .error .unknownClient ∨ result = .error .outboundWriterGone) := by
  obtain ⟨w, hw, ht⟩ := System.exists_of_run server
    (fun w => (match (w.conns 0).handler with
        | .serving _ (.calling .history (.done _)) => true
        | _ => false) &&
      (match (w.st.channels 0).sent with
        | frame :: pending => decide (.replayed 0 frame ∈ w.trace) && pending.length == 2
        | [] => false))
    (registers 0 bobAddr "bob" ++ registers 1 aliceAddr "alice" ++ replays 1 0 ++ enters 1 ++
      .handler 0 .go :: sectionsOf 6 0) (by decide)
  obtain ⟨hreturns, hsends⟩ := Bool.and_eq_true_iff.1 ht
  split at hreturns
  · rename_i s result hh
    split at hsends
    · rename_i frame pending hsent
      simp only [Bool.and_eq_true, decide_eq_true_eq, beq_iff_eq] at hsends
      exact ⟨w, s, result, frame, pending, hw, hh, hsends.1, hsent, hsends.2, history_fits hw hh⟩
    · cases hsends
  · cases hreturns

end Server
end Drocsid
