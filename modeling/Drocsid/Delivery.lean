import Drocsid.Registry
/-!
# Delivery — what the sections that send do to each client

With one channel for each client, the turns of a broadcast's loop do not see one another: a client's channel and record,
and whether it is doomed, depend on the client alone (`deliver_spec`).  Making a client ready moves its pending messages
to its channel as far as they go (`markClientReady_spec`).
-/
namespace Drocsid

open Text Protocol

namespace Server

/-- The broadcast goes to the client's channel. -/
def ClientDelivery.sends (excludeAddr : Option SocketAddr) (client : ClientDelivery) : Bool :=
  decide (excludeAddr ≠ some client.addr) && client.ready

/-- The client's channel or pending list has no room for a broadcast that does not exclude it. -/
def ClientDelivery.refuses (channels : Channels) (excludeAddr : Option SocketAddr) (client : ClientDelivery) : Bool :=
  decide (excludeAddr ≠ some client.addr) &&
    if client.ready then !(channels client.writer).accepts
    else decide (client.pendingMessages.length ≥ pendingMessagesLimit)

/-- One turn, for the channels. -/
theorem deliverTo_channels (frame : Bytes) (ex : Option SocketAddr) (acc : Channels × List Doomed) (d : ClientDelivery)
    (w : ChannelId) :
    (deliverTo frame ex acc d).1.1 w = if w = d.writer ∧ d.sends ex = true then (acc.1 w).offer frame else acc.1 w := by
  unfold deliverTo ClientDelivery.sends
  by_cases hex : ex = some d.addr
  · simp [hex]
  by_cases hr : d.ready = true
  · rw [if_neg hex, if_pos hr]
    cases ha : (acc.1 d.writer).accepts with
    | true =>
      rw [Fifo.trySend_of_accepts frame ha]
      by_cases hw : w = d.writer
      · subst hw; simp [hex, hr]
      · simp [hw]
    | false =>
      obtain ⟨e, he⟩ := Fifo.trySend_of_not_accepts frame ha
      rw [he]
      by_cases hw : w = d.writer
      · subst hw; simp [Fifo.offer, ha]
      · simp [hw]
  · rw [if_neg hex, if_neg hr]
    split <;> simp [hr]

/-- One turn, for the doomed. -/
theorem deliverTo_doomed (frame : Bytes) (ex : Option SocketAddr) (acc : Channels × List Doomed) (d : ClientDelivery) :
    (deliverTo frame ex acc d).1.2 = acc.2 ++ if d.refuses acc.1 ex then [(d.addr, d.token)] else [] := by
  unfold deliverTo ClientDelivery.refuses
  by_cases hex : ex = some d.addr
  · simp [hex]
  by_cases hr : d.ready = true
  · rw [if_neg hex, if_pos hr]
    cases ha : (acc.1 d.writer).accepts with
    | true => rw [Fifo.trySend_of_accepts frame ha]; simp [hr]
    | false =>
      obtain ⟨e, he⟩ := Fifo.trySend_of_not_accepts frame ha
      rw [he]; simp [hex, hr]
  · rw [if_neg hex, if_neg hr]
    split
    · rename_i hl; simp [hex, hl]
    · rename_i hl; simp [hl]

/-- The loop, over clients of distinct channels. -/
theorem deliverTo_foldl (frame : Bytes) (ex : Option SocketAddr) : ∀ (ds : List ClientDelivery)
    (acc : Channels × List Doomed), (ds.map (·.writer)).Nodup →
    let r := ds.foldl (fun acc d => (deliverTo frame ex acc d).1) acc
    (∀ w, w ∉ ds.map (·.writer) → r.1 w = acc.1 w) ∧
    (∀ d ∈ ds, r.1 d.writer = if d.sends ex then (acc.1 d.writer).offer frame else acc.1 d.writer) ∧
    r.2 = acc.2 ++ (ds.filter (·.refuses acc.1 ex)).map fun d => (d.addr, d.token)
  | [], acc, _ => ⟨fun _ _ => rfl, nofun, by simp⟩
  | d :: ds, acc, hn => by
    rw [List.map_cons, List.nodup_cons] at hn
    obtain ⟨ho, hm, hd⟩ := deliverTo_foldl frame ex ds (deliverTo frame ex acc d).1 hn.2
    have hother : ∀ w ≠ d.writer, (deliverTo frame ex acc d).1.1 w = acc.1 w := fun w hw => by
      rw [deliverTo_channels, if_neg fun h => hw h.1]
    have hne : ∀ e ∈ ds, e.writer ≠ d.writer := fun e he heq => hn.1 (heq ▸ List.mem_map.2 ⟨e, he, rfl⟩)
    refine ⟨fun w hw => ?_, fun e he => ?_, ?_⟩
    · rw [List.map_cons, List.mem_cons, not_or] at hw
      rw [List.foldl_cons, ho w hw.2, hother w hw.1]
    · rw [List.foldl_cons]
      rcases List.mem_cons.1 he with rfl | he
      · rw [ho _ hn.1, deliverTo_channels]; simp
      · rw [hm e he, hother _ (hne e he)]
    · rw [List.foldl_cons, hd, deliverTo_doomed, List.append_assoc]
      apply congrArg (acc.2 ++ ·)
      have hsame : ds.filter (·.refuses (deliverTo frame ex acc d).1.1 ex) = ds.filter (·.refuses acc.1 ex) :=
        List.filter_congr fun e he => by unfold ClientDelivery.refuses; rw [hother _ (hne e he)]
      rw [hsame, List.filter_cons]
      split <;> simp

/-- **The deliveries section of a broadcast**, where each client has a channel of its own. -/
theorem deliver_spec {st : ServerState} (hn : (st.delivering.map (·.2.writer)).Nodup) (frame : Bytes)
    (ex : Option SocketAddr) :
    (∀ w, w ∉ st.delivering.map (·.2.writer) → (deliver st frame ex).1.channels w = st.channels w) ∧
    (∀ p ∈ st.delivering, (deliver st frame ex).1.channels p.2.writer =
      if p.2.sends ex then (st.channels p.2.writer).offer frame else st.channels p.2.writer) ∧
    (deliver st frame ex).2 = (st.delivering.filter (·.2.refuses st.channels ex)).map fun p =>
      (p.2.addr, p.2.token) := by
  have hn' : ((st.delivering.map Prod.snd).map (·.writer)).Nodup := by rwa [List.map_map]
  obtain ⟨ho, hm, hd⟩ := deliverTo_foldl frame ex (st.delivering.map Prod.snd) (st.channels, []) hn'
  have hfold := Table.fst_forItems (deliverTo frame ex) (st.channels, []) st.deliveries.byAddr
  refine ⟨fun w hw => ?_, fun p hp => ?_, ?_⟩
  · rw [deliver]; simp only [hfold]; exact ho w (by rwa [List.map_map])
  · rw [deliver]; simp only [hfold]; exact hm p.2 (List.mem_map_of_mem hp)
  · rw [deliver]; simp only [hfold]
    refine hd.trans ?_
    rw [List.nil_append, List.filter_map, List.map_map]
    rfl

/-! ## Dropping the doomed -/

/-- A session under its address is none of the doomed. -/
def Spared (doomed : List Doomed) (a : SocketAddr) (t : ClientToken) : Bool := decide ((a, t) ∉ doomed)

/-- What the loop over doomed clients does: they are taken out of both registries and signalled, and nothing else
changes. -/
structure RemovesAll (st : ServerState) (doomed : List Doomed) (st' : ServerState) : Prop where
  consistent : Consistent st'
  sessions : st'.sessions.Perm (st.sessions.filter fun p => Spared doomed p.1 p.2.token)
  delivering : st'.delivering.Perm (st.delivering.filter fun p => Spared doomed p.1 p.2.token)
  disconnects : ∀ w, st'.disconnects w = true ↔ st.disconnects w = true ∨
    ∃ p ∈ st.delivering, Spared doomed p.1 p.2.token = false ∧ p.2.disconnect = some w
  channels : st'.channels = st.channels
  history : st'.history = st.history
  nextToken : st'.nextToken = st.nextToken

theorem spared_cons (x : Doomed) (doomed : List Doomed) (a : SocketAddr) (t : ClientToken) :
    Spared (x :: doomed) a t = (Spared doomed a t && (decide (a ≠ x.1) || t != x.2)) := by
  obtain ⟨b, u⟩ := x
  unfold Spared
  by_cases hb : a = b <;> by_cases hu : t = u <;> simp [hb, hu]

/-- **The loop over doomed clients** removes exactly them. -/
theorem removesAll_of_removeAll : ∀ {doomed : List Doomed} {st st' : ServerState}, Consistent st →
    removeAll st doomed = some st' → RemovesAll st doomed st'
  | [], st, st', h, hr => by
    cases hr
    refine ⟨h, ?_, ?_, fun w => ?_, rfl, rfl, rfl⟩
    · simp [Spared]
    · simp [Spared]
    · simp [Spared]
  | (a, t) :: doomed, st, st', h, hr => by
    obtain ⟨⟨b, st₁⟩, hone, hrest⟩ := Option.bind_eq_some_iff.1 hr
    obtain ⟨hrem, hcon⟩ := removeClientIfCurrent_some h hone
    have hall := removesAll_of_removeAll hcon hrest
    refine ⟨hall.consistent, ?_, ?_, fun w => ?_, hall.channels.trans hrem.channels, hall.history.trans hrem.history,
      hall.nextToken.trans hrem.nextToken⟩
    · refine hall.sessions.trans ((hrem.sessions.filter _).trans (.of_eq ?_))
      rw [List.filter_filter]
      exact List.filter_congr fun p _ => (spared_cons (a, t) doomed p.1 p.2.token).symm
    · refine hall.delivering.trans ((hrem.delivering.filter _).trans (.of_eq ?_))
      rw [List.filter_filter]
      exact List.filter_congr fun p _ => (spared_cons (a, t) doomed p.1 p.2.token).symm
    · rw [hall.disconnects, hrem.disconnects, Bool.or_eq_true, List.any_eq_true]
      simp only [Bool.and_eq_true, decide_eq_true_eq, beq_iff_eq, spared_cons, Bool.and_eq_false_iff,
        Bool.or_eq_false_iff, decide_eq_false_iff_not, not_not, bne_eq_false_iff_eq]
      constructor
      · rintro ((hw | ⟨p, hp, hid, hw⟩) | ⟨p, hp, hd, hw⟩)
        · exact .inl hw
        · exact .inr ⟨p, hp, .inr hid, hw⟩
        · exact .inr ⟨p, (List.mem_filter.1 (hrem.delivering.mem_iff.1 hp)).1, .inl hd, hw⟩
      · rintro (hw | ⟨p, hp, hd | hid, hw⟩)
        · exact .inl (.inl hw)
        · by_cases hid : p.1 = a ∧ p.2.token = t
          · exact .inl (.inr ⟨p, hp, hid, hw⟩)
          · refine .inr ⟨p, hrem.delivering.mem_iff.2 (List.mem_filter.2 ⟨hp, ?_⟩), hd, hw⟩
            simpa [← not_and_or] using hid
        · exact .inl (.inr ⟨p, hp, hid, hw⟩)

/-- The doomed of a broadcast are the clients that refuse it. -/
theorem mem_doomed {st : ServerState} (h : Consistent st) (hn : (st.delivering.map (·.2.writer)).Nodup) (frame : Bytes)
    (ex : Option SocketAddr) {p : SocketAddr × ClientDelivery} (hp : p ∈ st.delivering) :
    (p.1, p.2.token) ∈ (deliver st frame ex).2 ↔ p.2.refuses st.channels ex = true := by
  obtain ⟨-, -, hdoomed⟩ := deliver_spec hn frame ex
  rw [hdoomed, List.mem_map]
  constructor
  · rintro ⟨q, hq, he⟩
    obtain ⟨hq, href⟩ := List.mem_filter.1 hq
    have htoken : q.2.token = p.2.token := congrArg Prod.snd he
    have hsame : q = p := h.unique hq hp htoken
    subst hsame
    exact href
  · intro href
    exact ⟨p, List.mem_filter.2 ⟨hp, href⟩, by rw [h.addr p hp]⟩

section Sends

variable {st st' : ServerState} {frame : Bytes} {ex : Option SocketAddr} (h : Consistent st)
  (hn : (st.delivering.map (·.2.writer)).Nodup)
    (hdrop : removeAll (deliver st frame ex).1 (deliver st frame ex).2 = some st')
include h hn hdrop

/-- After the frame is sent and the doomed are dropped, those who did not refuse it stay. -/
theorem mem_delivering_sent (q : SocketAddr × ClientDelivery) : q ∈ st'.delivering ↔
    ∃ p ∈ st.delivering, p.2.refuses st.channels ex = false ∧ q = (p.1, p.2.queue frame ex) := by
  have hall := removesAll_of_removeAll (h.deliver frame ex) hdrop
  have hspared : ∀ p ∈ st.delivering, (Spared (deliver st frame ex).2 p.1 (p.2.queue frame ex).token = true ↔
      p.2.refuses st.channels ex = false) := by
    intro p hp
    rw [(ClientDelivery.queue_ids frame ex p.2).2.1, Spared, decide_eq_true_eq, mem_doomed h hn frame ex hp,
      Bool.not_eq_true]
  rw [hall.delivering.mem_iff, List.mem_filter, delivering_deliver, List.mem_map]
  constructor
  · rintro ⟨⟨p, hp, rfl⟩, hkeeps⟩
    exact ⟨p, hp, (hspared p hp).1 hkeeps, rfl⟩
  · rintro ⟨p, hp, hstays, rfl⟩
    exact ⟨⟨p, hp, rfl⟩, (hspared p hp).2 hstays⟩

/-- Those who refused it are registered no more. -/
theorem not_mem_sessionIds_sent {p : SocketAddr × ClientDelivery} (hp : p ∈ st.delivering) :
    (p.1, p.2.token) ∉ st'.sessionIds ↔ p.2.refuses st.channels ex = true := by
  have hall := removesAll_of_removeAll (h.deliver frame ex) hdrop
  constructor
  · intro hid
    by_contra hstays
    have hq := (mem_delivering_sent h hn hdrop _).2 ⟨p, hp, Bool.eq_false_iff.2 hstays, rfl⟩
    apply hid
    apply hall.consistent.same.mem_iff.1
    exact mem_deliveryIds.2 ⟨_, hq, (ClientDelivery.queue_ids frame ex p.2).2.1⟩
  · intro href hid
    obtain ⟨s, hs, ht⟩ := mem_sessionIds.1 hid
    have hspared := (List.mem_filter.1 (hall.sessions.mem_iff.1 hs)).2
    rw [Spared, decide_eq_true_eq, ht] at hspared
    exact hspared ((mem_doomed h hn frame ex hp).2 href)

/-- A channel the frame is not sent on is as it was. -/
theorem channel_sent {p : SocketAddr × ClientDelivery} (hp : p ∈ st.delivering) : st'.channels p.2.writer =
    if p.2.sends ex && (st.channels p.2.writer).accepts then
      { st.channels p.2.writer with sent := (st.channels p.2.writer).sent ++ [frame] }
    else st.channels p.2.writer := by
  rw [(removesAll_of_removeAll (h.deliver frame ex) hdrop).channels, (deliver_spec hn frame ex).2.1 p hp]
  unfold Fifo.offer
  cases p.2.sends ex <;> cases (st.channels p.2.writer).accepts <;> rfl

/-- The watches signalled are those of the clients that refused it. -/
theorem disconnects_sent (w : WatchId) : st'.disconnects w = true ↔ st.disconnects w = true ∨
    ∃ p ∈ st.delivering, p.2.refuses st.channels ex = true ∧ p.2.disconnect = some w := by
  rw [(removesAll_of_removeAll (h.deliver frame ex) hdrop).disconnects, delivering_deliver]
  apply or_congr Iff.rfl
  simp only [List.mem_map, exists_exists_and_eq_and]
  refine exists_congr fun p => and_congr_right fun hp => ?_
  rw [(ClientDelivery.queue_ids frame ex p.2).2.1, (ClientDelivery.queue_ids frame ex p.2).2.2.2.2, Spared,
    decide_eq_false_iff_not, not_not, mem_doomed h hn frame ex hp]

end Sends

/-! ## Making a client ready -/

/-- **Making a client ready**, for a client the registry has. -/
theorem markClientReady_spec {st : ServerState} (h : Consistent st) {a : SocketAddr} {d : ClientDelivery}
    (hd : (a, d) ∈ st.delivering) (rx : List Rx) :
    ∃ channel unsent e, (st.channels d.writer).sendAll d.pendingMessages rx = (channel, unsent, e) ∧
      (markClientReady st a d.token rx).1 = (match e with | none => .ok () | some e => .error (sendError e)) ∧
      (markClientReady st a d.token rx).2.channels = Function.update st.channels d.writer channel ∧
      (markClientReady st a d.token rx).2.delivering.Perm (st.delivering.map fun p =>
        if p.1 = a ∧ p.2.token = d.token then
          (p.1, { p.2 with pendingMessages := unsent, ready := p.2.ready || e.isNone }) else p) ∧
      (markClientReady st a d.token rx).2.clients = st.clients ∧
      (markClientReady st a d.token rx).2.history = st.history ∧
      (markClientReady st a d.token rx).2.disconnects = st.disconnects ∧
      (markClientReady st a d.token rx).2.nextToken = st.nextToken := by
  have hfind := (findDelivery_eq_some h).2 ⟨hd, rfl⟩
  rcases hsend : (st.channels d.writer).sendAll d.pendingMessages rx with ⟨channel, unsent, e⟩
  have hcon : Consistent (setChannel st d.writer channel) := h.setChannel _ _
  refine ⟨channel, unsent, e, rfl, ?_⟩
  unfold markClientReady
  rw [hfind]
  cases e with
  | some e =>
    simp only [hsend]
    obtain ⟨h1, h2, h3, h4, h5⟩ := sessions_writeDelivery (setChannel st d.writer channel) a d.token
      (fun client => { client with pendingMessages := unsent })
    refine ⟨trivial, h3, (delivering_writeDelivery hcon a d.token _).trans (.of_eq ?_), h1, h2, h4, h5⟩
    exact List.map_congr_left fun p _ => by simp
  | none =>
    have hnil : unsent = [] := by
      have := (Fifo.sendAll_unsent (st.channels d.writer) d.pendingMessages rx).2 (by rw [hsend])
      rwa [hsend] at this
    simp only [hsend, hnil]
    obtain ⟨h1, h2, h3, h4, h5⟩ := sessions_writeDelivery (setChannel st d.writer channel) a d.token
      (fun client => { client with pendingMessages := [], ready := true })
    refine ⟨trivial, h3, (delivering_writeDelivery hcon a d.token _).trans (.of_eq ?_), h1, h2, h4, h5⟩
    exact List.map_congr_left fun p _ => by simp

theorem markClientReady_unknown {st : ServerState} (h : Consistent st) {a : SocketAddr} {t : ClientToken}
    (hid : (a, t) ∉ st.sessionIds) (rx : List Rx) : markClientReady st a t rx = (.error .unknownClient, st) := by
  rw [markClientReady, (findDelivery_eq_none h).2 hid]

end Server
end Drocsid
