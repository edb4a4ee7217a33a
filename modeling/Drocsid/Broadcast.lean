import Drocsid.RateLimit
import Drocsid.Simulation
/-!
# Broadcast — what one `broadcast` does to every client (`crates/server/src/state.rs`)

Run whole, a broadcast does to each client what that client's own record and channel call for: it is passed over, sent
the frame, made to queue it, or removed (`Broadcasts`).  What it does to one does not depend on the others, and the rest
of the state is as it was.
-/
namespace Drocsid

open Text Protocol

namespace Server

/-- A broadcast of a frame, that excludes an address or none, leads from one state to another. -/
structure Broadcasts (st : ServerState) (frame : Bytes) (excludeAddr : Option SocketAddr) (dropped : Bool)
    (st' : ServerState) : Prop where
  excluded : ∀ p ∈ st.delivering, excludeAddr = some p.1 → p ∈ st'.delivering ∧
    st'.channels p.2.writer = st.channels p.2.writer
  sent : ∀ p ∈ st.delivering, excludeAddr ≠ some p.1 → p.2.ready = true → (st.channels p.2.writer).accepts = true →
    p ∈ st'.delivering ∧
      st'.channels p.2.writer = { st.channels p.2.writer with sent := (st.channels p.2.writer).sent ++ [frame] }
  queued : ∀ p ∈ st.delivering, excludeAddr ≠ some p.1 → p.2.ready = false →
    p.2.pendingMessages.length < pendingMessagesLimit →
    (p.1, { p.2 with pendingMessages := p.2.pendingMessages ++ [frame] }) ∈ st'.delivering ∧
      st'.channels p.2.writer = st.channels p.2.writer
  removed : ∀ p ∈ st.delivering, excludeAddr ≠ some p.1 →
    (p.2.ready = true → (st.channels p.2.writer).accepts = false) →
    (p.2.ready = false → pendingMessagesLimit ≤ p.2.pendingMessages.length) →
    (p.1, p.2.token) ∉ st'.sessionIds ∧ (p.1, p.2.token) ∉ st'.deliveryIds ∧
      (∀ w, p.2.disconnect = some w → st'.disconnects w = true) ∧ st'.channels p.2.writer = st.channels p.2.writer
  /-- No delivery is new, but for what it queues. -/
  delivering : ∀ q ∈ st'.delivering, ∃ p ∈ st.delivering, q.1 = p.1 ∧
    { q.2 with pendingMessages := p.2.pendingMessages } = p.2
  /-- A session is left alone, unless it is removed. -/
  sessions : ∀ p, p ∈ st'.sessions ↔ p ∈ st.sessions ∧ (p.1, p.2.token) ∈ st'.sessionIds
  /-- No channel is written, but of the clients. -/
  channels : ∀ w, w ∉ st.delivering.map (·.2.writer) → st'.channels w = st.channels w
  /-- No watch is signalled, but of those removed. -/
  disconnects : ∀ w, st'.disconnects w = true ↔ st.disconnects w = true ∨
    ∃ p ∈ st.delivering, (p.1, p.2.token) ∉ st'.sessionIds ∧ p.2.disconnect = some w
  history : st'.history = st.history
  nextToken : st'.nextToken = st.nextToken
  consistent : Consistent st'
  result : dropped = true ↔ ∃ id ∈ st.sessionIds, id ∉ st'.sessionIds

theorem queue_of_pending {d : ClientDelivery} (frame : Bytes) {ex : Option SocketAddr} (hex : ex ≠ some d.addr)
    (hr : d.ready = false) (hl : d.pendingMessages.length < pendingMessagesLimit) :
    d.queue frame ex = { d with pendingMessages := d.pendingMessages ++ [frame] } := by
  unfold ClientDelivery.queue
  rw [if_neg]
  rintro (h | h | h)
  · exact hex h
  · rw [hr] at h
    cases h
  · omega

theorem queue_of_ready {d : ClientDelivery} (frame : Bytes) (ex : Option SocketAddr) (hr : d.ready = true) :
    d.queue frame ex = d := by
  unfold ClientDelivery.queue
  rw [if_pos (.inr (.inl hr))]

theorem queue_of_excluded {d : ClientDelivery} (frame : Bytes) {ex : Option SocketAddr} (hex : ex = some d.addr) :
    d.queue frame ex = d := by
  unfold ClientDelivery.queue
  rw [if_pos (.inl hex)]

/-- Queueing changes the pending messages alone. -/
theorem queue_eq (d : ClientDelivery) (frame : Bytes) (ex : Option SocketAddr) :
    { d.queue frame ex with pendingMessages := d.pendingMessages } = d := by
  unfold ClientDelivery.queue
  split <;> rfl

section Sends

variable {st st' : ServerState} {frame : Bytes} {ex : Option SocketAddr} (h : Consistent st)
  (hn : (st.delivering.map (·.2.writer)).Nodup)
    (hdrop : removeAll (deliver st frame ex).1 (deliver st frame ex).2 = some st')
include h hn hdrop

theorem excluded_sent {p : SocketAddr × ClientDelivery} (hp : p ∈ st.delivering) (hex : ex = some p.1) :
    p ∈ st'.delivering ∧ st'.channels p.2.writer = st.channels p.2.writer := by
  have hexcluded : ex = some p.2.addr := by
    rw [h.addr p hp]
    exact hex
  have hsends : p.2.sends ex = false := by simp [ClientDelivery.sends, hexcluded]
  refine ⟨(mem_delivering_sent h hn hdrop p).2 ⟨p, hp, ?_, ?_⟩, ?_⟩
  · simp [ClientDelivery.refuses, hexcluded]
  · rw [queue_of_excluded frame hexcluded]
  · rw [channel_sent h hn hdrop hp, hsends]
    rfl

theorem ready_sent {p : SocketAddr × ClientDelivery} (hp : p ∈ st.delivering) (hex : ex ≠ some p.1)
    (hr : p.2.ready = true) (ha : (st.channels p.2.writer).accepts = true) : p ∈ st'.delivering ∧
      st'.channels p.2.writer = { st.channels p.2.writer with sent := (st.channels p.2.writer).sent ++ [frame] } := by
  rw [← h.addr p hp] at hex
  have hsends : p.2.sends ex = true := by simp [ClientDelivery.sends, hex, hr]
  refine ⟨(mem_delivering_sent h hn hdrop p).2 ⟨p, hp, ?_, ?_⟩, ?_⟩
  · simp [ClientDelivery.refuses, hr, ha]
  · rw [queue_of_ready frame ex hr]
  · rw [channel_sent h hn hdrop hp, hsends, ha]
    rfl

theorem pending_sent {p : SocketAddr × ClientDelivery} (hp : p ∈ st.delivering) (hex : ex ≠ some p.1)
    (hr : p.2.ready = false) (hl : p.2.pendingMessages.length < pendingMessagesLimit) :
    (p.1, { p.2 with pendingMessages := p.2.pendingMessages ++ [frame] }) ∈ st'.delivering ∧
      st'.channels p.2.writer = st.channels p.2.writer := by
  rw [← h.addr p hp] at hex
  have hsends : p.2.sends ex = false := by simp [ClientDelivery.sends, hr]
  refine ⟨(mem_delivering_sent h hn hdrop _).2 ⟨p, hp, ?_, ?_⟩, ?_⟩
  · simp [ClientDelivery.refuses, hr, hl]
  · rw [queue_of_pending frame hex hr hl]
  · rw [channel_sent h hn hdrop hp, hsends]
    rfl

theorem removed_sent {p : SocketAddr × ClientDelivery} (hp : p ∈ st.delivering) (hex : ex ≠ some p.1)
    (hready : p.2.ready = true → (st.channels p.2.writer).accepts = false)
    (hpending : p.2.ready = false → pendingMessagesLimit ≤ p.2.pendingMessages.length) :
    (p.1, p.2.token) ∉ st'.sessionIds ∧ (p.1, p.2.token) ∉ st'.deliveryIds ∧
      (∀ w, p.2.disconnect = some w → st'.disconnects w = true) ∧ st'.channels p.2.writer = st.channels p.2.writer := by
  rw [← h.addr p hp] at hex
  have href : p.2.refuses st.channels ex = true := by
    unfold ClientDelivery.refuses
    cases hr : p.2.ready with
    | true => simp [hex, hready hr]
    | false => simpa [hex] using hpending hr
  have hunsent : (p.2.sends ex && (st.channels p.2.writer).accepts) = false := by
    cases hr : p.2.ready with
    | true => rw [hready hr, Bool.and_false]
    | false => simp [ClientDelivery.sends, hr]
  have hgone := (not_mem_sessionIds_sent h hn hdrop hp).2 href
  have hcon := (removesAll_of_removeAll (h.deliver frame ex) hdrop).consistent
  refine ⟨hgone, ?_, ?_, ?_⟩
  · intro hdelivery
    exact hgone (hcon.same.mem_iff.1 hdelivery)
  · intro w hw
    exact (disconnects_sent h hn hdrop w).2 (.inr ⟨p, hp, href, hw⟩)
  · rw [channel_sent h hn hdrop hp, hunsent]
    rfl

theorem sessions_sent (p : SocketAddr × ClientSession) :
    p ∈ st'.sessions ↔ p ∈ st.sessions ∧ (p.1, p.2.token) ∈ st'.sessionIds := by
  have hall := removesAll_of_removeAll (h.deliver frame ex) hdrop
  rw [hall.sessions.mem_iff, List.mem_filter]
  refine and_congr_right fun hp => ?_
  obtain ⟨d, hd, ht⟩ := mem_deliveryIds.1 (h.same.mem_iff.2 (mem_sessionIds.2 ⟨p.2, hp, rfl⟩))
  rw [Spared, decide_eq_true_eq, ← ht, mem_doomed h hn frame ex hd, ← not_mem_sessionIds_sent h hn hdrop hd, not_not]

/-- The doomed are registered, and are no more. -/
theorem doomed_sent : (deliver st frame ex).2.isEmpty = false ↔ ∃ id ∈ st.sessionIds, id ∉ st'.sessionIds := by
  rw [List.isEmpty_eq_false_iff_exists_mem]
  constructor
  · rintro ⟨x, hx⟩
    rw [(deliver_spec hn frame ex).2.2] at hx
    obtain ⟨p, hp, -⟩ := List.mem_map.1 hx
    obtain ⟨hp, href⟩ := List.mem_filter.1 hp
    have hid : (p.1, p.2.token) ∈ st.sessionIds := h.same.mem_iff.1 (mem_deliveryIds.2 ⟨p.2, hp, rfl⟩)
    exact ⟨_, hid, (not_mem_sessionIds_sent h hn hdrop hp).2 href⟩
  · rintro ⟨⟨a, t⟩, hid, hgone⟩
    obtain ⟨d, hd, rfl⟩ := mem_deliveryIds.1 (h.same.mem_iff.2 hid)
    exact ⟨_, (mem_doomed h hn frame ex hd).2 ((not_mem_sessionIds_sent h hn hdrop hd).1 hgone)⟩

end Sends

/-- **A broadcast that nothing interleaves with**, from a consistent state where each client has a channel of its
own. -/
theorem broadcasts_of_broadcast {st st' : ServerState} {dropped : Bool} (h : Consistent st)
    (hn : (st.delivering.map (·.2.writer)).Nodup) {frame : Bytes} {ex : Option SocketAddr}
    (hb : broadcast st frame ex = some (dropped, st')) : Broadcasts st frame ex dropped st' := by
  obtain ⟨st'', hdrop, he⟩ := Option.map_eq_some_iff.1 hb
  obtain ⟨rfl, rfl⟩ : (!(deliver st frame ex).2.isEmpty) = dropped ∧ st'' = st' := Prod.mk.inj he
  replace hdrop : removeAll (deliver st frame ex).1 (deliver st frame ex).2 = some st'' := hdrop
  have hall := removesAll_of_removeAll (h.deliver frame ex) hdrop
  constructor
  case excluded => exact fun p hp => excluded_sent h hn hdrop hp
  case sent => exact fun p hp => ready_sent h hn hdrop hp
  case queued => exact fun p hp => pending_sent h hn hdrop hp
  case removed => exact fun p hp => removed_sent h hn hdrop hp
  case delivering =>
    intro q hq
    obtain ⟨p, hp, -, rfl⟩ := (mem_delivering_sent h hn hdrop q).1 hq
    exact ⟨p, hp, rfl, queue_eq p.2 frame ex⟩
  case sessions => exact sessions_sent h hn hdrop
  case channels =>
    intro w hw
    rw [hall.channels, (deliver_spec hn frame ex).1 w hw]
  case disconnects =>
    intro w
    rw [disconnects_sent h hn hdrop]
    apply or_congr Iff.rfl
    refine exists_congr fun p => and_congr_right fun hp => ?_
    rw [not_mem_sessionIds_sent h hn hdrop hp]
  case history => exact hall.history
  case nextToken => exact hall.nextToken
  case consistent => exact hall.consistent
  case result =>
    rw [Bool.not_eq_true']
    exact doomed_sent h hn hdrop

/-! ## With the rate limiter -/

/-- The server's world, and `rate_limits`, under a mutex of its own. -/
structure LimitedWorld where
  world      : World
  rateLimits : RateLimits

inductive LimitedLabel
  | server (l : Label)
  /-- A handler's `allow_message`, and the time it reads. -/
  | allow (c : Nat) (now : Seconds)
  | cleanup (now : Seconds)

/-- The step is given the rate limiter's answer. -/
def Label.isAnswer : Label → Bool
  | .handler _ (.allowed _) => true
  | _ => false

/-- The server, where each answer of the rate limiter is `allow_message`'s. -/
def limited : System LimitedWorld LimitedLabel where
  init := ⟨.init, .empty⟩
  step s
    | .server l => if l.isAnswer then none else (server.step s.world l).map fun world => { s with world }
    | .allow c now =>
      let (result, rateLimits) := allowMessage s.rateLimits now (s.world.conns c).addr
      (server.step s.world (.handler c (.allowed result.isOk))).map fun world => ⟨world, rateLimits⟩
    | .cleanup now => some { s with rateLimits := cleanupRateLimits s.rateLimits now }

/-- What the limited server does, the server does. -/
theorem limited_refines : System.Refines limited System.Any server System.Any LimitedWorld.world where
  init := rfl
  step s l s' _ _ hstep := by
    cases l with
    | server l =>
      simp only [limited] at hstep
      split at hstep
      · cases hstep
      · obtain ⟨world, hworld, rfl⟩ := Option.map_eq_some_iff.1 hstep
        exact .inr ⟨l, trivial, hworld⟩
    | allow c now =>
      obtain ⟨world, hworld, rfl⟩ := Option.map_eq_some_iff.1 hstep
      exact .inr ⟨_, trivial, hworld⟩
    | cleanup now =>
      cases hstep
      exact .inl rfl

def LimitedWorld.broadcast (s : LimitedWorld) (frame : Bytes) (excludeAddr : Option SocketAddr) :
    Option (Bool × LimitedWorld) :=
  (Server.broadcast s.world.st frame excludeAddr).map fun (dropped, st) =>
    (dropped, { s with world := { s.world with st } })

/-- **A broadcast in any state the server reaches** treats each client by itself, and leaves all else alone; every
client has a watch to signal. -/
theorem broadcasts_of_reach {s : LimitedWorld} (hs : System.Reach limited System.Any s) (frame : Bytes)
    (excludeAddr : Option SocketAddr) : ∃ dropped s', s.broadcast frame excludeAddr = some (dropped, s') ∧
      Broadcasts s.world.st frame excludeAddr dropped s'.world.st ∧ s'.rateLimits = s.rateLimits ∧
      ∀ p ∈ s.world.st.delivering, p.2.disconnect = some p.2.token := by
  have hworld : System.Reach server System.Any s.world := limited_refines.reach hs
  have hfed : Fed s.world.shared := fed_of_reach (sound_of_reach hworld).2
  obtain ⟨dropped, st', hb, -⟩ := broadcast_some hfed.consistent frame excludeAddr
  refine ⟨dropped, { s with world := { s.world with st := st' } }, ?_, ?_, rfl, ?_⟩
  · replace hb : Server.broadcast s.world.st frame excludeAddr = some (dropped, st') := hb
    rw [LimitedWorld.broadcast, hb]
    rfl
  · exact broadcasts_of_broadcast hfed.consistent hfed.writers hb
  · intro p hp
    exact (hfed.handles p hp).2

/-- Bob is ready; alice, not yet, on another port of his address. -/
theorem broadcasts_of_reach_alice : ∃ s, System.Reach limited System.Any s ∧
    s.world.st.delivering.map (fun p => (p.1, p.2.ready)) = [(aliceAddr, false), (bobAddr, true)] ∧
    ∃ dropped s', s.broadcast [] none = some (dropped, s') ∧ Broadcasts s.world.st [] none dropped s'.world.st ∧
      s'.rateLimits = s.rateLimits ∧ ∀ p ∈ s.world.st.delivering, p.2.disconnect = some p.2.token := by
  obtain ⟨s, hs, ht⟩ := System.exists_of_run limited
    (fun s => s.world.st.delivering.map (fun p => (p.1, p.2.ready)) == [(aliceAddr, false), (bobAddr, true)])
    ((registers 0 bobAddr "bob" ++ replays 0 0 ++ enters 0 ++ registers 1 aliceAddr "alice").map .server) (by decide)
  exact ⟨s, hs, by simpa using ht, broadcasts_of_reach hs [] none⟩

end Server
end Drocsid
