import Mathlib.Data.List.Perm.Subperm
import Drocsid.Texts
/-!
# Publication — what `broadcast_presence` tells the clients that stay (`crates/server/src/state.rs`)

It prunes the clients it can tell are gone, takes the usernames of the others, and then drops those whose channel is
full, whose names it has already sent.  Run whole, it tells each client that stays exactly the usernames there are after
it, unless a client that has a name is ready and its open channel is full, and some client stays (`published_iff`).
-/
namespace Drocsid

open Text Protocol

namespace Server

def isPresenceFrame (frame : Bytes) : Bool := frame.getD 1 0 == FrameType.presence.toByte

/-- The users of the last presence among these frames. -/
def lastPresence (frames : List Bytes) : Option (List Str) :=
  (frames.filter isPresenceFrame).getLast?.bind fun frame => parsePresence (frame.drop frameHeaderBytes)

theorem lastPresence_concat {users : List Str} {frame : Bytes} (h : presenceFrame users = .ok frame)
    (frames : List Bytes) : lastPresence (frames ++ [frame]) = some users := by
  obtain ⟨payload, hframe, hparse⟩ := parsePresence_encode (encodePresence_of_presenceFrame h)
  obtain ⟨-, rfl⟩ := encodeFrame_eq_ok.1 hframe
  have hkind : isPresenceFrame (frameHeader .presence payload.length ++ payload) = true := rfl
  unfold lastPresence
  rw [List.filter_append, List.filter_cons_of_pos hkind, List.filter_nil, List.getLast?_concat, Option.bind_some]
  exact hparse

/-- The frames a client was given: on its channel, or pending. -/
def given (st : ServerState) (client : ClientDelivery) : List Bytes :=
  if client.ready then (st.channels client.writer).sent else client.pendingMessages

/-- The last presence of every client is of the usernames there are. -/
def Published (st : ServerState) : Prop :=
  ∀ p ∈ st.delivering, ∃ users, lastPresence (given st p.2) = some users ∧ users.Perm (usernames st)

/-- The client is ready, and its channel is open and full. -/
def Overflows (st : ServerState) (client : ClientDelivery) : Prop :=
  client.ready = true ∧ (st.channels client.writer).closed = false ∧ (st.channels client.writer).isFull = true

/-- A client whose channel overflows has no name. -/
def NamelessOverflow (st : ServerState) : Prop :=
  ∀ p ∈ st.delivering, Overflows st p.2 → ∀ s, (p.1, s) ∈ st.sessions → s.token = p.2.token → s.username = none

/-- Every client has a closed or full channel, or too many messages pending. -/
def NoneStays (st : ServerState) : Prop := ∀ p ∈ st.delivering, p.2.refuses st.channels none = true

/-- Dropping members leaves the names what they were if those dropped had none. -/
theorem perm_filterMap_filter {α β : Type*} {f : α → Option β} {q : α → Bool} (l : List α) :
    (l.filterMap f).Perm ((l.filter q).filterMap f) ↔ ∀ x ∈ l, q x = false → f x = none := by
  have hsub : ((l.filter q).filterMap f).Sublist (l.filterMap f) := List.filter_sublist.filterMap f
  have hperm : (l.filterMap f).Perm ((l.filter q).filterMap f) ↔ (l.filter q).filterMap f = l.filterMap f :=
    ⟨fun h => hsub.eq_of_length h.length_eq.symm, fun h => .of_eq h.symm⟩
  rw [hperm]
  clear hperm hsub
  induction l with
  | nil => simp
  | cons x l ih =>
    simp only [List.forall_mem_cons]
    refine Iff.trans ?_ (and_congr Iff.rfl ih)
    cases hq : q x with
    | true =>
      rw [List.filter_cons_of_pos hq]
      cases hf : f x with
      | none => simp [hf]
      | some b => simp [hf]
    | false =>
      rw [List.filter_cons_of_neg (by simp [hq])]
      cases hf : f x with
      | none => simp [hf]
      | some b =>
        -- The list on the left is no longer than the one without the member.
        have hlen : ((l.filter q).filterMap f).length ≤ (l.filterMap f).length :=
          (List.filter_sublist.filterMap f).length_le
        simp only [List.filterMap_cons, hf, reduceCtorEq, imp_false, not_true_eq_false, false_and, iff_false]
        intro he
        rw [he, List.length_cons] at hlen
        omega

/-! ## Pruning, and then sending -/

/-- What `prune_overloaded_clients` looks for. -/
def Overloaded (st : ServerState) (client : ClientDelivery) : Prop :=
  if client.ready then (st.channels client.writer).closed = true
    else client.pendingMessages.length ≥ pendingMessagesLimit

theorem mem_overloadedClients {st : ServerState} (h : Consistent st) {p : SocketAddr × ClientDelivery}
    (hp : p ∈ st.delivering) : (p.1, p.2.token) ∈ overloadedClients st ↔ Overloaded st p.2 := by
  unfold overloadedClients
  rw [List.mem_filterMap]
  constructor
  · rintro ⟨d, hd, he⟩
    obtain ⟨q, hq, rfl⟩ := List.mem_map.1 hd
    obtain ⟨hover, he⟩ := Option.ite_none_right_eq_some.1 he
    have htoken : q.2.token = p.2.token := congrArg Prod.snd (Option.some.inj he)
    have hsame : q = p := h.unique hq hp htoken
    subst hsame
    unfold Overloaded
    by_cases hr : q.2.ready = true
    · rw [if_pos hr] at hover ⊢
      exact hover
    · rw [if_neg hr] at hover ⊢
      exact of_decide_eq_true hover
  · intro hover
    refine ⟨p.2, List.mem_map_of_mem hp, ?_⟩
    unfold Overloaded at hover
    have haddr : p.2.addr = p.1 := h.addr p hp
    by_cases hr : p.2.ready = true
    · rw [if_pos hr] at hover
      simp [hr, hover, haddr]
    · rw [if_neg hr] at hover
      simp [hr, hover, haddr]

/-- A client that was not overloaded is refused if its channel overflows. -/
theorem refuses_iff_overflows {st : ServerState} {d : ClientDelivery} (h : ¬ Overloaded st d) :
    d.refuses st.channels none = true ↔ Overflows st d := by
  unfold Overloaded at h
  unfold ClientDelivery.refuses Overflows Fifo.accepts
  by_cases hr : d.ready = true
  · rw [if_pos hr] at h
    simp [hr, h]
  · rw [if_neg hr] at h
    simp [hr, h]

theorem refuses_of_overloaded {st : ServerState} {d : ClientDelivery} (h : Overloaded st d) :
    d.refuses st.channels none = true := by
  unfold Overloaded at h
  unfold ClientDelivery.refuses Fifo.accepts
  by_cases hr : d.ready = true
  · rw [if_pos hr] at h
    simp [hr, h]
  · rw [if_neg hr] at h
    simp [hr, h]

/-- A client that does not refuse the frame is given it, after what it was given before. -/
theorem given_deliver {st : ServerState} (hn : (st.delivering.map (·.2.writer)).Nodup) (frame : Bytes)
    {p : SocketAddr × ClientDelivery} (hp : p ∈ st.delivering) (href : p.2.refuses st.channels none = false) :
    given (deliver st frame none).1 (p.2.queue frame none) = given st p.2 ++ [frame] := by
  obtain ⟨-, hsent, -⟩ := deliver_spec hn frame none
  have hch := hsent p hp
  unfold ClientDelivery.refuses at href
  unfold given ClientDelivery.queue
  by_cases hr : p.2.ready = true
  · have haccepts : (st.channels p.2.writer).accepts = true := by simpa [hr] using href
    have hsends : p.2.sends none = true := by simp [ClientDelivery.sends, hr]
    rw [if_pos hsends] at hch
    simp only [hr, if_true, reduceCtorEq, false_or, true_or]
    rw [hch, Fifo.sent_offer, if_pos haccepts]
  · have hroom : ¬ p.2.pendingMessages.length ≥ pendingMessagesLimit := by simpa [hr] using href
    simp [hr, hroom]

section Sends

variable {st st' : ServerState} {frame : Bytes} (h : Consistent st) (hn : (st.delivering.map (·.2.writer)).Nodup)
  (hdrop : removeAll (deliver st frame none).1 (deliver st frame none).2 = some st')
include h hn hdrop

/-- Each of them was given the frame last. -/
theorem lastPresence_sent (hf : presenceFrame (usernames st) = .ok frame) {p : SocketAddr × ClientDelivery}
    (hp : p ∈ st.delivering) (hstays : p.2.refuses st.channels none = false) :
      lastPresence (given st' (p.2.queue frame none)) = some (usernames st) := by
  have hch := (removesAll_of_removeAll (h.deliver frame none) hdrop).channels
  have hgiven : given st' (p.2.queue frame none) = given (deliver st frame none).1 (p.2.queue frame none) := by
    unfold given
    rw [hch]
  rw [hgiven, given_deliver hn frame hp hstays]
  exact lastPresence_concat hf _

theorem published_of_sent (hf : presenceFrame (usernames st) = .ok frame) : Published st' ↔
    ∀ p ∈ st.delivering, p.2.refuses st.channels none = false → (usernames st).Perm (usernames st') := by
  constructor
  · intro hpub p hp hstays
    obtain ⟨users, hl, hperm⟩ := hpub _ ((mem_delivering_sent h hn hdrop _).2 ⟨p, hp, hstays, rfl⟩)
    rw [lastPresence_sent h hn hdrop hf hp hstays] at hl
    cases hl
    exact hperm
  · intro hall q hq
    obtain ⟨p, hp, hstays, rfl⟩ := (mem_delivering_sent h hn hdrop q).1 hq
    exact ⟨_, lastPresence_sent h hn hdrop hf hp hstays, hall p hp hstays⟩

omit hn in
/-- The usernames are those that were sent, unless one of the doomed has a name. -/
theorem usernames_sent : (usernames st).Perm (usernames st') ↔
    ∀ p ∈ st.sessions, (p.1, p.2.token) ∈ (deliver st frame none).2 → p.2.username = none := by
  have hs := (removesAll_of_removeAll (h.deliver frame none) hdrop).sessions
  have hafter : (usernames st').Perm
    ((st.sessions.filter fun p => Spared (deliver st frame none).2 p.1 p.2.token).filterMap
      (·.2.username)) := hs.filterMap _
  have hiff : (usernames st).Perm (usernames st') ↔ (st.sessions.filterMap (·.2.username)).Perm
      ((st.sessions.filter fun p => Spared (deliver st frame none).2 p.1 p.2.token).filterMap (·.2.username)) :=
    ⟨fun hp => hp.trans hafter, fun hp => hp.trans hafter.symm⟩
  rw [hiff, perm_filterMap_filter]
  simp only [Spared, decide_eq_false_iff_not, not_not]

end Sends

/-- **What a `broadcast_presence` publishes**, from any consistent state where each client has a channel of its own. -/
theorem published_of_broadcastPresence {st st' : ServerState} (h : Consistent st)
    (hn : (st.delivering.map (·.2.writer)).Nodup) (hb : broadcastPresence st = some (.ok (), st')) :
    Published st' ↔ NamelessOverflow st ∨ NoneStays st := by
  obtain ⟨st₁, hprune, hb⟩ := Option.bind_eq_some_iff.1 hb
  cases hf : presenceFrame (usernames st₁) with
  | error e => simp only [hf] at hb; cases hb
  | ok frame =>
    simp only [hf] at hb
    obtain ⟨r, hbroadcast, he⟩ := Option.map_eq_some_iff.1 hb
    obtain ⟨st'', hdrop, hr⟩ := Option.map_eq_some_iff.1 hbroadcast
    have hst : st'' = st' := by
      rw [← hr] at he
      exact congrArg Prod.snd he
    subst hst
    obtain ⟨hcon₁, hs₁, hd₁, -, hch₁, -, -⟩ := removesAll_of_removeAll h hprune
    have hn₁ : (st₁.delivering.map (·.2.writer)).Nodup :=
      (hd₁.map _).nodup_iff.2 ((List.filter_sublist.map _).nodup hn)
    have hmem₁ : ∀ p, p ∈ st₁.delivering ↔ p ∈ st.delivering ∧ ¬ Overloaded st p.2 := by
      intro p
      rw [hd₁.mem_iff, List.mem_filter]
      refine and_congr_right fun hp => ?_
      rw [Spared, decide_eq_true_eq, mem_overloadedClients h hp]
    have href : ∀ p ∈ st₁.delivering, (p.2.refuses st₁.channels none = true ↔ Overflows st p.2) := by
      intro p hp
      rw [hch₁]
      exact refuses_iff_overflows ((hmem₁ p).1 hp).2
    have hnames : (usernames st₁).Perm (usernames st'') ↔ NamelessOverflow st := by
      rw [usernames_sent hcon₁ hdrop]
      constructor
      · intro hnone p hp hover s hs htoken
        have hkeep : ¬ Overloaded st p.2 := by
          obtain ⟨hr, hopen, -⟩ := hover
          unfold Overloaded
          rw [if_pos hr, hopen]
          exact Bool.false_ne_true
        have hp₁ := (hmem₁ p).2 ⟨hp, hkeep⟩
        have hs₁' : (p.1, s) ∈ st₁.sessions := by
          rw [hs₁.mem_iff, List.mem_filter]
          refine ⟨hs, ?_⟩
          rw [Spared, decide_eq_true_eq, htoken, mem_overloadedClients h hp]
          exact hkeep
        apply hnone (p.1, s) hs₁'
        rw [htoken]
        exact (mem_doomed hcon₁ hn₁ frame none hp₁).2 ((href p hp₁).2 hover)
      · rintro hnameless ⟨a, s⟩ hs hdoomed
        obtain ⟨d, hd, htoken⟩ := mem_deliveryIds.1 (hcon₁.same.mem_iff.2 (mem_sessionIds.2 ⟨s, hs, rfl⟩))
        have hin : (a, d.token) ∈ (deliver st₁ frame none).2 := by
          rw [htoken]
          exact hdoomed
        have hover := (href _ hd).1 ((mem_doomed hcon₁ hn₁ frame none hd).1 hin)
        exact hnameless (a, d) ((hmem₁ _).1 hd).1 hover s (List.mem_filter.1 (hs₁.mem_iff.1 hs)).1 htoken.symm
    have hnone : (∀ p ∈ st₁.delivering, p.2.refuses st₁.channels none = true) ↔ NoneStays st := by
      constructor
      · intro hall p hp
        by_cases hover : Overloaded st p.2
        · exact refuses_of_overloaded hover
        · have hp₁ := (hmem₁ p).2 ⟨hp, hover⟩
          exact (refuses_iff_overflows hover).2 ((href p hp₁).1 (hall p hp₁))
      · intro hall p hp
        rw [hch₁]
        exact hall p ((hmem₁ p).1 hp).1
    rw [published_of_sent hcon₁ hn₁ hdrop hf, ← hnames, ← hnone]
    constructor
    · intro hall
      by_cases hperm : (usernames st₁).Perm (usernames st'')
      · exact .inl hperm
      · refine .inr fun p hp => ?_
        by_contra hstays
        exact hperm (hall p hp (Bool.eq_false_iff.2 hstays))
    · rintro (hperm | hall) p hp hstays
      · exact hperm
      · rw [hall p hp] at hstays
        cases hstays

/-- **What `broadcast_presence` publishes in any state the server reaches**: each client that stays has last been told
exactly the usernames of the sessions that stay, if and only if no named client's channel overflows, or no client
stays. -/
theorem published_iff {w : World} (hw : System.Reach server System.Any w) {st : ServerState}
    (hb : broadcastPresence w.st = some (.ok (), st)) : Published st ↔ NamelessOverflow w.st ∨ NoneStays w.st := by
  have hfed := fed_of_reach (sound_of_reach hw).2
  exact published_of_broadcastPresence hfed.consistent hfed.writers hb

/-- In any state the server reaches, it returns `Ok`. -/
theorem broadcastPresence_ok {w : World} (hw : System.Reach server System.Any w) :
    ∃ st, broadcastPresence w.st = some (.ok (), st) := by
  have hcon : Consistent w.st := (fed_of_reach (sound_of_reach hw).2).consistent
  obtain ⟨st₁, hprune, hcon₁⟩ := removeAll_some hcon (overloadedClients w.st)
  have hs₁ := (removesAll_of_removeAll hcon hprune).sessions
  have hsub : ∀ p ∈ st₁.sessions, p ∈ w.st.sessions := fun p hp => (List.mem_filter.1 (hs₁.mem_iff.1 hp)).1
  have hnames : ∀ u ∈ usernames st₁, IsUsername u := by
    intro u hu
    obtain ⟨p, hp, he⟩ := List.mem_filterMap.1 hu
    exact (usernames_fit hw).1 u (List.mem_filterMap.2 ⟨p, hsub p hp, he⟩)
  have hlen : (usernames st₁).length ≤ maxConnections := by
    have hids : st₁.sessions.length ≤ maxConnections := by
      have := hcon₁.total_le
      rwa [ServerState.sessionIds, List.length_map] at this
    exact Nat.le_trans (List.length_filterMap_le _ _) hids
  obtain ⟨frame, henc⟩ := encodePresence_of_usernames hnames hlen
  obtain ⟨b, st', hb, -⟩ := broadcast_some hcon₁ frame none
  refine ⟨st', ?_⟩
  unfold broadcastPresence presenceFrame
  rw [hprune]
  simp only [Option.bind_some, henc, hb, Option.map_some]

/-- Bob is ready, and then alice: their channels have room. -/
theorem published_iff_alice : ∃ w st, System.Reach server System.Any w ∧ w.st.delivering.length = 2 ∧
    broadcastPresence w.st = some (.ok (), st) ∧ (Published st ↔ NamelessOverflow w.st ∨ NoneStays w.st) := by
  obtain ⟨w, hw, ht⟩ := System.exists_of_run server (fun w => w.st.delivering.length == 2)
    (registers 0 bobAddr "bob" ++ replays 0 0 ++ enters 0 ++ registers 1 aliceAddr "alice" ++ replays 1 1 ++ enters 1)
      (by decide)
  obtain ⟨st, hb⟩ := broadcastPresence_ok hw
  exact ⟨w, st, hw, by simpa using ht, hb, published_iff hw hb⟩

/-! ## A full channel -/

/-- Some run ends with the handler there, this state, and this holder of the barrier. -/
def Stands (c : Nat) (s : Session) (pc : ServePc) (st : ServerState) (barrier : Option Task) : Prop :=
  ∃ w, System.Reach server System.Any w ∧ (w.conns c).handler = .serving s pc ∧ w.st = st ∧ w.barrier = barrier

theorem Stands.goto {c : Nat} {s : Session} {pc : ServePc} {st : ServerState} {barrier : Option Task}
    (h : Stands c s pc st barrier) (input : Input) (pc' : ServePc)
    (hstep : ∀ w : World, w.serveStep c s pc input = some (w.goto c (.serving s pc'))) : Stands c s pc' st barrier := by
  obtain ⟨w, hw, hpc, hst, hb⟩ := h
  refine ⟨w.goto c (.serving s pc'), ?_, by simp [World.goto], hst, hb⟩
  apply System.Reach.step (l := .handler c input) hw trivial
  show w.handlerStep c input = _
  unfold World.handlerStep
  rw [hpc]
  cases input <;> exact hstep w

theorem Stands.call {c : Nat} {s : Session} {next : After} {call : Running} {st : ServerState} {barrier : Option Task}
    (h : Stands c s (.calling next call) st barrier) (call' : Running) (st' : ServerState) (barrier' : Option Task)
    (hcall : ∀ w : World, w.st = st → w.barrier = barrier → ∃ w', w'.st = st' ∧ w'.barrier = barrier' ∧
      w.call (.handler c) (w.conns c).addr s.token [] call = some (w', call')) :
    Stands c s (.calling next call') st' barrier' := by
  obtain ⟨w, hw, hpc, hst, hb⟩ := h
  obtain ⟨w', hst', hb', hstep⟩ := hcall w hst hb
  refine ⟨w'.goto c (.serving s (.calling next call')), ?_, by simp [World.goto], hst', hb'⟩
  apply System.Reach.step (l := .handler c (.rx [])) hw trivial
  show w.handlerStep c (.rx []) = _
  unfold World.handlerStep
  rw [hpc]
  have hserve : w.serveStep c s (.calling next call) (.rx []) =
      (w.call (.handler c) (w.conns c).addr s.token [] call).map fun r => r.1.goto c
        (.serving s (.calling next r.2)) := by
    cases call <;> rfl
  show w.serveStep c s (.calling next call) (.rx []) = _
  rw [hserve, hstep]
  rfl

/-- **A member waiting for a message can post a chat**, while there is room for it everywhere. -/
theorem Stands.chat {c : Nat} {s : Session} {st : ServerState} (h : Stands c s .select st none) {frame : Frame}
    {content : Str} {now : HhMm} {post : Post} (hcontent : acceptChat frame = .ok (some content))
    (hpost : chatPost s now content = .ok post)
    (hnone : (deliver { st with history := st.history.record post.message } post.frame none).2 = []) :
    Stands c s .select (deliver { st with history := st.history.record post.message } post.frame none).1 none := by
  have hallow := h.goto (.frame (.ok (some frame))) (.allow content) fun w => by
    simp [World.serveStep, received, hcontent]
  have hsleep := hallow.goto (.allowed true) (.sleep content) fun w => rfl
  have hlock := hsleep.goto (.time now) (.calling .chat (.lockRecord post)) fun w => by
    simp only [World.serveStep, hpost]
  have hrecord := hlock.call (.critical (.record post none)) st (some (.handler c)) fun w hst hb =>
    ⟨{ w with barrier := some (.handler c) }, hst, rfl, by simp [World.call, hb]⟩
  have hdeliver := hrecord.call (.critical (.deliver post none)) { st with history := st.history.record post.message }
    (some (.handler c)) fun w hst hb => by
      subst hst
      exact ⟨{ w with st := { w.st with history := w.st.history.record post.message },
                      trace := [.recorded post] ++ w.trace }, rfl, hb, rfl⟩
  have hdrop := hdeliver.call (.critical (.drop [] false))
    (deliver { st with history := st.history.record post.message } post.frame none).1
    (some (.handler c)) fun w hst hb => by
      rw [← hst] at hnone ⊢
      refine ⟨{ w with st := _, trace := [.broadcast post.frame none [] (some post)] ++ w.trace }, rfl, hb, ?_⟩
      simp only [World.call, Critical.result, Critical.step, Option.map_some, hnone]
      rfl
  have hdone := hdrop.call (.done (.ok false)) _ none fun w hst hb => ⟨{ w with barrier := none }, hst, rfl, rfl⟩
  exact hdone.goto .go .select fun w => rfl

/-- Bob and alice, both ready. -/
def bothReady : List (SocketAddr × ClientDelivery) :=
  [(aliceAddr, ⟨aliceAddr, 1, 1, some 1, true, []⟩), (bobAddr, ⟨bobAddr, 0, 0, some 0, true, []⟩)]

/-- An open channel nothing was received from, with so many frames. -/
def Holds (channel : Fifo Bytes) (k : Nat) : Prop :=
  channel.capacity = outboundQueueSize ∧ channel.closed = false ∧ channel.received = 0 ∧ channel.sent.length = k

theorem Holds.accepts {channel : Fifo Bytes} {k : Nat} (h : Holds channel k) :
    channel.accepts = decide (k < outboundQueueSize) := by
  obtain ⟨hcap, hopen, hreceived, hlen⟩ := h
  unfold Fifo.accepts Fifo.isFull Fifo.queued
  rw [hopen, hcap, hreceived, List.drop_zero, hlen]
  by_cases hk : k < outboundQueueSize
  · simp [hk]
  · simp [hk, Nat.not_lt.1 hk]

theorem Holds.offer {channel : Fifo Bytes} {k : Nat} (h : Holds channel k) (hk : k < outboundQueueSize)
    (frame : Bytes) : Holds (channel.offer frame) (k + 1) := by
  have ha : channel.accepts = true := by
    rw [h.accepts]
    exact decide_eq_true hk
  obtain ⟨hcap, hopen, hreceived, hlen⟩ := h
  unfold Fifo.offer
  rw [if_pos ha]
  exact ⟨hcap, hopen, hreceived, by simp [hlen]⟩

/-- Bob's channel holds one frame more than alice's. -/
structure Filling (k : Nat) (st : ServerState) : Prop where
  delivering : st.delivering = bothReady
  sessions : st.sessions = [(aliceAddr, ⟨1, some (lit "alice")⟩), (bobAddr, ⟨0, some (lit "bob")⟩)]
  alice : Holds (st.channels 1) k
  bob : Holds (st.channels 0) (k + 1)

/-- One more frame for both. -/
theorem Filling.deliver {k : Nat} {st : ServerState} (h : Filling k st) (hk : k + 1 < outboundQueueSize)
    (frame : Bytes) : Filling (k + 1) (deliver st frame none).1 ∧ (deliver st frame none).2 = [] := by
  have hn : (st.delivering.map (·.2.writer)).Nodup := by
    rw [h.delivering]
    decide
  obtain ⟨-, hsent, hdoomed⟩ := deliver_spec hn frame none
  rw [h.delivering] at hsent hdoomed
  have halice := hsent _ (List.mem_cons_self)
  have hbob := hsent _ (List.mem_cons_of_mem _ List.mem_cons_self)
  refine ⟨⟨?_, h.sessions, ?_, ?_⟩, ?_⟩
  · rw [delivering_deliver, h.delivering]
    rfl
  · have he : (Server.deliver st frame none).1.channels 1 = (st.channels 1).offer frame := halice
    rw [he]
    exact h.alice.offer (Nat.lt_of_succ_lt hk) frame
  · have he : (Server.deliver st frame none).1.channels 0 = (st.channels 0).offer frame := hbob
    rw [he]
    exact h.bob.offer hk frame
  · have ha : (st.channels 1).accepts = true := by
      rw [h.alice.accepts]
      exact decide_eq_true (Nat.lt_of_succ_lt hk)
    have hb : (st.channels 0).accepts = true := by
      rw [h.bob.accepts]
      exact decide_eq_true hk
    rw [hdoomed]
    simp [bothReady, ClientDelivery.refuses, ha, hb]

/-- Alice waits for a message. -/
def HandlerPc.selects : HandlerPc → Bool
  | .serving _ .select => true
  | _ => false

/-- Alice can fill bob's channel while his writer is stuck in a write. -/
theorem exists_filling : ∀ n, n + 4 ≤ outboundQueueSize → ∃ s st, Stands 1 s .select st none ∧ Filling (n + 3) st := by
  intro n
  induction n with
  | zero =>
    intro _
    obtain ⟨w, hw, ht⟩ := System.exists_of_run server
      (fun w => w.barrier.isNone && (w.conns 1).handler.selects &&
        (w.st.delivering == bothReady &&
          w.st.sessions == [(aliceAddr, ⟨1, some (lit "alice")⟩), (bobAddr, ⟨0, some (lit "bob")⟩)]) &&
        ([(w.st.channels 1), (w.st.channels 0)].map (fun c => (c.capacity, c.closed, c.received, c.sent.length)) ==
          [(outboundQueueSize, false, 0, 3), (outboundQueueSize, false, 0, 4)]))
      (registers 0 bobAddr "bob" ++ replays 0 0 ++ enters 0 ++ registers 1 aliceAddr "alice" ++ replays 1 1 ++ enters 1)
        (by decide)
    simp only [Bool.and_eq_true, beq_iff_eq, Option.isNone_iff_eq_none, List.map_cons, List.map_nil, List.cons.injEq,
      Prod.mk.injEq, and_true] at ht
    obtain ⟨⟨⟨hidle, hpc⟩, hdelivering, hsessions⟩, halice, hbob⟩ := ht
    unfold HandlerPc.selects at hpc
    split at hpc
    · rename_i s hs
      exact ⟨s, w.st, ⟨w, hw, hs, rfl, hidle⟩, hdelivering, hsessions, halice, hbob⟩
    · cases hpc
  | succ n ih =>
    intro hn
    obtain ⟨s, st, hstands, hfilling⟩ := ih (Nat.le_of_succ_le hn)
    have hcontent : acceptChat ⟨currentProtocolVersion, .chat, toBytes (lit "hi")⟩ = .ok (some (lit "hi")) := by decide
    obtain ⟨post, hpost, -⟩ := chatPost_ok s ⟨12, 0⟩ ⟨_, hcontent⟩
    have hrecorded : Filling (n + 3) { st with history := st.history.record post.message } :=
      ⟨hfilling.delivering, hfilling.sessions, hfilling.alice, hfilling.bob⟩
    obtain ⟨hnext, hnone⟩ := hrecorded.deliver hn post.frame
    exact ⟨s, _, hstands.chat hcontent hpost hnone, hnext⟩

/-- **Bob's channel is full when the presence is broadcast**: alice is told that he is there, and he is dropped. -/
theorem published_with_dropped : ∃ w st, System.Reach server System.Any w ∧ broadcastPresence w.st = some (.ok (), st) ∧
    ¬ Published st := by
  obtain ⟨s, st, ⟨w, hw, -, rfl, -⟩, hfilling⟩ := exists_filling 224 (by decide)
  obtain ⟨st, hb⟩ := broadcastPresence_ok hw
  refine ⟨w, st, hw, hb, ?_⟩
  have hfed := fed_of_reach (sound_of_reach hw).2
  have hiff : Published st ↔ NamelessOverflow w.st ∨ NoneStays w.st :=
    published_of_broadcastPresence hfed.consistent hfed.writers hb
  rw [hiff]
  rintro (hnameless | hnone)
  · have hbob : Overflows w.st ⟨bobAddr, 0, 0, some 0, true, []⟩ := by
      obtain ⟨hcap, hopen, hreceived, hlen⟩ := hfilling.bob
      refine ⟨rfl, hopen, ?_⟩
      show decide ((w.st.channels 0).capacity ≤ ((w.st.channels 0).sent.drop (w.st.channels 0).received).length) = true
      rw [hcap, hreceived, List.drop_zero, hlen]
      decide
    have := hnameless (bobAddr, ⟨bobAddr, 0, 0, some 0, true, []⟩) (by rw [hfilling.delivering]; simp [bothReady]) hbob
      ⟨0, some (lit "bob")⟩ (by rw [hfilling.sessions]; simp) rfl
    cases this
  · have hroom := hnone (aliceAddr, ⟨aliceAddr, 1, 1, some 1, true, []⟩) (by rw [hfilling.delivering]; simp [bothReady])
    have haccepts : (w.st.channels 1).accepts = true := by
      rw [hfilling.alice.accepts]
      decide
    have hrefuses : (!(w.st.channels 1).accepts) = true := hroom
    rw [haccepts] at hrefuses
    cases hrefuses

end Server
end Drocsid
