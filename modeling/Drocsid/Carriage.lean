import Drocsid.Texts
/-!
# Carriage — what the clients' channels carry, to their end

A section puts on a client's channel the next message of its replay, a broadcast it is ready for or what it had
pending, and nothing else (`PutsOn`).  So every frame of a channel shows a message recorded or usernames
(`carries_of_reach`), and what was put on a client's channel, registered or gone, begins the frames replayed to it and
broadcast to it (`fed_ever`).
-/
namespace Drocsid

open Text Protocol Client

namespace Server

/-- A frame that a section broadcasts. -/
def Broadcasting (s s' : Shared) (frame : Bytes) : Prop :=
  (∃ ex doomed post, s'.trace = .broadcast frame ex doomed post :: s.trace) ∧
    ((∃ post ex, s.barrier = some (.deliver post ex) ∧ frame = post.frame) ∨ ∃ users, presenceFrame users = .ok frame)

/-- What a section puts on a client's channel, of its replay or behind it. -/
inductive PutsOn (s s' : Shared) (t : ClientToken) : List Bytes → Prop
  | nothing (hr : replayedFrames t s'.trace = replayedFrames t s.trace) : PutsOn s s' t []
  | replayed {a m rest frame} (hb : s.barrier = some (.replay a t t (m :: rest))) (hf : chatFrame m = .ok frame)
      (htr : s'.trace = .replayed t frame :: s.trace) : PutsOn s s' t [frame]
  | delivered {p q frame} (hp : p ∈ s.st.delivering) (ht : p.2.token = t) (hready : p.2.ready = true)
      (hq : q ∈ s'.st.delivering) (ht' : q.2.token = t) (h : Broadcasting s s' frame) : PutsOn s s' t [frame]
  | readied {a w p q frames r} (hb : s.barrier = some (.replay a t w [])) (hb' : s'.barrier = some (.replayed r))
      (hp : p ∈ s.st.delivering) (ht : p.2.token = t) (hq : q ∈ s'.st.delivering) (ht' : q.2.token = t)
      (h : frames <+: p.2.pendingMessages) : PutsOn s s' t frames

/-- What a section does to a channel: it grows, by what the section puts on it. -/
structure Loads (s s' : Shared) (t : ClientToken) : Prop where
  grows : (s.st.channels t).Grows (s'.st.channels t)
  puts : ∃ frames, PutsOn s s' t frames ∧ (s'.st.channels t).sent = (s.st.channels t).sent ++ frames

theorem Loads.same {s s' : Shared} {t : ClientToken} (h : s'.st.channels t = s.st.channels t)
    (hr : replayedFrames t s'.trace = replayedFrames t s.trace) : Loads s s' t := by
  refine ⟨h ▸ .refl _, [], .nothing hr, ?_⟩
  rw [h, List.append_nil]

/-- A section that writes one channel. -/
theorem Loads.update {s s' : Shared} {w : ChannelId} {channel : Fifo Bytes} {frames : List Bytes}
    (hst : s'.st.channels = Function.update s.st.channels w channel) (hg : (s.st.channels w).Grows channel)
    (hputs : PutsOn s s' w frames) (hsent : channel.sent = (s.st.channels w).sent ++ frames) (t : ClientToken)
    (hr : t ≠ w → replayedFrames t s'.trace = replayedFrames t s.trace) : Loads s s' t := by
  by_cases ht : t = w
  · subst ht
    have hch : s'.st.channels t = channel := by rw [hst, Function.update_self]
    exact ⟨by rw [hch]; exact hg, frames, hputs, by rw [hch]; exact hsent⟩
  · exact .same (by rw [hst, Function.update_of_ne ht]) (hr ht)

theorem Fed.loads_deliver {s s' : Shared} (h : Fed s) {frame : Bytes} {ex : Option SocketAddr}
    (hst : s'.st = (Server.deliver s.st frame ex).1) (hb : Broadcasting s s' frame) (t : ClientToken) :
    Loads s s' t := by
  have hr : replayedFrames t s'.trace = replayedFrames t s.trace := by
    obtain ⟨⟨_, _, _, htr⟩, -⟩ := hb
    rw [htr]
    rfl
  by_cases hw : t ∈ s.st.delivering.map (·.2.writer)
  · obtain ⟨p, hp, ht⟩ := List.mem_map.1 hw
    have hch := (deliver_spec h.writers frame ex).2.1 p hp
    rw [ht] at hch
    rw [(h.handles p hp).1] at ht
    by_cases hsends : p.2.sends ex = true
    · rw [if_pos hsends] at hch
      have hready : p.2.ready = true := (Bool.and_eq_true_iff.1 hsends).2
      refine ⟨by rw [hst, hch]; exact Fifo.grows_offer _ _, ?_⟩
      rw [hst, hch, Fifo.sent_offer]
      split
      · refine ⟨_, .delivered (q := (p.1, p.2.queue frame ex)) hp ht hready ?_ ?_ hb, rfl⟩
        · rw [hst, delivering_deliver]
          exact List.mem_map_of_mem hp
        · exact (ClientDelivery.queue_ids frame ex p.2).2.1.trans ht
      · exact ⟨_, .nothing hr, rfl⟩
    · rw [if_neg hsends] at hch
      exact .same (by rw [hst, hch]) hr
  · exact .same (by rw [hst, (deliver_spec h.writers frame ex).1 t hw]) hr

theorem Fed.loads_markReady {s : Shared} (h : Fed s) {a : SocketAddr} {u : ClientToken} {w : ChannelId}
    (hb : s.barrier = some (.replay a u w [])) (rx : List Rx) (r : Except ServerError Unit) {tr : List Event}
    (hr : ∀ t, replayedFrames t tr = replayedFrames t s.trace) (t : ClientToken) :
    Loads s ⟨(markClientReady s.st a u rx).2, some (.replayed r), tr⟩ t := by
  by_cases hid : (a, u) ∈ s.st.sessionIds
  · obtain ⟨d, hd, rfl⟩ := mem_deliveryIds.1 (h.consistent.same.mem_iff.2 hid)
    obtain ⟨channel, unsent, e, hsend, -, hch, -⟩ := markClientReady_mem h hd rfl rx
    obtain ⟨_, _, _, -, -, -, hdel, -⟩ := markClientReady_spec h.consistent hd rx
    have hgrows := Fifo.grows_sendAll (s.st.channels d.token) d.pendingMessages rx
    have hcons := Fifo.sendAll_conserves (s.st.channels d.token) d.pendingMessages rx
    rw [hsend] at hgrows hcons
    obtain ⟨frames, hframes⟩ := hgrows.sent
    refine .update hch hgrows (.readied hb rfl hd rfl (hdel.mem_iff.2 (List.mem_map_of_mem hd)) ?_ ⟨unsent, ?_⟩)
      hframes.symm t fun _ => hr t
    · rw [if_pos ⟨rfl, rfl⟩]
    · rw [← hframes, List.append_assoc] at hcons
      exact List.append_cancel_left hcons
  · rw [markClientReady_unknown h.consistent hid]
    exact .same rfl (hr t)

/-- **What a section does to a channel.** -/
theorem Moves.loads {s s' : Shared} {l : Section} (hm : Moves s l s') (h : Fed s) (t : ClientToken) :
    Loads s s' t := by
  have hold := h.holder
  cases hm with
  | register hr => exact .same (congrFun (registerClientWithStatus_ok hr).2.2.2.2.2.1 t) rfl
  | setUsername hu =>
    obtain ⟨-, -, byAddr, rfl, -⟩ := setClientUsername_ok hu
    exact .same rfl rfl
  | @remove a u removed st hr | @drop a u doomed dropped removed st rx _ hr =>
    exact .same (congrFun (removeClientIfCurrent_some h.consistent hr).1.channels t)
      ((SameFeeds.removed u removed s.trace).replayedFrames t)
  | barrier | snapshot | record => exact .same rfl rfl
  | @replayed a u w m rest frame channel rx hb hf hs =>
    rw [hb] at hold
    obtain ⟨-, rfl, -⟩ := hold
    refine .update rfl (Fifo.grows_trySend hs) (.replayed hb hf rfl) (Fifo.sent_trySend hs) t fun ht => ?_
    rw [replayedFrames, if_neg (Ne.symm ht)]
  | @readied a u w st rx hb hm =>
    have hr : ∀ v, replayedFrames v (.ready u :: s.trace) = replayedFrames v s.trace := fun _ => rfl
    have := h.loads_markReady hb rx (.ok ()) hr t
    rwa [hm] at this
  | @unreadied a u w e st rx hb hm =>
    have := h.loads_markReady hb rx (.error e) (fun _ => rfl) t
    rwa [hm] at this
  | @deliver post ex rx hb => exact h.loads_deliver rfl ⟨⟨_, _, _, rfl⟩, .inl ⟨post, ex, hb, rfl⟩⟩ t
  | @broadcast users ex frame hf => exact h.loads_deliver rfl ⟨⟨_, _, _, rfl⟩, .inr ⟨users, hf⟩⟩ t
  | @tick l w rx =>
    refine .update (w := w) ?_ (Fifo.grows_tick rx _) (.nothing ?_) (List.append_nil _).symm t fun _ => ?_
    · rfl
    · rfl
    · rfl
  | reorder hr =>
    unfold Server.reorder at hr
    split at hr
    · cases hr
      exact .same rfl rfl
    · cases hr

/-- What a client has pending after a section it had before, or the section broadcasts it. -/
theorem Moves.pending {s s' : Shared} {l : Section} (hm : Moves s l s') (h : Fed s) {q : SocketAddr × ClientDelivery}
    (hq : q ∈ s'.st.delivering) {frame : Bytes} (hf : frame ∈ q.2.pendingMessages) :
    (∃ p ∈ s.st.delivering, frame ∈ p.2.pendingMessages) ∨ Broadcasting s s' frame := by
  have hready : ∀ {a : SocketAddr} {t : ClientToken} {rx : List Rx} {r : Except ServerError Unit},
      markClientReady s.st a t rx = (r, s'.st) → ∃ p ∈ s.st.delivering, frame ∈ p.2.pendingMessages := by
    intro a t rx r hmark
    by_cases hid : (a, t) ∈ s.st.sessionIds
    · obtain ⟨d, hd, rfl⟩ := mem_deliveryIds.1 (h.consistent.same.mem_iff.2 hid)
      obtain ⟨channel, unsent, e, hsend, -, -, hmem⟩ := markClientReady_mem h hd rfl rx
      rw [hmark] at hmem
      rcases hmem q hq with rfl | ⟨hq, -⟩
      · have hcons := Fifo.sendAll_conserves (s.st.channels d.token) d.pendingMessages rx
        obtain ⟨frames, hframes⟩ := (Fifo.grows_sendAll (s.st.channels d.token) d.pendingMessages rx).sent
        rw [hsend] at hcons hframes
        rw [← hframes, List.append_assoc] at hcons
        refine ⟨_, hd, ?_⟩
        rw [← List.append_cancel_left hcons]
        exact List.mem_append_right _ hf
      · exact ⟨q, hq, hf⟩
    · rw [markClientReady_unknown h.consistent hid] at hmark
      have hst : s.st = s'.st := congrArg Prod.snd hmark
      exact ⟨q, hst ▸ hq, hf⟩
  have hdeliver : ∀ {frame' : Bytes} {ex : Option SocketAddr}, q ∈ (Server.deliver s.st frame' ex).1.delivering →
      (∃ p ∈ s.st.delivering, frame ∈ p.2.pendingMessages) ∨ frame = frame' := by
    intro frame' ex hq
    obtain ⟨p, hp, rfl⟩ := exists_of_mem_deliver hq
    unfold ClientDelivery.queue at hf
    split at hf
    · exact .inl ⟨p, hp, hf⟩
    · rcases List.mem_append.1 hf with hf | hf
      · exact .inl ⟨p, hp, hf⟩
      · exact .inr (List.mem_singleton.1 hf)
  cases hm with
  | register hr =>
    rcases List.mem_cons.1 ((registerClientWithStatus_ok hr).2.2.2.1.mem_iff.1 hq) with rfl | hq
    · cases hf
    · exact .inl ⟨q, hq, hf⟩
  | setUsername hu =>
    obtain ⟨-, -, byAddr, rfl, -⟩ := setClientUsername_ok hu
    exact .inl ⟨q, hq, hf⟩
  | remove hr | drop _ hr =>
    have hrem := (removeClientIfCurrent_some h.consistent hr).1
    exact .inl ⟨q, (List.mem_filter.1 (hrem.delivering.mem_iff.1 hq)).1, hf⟩
  | barrier | snapshot | replayed | record | tick => exact .inl ⟨q, hq, hf⟩
  | readied hb hm | unreadied hb hm => exact .inl (hready hm)
  | @deliver post ex rx hb =>
    refine (hdeliver hq).imp_right fun he => ?_
    exact ⟨⟨ex, _, some post, by rw [he]⟩, .inl ⟨post, ex, hb, he⟩⟩
  | @broadcast users ex frame' hframe =>
    refine (hdeliver hq).imp_right fun he => ?_
    exact ⟨⟨ex, _, none, by rw [he]⟩, .inr ⟨users, by rw [he]; exact hframe⟩⟩
  | reorder hr =>
    unfold Server.reorder at hr
    split at hr
    · rename_i hp
      cases hr
      exact .inl ⟨q, (Table.Same.items hp.2).mem_iff.1 hq, hf⟩
    · cases hr

/-! ## What the frames show -/

/-- The frame was made for the event: for a message recorded, broadcast or replayed, or for usernames. -/
inductive Conveys (tr : List Event) (frame : Bytes) : NetworkEvent → Prop
  | live {post} (h : .recorded post ∈ tr) (hf : post.frame = frame) : Conveys tr frame (.message post.text)
  | replayed {post} (h : .recorded post ∈ tr) (hf : chatFrame post.entry = .ok frame) :
    Conveys tr frame (.message post.entry)
  | presence {users} (hf : presenceFrame users = .ok frame) : Conveys tr frame (.userList users)

theorem Conveys.mono {tr : List Event} {frame : Bytes} {event : NetworkEvent} (h : Conveys tr frame event)
    (events : List Event) : Conveys (events ++ tr) frame event := by
  cases h with
  | live h hf => exact .live (List.mem_append_right _ h) hf
  | replayed h hf => exact .replayed (List.mem_append_right _ h) hf
  | presence hf => exact .presence hf

/-- **A client takes the frame for the event.** -/
theorem Conveys.shows {G : World → Label → Prop} {w : World} (hw : System.Reach server G w) {frame : Bytes}
    {event : NetworkEvent} (h : Conveys w.trace frame event) : Shows frame event := by
  cases h with
  | live h hf => exact hf ▸ (composed_of_recorded hw h).shows
  | replayed h hf =>
    obtain ⟨frame', hf', hshows⟩ := (composed_of_recorded hw h).shows_entry
    cases hf.symm.trans hf'
    exact hshows
  | presence hf => exact shows_presence hf

/-- Every frame on its way to a client was made for an event. -/
structure Carries (s : Shared) : Prop where
  channels : ∀ t, ∀ frame ∈ (s.st.channels t).sent, ∃ event, Conveys s.trace frame event
  pending : ∀ p ∈ s.st.delivering, ∀ frame ∈ p.2.pendingMessages, ∃ event, Conveys s.trace frame event
  delivering : ∀ post ex, s.barrier = some (.deliver post ex) → .recorded post ∈ s.trace
  received : ∀ t, (s.st.channels t).received ≤ (s.st.channels t).sent.length

theorem carries_init : Carries sections.init where
  channels _ _ h := by cases h
  pending _ h := by cases h
  delivering _ _ h := by cases h
  received _ := Nat.le_refl 0

theorem Carries.step {s s' : Shared} {l : Section} (hfed : Fed s) (hkept : Kept s) (h : Carries s) (hm : Moves s l s') :
    Carries s' := by
  obtain ⟨events, htr⟩ := (hm.history hfed.consistent).1
  have hmono : ∀ {frame}, (∃ event, Conveys s.trace frame event) → ∃ event, Conveys s'.trace frame event := by
    rintro frame ⟨event, hev⟩
    exact ⟨event, htr ▸ hev.mono events⟩
  have hbroadcast : ∀ {frame}, Broadcasting s s' frame → ∃ event, Conveys s'.trace frame event := by
    rintro frame ⟨-, ⟨post, ex, hb, rfl⟩ | ⟨users, hf⟩⟩
    · exact hmono ⟨_, .live (h.delivering post ex hb) rfl⟩
    · exact ⟨_, .presence hf⟩
  constructor
  case channels =>
    intro t frame hframe
    obtain ⟨frames, hputs, hsent⟩ := (hm.loads hfed t).puts
    rw [hsent, List.mem_append] at hframe
    rcases hframe with hframe | hframe
    · exact hmono (h.channels t frame hframe)
    · cases hputs with
      | nothing => cases hframe
      | @replayed a m rest frame' hb hf =>
        cases List.mem_singleton.1 hframe
        obtain ⟨post, hpost, rfl⟩ := hkept.replaying _ _ _ _ hb m List.mem_cons_self
        exact hmono ⟨_, .replayed hpost hf⟩
      | delivered _ _ _ _ _ hb =>
        cases List.mem_singleton.1 hframe
        exact hbroadcast hb
      | readied _ _ hp _ _ _ hpre => exact hmono (h.pending _ hp frame (hpre.subset hframe))
  case pending =>
    intro q hq frame hf
    rcases hm.pending hfed hq hf with ⟨p, hp, hf⟩ | hb
    · exact hmono (h.pending p hp frame hf)
    · exact hbroadcast hb
  case delivering =>
    intro post ex hb
    cases hm with
    | record => cases hb; exact List.mem_cons_self
    | barrier hbar => cases hbar <;> cases hb
    | snapshot | replayed | readied | unreadied | deliver | drop => cases hb
    | register | setUsername | broadcast => exact List.mem_cons_of_mem _ (h.delivering post ex hb)
    | remove => exact List.mem_append_right _ (h.delivering post ex hb)
    | tick | reorder => exact h.delivering post ex hb
  case received => exact fun t => ((hm.loads hfed t).grows.received (h.received t)).2

theorem carries_of_reach {G : Shared → Section → Prop} {s : Shared} (hs : System.Reach sections G s) : Carries s :=
  hs.invariant carries_init fun _ _ _ hr h _ hstep => h.step (fed_of_reach hr) (kept_of_reach hr) (moves_of_step hstep)

/-! ## Registered or gone -/

/-- The frames replayed to a client, and those broadcast to it since it registered. -/
def addressed (t : ClientToken) (addr : SocketAddr) (tr : List Event) : List Bytes :=
  replayedFrames t tr ++ feed t addr tr

/-- A token is registered once. -/
theorem registered_unique {G : Shared → Section → Prop} {s : Shared} (hs : System.Reach sections G s) {t : ClientToken}
    {a b : SocketAddr} (ha : .registered t a ∈ s.trace) (hb : .registered t b ∈ s.trace) : a = b := by
  refine hs.invariant (I := fun s => ∀ t a b, .registered t a ∈ s.trace → .registered t b ∈ s.trace → a = b)
    (fun _ _ _ h => by cases h) (fun s l s' hr ih _ hstep t a b ha hb => ?_) t a b ha hb
  have hlt := (tracked_of_reach hr).registered_lt
  cases moves_of_step hstep with
  | @register c u st hreg =>
    obtain ⟨rfl, -⟩ := registerClientWithStatus_ok hreg
    rcases List.mem_cons.1 ha with ha' | ha' <;> rcases List.mem_cons.1 hb with hb' | hb'
    · cases ha'
      cases hb'
      rfl
    · cases ha'
      exact absurd (hlt b _ hb') (Nat.lt_irrefl _)
    · cases hb'
      exact absurd (hlt a _ ha') (Nat.lt_irrefl _)
    · exact ih t a b ha' hb'
  | setUsername | snapshot | replayed | readied | record | deliver | broadcast =>
    exact ih t a b (by simpa using ha) (by simpa using hb)
  | @remove _ _ removed | @drop _ _ _ _ removed =>
    cases removed with
    | true => exact ih t a b (by simpa [removedEvent] using ha) (by simpa [removedEvent] using hb)
    | false => exact ih t a b ha hb
  | barrier | unreadied | tick | reorder => exact ih t a b ha hb

/-- More broadcasts follow those before, for one who does not register. -/
theorem feed_append {t : ClientToken} {events : List Event} (h : ∀ a, .registered t a ∉ events) (a : SocketAddr)
    (tr : List Event) : feed t a tr <+: feed t a (events ++ tr) := by
  induction events with
  | nil => exact List.prefix_rfl
  | cons e events ih =>
    refine (ih fun b hb => h b (List.mem_cons_of_mem _ hb)).trans ?_
    cases e with
    | registered u b =>
      rw [List.cons_append, feed, if_neg fun hu : u = t => h b (hu ▸ List.mem_cons_self)]
    | broadcast frame ex doomed post =>
      rw [List.cons_append, feed]
      split
      · exact List.prefix_rfl
      · exact List.prefix_append _ _
    | named | snapshot | replayed | ready | recorded | removed => exact List.prefix_rfl

theorem failed_append (events tr : List Event) : failed tr ⊆ failed (events ++ tr) := by
  induction events with
  | nil => exact List.Subset.refl _
  | cons e events ih =>
    cases e with
    | broadcast => exact List.subset_append_of_subset_right _ ih
    | registered | named | snapshot | replayed | ready | recorded | removed => exact ih

theorem snapshots_append (events tr : List Event) : snapshots tr ⊆ snapshots (events ++ tr) := by
  induction events with
  | nil => exact List.Subset.refl _
  | cons e events ih =>
    cases e with
    | snapshot => exact List.subset_cons_of_subset _ ih
    | registered | named | broadcast | replayed | ready | recorded | removed => exact ih

/-- Who registers in a section is registered after it. -/
theorem Moves.registers {s s' : Shared} {l : Section} (hm : Moves s l s') : ∃ events, s'.trace = events ++ s.trace ∧
    ∀ t a, .registered t a ∈ events → ∃ p ∈ s'.st.delivering, p.2.token = t := by
  cases hm with
  | register hr =>
    refine ⟨[_], rfl, fun t a h => ⟨_, (registerClientWithStatus_ok hr).2.2.2.1.mem_iff.2 List.mem_cons_self, ?_⟩⟩
    cases List.mem_singleton.1 h
    rfl
  | setUsername | snapshot | replayed | readied | record | deliver | broadcast =>
    refine ⟨[_], rfl, fun t a h => ?_⟩
    cases List.mem_singleton.1 h
  | @remove _ _ removed | @drop _ _ _ _ removed =>
    refine ⟨_, rfl, fun t a h => ?_⟩
    cases removed <;> simp [removedEvent] at h
  | barrier | unreadied | tick | reorder => exact ⟨[], rfl, fun _ _ h => by cases h⟩

/-- What was put on a client's channel is of its replay, and then of the broadcasts to it, also when it is gone. -/
structure Outlasts (s : Shared) : Prop where
  unbegun : ∀ t, t ∉ snapshots s.trace → (s.st.channels t).sent = []
  replaying : ∀ a t w rest, s.barrier = some (.replay a t w rest) → (s.st.channels t).sent = replayedFrames t s.trace
  gone : ∀ a t, .registered t a ∈ s.trace → (∀ p ∈ s.st.delivering, p.2.token ≠ t) → t ∉ failed s.trace →
    (s.st.channels t).sent <+: replayedFrames t s.trace ++ feed t a s.trace

theorem outlasts_init : Outlasts sections.init where
  unbegun _ _ := rfl
  replaying _ _ _ _ h := by cases h
  gone _ _ h := by cases h

/-- What a section puts on the channel of one whose replay is going on, or begins: the next message of it. -/
theorem PutsOn.replays {s s' : Shared} {t : ClientToken} {frames : List Bytes} (h : PutsOn s s' t frames)
    (hready : ∀ p ∈ s.st.delivering, p.2.token = t → p.2.ready = false) (hb : ∀ r, s'.barrier ≠ some (.replayed r)) :
    replayedFrames t s'.trace = replayedFrames t s.trace ++ frames := by
  cases h with
  | nothing hr => rw [hr, List.append_nil]
  | replayed _ _ htr => rw [htr, replayedFrames, if_pos rfl]
  | delivered hp ht hr =>
    rw [hready _ hp ht] at hr
    cases hr
  | readied _ hb' => exact absurd hb' (hb _)

/-- A client's channel begins what is addressed to it, whether it is registered or gone. -/
theorem Outlasts.sent {s : Shared} (h : Outlasts s) (hfed : Fed s) (htracked : Tracked s)
    (hunique : ∀ t a b, .registered t a ∈ s.trace → .registered t b ∈ s.trace → a = b) {t : ClientToken}
    {a : SocketAddr} (ha : .registered t a ∈ s.trace) (hf : t ∉ failed s.trace) :
    (s.st.channels t).sent <+: replayedFrames t s.trace ++ feed t a s.trace := by
  by_cases hp : ∃ p ∈ s.st.delivering, p.2.token = t
  · obtain ⟨p, hp, rfl⟩ := hp
    have hid := hfed.consistent.same.mem_iff.1 (mem_deliveryIds.2 ⟨p.2, hp, rfl⟩)
    have haddr : a = p.2.addr := by
      rw [hfed.consistent.addr p hp]
      exact hunique _ _ _ ha ((htracked.live _ _).1 hid).1
    exact ⟨_, haddr ▸ hfed.fed p hp hf⟩
  · exact h.gone a t ha (fun p hp' ht => hp ⟨p, hp', ht⟩) hf

theorem Outlasts.step {s s' : Shared} {l : Section} (hr : System.Reach sections System.Any s) (h : Outlasts s)
    (hm : Moves s l s') : Outlasts s' := by
  have hfed := fed_of_reach hr
  have hold := hfed.holder
  obtain ⟨events, htr, hreg⟩ := hm.registers
  constructor
  case unbegun =>
    intro t ht
    have ht₀ : t ∉ snapshots s.trace := fun hmem => ht (htr ▸ snapshots_append events s.trace hmem)
    obtain ⟨frames, hputs, hsent⟩ := (hm.loads hfed t).puts
    rw [hsent, h.unbegun t ht₀, List.nil_append]
    cases hputs with
    | nothing => rfl
    | replayed hb | readied hb =>
      rw [hb] at hold
      exact absurd hold.1 ht₀
    | delivered hp htok hready =>
      rw [(hfed.waiting _ hp (htok ▸ ht₀)).1] at hready
      cases hready
  case replaying =>
    intro a t w rest hb'
    obtain ⟨frames, hputs, hsent⟩ := (hm.loads hfed t).puts
    have hnot : ∀ r, s'.barrier ≠ some (.replayed r) := by
      intro r he
      rw [hb'] at he
      cases he
    have hgoing : ∀ {rest'}, s.barrier = some (.replay a t w rest') →
        (s'.st.channels t).sent = replayedFrames t s'.trace := by
      intro rest' hb
      rw [hb] at hold
      rw [hputs.replays (fun p hp ht => (hold.2.2.2 p hp ht).1) hnot, hsent, h.replaying a t w rest' hb]
    rcases hm.replaying hb' with hb | ⟨hb, -, -⟩ | ⟨m, frame, channel, hb, -⟩
    · exact hgoing hb
    · rw [hb] at hold
      have hready : ∀ p ∈ s.st.delivering, p.2.token = t → p.2.ready = false := by
        rintro p hp rfl
        exact (hfed.waiting p hp hold.1).1
      rw [hputs.replays hready hnot, hsent, h.unbegun t hold.1, (inOrder_of_reach hr).unbegun t hold.1]
    · exact hgoing hb
  case gone =>
    intro a t ha hgone hf
    have hnew : ∀ b, .registered t b ∉ events := fun b hb => by
      obtain ⟨p, hp, ht⟩ := hreg t b hb
      exact hgone p hp ht
    have ha₀ : .registered t a ∈ s.trace := (List.mem_append.1 (htr ▸ ha)).resolve_left (hnew a)
    have hf₀ : t ∉ failed s.trace := fun hmem => hf (htr ▸ failed_append events s.trace hmem)
    have hbefore := h.sent hfed (tracked_of_reach hr) (fun _ _ _ => registered_unique hr) ha₀ hf₀
    obtain ⟨frames, hputs, hsent⟩ := (hm.loads hfed t).puts
    rw [hsent]
    cases hputs with
    | nothing hsame =>
      rw [List.append_nil, hsame, htr]
      exact hbefore.trans ((List.prefix_append_right_inj _).2 (feed_append hnew a s.trace))
    | replayed hb _ htr' =>
      rw [h.replaying _ _ _ _ hb, htr', replayedFrames, if_pos rfl]
      exact List.prefix_append _ _
    | delivered _ _ _ hq ht' | readied _ _ _ _ hq ht' => exact absurd ht' (hgone _ hq)

theorem outlasts_of_reach {G : Shared → Section → Prop} {s : Shared} (hs : System.Reach sections G s) : Outlasts s :=
  hs.invariant outlasts_init fun _ _ _ hr h _ hstep => h.step hr.any (moves_of_step hstep)

/-- **What was put on a client's channel** begins what was replayed to it followed by what was broadcast since it
registered, unless a broadcast found no room for it; also once it is gone. -/
theorem fed_ever {G : Shared → Section → Prop} {s : Shared} (hs : System.Reach sections G s) {t : ClientToken}
    {a : SocketAddr} (ha : .registered t a ∈ s.trace) (hf : t ∉ failed s.trace) :
    (s.st.channels t).sent <+: addressed t a s.trace :=
  (outlasts_of_reach hs).sent (fed_of_reach hs) (tracked_of_reach hs) (fun _ _ _ => registered_unique hs) ha hf

end Server
end Drocsid
