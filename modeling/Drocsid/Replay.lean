import Drocsid.Feed
/-!
# Replay — each message once

A client that became ready has on its channel, of chat frames, its history and then what was recorded since, each
message once, provided that no message was delivered while a registered client's replay had yet to begin
(`PostsAfterReplays`). The message then recorded and not yet delivered, or the one whose failed enqueue drops the
client, is the only one missing (`Heard`).  Without the condition a message delivered to a client's pending list before
its replay is in its history too.
-/
namespace Drocsid

open Text Protocol

namespace Server

def isChatFrame (frame : Bytes) : Bool := frame.getD 1 0 == FrameType.chat.toByte

/-- The chat frames of what was put on a channel. -/
def chats (frames : List Bytes) : List Bytes := frames.filter isChatFrame

theorem isChatFrame_of_encodeFrame {kind : FrameType} {payload frame : Bytes}
    (h : encodeFrame kind payload = .ok frame) : isChatFrame frame = (kind == .chat) := by
  obtain ⟨-, rfl⟩ := encodeFrame_eq_ok.1 h
  cases kind <;> rfl

theorem isChatFrame_of_chatFrame {text : Str} {frame : Bytes} (h : chatFrame text = .ok frame) :
    isChatFrame frame = true :=
  isChatFrame_of_encodeFrame (encodeFrame_of_chatFrame h)

theorem isChatFrame_of_presenceFrame {users : List Str} {frame : Bytes} (h : presenceFrame users = .ok frame) :
    isChatFrame frame = false := by
  have he := encodePresence_of_presenceFrame h
  unfold encodePresence at he
  split at he
  · cases he
  · split at he
    · cases he
    · exact isChatFrame_of_encodeFrame he

/-- The last messages a history keeps. -/
def retained {α : Type*} (l : List α) : List α := l.drop (l.length - messageHistoryLimit)

/-- The messages recorded, in order. -/
def posts : List Event → List Post
  | [] => []
  | .recorded post :: tr => posts tr ++ [post]
  | _ :: tr => posts tr

/-- The messages recorded before a session's replay began. -/
def postsBefore (t : ClientToken) : List Event → List Post
  | [] => []
  | .snapshot t' _ :: tr => if t' = t then posts tr else postsBefore t tr
  | _ :: tr => postsBefore t tr

def removedTokens : List Event → List ClientToken
  | [] => []
  | .removed t :: tr => t :: removedTokens tr
  | _ :: tr => removedTokens tr

/-- The messages recorded since a session's replay began, until it was removed. -/
def postsSince (t : ClientToken) : List Event → List Post
  | [] => []
  | .snapshot t' _ :: tr => if t' = t then [] else postsSince t tr
  | .recorded post :: tr => if t ∈ removedTokens tr then postsSince t tr else postsSince t tr ++ [post]
  | _ :: tr => postsSince t tr

def Registered (s : Shared) (t : ClientToken) : Prop := ∃ p ∈ s.st.delivering, p.2.token = t

/-- The messages recorded for a registered client and not put on its channel, by where the barrier's holder is. -/
def Missing (t : ClientToken) (missing : List Post) : Option Critical → Prop
  | some (.deliver post _) => missing = [post]
  | some (.drop doomed _) => t ∈ doomed.map Prod.snd ∨ missing = []
  | _ => missing = []

/-- A ready client's channel, of chat frames: what was replayed, then what was recorded since, but for at most one
message. -/
def Heard (s : Shared) (t : ClientToken) : Prop :=
  ∃ missing : List Post, chats (s.st.channels t).sent ++ missing.map (·.frame) =
      replayedFrames t s.trace ++ (postsSince t s.trace).map (·.frame) ∧
    missing.length ≤ 1 ∧ (Registered s t → Missing t missing s.barrier)

/-- Messages are recorded for all, and delivered when every registered client's replay has begun. -/
def PostsAfterReplays (s : Shared) (l : Section) : Prop :=
  (∀ post ex, l = .lockRecord post ex → ex = none) ∧
  ∀ post ex rx, s.barrier = some (.deliver post ex) → l = .advance rx →
    ∀ p ∈ s.st.delivering, p.2.token ∈ snapshots s.trace

structure Once (s : Shared) : Prop where
  limit : s.st.history.limit = messageHistoryLimit
  history : s.st.history.entries = retained ((posts s.trace).map Post.entry)
  snapshotted : ∀ t ∈ snapshots s.trace, replayHistory t s.trace = retained ((postsBefore t s.trace).map Post.entry)
  toAll : ∀ post ex, s.barrier = some (.record post ex) ∨ s.barrier = some (.deliver post ex) → ex = none
  pending : ∀ p ∈ s.st.delivering,
    (p.2.token ∉ snapshots s.trace ∨ ∃ a w rest, s.barrier = some (.replay a p.2.token w rest)) →
    chats p.2.pendingMessages = []
  replaying : ∀ a t w rest, s.barrier = some (.replay a t w rest) → postsSince t s.trace = [] ∧ .ready t ∉ s.trace
  ready : ∀ p ∈ s.st.delivering, p.2.ready = true ↔ .ready p.2.token ∈ s.trace
  doomed : ∀ ds b, s.barrier = some (.drop ds b) → ∀ x ∈ ds, x.2 < s.st.nextToken ∧
    ∀ p ∈ s.st.delivering, p.2.token = x.2 → p.1 = x.1
  removed : ∀ t ∈ removedTokens s.trace, t < s.st.nextToken ∧ ¬ Registered s t
  gone : ∀ t, t < s.st.nextToken → Registered s t ∨ t ∈ removedTokens s.trace
  heard : ∀ t, .ready t ∈ s.trace → Heard s t

theorem once_init : Once sections.init where
  limit := rfl
  history := rfl
  snapshotted _ h := by cases h
  toAll _ _ h := by rcases h with h | h <;> cases h
  pending _ h := by cases h
  replaying _ _ _ _ h := by cases h
  ready _ h := by cases h
  doomed _ _ h := by cases h
  removed _ h := by cases h
  gone t h := absurd h (Nat.not_lt_zero t)
  heard _ h := by cases h

/-- What a section adds to the trace concerns no message, and no replay. -/
structure SameChats (tr tr' : List Event) : Prop where
  posts : posts tr' = posts tr
  postsBefore : ∀ t, postsBefore t tr' = postsBefore t tr
  postsSince : ∀ t, postsSince t tr' = postsSince t tr
  replayHistory : ∀ t, replayHistory t tr' = replayHistory t tr
  replayedFrames : ∀ t, replayedFrames t tr' = replayedFrames t tr
  snapshots : snapshots tr' = snapshots tr
  ready : ∀ t, .ready t ∈ tr' ↔ .ready t ∈ tr

theorem SameChats.refl (tr : List Event) : SameChats tr tr :=
  ⟨rfl, fun _ => rfl, fun _ => rfl, fun _ => rfl, fun _ => rfl, rfl, fun _ => .rfl⟩

theorem SameChats.removed (t : ClientToken) (b : Bool) (tr : List Event) : SameChats tr (removedEvent t b ++ tr) := by
  cases b
  · exact .refl tr
  · exact ⟨rfl, fun _ => rfl, fun _ => rfl, fun _ => rfl, fun _ => rfl, rfl, fun _ => by simp [removedEvent]⟩

/-- Where the barrier's holder may go in a section that sends and records nothing. -/
structure SameHolder (s s' : Shared) : Prop where
  toAll : ∀ post ex, s'.barrier = some (.record post ex) ∨ s'.barrier = some (.deliver post ex) → ex = none
  replaying : ∀ a t w rest, s'.barrier = some (.replay a t w rest) → s.barrier = some (.replay a t w rest)
  doomed : ∀ ds b, s'.barrier = some (.drop ds b) → ∃ ds', s.barrier = some (.drop ds' b) ∧ ds ⊆ ds'
  missing : ∀ p ∈ s'.st.delivering, ∀ missing, Missing p.2.token missing s.barrier →
    Missing p.2.token missing s'.barrier

theorem SameHolder.of_eq {s s' : Shared} (h : Once s) (hb : s'.barrier = s.barrier) : SameHolder s s' where
  toAll := by rw [hb]; exact h.toAll
  replaying := by rw [hb]; exact fun _ _ _ _ => id
  doomed := by rw [hb]; exact fun ds b hd => ⟨ds, hd, fun _ => id⟩
  missing := by rw [hb]; exact fun _ _ _ => id

theorem Once.frame {s s' : Shared} (hcon : Consistent s.st) (h : Once s) (q : Quiet s s')
    (hhist : s'.st.history = s.st.history) (htr : SameChats s.trace s'.trace)
    (hremoved : ∀ t, t ∈ removedTokens s'.trace ↔ t ∈ removedTokens s.trace ∨ Registered s t ∧ ¬ Registered s' t)
    (hb : SameHolder s s') : Once s' := by
  have hreg : ∀ t, Registered s' t → Registered s t := fun t ⟨p, hp, ht⟩ => ⟨p, q.delivering p hp, ht⟩
  refine ⟨hhist ▸ h.limit, ?_, fun t ht => ?_, hb.toAll, fun p hp hw => ?_, fun a t w rest hc => ?_, fun p hp => ?_,
    fun ds b hc x hx => ?_, fun t ht => ?_, fun t ht => ?_, fun t ht => ?_⟩
  · rw [hhist, htr.posts]; exact h.history
  · rw [htr.replayHistory, htr.postsBefore]
    exact h.snapshotted t (htr.snapshots ▸ ht)
  · apply h.pending p (q.delivering p hp)
    rw [htr.snapshots] at hw
    exact hw.imp id fun ⟨a, w, rest, hc⟩ => ⟨a, w, rest, hb.replaying _ _ _ _ hc⟩
  · rw [htr.postsSince, htr.ready]
    exact h.replaying a t w rest (hb.replaying a t w rest hc)
  · rw [htr.ready]; exact h.ready p (q.delivering p hp)
  · obtain ⟨ds', hc', hsub⟩ := hb.doomed ds b hc
    rw [q.nextToken]
    exact (h.doomed ds' b hc' x (hsub hx)).imp id fun hd p hp => hd p (q.delivering p hp)
  · rw [q.nextToken]
    rcases (hremoved t).1 ht with ht | ⟨⟨p, hp, rfl⟩, hn⟩
    · exact (h.removed t ht).imp id fun hn hr => hn (hreg t hr)
    · exact ⟨hcon.token_lt hp, hn⟩
  · rw [q.nextToken] at ht
    rw [hremoved]
    by_cases hr : Registered s' t
    · exact .inl hr
    · exact .inr ((h.gone t ht).elim (fun hs => .inr ⟨hs, hr⟩) .inl)
  · obtain ⟨missing, heq, hlen, hmiss⟩ := h.heard t ((htr.ready t).1 ht)
    refine ⟨missing, by rw [q.sent, htr.replayedFrames, htr.postsSince]; exact heq, hlen, fun hr => ?_⟩
    obtain ⟨p, hp, rfl⟩ := hr
    exact hb.missing p hp missing (hmiss (hreg _ ⟨p, hp, rfl⟩))

/-- The registered clients are the same: no token is removed. -/
theorem Once.frame_registered {s s' : Shared} (hcon : Consistent s.st) (h : Once s) (q : Quiet s s')
    (hhist : s'.st.history = s.st.history) (htr : SameChats s.trace s'.trace)
    (hremoved : removedTokens s'.trace = removedTokens s.trace) (hreg : ∀ p ∈ s.st.delivering, p ∈ s'.st.delivering)
    (hb : SameHolder s s') : Once s' := by
  refine h.frame hcon q hhist htr (fun t => ?_) hb
  rw [hremoved]
  exact ⟨.inl, fun ht => ht.resolve_right fun ⟨⟨p, hp, hpt⟩, hn⟩ => hn ⟨p, hreg p hp, hpt⟩⟩

/-! ## The sections -/

theorem Once.register {s : Shared} (hfed : Fed s) (hord : InOrder s) (h : Once s) {a : SocketAddr} {t : ClientToken}
    {st : ServerState} (hr : registerSession s.st a = .ok (t, st)) :
    Once { s with st, trace := .registered t a :: s.trace } := by
  obtain ⟨rfl, hnext, -, hd, hhist, hch, -⟩ := registerClientWithStatus_ok hr
  have hfresh : .ready s.st.nextToken ∉ s.trace := fun hready =>
    (hfed.unused _ (Nat.le_refl _)).2.2.1 (hord.readied _ hready).1
  have hmem : ∀ p ∈ st.delivering, p = (a, ⟨a, s.st.nextToken, s.st.nextToken, some s.st.nextToken, false, []⟩) ∨
    p ∈ s.st.delivering :=
    fun p hp => List.mem_cons.1 (hd.mem_iff.1 hp)
  have hlt : ∀ {u : ClientToken}, u < s.st.nextToken → u < st.nextToken := fun hu => hnext ▸ Nat.lt_succ_of_lt hu
  refine ⟨hhist ▸ h.limit, hhist ▸ h.history, h.snapshotted, h.toAll, fun p hp hw => ?_, fun a t w rest hc => ?_,
    fun p hp => ?_, fun ds b hc x hx => ?_, fun u hu => ?_, fun u hu => ?_, fun u hu => ?_⟩
  · rcases hmem p hp with rfl | hp
    · rfl
    · exact h.pending p hp hw
  · exact (h.replaying a t w rest hc).imp id fun hn => by simpa using hn
  · rcases hmem p hp with rfl | hp
    · simpa using hfresh
    · simpa using h.ready p hp
  · obtain ⟨hx1, hx2⟩ := h.doomed ds b hc x hx
    refine ⟨hlt hx1, fun p hp ht => ?_⟩
    rcases hmem p hp with rfl | hp
    · exact absurd ht (Nat.ne_of_gt hx1)
    · exact hx2 p hp ht
  · obtain ⟨hu1, hu2⟩ := h.removed u hu
    refine ⟨hlt hu1, fun ⟨p, hp, ht⟩ => ?_⟩
    rcases hmem p hp with rfl | hp
    · exact absurd ht (Nat.ne_of_gt hu1)
    · exact hu2 ⟨p, hp, ht⟩
  · rcases Nat.lt_or_eq_of_le (Nat.le_of_lt_succ (hnext ▸ hu)) with hu | rfl
    · exact (h.gone u hu).imp (fun ⟨p, hp, ht⟩ => ⟨p, hd.mem_iff.2 (List.mem_cons_of_mem _ hp), ht⟩) id
    · exact .inl ⟨_, hd.mem_iff.2 List.mem_cons_self, rfl⟩
  · have hu : .ready u ∈ s.trace := by simpa using hu
    obtain ⟨missing, heq, hlen, hmiss⟩ := h.heard u hu
    refine ⟨missing, by rw [hch]; exact heq, hlen, fun ⟨p, hp, ht⟩ => ?_⟩
    rcases hmem p hp with rfl | hp
    · have hu' : u = s.st.nextToken := ht.symm
      exact absurd (hu' ▸ hu) hfresh
    · exact hmiss ⟨p, hp, ht⟩

/-- After a removal, of the clients before it just one is gone. -/
theorem registered_remove {s : Shared} (hcon : Consistent s.st) {a : SocketAddr} {t : ClientToken} {removed : Bool}
    {st : ServerState} (hr : removeClientIfCurrent s.st a t = some (removed, st)) (c : Option Critical)
    (tr : List Event) (u : ClientToken) : u ∈ removedTokens (removedEvent t removed ++ s.trace) ↔
      u ∈ removedTokens s.trace ∨ Registered s u ∧ ¬ Registered ⟨st, c, tr⟩ u := by
  obtain ⟨hrem, -⟩ := removeClientIfCurrent_some hcon hr
  have hids : Registered s u ∧ ¬ Registered ⟨st, c, tr⟩ u ↔ u = t ∧ removed = true := by
    rw [hrem.result, ← hcon.same.mem_iff, mem_deliveryIds]
    constructor
    · rintro ⟨⟨p, hp, rfl⟩, hn⟩
      have hgone : ¬ (p.1 ≠ a || p.2.token != t) = true := fun hk =>
        hn ⟨p, hrem.delivering.mem_iff.2 (List.mem_filter.2 ⟨hp, hk⟩), rfl⟩
      simp only [bne_iff_ne, ne_eq, Bool.or_eq_true, decide_eq_true_eq, not_or, Classical.not_not] at hgone
      exact ⟨hgone.2, p.2, hgone.1 ▸ hp, hgone.2⟩
    · rintro ⟨rfl, d, hd, hdt⟩
      refine ⟨⟨(a, d), hd, hdt⟩, fun ⟨q, hq, hqt⟩ => ?_⟩
      obtain ⟨hq, hk⟩ := List.mem_filter.1 (hrem.delivering.mem_iff.1 hq)
      have := hcon.unique hq hd (hqt.trans hdt.symm)
      subst this
      simp [hdt] at hk
  rw [hids]
  cases removed <;> simp [removedEvent, removedTokens, or_comm]

theorem Once.remove {s : Shared} (hcon : Consistent s.st) (h : Once s) {a : SocketAddr} {t : ClientToken}
    {removed : Bool} {st : ServerState} (hr : removeClientIfCurrent s.st a t = some (removed, st)) {c : Option Critical}
    (hb : SameHolder s ⟨st, c, removedEvent t removed ++ s.trace⟩) : Once ⟨st, c, removedEvent t removed ++ s.trace⟩ :=
  h.frame hcon (.remove hcon hr c) (removeClientIfCurrent_some hcon hr).1.history (.removed _ _ _)
    (registered_remove hcon hr c _) hb

/-- A client the drop loop has passed is no longer registered. -/
theorem Once.drop {s : Shared} (hcon : Consistent s.st) (h : Once s) {a : SocketAddr} {t : ClientToken}
    {doomed : List Doomed} {dropped removed : Bool} {st : ServerState}
    (hb : s.barrier = some (.drop ((a, t) :: doomed) dropped))
    (hr : removeClientIfCurrent s.st a t = some (removed, st)) :
    Once ⟨st, some (.drop doomed dropped), removedEvent t removed ++ s.trace⟩ := by
  obtain ⟨hrem, -⟩ := removeClientIfCurrent_some hcon hr
  refine h.remove hcon hr ⟨nofun, nofun, fun ds b hc => ?_, fun p hp missing hm => ?_⟩
  · cases hc; exact ⟨_, hb, List.subset_cons_self _ _⟩
  · rw [hb] at hm
    refine hm.imp (fun ht => ?_) id
    rcases List.mem_cons.1 ht with ht | ht
    · obtain ⟨hp, hk⟩ := List.mem_filter.1 (hrem.delivering.mem_iff.1 hp)
      have ha := (h.doomed _ _ hb (a, t) List.mem_cons_self).2 p hp ht
      simp [ha, ht] at hk
    · exact ht

theorem Once.movesBarrier {s : Shared} (hcon : Consistent s.st) (h : Once s) {l : Section} {c : Option Critical}
    (hm : MovesBarrier s l c) (hG : PostsAfterReplays s l) : Once { s with barrier := c } := by
  refine h.frame_registered hcon (.barrier hcon c) rfl (.refl _) rfl (fun _ hp => hp) ?_
  cases hm with
  | lockReplay hb => exact ⟨nofun, nofun, nofun, by rw [hb]; exact fun _ _ _ => id⟩
  | @lockRecord post ex hb =>
    refine ⟨fun post' ex' hc => ?_, nofun, nofun, by rw [hb]; exact fun _ _ _ => id⟩
    rcases hc with hc | hc
    · cases hc; exact hG.1 post ex rfl
    · cases hc
  | @unlock c hb hd =>
    refine ⟨nofun, nofun, nofun, fun p _ missing hmiss => ?_⟩
    rw [hb] at hmiss
    match c, hd with
    | .replayed _, _ => exact hmiss
    | .drop [] _, _ => exact hmiss.resolve_left nofun
  | found hb => exact ⟨nofun, nofun, nofun, by rw [hb]; exact fun _ _ _ => id⟩
  | unknown hb => exact ⟨nofun, nofun, nofun, by rw [hb]; exact fun _ _ _ => id⟩
  | refused hb => exact ⟨nofun, nofun, nofun, by rw [hb]; exact fun _ _ _ => id⟩

theorem Once.snapshot {s : Shared} (hord : InOrder s) (h : Once s) {a : SocketAddr} {t : ClientToken} {w : ChannelId}
    (hb : s.barrier = some (.snapshot a t w)) (ht : t ∉ snapshots s.trace) :
    Once ⟨s.st, some (.replay a t w s.st.history.snapshot), .snapshot t s.st.history.snapshot :: s.trace⟩ := by
  have hready : .ready t ∉ s.trace := fun hr => ht (hord.readied t hr).1
  have hother : ∀ {u}, u ∈ snapshots s.trace → t ≠ u := fun hu htu => ht (htu ▸ hu)
  refine ⟨h.limit, h.history, fun u hu => ?_, nofun, fun p hp hw => ?_, fun a t w rest hc => ?_, fun p hp => ?_, nofun,
    h.removed, h.gone, fun u hu => ?_⟩
  · rcases List.mem_cons.1 hu with rfl | hu
    · simp only [replayHistory, postsBefore, if_pos]
      exact h.history
    · simp only [replayHistory, postsBefore, if_neg (hother hu)]
      exact h.snapshotted u hu
  · -- the session's own list, or one of a session still waiting
    refine h.pending p hp (.inl ?_)
    rcases hw with hw | ⟨a', w', rest, hc⟩
    · rw [snapshots, List.mem_cons, not_or] at hw; exact hw.2
    · cases hc; exact ht
  · cases hc
    exact ⟨by simp [postsSince], by simpa using hready⟩
  · simpa using h.ready p hp
  · have hu : .ready u ∈ s.trace := by simpa using hu
    obtain ⟨missing, heq, hlen, hmiss⟩ := h.heard u hu
    refine ⟨missing, ?_, hlen, fun hr => ?_⟩
    · simp only [replayedFrames, postsSince, if_neg (hother (hord.readied u hu).1)]
      exact heq
    · have := hmiss hr
      rw [hb] at this
      exact this

theorem Once.replayed {s : Shared} (h : Once s) {a : SocketAddr} {t : ClientToken} {w : ChannelId} {m : Str}
    {rest : List Str} (hb : s.barrier = some (.replay a t w (m :: rest))) (hw : w = t) {frame : Bytes}
    (channel : Fifo Bytes) :
    Once ⟨setChannel s.st w channel, some (.replay a t w rest), .replayed t frame :: s.trace⟩ := by
  obtain ⟨hsince, hready⟩ := h.replaying a t w _ hb
  refine ⟨h.limit, h.history, h.snapshotted, nofun, fun p hp hc => h.pending p hp ?_, fun a t w rest hc => ?_,
    fun p hp => ?_, nofun, h.removed, h.gone, fun u hu => ?_⟩
  · refine hc.imp id fun ⟨a', w', rest', hc⟩ => ?_
    cases hc; exact ⟨_, _, _, hb⟩
  · cases hc; exact ⟨hsince, by simpa using hready⟩
  · simpa using h.ready p hp
  · have hu : .ready u ∈ s.trace := by simpa using hu
    have hut : u ≠ t := fun hut => hready (hut ▸ hu)
    obtain ⟨missing, heq, hlen, hmiss⟩ := h.heard u hu
    refine ⟨missing, ?_, hlen, fun hr => ?_⟩
    · simp only [replayedFrames, if_neg (Ne.symm hut), setChannel, Function.update_of_ne (hw ▸ hut)]
      exact heq
    · have := hmiss hr
      rw [hb] at this
      exact this

theorem registered_iff {s : Shared} (hcon : Consistent s.st) {t : ClientToken} :
    Registered s t ↔ ∃ a, (a, t) ∈ s.st.sessionIds := by
  simp only [← hcon.same.mem_iff, mem_deliveryIds]
  exact ⟨fun ⟨p, hp, ht⟩ => ⟨p.1, p.2, hp, ht⟩, fun ⟨a, d, hd, ht⟩ => ⟨(a, d), hd, ht⟩⟩

/-- A section that leaves the client registry alone leaves the same clients registered. -/
theorem registered_of_clients {s s' : Shared} (hcon : Consistent s.st) (hcon' : Consistent s'.st)
    (hc : s'.st.clients = s.st.clients) (t : ClientToken) : Registered s' t ↔ Registered s t := by
  rw [registered_iff hcon, registered_iff hcon']
  unfold ServerState.sessionIds ServerState.sessions
  rw [hc]

theorem chats_replayedFrames {t : ClientToken} {rest : List Str} {tr : List Event} (h : ReplayedTo t rest tr) :
    chats (replayedFrames t tr) = replayedFrames t tr := by
  obtain ⟨done, -, hd⟩ := h
  refine List.filter_eq_self.2 fun f hf => ?_
  obtain ⟨m, -, hm⟩ := List.mem_map.1 (hd ▸ List.mem_map_of_mem hf : Except.ok f ∈ done.map chatFrame)
  exact isChatFrame_of_chatFrame hm

theorem Once.readied {s : Shared} (hfed : Fed s) (hord : InOrder s) (h : Once s) {a : SocketAddr} {t : ClientToken}
    {w : ChannelId} (hb : s.barrier = some (.replay a t w [])) {rx : List Rx} {st : ServerState}
    (hm : markClientReady s.st a t rx = (.ok (), st)) : Once ⟨st, some (.replayed (.ok ())), .ready t :: s.trace⟩ := by
  obtain ⟨hsince, hready⟩ := h.replaying a t w _ hb
  have hold := hfed.holder
  rw [hb] at hold
  obtain ⟨hsnap, rfl, hlt, hold⟩ := hold
  have hid : (a, w) ∈ s.st.sessionIds := by
    refine Classical.byContradiction fun hid => ?_
    rw [markClientReady_unknown hfed.consistent hid] at hm
    cases hm
  obtain ⟨d, hd, ht⟩ := mem_deliveryIds.1 (hfed.consistent.same.mem_iff.2 hid)
  obtain ⟨channel, unsent, e, hsend, hres, hch, hmem⟩ := markClientReady_mem hfed hd ht rx
  obtain ⟨-, -, -, -, -, -, -, hclients, hhist, -, hnext⟩ := markClientReady_spec hfed.consistent hd rx
  have hcon := hfed.consistent.markClientReady a w rx
  rw [ht] at hclients hhist hnext
  rw [hm] at hres hch hmem hclients hhist hnext hcon
  have he : e = none := by cases e with | none => rfl | some e => cases hres
  subst he
  have hnil : unsent = [] := by
    have := Fifo.sendAll_unsent (s.st.channels w) d.pendingMessages rx
    rw [hsend] at this
    exact this.2 rfl
  have hsent : channel.sent = (s.st.channels w).sent ++ d.pendingMessages := by
    have := Fifo.sendAll_conserves (s.st.channels w) d.pendingMessages rx
    rw [hsend, hnil] at this
    simpa using this
  have hreg : ∀ u, Registered ⟨st, some (.replayed (.ok ())), .ready w :: s.trace⟩ u ↔ Registered s u :=
    registered_of_clients hfed.consistent hcon hclients
  have haddr : ∀ q ∈ st.delivering, ∃ p ∈ s.st.delivering, p.1 = q.1 ∧ p.2.token = q.2.token := fun q hq => by
    rcases hmem q hq with rfl | ⟨hq, -⟩
    · exact ⟨_, hd, rfl, rfl⟩
    · exact ⟨q, hq, rfl, rfl⟩
  refine ⟨hhist ▸ h.limit, hhist ▸ h.history, h.snapshotted, nofun, fun q hq hw => ?_, nofun, fun q hq => ?_, nofun,
    fun u hu => ?_, fun u hu => ?_, fun u hu => ?_⟩
  · have hw : q.2.token ∉ snapshots s.trace := hw.resolve_right nofun
    rcases hmem q hq with rfl | ⟨hq, -⟩
    · exact absurd (ht ▸ hsnap) hw
    · exact h.pending q hq (.inl hw)
  · rcases hmem q hq with rfl | ⟨hq, hne⟩
    · simp [ht]
    · simpa [hne] using h.ready q hq
  · rw [hreg, hnext]; exact h.removed u hu
  · rw [hreg]; exact h.gone u (hnext ▸ hu)
  · by_cases huw : u = w
    · -- the list had no chat frame: no message was delivered while the replay had yet to begin
      subst huw
      refine ⟨[], ?_, Nat.zero_le _, fun _ => rfl⟩
      have hpend : chats d.pendingMessages = [] := h.pending _ hd (.inr ⟨_, _, _, by rw [ht]; exact hb⟩)
      have hrep := chats_replayedFrames (hord.holder _ _ _ _ hb)
      rw [hch, Function.update_self, hsent, (hold _ hd ht).2, chats, List.filter_append]
      simp only [replayedFrames, postsSince, hsince, List.map_nil, List.append_nil]
      rw [← chats, hrep, ← chats, hpend, List.append_nil]
    · have hu : .ready u ∈ s.trace := by simpa [huw] using hu
      obtain ⟨missing, heq, hlen, hmiss⟩ := h.heard u hu
      refine ⟨missing, by rw [hch, Function.update_of_ne huw]; exact heq, hlen, fun hr => ?_⟩
      have := hmiss ((hreg u).1 hr)
      rw [hb] at this
      exact this

theorem Once.unreadied {s : Shared} (hfed : Fed s) (h : Once s) {a : SocketAddr} {t : ClientToken} {w : ChannelId}
    (hb : s.barrier = some (.replay a t w [])) {rx : List Rx} {st : ServerState} {err : ServerError}
    (hm : markClientReady s.st a t rx = (.error err, st)) : Once ⟨st, some (.replayed (.error err)), s.trace⟩ := by
  obtain ⟨hsince, hready⟩ := h.replaying a t w _ hb
  have hold := hfed.holder
  rw [hb] at hold
  obtain ⟨hsnap, rfl, hlt, hold⟩ := hold
  by_cases hid : (a, w) ∈ s.st.sessionIds
  · obtain ⟨d, hd, ht⟩ := mem_deliveryIds.1 (hfed.consistent.same.mem_iff.2 hid)
    obtain ⟨channel, unsent, e, hsend, hres, hch, hmem⟩ := markClientReady_mem hfed hd ht rx
    obtain ⟨-, -, -, -, -, -, -, hclients, hhist, -, hnext⟩ := markClientReady_spec hfed.consistent hd rx
    have hcon := hfed.consistent.markClientReady a w rx
    rw [ht] at hclients hhist hnext
    rw [hm] at hres hch hmem hclients hhist hnext hcon
    obtain ⟨e, rfl⟩ : ∃ e', e = some e' := by
      cases e with
      | none => cases hres
      | some e => exact ⟨e, rfl⟩
    have hreg : ∀ u, Registered ⟨st, some (.replayed (.error err)), s.trace⟩ u ↔ Registered s u :=
      registered_of_clients hfed.consistent hcon hclients
    refine ⟨hhist ▸ h.limit, hhist ▸ h.history, h.snapshotted, nofun, fun q hq hw => ?_, nofun, fun q hq => ?_, nofun,
      fun u hu => ?_, fun u hu => ?_, fun u hu => ?_⟩
    · have hw : q.2.token ∉ snapshots s.trace := hw.resolve_right nofun
      rcases hmem q hq with rfl | ⟨hq, -⟩
      · exact absurd (ht ▸ hsnap) hw
      · exact h.pending q hq (.inl hw)
    · rcases hmem q hq with rfl | ⟨hq, -⟩
      · simpa [ht, hready] using (hold _ hd ht).1
      · exact h.ready q hq
    · rw [hreg, hnext]; exact h.removed u hu
    · rw [hreg]; exact h.gone u (hnext ▸ hu)
    · have huw : u ≠ w := fun huw => hready (huw ▸ hu)
      obtain ⟨missing, heq, hlen, hmiss⟩ := h.heard u hu
      refine ⟨missing, by rw [hch, Function.update_of_ne huw]; exact heq, hlen, fun hr => ?_⟩
      have := hmiss ((hreg u).1 hr)
      rw [hb] at this
      exact this
  · rw [markClientReady_unknown hfed.consistent hid] at hm
    cases hm
    refine h.frame_registered hfed.consistent (.barrier hfed.consistent _) rfl (.refl _) rfl (fun _ hp => hp) ?_
    exact ⟨nofun, nofun, nofun, by rw [hb]; exact fun _ _ _ => id⟩

theorem retained_concat {α : Type*} (l : List α) (a : α) : retained (l ++ [a]) =
    if (retained l ++ [a]).length > messageHistoryLimit then (retained l ++ [a]).tail else retained l ++ [a] := by
  have hlen : (retained l).length = min l.length messageHistoryLimit := by
    rw [retained, List.length_drop]; omega
  split
  · rename_i h
    rw [List.length_append, hlen, List.length_singleton] at h
    have hl : messageHistoryLimit ≤ l.length := by omega
    rw [retained, retained, List.length_append, List.length_singleton, ← List.drop_append_of_le_length (by omega),
      List.tail_drop]
    congr 1
    omega
  · rename_i h
    rw [List.length_append, hlen, List.length_singleton] at h
    have hl : l.length + 1 ≤ messageHistoryLimit := by omega
    have h0 : l.length - messageHistoryLimit = 0 := by omega
    have h1 : (l ++ [a]).length - messageHistoryLimit = 0 := by rw [List.length_append, List.length_singleton]; omega
    rw [retained, retained, h0, h1, List.drop_zero, List.drop_zero]

theorem Once.record {s : Shared} (hord : InOrder s) (hfed : Fed s) (h : Once s) {post : Post} {ex : Option SocketAddr}
    (hb : s.barrier = some (.record post ex)) :
    Once ⟨{ s.st with history := s.st.history.record post.message }, some (.deliver post ex),
      .recorded post :: s.trace⟩ := by
  refine ⟨h.limit, ?_, h.snapshotted, fun post' ex' hc => ?_, fun p hp hw => ?_, nofun, fun p hp => ?_, nofun,
    h.removed, h.gone, fun u hu => ?_⟩
  · show (if _ then _ else _) = _
    rw [posts, List.map_append, List.map_singleton, retained_concat, h.history, h.limit]
    rfl
  · rcases hc with hc | hc
    · cases hc
    · cases hc; exact h.toAll _ _ (.inl hb)
  · exact h.pending p hp (.inl (hw.resolve_right nofun))
  · simpa using h.ready p hp
  · have hu : .ready u ∈ s.trace := by simpa using hu
    obtain ⟨missing, heq, hlen, hmiss⟩ := h.heard u hu
    by_cases hr : Registered s u
    · -- the new message is on no channel yet
      have hnil : missing = [] := by
        have := hmiss hr
        rw [hb] at this
        exact this
      have hnot : u ∉ removedTokens s.trace := fun hm => (h.removed u hm).2 hr
      refine ⟨[post], ?_, Nat.le_refl _, fun _ => rfl⟩
      rw [hnil, List.map_nil, List.append_nil] at heq
      simp only [replayedFrames, postsSince, if_neg hnot, List.map_append, List.map_singleton]
      rw [← List.append_assoc, ← heq]
    · have hlt : u < s.st.nextToken := Nat.lt_of_not_le fun hle => (hfed.unused u hle).2.2.1 (hord.readied u hu).1
      have hgone : u ∈ removedTokens s.trace := (h.gone u hlt).resolve_left hr
      refine ⟨missing, ?_, hlen, fun hr' => absurd hr' hr⟩
      simp only [replayedFrames, postsSince, if_pos hgone]
      exact heq

/-- A broadcast leaves the channels of clients that are gone. -/
theorem deliver_channel_gone {s : Shared} (hfed : Fed s) {u : ClientToken} (hr : ¬ Registered s u) (frame : Bytes)
    (ex : Option SocketAddr) : (deliver s.st frame ex).1.channels u = s.st.channels u := by
  refine (deliver_spec hfed.writers frame ex).1 u fun hw => ?_
  obtain ⟨p, hp, rfl⟩ := List.mem_map.1 hw
  exact hr ⟨p, hp, (hfed.handles p hp).1.symm⟩

theorem registered_deliver {s : Shared} (hfed : Fed s) (frame : Bytes) (ex : Option SocketAddr) (c : Option Critical)
    (tr : List Event) (u : ClientToken) : Registered ⟨(deliver s.st frame ex).1, c, tr⟩ u ↔ Registered s u :=
  have hcon' : Consistent (Shared.mk (deliver s.st frame ex).1 c tr).st := hfed.consistent.deliver frame ex
  registered_of_clients hfed.consistent hcon' rfl u

/-- What a broadcast makes of the invariant but for the channels. -/
theorem Once.deliver {s : Shared} (hfed : Fed s) (h : Once s) (frame : Bytes) (ex : Option SocketAddr)
    (post : Option Post) {c : Option Critical} {tr : List Event}
    (htr : tr = .broadcast frame ex ((deliver s.st frame ex).2.map Prod.snd) post :: s.trace)
    (htoAll : ∀ post ex, c = some (.record post ex) ∨ c = some (.deliver post ex) → ex = none)
    (hpending : ∀ p ∈ s.st.delivering,
      (p.2.token ∉ snapshots s.trace ∨ ∃ a w rest, c = some (.replay a p.2.token w rest)) →
      chats (p.2.queue frame ex).pendingMessages = [])
    (hreplaying : ∀ a t w rest, c = some (.replay a t w rest) → s.barrier = some (.replay a t w rest))
    (hdoomed : ∀ ds b, c = some (.drop ds b) → s.barrier = c ∨ ds = (deliver s.st frame ex).2)
    (hheard : ∀ u, .ready u ∈ s.trace → Heard ⟨(deliver s.st frame ex).1, c, tr⟩ u) :
    Once ⟨(deliver s.st frame ex).1, c, tr⟩ := by
  subst htr
  have hreg := registered_deliver hfed frame ex c
  refine ⟨h.limit, h.history, h.snapshotted, htoAll, fun q hq hw => ?_, fun a t w rest hc => ?_, fun q hq => ?_,
    fun ds b hc x hx => ?_, fun u hu => ?_, fun u hu => ?_, fun u hu => hheard u (by simpa using hu)⟩
  · obtain ⟨p, hp, rfl⟩ := exists_of_mem_deliver hq
    exact hpending p hp (by simpa [snapshots] using hw)
  · exact (h.replaying a t w rest (hreplaying a t w rest hc)).imp id fun hn => by simpa using hn
  · obtain ⟨p, hp, rfl⟩ := exists_of_mem_deliver hq
    simpa using h.ready p hp
  · rcases hdoomed ds b hc with hc' | rfl
    · refine (h.doomed ds b (hc'.trans hc) x hx).imp id fun hx' q hq ht => ?_
      obtain ⟨p, hp, rfl⟩ := exists_of_mem_deliver hq
      exact hx' p hp (by simpa using ht)
    · rw [(deliver_spec hfed.writers frame ex).2.2] at hx
      obtain ⟨p, hp, rfl⟩ := List.mem_map.1 hx
      have hp := (List.mem_filter.1 hp).1
      refine ⟨hfed.consistent.token_lt hp, fun q hq ht => ?_⟩
      obtain ⟨p', hp', rfl⟩ := exists_of_mem_deliver hq
      rw [hfed.consistent.unique hp' hp (by simpa using ht), hfed.consistent.addr p hp]
  · rw [hreg]; exact h.removed u hu
  · rw [hreg]; exact h.gone u hu

theorem chats_append (l l' : List Bytes) : chats (l ++ l') = chats l ++ chats l' := List.filter_append l l'

theorem Once.deliverPost {s : Shared} (hfed : Fed s) (h : Once s) {post : Post} {ex : Option SocketAddr}
    (hb : s.barrier = some (.deliver post ex)) (hG : ∀ p ∈ s.st.delivering, p.2.token ∈ snapshots s.trace) :
    Once ⟨(Server.deliver s.st post.frame ex).1,
      some (.drop (Server.deliver s.st post.frame ex).2 !(Server.deliver s.st post.frame ex).2.isEmpty),
      .broadcast post.frame ex ((Server.deliver s.st post.frame ex).2.map Prod.snd) (some post) :: s.trace⟩ := by
  refine h.deliver hfed post.frame ex (some post) rfl (fun _ _ hc => ?_)
    (fun p hp hw => absurd (hG p hp) (hw.resolve_right ?_))
    (fun _ _ _ _ hc => ?_) (fun ds b hc => by cases hc; exact .inr rfl) fun u hu => ?_
  · rcases hc with hc | hc <;> cases hc
  · rintro ⟨_, _, _, hc⟩
    cases hc
  · cases hc
  have hex := h.toAll post ex (.inr hb)
  obtain ⟨missing, heq, hlen, hmiss⟩ := h.heard u hu
  by_cases hr : Registered s u
  · have hpost := hmiss hr
    rw [hb] at hpost
    obtain ⟨p, hp, rfl⟩ := hr
    have hready := (h.ready p hp).2 hu
    have hch := hfed.deliver_channel post.frame ex hp
    have hsends : p.2.sends ex = true := by simp [ClientDelivery.sends, hex, hready]
    rw [hsends, Bool.true_and] at hch
    rw [show missing = [post] from hpost, List.map_singleton] at heq
    cases hacc : (s.st.channels p.2.token).accepts with
    | true =>
      rw [hacc, if_pos rfl] at hch
      refine ⟨[], ?_, Nat.zero_le _, fun _ => .inr rfl⟩
      simp only [hch, replayedFrames, postsSince]
      rw [chats_append, ← heq, List.map_nil, List.append_nil]
      simp [chats, isChatFrame_of_chatFrame post.encoded]
    | false =>
      rw [hacc, if_neg Bool.false_ne_true, List.append_nil] at hch
      refine ⟨[post], ?_, Nat.le_refl _, fun _ => .inl ?_⟩
      · simp only [hch, replayedFrames, postsSince]
        exact heq
      · rw [hfed.deliver_failed post.frame ex hp]
        simp [ClientDelivery.refuses, hex, hready, (hfed.handles p hp).1, hacc]
  · refine ⟨missing, ?_, hlen, fun hr' => absurd ?_ hr⟩
    · simp only [deliver_channel_gone hfed hr, replayedFrames, postsSince]
      exact heq
    · exact (registered_deliver hfed post.frame ex _ _ u).1 hr'

theorem Once.broadcast {s : Shared} (hfed : Fed s) (h : Once s) {users : List Str} {frame : Bytes}
    (hf : presenceFrame users = .ok frame) (ex : Option SocketAddr) : Once ⟨(Server.deliver s.st frame ex).1, s.barrier,
      .broadcast frame ex ((Server.deliver s.st frame ex).2.map Prod.snd) none :: s.trace⟩ := by
  have hchat : chats [frame] = [] := by simp [chats, isChatFrame_of_presenceFrame hf]
  refine h.deliver hfed frame ex none rfl h.toAll (fun p hp hw => ?_) (fun _ _ _ _ => id)
    (fun _ _ _ => .inl rfl) fun u hu => ?_
  · have hp := h.pending p hp hw
    unfold ClientDelivery.queue
    split
    · exact hp
    · rw [chats_append, hp, hchat]; rfl
  · obtain ⟨missing, heq, hlen, hmiss⟩ := h.heard u hu
    refine ⟨missing, ?_, hlen, fun hr => hmiss ?_⟩
    · have hsame : chats ((Server.deliver s.st frame ex).1.channels u).sent = chats (s.st.channels u).sent := by
        by_cases hr : Registered s u
        · obtain ⟨p, hp, rfl⟩ := hr
          rw [hfed.deliver_channel frame ex hp, chats_append]
          split
          · rw [hchat, List.append_nil]
          · exact List.append_nil _
        · rw [deliver_channel_gone hfed hr]
      simp only [hsame, replayedFrames, postsSince]
      exact heq
    · exact (registered_deliver hfed frame ex _ _ u).1 hr

theorem Once.step {s s' : Shared} {l : Section} (hfed : Fed s) (hord : InOrder s) (h : Once s) (hm : Moves s l s')
    (hG : PostsAfterReplays s l) : Once s' := by
  have hcon := hfed.consistent
  have hold := hfed.holder
  cases hm with
  | register hr => exact h.register hfed hord hr
  | setUsername hu =>
    obtain ⟨-, -, byAddr, rfl, -⟩ := setClientUsername_ok hu
    exact h.frame_registered hcon (.setUsername hcon hu) rfl ⟨rfl, fun _ => rfl, fun _ => rfl, fun _ => rfl,
      fun _ => rfl, rfl, fun _ => by simp⟩ rfl (fun _ hp => hp) (.of_eq h rfl)
  | remove hr => exact h.remove hcon hr (.of_eq h rfl)
  | barrier hb => exact h.movesBarrier hcon hb hG
  | snapshot hb => rw [hb] at hold; exact h.snapshot hord hb hold.1
  | replayed hb => rw [hb] at hold; exact h.replayed hb hold.2.1 _
  | readied hb hm => exact h.readied hfed hord hb hm
  | unreadied hb hm => exact h.unreadied hfed hb hm
  | record hb => exact h.record hord hfed hb
  | @deliver post ex rx hb => exact h.deliverPost hfed hb (hG.2 post ex rx hb rfl)
  | drop hb hr => exact h.drop hcon hb hr
  | broadcast hf => exact h.broadcast hfed hf _
  | tick => exact h.frame_registered hcon (.tick hcon _ _) rfl (.refl _) rfl (fun _ hp => hp) (.of_eq h rfl)
  | reorder hr =>
    have hq := Quiet.reorder hcon hr
    unfold Server.reorder at hr
    split at hr
    · rename_i hp
      cases hr
      exact h.frame_registered hcon hq rfl (.refl _) rfl (fun p hp' => (Table.Same.items hp.2).mem_iff.2 hp')
        (.of_eq h rfl)
    · cases hr

theorem once_of_reach {s : Shared} (hs : System.Reach sections PostsAfterReplays s) : Once s :=
  hs.invariant once_init fun _ _ _ hr h hG hstep =>
    h.step (fed_of_reach hr) (inOrder_of_reach hr) (moves_of_step hstep) hG

/-- A client's channel, of chat frames: the history retained when its replay ran, encoded, then each message recorded
since until the client was removed, in order and once; all but the one message not yet delivered, or whose failed
enqueue drops the client. -/
def EachPostOnce (s : Shared) (t : ClientToken) : Prop :=
  ∃ history missing, (retained (postsBefore t s.trace)).map (fun post => chatFrame post.entry) = history.map .ok ∧
    chats (s.st.channels t).sent ++ missing = history ++ (postsSince t s.trace).map (·.frame) ∧ missing.length ≤ 1 ∧
    (Registered s t → s.barrier = none → missing = [])

/-- **Each message once**, in every run whose messages are delivered when every registered client's replay has begun. -/
theorem eachPostOnce_of_reach {s : Shared} (hs : System.Reach sections PostsAfterReplays s) {t : ClientToken}
    (ht : .ready t ∈ s.trace) : EachPostOnce s t := by
  have h := once_of_reach hs
  obtain ⟨hsnap, done, hh, hd⟩ := (inOrder_of_reach hs).readied t ht
  obtain ⟨missing, heq, hlen, hmiss⟩ := h.heard t ht
  refine ⟨replayedFrames t s.trace, missing.map (·.frame), ?_, heq, by simpa using hlen, fun hr hb => ?_⟩
  · rw [← hd, ← List.append_nil done, ← hh, h.snapshotted t hsnap]
    simp only [retained, List.map_drop, List.length_map, List.map_map]
    rfl
  · have := hmiss hr
    rw [hb] at this
    rw [show missing = [] from this, List.map_nil]

end Server
end Drocsid
