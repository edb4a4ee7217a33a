import Drocsid.Upstream
/-!
# EndToEnd — from what one user submits to what another is shown

A line of a client's panel is one of its own, or a message recorded for the session of some connection, whose handler
read the content of a chat; and if our client is at the other end, its user submitted that (`shown_was_said`).  What
the user of our client submitted, once the server has read it, is shown by each client that registered before it and is
settled, in order (`said_is_shown`).
-/
namespace Drocsid

open Text ByteSource Protocol Server Client

namespace Deployment

variable {P : Peers} {d : Deployment}

/-! ## Nothing but what was said -/

/-- The message is of the session at a connection: its join, its leave or a chat.  Of a chat the handler read the
content, and if our client is at the other end its user submitted that, under its name. -/
structure Authored (P : Peers) (d : Deployment) (c : Nat) (s : Session) (post : Post) : Prop where
  session : (d.world.conns c).handler.session = some s
  signed : Signed s post
  joined : post.kind = .join → post.text = trimEnd (joinMessage s.username) ∧ post.entry = post.text
  left : post.kind = .leave → post.text = trimEnd (leaveMessage s.username) ∧ post.entry = post.text
  read : post.kind = .chat →
    ∃ frame ∈ (d.up c).frames, ∃ content, acceptChat frame = .ok (some content) ∧ Says s content post
  ours : ∀ username, P.username c = some username → s.username.1 = trim username ∧
    (post.kind = .chat → ∃ content ∈ (d.clients c).submitted, Says s content post)

theorem mem_contentsOf {frames : List Frame} {content : Str} (h : content ∈ contentsOf frames) :
    ∃ frame ∈ frames, acceptChat frame = .ok (some content) := by
  obtain ⟨frame, hf, hc⟩ := List.mem_filterMap.1 h
  refine ⟨frame, hf, ?_⟩
  cases ha : acceptChat frame with
  | error e =>
    rw [ha] at hc
    cases hc
  | ok content' =>
    rw [ha] at hc
    exact congrArg Except.ok hc

/-- A chat of a session is of a content that its handler read. -/
theorem Recorded.says {c : Nat} {s : Session} {contents : List Str} (h : Recorded d c s contents) {post : Post}
    (hp : post ∈ chatsBy s.token d.world.trace) : ∃ content ∈ contents, Says s content post := by
  obtain ⟨done, hand, rfl, hd, -⟩ := h.said
  obtain ⟨content, hc, hsays⟩ := exists_of_forall₂ hd hp
  exact ⟨content, List.mem_append_left _ hc, hsays⟩

theorem authored_of_recorded (hd : System.Reach (deployment P) System.Any d) {post : Post}
    (h : .recorded post ∈ d.world.trace) : ∃ c s, Authored P d c s post := by
  obtain ⟨c, s, hs, hsign⟩ := signed_of_recorded (world_of_reach hd) h
  obtain ⟨frame, rest, hframes, hname, hrecorded⟩ := exists_recorded hd hs
  have hchat : post.kind = .chat → ∃ content ∈ contentsOf rest, Says s content post := by
    intro hk
    refine hrecorded.says (List.mem_filter.2 ⟨mem_posts.2 h, ?_⟩)
    simp [hsign.session, hk]
  refine ⟨c, s, hs, hsign, hsign.joined, hsign.left, fun hk => ?_, fun username hu => ?_⟩
  · obtain ⟨content, hc, hsays⟩ := hchat hk
    obtain ⟨frame', hf, ha⟩ := mem_contentsOf hc
    exact ⟨frame', hframes ▸ List.mem_cons_of_mem _ hf, content, ha, hsays⟩
  · obtain ⟨rfl, hpre, -⟩ := contentsOf_submitted hd hu hframes
    refine ⟨username_of_handshake hname, fun hk => ?_⟩
    obtain ⟨content, hc, hsays⟩ := hchat hk
    exact ⟨content, hpre.subset hc, hsays⟩

/-- A line of a client's panel is one of its own, or a message recorded. -/
theorem own_or_recorded (hd : System.Reach (deployment P) System.Any d) {c : Nat} {username : Str}
    (hu : P.username c = some username) {m : Tui.ChatMessage} (hm : m ∈ (d.clients c).app.messages) :
    lit "[system] " <+: m.text ∨
      ∃ post, .recorded post ∈ d.world.trace ∧ (m.text = post.text ∨ m.text = post.entry) := by
  obtain ⟨log, hlog, hheard, hown⟩ := (follows_of_reach (client_of_reach hd hu)).log
  rw [hlog] at hm
  obtain ⟨line, hline, rfl⟩ := List.mem_map.1 (List.mem_of_mem_drop hm)
  cases line with
  | own text => exact .inl (hown text hline)
  | heard text =>
    right
    have htext : text ∈ (d.clients c).processed.filterMap NetworkEvent.text? := by
      rw [← hheard]
      exact List.mem_filterMap.2 ⟨_, hline, rfl⟩
    obtain ⟨event, hevent, he⟩ := List.mem_filterMap.1 htext
    rcases conveys_of_processed hd hu hevent with ⟨message, -, hconveys⟩ | ⟨reason, rfl⟩
    · cases hconveys with
      | @live post hpost =>
        cases he
        exact ⟨post, hpost, .inl rfl⟩
      | @replayed post hpost =>
        cases he
        exact ⟨post, hpost, .inr rfl⟩
      | presence => cases he
    · cases he

/-- **Every line a client shows** is one of its own, which begins with `[system]`, or is a message recorded: its text,
or what the history keeps of it.  The session of a connection composed it; if it is a chat the handler there read its
content, and if our client is at the other end its user submitted that, under its name. -/
theorem shown_was_said (hd : System.Reach (deployment P) System.Any d) {c : Nat} {username : Str}
    (hu : P.username c = some username) {m : Tui.ChatMessage} (hm : m ∈ (d.clients c).app.messages) :
    lit "[system] " <+: m.text ∨ ∃ post, .recorded post ∈ d.world.trace ∧ (m.text = post.text ∨ m.text = post.entry) ∧
      ∃ b s, Authored P d b s post := by
  refine (own_or_recorded hd hu hm).imp_right ?_
  rintro ⟨post, hpost, htext⟩
  exact ⟨post, hpost, htext, authored_of_recorded hd hpost⟩

/-! ## All that was said -/

/-- What a part of a list is related to is a part of what the list is. -/
theorem exists_sublist_of_forall₂ {α β : Type*} {R : α → β → Prop} {l l₁ : List α} (hs : l.Sublist l₁) {l₂ : List β}
    (h : List.Forall₂ R l₁ l₂) : ∃ l', List.Forall₂ R l l' ∧ l'.Sublist l₂ := by
  induction hs generalizing l₂ with
  | slnil =>
    cases h
    exact ⟨[], .nil, .slnil⟩
  | cons a _ ih =>
    cases h with
    | cons _ h =>
      obtain ⟨l', hl', hsub⟩ := ih h
      exact ⟨l', hl', hsub.cons _⟩
  | cons_cons a _ ih =>
    cases h with
    | cons hab h =>
      obtain ⟨l', hl', hsub⟩ := ih h
      exact ⟨_, .cons hab hl', hsub.cons_cons _⟩

/-- The frame broadcast for a message conveys that message alone. -/
theorem message_of_conveys {tr : List Server.Event} {post : Post} {event : NetworkEvent}
    (h : Conveys tr post.frame event) : event = .message post.text := by
  cases h with
  | @live post' _ hf => exact congrArg _ (chatFrame_inj (hf ▸ post'.encoded) post.encoded)
  | replayed _ hf => exact congrArg _ (chatFrame_inj hf post.encoded)
  | presence hf =>
    have hchat := isChatFrame_of_chatFrame post.encoded
    rw [isChatFrame_of_presenceFrame hf] at hchat
    cases hchat

theorem messages_of_conveys {tr : List Server.Event} {posts : List Post} {events : List NetworkEvent}
    (h : List.Forall₂ (Conveys tr) (posts.map Post.frame) events) :
    events = posts.map fun post => .message post.text := by
  induction posts generalizing events with
  | nil =>
    cases h
    rfl
  | cons post posts ih =>
    cases h with
    | cons hpost h => rw [message_of_conveys hpost, ih h, List.map_cons]

/-- What was recorded since a settled client registered is shown by it. -/
theorem posts_shown (hd : System.Reach (deployment P) System.Any d) {c : Nat} {username : Str}
    (hu : P.username c = some username) {s : Session} (hset : Settled d c s) (hf : s.token ∉ failed d.world.trace)
    (hb : d.world.barrier = none) :
    ((postsFrom s.token d.world.trace).map fun post => NetworkEvent.message post.text).Sublist
      (d.clients c).processed := by
  obtain ⟨shown, hconveys, hsub⟩ := exists_sublist_of_forall₂
    (posted_addressed (world_of_reach hd) hb s.token (d.world.conns c).addr) (conveys_of_settled hd hu hset hf)
  exact messages_of_conveys hconveys ▸ hsub

theorem text_of_says {s : Session} {content : Str} {post : Post} (h : Says s content post) :
    ∃ now : HhMm, post.text = formatChatMessage s.username now.text content := by
  obtain ⟨now, hm, ht⟩ := h.texts
  exact ⟨now, ht.trans hm⟩

/-- Of what the user of our client at one connection submitted, our client at another was told, in order. -/
theorem posts_of_submitted (hd : System.Reach (deployment P) System.Any d) {b c : Nat} {author username : Str}
    (ha : P.username b = some author) (hu : P.username c = some username) {s t : Session}
    (hs : (d.world.conns b).handler = .serving s .select)
    (hread : (d.up b).position = (d.clients b).socket.bytes.length) (hset : Settled d c t)
    (hf : t.token ∉ failed d.world.trace) (hb : d.world.barrier = none) (hts : t.token < s.token) :
    ∃ posts, List.Forall₂ (fun content (post : Post) => ∃ now : HhMm,
        post.text = formatChatMessage (trim author) now.text content) (d.clients b).submitted posts ∧
      (posts.map fun post => NetworkEvent.message post.text).Sublist (d.clients c).processed := by
  obtain ⟨frame, rest, hframes, hname, hrecorded⟩ := exists_recorded hd (c := b) (s := s) (by rw [hs]; rfl)
  obtain ⟨rfl, -, hall⟩ := contentsOf_submitted hd ha hframes
  have hchats := hrecorded.all hs
  rw [hall hread] at hchats
  have hsub := (chatsBy_postsFrom (world_of_reach hd) hts).map fun post => NetworkEvent.message post.text
  refine ⟨_, hchats.imp fun content post hsays => ?_, hsub.trans (posts_shown hd hu hset hf hb)⟩
  rw [← username_of_handshake hname]
  exact text_of_says hsays

/-- **What one user said another is shown.**  Once the server has read all that our client at one connection wrote, and
waits for more, our client at another that registered before it, is settled and was never dropped has processed every
content its user submitted, in order, as a message under the author's name. -/
theorem said_is_shown (hd : System.Reach (deployment P) System.Any d) {b c : Nat} {author username : Str}
    (ha : P.username b = some author) (hu : P.username c = some username) {s t : Session}
    (hs : (d.world.conns b).handler = .serving s .select)
    (hread : (d.up b).position = (d.clients b).socket.bytes.length) (hset : Settled d c t)
    (hf : t.token ∉ failed d.world.trace) (hb : d.world.barrier = none) (hts : t.token < s.token) :
    ∃ shown, List.Forall₂ (fun content event => ∃ now : HhMm,
        event = NetworkEvent.message (formatChatMessage (trim author) now.text content)) (d.clients b).submitted shown ∧
      shown.Sublist (d.clients c).processed ∧ Follows username (d.clients c).processed (d.clients c).app := by
  obtain ⟨posts, htexts, hsub⟩ := posts_of_submitted hd ha hu hs hread hset hf hb hts
  refine ⟨_, ?_, hsub, follows_of_reach (client_of_reach hd hu)⟩
  rw [List.forall₂_map_right_iff]
  refine htexts.imp fun content post ⟨now, htext⟩ => ⟨now, ?_⟩
  rw [htext]

/-! ## Bob and alice -/

def bobAndAlice : Peers :=
  ⟨fun _ => [], lit "localhost",
    fun c => if c = 0 then some (lit "bob") else if c = 1 then some (lit "alice") else none⟩

/-- Both come, and alice says hi. -/
def aliceSays : List Occurrence := comes 0 bobAddr "bob" 0 ++ comes 1 aliceAddr "alice" 1 ++ submitsHi 1

/-- All that was sent to bob arrives. -/
def bobHears : List Occurrence :=
  (List.replicate 5 (writes 0)).flatten ++
  hears 0 (arrives (presenceFrame [lit "bob"])) ++ hears 0 (arrives (chatFrame (trimEnd (joinMessage (lit "bob"))))) ++
  hears 0 (arrives (presenceFrame [lit "alice", lit "bob"])) ++
  hears 0 (arrives (chatFrame (trimEnd (joinMessage (lit "alice"))))) ++
  hears 0 (arrives (chatFrame (formatChatMessage (lit "alice") (lit "23:59") (lit "hi")))) ++
  .client 0 .turn :: List.replicate 5 (.client 0 .tryRecv)

theorem shown_was_said_bob : ∃ d m, m ∈ (d.clients 0).app.messages ∧
    m.text = formatChatMessage (lit "alice") (lit "23:59") (lit "hi") ∧
    (lit "[system] " <+: m.text ∨ ∃ post, .recorded post ∈ d.world.trace ∧
      (m.text = post.text ∨ m.text = post.entry) ∧ ∃ b s, Authored bobAndAlice d b s post) := by
  obtain ⟨d, hd, ht⟩ := System.exists_of_run (evaluated bobAndAlice)
    (fun d => (d.clients 0).app.messages.any fun m =>
      m.text == formatChatMessage (lit "alice") (lit "23:59") (lit "hi")) (aliceSays ++ bobHears) (by decide +kernel)
  obtain ⟨m, hm, htext⟩ := List.any_eq_true.1 ht
  exact ⟨d, m, hm, by simpa using htext, shown_was_said (reach_of_evaluated hd) rfl hm⟩

/-- The handler waits for the next message, and its session registered after the other. -/
def awaits (d : Deployment) (b : Nat) (t : Session) : Bool :=
  match (d.world.conns b).handler with
  | .serving s .select => decide (t.token < s.token)
  | _ => false

theorem handler_of_awaits {b : Nat} {t : Session} (h : d.awaits b t = true) :
    ∃ s, (d.world.conns b).handler = .serving s .select ∧ t.token < s.token := by
  unfold awaits at h
  split at h
  · exact ⟨_, ‹_›, of_decide_eq_true h⟩
  · cases h

/-- Bob's client is settled, and what alice submitted was read and recorded. -/
def bobHeard (d : Deployment) : Bool :=
  d.settles 0 && (d.world.conns 0).writer.session.all (d.awaits 1) &&
    (d.up 1).position == (d.clients 1).socket.bytes.length && d.world.barrier.isNone &&
    (d.clients 1).submitted == [lit "hi"]

theorem settled_of_bobHeard {d : Deployment} (h : d.bobHeard = true) : ∃ s t,
    (d.world.conns 1).handler = .serving s .select ∧ (d.up 1).position = (d.clients 1).socket.bytes.length ∧
    Settled d 0 t ∧ t.token ∉ failed d.world.trace ∧ d.world.barrier = none ∧ t.token < s.token ∧
    (d.clients 1).submitted = [lit "hi"] := by
  simp only [bobHeard, Bool.and_eq_true, beq_iff_eq, Option.isNone_iff_eq_none] at h
  obtain ⟨⟨⟨⟨hsettles, hawaits⟩, hread⟩, hbarrier⟩, hsubmitted⟩ := h
  obtain ⟨t, hset, hf⟩ := settled_of_settles hsettles
  rw [hset.writer] at hawaits
  obtain ⟨s, hs, hts⟩ := handler_of_awaits hawaits
  exact ⟨s, t, hs, hread, hset, hf, hbarrier, hts, hsubmitted⟩

theorem said_is_shown_bob : ∃ (d : Deployment) (shown : List NetworkEvent), (d.clients 1).submitted = [lit "hi"] ∧
    List.Forall₂ (fun content event => ∃ now : HhMm,
      event = NetworkEvent.message (formatChatMessage (trim (lit "alice")) now.text content))
        (d.clients 1).submitted shown ∧
    shown.Sublist (d.clients 0).processed ∧ Follows (lit "bob") (d.clients 0).processed (d.clients 0).app := by
  obtain ⟨d, hd, ht⟩ := System.exists_of_run (evaluated bobAndAlice) bobHeard (aliceSays ++ bobHears)
    (by decide +kernel)
  obtain ⟨s, t, hs, hread, hset, hf, hbarrier, hts, hsubmitted⟩ := settled_of_bobHeard ht
  obtain ⟨shown, hshown⟩ :=
    said_is_shown (reach_of_evaluated hd) (b := 1) (c := 0) rfl rfl hs hread hset hf hbarrier hts
  exact ⟨d, shown, hsubmitted, hshown⟩

end Deployment
end Drocsid
