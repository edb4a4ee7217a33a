import Drocsid.EndToEnd
import Drocsid.Naming
import Drocsid.Render
import Drocsid.Roster
/-!
# OnScreen — what the users see of one another

A frame drawn of our client's app, in any run of the deployment.  Its lines are told from one another by how they are
drawn alone, and each is of who it says, unless that one's name is ambiguous (`drawn_as_said`); and what another user
said has a line, once it has arrived (`said_is_drawn`).  In a run with room for every message, in which no broadcast of
the usernames overtakes another, all our clients list the same users once nothing is on its way: those there are,
themselves among them (`listed_alike`).
-/
namespace Drocsid

open Text ByteSource Protocol Server Client Screen

namespace Tui

/-! ## The lines of a frame -/

/-- The characters of a line. -/
def Line.text (line : Line) : Str := line.flatMap Span.content

variable {isAlphanumeric : Char → Bool} {app : ChatApp} {message : ChatMessage} {line : Line}

theorem kind_of_chatLine (h : chatLine isAlphanumeric message app = .ok line) :
    lineKind isAlphanumeric app message.state message.text = .ok line.kind := by
  unfold lineKind
  rw [h]
  rfl

/-- **A line has the characters of its message**, whatever it is taken for. -/
theorem text_of_chatLine (h : chatLine isAlphanumeric message app = .ok line) : line.text = message.text := by
  unfold chatLine at h
  split at h
  · cases h
    exact List.append_nil _
  · split at h
    · cases h
    · rename_i username timestamp body hparse
      obtain ⟨mention, -, h⟩ := bind_eq_ok_iff.1 h
      cases h
      rw [(parseChatMessage_eq_some.1 hparse).1]
      simp [Line.text, formatChatMessage, lit]
    · obtain ⟨style, -, h⟩ := bind_eq_ok_iff.1 h
      cases h
      exact List.append_nil _

/-- A frame has a line for each message of the app. -/
theorem lines_of_render {ratatui : Ratatui} {overflowChecks : Bool} {frameArea : Rect} {app : Client.ChatApp}
    {drawing : Drawing} (h : render ratatui isAlphanumeric overflowChecks frameArea app = .ok drawing) :
    app.messages.map (fun message => chatLine isAlphanumeric message ⟨app.username⟩) =
      drawing.messages.text.map .ok := by
  obtain ⟨panel, _, hpanel, -, rfl⟩ := render_eq_ok_iff.1 h
  obtain ⟨panel', hpanel', hlines, -⟩ := renderMessagesPanel_ok isAlphanumeric app ratatui.inner
    (AppLayout.new ratatui frameArea).messages
  cases hpanel.symm.trans hpanel'
  exact hlines

/-- The session panel lists the users. -/
theorem session_of_render {ratatui : Ratatui} {overflowChecks : Bool} {frameArea : Rect} {app : Client.ChatApp}
    {drawing : Drawing} (h : render ratatui isAlphanumeric overflowChecks frameArea app = .ok drawing)
    (hne : app.connectedUsers ≠ []) :
    drawing.session.text = [lit "users"] :: app.connectedUsers.map fun user => [lit "  ", user] := by
  obtain ⟨_, _, -, -, rfl⟩ := render_eq_ok_iff.1 h
  show sidebarText app = _
  rw [sidebarText, if_neg (by rwa [List.isEmpty_iff])]

end Tui

namespace Deployment

variable {P : Peers} {d : Deployment}

/-! ## Whose a line is -/

/-- The line is of the session at a connection: a notice that it joined or left, or a chat under its name whose body the
handler read, but for line ends taken off, and which the user submitted, if our client is at the other end. -/
inductive Attributed (P : Peers) (d : Deployment) (b : Nat) (s : Session) (line : Tui.Line) : Prop
  | notice (hk : line.kind = .notice)
      (ht : line.text = trimEnd (joinMessage s.username) ∨ line.text = trimEnd (leaveMessage s.username))
  | chat {now : HhMm} {frame content body} (hk : line.kind = .chat s.username now.text body)
      (hf : frame ∈ (d.up b).frames) (ha : acceptChat frame = .ok (some content))
      (hb : body = content ∨ body = trimEndMatches '\n' content)
      (ours : ∀ username, P.username b = some username → content ∈ (d.clients b).submitted)

/-- A message is of one content. -/
theorem content_of_says {s : Session} {content content' : Str} {post : Post} (h : Says s content post)
    (h' : Says s content' post) : content = content' := by
  obtain ⟨now, ht⟩ := text_of_says h
  obtain ⟨now', ht'⟩ := text_of_says h'
  have heq := ht.symm.trans ht'
  have hlen : ∀ t : HhMm, t.text.length = 5 := fun _ => rfl
  rw [formatChatMessage_eq, formatChatMessage_eq, List.append_cancel_left_eq, List.append_cancel_left_eq] at heq
  have := (List.append_inj heq ((hlen now).trans (hlen now').symm)).2
  exact List.append_cancel_left this

/-- A content that is accepted has more than line ends. -/
theorem exists_mem_of_acceptChat {frame : Frame} {content : Str} (h : acceptChat frame = .ok (some content)) :
    ∃ c ∈ content, c ≠ '\n' := by
  have hblank : trim content ≠ [] := by
    unfold acceptChat at h
    split at h
    · cases h
    · split at h
      · cases h
      · split at h
        · cases h
        · split at h
          · cases h
          · rename_i hblank
            cases h
            simpa using hblank
  obtain ⟨c, l, hc⟩ := List.exists_cons_of_ne_nil hblank
  have hhead : isWhitespace c = false := head_trim (s := content) (by rw [hc]; rfl)
  refine ⟨c, mem_of_mem_trim (s := content) (by rw [hc]; exact List.mem_cons_self), ?_⟩
  rintro rfl
  exact absurd hhead (by decide)

/-- The text of a chat, and what the history keeps of it: the content, but for line ends taken off. -/
theorem body_of_says {s : Session} {frame : Frame} {content : Str} {post : Post} (h : Says s content post)
    (ha : acceptChat frame = .ok (some content)) {text : Str} (ht : text = post.text ∨ text = post.entry) :
    ∃ (now : HhMm) (body : Str), text = formatChatMessage s.username now.text body ∧
      (body = content ∨ body = trimEndMatches '\n' content) := by
  obtain ⟨now, hm, ht'⟩ := h.texts
  rcases ht with rfl | rfl
  · exact ⟨now, content, ht'.trans hm, .inl rfl⟩
  · obtain ⟨c, hc, hne⟩ := exists_mem_of_acceptChat ha
    refine ⟨now, _, ?_, .inr rfl⟩
    rw [Post.entry, hm, historyEntry, formatChatMessage, formatChatMessage, trimEndMatches_append hc hne]

/-- **Whose a line is can be told from the screen.**  Every line of a frame is drawn as the system's and begins with
`[system]`, and then it is the client's own, or it has the characters of a message recorded, which the session of some
connection composed (`Authored`); and unless that one's name is ambiguous it is drawn as what it is. -/
theorem drawn_as_said (hd : System.Reach (deployment P) System.Any d) {c : Nat} {username : Str}
    (hu : P.username c = some username) {ratatui : Tui.Ratatui} {isAlphanumeric : Char → Bool} {overflowChecks : Bool}
    {frameArea : Rect} {drawing : Tui.Drawing}
    (hr : Tui.render ratatui isAlphanumeric overflowChecks frameArea (d.clients c).app = .ok drawing) {line : Tui.Line}
    (hl : line ∈ drawing.messages.text) : line.kind = .system ∧ lit "[system] " <+: line.text ∨
      ∃ post, .recorded post ∈ d.world.trace ∧ (line.text = post.text ∨ line.text = post.entry) ∧
        ∃ b s, Authored P d b s post ∧ (Tui.Unambiguous s.username → Attributed P d b s line) := by
  obtain ⟨m, hm, hline⟩ := List.mem_map.1 (Tui.lines_of_render hr ▸ List.mem_map_of_mem hl)
  have htext := Tui.text_of_chatLine hline
  have hkind := Tui.kind_of_chatLine hline
  -- a line drawn as what its text is taken for
  have hkind_of : ∀ {kind}, Tui.lineKind isAlphanumeric ⟨(d.clients c).app.username⟩ m.state m.text = .ok kind →
      line.kind = kind := fun h => Except.ok.inj (hkind.symm.trans h)
  rcases own_or_recorded hd hu hm with hown | ⟨post, hpost, hmt⟩
  · refine .inl ⟨hkind_of (Tui.lineKind_system _ ((List.prefix_append _ _).trans hown)), htext ▸ hown⟩
  · obtain ⟨b, s, ha⟩ := authored_of_recorded hd hpost
    refine .inr ⟨post, hpost, by rwa [htext], b, s, ha, fun hun => ?_⟩
    cases ha.signed with
    | join h =>
      obtain ⟨ht, he⟩ := ha.joined (joinPost_of h).2
      rw [he, or_self, ht] at hmt
      exact .notice (hkind_of (hmt ▸ Tui.kind_join _ _ _ _)) (.inl (htext.trans hmt))
    | leave h =>
      obtain ⟨ht, he⟩ := ha.left (leavePost_of h).2
      rw [he, or_self, ht] at hmt
      exact .notice (hkind_of (hmt ▸ (Tui.kind_leave _ _ _ hun.closeUser).2 hun.systemOpen)) (.inr (htext.trans hmt))
    | chat h =>
      have hchat := (chatPost_of h).2
      obtain ⟨frame, hf, content, haccept, hsays⟩ := ha.read hchat
      obtain ⟨now, body, hmt, hbody⟩ := body_of_says hsays haccept hmt
      refine .chat (hkind_of (hmt ▸ (Tui.kind_chat _ _ _).2 ⟨hun.closeUser, hun.system, hun.systemClosed⟩)) hf haccept
        hbody fun author hb => ?_
      obtain ⟨content', hc, hsays'⟩ := (ha.ours author hb).2 hchat
      exact content_of_says hsays hsays' ▸ hc

theorem drawn_as_said_bob : ∃ (d : Deployment) (drawing : Tui.Drawing) (line : Tui.Line),
    Tui.render Tui.standard Char.isAlphanum true (terminalArea 80 24) (d.clients 0).app = .ok drawing ∧
    line ∈ drawing.messages.text ∧ line.kind = .chat (lit "alice") (lit "23:59") (lit "hi") ∧
    ∃ post, .recorded post ∈ d.world.trace ∧ (line.text = post.text ∨ line.text = post.entry) ∧
      ∃ b s, Authored bobAndAlice d b s post ∧
        (Tui.Unambiguous s.username → Attributed bobAndAlice d b s line) := by
  obtain ⟨d, hd, ht⟩ := System.exists_of_run (evaluated bobAndAlice)
    (fun d => match Tui.render Tui.standard Char.isAlphanum true (terminalArea 80 24) (d.clients 0).app with
      | .ok drawing => drawing.messages.text.any fun line =>
          decide (line.kind = .chat (lit "alice") (lit "23:59") (lit "hi"))
      | .error _ => false) (aliceSays ++ bobHears) (by decide +kernel)
  split at ht
  · rename_i drawing hdrawing
    obtain ⟨line, hl, hkind⟩ := List.any_eq_true.1 ht
    replace hkind := of_decide_eq_true hkind
    rcases drawn_as_said (reach_of_evaluated hd) rfl hdrawing hl with ⟨hown, -⟩ | hsaid
    · exact absurd (hkind.symm.trans hown) (by simp)
    · exact ⟨d, drawing, line, hdrawing, hl, hkind, hsaid⟩
  · cases ht

/-- **What one user said another sees.**  Where `said_is_shown` holds of it, and as long as the panel is not full, every
frame that the other client draws has a line for every content the user submitted, in order: a chat under the author's
name, unless that is ambiguous. -/
theorem said_is_drawn (hd : System.Reach (deployment P) System.Any d) {b c : Nat} {author username : Str}
    (ha : P.username b = some author) (hu : P.username c = some username) {s t : Session}
    (hs : (d.world.conns b).handler = .serving s .select)
    (hread : (d.up b).position = (d.clients b).socket.bytes.length) (hset : Settled d c t)
    (hf : t.token ∉ failed d.world.trace) (hb : d.world.barrier = none) (hts : t.token < s.token)
    (hfew : (d.clients c).app.messages.length < messageLimit) {ratatui : Tui.Ratatui} {isAlphanumeric : Char → Bool}
    {overflowChecks : Bool} {frameArea : Rect} {drawing : Tui.Drawing}
    (hr : Tui.render ratatui isAlphanumeric overflowChecks frameArea (d.clients c).app = .ok drawing) :
    ∃ said, List.Forall₂ (fun content (line : Tui.Line) => ∃ now : HhMm,
        line.text = formatChatMessage (trim author) now.text content ∧
        (Tui.Unambiguous (trim author) → line.kind = .chat (trim author) now.text content))
          (d.clients b).submitted said ∧
      said.Sublist drawing.messages.text := by
  obtain ⟨posts, htexts, hsub⟩ := posts_of_submitted hd ha hu hs hread hset hf hb hts
  obtain ⟨log, hlog, hheard, -⟩ := (follows_of_reach (client_of_reach hd hu)).log
  -- the messages of the posts are kept
  have hkept : (posts.map fun post => (⟨post.text, .confirmed⟩ : Tui.ChatMessage)).Sublist
      (d.clients c).app.messages := by
    have hposts : (posts.map fun post => NetworkEvent.message post.text).filterMap NetworkEvent.text? =
        posts.map Post.text := by
      rw [List.filterMap_map]
      exact congrFun List.filterMap_eq_map posts
    have htold := (hsub.filterMap NetworkEvent.text?).map fun text => (⟨text, .confirmed⟩ : Tui.ChatMessage)
    rw [hposts, ← hheard, List.map_map] at htold
    rw [hlog, kept_of_lt (hlog ▸ hfew)]
    exact htold.trans (heard_sublist log)
  -- and each is drawn as a line
  choose line hline using fun message =>
    Tui.chatLine_ok isAlphanumeric message ⟨(d.clients c).app.username⟩
  have hdrawn : drawing.messages.text = (d.clients c).app.messages.map line := by
    have hinj : Function.Injective (Except.ok : Tui.Line → Except Panic Tui.Line) := fun _ _ => Except.ok.inj
    refine hinj.list_map ?_
    rw [← Tui.lines_of_render hr, List.map_map]
    exact List.map_congr_left fun message _ => hline message
  refine ⟨_, ?_, hdrawn ▸ hkept.map line⟩
  rw [List.map_map, List.forall₂_map_right_iff]
  refine htexts.imp fun content post ⟨now, htext⟩ => ⟨now, (Tui.text_of_chatLine (hline _)).trans htext, fun hun => ?_⟩
  have hkind := Tui.kind_of_chatLine (hline ⟨post.text, .confirmed⟩)
  show (line ⟨post.text, .confirmed⟩).kind = _
  rw [htext] at hkind ⊢
  rw [(Tui.kind_chat _ _ _).2 ⟨hun.closeUser, hun.system, hun.systemClosed⟩] at hkind
  exact (Except.ok.inj hkind).symm

theorem said_is_drawn_bob : ∃ (d : Deployment) (drawing : Tui.Drawing) (said : List Tui.Line),
    Tui.render Tui.standard Char.isAlphanum true (terminalArea 80 24) (d.clients 0).app = .ok drawing ∧
    (d.clients 1).submitted = [lit "hi"] ∧
    List.Forall₂ (fun content (line : Tui.Line) => ∃ now : HhMm,
      line.text = formatChatMessage (trim (lit "alice")) now.text content ∧
      (Tui.Unambiguous (trim (lit "alice")) → line.kind = .chat (trim (lit "alice")) now.text content))
        (d.clients 1).submitted said ∧
    said.Sublist drawing.messages.text := by
  obtain ⟨d, hd, ht⟩ := System.exists_of_run (evaluated bobAndAlice)
    (fun d => d.bobHeard && decide ((d.clients 0).app.messages.length < messageLimit) &&
      (Tui.render Tui.standard Char.isAlphanum true (terminalArea 80 24) (d.clients 0).app).toBool)
    (aliceSays ++ bobHears) (by decide +kernel)
  simp only [Bool.and_eq_true, decide_eq_true_eq] at ht
  obtain ⟨⟨hheard, hfew⟩, hok⟩ := ht
  obtain ⟨s, t, hs, hread, hset, hf, hbarrier, hts, hsubmitted⟩ := settled_of_bobHeard hheard
  cases hdrawing : Tui.render Tui.standard Char.isAlphanum true (terminalArea 80 24) (d.clients 0).app with
  | error e =>
    rw [hdrawing] at hok
    cases hok
  | ok drawing =>
    obtain ⟨said, hsaid⟩ :=
      said_is_drawn (reach_of_evaluated hd) (b := 1) (c := 0) rfl rfl hs hread hset hf hbarrier hts hfew hdrawing
    exact ⟨d, drawing, said, hdrawing, hsubmitted, hsaid⟩

/-! ## Who is listed -/

theorem lastPresence_other {frame : Bytes} (h : isPresenceFrame frame = false) (frames : List Bytes) :
    lastPresence (frames ++ [frame]) = lastPresence frames := by
  unfold lastPresence
  rw [List.filter_append, List.filter_cons_of_neg (h ▸ Bool.false_ne_true), List.filter_nil, List.append_nil]

/-- The users a client knows of are those of the last presence it was told of. -/
theorem lastUserList_of_conveys {tr : List Server.Event} {frames : List Bytes} {events : List NetworkEvent}
    (h : List.Forall₂ (Conveys tr) frames events) (users : List Str) :
    lastUserList users events = (lastPresence frames).getD users := by
  induction events using List.reverseRecOn generalizing frames with
  | nil =>
    cases h
    rfl
  | append_singleton events event ih =>
    have hinit := ih (List.forall₂_take_append _ _ _ h)
    obtain ⟨frame, rest, hconveys, hrest, hframe⟩ := List.forall₂_cons_right_iff.1 (List.forall₂_drop_append _ _ _ h)
    cases hrest
    rw [← List.take_append_drop events.length frames, hframe, lastUserList_concat]
    cases hconveys with
    | @live post _ hf =>
      rw [lastPresence_other (hf ▸ isPresenceFrame_of_chatFrame post.encoded)]
      exact hinit
    | replayed _ hf =>
      rw [lastPresence_other (isPresenceFrame_of_chatFrame hf)]
      exact hinit
    | presence hf =>
      rw [lastPresence_concat hf]
      rfl

/-- **All list the same users.**  In a run with room for every message, in which no broadcast of the usernames overtakes
another, and where each that is owed was sent: there is one list, of the usernames there are, which every settled client
draws, and its own name is in it. -/
theorem listed_alike (hd : System.Reach (deployment P) (Guards Orderly) d) (hq : Quiescent d.world) :
    ∃ users, users.Perm (usernames d.world.st) ∧ ∀ c username s, P.username c = some username → Settled d c s →
      trim username ∈ users ∧ (d.clients c).app.connectedUsers = users ∧
      ∀ ratatui isAlphanumeric overflowChecks frameArea drawing,
        Tui.render ratatui isAlphanumeric overflowChecks frameArea (d.clients c).app = .ok drawing →
        drawing.session.text = [lit "users"] :: users.map fun user => [lit "  ", user] := by
  have hw := world_of_guarded hd
  have hany := hd.mono (H := System.Any) fun _ _ _ => trivial
  obtain ⟨users, hperm, hlast⟩ := exists_roster hw hq
  refine ⟨users, hperm, fun c username s hu hset => ?_⟩
  have hs := hset.session hany
  obtain ⟨client, hp, ht, hready⟩ := hset.delivers hany
  obtain ⟨hsound, hr⟩ := sound_of_reach hw
  -- its own name is in the registry
  have hown : trim username ∈ users := by
    obtain ⟨frame, rest, hframes, hname, -⟩ := exists_recorded hany hs
    obtain ⟨rfl, -⟩ := contentsOf_submitted hany hu hframes
    rw [← username_of_handshake hname]
    refine hperm.mem_iff.2 (named_of_spawned hw (by rw [hset.writer]; rfl) ?_)
    exact (fed_of_reach hr).consistent.same.mem_iff.1 (mem_deliveryIds.2 ⟨client, hp, ht⟩)
  -- the last presence it was told of is the roster
  have hlisted : (d.clients c).app.connectedUsers = users := by
    have hfailed : s.token ∉ failed d.world.trace := by
      rw [failed_of_roomy (events_roomy (hw.mono fun _ _ hG => hG.1))]
      exact List.not_mem_nil
    have hmem : .ready s.token ∈ d.world.trace := ht ▸ ((tracked_of_reach hr).ready _ hp).1 hready
    rw [(follows_of_reach (client_of_reach hd hu)).users,
      lastUserList_of_conveys (conveys_of_settled hany hu hset hfailed), addressed, hlast c s hs hmem]
    rfl
  refine ⟨hown, hlisted, fun _ _ _ _ _ hrender => ?_⟩
  rw [Tui.session_of_render hrender (hlisted ▸ List.ne_nil_of_mem hown), hlisted]

/-- The occurrence, where a read finds bytes without errors, is of the runs considered. -/
def guards (n : Nat) (d : Deployment) : Occurrence → Bool
  | .handlerReads c [.data (b :: bs)] => orderly n d.world
    (.handler c (.frame (Receipt.decoded checkAsyncHeader .truncatedProtocolFrame [.data (b :: bs)]).1))
  | .handlerReads .. => false
  | o => (label o).all (orderly n d.world)

theorem guards_sound {n : Nat} (d : Deployment) (o : Occurrence) (h : d.guards n o = true) :
    Guards (fun w l => Orderly w l ∧ l.below n = true) d o := by
  intro l hl
  unfold guards at h
  split at h
  · rename_i c b bs
    have hc : Chunked [.data (b :: bs)] := by simp [Chunked]
    rw [(Receipt.after_decoded decodes_readAsyncFrame hc (d.up c)).1] at h
    cases hl
    exact orderly_sound _ _ h
  · cases h
  · rw [hl, Option.all_some] at h
    exact orderly_sound _ _ h

/-- Both come, and all that was sent to them arrives. -/
def bothHear : List Occurrence :=
  comes 0 bobAddr "bob" 0 ++ comes 1 aliceAddr "alice" 1 ++
  (List.replicate 4 (writes 0)).flatten ++ (List.replicate 3 (writes 1)).flatten ++
  hears 0 (arrives (presenceFrame [lit "bob"])) ++ hears 0 (arrives (chatFrame (trimEnd (joinMessage (lit "bob"))))) ++
  hears 1 (arrives (chatFrame (trimEnd (joinMessage (lit "bob"))))) ++
  [0, 1].flatMap (fun c => hears c (arrives (presenceFrame [lit "alice", lit "bob"])) ++
    hears c (arrives (chatFrame (trimEnd (joinMessage (lit "alice")))))) ++
  .client 0 .turn :: List.replicate 4 (.client 0 .tryRecv) ++ .client 1 .turn :: List.replicate 3 (.client 1 .tryRecv)

theorem listed_alike_both : ∃ d : Deployment, Quiescent d.world ∧ (∃ s, Settled d 0 s) ∧ (∃ s, Settled d 1 s) ∧
    ∃ users, users.Perm (usernames d.world.st) ∧
      ∀ c username s, bobAndAlice.username c = some username → Settled d c s →
        trim username ∈ users ∧ (d.clients c).app.connectedUsers = users ∧
        ∀ ratatui isAlphanumeric overflowChecks frameArea drawing,
          Tui.render ratatui isAlphanumeric overflowChecks frameArea (d.clients c).app = .ok drawing →
          drawing.session.text = [lit "users"] :: users.map fun user => [lit "  ", user] := by
  obtain ⟨d, hd, ht⟩ := System.exists_of_runIf (@guards_sound 2) (evaluated bobAndAlice)
    (fun d => quiet 2 d.world && d.settles 0 && d.settles 1) bothHear (by decide +kernel)
  simp only [Bool.and_eq_true] at ht
  obtain ⟨⟨hquiet, hbob⟩, halice⟩ := ht
  obtain ⟨s, hs, -⟩ := settled_of_settles hbob
  obtain ⟨t, ht, -⟩ := settled_of_settles halice
  have hreach := reach_of_evaluated hd
  have hq := quiescent_of_quiet ((world_of_guarded hreach).mono fun _ _ hG => hG.2) hquiet
  exact ⟨d, hq, ⟨s, hs⟩, ⟨t, ht⟩, listed_alike (hreach.mono fun _ _ hG l hl => (hG l hl).1) hq⟩

end Deployment
end Drocsid
