import Drocsid.Names
import Drocsid.Network
import Drocsid.History
/-!
# Texts — the texts the server encodes, and what a client makes of them

Every message recorded was composed by a session of its own checked name and an accepted content, so its text and its
history entry fit a frame and are not blank (`Composed`); usernames fit one as well.  No encoding the server does fails,
and the client takes each frame for the one event of its text or its usernames (`encodes_of_reach`).  What a replay
sends for a message is what was broadcast unless it is a chat that ends in a line feed, which the history takes off
(`replayed_iff`).
-/
namespace Drocsid

open Text ByteSource Protocol Client

namespace Server

/-- A client that reads the frame goes on, having sent the one event. -/
def Shows (frame : Bytes) (event : NetworkEvent) : Prop := ∀ src rest, Chunked src → stream src = frame ++ rest →
  ∃ f src', readFrame src = (.ok (some f), src') ∧ stream src' = rest ∧ Chunked src' ∧ processFrame f = (true, [event])

theorem shows_of_accepts {kind : FrameType} {payload frame : Bytes} {event : NetworkEvent}
    (henc : encodeFrame kind payload = .ok frame) (h : Accepts ⟨currentProtocolVersion, kind, payload⟩ [event]) :
    Shows frame event := fun _ _ hc hs => by
  obtain ⟨src', hr, hs', hc'⟩ := readsFrames_readFrame.frame hc henc hs
  exact ⟨_, src', hr, hs', hc', processFrame_accepts h⟩

theorem chatFrame_of_short {text : Str} (h : byteLen text ≤ maxFramePayloadBytes) :
    ∃ frame, chatFrame text = .ok frame := by
  rw [← length_toBytes] at h
  exact ⟨_, by rw [chatFrame, encodeFrame_eq_ok.2 ⟨h, rfl⟩]⟩

theorem chatFrame_inj {text text' : Str} {frame : Bytes} (h : chatFrame text = .ok frame)
    (h' : chatFrame text' = .ok frame) : text = text' :=
  toBytes_injective (frame_unique (encodeFrame_of_chatFrame h) (encodeFrame_of_chatFrame h')
    (congrArg (· ++ []) rfl)).2.1

/-- **A chat frame shows its text**, if that is not blank. -/
theorem shows_chat {text : Str} {frame : Bytes} (h : chatFrame text = .ok frame) (hblank : trim text ≠ []) :
    Shows frame (.message text) := shows_of_accepts (encodeFrame_of_chatFrame h)
      (.message (fromUtf8_toBytes text) hblank)

/-- **A presence frame shows its usernames.** -/
theorem shows_presence {users : List Str} {frame : Bytes} (h : presenceFrame users = .ok frame) :
    Shows frame (.userList users) := by
  obtain ⟨payload, henc, hparse⟩ := parsePresence_encode (encodePresence_of_presenceFrame h)
  exact shows_of_accepts henc (.presence hparse)

/-! ## What a session composes -/

/-- A content the message loop accepts. -/
def Accepted (content : Str) : Prop := ∃ frame, acceptChat frame = .ok (some content)

/-- A session composed the message. -/
inductive Composed (post : Post) : Prop
  | join {s} (h : joinPost s = .ok post)
  | leave {s} (h : leavePost s = .ok post)
  | chat {s now content} (hc : Accepted content) (h : chatPost s now content = .ok post)

theorem byteLen_time (t : HhMm) : byteLen t.text = 5 := by
  have hdigits : ∀ n : Fin 60, byteLen (twoDigits n) = 2 := by decide
  have hh := hdigits ⟨t.hour, by omega⟩
  have hm := hdigits t.minute
  simp only [HhMm.text, byteLen_append]
  rw [hh, hm]
  rfl

theorem byteLen_joinText (s : Session) : byteLen (trimEnd (joinMessage s.username)) ≤ maxFramePayloadBytes := by
  have hu := s.username.2.short
  rw [trimEnd_joinMessage, byteLen_append, byteLen_append, show byteLen (lit "@") = 1 from rfl,
    show byteLen (lit " has entered the chat. Say hello!") = 33 by decide]
  unfold maxUsernameBytes at hu
  unfold maxFramePayloadBytes
  omega

theorem byteLen_leaveText (s : Session) : byteLen (trimEnd (leaveMessage s.username)) ≤ maxFramePayloadBytes := by
  have hu := s.username.2.short
  rw [trimEnd_leaveMessage, byteLen_append, show byteLen (lit " has left the chat") = 18 by decide]
  unfold maxUsernameBytes at hu
  unfold maxFramePayloadBytes
  omega

theorem byteLen_chatText (s : Session) (now : HhMm) {content : Str} (h : byteLen content ≤ maxChatMessageBytes) :
    byteLen (formatChatMessage s.username now.text content) ≤ maxFramePayloadBytes := by
  have hu := s.username.2.short
  simp only [formatChatMessage, byteLen_append, byteLen_time, show byteLen (lit "[") = 1 from rfl,
    show byteLen (lit "](") = 2 from rfl,
    show byteLen (lit "): ") = 3 from rfl]
  unfold maxUsernameBytes at hu
  unfold maxChatMessageBytes at h
  unfold maxFramePayloadBytes
  omega

/-- A message whose text fits a frame is encoded. -/
theorem encode_of_short {t : ClientToken} {kind : PostKind} {message text : Str}
    {fits : byteLen (historyEntry message) ≤ byteLen text} (h : byteLen text ≤ maxFramePayloadBytes) :
    ∃ post, Post.encode t kind message text fits = .ok post ∧ post.message = message ∧ post.text = text := by
  obtain ⟨frame, hf⟩ := chatFrame_of_short h
  unfold Post.encode
  split
  · exact ⟨_, rfl, rfl, rfl⟩
  · rename_i e he; rw [hf] at he; cases he

theorem joinPost_ok (s : Session) : ∃ post, joinPost s = .ok post ∧ post.message = joinMessage s.username ∧
    post.text = trimEnd (joinMessage s.username) := encode_of_short (byteLen_joinText s)

theorem leavePost_ok (s : Session) : ∃ post, leavePost s = .ok post ∧ post.message = leaveMessage s.username ∧
    post.text = trimEnd (leaveMessage s.username) := encode_of_short (byteLen_leaveText s)

theorem chatPost_ok (s : Session) (now : HhMm) {content : Str} (h : Accepted content) :
    ∃ post, chatPost s now content = .ok post ∧ post.message = formatChatMessage s.username now.text content ∧
      post.text = formatChatMessage s.username now.text content :=
  encode_of_short (byteLen_chatText s now (h.elim fun _ => byteLen_of_acceptChat))

/-- What a composed message is made of. -/
theorem Composed.texts {post : Post} (h : Composed post) :
    (∃ s : Session, post.kind = .join ∧ post.message = joinMessage s.username ∧
      post.text = trimEnd (joinMessage s.username)) ∨
    (∃ s : Session, post.kind = .leave ∧ post.message = leaveMessage s.username ∧
      post.text = trimEnd (leaveMessage s.username)) ∨
    ∃ (s : Session) (now : HhMm) (content : Str), Accepted content ∧ post.kind = .chat ∧
      post.message = formatChatMessage s.username now.text content ∧ post.text = post.message := by
  cases h with
  | @join s h =>
    obtain ⟨post', hok, hm, ht⟩ := joinPost_ok s
    cases h.symm.trans hok
    exact .inl ⟨s, (joinPost_of h).2, hm, ht⟩
  | @leave s h =>
    obtain ⟨post', hok, hm, ht⟩ := leavePost_ok s
    cases h.symm.trans hok
    exact .inr (.inl ⟨s, (leavePost_of h).2, hm, ht⟩)
  | @chat s now content hc h =>
    obtain ⟨post', hok, hm, ht⟩ := chatPost_ok s now hc
    cases h.symm.trans hok
    exact .inr (.inr ⟨s, now, content, hc, (chatPost_of h).2, hm, ht.trans hm.symm⟩)

/-- A composed message has a character in it that no trimming takes off. -/
theorem Composed.printed {post : Post} (h : Composed post) : ∃ c, isWhitespace c = false ∧ c ∈ post.message ∧
    c ∈ post.text := by
  rcases h.texts with ⟨s, -, hm, ht⟩ | ⟨s, -, hm, ht⟩ | ⟨s, now, content, -, -, hm, ht⟩
  · refine ⟨'@', by decide, ?_, ?_⟩
    · rw [hm]; simp [joinMessage, lit]
    · rw [ht, trimEnd_joinMessage]; simp [lit]
  · refine ⟨'h', by decide, ?_, ?_⟩
    · rw [hm]; simp [leaveMessage, lit]
    · rw [ht, trimEnd_leaveMessage]; simp [lit]
  · refine ⟨'[', by decide, ?_, ?_⟩
    · rw [hm]; simp [formatChatMessage, lit]
    · rw [ht, hm]; simp [formatChatMessage, lit]

/-- **A composed message's broadcast frame shows its text.** -/
theorem Composed.shows {post : Post} (h : Composed post) : Shows post.frame (.message post.text) := by
  obtain ⟨c, hc, -, hmem⟩ := h.printed
  exact shows_chat post.encoded (List.ne_nil_of_mem (mem_trim hmem hc))

/-- **A composed message's history entry is encoded, to a frame that shows it.** -/
theorem Composed.shows_entry {post : Post} (h : Composed post) :
    ∃ frame, chatFrame post.entry = .ok frame ∧ Shows frame (.message post.entry) := by
  have hlen : byteLen post.text ≤ maxFramePayloadBytes := by
    rw [← length_toBytes]
    exact (encodeFrame_eq_ok.1 (encodeFrame_of_chatFrame post.encoded)).1
  obtain ⟨frame, hf⟩ := chatFrame_of_short (post.fits.trans hlen)
  obtain ⟨c, hc, hmem, -⟩ := h.printed
  have hne : c ≠ '\n' := by rintro rfl; cases hc
  exact ⟨frame, hf, shows_chat hf (List.ne_nil_of_mem (mem_trim (mem_trimEndMatches hmem hne) hc))⟩

/-! ## Where the server encodes -/

/-- The message of a call was composed. -/
def Running.Composes : Running → Prop
  | .lockRecord post | .critical (.record post _) | .critical (.deliver post _) => Composed post
  | _ => True

/-- The message of a handler's call was composed, and the content it is about to make one of was accepted. -/
def HandlerPc.Composes : HandlerPc → Prop
  | .serving _ (.calling _ call) => call.Composes
  | .serving _ (.allow content) | .serving _ (.sleep content) => Accepted content
  | _ => True

def WriterPc.Composes : WriterPc → Prop
  | .running _ (.posting call) | .running _ (.presenting call) => call.Composes
  | _ => True

/-- A section under the barrier records the message it has to record. -/
theorem Critical.step_recorded {c c' : Critical} {st st' : ServerState} {rx : List Rx} {events : List Event}
    (h : c.step st rx = some (st', c', events)) {post : Post} (hp : .recorded post ∈ events) :
      ∃ ex, c = .record post ex := by
  cases advances_of_step h with
  | @record post' ex => cases List.mem_singleton.1 hp; exact ⟨ex, rfl⟩
  | unknown | found | unencoded | refused | unreadied => cases hp
  | snapshot | replayed | readied | deliver => cases List.mem_singleton.1 hp
  | @drop a t doomed dropped removed => cases removed <;> simp [removedEvent] at hp

theorem Critical.step_composes {c c' : Critical} {st st' : ServerState} {rx : List Rx} {events : List Event}
    (h : c.step st rx = some (st', c', events)) (hc : (Running.critical c).Composes) :
      (Running.critical c').Composes := by
  cases advances_of_step h with
  | record => exact hc
  | unknown | found | snapshot | unencoded | refused | replayed | readied | unreadied | deliver | drop => trivial

theorem not_recorded_removed {t : ClientToken} {removed : Bool} {post : Post} {tr : List Event}
    (h : .recorded post ∈ removedEvent t removed ++ tr) : .recorded post ∈ tr := by
  cases removed <;> simpa [removedEvent] using h

theorem CallTurn.composes {w w' : World} {me : Task} {a : SocketAddr} {t : ClientToken} {rx : List Rx}
    {call call' : Running} (h : CallTurn w me a t rx call w' call') (hc : call.Composes) :
    call'.Composes ∧ ∀ post, .recorded post ∈ w'.trace → .recorded post ∈ w.trace ∨ Composed post := by
  cases h with
  | lockRecord => exact ⟨hc, fun _ => .inl⟩
  | advance hd hstep =>
    refine ⟨Critical.step_composes hstep hc, fun post hp => ?_⟩
    rcases List.mem_append.1 hp with hp | hp
    · obtain ⟨ex, rfl⟩ := Critical.step_recorded hstep hp
      exact .inr hc
    · exact .inl hp
  | prunes | drops => exact ⟨trivial, fun _ hp => .inl (not_recorded_removed hp)⟩
  | present => exact ⟨trivial, fun _ hp => .inl (by simpa using hp)⟩
  | lockReplay | unlock | prune | taken | unencoded | dropped => exact ⟨trivial, fun _ => .inl⟩

theorem composes_abandon (s : Session) (mode : FinishMode) : (abandon s mode).Composes := by cases mode <;> trivial

theorem Resumes.composes {s : Session} {next : After} {result : Except ServerError Bool} {pc : HandlerPc}
    (h : Resumes s next result pc) : pc.Composes := by
  cases h with
  | presented hj => exact Composed.join hj
  | abandons => exact composes_abandon s _
  | replayed | unencoded | joinDropped | joined | joinPresented | chatDropped | chatted | chatPresented | left
  | leavePresented | failed => trivial

theorem composes_afterRemoval (s : Session) (mode : FinishMode) (removed joined : Bool) :
    (afterRemoval s mode removed joined).Composes := by
  unfold afterRemoval
  split
  · split
    · rename_i hl; exact Composed.leave hl
    · exact composes_abandon s mode
  · trivial

theorem composes_received (s : Session) (result : Except ServerError (Option Frame)) :
    (received s result).Composes := by
  unfold received
  split
  · trivial
  · trivial
  · split
    · trivial
    · trivial
    · rename_i frame _ content hc; exact ⟨frame, hc⟩

theorem HandlerPc.Waits.composes {pc pc' : HandlerPc} (h : pc.Waits pc') (hc : pc.Composes) : pc'.Composes := by
  cases h with
  | resume => exact (resumes_resume _ _ _).composes
  | received => exact composes_received _ _
  | allowed => exact hc
  | slept hp => exact Composed.chat hc hp
  | timeout | refused | named | disconnected | limited | tooLong => trivial

theorem WritePc.Waits.composes {s : Session} {joined : Bool} {pc pc' : WritePc} (h : pc.Waits s joined pc') :
    (WriterPc.running s pc').Composes := by
  cases h with
  | announces _ hl => exact Composed.leave hl
  | gone | written | failed | unencoded | unjoined | posted | presented => trivial

/-- A step records a composed message, or none. -/
theorem Turn.composes {w w' : World} {c : Nat} {l : Label} {conn : Conn} (h : Turn w c l w' conn)
    (hP : (w.conns c).handler.Composes ∧ (w.conns c).writer.Composes) : (conn.handler.Composes ∧ conn.writer.Composes) ∧
      ∀ post, .recorded post ∈ w'.trace → .recorded post ∈ w.trace ∨ Composed post := by
  obtain ⟨hh', hw'⟩ := hP
  cases h with
  | call hh ht =>
    rw [hh] at hh'
    obtain ⟨hc, hrec⟩ := ht.composes hh'
    exact ⟨⟨hc, hw'⟩, hrec⟩
  | writerCall hw hpc ht =>
    rw [hw] at hw'
    cases hpc with
    | posting | presenting =>
      obtain ⟨hc, hrec⟩ := ht.composes hw'
      exact ⟨⟨hh', hc⟩, hrec⟩
  | wait hh hwait => exact ⟨⟨hwait.composes (hh ▸ hh'), hw'⟩, fun _ => .inl⟩
  | writerWait _ hwait => exact ⟨⟨hh', hwait.composes⟩, fun _ => .inl⟩
  | finish => exact ⟨⟨composes_afterRemoval _ _ _ _, hw'⟩, fun _ hp => .inl (not_recorded_removed hp)⟩
  | unregister => exact ⟨⟨trivial, hw'⟩, fun _ hp => .inl (not_recorded_removed hp)⟩
  | remove => exact ⟨⟨hh', by split <;> trivial⟩, fun _ hp => .inl (not_recorded_removed hp)⟩
  | registered => exact ⟨⟨trivial, hw'⟩, fun _ hp => .inl (by simpa using hp)⟩
  | named => exact ⟨⟨trivial, trivial⟩, fun _ hp => .inl (by simpa using hp)⟩
  | accept => exact ⟨⟨trivial, trivial⟩, fun _ => .inl⟩
  | acquired | full | admitted | refused | unregistered | unnamed | storeJoined | dropPermit | dropGlobal =>
    exact ⟨⟨trivial, hw'⟩, fun _ => .inl⟩
  | receive | stop => exact ⟨⟨hh', trivial⟩, fun _ => .inl⟩

theorem composes_of_reach {G : World → Label → Prop} {w : World} (hw : System.Reach server G w) (c : Nat) :
    (w.conns c).handler.Composes ∧ (w.conns c).writer.Composes :=
  forall_conns (P := fun _ conn => conn.handler.Composes ∧ conn.writer.Composes) ⟨trivial, trivial⟩
    (fun _ _ _ _ _ _ _ h hP => (h.composes hP).1) (fun _ _ _ _ _ _ _ _ _ _ _ hP => hP) hw c

/-- **Every message recorded was composed by a session.** -/
theorem composed_of_recorded {G : World → Label → Prop} {w : World} (hw : System.Reach server G w) {post : Post}
    (h : .recorded post ∈ w.trace) : Composed post := by
  refine hw.invariant (I := fun w => ∀ post, .recorded post ∈ w.trace → Composed post) (fun _ hp => by cases hp)
    (fun w l w' hr hI _ hstep post hp => ?_) post h
  cases steps_of_step hstep with
  | reorder => exact hI post hp
  | @turn _ c w' conn h => exact ((h.composes (composes_of_reach hr c)).2 post hp).elim (hI post) id

/-! ## No encoding fails -/

/-- What the server encodes where it is, it encodes to a frame that a client takes for the one event of it. -/
structure Encodes (w : World) : Prop where
  join : ∀ s : Session, ∃ post, joinPost s = .ok post ∧ Shows post.frame (.message post.text)
  leave : ∀ s : Session, ∃ post, leavePost s = .ok post ∧ Shows post.frame (.message post.text)
  chat : ∀ (s : Session) (now : HhMm) (content : Str), Accepted content →
    ∃ post, chatPost s now content = .ok post ∧ Shows post.frame (.message post.text)
  /-- A content on its way to be encoded was accepted. -/
  accepted : ∀ c s content, (w.conns c).handler = .serving s (.allow content) ∨
    (w.conns c).handler = .serving s (.sleep content) → Accepted content
  /-- A message of the history, also one that a replay has still to send. -/
  history : ∀ m, (m ∈ w.st.history.entries ∨ ∃ task a t writer rest, w.held task = some (.replay a t writer rest) ∧
    m ∈ rest) → ∃ frame, chatFrame m = .ok frame ∧ Shows frame (.message m)
  /-- The usernames, and those a broadcast took before. -/
  presence : ∀ users, (users = usernames w.st ∨
    (∃ c s next taken, (w.conns c).handler = .serving s (.calling next (.present users taken))) ∨
      ∃ c s pc goto taken, (w.conns c).writer = .running s pc ∧ pc.Calls (.present users taken) goto) →
    ∃ frame, presenceFrame users = .ok frame ∧ Shows frame (.userList users)

theorem shows_ofRecorded {G : World → Label → Prop} {w : World} (hw : System.Reach server G w) {m : Str}
    (h : OfRecorded w.trace m) : ∃ frame, chatFrame m = .ok frame ∧ Shows frame (.message m) := by
  obtain ⟨post, hp, rfl⟩ := h
  exact (composed_of_recorded hw hp).shows_entry

/-- Usernames that a call took fit a frame. -/
theorem presents_fine {a : SocketAddr} {t : ClientToken} {p : Purpose} {users : List Str} {taken : Nat}
    (hs : (Running.present users taken).Serves a t p) (hf : (Running.present users taken).Fine p) :
    ∃ frame, presenceFrame users = .ok frame := by
  cases hs
  exact presenceFrame_of_fine hf

/-- **No encoding of the server fails**, in any state of any run, and each frame is to a client the one event of what
was encoded. -/
theorem encodes_of_reach {w : World} (hw : System.Reach server System.Any w) : Encodes w where
  join s := by
    obtain ⟨post, hp, -⟩ := joinPost_ok s
    exact ⟨post, hp, (Composed.join hp).shows⟩
  leave s := by
    obtain ⟨post, hp, -⟩ := leavePost_ok s
    exact ⟨post, hp, (Composed.leave hp).shows⟩
  chat s now content hc := by
    obtain ⟨post, hp, -⟩ := chatPost_ok s now hc
    exact ⟨post, hp, (Composed.chat hc hp).shows⟩
  accepted c s content hh := by
    have := (composes_of_reach hw c).1
    rcases hh with hh | hh <;> rw [hh] at this <;> exact this
  history m hm := by
    obtain ⟨hsound, hr⟩ := sound_of_reach hw
    apply shows_ofRecorded hw
    rcases hm with hm | ⟨task, a, t, writer, rest, hheld, hm⟩
    · exact (kept_of_reach hr).entries m hm
    · have hbar : w.shared.barrier = some (.replay a t writer rest) := by
        rw [World.shared, (hsound.holder task).1 (by rw [hheld]; rfl)]
        exact hheld
      exact (kept_of_reach hr).replaying a t writer rest hbar m hm
  presence users hu := by
    have hok : ∃ frame, presenceFrame users = .ok frame := by
      rcases hu with rfl | ⟨c, s, next, taken, hh⟩ | ⟨c, s, pc, goto, taken, hwr, hpc⟩
      · exact presenceFrame_of_fine (show (Running.present (usernames w.st) 0).Fine .presence from usernames_fit hw)
      · have hs := ((sound_of_reach hw).1.bound c).handling
        have hf := (fine_of_reach hw c).1
        rw [hh] at hs hf
        exact presents_fine hs hf
      · have hs := ((sound_of_reach hw).1.bound c).writing
        have hf := (fine_of_reach hw c).2
        rw [hwr] at hs hf
        cases hpc with
        | posting | presenting => exact presents_fine hs hf
    obtain ⟨frame, hf⟩ := hok
    exact ⟨frame, hf, shows_presence hf⟩

/-- Bob joins, and a chat of his is accepted. -/
theorem encodes_of_reach_bob : ∃ w, System.Reach server System.Any w ∧ w.st.history.entries ≠ [] ∧
    usernames w.st = [lit "bob"] ∧ Encodes w := by
  obtain ⟨w, hw, ht⟩ := System.exists_of_run server (fun w => !w.st.history.entries.isEmpty &&
    usernames w.st == [lit "bob"]) (registers 0 bobAddr "bob" ++ replays 0 0 ++ enters 0) (by decide)
  simp only [Bool.and_eq_true, Bool.not_eq_true', List.isEmpty_eq_false_iff, beq_iff_eq] at ht
  exact ⟨w, hw, ht.1, ht.2, encodes_of_reach hw⟩

/-! ## What a late joiner is sent -/

theorem historyEntry_eq_self {s : Str} : historyEntry s = s ↔ s.getLast? ≠ some '\n' := by
  rw [historyEntry, trimEndMatches, List.rdropWhile_eq_self_iff]
  constructor
  · intro h hlast
    obtain ⟨ys, rfl⟩ := List.getLast?_eq_some_iff.1 hlast
    have := h (by simp)
    simp at this
  · intro h hne hlast
    rw [beq_iff_eq] at hlast
    exact h (by rw [List.getLast?_eq_some_getLast hne, hlast])

/-- **The frame replayed for a message is the frame that was broadcast**, unless the message is a chat that ends in a
line feed. -/
theorem replayed_iff {w : World} (hw : System.Reach server System.Any w) {post : Post} (h : .recorded post ∈ w.trace) :
    chatFrame post.entry = .ok post.frame ↔ (post.kind = .chat → post.message.getLast? ≠ some '\n') := by
  have hsame : chatFrame post.entry = .ok post.frame ↔ post.entry = post.text :=
    ⟨fun he => chatFrame_inj he post.encoded, fun he => by rw [he]; exact post.encoded⟩
  rw [hsame, Post.entry]
  rcases (composed_of_recorded hw h).texts with ⟨s, hk, hm, ht⟩ | ⟨s, hk, hm, ht⟩ | ⟨s, now, content, -, hk, -, ht⟩
  · rw [hm, ht, historyEntry_joinMessage, hk]
    exact ⟨fun _ => nofun, fun _ => rfl⟩
  · rw [hm, ht, historyEntry_leaveMessage, hk]
    exact ⟨fun _ => nofun, fun _ => rfl⟩
  · rw [ht, historyEntry_eq_self, hk]
    exact ⟨fun he _ => he, fun he => he rfl⟩

/-- The message recorded last, if that was the last that happened. -/
def newestPost : List Event → Option Post
  | .recorded post :: _ => some post
  | _ => none

theorem mem_of_newestPost {tr : List Event} {post : Post} (h : newestPost tr = some post) : .recorded post ∈ tr := by
  unfold newestPost at h
  split at h
  · cases h
    exact List.mem_cons_self
  · cases h

/-- Bob sends a chat. -/
def bobChats (text : String) : List Label :=
  registers 0 bobAddr "bob" ++ replays 0 0 ++ enters 0 ++ sends 0 text ++ sectionsOf 2 0

theorem replayed_iff_bob : ∃ w post, System.Reach server System.Any w ∧ .recorded post ∈ w.trace ∧ post.kind = .chat ∧
    (chatFrame post.entry = .ok post.frame ↔ (post.kind = .chat → post.message.getLast? ≠ some '\n')) := by
  obtain ⟨w, hw, ht⟩ := System.exists_of_run server (fun w => (newestPost w.trace).any (·.kind == .chat))
    (bobChats "hi") (by decide)
  obtain ⟨post, hpost, hkind⟩ := (Option.any_eq_true _ _).1 ht
  have hmem := mem_of_newestPost hpost
  exact ⟨w, post, hw, hmem, by simpa using hkind, replayed_iff hw hmem⟩

/-- Bob's chat ends in a line feed: whoever joins later is sent it without. -/
theorem replayed_without_lineFeed : ∃ w post, System.Reach server System.Any w ∧ .recorded post ∈ w.trace ∧
    chatFrame post.entry ≠ .ok post.frame := by
  obtain ⟨w, hw, ht⟩ := System.exists_of_run server
    (fun w => (newestPost w.trace).any fun post => (chatFrame post.entry).toOption != some post.frame) (bobChats "hi\n")
      (by decide)
  obtain ⟨post, hpost, hframe⟩ := (Option.any_eq_true _ _).1 ht
  refine ⟨w, post, hw, mem_of_newestPost hpost, fun he => ?_⟩
  rw [he] at hframe
  simp [Except.toOption] at hframe

end Server
end Drocsid
