import Drocsid.Carriage
import Drocsid.Posts
import Drocsid.Notices
/-!
# Posted — whose the messages recorded are, and whom they reach

Every message recorded is one that the session of some connection composed (`signed_of_recorded`).  It is broadcast
once, to all, so what was recorded since a client registered is, in order, among what is addressed to it
(`posted_addressed`), and that is all a session recorded that registered after it (`chatsBy_postsFrom`).
-/
namespace Drocsid

open Text Protocol

namespace Server

/-! ## The chats of a session -/

/-- The chats a session recorded, in order. -/
def chatsBy (t : ClientToken) (tr : List Event) : List Post :=
  (posts tr).filter fun post => post.session == t && post.kind == .chat

theorem posts_append (events tr : List Event) : posts (events ++ tr) = posts tr ++ posts events := by
  induction events with
  | nil => exact (List.append_nil _).symm
  | cons e events ih =>
    cases e with
    | recorded post => rw [List.cons_append, posts, posts, ih, List.append_assoc]
    | registered | named | snapshot | replayed | ready | broadcast | removed => exact ih

theorem mem_posts {post : Post} {tr : List Event} : post ∈ posts tr ↔ .recorded post ∈ tr := by
  induction tr with
  | nil => simp [posts]
  | cons e tr ih =>
    cases e with
    | recorded post' => simp [posts, ih, or_comm]
    | registered | named | snapshot | replayed | ready | broadcast | removed => simp [posts, ih]

/-- A trace that gained no message. -/
theorem posts_of_recordings {events tr : List Event}
    (h : ∀ t kind, recordings t kind (events ++ tr) = recordings t kind tr) : posts (events ++ tr) = posts tr := by
  rw [posts_append]
  suffices hnil : posts events = [] by rw [hnil, List.append_nil]
  refine List.eq_nil_iff_forall_not_mem.2 fun post hp => ?_
  have hcount := h post.session post.kind
  rw [recordings, List.countP_append] at hcount
  have hpos : 0 < events.countP (Event.records post.session post.kind) :=
    List.countP_pos_iff.2 ⟨_, mem_posts.1 hp, by simp [Event.records]⟩
  unfold recordings at hcount
  omega

theorem chatsBy_append (t : ClientToken) (events tr : List Event) :
    chatsBy t (events ++ tr) = chatsBy t tr ++ chatsBy t events := by
  rw [chatsBy, posts_append, List.filter_append]
  rfl

theorem length_chatsBy (t : ClientToken) (tr : List Event) : (chatsBy t tr).length = recordings t .chat tr := by
  induction tr with
  | nil => rfl
  | cons e tr ih =>
    rw [show e :: tr = [e] ++ tr from rfl, chatsBy_append, List.length_append, ih, recordings, recordings,
      List.countP_append, Nat.add_comm]
    congr 1
    cases e with
    | recorded post =>
      rw [chatsBy, ← List.countP_eq_length_filter]
      rfl
    | registered | named | snapshot | replayed | ready | broadcast | removed => rfl

/-- A trace that gained no chat of the session. -/
theorem chatsBy_of_recordings {t : ClientToken} {events tr : List Event}
    (h : recordings t .chat (events ++ tr) = recordings t .chat tr) : chatsBy t (events ++ tr) = chatsBy t tr := by
  have hlen := length_chatsBy t (events ++ tr)
  rw [h, ← length_chatsBy, chatsBy_append, List.length_append] at hlen
  rw [chatsBy_append, List.eq_nil_of_length_eq_zero (l := chatsBy t events) (by omega), List.append_nil]

theorem chatsBy_of_foreign {t : ClientToken} {tr tr' : List Event} (h : Foreign t tr tr') :
    chatsBy t tr' = chatsBy t tr := by
  have hrec := h.recordings .chat
  obtain ⟨events, rfl, -⟩ := h
  exact chatsBy_of_recordings hrec

/-! ## Whose a message is -/

/-- The message that a call is about to record. -/
def Running.message : Running → Option Post
  | .lockRecord post | .critical (.record post _) => some post
  | _ => none

theorem message_eq_none {call : Running} : call.message = none ↔ call.records = false := by
  cases call with
  | lockRecord => constructor <;> intro h <;> cases h
  | critical c =>
    cases c with
    | record => constructor <;> intro h <;> cases h
    | lookup | snapshot | replay | replayed | deliver | drop => exact ⟨fun _ => rfl, fun _ => rfl⟩
  | lockReplay | prune | pruned | present | drop | done => exact ⟨fun _ => rfl, fun _ => rfl⟩

/-- A section of a call records its message, or keeps it. -/
theorem CallTurn.messages {w w' : World} {me : Task} {a : SocketAddr} {t : ClientToken} {rx : List Rx} {p : Purpose}
    {call call' : Running} (h : CallTurn w me a t rx call w' call') (hs : call.Serves a t p) :
    (∃ post, call.message = some post ∧ call'.message = none ∧ p = .post post.kind ∧ post.session = t ∧
      w'.trace = .recorded post :: w.trace) ∨
    (call'.message = call.message ∧ posts w'.trace = posts w.trace) := by
  rcases h.recording hs with ⟨post, rfl, rfl, hp, hsess, htr⟩ | ⟨hrecords, -, hrec⟩
  · exact .inl ⟨post, rfl, rfl, hp, hsess, htr⟩
  · refine .inr ⟨?_, ?_⟩
    · cases hm : call.message with
      | none => exact message_eq_none.2 (hrecords.trans (message_eq_none.1 hm))
      | some post =>
        cases h with
        | lockRecord => exact hm
        | advance _ hc =>
          cases advances_of_step hc with
          | record => cases hrecords
          | unknown | found | snapshot | unencoded | refused | replayed | readied | unreadied | deliver | drop =>
            cases hm
        | unlock hd =>
          rename_i c result
          cases c with
          | record => cases hd
          | lookup | snapshot | replay | replayed | deliver | drop => cases hm
        | lockReplay | prune | prunes | taken | unencoded | present | drops | dropped => cases hm
    · obtain ⟨events, htr, -⟩ := (h.serves hs).2
      rw [htr]
      exact posts_of_recordings fun u kind => htr ▸ hrec u kind

/-- The session composed the message. -/
inductive Signed (s : Session) (post : Post) : Prop
  | join (h : joinPost s = .ok post)
  | leave (h : leavePost s = .ok post)
  | chat {now content} (h : chatPost s now content = .ok post)

theorem Signed.session {s : Session} {post : Post} (h : Signed s post) : post.session = s.token := by
  cases h with
  | join h => exact (joinPost_of h).1
  | leave h => exact (leavePost_of h).1
  | chat h => exact (chatPost_of h).1

theorem texts_of_encode {t : ClientToken} {kind : PostKind} {message text : Str}
    {fits : byteLen (historyEntry message) ≤ byteLen text} {post : Post}
    (h : Post.encode t kind message text fits = .ok post) : post.message = message ∧ post.text = text := by
  unfold Post.encode at h
  split at h
  · cases h
    exact ⟨rfl, rfl⟩
  · cases h

/-- A message whose text is its history entry is kept as it is sent. -/
theorem kept_of_encode {t : ClientToken} {kind : PostKind} {message text : Str}
    {fits : byteLen (historyEntry message) ≤ byteLen text} {post : Post} (hs : historyEntry message = text)
    (h : Post.encode t kind message text fits = .ok post) : post.text = text ∧ post.entry = post.text := by
  obtain ⟨hm, ht⟩ := texts_of_encode h
  exact ⟨ht, by rw [Post.entry, hm, ht, hs]⟩

theorem Signed.joined {s : Session} {post : Post} (h : Signed s post) (hk : post.kind = .join) :
    post.text = trimEnd (joinMessage s.username) ∧ post.entry = post.text := by
  cases h with
  | join h => exact kept_of_encode (historyEntry_joinMessage _) h
  | leave h => cases hk.symm.trans (leavePost_of h).2
  | chat h => cases hk.symm.trans (chatPost_of h).2

theorem Signed.left {s : Session} {post : Post} (h : Signed s post) (hk : post.kind = .leave) :
    post.text = trimEnd (leaveMessage s.username) ∧ post.entry = post.text := by
  cases h with
  | join h => cases hk.symm.trans (joinPost_of h).2
  | leave h => exact kept_of_encode (historyEntry_leaveMessage _) h
  | chat h => cases hk.symm.trans (chatPost_of h).2

/-- The message a handler's call is about to record is its session's. -/
def HandlerPc.Signs : HandlerPc → Prop
  | .serving s (.calling _ call) => ∀ post, call.message = some post → Signed s post
  | _ => True

def WriterPc.Signs : WriterPc → Prop
  | .running s (.posting call) | .running s (.presenting call) => ∀ post, call.message = some post → Signed s post
  | _ => True

theorem signs_lockRecord {s : Session} {post : Post} (h : Signed s post) :
    ∀ post', (Running.lockRecord post).message = some post' → Signed s post' := by
  intro post' he
  cases he
  exact h

theorem signs_abandon (s : Session) (mode : FinishMode) : (abandon s mode).Signs := by cases mode <;> trivial

theorem Resumes.signs {s : Session} {next : After} {result : Except ServerError Bool} {pc : HandlerPc}
    (h : Resumes s next result pc) : pc.Signs := by
  cases h with
  | presented hj => exact signs_lockRecord (.join hj)
  | abandons => exact signs_abandon s _
  | replayed | joinDropped | chatDropped | left => exact nofun
  | unencoded | joined | joinPresented | chatted | chatPresented | leavePresented | failed => trivial

theorem signs_afterRemoval (s : Session) (mode : FinishMode) (removed joined : Bool) :
    (afterRemoval s mode removed joined).Signs := by
  unfold afterRemoval
  split
  · split
    · rename_i hl
      exact signs_lockRecord (.leave hl)
    · exact signs_abandon s mode
  · trivial

theorem signs_received (s : Session) (result : Except ServerError (Option Frame)) : (received s result).Signs := by
  unfold received
  split
  · trivial
  · trivial
  · split <;> trivial

theorem HandlerPc.Waits.signs {pc pc' : HandlerPc} (h : pc.Waits pc') : pc'.Signs := by
  cases h with
  | resume => exact (resumes_resume _ _ _).signs
  | received => exact signs_received _ _
  | slept hp => exact signs_lockRecord (.chat hp)
  | timeout | refused | named | disconnected | limited | allowed | tooLong => trivial

theorem WritePc.Waits.signs {s : Session} {joined : Bool} {pc pc' : WritePc} (h : pc.Waits s joined pc') :
    (WriterPc.running s pc').Signs := by
  cases h with
  | announces _ hl => exact signs_lockRecord (.leave hl)
  | unencoded | unjoined | posted => exact nofun
  | gone | written | failed | presented => trivial

/-- A section of a call for a session: its message is the session's, and so is what it records. -/
theorem CallTurn.signs {w w' : World} {me : Task} {a : SocketAddr} {s : Session} {rx : List Rx} {p : Purpose}
    {call call' : Running} (h : CallTurn w me a s.token rx call w' call') (hs : call.Serves a s.token p)
    (hsign : ∀ post, call.message = some post → Signed s post) :
    (∀ post, call'.message = some post → Signed s post) ∧
      ∀ post, .recorded post ∈ w'.trace → .recorded post ∈ w.trace ∨ Signed s post := by
  rcases h.messages hs with ⟨post, hm, hm', -, -, htr⟩ | ⟨hm, hposts⟩
  · refine ⟨fun post' he => ?_, fun post' hp => ?_⟩
    · rw [hm'] at he
      cases he
    · rw [htr, List.mem_cons] at hp
      rcases hp with hp | hp
      · cases hp
        exact .inr (hsign post hm)
      · exact .inl hp
  · refine ⟨fun post he => hsign post (hm ▸ he), fun post hp => .inl ?_⟩
    rw [← mem_posts, hposts] at hp
    exact mem_posts.1 hp

/-- A step of a connection: its calls' messages are its session's, and so is what it records. -/
theorem Turn.signs {w w' : World} {c : Nat} {l : Label} {conn : Conn} (h : Turn w c l w' conn)
    (hb : (w.conns c).Bound w.trace) (hP : (w.conns c).handler.Signs ∧ (w.conns c).writer.Signs) :
    (conn.handler.Signs ∧ conn.writer.Signs) ∧ ∀ post, .recorded post ∈ w'.trace → .recorded post ∈ w.trace ∨
      ∃ s, conn.handler.session = some s ∧ Signed s post := by
  obtain ⟨hh', hw'⟩ := hP
  cases h with
  | call hh ht =>
    have hserves := hb.handling
    rw [hh] at hh' hserves
    obtain ⟨hsign, hrec⟩ := ht.signs hserves hh'
    exact ⟨⟨hsign, hw'⟩, fun post hp => (hrec post hp).imp_right fun hs => ⟨_, rfl, hs⟩⟩
  | writerCall hwr hpc ht =>
    obtain ⟨hsess, p, -, hserves, -⟩ := hb.calls hwr hpc
    rw [hwr] at hw'
    cases hpc with
    | posting | presenting =>
      obtain ⟨hsign, hrec⟩ := ht.signs hserves hw'
      exact ⟨⟨hh', hsign⟩, fun post hp => (hrec post hp).imp_right fun hs => ⟨_, hsess, hs⟩⟩
  | wait hh hwait => exact ⟨⟨hwait.signs, hw'⟩, fun _ => .inl⟩
  | writerWait _ hwait => exact ⟨⟨hh', hwait.signs⟩, fun _ => .inl⟩
  | finish => exact ⟨⟨signs_afterRemoval _ _ _ _, hw'⟩, fun _ hp => .inl (not_recorded_removed hp)⟩
  | unregister => exact ⟨⟨trivial, hw'⟩, fun _ hp => .inl (not_recorded_removed hp)⟩
  | remove => exact ⟨⟨hh', by split <;> trivial⟩, fun _ hp => .inl (not_recorded_removed hp)⟩
  | registered => exact ⟨⟨trivial, hw'⟩, fun _ hp => .inl (by simpa using hp)⟩
  | named => exact ⟨⟨nofun, trivial⟩, fun _ hp => .inl (by simpa using hp)⟩
  | accept => exact ⟨⟨trivial, trivial⟩, fun _ => .inl⟩
  | acquired | full | admitted | refused | unregistered | unnamed | storeJoined | dropPermit | dropGlobal =>
    exact ⟨⟨trivial, hw'⟩, fun _ => .inl⟩
  | receive | stop => exact ⟨⟨hh', trivial⟩, fun _ => .inl⟩

theorem signs_of_reach {w : World} (hw : System.Reach server System.Any w) (c : Nat) :
    (w.conns c).handler.Signs ∧ (w.conns c).writer.Signs :=
  forall_conns (P := fun _ conn => conn.handler.Signs ∧ conn.writer.Signs) ⟨trivial, trivial⟩
    (fun _ _ c _ _ hr _ ht hP => (ht.signs ((sound_of_reach hr).1.bound c) hP).1)
    (fun _ _ _ _ _ _ _ _ _ _ _ hP => hP) hw c

/-- **Every message recorded is of the session of a connection**, which composed it. -/
theorem signed_of_recorded {w : World} (hw : System.Reach server System.Any w) {post : Post}
    (h : .recorded post ∈ w.trace) : ∃ c s, (w.conns c).handler.session = some s ∧ Signed s post := by
  refine hw.invariant (I := fun w => ∀ post, .recorded post ∈ w.trace →
    ∃ c s, (w.conns c).handler.session = some s ∧ Signed s post) (fun _ hp => by cases hp)
    (fun w l w' hr ih _ hstep post hp => ?_) post h
  cases steps_of_step hstep with
  | reorder => exact ih post hp
  | @turn _ b w' conn ht =>
    rcases (ht.signs ((sound_of_reach hr).1.bound b) (signs_of_reach hr b)).2 post hp with hp | ⟨s, hs, hsign⟩
    · obtain ⟨c, s, hs, hsign⟩ := ih post hp
      refine ⟨c, s, ?_, hsign⟩
      show ((w.after b w' conn).conns c).handler.session = some s
      by_cases hc : c = b
      · subst hc
        rw [World.after_self]
        rcases ht.session with he | ⟨hn, -⟩
        · rw [he, hs]
        · rw [hn] at hs
          cases hs
      · rw [World.after_of_ne _ hc]
        exact hs
    · refine ⟨b, s, ?_, hsign⟩
      show ((w.after b w' conn).conns b).handler.session = some s
      rw [World.after_self]
      exact hs

/-! ## Whom a message reaches -/

/-- The messages recorded since a client registered. -/
def postsFrom (t : ClientToken) : List Event → List Post
  | [] => []
  | .registered t' _ :: tr => if t' = t then [] else postsFrom t tr
  | .recorded post :: tr => postsFrom t tr ++ [post]
  | _ :: tr => postsFrom t tr

theorem postsFrom_append {t : ClientToken} {events : List Event} (h : ∀ a, .registered t a ∉ events) (tr : List Event) :
    postsFrom t (events ++ tr) = postsFrom t tr ++ posts events := by
  induction events with
  | nil => exact (List.append_nil _).symm
  | cons e events ih =>
    have ih := ih fun a ha => h a (List.mem_cons_of_mem _ ha)
    cases e with
    | registered u a =>
      rw [List.cons_append, postsFrom, if_neg fun hu : u = t => h a (hu ▸ List.mem_cons_self)]
      exact ih
    | recorded post => rw [List.cons_append, postsFrom, posts, ih, List.append_assoc]
    | named | snapshot | replayed | ready | broadcast | removed => exact ih

/-- A message is recorded for all. -/
def ToAll (_ : Shared) (l : Section) : Prop := ∀ post ex, l = .lockRecord post ex → ex = none

theorem refines_toAll : System.Refines server System.Any sections ToAll World.shared :=
  server_refines fun w l k _ _ hk => by
    intro post ex he
    subst he
    exact hk

/-- The message recorded and not yet broadcast. -/
def waiting : Option Critical → List Post
  | some (.deliver post _) => [post]
  | _ => []

/-- What was recorded since a client registered is broadcast to all, but for the message about to be. -/
structure Posted (s : Shared) : Prop where
  toAll : ∀ post ex, s.barrier = some (.record post ex) ∨ s.barrier = some (.deliver post ex) → ex = none
  posted : ∀ t a,
    ((postsFrom t s.trace).map Post.frame).Sublist (feed t a s.trace ++ (waiting s.barrier).map Post.frame)

theorem posted_init : Posted sections.init where
  toAll _ _ h := by rcases h with h | h <;> cases h
  posted _ _ := List.nil_sublist _

/-- A section between two places of the barrier where no message waits. -/
theorem Posted.quiet {s s' : Shared} (h : Posted s) (hb : waiting s.barrier = []) (hb' : waiting s'.barrier = [])
    (hr : ∀ post ex, s'.barrier = some (.record post ex) → ex = none)
    (htr : ∀ t a, postsFrom t s'.trace = postsFrom t s.trace ∧ feed t a s'.trace = feed t a s.trace) : Posted s' := by
  refine ⟨fun post ex hx => ?_, fun t a => ?_⟩
  · rcases hx with hx | hx
    · exact hr post ex hx
    · rw [hx] at hb'
      cases hb'
  · have hsub := h.posted t a
    rw [hb] at hsub
    rw [hb', (htr t a).1, (htr t a).2]
    exact hsub

theorem Posted.step {s s' : Shared} {l : Section} (h : Posted s) (hG : ToAll s l) (hm : Moves s l s') : Posted s' := by
  have hremoved : ∀ (u : ClientToken) removed, ∀ t a,
      postsFrom t (removedEvent u removed ++ s.trace) = postsFrom t s.trace ∧
      feed t a (removedEvent u removed ++ s.trace) = feed t a s.trace := by
    intro u removed t a
    cases removed <;> exact ⟨rfl, rfl⟩
  cases hm with
  | @register a u st =>
    refine ⟨h.toAll, fun t b => ?_⟩
    by_cases hu : u = t
    · simp [postsFrom, feed, hu]
    · simp only [postsFrom, feed, if_neg hu]
      exact h.posted t b
  | setUsername => exact ⟨h.toAll, h.posted⟩
  | @remove a u removed =>
    refine ⟨h.toAll, fun t b => ?_⟩
    rw [(hremoved u removed t b).1, (hremoved u removed t b).2]
    exact h.posted t b
  | barrier hbar =>
    have hsame : ∀ t a, postsFrom t s.trace = postsFrom t s.trace ∧ feed t a s.trace = feed t a s.trace :=
      fun _ _ => ⟨rfl, rfl⟩
    cases hbar with
    | lockReplay hb => exact h.quiet (by rw [hb]; rfl) rfl (fun _ _ he => by cases he) hsame
    | lockRecord hb =>
      refine h.quiet (by rw [hb]; rfl) rfl (fun post ex he => ?_) hsame
      cases he
      exact hG _ _ rfl
    | @unlock c hb hd =>
      refine h.quiet ?_ rfl (fun _ _ he => by cases he) hsame
      rw [hb]
      cases c with
      | deliver => cases hd
      | lookup | snapshot | replay | replayed | record | drop => rfl
    | found hb | unknown hb | refused hb => exact h.quiet (by rw [hb]; rfl) rfl (fun _ _ he => by cases he) hsame
  | snapshot hb | replayed hb | readied hb | unreadied hb =>
    exact h.quiet (by rw [hb]; rfl) rfl (fun _ _ he => by cases he) fun _ _ => ⟨rfl, rfl⟩
  | drop hb => exact h.quiet (by rw [hb]; rfl) rfl (fun _ _ he => by cases he) (hremoved _ _)
  | @record post ex rx hb =>
    refine ⟨fun post' ex' hx => ?_, fun t a => ?_⟩
    · rcases hx with hx | hx <;> cases hx
      exact h.toAll _ _ (.inl hb)
    · have hsub := h.posted t a
      rw [hb] at hsub
      simp only [postsFrom, feed, waiting, List.map_append, List.map_nil, List.append_nil] at hsub ⊢
      exact hsub.append_right _
  | @deliver post ex rx hb =>
    obtain rfl := h.toAll _ _ (.inr hb)
    refine ⟨fun post' ex' hx => ?_, fun t a => ?_⟩
    · rcases hx with hx | hx <;> cases hx
    · have hsub := h.posted t a
      rw [hb] at hsub
      simpa [postsFrom, feed, waiting] using hsub
  | @broadcast users ex frame hf =>
    refine ⟨h.toAll, fun t a => (h.posted t a).trans ?_⟩
    simp only [feed]
    split
    · exact List.Sublist.refl _
    · exact (List.sublist_append_left _ _).append_right _
  | tick | reorder => exact ⟨h.toAll, h.posted⟩

theorem posted_of_reach {w : World} (hw : System.Reach server System.Any w) : Posted w.shared :=
  (refines_toAll.reach hw).invariant posted_init fun _ _ _ _ h hG hstep => h.step hG (moves_of_step hstep)

/-- **What was recorded since a client registered** is among what is addressed to it, in order, when no message waits.
-/
theorem posted_addressed {w : World} (hw : System.Reach server System.Any w) (hb : w.barrier = none) (t : ClientToken)
    (a : SocketAddr) : ((postsFrom t w.trace).map Post.frame).Sublist (addressed t a w.trace) := by
  have h := (posted_of_reach hw).posted t a
  rw [show w.shared.barrier = none by rw [World.shared, hb]; rfl, show waiting none = [] from rfl, List.map_nil,
    List.append_nil] at h
  exact h.trans (List.sublist_append_right _ _)

/-- Who registers in a section takes the next token. -/
theorem Moves.registers_next {s s' : Shared} {l : Section} (hm : Moves s l s') :
    (∃ a, s'.trace = .registered s.st.nextToken a :: s.trace) ∨
      ∃ events, s'.trace = events ++ s.trace ∧ ∀ t a, .registered t a ∉ events := by
  cases hm with
  | register hr =>
    obtain ⟨rfl, -⟩ := registerClientWithStatus_ok hr
    exact .inl ⟨_, rfl⟩
  | setUsername | snapshot | replayed | readied | record | deliver | broadcast => exact .inr ⟨[_], rfl, by simp⟩
  | @remove _ _ removed | @drop _ _ _ _ removed => exact .inr ⟨_, rfl, by cases removed <;> simp [removedEvent]⟩
  | barrier | unreadied | tick | reorder => exact .inr ⟨[], rfl, by simp⟩

/-- **A session that registered later** recorded all it recorded since. -/
theorem chatsBy_postsFrom {w : World} (hw : System.Reach server System.Any w) {t u : ClientToken} (htu : t < u) :
    (chatsBy u w.trace).Sublist (postsFrom t w.trace) := by
  refine hw.invariant (I := fun w => ∀ t u, t < u → (chatsBy u w.trace).Sublist (postsFrom t w.trace))
    (fun _ _ _ => List.Sublist.refl _) (fun w l w' hr ih _ hstep t u htu => ?_) t u htu
  obtain ⟨hsound, hrs⟩ := sound_of_reach hr
  rcases (steps_of_step hstep).simulates hsound with he | ⟨k, -, hk⟩
  · rw [show w'.trace = w.trace from congrArg Shared.trace he]
    exact ih t u htu
  · rcases (moves_of_step hk).registers_next with ⟨a, htr⟩ | ⟨events, htr, hnot⟩
    · rw [show w'.trace = _ from htr]
      have hchats : chatsBy u (.registered w.shared.st.nextToken a :: w.trace) = chatsBy u w.trace := rfl
      rw [show w.shared.trace = w.trace from rfl, hchats, postsFrom]
      split
      · rename_i hn
        -- who registers now recorded nothing, nor did any later one
        rw [List.sublist_nil]
        refine List.eq_nil_iff_forall_not_mem.2 fun post hp => ?_
        obtain ⟨hmem, hauthor⟩ := List.mem_filter.1 hp
        simp only [Bool.and_eq_true, beq_iff_eq] at hauthor
        obtain ⟨b, hreg⟩ := registered_of_author hr (mem_posts.1 hmem) (t := u) (congrArg some hauthor.1)
        have hlt := (tracked_of_reach hrs).registered_lt _ _ hreg
        rw [hn] at hlt
        exact Nat.lt_asymm htu hlt
      · exact ih t u htu
    · rw [show w'.trace = _ from htr, show w.shared.trace = w.trace from rfl, chatsBy_append,
        postsFrom_append (hnot t)]
      exact (ih t u htu).append (List.filter_sublist)

end Server
end Drocsid
