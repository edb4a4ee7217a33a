import Drocsid.Downstream
import Drocsid.Posted
/-!
# Upstream — from the frames a handler reads to the messages recorded

A handler takes its session's name from the first frame it reads, and records a chat for each content it accepts of the
others, in order and each once; of these at most the last is missing, in hand or lost where the handler ends (`Heeds`).
So the chats recorded of one of our clients are what its user submitted at the presses of Enter, under its name
(`recorded_in_order`).
-/
namespace Drocsid

open Text ByteSource Protocol Server Client

namespace Server

/-! ## What a handler has in hand -/

/-- The contents of the chat frames among these that the message loop accepts. -/
def contentsOf (frames : List Frame) : List Str := frames.filterMap fun frame => (acceptChat frame).toOption.join

/-- The message is a chat of the session: the content, under its name and some time of the day. -/
structure Says (s : Session) (content : Str) (post : Post) : Prop where
  session : post.session = s.token
  kind    : post.kind = .chat
  texts   : ∃ now : HhMm, post.message = formatChatMessage s.username now.text content ∧ post.text = post.message

theorem says_chatPost {s : Session} {now : HhMm} {content : Str} {post : Post} (h : chatPost s now content = .ok post) :
    Says s content post := by
  obtain ⟨hm, ht⟩ := texts_of_encode h
  exact ⟨(chatPost_of h).1, (chatPost_of h).2, now, hm, ht.trans hm.symm⟩

/-- What is accepted and not recorded: the content in hand, and where the handler ends perhaps nothing. -/
def HandlerPc.InHand : HandlerPc → List Str → Prop
  | .serving _ (.allow content), hand | .serving _ (.sleep content), hand => hand = [content]
  | .serving s (.calling .chat call), hand =>
    match call.message with
    | some post => ∃ content, hand = [content] ∧ Says s content post
    | none => hand = []
  | .serving _ (.finish _), hand | .serving _ (.calling (.leave _) _), hand
  | .serving _ (.calling (.leavePresence _) _), hand => hand.length ≤ 1
  | .dropPermit _, hand | .dropGlobal _, hand | .returned _, hand => hand.length ≤ 1
  | _, hand => hand = []

/-- What a handler read before it had a session. -/
def HandlerPc.Greets : HandlerPc → List Frame → Prop
  | .register username, frames => ∃ frame, frames = [frame] ∧ handshakeUsername (.ok (some frame)) = .ok username.1
  | .dropPermit _, frames | .dropGlobal _, frames | .returned _, frames => frames.length ≤ 1
  | _, frames => frames = []

/-- What a handler makes of the frames it read. -/
inductive HandlerPc.Heeds (tr : List Event) (frames : List Frame) (pc : HandlerPc) : Prop
  | greeted (hs : pc.session = none) (h : pc.Greets frames)
  | served {s : Session} {frame : Frame} {rest : List Frame} {done hand : List Str} (hs : pc.session = some s)
      (hf : frames = frame :: rest) (hu : handshakeUsername (.ok (some frame)) = .ok s.username.1)
      (hc : contentsOf rest = done ++ hand) (hd : List.Forall₂ (Says s) done (chatsBy s.token tr)) (hh : pc.InHand hand)

theorem HandlerPc.InHand.length {pc : HandlerPc} {hand : List Str} (h : pc.InHand hand) : hand.length ≤ 1 := by
  unfold HandlerPc.InHand at h
  split at h
  · rw [h]; rfl
  · rw [h]; rfl
  · split at h
    · obtain ⟨content, rfl, -⟩ := h
      rfl
    · rw [h]; exact Nat.zero_le 1
  all_goals first | exact h | (rw [h]; exact Nat.zero_le 1)

/-- The handler goes on with what it had in hand. -/
theorem HandlerPc.Heeds.goes {tr tr' : List Event} {frames : List Frame} {pc pc' : HandlerPc} {s : Session}
    (h : pc.Heeds tr frames) (hs : pc.session = some s) (hs' : pc'.session = some s)
    (htr : chatsBy s.token tr' = chatsBy s.token tr) (hh : ∀ hand, pc.InHand hand → pc'.InHand hand) :
    pc'.Heeds tr' frames := by
  cases h with
  | greeted hn =>
    rw [hn] at hs
    cases hs
  | served hs₁ hf hu hc hd hh₁ =>
    cases hs.symm.trans hs₁
    exact .served hs' hf hu hc (by rw [htr]; exact hd) (hh _ hh₁)

/-- Where a handler waits to read, it goes on from what is no read. -/
theorem goes_of_step {w w' : World} {c : Nat} {input : Input} (h : server.step w (.handler c input) = some w')
    (hl : (Label.handler c input).transports = false) :
    ((w.conns c).handler = .handshake → (w'.conns c).handler = .dropPermit none) ∧
    ∀ s, (w.conns c).handler = .serving s .select → (w'.conns c).handler = .serving s (.finish .normal) := by
  replace h : w.handlerStep c input = some w' := h
  constructor
  · intro hh
    simp only [World.handlerStep, hh] at h
    cases input with
    | frame => cases hl
    | timeout =>
      cases h
      simp [World.goto]
    | go | disconnected | allowed | time | rx | written => cases h
  · intro s hh
    simp only [World.handlerStep, hh] at h
    cases input with
    | frame => cases hl
    | disconnected =>
      rw [World.serveStep] at h
      split at h
      · cases h
        simp [World.goto]
      · cases h
    | go | timeout | allowed | time | rx | written => cases h

/-! ## A step of a handler -/

/-- What is in hand where a call returned is in hand where the handler goes, or is the last it had. -/
theorem Resumes.inHand {s : Session} {next : After} {result : Except ServerError Bool} {pc : HandlerPc}
    (h : Resumes s next result pc) {hand : List Str}
    (hh : (HandlerPc.serving s (.calling next (.done result))).InHand hand) : pc.InHand hand := by
  cases h with
  | unencoded | failed => exact hh.length
  | @abandons _ mode _ hn => rcases hn with rfl | rfl <;> cases mode <;> exact hh
  | replayed | presented | joinDropped | joined | joinPresented | chatDropped | chatted | chatPresented | left
  | leavePresented => exact hh

theorem inHand_afterRemoval {s : Session} {mode : FinishMode} {removed joined : Bool} {hand : List Str}
    (hh : hand.length ≤ 1) : (afterRemoval s mode removed joined).InHand hand := by
  unfold afterRemoval
  split
  · split
    · exact hh
    · cases mode <;> exact hh
  · exact hh

theorem HandlerPc.Heeds.greets {tr : List Event} {frames : List Frame} {pc : HandlerPc} (h : pc.Heeds tr frames)
    (hs : pc.session = none) : pc.Greets frames := by
  cases h with
  | greeted _ h => exact h
  | served hs' =>
    rw [hs] at hs'
    cases hs'

theorem HandlerPc.Greets.length {frames : List Frame} {pc : HandlerPc} (h : pc.Greets frames) : frames.length ≤ 1 := by
  unfold HandlerPc.Greets at h
  split at h
  · obtain ⟨frame, rfl, -⟩ := h
    exact Nat.le_refl 1
  · exact h
  · exact h
  · exact h
  · rw [h]
    exact Nat.zero_le 1

/-- A section of the handler's call records the message it has in hand, or nothing of it. -/
theorem HandlerPc.Heeds.call {w w' : World} {c : Nat} {s : Session} {next : After} {rx : List Rx} {call call' : Running}
    {frames : List Frame} (hb : (w.conns c).Bound w.trace) (hh : (w.conns c).handler = .serving s (.calling next call))
    (ht : CallTurn w (.handler c) (w.conns c).addr s.token rx call w' call')
    (h : (w.conns c).handler.Heeds w.trace frames) :
    (HandlerPc.serving s (.calling next call')).Heeds w'.trace frames := by
  have hserves := hb.handling
  rw [hh] at hserves h
  rcases ht.messages hserves with ⟨post, hm, hm', hp, hsess, htr⟩ | ⟨hm, hsame⟩
  · have hposts : chatsBy s.token w'.trace = chatsBy s.token w.trace ++ if post.kind = .chat then [post] else [] := by
      rw [htr, show Event.recorded post :: w.trace = [.recorded post] ++ w.trace from rfl, chatsBy_append]
      simp [chatsBy, posts, hsess, List.filter_cons]
    have hother : next ≠ .chat → (HandlerPc.serving s (.calling next call')).Heeds w'.trace frames := by
      intro hne
      refine h.goes rfl rfl ?_ fun hand hhand => ?_
      · rw [hposts, if_neg, List.append_nil]
        intro hk
        rw [hk] at hp
        cases next <;> first | exact hne rfl | cases hp
      · cases next <;> first | exact hhand | exact absurd rfl hne
    cases next with
    | chat =>
      have hk : post.kind = .chat := (Purpose.post.inj hp).symm
      rw [if_pos hk] at hposts
      cases h with
      | greeted hs => cases hs
      | @served _ frame rest done hand hs hf hu hc hd hhand =>
        cases hs
        replace hhand : ∃ content, hand = [content] ∧ Says s content post := by
          simpa only [HandlerPc.InHand, hm] using hhand
        obtain ⟨content, rfl, hsays⟩ := hhand
        have hdone : contentsOf rest = (done ++ [content]) ++ [] := by rw [hc, List.append_nil]
        refine .served rfl hf hu hdone ?_ (by simp [HandlerPc.InHand, hm'])
        rw [hposts]
        exact List.rel_append hd (.cons hsays .nil)
    | history | presence | join | joinPresence | chatPresence | leave | leavePresence =>
      exact hother fun he => by cases he
  · refine h.goes rfl rfl (congrArg (List.filter _) hsame) fun hand hhand => ?_
    cases next with
    | chat =>
      simp only [HandlerPc.InHand] at hhand ⊢
      rw [hm]
      exact hhand
    | history | presence | join | joinPresence | chatPresence | leave | leavePresence => exact hhand

/-- A handler that goes on has in hand what it had, or ends. -/
theorem HandlerPc.Waits.heeds {w w' : World} {c : Nat} {input : Input} {pc pc' : HandlerPc} {frames : List Frame}
    (hw : pc.Waits pc') (hl : (Label.handler c input).transports = false)
    (hstep : server.step w (.handler c input) = some w') (hpc : (w.conns c).handler = pc)
    (hpc' : (w'.conns c).handler = pc') (h : pc.Heeds w.trace frames) : pc'.Heeds w.trace frames := by
  obtain ⟨hhandshake, hselect⟩ := goes_of_step hstep hl
  have hsession := hw.same.1
  have hsame : ∀ {s}, pc.session = some s → (∀ hand, pc.InHand hand → pc'.InHand hand) → pc'.Heeds w.trace frames :=
    fun hs hh => h.goes hs (hsession.trans hs) rfl hh
  cases hw with
  | timeout | refused =>
    exact .greeted rfl (show frames.length ≤ 1 by rw [show frames = [] from h.greets rfl]; exact Nat.zero_le 1)
  | named =>
    have := hpc'.symm.trans (hhandshake hpc)
    cases this
  | received =>
    have he := hpc'.symm.trans (hselect _ hpc)
    rw [he] at hsame ⊢
    refine hsame rfl fun hand hh => ?_
    rw [show hand = [] from hh]
    exact Nat.zero_le 1
  | resume => exact hsame rfl fun hand hh => (resumes_resume _ _ _).inHand hh
  | disconnected | limited | tooLong => exact hsame rfl fun hand hh => hh.length
  | allowed => exact hsame rfl fun hand hh => hh
  | @slept s content now post hpost => exact hsame rfl fun hand hh => ⟨content, hh, says_chatPost hpost⟩

/-- A step of a connection's handler or writer that is no read. -/
theorem Turn.heeds {w w' : World} {c : Nat} {l : Label} {conn : Conn} {frames : List Frame}
    (hr : System.Reach server System.Any w) (hl : l.transports = false)
    (hstep : server.step w l = some (w.after c w' conn)) (ht : Turn w c l w' conn)
    (h : (w.conns c).handler.Heeds w.trace frames) : conn.handler.Heeds w'.trace frames := by
  obtain ⟨hsound, hrs⟩ := sound_of_reach hr
  have hb := hsound.bound c
  have hremoved : ∀ (t u : ClientToken) removed, chatsBy t (removedEvent u removed ++ w.trace) = chatsBy t w.trace :=
    fun t u removed => chatsBy_of_recordings (recordings_removed t u .chat removed w.trace)
  cases ht with
  | accept hh | acquired hh | full hh | admitted hh | refused hh =>
    rw [hh] at h
    exact .greeted rfl (h.greets rfl)
  | @registered input username token st hh hreg =>
    rw [hh] at h
    obtain ⟨frame, rfl, hu⟩ := h.greets rfl
    have hchats : chatsBy token (.registered token (w.conns c).addr :: w.trace) = [] := by
      obtain ⟨rfl, -⟩ := registerClientWithStatus_ok hreg
      refine List.eq_nil_of_length_eq_zero ?_
      rw [length_chatsBy]
      exact recordings_fresh hr .chat
    have hnone : contentsOf [] = [] ++ [] := rfl
    exact .served rfl rfl hu hnone (by rw [hchats]; exact .nil) rfl
  | unregistered hh =>
    rw [hh] at h
    exact .greeted rfl (h.greets rfl).length
  | named hh =>
    rw [hh] at h
    exact h.goes rfl rfl rfl fun hand hhand => hhand
  | unnamed hh =>
    rw [hh] at h
    exact h.goes rfl rfl rfl fun hand hhand => hhand
  | unregister hh =>
    rw [hh] at h
    exact h.goes rfl rfl (hremoved _ _ _) fun hand hhand => hhand.length
  | call hh hcall => exact h.call hb hh hcall
  | storeJoined hh =>
    rw [hh] at h
    exact h.goes rfl rfl rfl fun hand hhand => hhand
  | finish hh =>
    rw [hh] at h
    exact h.goes rfl (session_afterRemoval _ _ _ _).1 (hremoved _ _ _) fun hand hhand => inHand_afterRemoval hhand
  | wait hh hwait => exact hwait.heeds hl hstep hh (by rw [World.after_self]) (hh ▸ h)
  | @dropPermit input s _ hh | @dropGlobal input s hh =>
    rw [hh] at h
    cases s with
    | none => exact .greeted rfl (h.greets rfl)
    | some s => exact h.goes rfl rfl rfl fun hand hhand => hhand
  | receive | writerWait | stop => exact h
  | remove =>
    cases hs : (w.conns c).handler.session with
    | none => exact .greeted hs (h.greets hs)
    | some s => exact h.goes hs hs (hremoved _ _ _) fun hand hhand => hhand
  | @writerCall s rx pc call w' call' goto hwr hpc hcall =>
    obtain ⟨hs, -⟩ := hb.calls hwr hpc
    have hserves := hb.writing
    rw [hwr] at hserves
    refine h.goes hs hs ?_ fun hand hhand => hhand
    have hnone : ∀ p, p ≠ .post .chat → call.Serves (w.conns c).addr s.token p →
        chatsBy s.token w'.trace = chatsBy s.token w.trace := by
      intro p hp hsv
      rcases hcall.messages hsv with ⟨post, -, -, hpost, -, htr⟩ | ⟨-, hsame⟩
      · rw [htr, show Event.recorded post :: w.trace = [.recorded post] ++ w.trace from rfl, chatsBy_append]
        have hk : post.kind ≠ .chat := fun hk => hp (hpost.trans (by rw [hk]))
        simp [chatsBy, posts, hk]
      · exact congrArg (List.filter _) hsame
    cases hpc with
    | posting => exact hnone (.post .leave) (fun he => by cases he) hserves
    | presenting => exact hnone .presence (fun he => by cases he) hserves

/-- A step of another connection. -/
theorem HandlerPc.Heeds.foreign {tr tr' : List Event} {frames : List Frame} {pc : HandlerPc} (h : pc.Heeds tr frames)
    (hf : ∀ s, pc.session = some s → Foreign s.token tr tr') : pc.Heeds tr' frames := by
  cases hs : pc.session with
  | none => exact .greeted hs (h.greets hs)
  | some s => exact h.goes hs hs (chatsBy_of_foreign (hf s hs)) fun hand hh => hh

/-- The frames read, after a read. -/
def heardBy (frames : List Frame) : Except ServerError (Option Frame) → List Frame
  | .ok (some frame) => frames ++ [frame]
  | _ => frames

theorem exists_frame_of_handshake {result : Except ServerError (Option Frame)} {username : Str}
    (h : handshakeUsername result = .ok username) : ∃ frame, result = .ok (some frame) := by
  unfold handshakeUsername at h
  split at h
  · cases h
  · cases h
  · cases h
  · exact ⟨_, rfl⟩

/-- **A read**: the handshake names the session, and a chat frame's content is in hand if it is accepted. -/
theorem HandlerPc.Reads.heeds {tr : List Event} {frames : List Frame} {pc pc' : HandlerPc}
    {result : Except ServerError (Option Frame)} (hread : pc.Reads result pc') (h : pc.Heeds tr frames) :
    pc'.Heeds tr (heardBy frames result) := by
  cases hread with
  | named hu =>
    obtain rfl : frames = [] := h.greets rfl
    obtain ⟨frame, rfl⟩ := exists_frame_of_handshake hu
    exact .greeted rfl ⟨frame, rfl, hu⟩
  | unnamed =>
    obtain rfl : frames = [] := h.greets rfl
    match result with
    | .ok (some frame) => exact .greeted rfl (Nat.le_refl 1)
    | .ok none | .error _ => exact .greeted rfl (Nat.zero_le 1)
  | @received s =>
    cases h with
    | greeted hs => cases hs
    | @served s' frame rest done hand hs hf hu hc hd hh =>
      cases hs
      obtain rfl : hand = [] := hh
      rw [List.append_nil] at hc
      match result with
      | .error _ | .ok none =>
        have hdone : contentsOf rest = done ++ [] := by rw [hc, List.append_nil]
        exact .served rfl hf hu hdone hd (Nat.zero_le 1)
      | .ok (some last) =>
        have hcontents : contentsOf (rest ++ [last]) = done ++ (acceptChat last).toOption.join.toList := by
          rw [contentsOf, List.filterMap_append, ← contentsOf, hc, List.filterMap_cons]
          cases (acceptChat last).toOption.join <;> rfl
        have hframes : heardBy frames (.ok (some last)) = frame :: (rest ++ [last]) := by
          rw [heardBy, hf, List.cons_append]
        rw [hframes]
        unfold Server.received
        dsimp only
        split
        · rename_i ha
          rw [ha] at hcontents
          exact .served rfl rfl hu hcontents hd (Nat.zero_le 1)
        · rename_i ha
          rw [ha] at hcontents
          exact .served rfl rfl hu hcontents hd rfl
        · rename_i content ha
          rw [ha] at hcontents
          exact .served rfl rfl hu hcontents hd rfl

/-- A write of a writer. -/
theorem writes_of_step {w w' : World} {c : Nat} {ok : Bool} {s : Session}
    (h : server.step w (.writer c (.written ok)) = some w') (hw : (w.conns c).writer = .running s .write) :
    ∃ pc, w' = w.gotoWriter c pc := by
  simp only [server, hw] at h
  cases h
  exact ⟨_, rfl⟩

end Server

namespace Deployment

variable {P : Peers} {d d' : Deployment}

theorem frames_after {r : Receipt} {src : Source} {read : Except ServerError (Option Frame) × Source} :
    (r.after src read).frames = heardBy r.frames read.1 := by
  rcases read with ⟨result, src'⟩
  match result with
  | .error _ | .ok none | .ok (some _) => rfl

/-- **What every handler makes of the frames it read**, in any run. -/
theorem heeds_of_reach (hd : System.Reach (deployment P) System.Any d) (c : Nat) :
    (d.world.conns c).handler.Heeds d.world.trace (d.up c).frames := by
  refine hd.invariant (I := fun d => ∀ c, (d.world.conns c).handler.Heeds d.world.trace (d.up c).frames)
    (fun _ => .greeted rfl rfl) (fun d o d' hr ih _ hstep c => ?_) c
  have hw := world_of_reach hr
  obtain ⟨hsound, hrs⟩ := sound_of_reach hw
  cases happens_of_step hstep with
  | server hl h =>
    cases steps_of_step h with
    | reorder => exact ih c
    | @turn _ b w' conn ht =>
      show ((d.world.after b w' conn).conns c).handler.Heeds w'.trace (d.up c).frames
      by_cases hc : c = b
      · subst hc
        rw [World.after_self]
        exact ht.heeds hw hl h (ih c)
      · rw [World.after_of_ne _ hc]
        exact (ih c).foreign fun s hs => ht.foreign hsound (tracked_of_reach hrs) hc hs
  | @handlerReads b src world ha h =>
    obtain ⟨pc, hread, rfl⟩ := reads_of_step h
    by_cases hc : c = b
    · subst hc
      simp only [World.goto, Function.update_self, frames_after]
      exact hread.heeds (ih c)
    · simp only [World.goto, Function.update_of_ne hc]
      exact ih c
  | @writerWrites b s world outcome hwr h =>
    obtain ⟨pc, rfl⟩ := writes_of_step h hwr
    by_cases hc : c = b
    · subst hc
      simp only [World.gotoWriter, Function.update_self]
      exact ih c
    · simp only [World.gotoWriter, Function.update_of_ne hc]
      exact ih c
  | client | clientReads => exact ih c

/-- The chats recorded for a session are those of the accepted contents it was sent, but for the last at most. -/
structure Recorded (d : Deployment) (c : Nat) (s : Session) (contents : List Str) : Prop where
  said : ∃ done hand, contents = done ++ hand ∧ List.Forall₂ (Says s) done (chatsBy s.token d.world.trace) ∧
    hand.length ≤ 1
  /-- Where the handler waits for the next, none is missing. -/
  all : (d.world.conns c).handler = .serving s .select →
    List.Forall₂ (Says s) contents (chatsBy s.token d.world.trace)

/-- A session's name is that of the first frame its handler read, and its chats are of the others. -/
theorem exists_recorded (hd : System.Reach (deployment P) System.Any d) {c : Nat} {s : Session}
    (hs : (d.world.conns c).handler.session = some s) : ∃ frame rest, (d.up c).frames = frame :: rest ∧
      handshakeUsername (.ok (some frame)) = .ok s.username.1 ∧ Recorded d c s (contentsOf rest) := by
  cases heeds_of_reach hd c with
  | greeted hn =>
    rw [hn] at hs
    cases hs
  | @served s' frame rest done hand hs' hf hu hc hd hh =>
    cases hs.symm.trans hs'
    refine ⟨frame, rest, hf, hu, ⟨done, hand, hc, hd, hh.length⟩, fun hsel => ?_⟩
    rw [hsel] at hh
    rw [hc, show hand = [] from hh, List.append_nil]
    exact hd

/-! ## Our clients -/

theorem username_of_handshake {username u : Str} (h : handshakeUsername (.ok (some (handshakeOf username))) = .ok u) :
    u = trim username := by
  unfold handshakeUsername handshakeOf at h
  simp only [ne_eq, not_true_eq_false, if_false, fromUtf8_toBytes] at h
  split at h
  · cases h
  · split at h
    · cases h
    · split at h
      · cases h
      · exact (Except.ok.inj h).symm

theorem ne_nil_of_encodes {frames : List Frame} {whole : List Bytes} (h : List.Forall₂ Client.Encodes frames whole) :
    ∀ m ∈ whole, m ≠ [] := by
  induction h with
  | nil => exact nofun
  | cons henc _ ih =>
    intro m hm
    rcases List.mem_cons.1 hm with rfl | hm
    · exact ne_nil_of_encodeFrame henc
    · exact ih m hm

/-- The first of the frames written whole, if their bytes are all that was written, are all. -/
theorem eq_of_encodeAll {frames frames' : List Frame} {whole : List Bytes} {part : Bytes}
    (hw : List.Forall₂ Client.Encodes frames whole) (hp : frames' <+: frames)
    (h : encodeAll frames' = .ok (whole.flatten ++ part)) : frames' = frames := by
  obtain ⟨k, rfl⟩ : ∃ k, frames' = frames.take k := ⟨_, List.prefix_iff_eq_take.1 hp⟩
  have htake := encodeAll_of_forall₂ (List.forall₂_take k hw)
  rw [h, Except.ok.injEq] at htake
  have hall := eq_of_flatten_eq part (List.take_prefix k whole) (ne_nil_of_encodes hw) htake.symm
  exact List.take_of_length_le (hw.length_eq.trans_le (List.take_eq_self_iff whole |>.1 hall))

theorem contentsOf_chatOf {contents : List Str} (h : ∀ content ∈ contents, IsContent content) :
    contentsOf (contents.map chatOf) = contents := by
  induction contents with
  | nil => rfl
  | cons content contents ih =>
    rw [List.map_cons, contentsOf, List.filterMap_cons, acceptChat_chatOf (h content List.mem_cons_self)]
    exact congrArg (content :: ·) (ih fun c hc => h c (List.mem_cons_of_mem _ hc))

/-- What a handler read of our client: its handshake, and the first of the contents submitted there. -/
theorem contentsOf_submitted (hd : System.Reach (deployment P) System.Any d) {c : Nat} {username : Str}
    (hu : P.username c = some username) {frame : Frame} {rest : List Frame}
    (hframes : (d.up c).frames = frame :: rest) :
    frame = handshakeOf username ∧ contentsOf rest <+: (d.clients c).submitted ∧
      ((d.up c).position = (d.clients c).socket.bytes.length → contentsOf rest = (d.clients c).submitted) := by
  have hup := (wired_of_reach hd).up c (by rw [hu]; rfl)
  obtain ⟨-, -, -, ⟨frames, hspeaks, hwhole⟩, part, hbytes, hpart, -⟩ := outgoing_of_reach (client_of_reach hd hu)
  have hpre : (d.up c).frames <+: frames := by
    refine prefix_of_delivers hspeaks.version (encodeAll_of_forall₂ hwhole) hpart ?_
    rw [← hbytes]
    exact hup.delivers
  have hall : (d.up c).position = (d.clients c).socket.bytes.length → (d.up c).frames = frames := by
    intro hread
    have hencoded := hup.encoded
    rw [hread, List.take_length, hbytes] at hencoded
    exact eq_of_encodeAll hwhole hpre hencoded
  rw [hframes] at hpre hall
  generalize (d.clients c).submitted = contents at hspeaks ⊢
  cases hspeaks with
  | silent => cases List.prefix_nil.1 hpre
  | speaks hcontents =>
    rw [spoken, List.cons_prefix_cons] at hpre
    obtain ⟨rfl, hrest⟩ := hpre
    obtain ⟨contents', hpre', rfl⟩ := List.prefix_map_iff.1 hrest
    have hheard := contentsOf_chatOf fun content hm => hcontents content (hpre'.subset hm)
    refine ⟨rfl, by rwa [hheard], fun hread => ?_⟩
    rw [(List.cons.inj (hall hread)).2, contentsOf_chatOf hcontents]

/-- **What is recorded for a session**, whoever is at the other end: its name is that of the first frame its handler
read, and its chats are the accepted contents of the others, in order and each once; at most the last is missing.  Of
one of our clients these are the first of what its user submitted, under its name, and all of it once the server has
read all that the client wrote. -/
theorem recorded_in_order (hd : System.Reach (deployment P) System.Any d) {c : Nat} {s : Session}
    (hs : (d.world.conns c).handler.session = some s) :
    ∃ frame rest, (d.up c).frames = frame :: rest ∧ handshakeUsername (.ok (some frame)) = .ok s.username.1 ∧
      Recorded d c s (contentsOf rest) ∧ ∀ username, P.username c = some username → s.username.1 = trim username ∧
        contentsOf rest <+: (d.clients c).submitted ∧
        ((d.up c).position = (d.clients c).socket.bytes.length → contentsOf rest = (d.clients c).submitted) := by
  obtain ⟨frame, rest, hframes, hname, hrecorded⟩ := exists_recorded hd hs
  refine ⟨frame, rest, hframes, hname, hrecorded, fun username hu => ?_⟩
  obtain ⟨rfl, hsubmitted⟩ := contentsOf_submitted hd hu hframes
  exact ⟨username_of_handshake hname, hsubmitted⟩

/-- Our client submits "hi", which its handler reads and records. -/
def submitsHi (c : Nat) : List Occurrence :=
  (presses (.char 'h') ++ presses (.char 'i') ++ presses .enter).map (.client c) ++
  [.handlerReads c (arrives (encodeFrame .chat (toBytes (lit "hi")))), .server (.handler c (.allowed true)),
    .server (.handler c (.time ⟨Fin.last 23, Fin.last 59⟩))] ++
  (sectionsOf 4 c).map .server ++ [.server (.handler c .go)]

theorem recorded_in_order_alice : ∃ (d : Deployment) (s : Session), (chatsBy s.token d.world.trace).length = 1 ∧
    (d.clients 0).submitted = [lit "hi"] ∧
    ∃ frame rest, (d.up 0).frames = frame :: rest ∧ handshakeUsername (.ok (some frame)) = .ok s.username.1 ∧
      Recorded d 0 s (contentsOf rest) ∧ ∀ username, aliceAlone.username 0 = some username →
        s.username.1 = trim username ∧ contentsOf rest <+: (d.clients 0).submitted ∧
        ((d.up 0).position = (d.clients 0).socket.bytes.length → contentsOf rest = (d.clients 0).submitted) := by
  obtain ⟨d, hd, ht⟩ := System.exists_of_run (evaluated aliceAlone)
    (fun d => ((d.world.conns 0).handler.session.any fun s => (chatsBy s.token d.world.trace).length == 1) &&
      (d.clients 0).submitted == [lit "hi"])
    (comes 0 aliceAddr "alice" 0 ++ submitsHi 0) (by decide +kernel)
  obtain ⟨hchat, hsubmitted⟩ := Bool.and_eq_true_iff.1 ht
  obtain ⟨s, hs, hlen⟩ := (Option.any_eq_true _ _).1 hchat
  exact ⟨d, s, by simpa using hlen, by simpa using hsubmitted, recorded_in_order (reach_of_evaluated hd) hs⟩

end Deployment
end Drocsid
