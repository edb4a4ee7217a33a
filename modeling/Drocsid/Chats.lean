import Drocsid.Notices
/-!
# Chats — the chats of a session that left

A handler that waits out the simulated latency, or for the replay barrier, does not look again whether its session is
still there. Its writer may remove the session and record the leave meanwhile, and the chat follows
(`chat_after_leave`).  Where a chat is recorded of a session still in the registry, none follows its leave
(`no_chat_after_leave`): until the chat is delivered the handler has the barrier, which recording a leave takes.
-/
namespace Drocsid

open Text Protocol

namespace Server

/-- The event records or broadcasts a message of the session, of that kind. -/
def Event.posts (t : ClientToken) (kind : PostKind) : Event → Bool
  | .recorded post | .broadcast _ _ _ (some post) => post.session == t && post.kind == kind
  | _ => false

theorem Event.posts_of_records {t : ClientToken} {kind : PostKind} {e : Event} (h : e.records t kind = true) :
    e.posts t kind = true := by
  cases e with
  | recorded => exact h
  | registered | named | snapshot | replayed | ready | broadcast | removed => cases h

/-- No chat of a session is recorded or broadcast after its leave was recorded. -/
def NoChatAfterLeave (tr : List Event) : Prop :=
  Throughout (fun e tr => ∀ t, e.posts t .chat = true → recordings t .leave tr = 0) tr

/-- A chat is recorded of a session in the client registry. -/
def ChatsOfMembers (w : World) (l : Label) : Prop := ∀ task, l.task = some task →
    ∀ post ex, w.held task = some (.record post ex) →
  post.kind = .chat → ∃ a, (a, post.session) ∈ w.st.sessionIds

/-- A chat is recorded of a session that recorded no leave. -/
def ChatsBeforeLeaves (s : Shared) (k : Section) : Prop := ∀ post ex rx, s.barrier = some (.record post ex) →
    k = .advance rx →
  post.kind = .chat → recordings post.session .leave s.trace = 0

/-- So far no chat followed a leave, nor does the one about to be delivered. -/
structure Silent (s : Shared) : Prop where
  delivering : ∀ post ex, s.barrier = some (.deliver post ex) → post.kind = .chat →
    recordings post.session .leave s.trace = 0
  silent : NoChatAfterLeave s.trace

/-- A section that posts nothing. -/
theorem Silent.frame {s s' : Shared} (h : Silent s) (events : List Event) (htr : s'.trace = events ++ s.trace)
    (hev : ∀ e ∈ events, ∀ t kind, e.posts t kind = false)
    (hb : ∀ post ex, s'.barrier = some (.deliver post ex) → s.barrier = some (.deliver post ex)) : Silent s' := by
  refine ⟨fun post ex hpost hk => ?_, ?_⟩
  · rw [htr, recordings_append fun e he => Bool.eq_false_iff.2 fun hr => ?_]
    · exact h.delivering post ex (hb post ex hpost) hk
    · have := Event.posts_of_records hr
      rw [hev e he] at this
      cases this
  · rw [htr]
    exact h.silent.append fun e he tr t hp => by rw [hev e he] at hp; cases hp

theorem posts_removedEvent {t : ClientToken} {removed : Bool} : ∀ e ∈ removedEvent t removed, ∀ u kind,
    e.posts u kind = false := by
  intro e he u kind
  cases removed with
  | false => cases he
  | true => cases List.mem_singleton.1 he; rfl

theorem Silent.step {s s' : Shared} {k : Section} (h : Silent s) (hk : ChatsBeforeLeaves s k) (hm : Moves s k s') :
    Silent s' := by
  have hone : ∀ {e : Event}, (∀ t kind, e.posts t kind = false) → ∀ e' ∈ [e], ∀ t kind, e'.posts t kind = false :=
    fun he e' hm => List.mem_singleton.1 hm ▸ he
  cases hm with
  | register => exact h.frame [_] rfl (hone fun _ _ => rfl) fun _ _ => id
  | setUsername => exact h.frame [_] rfl (hone fun _ _ => rfl) fun _ _ => id
  | remove => exact h.frame _ rfl posts_removedEvent fun _ _ => id
  | barrier hb => exact h.frame [] rfl nofun (by cases hb <;> exact nofun)
  | snapshot hb => exact h.frame [_] rfl (hone fun _ _ => rfl) nofun
  | replayed hb => exact h.frame [_] rfl (hone fun _ _ => rfl) nofun
  | readied hb => exact h.frame [_] rfl (hone fun _ _ => rfl) nofun
  | unreadied hb => exact h.frame [] rfl nofun nofun
  | @record post ex rx hb =>
    have hnone := hk post ex rx hb rfl
    refine ⟨fun post' ex' hb' hchat => ?_, fun t ht => ?_, h.silent⟩
    · cases hb'
      have hne : post.kind ≠ .leave := by rw [hchat]; exact nofun
      rw [recordings_recorded rfl, if_neg hne]
      exact hnone hchat
    · simp only [Event.posts, Bool.and_eq_true, beq_iff_eq] at ht
      obtain ⟨rfl, hchat⟩ := ht
      exact hnone hchat
  | @deliver post ex rx hb =>
    refine ⟨nofun, fun t ht => ?_, h.silent⟩
    simp only [Event.posts, Bool.and_eq_true, beq_iff_eq] at ht
    obtain ⟨rfl, hchat⟩ := ht
    exact h.delivering post ex hb hchat
  | drop hb => exact h.frame _ rfl posts_removedEvent nofun
  | broadcast => exact h.frame [_] rfl (hone fun _ _ => rfl) fun _ _ => id
  | tick => exact h.frame [] rfl nofun fun _ _ => id
  | reorder => exact h.frame [] rfl nofun fun _ _ => id

theorem silent_init : Silent sections.init where
  delivering _ _ h := by cases h
  silent := trivial

theorem silent_of_reach {s : Shared} (hs : System.Reach sections ChatsBeforeLeaves s) : Silent s :=
  hs.invariant (I := Silent) silent_init fun _ _ _ _ h hk hstep => h.step hk (moves_of_step hstep)

/-- A session in the registry recorded no leave. -/
theorem recordings_leave_of_mem {G : World → Label → Prop} {w : World} (hw : System.Reach server G w) {a : SocketAddr}
    {t : ClientToken} (h : (a, t) ∈ w.st.sessionIds) : recordings t .leave w.trace = 0 := by
  obtain ⟨hreg, hrem⟩ := ((tracked_of_reach (sound_of_reach hw).2).live a t).1 h
  obtain ⟨c, s, hs, rfl, -⟩ := exists_conn hw hreg
  have := ((announced_of_reach hw c).2 s hs).once
  rw [if_neg (show .removed s.token ∉ w.trace from hrem)] at this
  omega

theorem refines_chatsBeforeLeaves : System.Refines server ChatsOfMembers sections ChatsBeforeLeaves World.shared :=
  server_refines fun w l k hr hG hk post ex rx hb he hchat => by
    subst he
    obtain ⟨task, hl, hbar⟩ := hk
    rw [World.shared, hbar] at hb
    obtain ⟨a, ha⟩ := hG task hl post ex hb hchat
    exact recordings_leave_of_mem hr ha

/-- **No chat after the leave.**  In a run whose chats are recorded of sessions in the registry, none is recorded or
broadcast of a session that recorded its leave. -/
theorem no_chat_after_leave {w : World} (hw : System.Reach server ChatsOfMembers w) : NoChatAfterLeave w.trace :=
  (silent_of_reach (refines_chatsBeforeLeaves.reach hw)).silent

/-! ## A chat in flight -/

def chatsOfMembers (w : World) (l : Label) : Bool :=
  match l.task.bind w.held with
  | some (.record post _) => post.kind != .chat || w.st.sessionIds.any (·.2 == post.session)
  | _ => true

theorem chatsOfMembers_sound (w : World) (l : Label) (h : chatsOfMembers w l = true) : ChatsOfMembers w l := by
  intro task hl post ex hheld hchat
  rw [chatsOfMembers, hl, Option.bind_some, hheld] at h
  simp only [hchat, bne_self_eq_false, Bool.false_or, List.any_eq_true, beq_iff_eq] at h
  obtain ⟨⟨a, t⟩, hp, rfl⟩ := h
  exact ⟨a, hp⟩

/-- Bob joins, chats and leaves. -/
theorem no_chat_after_leave_bob : ∃ w, System.Reach server ChatsOfMembers w ∧ recordings 0 .chat w.trace = 1 ∧
    recordings 0 .leave w.trace = 1 ∧ NoChatAfterLeave w.trace := by
  obtain ⟨w, hw, ht⟩ := System.exists_of_runIf chatsOfMembers_sound server
    (fun w => recordings 0 .chat w.trace == 1 && recordings 0 .leave w.trace == 1)
    (registers 0 bobAddr "bob" ++ replays 0 0 ++ enters 0 ++ sends 0 "hi" ++ sectionsOf 4 0 ++ [.handler 0 .go] ++
      leaves 0)
    (by decide)
  simp only [Bool.and_eq_true, beq_iff_eq] at ht
  exact ⟨w, hw, ht.1, ht.2, no_chat_after_leave hw⟩

/-- The newest event is a chat of a session that has left. -/
def chatsLate (t : ClientToken) : List Event → Bool
  | .recorded post :: tr => post.session == t && post.kind == .chat && recordings t .leave tr == 1
  | _ => false

/-- While Bob's chat waits out the latency, his writer fails to write, removes him and records his leave. -/
theorem chat_after_leave : ∃ w, System.Reach server System.Any w ∧ ¬ NoChatAfterLeave w.trace := by
  obtain ⟨w, hw, ht⟩ := System.exists_of_run server (fun w => chatsLate 0 w.trace)
    (registers 0 bobAddr "bob" ++ replays 0 0 ++ enters 0 ++ sends 0 "hi" ++
      [.writer 0 .go, .writer 0 (.written false), .writer 0 .go, .writer 0 .go] ++
        List.replicate 4 (.writer 0 (.rx [])) ++
      sectionsOf 2 0) (by decide)
  refine ⟨w, hw, fun h => ?_⟩
  unfold chatsLate at ht
  split at ht
  · rename_i post tr htr
    rw [htr] at h
    simp only [Bool.and_eq_true, beq_iff_eq] at ht
    obtain ⟨⟨hs, hk⟩, hl⟩ := ht
    have := h.1 0 (by simp [Event.posts, hs, hk])
    omega
  · cases ht

end Server
end Drocsid
