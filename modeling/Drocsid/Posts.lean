import Drocsid.Replay
import Drocsid.Simulation
/-!
# Posts — what the server puts on a client's channel of the messages it records

A message is recorded and delivered in two sections.  A client that registered before the delivery and whose history is
read after the recording gets it from both (`posted_twice`); where no delivery finds such a client, each message is put
on a channel once (`each_post_once`).
-/
namespace Drocsid

open Text Protocol

namespace Server

/-- A recorded message is delivered when every registered client's history has been read. -/
def DeliversAfterReplays (w : World) (l : Label) : Prop := ∀ task, l.task = some task → ∀ post ex,
  w.held task = some (.deliver post ex) → ∀ p ∈ w.st.delivering, p.2.token ∈ snapshots w.trace

theorem refines_sections : System.Refines server DeliversAfterReplays sections PostsAfterReplays World.shared :=
  server_refines fun w l k _ hG hk => by
    refine ⟨fun post ex he => by subst he; exact hk, fun post ex rx hb he => ?_⟩
    subst he
    obtain ⟨task, hl, hbar⟩ := hk
    apply hG task hl post ex
    rw [World.shared, hbar] at hb
    exact hb

/-- **Each message once.**  In a run whose messages are delivered when every registered client's history has been read,
a client that became ready has on its channel, of chat frames, the history retained when its replay began, and then each
message recorded since until it was removed, in order and once. -/
theorem each_post_once {w : World} (hw : System.Reach server DeliversAfterReplays w) {t : ClientToken}
    (ht : .ready t ∈ w.trace) : EachPostOnce w.shared t := eachPostOnce_of_reach (refines_sections.reach hw) ht

/-! ## Two clients -/

def deliversAfterReplays (w : World) (l : Label) : Bool :=
  match l.task.bind w.held with
  | some (.deliver _ _) => w.st.delivering.all fun p => decide (p.2.token ∈ snapshots w.trace)
  | _ => true

theorem deliversAfterReplays_sound (w : World) (l : Label) (h : deliversAfterReplays w l = true) :
    DeliversAfterReplays w l := by
  intro task hl post ex hheld p hp
  rw [deliversAfterReplays, hl, Option.bind_some, hheld] at h
  simpa using List.all_eq_true.1 h p hp

/-- Bob joins, and then Alice. -/
theorem each_post_once_alice : ∃ w, System.Reach server DeliversAfterReplays w ∧
    (chats (w.st.channels 1).sent).length = 2 ∧ EachPostOnce w.shared 1 := by
  obtain ⟨w, hw, ht⟩ := System.exists_of_runIf deliversAfterReplays_sound server
    (fun w => decide (.ready 1 ∈ w.trace) && (chats (w.st.channels 1).sent).length == 2)
    (registers 0 bobAddr "bob" ++ replays 0 0 ++ enters 0 ++ registers 1 aliceAddr "alice" ++ replays 1 1 ++ enters 1)
    (by decide)
  simp only [Bool.and_eq_true, decide_eq_true_eq, beq_iff_eq] at ht
  exact ⟨w, hw, ht.2, each_post_once hw ht.1⟩

/-- Bob registers, Alice joins, and then Bob's history is replayed: Alice's join is on Bob's channel twice. -/
theorem posted_twice : ∃ w, System.Reach server System.Any w ∧ .ready 0 ∈ w.trace ∧ (posts w.trace).length = 1 ∧
    (∃ frame, chats (w.st.channels 0).sent = [frame, frame]) ∧ ¬ EachPostOnce w.shared 0 := by
  obtain ⟨w, hw, ht⟩ := System.exists_of_run server
    (fun w => decide (.ready 0 ∈ w.trace) && (posts w.trace).length == 1 &&
      (chats (w.st.channels 0).sent == (posts w.trace ++ posts w.trace).map (·.frame)) &&
      (postsBefore 0 w.trace).length == 1 && (postsSince 0 w.trace).isEmpty)
    (registers 0 bobAddr "bob" ++ registers 1 aliceAddr "alice" ++ replays 1 0 ++ enters 1 ++ replays 0 1) (by decide)
  simp only [Bool.and_eq_true, decide_eq_true_eq, beq_iff_eq, List.isEmpty_iff] at ht
  obtain ⟨⟨⟨⟨hready, hposts⟩, hchats⟩, hbefore⟩, hsince⟩ := ht
  obtain ⟨post, hpost⟩ := List.length_eq_one_iff.1 hposts
  rw [hpost] at hchats
  refine ⟨w, hw, hready, hposts, ⟨post.frame, hchats⟩, ?_⟩
  rintro ⟨history, missing, hhist, heq, -, -⟩
  have hlen := congrArg List.length heq
  have hlen' := congrArg List.length hhist
  rw [show chats (w.shared.st.channels 0).sent = _ from hchats, show postsSince 0 w.shared.trace = _ from hsince]
    at hlen
  simp only [retained, show postsBefore 0 w.shared.trace = postsBefore 0 w.trace from rfl, List.length_map,
    List.length_drop, hbefore, List.length_append, List.length_cons, List.length_nil, List.map_nil] at hlen hlen'
  omega

end Server
end Drocsid
