import Drocsid.Presence
import Drocsid.Simulation
/-!
# Names — the usernames in the registry, and the presence of them

A name is in the registry because a handler put it there, so it was checked (`Names`); there are no more of them than
connections. A presence frame therefore always encodes, and a call that broadcasts one, or records a message, never
fails (`fine_of_reach`).  Each change of the usernames is a naming or a removal of the trace (`Moves.usernames`).
-/
namespace Drocsid

open Text Protocol

namespace Server

def Names (st : ServerState) : Prop := ∀ p ∈ st.sessions, ∀ u, p.2.username = some u → IsUsername u

/-- What a section makes of the sessions, and what the trace says of it. -/
inductive Renames (st : ServerState) (l : Section) (st' : ServerState) (before after : Nat) : Prop
  | same (hs : st'.sessions.Perm st.sessions) (hc : after = before)
  | registered {a t} (hs : st'.sessions.Perm ((a, ⟨t, none⟩) :: st.sessions)) (hc : after = before)
  | named {a t u} (hl : l = .setUsername a t u) (hs : ∀ p ∈ st'.sessions, p ∈ st.sessions ∨ p.2.username = some u)
      (hc : after = before + 1)
  | removed (hs : ∀ p ∈ st'.sessions, p ∈ st.sessions) (hc : after = before + 1)

theorem mem_sessions_setClientUsername {st st' : ServerState} {a : SocketAddr} {t : ClientToken} {u : Str}
    (h : setClientUsername st a t u = .ok st') : ∀ p ∈ st'.sessions, p ∈ st.sessions ∨ p.2.username = some u := by
  rintro ⟨b, s⟩ hp
  unfold setClientUsername at h
  split at h
  · cases h
  · rename_i l hl
    split at h
    · cases h
      obtain ⟨l', hl', hs⟩ := mem_sessions.1 hp
      simp only [Table.get?_insert] at hl'
      by_cases hb : b = a
      · subst hb
        rw [if_pos rfl] at hl'
        cases hl'
        rcases mem_modifyFirst hs with hs | ⟨s', -, -, rfl⟩
        · exact .inl (mem_sessions.2 ⟨l, hl, hs⟩)
        · exact .inr rfl
      · rw [if_neg hb] at hl'
        exact .inl (mem_sessions.2 ⟨l', hl', hs⟩)
    · cases h

theorem renames_remove {s : Shared} (hcon : Consistent s.st) {l : Section} {a : SocketAddr} {t : ClientToken}
    {removed : Bool} {st : ServerState} (hr : removeClientIfCurrent s.st a t = some (removed, st)) :
    Renames s.st l st (changes s.trace) (changes (removedEvent t removed ++ s.trace)) := by
  obtain ⟨hrem, -⟩ := removeClientIfCurrent_some hcon hr
  cases removed with
  | true => exact .removed (fun p hp => (List.mem_filter.1 (hrem.sessions.mem_iff.1 hp)).1) rfl
  | false =>
    refine .same (hrem.sessions.trans (.of_eq (List.filter_eq_self.2 fun p hp => ?_))) rfl
    have hnot : (a, t) ∉ s.st.sessionIds := fun hid => by simpa using hrem.result.2 hid
    by_cases hk : p.1 = a
    · have : p.2.token ≠ t := fun ht => hnot (mem_sessionIds.2 ⟨p.2, hk ▸ hp, ht⟩)
      simp [this]
    · simp [hk]

@[simp] theorem clients_markClientReady (st : ServerState) (a : SocketAddr) (t : ClientToken) (rx : List Rx) :
    (markClientReady st a t rx).2.clients = st.clients := by
  unfold markClientReady
  split
  · rfl
  · split <;> exact (sessions_writeDelivery _ _ _ _).1

/-- What a section makes of the sessions. -/
theorem Moves.renames {s s' : Shared} {l : Section} (hcon : Consistent s.st) (hm : Moves s l s') :
    Renames s.st l s'.st (changes s.trace) (changes s'.trace) := by
  have hsame : ∀ {st : ServerState} {n : Nat}, st.clients = s.st.clients → n = changes s.trace →
      Renames s.st l st (changes s.trace) n := fun hc hn => .same (.of_eq (by rw [ServerState.sessions, hc]; rfl)) hn
  cases hm with
  | register hr =>
    obtain ⟨-, -, hs, -⟩ := registerClientWithStatus_ok hr
    exact .registered hs rfl
  | setUsername hu => exact .named rfl (mem_sessions_setClientUsername hu) rfl
  | remove hr | drop _ hr => exact renames_remove hcon hr
  | @readied a t w st rx hb hm =>
    have := clients_markClientReady s.st a t rx
    rw [hm] at this
    exact hsame this rfl
  | @unreadied a t w e st rx hb hm =>
    have := clients_markClientReady s.st a t rx
    rw [hm] at this
    exact hsame this rfl
  | reorder hr =>
    unfold Server.reorder at hr
    split at hr
    · rename_i hp
      cases hr
      exact .same (Table.Same.items hp.1) rfl
    · cases hr
  | barrier | snapshot | replayed | record | deliver | broadcast | tick => exact hsame rfl rfl

/-- **The usernames are as they were**, or the trace has one change more. -/
theorem Moves.usernames {s s' : Shared} {l : Section} (hcon : Consistent s.st) (hm : Moves s l s') :
    (usernames s'.st).Perm (usernames s.st) ∧ changes s'.trace = changes s.trace ∨
      changes s'.trace = changes s.trace + 1 := by
  cases hm.renames hcon with
  | same hs hc => exact .inl ⟨hs.filterMap _, hc⟩
  | registered hs hc => exact .inl ⟨(hs.filterMap _).trans (.of_eq rfl), hc⟩
  | named _ _ hc | removed _ hc => exact .inr hc

theorem Moves.names {s s' : Shared} {l : Section} (hcon : Consistent s.st) (hm : Moves s l s')
    (hl : ∀ a t u, l = .setUsername a t u → IsUsername u) (h : Names s.st) : Names s'.st := by
  intro p hp u hu
  cases hm.renames hcon with
  | same hs => exact h p (hs.mem_iff.1 hp) u hu
  | registered hs =>
    rcases List.mem_cons.1 (hs.mem_iff.1 hp) with rfl | hp
    · cases hu
    · exact h p hp u hu
  | named he hs =>
    rcases hs p hp with hp | hn
    · exact h p hp u hu
    · rw [hn] at hu; cases hu; exact hl _ _ _ he
  | removed hs => exact h p (hs p hp) u hu

theorem names_of_reach {G : World → Label → Prop} {w : World} (hw : System.Reach server G w) : Names w.st := by
  have hr : System.Reach sections (fun _ l => ∀ a t u, l = .setUsername a t u → IsUsername u) w.shared :=
    (server_refines fun w l k _ _ hk a t u he => by subst he; exact hk).reach hw
  exact hr.invariant (I := fun s => Names s.st) (fun p hp => by cases hp) fun s l s' hr h hG hstep =>
    (moves_of_step hstep).names (fed_of_reach hr).consistent hG h

theorem usernames_fit {G : World → Label → Prop} {w : World} (hw : System.Reach server G w) :
    (∀ u ∈ usernames w.st, IsUsername u) ∧ (usernames w.st).length ≤ maxConnections := by
  refine ⟨fun u hu => ?_, ?_⟩
  · obtain ⟨p, hp, hpu⟩ := List.mem_filterMap.1 hu
    exact names_of_reach hw p hp u hpu
  · have hcon := (fed_of_reach (sound_of_reach hw).2).consistent
    have hlen : w.st.sessions.length ≤ maxConnections := by
      have := hcon.total_le
      rwa [ServerState.sessionIds, List.length_map] at this
    exact (List.length_filterMap_le _ _).trans hlen

/-! ## Calls that do not fail -/

/-- A call that presents has usernames that encode; one that presents or posts does not fail. -/
def Running.Fine : Purpose → Running → Prop
  | .presence, .present users _ => (∀ u ∈ users, IsUsername u) ∧ users.length ≤ maxConnections
  | .replay, _ => True
  | _, .done (.error _) => False
  | _, _ => True

def HandlerPc.Fine : HandlerPc → Prop
  | .serving _ (.calling next call) => call.Fine next.purpose
  | _ => True

def WriterPc.Fine : WriterPc → Prop
  | .running _ (.posting call) => call.Fine (.post .leave)
  | .running _ (.presenting call) => call.Fine .presence
  | _ => True

theorem Running.Fine.first {call : Running} (h : call.isFirst = true) (p : Purpose) : call.Fine p := by
  cases call with
  | lockRecord | prune => cases p <;> trivial
  | lockReplay | critical | pruned | present | drop | done => cases h

theorem HandlerPc.Begins.fine {a : SocketAddr} {pc : HandlerPc} (h : pc.Begins a) : pc.Fine := by
  unfold HandlerPc.Fine
  split
  · exact .first h.2 _
  · trivial

/-- Names that were checked, no more than the connections, encode. -/
theorem presenceFrame_of_fine {users : List Str} {taken : Nat} (h : (Running.present users taken).Fine .presence) :
    ∃ frame, presenceFrame users = .ok frame := by
  obtain ⟨frame, hf⟩ := encodePresence_of_usernames h.1 h.2
  exact ⟨frame, by rw [presenceFrame, hf]⟩

theorem CallTurn.fine {G : World → Label → Prop} {w w' : World} (hw : System.Reach server G w) {me : Task}
    {a : SocketAddr} {t : ClientToken} {rx : List Rx} {p : Purpose} {call call' : Running}
    (h : CallTurn w me a t rx call w' call') (hs : call.Serves a t p) (hf : call.Fine p) : call'.Fine p := by
  cases h with
  | lockReplay | lockRecord | advance => cases p <;> trivial
  | unlock hd =>
    cases hs with
    | critical hs =>
      cases hs with
      | replayed => trivial
      | @drop kind doomed dropped =>
        cases doomed with
        | nil => cases hd; trivial
        | cons => cases hd
      | lookup | snapshot | replay | record | deliver => cases hd
  | prune | prunes | present | drops | dropped => cases p <;> trivial
  | taken => cases hs; exact usernames_fit hw
  | unencoded he =>
    cases hs
    obtain ⟨frame, hok⟩ := presenceFrame_of_fine hf
    rw [he] at hok
    cases hok

/-- **No presence or message fails.** -/
theorem fine_of_reach {G : World → Label → Prop} {w : World} (hw : System.Reach server G w) (c : Nat) :
    (w.conns c).handler.Fine ∧ (w.conns c).writer.Fine := by
  refine forall_conns (P := fun _ conn => conn.handler.Fine ∧ conn.writer.Fine) ⟨trivial, trivial⟩
    (fun w l c w' conn hr _ h hP => ?_) (fun _ _ _ _ _ _ _ _ _ _ _ hP => hP) hw c
  have hb := (sound_of_reach hr).1.bound c
  refine ⟨?_, ?_⟩
  · cases h with
    | call hh ht =>
      have hs := hb.handling
      have hf := hP.1
      rw [hh] at hs hf
      exact ht.fine hr hs hf
    | finish => exact (begins_afterRemoval (w.conns c).addr _ _ _ _).fine
    | wait _ hw => exact (hw.begins (w.conns c).addr).fine
    | receive | remove | writerCall | writerWait | stop => exact hP.1
    | accept | acquired | full | admitted | refused | registered | unregistered | named | unnamed | unregister
    | storeJoined | dropPermit | dropGlobal => trivial
  · cases h with
    | remove => split <;> trivial
    | writerCall hw hpc ht =>
      have hs := hb.writing
      have hf := hP.2
      rw [hw] at hs hf
      cases hpc with
      | posting | presenting => exact ht.fine hr hs hf
    | writerWait _ hw => cases hw <;> trivial
    | accept | named | receive | stop => trivial
    | acquired | full | admitted | refused | registered | unregistered | unnamed | unregister | call | storeJoined
    | finish | wait | dropPermit | dropGlobal => exact hP.2

end Server
end Drocsid
