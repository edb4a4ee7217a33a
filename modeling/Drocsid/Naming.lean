import Drocsid.Names
/-!
# Naming — the name of each session in the registry

A handler names its session before it spawns the writer.  From then on the session is in the registry under its name, as
long as it is there (`named_of_spawned`): what others register, name or remove leaves it as it is.
-/
namespace Drocsid

open Text Protocol

namespace Server

/-! ## What a section leaves of the sessions -/

/-- No session is new, and those that stay are as they were. -/
structure Leaves (st st' : ServerState) : Prop where
  ids : ∀ id ∈ st'.sessionIds, id ∈ st.sessionIds
  same : ∀ p ∈ st.sessions, (p.1, p.2.token) ∈ st'.sessionIds → p ∈ st'.sessions

theorem Leaves.of_perm {st st' : ServerState} (h : st'.sessions.Perm st.sessions) : Leaves st st' :=
  ⟨fun _ hid => (h.map _).mem_iff.1 hid, fun _ hp _ => h.mem_iff.2 hp⟩

theorem Leaves.of_clients {st st' : ServerState} (h : st'.clients = st.clients) : Leaves st st' :=
  .of_perm (.of_eq (by rw [ServerState.sessions, h]; rfl))

theorem leaves_remove {st st' : ServerState} (h : Consistent st) {a : SocketAddr} {t : ClientToken} {removed : Bool}
    (hr : removeClientIfCurrent st a t = some (removed, st')) : Leaves st st' ∧ (a, t) ∉ st'.sessionIds := by
  have hrem := (removeClientIfCurrent_some h hr).1
  have hids : ∀ {id}, id ∈ st'.sessionIds → id ∈ st.sessionIds ∧ id ≠ (a, t) := fun hid => by
    obtain ⟨hmem, hne⟩ := List.mem_filter.1 (hrem.sessionIds.mem_iff.1 hid)
    exact ⟨hmem, by simpa using hne⟩
  refine ⟨⟨fun id hid => (hids hid).1, fun p hp hid => hrem.sessions.mem_iff.2 (List.mem_filter.2 ⟨hp, ?_⟩)⟩,
    fun hid => (hids hid).2 rfl⟩
  have hne := (hids hid).2
  rw [Ne, Prod.mk.injEq, not_and_or] at hne
  simpa using hne

/-- **A call names and registers nobody.** -/
theorem CallTurn.leaves {w w' : World} {me : Task} {a : SocketAddr} {t : ClientToken} {rx : List Rx}
    {call call' : Running} (h : CallTurn w me a t rx call w' call') (hcon : Consistent w.st) : Leaves w.st w'.st := by
  cases h with
  | prunes hr | drops hr => exact (leaves_remove hcon hr).1
  | advance hd hc =>
    cases advances_of_step hc with
    | drop hr => exact (leaves_remove hcon hr).1
    | @readied b u writer st hm =>
      have hsame := clients_markClientReady w.st b u rx
      rw [hm] at hsame
      exact .of_clients hsame
    | @unreadied b u writer e st hm =>
      have hsame := clients_markClientReady w.st b u rx
      rw [hm] at hsame
      exact .of_clients hsame
    | unknown | found | snapshot | unencoded | refused | replayed | record | deliver => exact .of_clients rfl
  | lockReplay | lockRecord | unlock | prune | taken | unencoded | present | dropped => exact .of_clients rfl

theorem mem_modifyFirst_of_ne {α : Type*} {p : α → Bool} {f : α → α} {b : α} (hb : p b = false) :
    ∀ {l : List α}, b ∈ l → b ∈ modifyFirst p f l
  | a :: l, h => by
    unfold modifyFirst
    split
    · rename_i ha
      refine List.mem_cons_of_mem _ ((List.mem_cons.1 h).resolve_left ?_)
      rintro rfl
      rw [hb] at ha
      cases ha
    · rcases List.mem_cons.1 h with rfl | h
      · exact List.mem_cons_self
      · exact List.mem_cons_of_mem _ (mem_modifyFirst_of_ne hb h)

theorem exists_mem_modifyFirst {α : Type*} {p : α → Bool} {f : α → α} :
    ∀ {l : List α}, l.any p = true → ∃ a ∈ l, p a = true ∧ f a ∈ modifyFirst p f l
  | a :: l, h => by
    unfold modifyFirst
    split
    · rename_i ha
      exact ⟨a, List.mem_cons_self, ha, List.mem_cons_self⟩
    · rename_i ha
      rw [List.any_cons, Bool.eq_false_iff.2 ha, Bool.false_or] at h
      obtain ⟨b, hb, hpb, hf⟩ := exists_mem_modifyFirst h
      exact ⟨b, List.mem_cons_of_mem _ hb, hpb, List.mem_cons_of_mem _ hf⟩

/-- The session named has the name, and the others stay as they are. -/
theorem sessions_setClientUsername {st st' : ServerState} {a : SocketAddr} {t : ClientToken} {u : Str}
    (h : setClientUsername st a t u = .ok st') : (a, ⟨t, some u⟩) ∈ st'.sessions ∧
      ∀ p ∈ st.sessions, p.2.token ≠ t → p ∈ st'.sessions := by
  unfold setClientUsername at h
  split at h
  · cases h
  · rename_i l hl
    split at h
    · rename_i hany
      cases h
      constructor
      · obtain ⟨s, -, hs, hmem⟩ := exists_mem_modifyFirst
          (f := fun client : ClientSession => { client with username := some u }) hany
        obtain rfl := beq_iff_eq.1 hs
        exact mem_sessions.2 ⟨_, by rw [Table.get?_insert, if_pos rfl], hmem⟩
      · rintro ⟨b, s⟩ hp hne
        obtain ⟨l', hl', hs⟩ := mem_sessions.1 hp
        by_cases hb : b = a
        · subst hb
          cases hl.symm.trans hl'
          refine mem_sessions.2 ⟨_, by rw [Table.get?_insert, if_pos rfl], mem_modifyFirst_of_ne ?_ hs⟩
          exact beq_eq_false_iff_ne.2 hne
        · exact mem_sessions.2 ⟨l', by rw [Table.get?_insert, if_neg hb]; exact hl', hs⟩
    · cases h

/-! ## Sessions and their names -/

/-- The connection's session is in the registry under its name, if it is there. -/
def Conn.Named (st : ServerState) (conn : Conn) : Prop := ∀ s, conn.handler.session = some s →
  conn.handler.spawns = true → (conn.addr, s.token) ∈ st.sessionIds →
  (conn.addr, ⟨s.token, some s.username⟩) ∈ st.sessions

theorem Conn.Named.leaves {st st' : ServerState} {conn conn' : Conn} (h : conn.Named st) (hl : Leaves st st')
    (hs : ∀ s, conn'.handler.session = some s → conn'.handler.spawns = true → conn.handler.session = some s ∧
      conn.handler.spawns = true ∧ conn'.addr = conn.addr) : conn'.Named st' := by
  intro s hsess hspawns hid
  obtain ⟨hsess', hspawns', haddr⟩ := hs s hsess hspawns
  rw [haddr] at hid ⊢
  exact hl.same _ (h s hsess' hspawns' (hl.ids _ hid)) hid

/-- What a step of a connection makes of the sessions of the others. -/
theorem Turn.namedOther {w w' : World} {c : Nat} {l : Label} {conn : Conn} (hcon : Consistent w.st)
    (h : Turn w c l w' conn) {d : Nat} (hdistinct : ∀ s s', (w.conns d).handler.session = some s →
      conn.handler.session = some s' → s.token ≠ s'.token) (hn : (w.conns d).Named w.st) : (w.conns d).Named w'.st := by
  have hleaves : ∀ {st}, Leaves w.st st → (w.conns d).Named st := fun hl => hn.leaves hl fun s hs hsp => ⟨hs, hsp, rfl⟩
  cases h with
  | registered hh hr =>
    obtain ⟨-, -, hsessions, -⟩ := registerClientWithStatus_ok hr
    intro s hsess hspawns hid
    refine hsessions.mem_iff.2 (List.mem_cons_of_mem _ (hn s hsess hspawns ?_))
    rcases List.mem_cons.1 ((hsessions.map fun p => (p.1, p.2.token)).mem_iff.1 hid) with he | hid
    · exact absurd (congrArg Prod.snd he) (hdistinct s _ hsess rfl)
    · exact hid
  | @named input s₀ st hh hu =>
    obtain ⟨-, hkeep⟩ := sessions_setClientUsername hu
    obtain ⟨-, hids, -⟩ := setClientUsername_ok hu
    intro s hsess hspawns hid
    exact hkeep _ (hn s hsess hspawns (hids.mem_iff.1 hid)) (hdistinct s s₀ hsess rfl)
  | unregister hh hr | finish hh hr | remove hh hr => exact hleaves (leaves_remove hcon hr).1
  | call hh ht => exact hleaves (ht.leaves hcon)
  | writerCall hw hpc ht => exact hleaves (ht.leaves hcon)
  | accept | acquired | full | admitted | refused | unregistered | unnamed | storeJoined | wait | dropPermit
  | dropGlobal | receive | writerWait | stop => exact hleaves (.of_clients rfl)

/-- What a step of a connection makes of its session. -/
theorem Turn.namedOwn {w w' : World} {c : Nat} {l : Label} {conn : Conn} (hcon : Consistent w.st)
    (h : Turn w c l w' conn) (hn : (w.conns c).Named w.st) : conn.Named w'.st := by
  cases h with
  | accept hh | acquired hh | full hh | admitted hh | refused hh | unregistered hh =>
    intro s hsess
    cases hsess
  | registered hh hr | unnamed hh hu =>
    intro s _ hspawns
    cases hspawns
  | named hh hu =>
    intro s hsess _ _
    cases hsess
    exact (sessions_setClientUsername hu).1
  | unregister hh hr =>
    intro s hsess _ hid
    cases hsess
    exact absurd hid (leaves_remove hcon hr).2
  | call hh ht => exact hn.leaves (ht.leaves hcon) fun s hs _ => ⟨by rw [hh]; exact hs, by rw [hh]; rfl, rfl⟩
  | finish hh hr =>
    refine hn.leaves (leaves_remove hcon hr).1 fun s hs _ => ⟨?_, by rw [hh]; rfl, rfl⟩
    rw [hh]
    exact (session_afterRemoval _ _ _ _).1.symm.trans hs
  | @wait _ pc pc' hh hw =>
    refine hn.leaves (.of_clients rfl) fun s hs _ => ⟨?_, ?_, rfl⟩
    · rw [hh, ← hw.same.1]
      exact hs
    · rw [hh]
      cases hw <;> rfl
  | storeJoined hh | dropPermit hh | dropGlobal hh =>
    exact hn.leaves (.of_clients rfl) fun s hs _ => ⟨by rw [hh]; exact hs, by rw [hh]; rfl, rfl⟩
  | remove hw hr => exact hn.leaves (leaves_remove hcon hr).1 fun s hs hsp => ⟨hs, hsp, rfl⟩
  | writerCall hw hpc ht => exact hn.leaves (ht.leaves hcon) fun s hs hsp => ⟨hs, hsp, rfl⟩
  | receive | writerWait | stop => exact hn.leaves (.of_clients rfl) fun s hs hsp => ⟨hs, hsp, rfl⟩

theorem named_of_reach {G : World → Label → Prop} {w : World} (hw : System.Reach server G w) (c : Nat) :
    (w.conns c).Named w.st := by
  refine hw.invariant (I := fun w => ∀ c, (w.conns c).Named w.st) (fun _ s hs => by cases hs)
    (fun w l w' hr ih _ hstep d => ?_) c
  obtain ⟨hsound, hr'⟩ := sound_of_reach hr
  have hcon := (fed_of_reach hr').consistent
  cases steps_of_step hstep with
  | @reorder clients deliveries st hre =>
    unfold Server.reorder at hre
    split at hre
    · rename_i hp
      cases hre
      exact (ih d).leaves (.of_perm (Table.Same.items hp.1)) fun s hs hsp => ⟨hs, hsp, rfl⟩
    · cases hre
  | @turn _ c w' conn h =>
    show ((w.after c w' conn).conns d).Named w'.st
    by_cases hdc : d = c
    · subst hdc
      rw [World.after_self]
      exact h.namedOwn hcon (ih d)
    · rw [World.after_of_ne w hdc]
      refine h.namedOther hcon (fun s s' hs hs' ht => hdc ?_) (ih d)
      refine h.distinct hsound (tracked_of_reach hr') d c s s' ?_ ?_ ht
      · rw [World.after_of_ne w hdc]
        exact hs
      · rw [World.after_self]
        exact hs'

/-- **A session that has a writer is in the registry under its name**, as long as it is there. -/
theorem named_of_spawned {G : World → Label → Prop} {w : World} (hw : System.Reach server G w) {c : Nat} {s : Session}
    (hs : (w.conns c).writer.session = some s) (hid : ((w.conns c).addr, s.token) ∈ w.st.sessionIds) :
    s.username.1 ∈ usernames w.st := by
  have hbound := (sound_of_reach hw).1.bound c
  exact List.mem_filterMap.2 ⟨_, named_of_reach hw c s (hbound.writer s hs) (hbound.spawned s hs) hid, rfl⟩

end Server
end Drocsid
