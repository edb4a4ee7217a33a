import Mathlib.Data.List.Perm.Subperm
import Drocsid.Simulation
/-!
# Permits — the admission's permits cover the registry's sessions

Two accounts of the connections: `ConnectionAdmission`'s semaphore and per-address counts, which a permit takes from and
gives back to, and the registry's counters.  The first is exact for the permits held (`Accounted`).  A session is
registered by a handler that holds a permit and is out of the registry before that is dropped (`HandlerPc.Out`), so the
second is never above the first, and no handler is refused its registration (`sessions_permitted`).
-/
namespace Drocsid

open Text Protocol

namespace Server

/-! ## Sessions and handlers -/

/-- The session of a handler that has taken it out of the registry. -/
def HandlerPc.out : HandlerPc → Option Session
  | .serving s (.calling (.leave _) _) | .serving s (.calling (.leavePresence _) _) => some s
  | .dropPermit s | .dropGlobal s | .returned s => s
  | _ => none

theorem out_abandon (s : Session) (mode : FinishMode) : ∀ s', (abandon s mode).out = some s' → s' = s := by
  intro s' h
  cases mode <;> cases h
  rfl

theorem Resumes.out {s s' : Session} {next : After} {result : Except ServerError Bool} {pc : HandlerPc}
    (h : Resumes s next result pc) (hs : pc.out = some s') :
    s' = s ∧ ∀ call, (HandlerPc.serving s (.calling next call)).out = some s := by
  cases h with
  | left | leavePresented => cases hs; exact ⟨rfl, fun _ => rfl⟩
  | abandons hn =>
    refine ⟨out_abandon s _ s' hs, ?_⟩
    rcases hn with rfl | rfl <;> exact fun _ => rfl
  | replayed | presented | unencoded | joinDropped | joined | joinPresented | chatDropped | chatted | chatPresented
  | failed => cases hs

theorem out_received {s s' : Session} {result : Except ServerError (Option Frame)} :
    (received s result).out ≠ some s' := by
  unfold received
  split
  · exact nofun
  · exact nofun
  · split <;> exact nofun

/-- A wait takes no session out. -/
theorem HandlerPc.Waits.out {pc pc' : HandlerPc} (h : pc.Waits pc') {s : Session} (hs : pc'.out = some s) :
    pc.out = some s := by
  cases h with
  | resume => obtain ⟨rfl, hout⟩ := (resumes_resume _ _ _).out hs; exact hout _
  | received => exact absurd hs out_received
  | timeout | refused | named | disconnected | limited | allowed | slept | tooLong => cases hs

/-- A removal that ran leaves its event, now or from before. -/
theorem removed_after {w : World} (ht : Tracked w.shared) (hc : Consistent w.st) {a : SocketAddr} {t : ClientToken}
    (hreg : .registered t a ∈ w.trace) {removed : Bool} {st : ServerState}
    (hr : removeClientIfCurrent w.st a t = some (removed, st)) :
    (removed = true ↔ .removed t ∉ w.trace) ∧ .removed t ∈ removedEvent t removed ++ w.trace := by
  have hiff : removed = true ↔ .removed t ∉ w.trace := by
    rw [(removeClientIfCurrent_some hc hr).1.result]
    exact (ht.live a t).trans ⟨And.right, fun hn => ⟨hreg, hn⟩⟩
  refine ⟨hiff, ?_⟩
  cases removed with
  | true => exact List.mem_cons_self
  | false => exact Classical.not_not.1 fun hn => by simpa using hiff.2 hn

/-- **A session taken out is removed.** -/
theorem removed_of_out {G : World → Label → Prop} {w : World} (hw : System.Reach server G w) (c : Nat) {s : Session}
    (hs : (w.conns c).handler.out = some s) : .removed s.token ∈ w.trace := by
  refine forall_conns (P := fun tr conn => ∀ s, conn.handler.out = some s → .removed s.token ∈ tr) nofun
    (fun w l c w' conn hr _ h hP s hs => ?_) (fun w l c w' conn d _ _ h _ hfor hP s hs => ?_) hw c s hs
  · obtain ⟨hsound, hr'⟩ := sound_of_reach hr
    have htracked := tracked_of_reach hr'
    have hcon := (fed_of_reach hr').consistent
    obtain ⟨events, he, -⟩ := h.events (hsound.bound c)
    have hreg := (hsound.bound c).registered
    have hkeep : (w.conns c).handler.out = some s → .removed s.token ∈ w'.trace := fun hs => by
      rw [he]; exact List.mem_append_right _ (hP s hs)
    cases h with
    | unregister hh hrem =>
      cases hs
      exact (removed_after htracked hcon (hreg s (by rw [hh]; rfl)) hrem).2
    | @finish _ s₀ mode removed st hh hrem =>
      have hsess := (session_afterRemoval s₀ mode removed (w.conns c).joined).1
      have hs₀ : s = s₀ := by
        unfold afterRemoval at hs
        split at hs
        · split at hs
          · cases hs; rfl
          · exact out_abandon s₀ mode s hs
        · cases hs; rfl
      subst hs₀
      exact (removed_after htracked hcon (hreg s (by rw [hh]; rfl)) hrem).2
    | call hh ht =>
      apply hkeep
      rw [hh]
      revert hs
      cases ‹After› <;> exact id
    | wait hh hw => exact hkeep (by rw [hh]; exact hw.out hs)
    | dropPermit hh | dropGlobal hh => exact hkeep (by rw [hh]; exact hs)
    | receive | remove | writerCall | writerWait | stop => exact hkeep hs
    | accept | acquired | full | admitted | refused | registered | unregistered | named | unnamed
    | storeJoined => cases hs
  · obtain ⟨hsound, -⟩ := sound_of_reach ‹System.Reach server G w›
    obtain ⟨events, he, -⟩ := h.events (hsound.bound c)
    rw [he]
    exact List.mem_append_right _ (hP s hs)

/-- A step registers no session but its connection's. -/
theorem Turn.registers {w w' : World} {c : Nat} {l : Label} {conn : Conn} (h : Turn w c l w' conn)
    (hb : (w.conns c).Bound w.trace) {a : SocketAddr} {t : ClientToken} (hreg : .registered t a ∈ w'.trace) :
    .registered t a ∈ w.trace ∨ ∃ s, conn.handler.session = some s ∧ s.token = t ∧ conn.addr = a := by
  have hfrom : ∀ {u p events}, (∀ e ∈ events, e.From u p) → .registered t a ∈ events ++ w.trace →
    .registered t a ∈ w.trace :=
    fun hev hm => (List.mem_append.1 hm).resolve_left fun hm => nomatch hev _ hm
  cases h with
  | registered =>
    rcases List.mem_cons.1 hreg with hreg | hreg
    · cases hreg; exact .inr ⟨_, rfl, rfl, rfl⟩
    · exact .inl hreg
  | named => exact .inl (by simpa using hreg)
  | unregister | finish | remove => exact .inl (hfrom (u := 0) (p := .presence) (fun e => from_removedEvent) hreg)
  | call hh ht =>
    have hs := hb.handling
    rw [hh] at hs
    obtain ⟨-, events, he, hev⟩ := ht.serves hs
    exact .inl (hfrom hev (he ▸ hreg))
  | writerCall hw hpc ht =>
    obtain ⟨-, p, -, hs, -⟩ := hb.calls hw hpc
    obtain ⟨-, events, he, hev⟩ := ht.serves hs
    exact .inl (hfrom hev (he ▸ hreg))
  | accept | acquired | full | admitted | refused | unregistered | unnamed | storeJoined | wait | dropPermit
  | dropGlobal | receive | writerWait | stop => exact .inl hreg

/-- A connection keeps its session and its address. -/
theorem Turn.keeps {w w' : World} {c : Nat} {l : Label} {conn : Conn} (h : Turn w c l w' conn) {s : Session}
    (hs : (w.conns c).handler.session = some s) : conn.handler.session = some s ∧ conn.addr = (w.conns c).addr := by
  rcases h.session with hsame | ⟨hnone, -⟩
  · refine ⟨hsame ▸ hs, ?_⟩
    cases h with
    | accept hh => rw [hh] at hs; cases hs
    | _ => rfl
  · rw [hnone] at hs; cases hs

/-- Every session that registered is a connection's. -/
theorem exists_conn {G : World → Label → Prop} {w : World} (hw : System.Reach server G w) {a : SocketAddr}
    {t : ClientToken} (h : .registered t a ∈ w.trace) : ∃ c s, (w.conns c).handler.session = some s ∧ s.token = t ∧
      (w.conns c).addr = a := by
  refine hw.invariant (I := fun w => ∀ a t, .registered t a ∈ w.trace →
    ∃ c s, (w.conns c).handler.session = some s ∧ s.token = t ∧ (w.conns c).addr = a) nofun
    (fun w l w' hr hI _ hstep a t hreg => ?_) a t h
  cases steps_of_step hstep with
  | reorder => exact hI a t hreg
  | @turn _ c w' conn h =>
    show ∃ d s, ((w.after c w' conn).conns d).handler.session = some s ∧ s.token = t ∧
      ((w.after c w' conn).conns d).addr = a
    rcases h.registers ((sound_of_reach hr).1.bound c) hreg with hold | ⟨s, hs, ht, ha⟩
    · obtain ⟨d, s, hd, ht, ha⟩ := hI a t hold
      by_cases hdc : d = c
      · subst hdc
        obtain ⟨hs, haddr⟩ := h.keeps hd
        exact ⟨d, s, by rw [World.after_self]; exact ⟨hs, ht, haddr.trans ha⟩⟩
      · exact ⟨d, s, by rw [World.after_of_ne w hdc]; exact ⟨hd, ht, ha⟩⟩
    · exact ⟨c, s, by rw [World.after_self]; exact ⟨hs, ht, ha⟩⟩

/-! ## The permits -/

/-- The handler has its connection's permit of the semaphore. -/
def HandlerPc.hasGlobal : HandlerPc → Bool
  | .acquireIp | .handshake | .register _ | .serving _ _ | .dropPermit _ | .dropGlobal _ => true
  | _ => false

/-- The handler has its connection's permit. -/
def HandlerPc.hasPermit : HandlerPc → Bool
  | .handshake | .register _ | .serving _ _ | .dropPermit _ => true
  | _ => false

/-- The semaphore and the counts are exact for the permits, which the handlers hold. -/
structure Accounted (ad : Admission) (conns : Nat → Conn) : Prop where
  available : ad.available + ad.globals.length = maxConnections
  globals : ∀ c, c ∈ ad.globals ↔ (conns c).handler.hasGlobal = true
  globalsNodup : ad.globals.Nodup
  permits : ∀ c ip, (c, ip) ∈ ad.permits ↔ (conns c).handler.hasPermit = true ∧ ip = (conns c).addr.ip
  permitsNodup : ad.permits.Nodup
  perIp : ∀ ip, ad.perIp.get? ip = slots (ad.permits.countP (·.2 = ip))
  perIp_le : ∀ ip, ad.permits.countP (·.2 = ip) ≤ maxConnectionsPerIp

theorem accounted_init : Accounted .new World.init.conns where
  available := rfl
  globals _ := ⟨nofun, nofun⟩
  globalsNodup := List.nodup_nil
  permits _ _ := ⟨nofun, fun h => nomatch h.1⟩
  permitsNodup := List.nodup_nil
  perIp _ := rfl
  perIp_le _ := Nat.zero_le _

/-- A step that takes and gives back no permit. -/
theorem Accounted.frame {ad : Admission} {conns : Nat → Conn} (h : Accounted ad conns) {c : Nat} {conn : Conn}
    (hg : conn.handler.hasGlobal = (conns c).handler.hasGlobal)
    (hp : conn.handler.hasPermit = (conns c).handler.hasPermit)
    (ha : conn.addr = (conns c).addr ∨ conn.handler.hasPermit = false) :
      Accounted ad (Function.update conns c conn) := by
  refine ⟨h.available, fun d => ?_, h.globalsNodup, fun d ip => ?_, h.permitsNodup, h.perIp, h.perIp_le⟩
  · by_cases hd : d = c
    · subst hd; rw [Function.update_self, hg]; exact h.globals d
    · rw [Function.update_of_ne hd]; exact h.globals d
  · by_cases hd : d = c
    · subst hd
      rw [Function.update_self, h.permits, hp]
      rcases ha with ha | ha
      · rw [ha]
      · rw [← hp, ha]; simp
    · rw [Function.update_of_ne hd]; exact h.permits d ip

theorem Resumes.hasPermit {s : Session} {next : After} {result : Except ServerError Bool} {pc : HandlerPc}
    (h : Resumes s next result pc) : pc.hasPermit = true ∧ pc.hasGlobal = true := by
  cases h with
  | @abandons _ mode => cases mode <;> exact ⟨rfl, rfl⟩
  | replayed | presented | unencoded | joinDropped | joined | joinPresented | chatDropped | chatted | chatPresented
  | left | leavePresented | failed => exact ⟨rfl, rfl⟩

theorem hasPermit_afterRemoval (s : Session) (mode : FinishMode) (removed joined : Bool) :
    (afterRemoval s mode removed joined).hasPermit = true ∧ (afterRemoval s mode removed joined).hasGlobal = true := by
  unfold afterRemoval
  split
  · split
    · exact ⟨rfl, rfl⟩
    · cases mode <;> exact ⟨rfl, rfl⟩
  · exact ⟨rfl, rfl⟩

theorem HandlerPc.Waits.hasPermit {pc pc' : HandlerPc} (h : pc.Waits pc') :
    pc'.hasGlobal = pc.hasGlobal ∧ pc'.hasPermit = pc.hasPermit := by
  cases h with
  | resume => exact (resumes_resume _ _ _).hasPermit.symm
  | received =>
    unfold Server.received
    split
    · exact ⟨rfl, rfl⟩
    · exact ⟨rfl, rfl⟩
    · split <;> exact ⟨rfl, rfl⟩
  | timeout | refused | named | disconnected | limited | allowed | slept | tooLong => exact ⟨rfl, rfl⟩

theorem Accounted.acquire {ad ad' : Admission} {conns : Nat → Conn} (h : Accounted ad conns) {c : Nat}
    (hh : (conns c).handler = .acquire) (ha : ad.acquire c = some ad') :
    Accounted ad' (Function.update conns c { conns c with handler := .acquireIp }) := by
  have hnot : c ∉ ad.globals := fun hc => by rw [h.globals, hh] at hc; cases hc
  unfold Admission.acquire at ha
  split at ha
  · cases ha
  · rename_i n hn
    cases ha
    refine ⟨?_, fun d => ?_, List.nodup_cons.2 ⟨hnot, h.globalsNodup⟩, fun d ip => ?_, h.permitsNodup, h.perIp,
      h.perIp_le⟩
    · have := h.available
      rw [hn] at this
      simp only [List.length_cons]
      omega
    · by_cases hd : d = c
      · subst hd; simp [HandlerPc.hasGlobal]
      · rw [Function.update_of_ne hd, List.mem_cons, or_iff_right hd]; exact h.globals d
    · by_cases hd : d = c
      · subst hd
        rw [Function.update_self]
        exact (h.permits d ip).trans (by rw [hh]; rfl)
      · rw [Function.update_of_ne hd]; exact h.permits d ip

/-- The handler's permit of the semaphore is given back. -/
theorem Accounted.dropGlobal {ad : Admission} {conns : Nat → Conn} (h : Accounted ad conns) {c : Nat} {pc : HandlerPc}
    (hg : (conns c).handler.hasGlobal = true) (hp : (conns c).handler.hasPermit = false)
    (hpc : pc.hasGlobal = false ∧ pc.hasPermit = false) :
    Accounted (ad.dropGlobal c) (Function.update conns c { conns c with handler := pc }) := by
  have hc := (h.globals c).2 hg
  refine ⟨?_, fun d => ?_, h.globalsNodup.erase c, fun d ip => ?_, h.permitsNodup, h.perIp, h.perIp_le⟩
  · have := h.available
    have hpos := List.length_pos_of_mem hc
    simp only [Admission.dropGlobal, List.length_erase_of_mem hc]
    omega
  · rw [Admission.dropGlobal, h.globalsNodup.mem_erase_iff]
    by_cases hd : d = c
    · subst hd; simp [hpc.1]
    · rw [Function.update_of_ne hd, and_iff_right hd]; exact h.globals d
  · by_cases hd : d = c
    · subst hd
      rw [Function.update_self]
      exact (h.permits d ip).trans (by rw [hp, hpc.2])
    · rw [Function.update_of_ne hd]; exact h.permits d ip

theorem Accounted.acquireIp {ad ad' : Admission} {conns : Nat → Conn} (h : Accounted ad conns) {c : Nat}
    (hh : (conns c).handler = .acquireIp) (ha : ad.acquireIp c (conns c).addr.ip = some ad') :
    Accounted ad' (Function.update conns c { conns c with handler := .handshake }) := by
  have hnot : ∀ ip, (c, ip) ∉ ad.permits := fun ip hc => by rw [h.permits, hh] at hc; cases hc.1
  unfold Admission.acquireIp at ha
  dsimp only at ha
  split at ha
  · cases ha
  · rename_i hlimit
    rw [h.perIp, slots_getD, Nat.not_le] at hlimit
    cases ha
    refine ⟨h.available, fun d => ?_, h.globalsNodup, fun d ip => ?_, List.nodup_cons.2 ⟨hnot _, h.permitsNodup⟩,
      fun ip => ?_, fun ip => ?_⟩
    · by_cases hd : d = c
      · subst hd; rw [Function.update_self]; exact (h.globals d).trans (by rw [hh]; rfl)
      · rw [Function.update_of_ne hd]; exact h.globals d
    · by_cases hd : d = c
      · subst hd
        rw [Function.update_self, List.mem_cons, or_iff_left (hnot ip)]
        simp [HandlerPc.hasPermit]
      · rw [Function.update_of_ne hd, List.mem_cons, or_iff_right (by simp [hd])]; exact h.permits d ip
    · simp only [Table.get?_insert, List.countP_cons, h.perIp, slots_getD]
      by_cases hip : ip = (conns c).addr.ip
      · subst hip; simp [slots]
      · simp [hip, Ne.symm hip]
    · rw [List.countP_cons]
      by_cases hip : (conns c).addr.ip = ip
      · subst hip; simpa [Nat.succ_le_iff] using hlimit
      · simpa [hip] using h.perIp_le ip

/-- A permit held is in the counts, so that dropping it does not panic. -/
theorem Accounted.dropPermit {ad : Admission} {conns : Nat → Conn} (h : Accounted ad conns) {c : Nat}
    {s : Option Session} (hh : (conns c).handler = .dropPermit s) :
    ∃ ad', ad.dropPermit c (conns c).addr.ip = some ad' ∧
      Accounted ad' (Function.update conns c { conns c with handler := .dropGlobal s }) := by
  have hmem : (c, (conns c).addr.ip) ∈ ad.permits := (h.permits c _).2 ⟨by rw [hh]; rfl, rfl⟩
  have hperm := List.perm_cons_erase hmem
  have hcount : ∀ ip, ad.permits.countP (·.2 = ip) =
      (ad.permits.erase (c, (conns c).addr.ip)).countP (·.2 = ip) + if (conns c).addr.ip = ip then 1 else 0 :=
        fun ip => by
    rw [hperm.countP_eq, List.countP_cons]; simp
  have hget : ad.perIp.get? (conns c).addr.ip =
      some ((ad.permits.erase (c, (conns c).addr.ip)).countP (·.2 = (conns c).addr.ip) + 1) := by
    rw [h.perIp, hcount]; simp [slots]
  unfold Admission.dropPermit
  rw [hget]
  refine ⟨_, rfl, h.available, fun d => ?_, h.globalsNodup, fun d ip => ?_, h.permitsNodup.erase _, fun ip => ?_,
    fun ip => ?_⟩
  · by_cases hd : d = c
    · subst hd; rw [Function.update_self]; exact (h.globals d).trans (by rw [hh]; rfl)
    · rw [Function.update_of_ne hd]; exact h.globals d
  · rw [h.permitsNodup.mem_erase_iff, h.permits]
    by_cases hd : d = c
    · subst hd
      rw [Function.update_self]
      constructor
      · rintro ⟨hne, -, hip⟩
        exact absurd (by rw [hip]) hne
      · rintro ⟨hp, -⟩
        cases hp
    · rw [Function.update_of_ne hd]; simp [hd]
  · have := h.perIp ip
    rw [hcount] at this
    by_cases hip : ip = (conns c).addr.ip
    · subst hip
      dsimp only
      split
      · rename_i h0; simp [h0, slots]
      · rename_i h0; simp [h0, slots]
    · rw [if_neg (Ne.symm hip), Nat.add_zero] at this
      dsimp only
      split <;> simp [hip, this]
  · exact (List.erase_sublist.countP_le).trans (h.perIp_le ip)

theorem Accounted.step {w w' : World} {c : Nat} {l : Label} {conn : Conn} (h : Accounted w.admission w.conns)
    (ht : Turn w c l w' conn) : Accounted w'.admission (Function.update w.conns c conn) := by
  have hadm : ∀ {me a t rx call call'}, CallTurn w me a t rx call w' call' → w'.admission = w.admission :=
    fun hc => hc.conns.2
  cases ht with
  | acquired hh ha => exact h.acquire hh ha
  | admitted hh ha => exact h.acquireIp hh ha
  | refused hh => exact h.dropGlobal (by rw [hh]; rfl) (by rw [hh]; rfl) ⟨rfl, rfl⟩
  | dropPermit hh ha =>
    obtain ⟨ad', ha', hacc⟩ := h.dropPermit hh
    cases ha.symm.trans ha'
    exact hacc
  | dropGlobal hh => exact h.dropGlobal (by rw [hh]; rfl) (by rw [hh]; rfl) ⟨rfl, rfl⟩
  | accept hh => exact h.frame (by rw [hh]; rfl) (by rw [hh]; rfl) (.inr rfl)
  | full hh | registered hh | unregistered hh | named hh | unnamed hh | unregister hh | storeJoined hh =>
    exact h.frame (by rw [hh]; rfl) (by rw [hh]; rfl) (.inl rfl)
  | finish hh =>
    exact h.frame (by rw [hh]; exact (hasPermit_afterRemoval _ _ _ _).2)
      (by rw [hh]; exact (hasPermit_afterRemoval _ _ _ _).1) (.inl rfl)
  | wait hh hw => exact h.frame (by rw [hh]; exact hw.hasPermit.1) (by rw [hh]; exact hw.hasPermit.2) (.inl rfl)
  | call hh hc => rw [hadm hc]; exact h.frame (by rw [hh]; rfl) (by rw [hh]; rfl) (.inl rfl)
  | writerCall hw hpc hc => rw [hadm hc]; exact h.frame rfl rfl (.inl rfl)
  | receive | remove | writerWait | stop => exact h.frame rfl rfl (.inl rfl)

theorem accounted_of_reach {G : World → Label → Prop} {w : World} (hw : System.Reach server G w) :
    Accounted w.admission w.conns := by
  refine hw.invariant (I := fun w => Accounted w.admission w.conns) accounted_init fun w l w' _ h _ hstep => ?_
  cases steps_of_step hstep with
  | reorder => exact h
  | @turn _ c w' conn ht =>
    show Accounted w'.admission (Function.update w.conns c conn)
    exact h.step ht

/-! ## Sessions and permits -/

/-- A list whose members are related to distinct members of another is no longer. -/
theorem length_le_of_rel {α β : Type*} {l : List α} {l' : List β} (hn : l.Nodup) (r : α → β → Prop)
    (hex : ∀ a ∈ l, ∃ b ∈ l', r a b) (hinj : ∀ a ∈ l, ∀ a' ∈ l, ∀ b, r a b → r a' b → a = a') :
      l.length ≤ l'.length := by
  by_cases hnil : l = []
  · rw [hnil]; exact Nat.zero_le _
  have : Nonempty β := by
    obtain ⟨a, ha⟩ := List.exists_mem_of_ne_nil l hnil
    obtain ⟨b, -⟩ := hex a ha
    exact ⟨b⟩
  choose! f hf using hex
  have hnodup : (l.map f).Nodup := hn.map_on fun a ha a' ha' he =>
    hinj a ha a' ha' (f a) (hf a ha).2 (by rw [he]; exact (hf a' ha').2)
  have hsub : l.map f ⊆ l' := fun b hb => by
    obtain ⟨a, ha, rfl⟩ := List.mem_map.1 hb
    exact (hf a ha).1
  simpa only [List.length_map] using (List.subperm_of_subset hnodup hsub).length_le

/-- A connection serves the session of that address and token. -/
def Hosts (w : World) (p : SocketAddr × ClientToken) (c : Nat) : Prop :=
  ∃ s pc, (w.conns c).handler = .serving s pc ∧ s.token = p.2 ∧ (w.conns c).addr = p.1

theorem exists_host {G : World → Label → Prop} {w : World} (hw : System.Reach server G w) {p : SocketAddr × ClientToken}
    (hp : p ∈ w.st.sessionIds) : ∃ c, Hosts w p c := by
  obtain ⟨-, hr⟩ := sound_of_reach hw
  obtain ⟨hreg, hnot⟩ := ((tracked_of_reach hr).live p.1 p.2).1 hp
  obtain ⟨c, s, hs, ht, ha⟩ := exists_conn hw hreg
  refine ⟨c, s, ?_⟩
  have hin : (w.conns c).handler.out ≠ some s := fun hout => hnot (ht ▸ removed_of_out hw c hout)
  cases hh : (w.conns c).handler with
  | serving s' pc =>
    rw [hh] at hs
    cases hs
    exact ⟨pc, rfl, ht, ha⟩
  | dropPermit s' | dropGlobal s' | returned s' => rw [hh] at hs hin; exact absurd hs hin
  | idle | acquire | acquireIp | refused | handshake | register => rw [hh] at hs; cases hs

/-- The sessions of some addresses are no more than the permits for such, of connections that have a session. -/
theorem sessions_le_permits {G : World → Label → Prop} {w : World} (hw : System.Reach server G w) (q : IpAddr → Bool) :
    w.st.sessionIds.countP (fun p => q p.1.ip) ≤
      ((w.admission.permits.filter fun x => q x.2).filter fun x => (w.conns x.1).handler.session.isSome).length := by
  obtain ⟨-, hr⟩ := sound_of_reach hw
  have hcon : Consistent w.st := (fed_of_reach hr).consistent
  rw [List.countP_eq_length_filter]
  refine length_le_of_rel (hcon.tokens.of_map.filter _) (fun p x => Hosts w p x.1 ∧ x.2 = p.1.ip) (fun p hp => ?_)
    fun p hp p' hp' x hx hx' => ?_
  · obtain ⟨hp, hq⟩ := List.mem_filter.1 hp
    obtain ⟨c, s, pc, hh, ht, ha⟩ := exists_host hw hp
    refine ⟨(c, p.1.ip), ?_, ⟨s, pc, hh, ht, ha⟩, rfl⟩
    have hpermit := ((accounted_of_reach hw).permits c p.1.ip).2 ⟨by rw [hh]; rfl, by rw [ha]⟩
    simp [hpermit, hq, hh, HandlerPc.session]
  · obtain ⟨⟨s, pc, hh, ht, ha⟩, -⟩ := hx
    obtain ⟨⟨s', pc', hh', ht', ha'⟩, -⟩ := hx'
    rw [hh] at hh'
    cases hh'
    exact Prod.ext (ha.symm.trans ha') (ht.symm.trans ht')

/-- A connection that registers has a permit and no session, so the sessions are fewer than the permits. -/
theorem sessions_lt_permits {G : World → Label → Prop} {w : World} (hw : System.Reach server G w) {c : Nat}
    {username : Username} (hh : (w.conns c).handler = .register username) {q : IpAddr → Bool}
    (hq : q (w.conns c).addr.ip = true) :
    w.st.sessionIds.countP (fun p => q p.1.ip) < (w.admission.permits.filter fun x => q x.2).length := by
  refine Nat.lt_of_le_of_lt (sessions_le_permits hw q) (List.length_filter_lt_length_iff_exists.2
    ⟨(c, (w.conns c).addr.ip), List.mem_filter.2 ⟨?_, hq⟩, by simp [hh, HandlerPc.session]⟩)
  exact ((accounted_of_reach hw).permits c _).2 ⟨by rw [hh]; rfl, rfl⟩

theorem Accounted.permits_le {ad : Admission} {conns : Nat → Conn} (h : Accounted ad conns) :
    ad.permits.length ≤ maxConnections := by
  have hle : ad.permits.length ≤ ad.globals.length := by
    refine length_le_of_rel h.permitsNodup (fun x c => x.1 = c)
      (fun x hx => ⟨x.1, (h.globals x.1).2 ?_, rfl⟩) fun x hx x' hx' c hc hc' => ?_
    · have hp := ((h.permits x.1 x.2).1 hx).1
      revert hp
      cases (conns x.1).handler <;> first | exact fun _ => rfl | exact nofun
    · have hip := ((h.permits x.1 x.2).1 hx).2
      have hip' := ((h.permits x'.1 x'.2).1 hx').2
      rw [hc] at hip
      rw [hc'] at hip'
      exact Prod.ext (hc.trans hc'.symm) (hip.trans hip'.symm)
  have := h.available
  omega

/-- **Every session is permitted.**  A session in the registry is that of a `serve` that has not returned and holds a
permit for its address; a `serve` that returns, on whichever path, has its token in neither registry before it drops the
permit; the registry's counters never exceed the permits held, which never exceed the limits; and a handler that
registers is not refused. -/
theorem sessions_permitted {w : World} (hw : System.Reach server System.Any w) :
    (∀ p ∈ w.st.sessionIds, ∃ c, Hosts w p c ∧ (c, p.1.ip) ∈ w.admission.permits) ∧
    (∀ c s, ((w.conns c).handler = .dropPermit (some s) ∨ (w.conns c).handler = .dropGlobal (some s) ∨
      (w.conns c).handler = .returned (some s)) → ∀ a, (a, s.token) ∉ w.st.sessionIds ∧
        (a, s.token) ∉ w.st.deliveryIds) ∧
    (w.st.clients.total ≤ w.admission.permits.length ∧ w.admission.permits.length ≤ maxConnections) ∧
    (∀ ip, (w.st.clients.perIp.get? ip).getD 0 ≤ w.admission.permits.countP (·.2 = ip) ∧
      w.admission.permits.countP (·.2 = ip) ≤ maxConnectionsPerIp) ∧
    ∀ c username, (w.conns c).handler = .register username → ∃ r, registerSession w.st (w.conns c).addr = .ok r := by
  obtain ⟨-, hr⟩ := sound_of_reach hw
  have hcon : Consistent w.st := (fed_of_reach hr).consistent
  have hacc := accounted_of_reach hw
  have htotal : w.st.clients.total = w.st.sessionIds.countP fun p => (fun _ : IpAddr => true) p.1.ip := by
    rw [hcon.total, List.countP_true]
  have hperIp : ∀ ip, (w.st.clients.perIp.get? ip).getD 0 = w.st.sessionIds.countP fun p => decide (p.1.ip = ip) :=
    fun ip => by
    rw [hcon.perIp, slots_getD]
  refine ⟨fun p hp => ?_, fun c s hs a => ?_, ⟨?_, hacc.permits_le⟩, fun ip => ⟨?_, hacc.perIp_le ip⟩,
    fun c username hh => ?_⟩
  · obtain ⟨c, s, pc, hh, ht, ha⟩ := exists_host hw hp
    exact ⟨c, ⟨s, pc, hh, ht, ha⟩, (hacc.permits c _).2 ⟨by rw [hh]; rfl, by rw [ha]⟩⟩
  · have hout : (w.conns c).handler.out = some s := by rcases hs with hs | hs | hs <;> rw [hs] <;> rfl
    have hid : (a, s.token) ∉ w.st.sessionIds := fun hid =>
      (((tracked_of_reach hr).live a s.token).1 hid).2 (removed_of_out hw c hout)
    exact ⟨hid, fun hd => hid (hcon.same.mem_iff.1 hd)⟩
  · rw [htotal]
    exact (sessions_le_permits hw fun _ => true).trans ((List.length_filter_le _ _).trans (List.length_filter_le _ _))
  · rw [hperIp, List.countP_eq_length_filter (l := w.admission.permits)]
    exact (sessions_le_permits hw (fun i => decide (i = ip))).trans (List.length_filter_le _ _)
  · have hall := sessions_lt_permits hw hh (q := fun _ => true) rfl
    have hsame := sessions_lt_permits hw hh (q := fun i => decide (i = (w.conns c).addr.ip)) (by simp)
    rw [← htotal] at hall
    rw [← hperIp, ← List.countP_eq_length_filter] at hsame
    have hle := hacc.perIp_le (w.conns c).addr.ip
    have hall' := (hall.trans_le (List.length_filter_le _ _)).trans_le hacc.permits_le
    have hsame' := hsame.trans_le hle
    unfold registerSession registerPendingClient registerClientWithStatus
    rw [if_neg (by omega)]
    exact ⟨_, rfl⟩

/-- Bob's `serve` has returned, Alice is registered, and Bob is about to register again. -/
theorem sessions_permitted_bob : ∃ w s username, System.Reach server System.Any w ∧
    w.st.sessionIds = [(aliceAddr, 1)] ∧ (w.conns 0).handler = .returned (some s) ∧
    (w.conns 2).handler = .register username ∧
    (∃ c, Hosts w (aliceAddr, 1) c ∧ (c, aliceAddr.ip) ∈ w.admission.permits) ∧
    (∀ a, (a, s.token) ∉ w.st.sessionIds ∧ (a, s.token) ∉ w.st.deliveryIds) ∧
    w.st.clients.total ≤ w.admission.permits.length ∧ ∃ r, registerSession w.st (w.conns 2).addr = .ok r := by
  obtain ⟨w, hw, ht⟩ := System.exists_of_run server
    (fun w => (match (w.conns 0).handler with
        | .returned s => s.isSome && w.st.sessionIds == [(aliceAddr, 1)]
        | _ => false) &&
      (match (w.conns 2).handler with
        | .register _ => true
        | _ => false))
    (registers 0 bobAddr "bob" ++ replays 0 0 ++ enters 0 ++ registers 1 aliceAddr "alice" ++
      [.handler 0 (.frame (.ok none)), .handler 0 .go] ++ sectionsOf 4 0 ++ [.handler 0 .go] ++ sectionsOf 4 0 ++
      [.handler 0 .go, .handler 0 .go, .handler 0 .go] ++ (registers 2 bobAddr "bob").dropLast) (by decide)
  obtain ⟨hleft, hcomes⟩ := Bool.and_eq_true_iff.1 ht
  obtain ⟨hhosts, hout, htotal, -, hadmits⟩ := sessions_permitted hw
  split at hleft
  · rename_i hreturned
    obtain ⟨hsome, hids⟩ := Bool.and_eq_true_iff.1 hleft
    obtain ⟨s, rfl⟩ := Option.isSome_iff_exists.1 hsome
    replace hids : w.st.sessionIds = [(aliceAddr, 1)] := by simpa using hids
    split at hcomes
    · rename_i username hregister
      exact ⟨w, s, username, hw, hids, hreturned, hregister, hhosts _ (by rw [hids]; exact List.mem_cons_self),
        hout 0 s (.inr (.inr hreturned)), htotal.1, hadmits 2 username hregister⟩
    · cases hcomes
  · cases hleft

end Server
end Drocsid
