import Drocsid.Simulation
import Drocsid.Replay
/-!
# Removal — each session is removed once (`crates/server/src/state.rs`)

Handlers, writers, broadcasts and prunings all call `remove_client_if_current`, at times for a session that is gone or
whose address another has taken.  Over a run, one call at most removes a session (`removed_once`): it takes it out of
both registries, gives its place back and signals its watch, and no other call does anything to it (`Removal.Deletes`,
`Removal.Unchanged`, `Removal.Spares`).
-/
namespace Drocsid

open Text Protocol

namespace Server

/-- A call of `remove_client_if_current`: its arguments, what it returned, and the state before and after. -/
structure Removal where
  targetAddr  : SocketAddr
  targetToken : ClientToken
  removed     : Bool
  before      : ServerState
  after       : ServerState

/-- `serve` removes its client when `set_client_username` or anything later failed, and at its end. -/
def HandlerPc.removes (addr : SocketAddr) : HandlerPc → Option Doomed
  | .serving s .unregister => some (addr, s.token)
  | .serving s (.finish _) => some (addr, s.token)
  | pc => pc.calls.bind Running.dooms

def WriterPc.removes (addr : SocketAddr) : WriterPc → Option Doomed
  | .running s .remove => some (addr, s.token)
  | pc => pc.calls.bind Running.dooms

/-- The client a step calls `remove_client_if_current` for, if it calls it. -/
def World.removes (w : World) : Label → Option Doomed
  | .handler c _ => (w.conns c).handler.removes (w.conns c).addr
  | .writer c _ => (w.conns c).writer.removes (w.conns c).addr
  | _ => none

/-- The call a step makes, if it makes one. -/
def World.removal (w : World) (l : Label) : List Removal :=
  match w.removes l with
  | none => []
  | some (a, t) =>
    match removeClientIfCurrent w.st a t with
    | none => []
    | some (removed, st) => [⟨a, t, removed, w.st, st⟩]

/-- The calls of `remove_client_if_current` along a run, in order. -/
def removals : World → List Label → List Removal
  | _, [] => []
  | w, l :: ls =>
    match server.step w l with
    | none => []
    | some w' => w.removal l ++ removals w' ls

/-- The call returned `Ok(true)` for this token. -/
def Removal.succeeds (t : ClientToken) (r : Removal) : Bool := r.targetToken == t && r.removed

theorem mem_removedTokens {t : ClientToken} {tr : List Event} : t ∈ removedTokens tr ↔ .removed t ∈ tr := by
  induction tr with
  | nil => simp [removedTokens]
  | cons e tr ih =>
    cases e with
    | removed u => simp [removedTokens, ih]
    | registered | named | snapshot | replayed | ready | recorded | broadcast => simp [removedTokens, ih]

theorem removedTokens_removedEvent (t : ClientToken) (removed : Bool) (tr : List Event) :
    removedTokens (removedEvent t removed ++ tr) = (if removed then [t] else []) ++ removedTokens tr := by
  cases removed <;> rfl

/-! ## What a step does to those registered -/

/-- A step calls `remove_client_if_current`, or removes no one and signals no watch. -/
inductive Removing (w w' : World) : Option Doomed → Prop
  | call {a t removed} (h : removeClientIfCurrent w.st a t = some (removed, w'.st))
      (htr : w'.trace = removedEvent t removed ++ w.trace) : Removing w w' (some (a, t))
  | none (htr : removedTokens w'.trace = removedTokens w.trace) (hd : w'.st.disconnects = w.st.disconnects) :
    Removing w w' none

/-- Where the tasks go is of no matter. -/
theorem Removing.congr {w w' w'' : World} {x : Option Doomed} (h : Removing w w' x) (hst : w''.st = w'.st)
    (htr : w''.trace = w'.trace) : Removing w w'' x := by
  cases h with
  | call hr ht =>
    rw [← hst] at hr
    rw [← htr] at ht
    exact .call hr ht
  | none ht hd =>
    rw [← htr] at ht
    rw [← hst] at hd
    exact .none ht hd

theorem disconnects_markClientReady (st : ServerState) (a : SocketAddr) (t : ClientToken) (rx : List Rx) :
    (markClientReady st a t rx).2.disconnects = st.disconnects := by
  unfold markClientReady
  split
  · rfl
  · split
    · exact (sessions_writeDelivery _ _ _ _).2.2.2.1
    · exact (sessions_writeDelivery _ _ _ _).2.2.2.1

theorem CallTurn.removing {w w' : World} {me : Task} {a : SocketAddr} {t : ClientToken} {rx : List Rx}
    {call call' : Running} (h : CallTurn w me a t rx call w' call') : Removing w w' call.dooms := by
  cases h with
  | prunes hr => exact .call hr rfl
  | drops hr => exact .call hr rfl
  | @unlock c result hd =>
    cases c with
    | drop doomed dropped =>
      cases doomed with
      | nil => exact .none rfl rfl
      | cons => cases hd
    | lookup | snapshot | replay | replayed | record | deliver => exact .none rfl rfl
  | advance hd hc =>
    cases advances_of_step hc with
    | drop hr => exact .call hr rfl
    | @readied b u writer st hm =>
      have hsame := disconnects_markClientReady w.st b u rx
      rw [hm] at hsame
      exact .none rfl hsame
    | @unreadied b u writer e st hm =>
      have hsame := disconnects_markClientReady w.st b u rx
      rw [hm] at hsame
      exact .none rfl hsame
    | unknown | found | snapshot | unencoded | refused | replayed | record | deliver => exact .none rfl rfl
  | lockReplay | lockRecord | prune | taken | unencoded | present | dropped => exact .none rfl rfl

theorem HandlerPc.Waits.removes {pc pc' : HandlerPc} (h : pc.Waits pc') (a : SocketAddr) : pc.removes a = none := by
  cases h <;> rfl

theorem WritePc.Waits.removes {s : Session} {joined : Bool} {pc pc' : WritePc} (h : pc.Waits s joined pc')
    (a : SocketAddr) : (WriterPc.running s pc).removes a = none := by
  cases h <;> rfl

/-- **Every step calls `remove_client_if_current` once, or does nothing of the kind.** -/
theorem removing_of_step {w w' : World} {l : Label} (h : server.step w l = some w') : Removing w w' (w.removes l) := by
  have hhandler : ∀ {c : Nat} {input : Input} {pc : HandlerPc}, (w.conns c).handler = pc →
      w.removes (.handler c input) = pc.removes (w.conns c).addr := by
    rintro c input _ rfl
    rfl
  have hwriter : ∀ {c : Nat} {input : Input} {pc : WriterPc}, (w.conns c).writer = pc →
      w.removes (.writer c input) = pc.removes (w.conns c).addr := by
    rintro c input _ rfl
    rfl
  cases steps_of_step h with
  | reorder hr =>
    unfold Server.reorder at hr
    split at hr
    · cases hr
      exact .none rfl rfl
    · cases hr
  | turn ht =>
    cases ht with
    | registered hh hr =>
      rw [hhandler hh]
      obtain ⟨-, -, -, -, -, -, hd⟩ := registerClientWithStatus_ok hr
      exact .none rfl hd
    | named hh hu =>
      rw [hhandler hh]
      obtain ⟨-, -, byAddr, rfl, -⟩ := setClientUsername_ok hu
      exact .none rfl rfl
    | unregister hh hr =>
      rw [hhandler hh]
      exact .call hr rfl
    | finish hh hr =>
      rw [hhandler hh]
      exact .call hr rfl
    | remove hw hr =>
      rw [hwriter hw]
      exact .call hr rfl
    | call hh hc =>
      rw [hhandler hh]
      exact hc.removing.congr rfl rfl
    | writerCall hw hpc hc =>
      rw [hwriter hw]
      cases hpc with
      | posting => exact hc.removing.congr rfl rfl
      | presenting => exact hc.removing.congr rfl rfl
    | wait hh hp =>
      rw [hhandler hh, hp.removes]
      exact .none rfl rfl
    | writerWait hw hp =>
      rw [hwriter hw, hp.removes]
      exact .none rfl rfl
    | accept => exact .none rfl rfl
    | acquired hh | full hh | admitted hh | refused hh | unregistered hh | unnamed hh | storeJoined hh | dropPermit hh
    | dropGlobal hh =>
      rw [hhandler hh]
      exact .none rfl rfl
    | receive hw | stop hw =>
      rw [hwriter hw]
      exact .none rfl rfl

/-! ## What a call does -/

namespace Removal

/-- The call removes its session: from both registries, with one unit of the total and one of its address's, and signals
its watch, which was not signalled before. -/
structure Deletes (r : Removal) : Prop where
  registered : (r.targetAddr, r.targetToken) ∈ r.before.sessionIds ∧
    (r.targetAddr, r.targetToken) ∈ r.before.deliveryIds
  gone : ∀ a, (a, r.targetToken) ∉ r.after.sessionIds ∧ (a, r.targetToken) ∉ r.after.deliveryIds
  total : r.before.clients.total = r.after.clients.total + 1
  perIp : ∀ ip, (r.before.clients.perIp.get? ip).getD 0 =
    (r.after.clients.perIp.get? ip).getD 0 + if ip = r.targetAddr.ip then 1 else 0
  signalled : ∃ d w, (r.targetAddr, d) ∈ r.before.delivering ∧ d.token = r.targetToken ∧ d.disconnect = some w ∧
    r.before.disconnects w = false ∧ r.after.disconnects w = true

/-- The call changes nothing but the order of the clients' map. -/
structure Unchanged (r : Removal) : Prop where
  clients : r.after.clients.byAddr.Same r.before.clients.byAddr
  rest : r.after = { r.before with clients := { r.before.clients with byAddr := r.after.clients.byAddr } }

/-- The call leaves every session with another token as it was. -/
structure Spares (r : Removal) : Prop where
  sessions : (r.after.sessions.filter (·.2.token ≠ r.targetToken)).Perm
    (r.before.sessions.filter (·.2.token ≠ r.targetToken))
  delivering : (r.after.delivering.filter (·.2.token ≠ r.targetToken)).Perm
    (r.before.delivering.filter (·.2.token ≠ r.targetToken))
  disconnects : ∀ p ∈ r.before.delivering, p.2.token ≠ r.targetToken → ∀ w, p.2.disconnect = some w →
    r.after.disconnects w = r.before.disconnects w
  channels : r.after.channels = r.before.channels
  history : r.after.history = r.before.history

end Removal

/-- A removal that found no session wrote back what it read. -/
theorem unchanged_of_false {st st' : ServerState} (h : Consistent st) {a : SocketAddr} {t : ClientToken}
    (hr : removeClientIfCurrent st a t = some (false, st')) : (Removal.mk a t false st st').Unchanged := by
  unfold removeClientIfCurrent at hr
  split at hr
  · cases hr
    exact ⟨.refl _, rfl⟩
  · rename_i entries he
    dsimp only at hr
    split at hr
    · obtain ⟨clients, -, hc⟩ := Option.map_eq_some_iff.1 hr
      cases hc
    · rename_i hlen
      cases hr
      have hall : entries.filter (·.token != t) = entries :=
        List.filter_sublist.eq_of_length (not_not.1 hlen)
      have hne : entries ≠ [] := h.clientsNoEmpty _ (Table.get?_eq_some.1 he)
      refine ⟨?_, rfl⟩
      show (st.clients.byAddr.setBucket a (entries.filter (·.token != t))).Same st.clients.byAddr
      rw [hall, Table.setBucket, if_neg (by simpa using hne)]
      exact Table.same_insert he

theorem deletes_of_true {st st' : ServerState} (h : Consistent st)
    (hhandles : ∀ p ∈ st.delivering, p.2.disconnect = some p.2.token)
    (hunsignalled : ∀ id ∈ st.sessionIds, st.disconnects id.2 = false) {a : SocketAddr} {t : ClientToken}
    (hr : removeClientIfCurrent st a t = some (true, st')) : (Removal.mk a t true st st').Deletes := by
  obtain ⟨hrem, hcon⟩ := removeClientIfCurrent_some h hr
  have hid : (a, t) ∈ st.sessionIds := hrem.result.1 rfl
  have hdelivery : (a, t) ∈ st.deliveryIds := h.same.mem_iff.2 hid
  have hafter : st.sessionIds.Perm ((a, t) :: st'.sessionIds) := (h.erase_id hid).trans (hrem.sessionIds.symm.cons _)
  have hgone : ∀ b, (b, t) ∉ st'.sessionIds := by
    intro b hb
    obtain ⟨hold, hne⟩ := List.mem_filter.1 (hrem.sessionIds.mem_iff.1 hb)
    obtain rfl := eq_of_token h hold hid
    simp at hne
  obtain ⟨d, hd, rfl⟩ := mem_deliveryIds.1 hdelivery
  refine ⟨⟨hid, hdelivery⟩, fun b => ⟨hgone b, fun hb => hgone b (hcon.same.mem_iff.1 hb)⟩, ?_, fun ip => ?_,
    d, d.token, hd, rfl, hhandles (a, d) hd, hunsignalled (a, d.token) hid, ?_⟩
  · show st.clients.total = st'.clients.total + 1
    rw [h.total, hcon.total, hafter.length_eq, List.length_cons]
  · show (st.clients.perIp.get? ip).getD 0 = (st'.clients.perIp.get? ip).getD 0 + if ip = a.ip then 1 else 0
    rw [h.perIp, hcon.perIp, slots_getD, slots_getD, hafter.countP_eq, List.countP_cons]
    by_cases hip : ip = a.ip
    · simp [hip]
    · simp [hip, Ne.symm hip]
  · show st'.disconnects d.token = true
    rw [hrem.disconnects, Bool.or_eq_true, List.any_eq_true]
    exact .inr ⟨(a, d), hd, by simpa using hhandles (a, d) hd⟩

theorem spares_of_removes {st st' : ServerState} (hhandles : ∀ p ∈ st.delivering, p.2.disconnect = some p.2.token)
    {a : SocketAddr} {t : ClientToken} {removed : Bool} (hrem : Removes st a t removed st') :
    (Removal.mk a t removed st st').Spares := by
  refine ⟨(hrem.sessions.filter _).trans (.of_eq ?_), (hrem.delivering.filter _).trans (.of_eq ?_), ?_, hrem.channels,
    hrem.history⟩
  · rw [List.filter_filter]
    refine List.filter_congr fun p _ => ?_
    by_cases ht : p.2.token = t <;> simp [ht]
  · rw [List.filter_filter]
    refine List.filter_congr fun p _ => ?_
    by_cases ht : p.2.token = t <;> simp [ht]
  · intro p hp ht w hw
    show st'.disconnects w = st.disconnects w
    rw [hrem.disconnects, List.any_eq_false.2, Bool.or_false]
    intro q hq hmatch
    simp only [Bool.and_eq_true, decide_eq_true_eq, beq_iff_eq] at hmatch
    obtain ⟨⟨-, hqt⟩, hqw⟩ := hmatch
    apply ht
    rw [hhandles p hp] at hw
    rw [hhandles q hq] at hqw
    rw [Option.some.inj hw, ← Option.some.inj hqw]
    exact hqt

/-! ## Over a run -/

/-- What the trace has of the sessions removed: each once, and their watches are those signalled. -/
structure Signalled (w : World) : Prop where
  once : (removedTokens w.trace).Nodup
  signalled : ∀ t, w.st.disconnects t = true ↔ t ∈ removedTokens w.trace

theorem signalled_init : Signalled .init where
  once := List.nodup_nil
  signalled t := by
    constructor
    · intro h
      cases h
    · intro h
      cases h

theorem Signalled.step {w w' : World} {x : Option Doomed} (htracked : Tracked w.shared) (hfed : Fed w.shared)
    (hs : Signalled w) (h : Removing w w' x) : Signalled w' := by
  cases h with
  | none htr hd =>
    refine ⟨by rw [htr]; exact hs.once, fun t => ?_⟩
    rw [htr, hd]
    exact hs.signalled t
  | @call a t removed hcall htr =>
    have hrem := (removeClientIfCurrent_some hfed.consistent hcall).1
    have hdisconnects : ∀ u, w'.st.disconnects u = true ↔ w.st.disconnects u = true ∨ (removed = true ∧ u = t) := by
      intro u
      rw [hrem.disconnects, Bool.or_eq_true, List.any_eq_true]
      apply or_congr Iff.rfl
      rw [hrem.result]
      constructor
      · rintro ⟨p, hp, hmatch⟩
        simp only [Bool.and_eq_true, decide_eq_true_eq, beq_iff_eq, (hfed.handles p hp).2, Option.some.injEq] at hmatch
        obtain ⟨⟨rfl, rfl⟩, rfl⟩ := hmatch
        exact ⟨hfed.consistent.same.mem_iff.1 (mem_deliveryIds.2 ⟨p.2, hp, rfl⟩), rfl⟩
      · rintro ⟨hid, rfl⟩
        obtain ⟨d, hd, rfl⟩ := mem_deliveryIds.1 (hfed.consistent.same.mem_iff.2 hid)
        exact ⟨(a, d), hd, by simpa using (hfed.handles (a, d) hd).2⟩
    have htokens : removedTokens w'.trace = (if removed then [t] else []) ++ removedTokens w.trace := by
      rw [htr, removedTokens_removedEvent]
    refine ⟨?_, fun u => ?_⟩
    · rw [htokens]
      cases removed with
      | false => exact hs.once
      | true =>
        refine List.nodup_cons.2 ⟨fun hmem => ?_, hs.once⟩
        exact ((htracked.live a t).1 (hrem.result.1 rfl)).2 (mem_removedTokens.1 hmem)
    · rw [hdisconnects, htokens, List.mem_append, hs.signalled]
      cases removed <;> simp [or_comm]

theorem signalled_of_reach {G : World → Label → Prop} {w : World} (hw : System.Reach server G w) : Signalled w := by
  refine hw.invariant signalled_init ?_
  intro w l w' hr hs _ hstep
  have hsections := (sound_of_reach hr).2
  exact hs.step (tracked_of_reach hsections) (fed_of_reach hsections) (removing_of_step hstep)

/-- A session that is registered has a watch nobody signalled. -/
theorem unsignalled_of_reach {G : World → Label → Prop} {w : World} (hw : System.Reach server G w)
    {id : SocketAddr × ClientToken} (hid : id ∈ w.st.sessionIds) : w.st.disconnects id.2 = false := by
  have htracked : Tracked w.shared := tracked_of_reach (sound_of_reach hw).2
  rw [Bool.eq_false_iff]
  intro hsignalled
  exact ((htracked.live id.1 id.2).1 hid).2
    (mem_removedTokens.1 (((signalled_of_reach hw).signalled id.2).1 hsignalled))

/-- What is known of a call. -/
structure Removal.Exact (r : Removal) : Prop where
  deletes : r.removed = true → r.Deletes
  unchanged : r.removed = false → r.Unchanged
  spares : r.Spares

/-- **A step's call** removes its session or does nothing, and is in the trace if it removes. -/
theorem removal_of_step {w w' : World} {l : Label} (hw : System.Reach server System.Any w)
    (hstep : server.step w l = some w') :
    (∀ t, (removedTokens w'.trace).count t = (w.removal l).countP (·.succeeds t) + (removedTokens w.trace).count t) ∧
      ∀ r ∈ w.removal l, r.Exact := by
  have hfed : Fed w.shared := fed_of_reach (sound_of_reach hw).2
  have hhandles : ∀ p ∈ w.st.delivering, p.2.disconnect = some p.2.token := fun p hp => (hfed.handles p hp).2
  have hremoving := removing_of_step hstep
  unfold World.removal
  cases hx : w.removes l with
  | none =>
    rw [hx] at hremoving
    cases hremoving with
    | none htr hd =>
      refine ⟨fun t => by rw [htr]; simp, fun r hr => ?_⟩
      cases hr
  | some x =>
    obtain ⟨a, t⟩ := x
    rw [hx] at hremoving
    cases hremoving with
    | @call _ _ removed hcall htr =>
      dsimp only
      rw [hcall]
      refine ⟨fun u => ?_, fun r hr => ?_⟩
      · rw [htr, removedTokens_removedEvent, List.count_append]
        cases removed with
        | false => simp [Removal.succeeds]
        | true => simp [Removal.succeeds, List.count_singleton]
      · obtain rfl := List.mem_singleton.1 hr
        refine ⟨fun hremoved => ?_, fun hremoved => ?_,
          spares_of_removes hhandles (removeClientIfCurrent_some hfed.consistent hcall).1⟩
        · obtain rfl : removed = true := hremoved
          exact deletes_of_true hfed.consistent hhandles (fun id hid => unsignalled_of_reach hw hid) hcall
        · obtain rfl : removed = false := hremoved
          exact unchanged_of_false hfed.consistent hcall

/-- The calls of a run, and the removals its trace gains. -/
theorem removals_of_run : ∀ {ls : List Label} {w w' : World}, System.Reach server System.Any w →
    server.run w ls = some w' →
    (∀ t, (removedTokens w'.trace).count t = (removals w ls).countP (·.succeeds t) + (removedTokens w.trace).count t) ∧
      ∀ r ∈ removals w ls, r.Exact
  | [], w, w', _, hrun => by
    cases hrun
    refine ⟨fun t => by simp [removals], fun r hr => ?_⟩
    cases hr
  | l :: ls, w, w', hw, hrun => by
    obtain ⟨w₁, hstep, hrest⟩ := Option.bind_eq_some_iff.1 hrun
    obtain ⟨hcount, hexact⟩ := removal_of_step hw hstep
    obtain ⟨hcount', hexact'⟩ := removals_of_run (hw.step trivial hstep) hrest
    have hsplit : removals w (l :: ls) = w.removal l ++ removals w₁ ls := by rw [removals, hstep]
    rw [hsplit]
    refine ⟨fun t => ?_, fun r hr => ?_⟩
    · rw [hcount', hcount, List.countP_append]
      omega
    · rcases List.mem_append.1 hr with hr | hr
      · exact hexact r hr
      · exact hexact' r hr

/-- **Every session is removed once**: over any run, exactly one call of `remove_client_if_current` returns `Ok(true)`
for the token of a session that is registered no more, and none for one that is; that call deletes the session, the
other calls change nothing, and no call does anything to a session with another token. -/
theorem removed_once {ls : List Label} {w : World} (hrun : server.run .init ls = some w) :
    (∀ a t, .registered t a ∈ w.trace →
      (removals .init ls).countP (·.succeeds t) = (if (a, t) ∈ w.st.sessionIds then 0 else 1) ∧
      (w.st.disconnects t = true ↔ (a, t) ∉ w.st.sessionIds)) ∧
    ∀ r ∈ removals .init ls, (r.removed = true → r.Deletes) ∧ (r.removed = false → r.Unchanged) ∧ r.Spares := by
  have hw : System.Reach server System.Any w := System.reach_of_run .init hrun
  have htracked : Tracked w.shared := tracked_of_reach (sound_of_reach hw).2
  have hsettled := signalled_of_reach hw
  obtain ⟨hcount, hexact⟩ := removals_of_run .init hrun
  refine ⟨fun a t hreg => ⟨?_, ?_⟩, fun r hr => ⟨(hexact r hr).deletes, (hexact r hr).unchanged, (hexact r hr).spares⟩⟩
  · have hlive := htracked.live a t
    have ht : (removedTokens w.trace).count t = (removals .init ls).countP (·.succeeds t) := hcount t
    rw [← ht]
    split
    · rename_i hid
      rw [List.count_eq_zero, mem_removedTokens]
      exact (hlive.1 hid).2
    · rename_i hid
      apply List.count_eq_one_of_mem hsettled.once
      rw [mem_removedTokens]
      by_contra hrem
      exact hid (hlive.2 ⟨hreg, hrem⟩)
  · rw [hsettled.signalled, mem_removedTokens]
    constructor
    · intro hrem hid
      exact ((htracked.live a t).1 hid).2 hrem
    · intro hid
      by_contra hrem
      exact hid ((htracked.live a t).2 ⟨hreg, hrem⟩)

/-- Bob's client goes, which his handler finds first, and then his writer. -/
def bobGoes : List Label :=
  registers 0 bobAddr "bob" ++ replays 0 0 ++ enters 0 ++
    [.writer 0 .go, .writer 0 (.written false), .handler 0 (.frame (.ok none)), .handler 0 .go, .writer 0 .go]

theorem removed_once_bob : ∃ w, server.run .init bobGoes = some w ∧
    (removals .init bobGoes).map (fun r => (r.targetToken, r.removed)) = [(0, true), (0, false)] ∧
    ∀ a, .registered 0 a ∈ w.trace →
      (removals .init bobGoes).countP (·.succeeds 0) = if (a, 0) ∈ w.st.sessionIds then 0 else 1 := by
  have hrun : (server.run .init bobGoes).isSome = true := by decide
  obtain ⟨w, hw⟩ := Option.isSome_iff_exists.1 hrun
  refine ⟨w, hw, by decide, ?_⟩
  intro a hreg
  exact ((removed_once hw).1 a 0 hreg).1

end Server
end Drocsid
