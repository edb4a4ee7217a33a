import Drocsid.Locking
import Drocsid.State
/-!
# Locks — the server's operations with their mutexes (`crates/server/src/state.rs`, `connection.rs`)

Each operation is a program over the mutexes it locks: it branches on what it finds under them and writes what `State`
has it write. Alone, a program does what `State`'s operation does.  All lock in one order, `Mutex.Before`, never what
they hold (`operation_ordered`), so their threads do not deadlock (`locks_ordered`).  `rate_limits` is not here:
`allow_message` and `cleanup_rate_limits` lock it, and nothing else.
-/
namespace Drocsid

open Text Protocol Locking

namespace Server

inductive Mutex
  | replayBarrier | clients | deliveries | history
  deriving DecidableEq, Repr

/-- The order of the mutexes: the barrier before all others, and the clients before the deliveries. -/
inductive Mutex.Before : Mutex → Mutex → Prop
  | barrierClients : Before .replayBarrier .clients
  | barrierDeliveries : Before .replayBarrier .deliveries
  | barrierHistory : Before .replayBarrier .history
  | clientsDeliveries : Before .clients .deliveries

instance : IsStrictOrder Mutex Mutex.Before where
  irrefl := by
    intro m h
    cases h
  trans := by
    intro l m n hlm hmn
    cases hlm <;> cases hmn
    exact .barrierDeliveries

/-- Why an operation stopped. -/
inductive Stop
  | error (error : ServerError)
  /-- `ServerError::ClientStatePoisoned` -/
  | poisoned
  | panicked
  deriving DecidableEq, Repr

/-- A part of an operation, with what it returns. -/
abbrev Operation (α : Type) := Fallible Mutex ServerState Stop α

namespace Operation

open Fallible

/-- `mutex.lock().map_err(|_| ServerError::ClientStatePoisoned)?`, and the guard's scope. -/
def lock {α : Type} (m : Mutex) (body : ServerState → Operation α) : Operation α := guarded m .poisoned body

def registerClientWithStatus (address : SocketAddr) (writer : ChannelId) (disconnect : Option WatchId) (ready : Bool) :
    Operation ClientToken :=
  lock .clients fun st =>
    match Server.registerClientWithStatus st address writer disconnect ready with
    | .error e => throw (.error e)
    | .ok (token, st') =>
      lock .deliveries fun _ => andThen (write fun st => { st with
        clients := st'.clients, deliveries := st'.deliveries, nextToken := st'.nextToken }) fun _ => pure token

def setClientUsername (targetAddr : SocketAddr) (targetToken : ClientToken) (username : Str) : Operation PUnit :=
  lock .clients fun st =>
    match Server.setClientUsername st targetAddr targetToken username with
    | .error e => throw (.error e)
    | .ok st' => write fun st => { st with clients := st'.clients }

/-- `rx` is what the channel's receiver does between the sends. -/
def markClientReady (targetAddr : SocketAddr) (targetToken : ClientToken) (rx : List Rx) : Operation PUnit :=
  lock .deliveries fun st =>
    match Server.markClientReady st targetAddr targetToken rx with
    | (result, st') =>
      andThen (write fun st => { st with deliveries := st'.deliveries, channels := st'.channels }) fun _ =>
        match result with
        | .error e => throw (.error e)
        | .ok () => pure ⟨⟩

def historySnapshotUnlocked (targetAddr : SocketAddr) (targetToken : ClientToken) : Operation (ChannelId × List Str) :=
  andThen
    (lock .deliveries fun st =>
      match clientWriter st targetAddr targetToken with
      | none => throw (.error .unknownClient)
      | some writer => pure writer)
    fun writer => andThen (lock .history fun st => pure st.history.snapshot) fun history => pure (writer, history)

def withHistoryReplay (targetAddr : SocketAddr) (targetToken : ClientToken)
    (replay : ChannelId → List Str → Operation PUnit) : Operation PUnit :=
  lock .replayBarrier fun _ =>
    andThen (historySnapshotUnlocked targetAddr targetToken) fun (writer, history) => replay writer history

/-- One message of `send_message_history`'s closure: `try_send` takes no mutex. -/
def sendMessage (writer : ChannelId) (message : Str) : Operation PUnit :=
  match chatFrame message with
  | .error e => throw (.error e)
  | .ok frame => .look fun st =>
    match (st.channels writer).trySend frame with
    | .error e => throw (.error (sendError e))
    | .ok channel => write fun st => setChannel st writer channel

def sendMessageHistory (address : SocketAddr) (token : ClientToken) (rx : List Rx) : Operation PUnit :=
  withHistoryReplay address token fun writer history =>
    andThen (each (sendMessage writer) history) fun _ => markClientReady address token rx

def removeClientIfCurrent (targetAddr : SocketAddr) (targetToken : ClientToken) : Operation Bool :=
  lock .clients fun st =>
    match st.clients.byAddr.get? targetAddr with
    | none => pure false
    | some entries =>
      let retained := entries.filter (·.token != targetToken)
      let clients := { st.clients with byAddr := st.clients.byAddr.setBucket targetAddr retained }
      if retained.length ≠ entries.length then
        match releaseSlot clients targetAddr.ip with
        | none => throw .panicked
        | some clients =>
          andThen (write fun st => { st with clients }) fun _ =>
            andThen (lock .deliveries fun _ => write fun st => forgetDelivery st targetAddr targetToken)
              fun _ => pure true
      else andThen (write fun st => { st with clients }) fun _ => pure false

def broadcast (message : Bytes) (excludeAddr : Option SocketAddr) : Operation Bool :=
  andThen
    (lock .deliveries fun st =>
      match deliver st message excludeAddr with
      | (st', doomed) =>
        andThen (write fun st => { st with deliveries := st'.deliveries, channels := st'.channels })
          fun _ => pure doomed)
    fun doomed =>
      andThen (each (fun d : Doomed => andThen (removeClientIfCurrent d.1 d.2) fun _ => pure ⟨⟩) doomed) fun _ =>
        pure !doomed.isEmpty

def recordAndBroadcast (message : Str) (frame : Bytes) (excludeAddr : Option SocketAddr) : Operation Bool :=
  lock .replayBarrier fun _ =>
    andThen (lock .history fun _ => write fun st => { st with history := st.history.record message }) fun _ =>
      broadcast frame excludeAddr

def usernames : Operation (List Str) := lock .clients fun st => pure (Server.usernames st)

def pruneOverloadedClients : Operation PUnit :=
  andThen (lock .deliveries fun st => pure (overloadedClients st)) fun doomed =>
    each (fun d : Doomed => andThen (removeClientIfCurrent d.1 d.2) fun _ => pure ⟨⟩) doomed

def broadcastPresence : Operation PUnit :=
  andThen pruneOverloadedClients fun _ =>
    andThen usernames fun users =>
      match presenceFrame users with
      | .error e => throw (.error e)
      | .ok frame => andThen (broadcast frame none) fun _ => pure ⟨⟩

def finishSession (senderAddr : SocketAddr) (username : Str) (token : ClientToken) (announceLeave : Bool) :
    Operation PUnit :=
  andThen (removeClientIfCurrent senderAddr token) fun removed =>
    if !removed then pure ⟨⟩
    else if !announceLeave then pure ⟨⟩
    else
      match chatFrame (trimEnd (leaveMessage username)) with
      | .error e => throw (.error e)
      | .ok frame =>
        andThen (recordAndBroadcast (leaveMessage username) frame none) fun _ => broadcastPresence

end Operation

/-! ## Alone -/

/-- What an operation of `State` gives: a result or an error, and the state after it; none panics. -/
abbrev Outcome (α : Type) := Option (Except ServerError α × ServerState)

/-- What two operations give, one after the other. -/
def Outcome.chain {α β : Type} (r : Outcome α) (next : α → ServerState → Outcome β) : Outcome β :=
  match r with
  | some (.ok a, st)    => next a st
  | some (.error e, st) => some (.error e, st)
  | none                => none

/-- **A program alone does what an operation of `State` does.** -/
def Computes {α : Type} (p : Operation α) (st : ServerState) : Outcome α → Prop
  | some (.ok a, st')    => p.alone st = (.ok a, st')
  | some (.error e, st') => p.alone st = (.error (.error e), st')
  | none                 => (p.alone st).1 = .error .panicked

namespace Operation

open Fallible

theorem computes_registerClientWithStatus (st : ServerState) (a : SocketAddr) (w : ChannelId) (d : Option WatchId)
    (ready : Bool) : Computes (registerClientWithStatus a w d ready) st
      (match Server.registerClientWithStatus st a w d ready with
       | .ok (t, st') => some (.ok t, st')
       | .error e => some (.error e, st)) := by
  unfold registerClientWithStatus lock
  cases h : Server.registerClientWithStatus st a w d ready with
  | error e =>
    show (guarded _ _ _ : Operation _).alone st = _
    rw [alone_guarded, h]
    rfl
  | ok r =>
    obtain ⟨t, st'⟩ := r
    show (guarded _ _ _ : Operation _).alone st = _
    rw [alone_guarded, h]
    simp only [alone_guarded, alone_andThen]
    unfold Server.registerClientWithStatus at h
    split at h
    · cases h
    · cases h
      rfl

theorem computes_setClientUsername (st : ServerState) (a : SocketAddr) (t : ClientToken) (u : Str) :
    Computes (setClientUsername a t u) st
      (match Server.setClientUsername st a t u with
       | .ok st' => some (.ok ⟨⟩, st')
       | .error e => some (.error e, st)) := by
  unfold setClientUsername lock
  cases h : Server.setClientUsername st a t u with
  | error e =>
    show (guarded _ _ _ : Operation _).alone st = _
    rw [alone_guarded, h]
    rfl
  | ok st' =>
    show (guarded _ _ _ : Operation _).alone st = _
    rw [alone_guarded, h]
    unfold Server.setClientUsername at h
    split at h
    · cases h
    · split at h
      · cases h
        rfl
      · cases h

theorem computes_markClientReady (st : ServerState) (a : SocketAddr) (t : ClientToken) (rx : List Rx) :
    Computes (markClientReady a t rx) st
      (some ((Server.markClientReady st a t rx).1.map fun _ => ⟨⟩, (Server.markClientReady st a t rx).2)) := by
  have hwrites : { st with deliveries := (Server.markClientReady st a t rx).2.deliveries
                           channels := (Server.markClientReady st a t rx).2.channels } =
                             (Server.markClientReady st a t rx).2 := by
    unfold Server.markClientReady writeDelivery setChannel
    split
    · rfl
    · split <;> split <;> rfl
  have halone : (markClientReady a t rx).alone st =
      match (Server.markClientReady st a t rx).1 with
      | .error e => (.error (.error e), (Server.markClientReady st a t rx).2)
      | .ok () => (.ok ⟨⟩, (Server.markClientReady st a t rx).2) := by
    unfold markClientReady lock
    rw [alone_guarded, alone_andThen]
    simp only [write, Fallible.pure, Prog.alone, hwrites]
    split <;> rfl
  cases h : (Server.markClientReady st a t rx).1 with
  | error e => rw [h] at halone; exact halone
  | ok r => rw [h] at halone; exact halone

theorem computes_removeClientIfCurrent (st : ServerState) (a : SocketAddr) (t : ClientToken) :
    Computes (removeClientIfCurrent a t) st
      ((Server.removeClientIfCurrent st a t).map fun (removed, st') => (.ok removed, st')) := by
  have halone : (removeClientIfCurrent a t).alone st = _ := alone_guarded _ _ _ st
  unfold Server.removeClientIfCurrent
  cases he : st.clients.byAddr.get? a with
  | none =>
    simp only [he] at halone
    exact halone
  | some entries =>
    simp only [he] at halone ⊢
    split at halone
    · rename_i hlen
      rw [if_pos hlen]
      cases hr : releaseSlot _ a.ip with
      | none =>
        simp only [hr] at halone
        exact congrArg Prod.fst halone
      | some clients =>
        simp only [hr, alone_andThen, lock, alone_guarded] at halone
        exact halone
    · rename_i hlen
      rw [if_neg hlen]
      simp only [alone_andThen] at halone
      exact halone

theorem computes_andThen {α β : Type} {p : Operation α} {st : ServerState} {r : Outcome α} {f : α → Operation β}
    {next : α → ServerState → Outcome β} (hp : Computes p st r) (hf : ∀ a st', Computes (f a) st' (next a st')) :
    Computes (andThen p f) st (r.chain next) := by
  rcases r with _ | ⟨e | a, st'⟩
  · have hp : (p.alone st).1 = .error .panicked := hp
    show (Prog.alone (Fallible.andThen p f) st).1 = .error .panicked
    rw [alone_andThen]
    rcases hx : p.alone st with ⟨result, st'⟩
    rw [hx] at hp
    cases hp
    rfl
  · have he : p.alone st = (.error (.error e), st') := hp
    show Prog.alone (Fallible.andThen p f) st = _
    rw [alone_andThen, he]
  · have hp : p.alone st = _ := hp
    have halone : Prog.alone (Fallible.andThen p f) st = (f a).alone st' := by rw [alone_andThen, hp]
    have := hf a st'
    unfold Outcome.chain
    unfold Computes at this ⊢
    rw [halone]
    exact this

theorem computes_pure {α : Type} (a : α) (st : ServerState) : Computes (pure a) st (some (.ok a, st)) := rfl

theorem computes_removeAll : ∀ (doomed : List Doomed) (st : ServerState),
    Computes (each (fun d : Doomed => andThen (removeClientIfCurrent d.1 d.2) fun _ => pure ⟨⟩) doomed) st
      ((removeAll st doomed).map fun st' => (.ok ⟨⟩, st'))
  | [], st => rfl
  | (a, t) :: doomed, st => by
    have hone := computes_andThen (computes_removeClientIfCurrent st a t) fun _ st' => computes_pure PUnit.unit st'
    have hall := computes_andThen hone fun _ st' => computes_removeAll doomed st'
    have he : Outcome.chain
        (Outcome.chain ((Server.removeClientIfCurrent st a t).map fun (removed, st') => (.ok removed, st'))
          fun _ st' => some (.ok PUnit.unit, st'))
        (fun _ st' => (removeAll st' doomed).map fun st'' => (.ok PUnit.unit, st'')) =
        (removeAll st ((a, t) :: doomed)).map fun st' => (.ok PUnit.unit, st') := by
      rw [removeAll]
      cases Server.removeClientIfCurrent st a t <;> rfl
    rw [← he]
    exact hall

theorem computes_broadcast (st : ServerState) (frame : Bytes) (ex : Option SocketAddr) :
    Computes (broadcast frame ex) st ((Server.broadcast st frame ex).map fun (dropped, st') => (.ok dropped, st')) := by
  have hdeliver : Computes (lock .deliveries fun st =>
      match deliver st frame ex with
      | (st', doomed) =>
        andThen (write fun st => { st with deliveries := st'.deliveries, channels := st'.channels })
          fun _ => pure doomed) st
      (some (.ok (deliver st frame ex).2, (deliver st frame ex).1)) := alone_guarded _ _ _ st
  have hall := computes_andThen hdeliver fun doomed st' =>
    computes_andThen (computes_removeAll doomed st') fun _ st'' => computes_pure (!doomed.isEmpty) st''
  have he : Outcome.chain (some (.ok (deliver st frame ex).2, (deliver st frame ex).1)) (fun doomed st' =>
      Outcome.chain ((removeAll st' doomed).map fun st' => (.ok PUnit.unit, st')) fun _ st'' =>
        some (.ok !doomed.isEmpty, st'')) =
      (Server.broadcast st frame ex).map fun (dropped, st') => (.ok dropped, st') := by
    unfold Server.broadcast Outcome.chain
    simp only
    cases removeAll (deliver st frame ex).1 (deliver st frame ex).2 <;> rfl
  rw [← he]
  exact hall

theorem computes_recordAndBroadcast (st : ServerState) (message : Str) (frame : Bytes) (ex : Option SocketAddr) :
    Computes (recordAndBroadcast message frame ex) st
      ((Server.recordAndBroadcast st message frame ex).map fun (dropped, st') => (.ok dropped, st')) := by
  have hrecord : Computes (lock .history fun _ => write fun st => { st with history := st.history.record message }) st
      (some (.ok ⟨⟩, { st with history := st.history.record message })) := alone_guarded _ _ _ st
  have hall := computes_andThen hrecord fun _ st' => computes_broadcast st' frame ex
  have halone : (recordAndBroadcast message frame ex).alone st = _ := alone_guarded _ _ _ st
  unfold Computes
  rw [halone]
  exact hall

theorem computes_broadcastPresence (st : ServerState) :
    Computes broadcastPresence st
      ((Server.broadcastPresence st).map fun (result, st') => (result.map fun _ => ⟨⟩, st')) := by
  have hprune : Computes pruneOverloadedClients st
    ((removeAll st (overloadedClients st)).map fun st' => (.ok ⟨⟩, st')) := by
    have hscan : Computes (lock .deliveries fun st => pure (overloadedClients st)) st
      (some (.ok (overloadedClients st), st)) :=
      alone_guarded _ _ _ st
    exact computes_andThen hscan fun doomed st' => computes_removeAll doomed st'
  have hnames : ∀ st, Computes usernames st (some (.ok (Server.usernames st), st)) := fun st => alone_guarded _ _ _ st
  have hsend : ∀ (users : List Str) (st : ServerState), Computes
      (match presenceFrame users with
       | .error e => throw (.error e)
       | .ok frame => andThen (broadcast frame none) fun _ => pure PUnit.unit) st
      (match presenceFrame users with
       | .error e => some (.error e, st)
       | .ok frame => Outcome.chain ((Server.broadcast st frame none).map fun (dropped, st') => (.ok dropped, st'))
          fun _ st' => some (.ok PUnit.unit, st')) := by
    intro users st
    cases presenceFrame users with
    | error e => rfl
    | ok frame => exact computes_andThen (computes_broadcast st frame none) fun _ st' => computes_pure PUnit.unit st'
  have hall := computes_andThen hprune fun _ st' => computes_andThen (hnames st') fun users st'' => hsend users st''
  unfold Server.broadcastPresence
  cases hr : removeAll st (overloadedClients st) with
  | none =>
    rw [hr] at hall
    exact hall
  | some st' =>
    rw [hr] at hall
    simp only [Option.bind_some]
    cases hf : presenceFrame (Server.usernames st') with
    | error e =>
      simp only [Option.map_some, Outcome.chain, hf] at hall
      exact hall
    | ok frame =>
      simp only [Option.map_some, Outcome.chain, hf] at hall
      cases hb : Server.broadcast st' frame none with
      | none =>
        simp only [hb] at hall ⊢
        exact hall
      | some r =>
        simp only [hb] at hall ⊢
        exact hall


/-! ## In order -/

theorem uses_removeClientIfCurrent (a : SocketAddr) (t : ClientToken) :
    Uses Mutex.Before [.clients, .deliveries] (removeClientIfCurrent a t) := by
  have hforget : Uses Mutex.Before [.deliveries] (lock .deliveries fun _ => write fun st => forgetDelivery st a t) :=
    Uses.guarded (by simp) fun _ => uses_write _
  apply Uses.guarded (by simp [Mutex.Before.clientsDeliveries])
  intro st
  split
  · exact uses_pure _
  · simp only
    split
    · split
      · exact uses_throw _
      · exact (uses_write _).andThen fun _ => hforget.andThen fun _ => uses_pure _
    · exact (uses_write _).andThen fun _ => uses_pure _

theorem uses_removeAll (doomed : List Doomed) : Uses Mutex.Before [.clients, .deliveries]
    (each (fun d : Doomed => andThen (removeClientIfCurrent d.1 d.2) fun _ => pure ⟨⟩) doomed) :=
  uses_each (fun d => (uses_removeClientIfCurrent d.1 d.2).andThen fun _ => uses_pure _) doomed

/-- The doomed are removed after the deliveries are unlocked. -/
theorem uses_broadcast (frame : Bytes) (ex : Option SocketAddr) :
    Uses Mutex.Before [.clients, .deliveries] (broadcast frame ex) := by
  have hdeliver : Uses Mutex.Before [.deliveries] (lock .deliveries fun st =>
      match deliver st frame ex with
      | (st', doomed) =>
        andThen (write fun st => { st with deliveries := st'.deliveries, channels := st'.channels })
          fun _ => pure doomed) :=
    Uses.guarded (by simp) fun _ => (uses_write _).andThen fun _ => uses_pure _
  exact (hdeliver.mono (by simp)).andThen fun doomed => (uses_removeAll doomed).andThen fun _ => uses_pure _

theorem uses_recordAndBroadcast (message : Str) (frame : Bytes) (ex : Option SocketAddr) :
    Uses Mutex.Before [.replayBarrier, .history, .clients, .deliveries] (recordAndBroadcast message frame ex) := by
  have hrecord : Uses Mutex.Before [.history]
    (lock .history fun _ => write fun st => { st with history := st.history.record message }) :=
    Uses.guarded (by simp) fun _ => uses_write _
  refine Uses.guarded ?_ fun _ => ?_
  · simp [Mutex.Before.barrierHistory, Mutex.Before.barrierClients, Mutex.Before.barrierDeliveries]
  · exact (hrecord.mono (by simp)).andThen fun _ => (uses_broadcast frame ex).mono (by simp)

theorem uses_usernames : Uses Mutex.Before [.clients] usernames := Uses.guarded (by simp) fun _ => uses_pure _

theorem uses_broadcastPresence : Uses Mutex.Before [.clients, .deliveries] broadcastPresence := by
  have hscan : Uses Mutex.Before [.deliveries] (lock .deliveries fun st => pure (overloadedClients st)) :=
    Uses.guarded (by simp) fun _ => uses_pure _
  have hprune : Uses Mutex.Before [.clients, .deliveries] pruneOverloadedClients :=
    (hscan.mono (by simp)).andThen fun doomed => uses_removeAll doomed
  refine hprune.andThen fun _ => (uses_usernames.mono (by simp)).andThen ?_
  intro users
  split
  · exact uses_throw _
  · exact (uses_broadcast _ none).andThen fun _ => uses_pure _

theorem uses_markClientReady (a : SocketAddr) (t : ClientToken) (rx : List Rx) :
    Uses Mutex.Before [.deliveries] (markClientReady a t rx) := by
  refine Uses.guarded (by simp) fun st => (uses_write _).andThen fun _ => ?_
  split
  · exact uses_throw _
  · exact uses_pure _

/-- The closure runs with the barrier locked, and the two mutexes of the snapshot unlocked. -/
theorem uses_sendMessageHistory (a : SocketAddr) (t : ClientToken) (rx : List Rx) :
    Uses Mutex.Before [.replayBarrier, .deliveries, .history] (sendMessageHistory a t rx) := by
  have hlookup : Uses Mutex.Before [.deliveries] (lock .deliveries fun st =>
      match clientWriter st a t with
      | none => throw (.error .unknownClient)
      | some writer => pure writer) := by
    refine Uses.guarded (by simp) fun st => ?_
    split
    · exact uses_throw _
    · exact uses_pure _
  have hread : Uses Mutex.Before [.history] (lock .history fun st => pure st.history.snapshot) :=
    Uses.guarded (by simp) fun _ => uses_pure _
  have hsnapshot : Uses Mutex.Before [.deliveries, .history] (historySnapshotUnlocked a t) :=
    (hlookup.mono (by simp)).andThen fun writer => (hread.mono (by simp)).andThen fun _ => uses_pure _
  have hsend : ∀ (writer : ChannelId) (message : Str),
    Uses Mutex.Before [.deliveries, .history] (sendMessage writer message) := by
    intro writer message
    unfold sendMessage
    split
    · exact uses_throw _
    · refine uses_look fun st => ?_
      split
      · exact uses_throw _
      · exact uses_write _
  refine Uses.guarded (by simp [Mutex.Before.barrierDeliveries, Mutex.Before.barrierHistory]) fun _ => ?_
  apply hsnapshot.andThen
  intro (writer, history)
  exact (uses_each (hsend writer) history).andThen fun _ => (uses_markClientReady a t rx).mono (by simp)

theorem uses_finishSession (a : SocketAddr) (username : Str) (t : ClientToken) (announceLeave : Bool) :
    Uses Mutex.Before [.replayBarrier, .history, .clients, .deliveries] (finishSession a username t announceLeave) := by
  refine ((uses_removeClientIfCurrent a t).mono (by simp)).andThen fun removed => ?_
  split
  · exact uses_pure _
  · split
    · exact uses_pure _
    · split
      · exact uses_throw _
      · exact (uses_recordAndBroadcast _ _ none).andThen fun _ => uses_broadcastPresence.mono (by simp)

theorem uses_registerClientWithStatus (a : SocketAddr) (w : ChannelId) (d : Option WatchId) (ready : Bool) :
    Uses Mutex.Before [.clients, .deliveries] (registerClientWithStatus a w d ready) := by
  refine Uses.guarded (by simp [Mutex.Before.clientsDeliveries]) fun st => ?_
  split
  · exact uses_throw _
  · exact Uses.guarded (by simp) fun _ => (uses_write _).andThen fun _ => uses_pure _

theorem uses_setClientUsername (a : SocketAddr) (t : ClientToken) (u : Str) :
    Uses Mutex.Before [.clients] (setClientUsername a t u) := by
  refine Uses.guarded (by simp) fun st => ?_
  split
  · exact uses_throw _
  · exact uses_write _

end Operation

/-! ## No deadlock -/

/-- An operation a task calls. -/
inductive Invocation
  | registerPendingClient (address : SocketAddr) (writer : ChannelId) (disconnect : WatchId)
  | setClientUsername (addr : SocketAddr) (token : ClientToken) (username : Str)
  | markClientReady (addr : SocketAddr) (token : ClientToken) (rx : List Rx)
  | sendMessageHistory (addr : SocketAddr) (token : ClientToken) (rx : List Rx)
  | removeClientIfCurrent (addr : SocketAddr) (token : ClientToken)
  | broadcast (message : Bytes) (excludeAddr : Option SocketAddr)
  | recordAndBroadcast (message : Str) (frame : Bytes) (excludeAddr : Option SocketAddr)
  | usernames
  | broadcastPresence
  | finishSession (addr : SocketAddr) (username : Str) (token : ClientToken) (announceLeave : Bool)

def Invocation.prog : Invocation → Prog Mutex ServerState PUnit
  | .registerPendingClient a w d => (Operation.registerClientWithStatus a w (some d) false).discard
  | .setClientUsername a t u => (Operation.setClientUsername a t u).discard
  | .markClientReady a t rx => (Operation.markClientReady a t rx).discard
  | .sendMessageHistory a t rx => (Operation.sendMessageHistory a t rx).discard
  | .removeClientIfCurrent a t => (Operation.removeClientIfCurrent a t).discard
  | .broadcast m ex => (Operation.broadcast m ex).discard
  | .recordAndBroadcast m frame ex => (Operation.recordAndBroadcast m frame ex).discard
  | .usernames => Operation.usernames.discard
  | .broadcastPresence => Operation.broadcastPresence.discard
  | .finishSession a u t leave => (Operation.finishSession a u t leave).discard

theorem operation_ordered (i : Invocation) : i.prog.Ordered Mutex.Before ∅ ∅ := by
  cases i with
  | registerPendingClient a w d => exact (Operation.uses_registerClientWithStatus a w (some d) false).ordered
  | setClientUsername a t u => exact (Operation.uses_setClientUsername a t u).ordered
  | markClientReady a t rx => exact (Operation.uses_markClientReady a t rx).ordered
  | sendMessageHistory a t rx => exact (Operation.uses_sendMessageHistory a t rx).ordered
  | removeClientIfCurrent a t => exact (Operation.uses_removeClientIfCurrent a t).ordered
  | broadcast m ex => exact (Operation.uses_broadcast m ex).ordered
  | recordAndBroadcast m frame ex => exact (Operation.uses_recordAndBroadcast m frame ex).ordered
  | usernames => exact Operation.uses_usernames.ordered
  | broadcastPresence => exact Operation.uses_broadcastPresence.ordered
  | finishSession a u t leave => exact (Operation.uses_finishSession a u t leave).ordered

/-- **The mutexes do not deadlock**: every path of every operation locks in one strict order, never what it holds, and
unlocks all; and in no state that any threads reach with any operations does one wait for itself through others. -/
theorem locks_ordered : IsStrictOrder Mutex Mutex.Before ∧
    (∀ (i : Invocation) (t : List (Act Mutex)), i.prog.Trace t → Disciplined Mutex.Before ∅ t) ∧
    ∀ (ι : Type) [DecidableEq ι] (s : Threads ι Mutex ServerState),
      System.Reach (threads Invocation.prog) System.Any s → ∀ i, ¬ Relation.TransGen s.WaitsFor i i := by
  refine ⟨inferInstance, ?_, ?_⟩
  · intro i t ht
    exact (operation_ordered i).disciplined ht
  · intro ι _ s hs
    exact (Threads.orderly_of_reach operation_ordered hs).no_cycle

end Server
end Drocsid
