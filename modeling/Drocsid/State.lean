import Mathlib.Logic.Function.Basic
import Drocsid.Table
import Drocsid.Fifo
import Drocsid.Handshake
/-!
# State — the server's shared state and its lock sections (`crates/server/src/state.rs`, `delivery.rs`)

`ServerState` has the two registries and the history.  The channels and disconnect watches that the registries hold
handles of are in it as well, under the handles.  A function here is what its source does in one holding of its locks;
`broadcast`, `record_and_broadcast` and `broadcast_presence` take several, and are given both in parts and, run without
interruption, whole. An operation that would panic is `none`.
-/
namespace Drocsid

open Text Protocol

namespace Server

def messageHistoryLimit : Nat := 100
def maxConnections : Nat := 256
def maxConnectionsPerIp : Nat := 4
def pendingMessagesLimit : Nat := 128
def outboundQueueSize : Nat := messageHistoryLimit + pendingMessagesLimit

inductive IpAddr
  | v4 (bits : BitVec 32)
  | v6 (bits : BitVec 128)
  deriving DecidableEq, Repr

inductive SocketAddr
  | v4 (bits : BitVec 32) (port : UInt16)
  | v6 (bits : BitVec 128) (port : UInt16) (flowinfo scopeId : UInt32)
  deriving DecidableEq, Repr

def SocketAddr.ip : SocketAddr → IpAddr
  | .v4 bits _     => .v4 bits
  | .v6 bits _ _ _ => .v6 bits

/-- The identity of a token's allocation. -/
abbrev ClientToken := Nat
/-- A channel, as its sender refers to it. -/
abbrev ChannelId := Nat
/-- A disconnect watch, as its sender refers to it. -/
abbrev WatchId := Nat

structure ClientSession where
  token    : ClientToken
  username : Option Str
  deriving DecidableEq, Repr

structure ClientRegistry where
  byAddr : Table SocketAddr (List ClientSession)
  perIp  : Table IpAddr Nat
  total  : Nat

structure ClientDelivery where
  addr            : SocketAddr
  token           : ClientToken
  writer          : ChannelId
  disconnect      : Option WatchId
  ready           : Bool
  pendingMessages : List Bytes
  deriving DecidableEq, Repr

structure DeliveryRegistry where
  byAddr : Table SocketAddr (List ClientDelivery)

structure MessageHistory where
  entries : List Str
  limit   : Nat

def MessageHistory.new (limit : Nat) : MessageHistory := ⟨[], limit⟩

def MessageHistory.record (history : MessageHistory) (message : Str) : MessageHistory :=
  let entries := history.entries ++ [trimEndMatches '\n' message]
  { history with entries := if entries.length > history.limit then entries.tail else entries }

def MessageHistory.snapshot (history : MessageHistory) : List Str := history.entries

abbrev Channels := ChannelId → Fifo Bytes

structure ServerState where
  clients     : ClientRegistry
  deliveries  : DeliveryRegistry
  history     : MessageHistory
  channels    : Channels
  disconnects : WatchId → Bool
  /-- The next allocation; the tokens made so far are below it. -/
  nextToken   : ClientToken

def ServerState.new : ServerState where
  clients     := ⟨.empty, .empty, 0⟩
  deliveries  := ⟨.empty⟩
  history     := .new messageHistoryLimit
  channels    := fun _ => .new outboundQueueSize
  disconnects := fun _ => false
  nextToken   := 0

namespace ServerState

/-- The sessions of the client registry, each under its address. -/
def sessions (st : ServerState) : List (SocketAddr × ClientSession) := st.clients.byAddr.items

/-- The deliveries of the delivery registry, each under its address. -/
def delivering (st : ServerState) : List (SocketAddr × ClientDelivery) := st.deliveries.byAddr.items

end ServerState

/-- A send's error, as `send_message_history` and `mark_client_ready` report it. -/
def sendError : SendError → ServerError
  | .full   => .outboundQueueFull
  | .closed => .outboundWriterGone

/-- Both registries are written, or on an error neither. -/
def registerClientWithStatus (st : ServerState) (address : SocketAddr) (writer : ChannelId)
    (disconnect : Option WatchId) (ready : Bool) : Except ServerError (ClientToken × ServerState) :=
  if st.clients.total ≥ maxConnections ∨ (st.clients.perIp.get? address.ip).getD 0 ≥ maxConnectionsPerIp then
    .error .connectionLimitReached
  else
    let token := st.nextToken
    .ok (token, { st with
      clients :=
        { byAddr := st.clients.byAddr.push address ⟨token, none⟩
          perIp  := st.clients.perIp.insert address.ip ((st.clients.perIp.get? address.ip).getD 0 + 1)
          total  := st.clients.total + 1 }
      deliveries := ⟨st.deliveries.byAddr.push address ⟨address, token, writer, disconnect, ready, []⟩⟩
      nextToken  := token + 1 })

def registerPendingClient (st : ServerState) (address : SocketAddr) (writer : ChannelId) (disconnect : WatchId) :
    Except ServerError (ClientToken × ServerState) :=
  registerClientWithStatus st address writer (some disconnect) false

/-- The first member with a property, written. -/
def modifyFirst {α : Type*} (p : α → Bool) (f : α → α) : List α → List α
  | [] => []
  | a :: l => if p a then f a :: l else a :: modifyFirst p f l

/-- `get(&addr).and_then(|entries| entries.iter().find(..))`. -/
def findDelivery (st : ServerState) (targetAddr : SocketAddr) (targetToken : ClientToken) : Option ClientDelivery :=
  (st.deliveries.byAddr.get? targetAddr).bind (List.find? (·.token == targetToken))

/-- Writes the delivery `findDelivery` finds. -/
def writeDelivery (st : ServerState) (targetAddr : SocketAddr) (targetToken : ClientToken)
    (f : ClientDelivery → ClientDelivery) : ServerState :=
  match st.deliveries.byAddr.get? targetAddr with
  | none => st
  | some entries =>
    { st with deliveries := ⟨st.deliveries.byAddr.insert targetAddr (modifyFirst (·.token == targetToken) f entries)⟩ }

def setChannel (st : ServerState) (writer : ChannelId) (channel : Fifo Bytes) : ServerState :=
  { st with channels := Function.update st.channels writer channel }

/-- `rx` is what the channel's receiver does between the sends. -/
def markClientReady (st : ServerState) (targetAddr : SocketAddr) (targetToken : ClientToken) (rx : List Rx) :
    Except ServerError Unit × ServerState :=
  match findDelivery st targetAddr targetToken with
  | none => (.error .unknownClient, st)
  | some client =>
    match (st.channels client.writer).sendAll client.pendingMessages rx with
    | (channel, unsent, some e) =>
      (.error (sendError e), writeDelivery (setChannel st client.writer channel) targetAddr targetToken
        (fun client => { client with pendingMessages := unsent }))
    | (channel, _, none) =>
      (.ok (), writeDelivery (setChannel st client.writer channel) targetAddr targetToken
        (fun client => { client with pendingMessages := [], ready := true }))

/-- The deliveries section of `history_snapshot_unlocked`. -/
def clientWriter (st : ServerState) (targetAddr : SocketAddr) (targetToken : ClientToken) : Option ChannelId :=
  (findDelivery st targetAddr targetToken).map (·.writer)

/-- `clients.total -= 1` and the same for the address's `per_ip` entry, which an `unwrap` takes. -/
def releaseSlot (clients : ClientRegistry) (ip : IpAddr) : Option ClientRegistry :=
  match clients.total, clients.perIp.get? ip with
  | total + 1, some (ipCount + 1) =>
    some { clients with
      total := total
      perIp := if ipCount = 0 then clients.perIp.erase ip else clients.perIp.insert ip ipCount }
  | _, _ => none

/-- The deliveries section of `remove_client_if_current`: signals the client's watch and forgets it. -/
def forgetDelivery (st : ServerState) (targetAddr : SocketAddr) (targetToken : ClientToken) : ServerState :=
  match st.deliveries.byAddr.get? targetAddr with
  | none => st
  | some entries =>
    { st with
      disconnects := fun w => st.disconnects w ||
        (entries.filter (·.token == targetToken)).any (·.disconnect == some w)
      deliveries := ⟨st.deliveries.byAddr.setBucket targetAddr (entries.filter (·.token != targetToken))⟩ }

def removeClientIfCurrent (st : ServerState) (targetAddr : SocketAddr) (targetToken : ClientToken) :
    Option (Bool × ServerState) :=
  match st.clients.byAddr.get? targetAddr with
  | none => some (false, st)
  | some entries =>
    let retained := entries.filter (·.token != targetToken)
    let clients := { st.clients with byAddr := st.clients.byAddr.setBucket targetAddr retained }
    if retained.length ≠ entries.length then
      (releaseSlot clients targetAddr.ip).map fun clients =>
        (true, forgetDelivery { st with clients := clients } targetAddr targetToken)
    else some (false, { st with clients := clients })

def setClientUsername (st : ServerState) (targetAddr : SocketAddr) (targetToken : ClientToken) (username : Str) :
    Except ServerError ServerState :=
  match st.clients.byAddr.get? targetAddr with
  | none => .error .unknownClient
  | some entries =>
    if entries.any (·.token == targetToken) then
      let named := modifyFirst (·.token == targetToken)
        (fun client => { client with username := some username }) entries
      .ok { st with clients := { st.clients with byAddr := st.clients.byAddr.insert targetAddr named } }
    else .error .unknownClient

/-! ## Broadcasting -/

abbrev Doomed := SocketAddr × ClientToken

/-- One turn of `broadcast`'s loop, with the channels and the doomed clients so far. -/
def deliverTo (frame : Bytes) (excludeAddr : Option SocketAddr) (acc : Channels × List Doomed)
    (client : ClientDelivery) : (Channels × List Doomed) × ClientDelivery :=
  if excludeAddr = some client.addr then (acc, client)
  else if client.ready then
    match (acc.1 client.writer).trySend frame with
    | .ok channel => ((Function.update acc.1 client.writer channel, acc.2), client)
    | .error _ => ((acc.1, acc.2 ++ [(client.addr, client.token)]), client)
  else if client.pendingMessages.length ≥ pendingMessagesLimit then
    ((acc.1, acc.2 ++ [(client.addr, client.token)]), client)
  else (acc, { client with pendingMessages := client.pendingMessages ++ [frame] })

/-- The deliveries section of `broadcast`, and the clients it dooms. -/
def deliver (st : ServerState) (frame : Bytes) (excludeAddr : Option SocketAddr) : ServerState × List Doomed :=
  let r := st.deliveries.byAddr.forItems (deliverTo frame excludeAddr) (st.channels, [])
  ({ st with channels := r.1.1, deliveries := ⟨r.2⟩ }, r.1.2)

/-- The loop over doomed clients. -/
def removeAll (st : ServerState) : List Doomed → Option ServerState
  | [] => some st
  | (address, token) :: doomed => (removeClientIfCurrent st address token).bind fun r => removeAll r.2 doomed

def broadcast (st : ServerState) (frame : Bytes) (excludeAddr : Option SocketAddr) : Option (Bool × ServerState) :=
  let (st, doomed) := deliver st frame excludeAddr
  (removeAll st doomed).map fun st => (!doomed.isEmpty, st)

def recordAndBroadcast (st : ServerState) (message : Str) (frame : Bytes) (excludeAddr : Option SocketAddr) :
    Option (Bool × ServerState) :=
  broadcast { st with history := st.history.record message } frame excludeAddr

def usernames (st : ServerState) : List Str := st.sessions.filterMap (·.2.username)

/-- The scan of `prune_overloaded_clients`. -/
def overloadedClients (st : ServerState) : List Doomed :=
  (st.delivering.map Prod.snd).filterMap fun client =>
    if (if client.ready then (st.channels client.writer).closed
        else decide (client.pendingMessages.length ≥ pendingMessagesLimit)) then some (client.addr, client.token)
    else none

/-- `encode_presence` as `broadcast_presence` reports its error. -/
def presenceFrame (users : List Str) : Except ServerError Bytes :=
  match encodePresence users with
  | .ok frame => .ok frame
  | .error _ => .error .presenceEncodingFailed

theorem encodePresence_of_presenceFrame {users : List Str} {frame : Bytes} (h : presenceFrame users = .ok frame) :
    encodePresence users = .ok frame := by
  unfold presenceFrame at h
  split at h
  · rename_i he; cases h; exact he
  · cases h

def broadcastPresence (st : ServerState) : Option (Except ServerError Unit × ServerState) :=
  (removeAll st (overloadedClients st)).bind fun st =>
    match presenceFrame (usernames st) with
    | .error e => some (.error e, st)
    | .ok frame => (broadcast st frame none).map fun r => (.ok (), r.2)

end Server
end Drocsid
