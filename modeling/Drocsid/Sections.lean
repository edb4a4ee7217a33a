import Drocsid.Delivery
/-!
# Sections — any callers, interleaved by lock sections

`sections` takes one lock section at a time, for any callers in any order.  What a caller of `with_history_replay` or
`record_and_broadcast` does while it holds `replay_barrier` is `Critical`; whoever else runs meanwhile runs between its
sections. The trace is what happened so far, newest first; it is read by the theorems only.
-/
namespace Drocsid

open Text Protocol

namespace Server

inductive PostKind
  | join | chat | leave
  deriving DecidableEq, Repr

/-- What `MessageHistory::record` keeps of a message. -/
def historyEntry (message : Str) : Str := trimEndMatches '\n' message

/-- The arguments of a `record_and_broadcast`: the message, and the frame its text was encoded to; the message is no
longer than the text, once its line ends are off.  Whose it is and what for is kept for the trace. -/
structure Post where
  session : ClientToken
  kind    : PostKind
  message : Str
  text    : Str
  frame   : Bytes
  encoded : chatFrame text = .ok frame
  fits    : byteLen (historyEntry message) ≤ byteLen text
  deriving DecidableEq

def Post.entry (post : Post) : Str := historyEntry post.message

/-- `encode_frame(FrameType::Chat, text.as_bytes())`, before a `record_and_broadcast` of it. -/
def Post.encode (session : ClientToken) (kind : PostKind) (message text : Str)
    (fits : byteLen (historyEntry message) ≤ byteLen text) : Except ServerError Post :=
  match h : chatFrame text with
  | .ok frame => .ok ⟨session, kind, message, text, frame, h, fits⟩
  | .error e => .error e

inductive Event
  | registered (token : ClientToken) (addr : SocketAddr)
  | named (token : ClientToken)
  | snapshot (token : ClientToken) (history : List Str)
  | replayed (token : ClientToken) (frame : Bytes)
  | ready (token : ClientToken)
  | recorded (post : Post)
  | broadcast (frame : Bytes) (excludeAddr : Option SocketAddr) (doomed : List ClientToken) (post : Option Post)
  | removed (token : ClientToken)
  deriving DecidableEq

/-- What the holder of `replay_barrier` does next. -/
inductive Critical
  /-- `history_snapshot_unlocked`, with the deliveries locked. -/
  | lookup (addr : SocketAddr) (token : ClientToken)
  /-- `history_snapshot_unlocked`, with the history locked. -/
  | snapshot (addr : SocketAddr) (token : ClientToken) (writer : ChannelId)
  /-- `send_message_history`'s closure, with the messages still to send; after them, `mark_client_ready`. -/
  | replay (addr : SocketAddr) (token : ClientToken) (writer : ChannelId) (history : List Str)
  | replayed (result : Except ServerError Unit)
  /-- `record_and_broadcast`, with the history locked. -/
  | record (post : Post) (excludeAddr : Option SocketAddr)
  /-- Its broadcast, with the deliveries locked. -/
  | deliver (post : Post) (excludeAddr : Option SocketAddr)
  /-- Its broadcast, dropping the doomed. -/
  | drop (doomed : List Doomed) (dropped : Bool)

/-- A removal, as the trace has it. -/
def removedEvent (token : ClientToken) (removed : Bool) : List Event := if removed then [.removed token] else []

/-- The next section of the barrier's holder; none if it is done, or panics. -/
def Critical.step (st : ServerState) (rx : List Rx) : Critical → Option (ServerState × Critical × List Event)
  | .lookup a t =>
    match clientWriter st a t with
    | none => some (st, .replayed (.error .unknownClient), [])
    | some writer => some (st, .snapshot a t writer, [])
  | .snapshot a t writer => some (st, .replay a t writer st.history.snapshot, [.snapshot t st.history.snapshot])
  | .replay a t writer (message :: history) =>
    match chatFrame message with
    | .error e => some (st, .replayed (.error e), [])
    | .ok frame =>
      match (st.channels writer).trySend frame with
      | .error e => some (st, .replayed (.error (sendError e)), [])
      | .ok channel => some (setChannel st writer channel, .replay a t writer history, [.replayed t frame])
  | .replay a t _ [] =>
    match markClientReady st a t rx with
    | (.ok (), st') => some (st', .replayed (.ok ()), [.ready t])
    | (.error e, st') => some (st', .replayed (.error e), [])
  | .replayed _ => none
  | .record post ex => some ({ st with history := st.history.record post.message }, .deliver post ex, [.recorded post])
  | .deliver post ex =>
    let (st', doomed) := Server.deliver st post.frame ex
    some (st', .drop doomed !doomed.isEmpty, [.broadcast post.frame ex (doomed.map Prod.snd) (some post)])
  | .drop ((a, t) :: doomed) dropped =>
    (removeClientIfCurrent st a t).map fun (removed, st') => (st', .drop doomed dropped, removedEvent t removed)
  | .drop [] _ => none

/-- What the holder's call returns, when it has nothing left to do but to unlock: whether clients were dropped, or an
error. -/
def Critical.result : Critical → Option (Except ServerError Bool)
  | .replayed (.ok ()) => some (.ok false)
  | .replayed (.error e) => some (.error e)
  | .drop [] dropped => some (.ok dropped)
  | _ => none

/-- The tokens whose replay has begun. -/
def snapshots : List Event → List ClientToken
  | [] => []
  | .snapshot t _ :: tr => t :: snapshots tr
  | _ :: tr => snapshots tr

structure Shared where
  st      : ServerState
  barrier : Option Critical
  trace   : List Event

inductive Section
  | register (address : SocketAddr)
  | setUsername (addr : SocketAddr) (token : ClientToken) (username : Str)
  | remove (addr : SocketAddr) (token : ClientToken)
  | lockReplay (addr : SocketAddr) (token : ClientToken)
  | lockRecord (post : Post) (excludeAddr : Option SocketAddr)
  | advance (rx : List Rx)
  | unlock
  /-- A broadcast that records nothing: `broadcast_presence`'s. -/
  | broadcast (users : List Str) (excludeAddr : Option SocketAddr)
  | receive (channel : ChannelId)
  | close (channel : ChannelId)
  | reorder (clients : Table SocketAddr (List ClientSession)) (deliveries : Table SocketAddr (List ClientDelivery))

/-- A session registers with a channel and a watch of its own: both go by its token. -/
def registerSession (st : ServerState) (address : SocketAddr) : Except ServerError (ClientToken × ServerState) :=
  registerPendingClient st address st.nextToken st.nextToken

/-- The channel's receiver takes a message. -/
def receiveOn (st : ServerState) (channel : ChannelId) : ServerState :=
  setChannel st channel ((st.channels channel).tick { take := 1 })

/-- The channel's receiver is dropped. -/
def closeOn (st : ServerState) (channel : ChannelId) : ServerState :=
  setChannel st channel ((st.channels channel).tick { close := true })

/-- Any callers; each session's history is replayed once. -/
def sections : System Shared Section where
  init := ⟨.new, none, []⟩
  step s
    | .register a =>
      match registerSession s.st a with
      | .ok (t, st) => some { s with st, trace := .registered t a :: s.trace }
      | .error _ => none
    | .setUsername a t u =>
      match setClientUsername s.st a t u with
      | .ok st => some { s with st, trace := .named t :: s.trace }
      | .error _ => none
    | .remove a t => (removeClientIfCurrent s.st a t).map fun (removed, st) =>
        { s with st, trace := removedEvent t removed ++ s.trace }
    | .lockReplay a t =>
      if s.barrier.isNone ∧ t ∉ snapshots s.trace then some { s with barrier := some (.lookup a t) } else none
    | .lockRecord post ex => if s.barrier.isNone then some { s with barrier := some (.record post ex) } else none
    | .advance rx => s.barrier.bind fun c => (c.step s.st rx).map fun (st, c, events) =>
        ⟨st, some c, events ++ s.trace⟩
    | .unlock => s.barrier.bind fun c => if c.result.isSome then some { s with barrier := none } else none
    | .broadcast users ex =>
      match presenceFrame users with
      | .error _ => none
      | .ok frame =>
        let (st, doomed) := deliver s.st frame ex
        some { s with st, trace := .broadcast frame ex (doomed.map Prod.snd) none :: s.trace }
    | .receive channel => some { s with st := receiveOn s.st channel }
    | .close channel => some { s with st := closeOn s.st channel }
    | .reorder clients deliveries => (reorder s.st clients deliveries).map fun st => { s with st }

/-! ## What a section can do -/

/-- The next section of the barrier's holder, by what it writes. -/
inductive Critical.Advances (st : ServerState) (rx : List Rx) : Critical → ServerState → Critical → List Event → Prop
  | unknown {a t} (h : clientWriter st a t = none) :
    Advances st rx (.lookup a t) st (.replayed (.error .unknownClient)) []
  | found {a t w} (h : clientWriter st a t = some w) : Advances st rx (.lookup a t) st (.snapshot a t w) []
  | snapshot {a t w} :
    Advances st rx (.snapshot a t w) st (.replay a t w st.history.snapshot) [.snapshot t st.history.snapshot]
  | unencoded {a t w m rest e} (h : chatFrame m = .error e) :
    Advances st rx (.replay a t w (m :: rest)) st (.replayed (.error e)) []
  | refused {a t w m rest frame e} (hf : chatFrame m = .ok frame) (h : (st.channels w).trySend frame = .error e) :
    Advances st rx (.replay a t w (m :: rest)) st (.replayed (.error (sendError e))) []
  | replayed {a t w m rest frame channel} (hf : chatFrame m = .ok frame)
    (h : (st.channels w).trySend frame = .ok channel) :
    Advances st rx (.replay a t w (m :: rest)) (setChannel st w channel) (.replay a t w rest) [.replayed t frame]
  | readied {a t w st'} (h : markClientReady st a t rx = (.ok (), st')) :
    Advances st rx (.replay a t w []) st' (.replayed (.ok ())) [.ready t]
  | unreadied {a t w e st'} (h : markClientReady st a t rx = (.error e, st')) :
    Advances st rx (.replay a t w []) st' (.replayed (.error e)) []
  | record {post ex} : Advances st rx (.record post ex) { st with history := st.history.record post.message }
    (.deliver post ex)
      [.recorded post]
  | deliver {post ex} : Advances st rx (.deliver post ex) (Server.deliver st post.frame ex).1
      (.drop (Server.deliver st post.frame ex).2 !(Server.deliver st post.frame ex).2.isEmpty)
      [.broadcast post.frame ex ((Server.deliver st post.frame ex).2.map Prod.snd) (some post)]
  | drop {a t doomed dropped removed st'} (h : removeClientIfCurrent st a t = some (removed, st')) :
    Advances st rx (.drop ((a, t) :: doomed) dropped) st' (.drop doomed dropped) (removedEvent t removed)

theorem advances_of_step {c c' : Critical} {st st' : ServerState} {rx : List Rx} {events : List Event}
    (h : c.step st rx = some (st', c', events)) : c.Advances st rx st' c' events := by
  cases c with
  | lookup a t =>
    rw [Critical.step] at h
    split at h
    · rename_i hw; cases h; exact .unknown hw
    · rename_i hw; cases h; exact .found hw
  | snapshot a t w => cases h; exact .snapshot
  | replay a t w history =>
    cases history with
    | nil =>
      rw [Critical.step] at h
      split at h
      · rename_i hm; cases h; exact .readied hm
      · rename_i hm; cases h; exact .unreadied hm
    | cons m rest =>
      rw [Critical.step] at h
      split at h
      · rename_i hf; cases h; exact .unencoded hf
      · rename_i hf
        split at h
        · rename_i hs; cases h; exact .refused hf hs
        · rename_i hs; cases h; exact .replayed hf hs
  | replayed result => cases h
  | record post ex => cases h; exact .record
  | deliver post ex => cases h; exact .deliver
  | drop doomed dropped =>
    cases doomed with
    | nil => cases h
    | cons x doomed =>
      obtain ⟨⟨removed, st'⟩, hr, he⟩ := Option.map_eq_some_iff.1 h
      cases he
      exact .drop hr

/-- A section that writes only who holds the barrier, and where the holder is. -/
inductive MovesBarrier (s : Shared) : Section → Option Critical → Prop
  | lockReplay {a t} (hb : s.barrier = none) (ht : t ∉ snapshots s.trace) :
    MovesBarrier s (.lockReplay a t) (some (.lookup a t))
  | lockRecord {post ex} (hb : s.barrier = none) : MovesBarrier s (.lockRecord post ex) (some (.record post ex))
  | unlock {c} (hb : s.barrier = some c) (hd : c.result.isSome = true) : MovesBarrier s .unlock none
  | found {a t d rx} (hb : s.barrier = some (.lookup a t)) (hd : findDelivery s.st a t = some d) :
    MovesBarrier s (.advance rx) (some (.snapshot a t d.writer))
  | unknown {a t rx} (hb : s.barrier = some (.lookup a t)) (hd : findDelivery s.st a t = none) :
    MovesBarrier s (.advance rx) (some (.replayed (.error .unknownClient)))
  | refused {a t w m rest e rx} (hb : s.barrier = some (.replay a t w (m :: rest))) :
    MovesBarrier s (.advance rx) (some (.replayed (.error e)))

/-- Every section, by what it writes. -/
inductive Moves (s : Shared) : Section → Shared → Prop
  | register {a t st} (h : registerSession s.st a = .ok (t, st)) :
    Moves s (.register a) { s with st, trace := .registered t a :: s.trace }
  | setUsername {a t u st} (h : setClientUsername s.st a t u = .ok st) :
    Moves s (.setUsername a t u) { s with st, trace := .named t :: s.trace }
  | remove {a t removed st} (h : removeClientIfCurrent s.st a t = some (removed, st)) :
    Moves s (.remove a t) { s with st, trace := removedEvent t removed ++ s.trace }
  | barrier {l c} (h : MovesBarrier s l c) : Moves s l { s with barrier := c }
  | snapshot {a t w rx} (hb : s.barrier = some (.snapshot a t w)) :
    Moves s (.advance rx) ⟨s.st, some (.replay a t w s.st.history.snapshot),
      .snapshot t s.st.history.snapshot :: s.trace⟩
  | replayed {a t w m rest frame channel rx} (hb : s.barrier = some (.replay a t w (m :: rest)))
      (hf : chatFrame m = .ok frame) (hs : (s.st.channels w).trySend frame = .ok channel) :
    Moves s (.advance rx) ⟨setChannel s.st w channel, some (.replay a t w rest), .replayed t frame :: s.trace⟩
  | readied {a t w st rx} (hb : s.barrier = some (.replay a t w [])) (h : markClientReady s.st a t rx = (.ok (), st)) :
    Moves s (.advance rx) ⟨st, some (.replayed (.ok ())), .ready t :: s.trace⟩
  | unreadied {a t w e st rx} (hb : s.barrier = some (.replay a t w []))
    (h : markClientReady s.st a t rx = (.error e, st)) :
    Moves s (.advance rx) ⟨st, some (.replayed (.error e)), s.trace⟩
  | record {post ex rx} (hb : s.barrier = some (.record post ex)) : Moves s (.advance rx)
      ⟨{ s.st with history := s.st.history.record post.message }, some (.deliver post ex), .recorded post :: s.trace⟩
  | deliver {post ex rx} (hb : s.barrier = some (.deliver post ex)) : Moves s (.advance rx)
      ⟨(deliver s.st post.frame ex).1,
        some (.drop (deliver s.st post.frame ex).2 !(deliver s.st post.frame ex).2.isEmpty),
        .broadcast post.frame ex ((deliver s.st post.frame ex).2.map Prod.snd) (some post) :: s.trace⟩
  | drop {a t doomed dropped removed st rx} (hb : s.barrier = some (.drop ((a, t) :: doomed) dropped))
      (h : removeClientIfCurrent s.st a t = some (removed, st)) :
    Moves s (.advance rx) ⟨st, some (.drop doomed dropped), removedEvent t removed ++ s.trace⟩
  | broadcast {users ex frame} (h : presenceFrame users = .ok frame) : Moves s (.broadcast users ex)
      { s with st := (deliver s.st frame ex).1,
               trace := .broadcast frame ex ((deliver s.st frame ex).2.map Prod.snd) none :: s.trace }
  | tick {l w rx} : Moves s l { s with st := setChannel s.st w ((s.st.channels w).tick rx) }
  | reorder {clients deliveries st} (h : reorder s.st clients deliveries = some st) :
    Moves s (.reorder clients deliveries) { s with st }

theorem moves_of_advance {s : Shared} {c c' : Critical} {rx : List Rx} {st : ServerState} {events : List Event}
    (hb : s.barrier = some c) (hc : c.step s.st rx = some (st, c', events)) :
    Moves s (.advance rx) ⟨st, some c', events ++ s.trace⟩ := by
  cases advances_of_step hc with
  | unknown hw => exact .barrier (.unknown hb (Option.map_eq_none_iff.1 hw))
  | found hw =>
    obtain ⟨d, hd, rfl⟩ := Option.map_eq_some_iff.1 hw
    exact .barrier (.found hb hd)
  | snapshot => exact .snapshot hb
  | unencoded | refused => exact .barrier (.refused hb)
  | replayed hf hs => exact .replayed hb hf hs
  | readied hm => exact .readied hb hm
  | unreadied hm => exact .unreadied hb hm
  | record => exact .record hb
  | deliver => exact .deliver hb
  | drop hr => exact .drop hb hr

theorem moves_of_step {s s' : Shared} {l : Section} (hstep : sections.step s l = some s') : Moves s l s' := by
  cases l with
  | register a =>
    simp only [sections] at hstep
    split at hstep
    · rename_i hr; cases hstep; exact .register hr
    · cases hstep
  | setUsername a t u =>
    simp only [sections] at hstep
    split at hstep
    · rename_i hu; cases hstep; exact .setUsername hu
    · cases hstep
  | remove a t =>
    obtain ⟨⟨b, st⟩, hr, he⟩ := Option.map_eq_some_iff.1 hstep
    cases he
    exact .remove hr
  | lockReplay a t =>
    simp only [sections] at hstep
    split at hstep
    · rename_i hg; cases hstep; exact .barrier (.lockReplay (Option.isNone_iff_eq_none.1 hg.1) hg.2)
    · cases hstep
  | lockRecord post ex =>
    simp only [sections] at hstep
    split at hstep
    · rename_i hg; cases hstep; exact .barrier (.lockRecord (Option.isNone_iff_eq_none.1 hg))
    · cases hstep
  | advance rx =>
    obtain ⟨c, hb, hstep⟩ := Option.bind_eq_some_iff.1 hstep
    obtain ⟨⟨st, c', events⟩, hc, he⟩ := Option.map_eq_some_iff.1 hstep
    cases he
    exact moves_of_advance hb hc
  | unlock =>
    obtain ⟨c, hb, hstep⟩ := Option.bind_eq_some_iff.1 hstep
    split at hstep
    · rename_i hd; cases hstep; exact .barrier (.unlock hb hd)
    · cases hstep
  | broadcast users ex =>
    simp only [sections] at hstep
    split at hstep
    · cases hstep
    · rename_i hf; cases hstep; exact .broadcast hf
  | receive w => cases hstep; exact .tick
  | close w => cases hstep; exact .tick
  | reorder clients deliveries =>
    obtain ⟨st, hr, he⟩ := Option.map_eq_some_iff.1 hstep
    cases he
    exact .reorder hr

end Server
end Drocsid
