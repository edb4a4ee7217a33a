import Mathlib.Data.List.DropRight
import Drocsid.Runtime
import Drocsid.Selection
/-!
# Transcript — what the client shows of what it read (`crates/tui/src/lib.rs`, `crates/client/src/app.rs`)

Over any interleaving of the two threads the events processed, those on the channel and the one the reader waits to send
are what the reader made of what it read, in order (`Channelled`).  The app's users are the last list processed, and its
messages the last 300 of a log whose lines from the server are the messages processed (`Follows`): nothing is ever
pending, so no message received is taken for the confirmation of one (`transcript_of_reach`).
-/
namespace Drocsid

open Text ByteSource Protocol Server

namespace Client

open Tui (MessageState ChatMessage)

/-! ## The last lines of a log -/

/-- Pushing a line and dropping what passes the limit keeps the last ones of a list that grows. -/
theorem rtake_concat {α : Type*} (n : ℕ) (l : List α) (a : α) : (l ++ [a]).rtake n =
    if (l.rtake n ++ [a]).length > n then (l.rtake n ++ [a]).drop ((l.rtake n ++ [a]).length - n)
    else l.rtake n ++ [a] := by
  simp only [List.rtake, List.length_append, List.length_drop, List.length_singleton]
  rcases Nat.lt_or_ge l.length n with h | h
  · have h0 : l.length - n = 0 := by omega
    rw [if_neg (by omega), h0, show l.length + 1 - n = 0 by omega, List.drop_zero, List.drop_zero]
  · rw [if_pos (by omega), show l.length - (l.length - n) + 1 - n = 1 by omega,
      show l.length + 1 - n = (l.length - n) + 1 by omega, ← List.drop_drop,
      List.drop_append_of_le_length (Nat.sub_le _ _)]

/-- A line of the panel: a message of the server, or one the client wrote itself. -/
inductive Line
  | heard (text : Str)
  | own (text : Str)
  deriving DecidableEq, Repr

def Line.text : Line → Str
  | .heard text | .own text => text

def Line.heard? : Line → Option Str
  | .heard text => some text
  | .own _ => none

/-- The messages kept of a log. -/
def kept (log : List Line) : List ChatMessage :=
  (log.map fun line => ⟨line.text, .confirmed⟩).rtake messageLimit

theorem confirmed_of_kept {log : List Line} {m : ChatMessage} (h : m ∈ kept log) : m.state = .confirmed := by
  obtain ⟨line, -, rfl⟩ := List.mem_map.1 (List.mem_of_mem_drop h)
  rfl

/-- Until the limit is reached all of a log is kept. -/
theorem kept_of_lt {log : List Line} (h : (kept log).length < messageLimit) :
    kept log = log.map fun line => ⟨line.text, .confirmed⟩ := by
  unfold kept List.rtake at h ⊢
  rw [List.length_drop] at h
  rw [show (log.map fun line => (⟨line.text, .confirmed⟩ : ChatMessage)).length - messageLimit = 0 by omega,
    List.drop_zero]

/-- What was heard is in the log, in order. -/
theorem heard_sublist : ∀ log : List Line, ((log.filterMap Line.heard?).map fun text =>
    (⟨text, .confirmed⟩ : ChatMessage)).Sublist (log.map fun line => ⟨line.text, .confirmed⟩)
  | [] => .slnil
  | .heard _ :: log => (heard_sublist log).cons_cons _
  | .own _ :: log => (heard_sublist log).cons _

/-! ## The app -/

def NetworkEvent.text? : NetworkEvent → Option Str
  | .message text => some text
  | _ => none

/-- The users known once the events are processed. -/
def lastUserList (users : List Str) : List NetworkEvent → List Str
  | [] => users
  | .userList users' :: events => lastUserList users' events
  | _ :: events => lastUserList users events

theorem lastUserList_concat (users : List Str) (events : List NetworkEvent) (event : NetworkEvent) :
    lastUserList users (events ++ [event]) = match event with
      | .userList users' => users'
      | _ => lastUserList users events := by
  induction events generalizing users with
  | nil => cases event <;> rfl
  | cons e events ih => cases e <;> exact ih _

/-- The app is what the events processed make of it, but for what the user types and for lines of its own. -/
structure Follows (username : Str) (events : List NetworkEvent) (app : ChatApp) : Prop where
  log : ∃ log, app.messages = kept log ∧ log.filterMap Line.heard? = events.filterMap NetworkEvent.text? ∧
    ∀ text, .own text ∈ log → lit "[system] " <+: text
  users : app.connectedUsers = lastUserList [username] events
  lost : ∀ reason, .disconnected reason ∈ events → app.connected = false ∧ app.exitNotice.isSome = true

/-- Nothing is pending, so nothing received confirms anything. -/
theorem receiveMessage_of_confirmed {app : ChatApp} (h : ∀ m ∈ app.messages, m.state = .confirmed) (message : Str) :
    app.receiveMessage message = app.pushMessage message .confirmed := by
  have hnone : app.messages.any (fun entry => entry.text == message && entry.state == .pending) = false := by
    rw [List.any_eq_false]
    intro m hm
    rw [h m hm, show (MessageState.confirmed == MessageState.pending) = false from rfl, Bool.and_false]
    exact Bool.false_ne_true
  unfold ChatApp.receiveMessage ChatApp.confirmMessage
  simp only [hnone, Bool.false_eq_true, if_false]

theorem messages_pushMessage {app : ChatApp} {log : List Line} (h : app.messages = kept log) (line : Line) :
    (app.pushMessage line.text .confirmed).messages = kept (log ++ [line]) := by
  unfold ChatApp.pushMessage kept
  dsimp only
  rw [h, List.map_append, List.map_singleton, rtake_concat]
  rfl

section Follows

variable {username : Str} {events : List NetworkEvent} {app : ChatApp}

/-- A line of the client's own. -/
theorem Follows.own (h : Follows username events app) {app' : ChatApp} {text : Str} (hs : lit "[system] " <+: text)
    (hm : app'.messages = (app.pushMessage text .confirmed).messages) (hu : app'.connectedUsers = app.connectedUsers)
    (hc : app.connected = false → app'.connected = false)
    (hn : app.exitNotice.isSome = true → app'.exitNotice.isSome = true) : Follows username events app' := by
  obtain ⟨log, hlog, hheard, hown⟩ := h.log
  refine ⟨⟨log ++ [Line.own text], ?_, ?_, ?_⟩, hu.trans h.users, ?_⟩
  · rw [hm]
    exact messages_pushMessage hlog (.own text)
  · rw [List.filterMap_append, hheard]
    exact List.append_nil _
  · intro text' hmem
    rcases List.mem_append.1 hmem with hmem | hmem
    · exact hown text' hmem
    · cases List.mem_singleton.1 hmem
      exact hs
  · intro reason hr
    obtain ⟨h1, h2⟩ := h.lost reason hr
    exact ⟨hc h1, hn h2⟩

theorem Follows.congr (h : Follows username events app) {app' : ChatApp} (hm : app'.messages = app.messages)
    (hu : app'.connectedUsers = app.connectedUsers) (hc : app'.connected = app.connected)
    (hn : app'.exitNotice = app.exitNotice) : Follows username events app' := by
  refine ⟨?_, hu.trans h.users, ?_⟩
  · rw [hm]
    exact h.log
  · rw [hc, hn]
    exact h.lost

/-- **An event processed** is one more line, a list of users or the end. -/
theorem Follows.event (h : Follows username events app) (display : Reason → Str) (event : NetworkEvent) :
    Follows username (events ++ [event]) (event.applyTo display app) := by
  obtain ⟨log, hlog, hheard, hown⟩ := h.log
  have hold : ∀ {reason}, .disconnected reason ∈ events ++ [event] → (∀ r, event ≠ .disconnected r) →
      app.connected = false ∧ app.exitNotice.isSome = true := by
    intro reason hr hne
    rcases List.mem_append.1 hr with hr | hr
    · exact h.lost reason hr
    · exact absurd (List.mem_singleton.1 hr).symm (hne reason)
  cases event with
  | message text =>
    have hconfirmed : ∀ m ∈ app.messages, m.state = .confirmed := fun m hm => confirmed_of_kept (hlog ▸ hm)
    rw [NetworkEvent.applyTo, receiveMessage_of_confirmed hconfirmed]
    refine ⟨⟨log ++ [Line.heard text], messages_pushMessage hlog (.heard text), ?_, ?_⟩, ?_, ?_⟩
    · rw [List.filterMap_append, List.filterMap_append, hheard]
      rfl
    · intro text' hmem
      rcases List.mem_append.1 hmem with hmem | hmem
      · exact hown text' hmem
      · cases List.mem_singleton.1 hmem
    · rw [lastUserList_concat]
      exact h.users
    · intro reason hr
      exact hold hr fun r he => by cases he
  | userList users =>
    obtain ⟨i, -, heq⟩ := updateConnectedUsers_eq app users
    rw [NetworkEvent.applyTo, heq]
    refine ⟨⟨log, hlog, ?_, hown⟩, ?_, ?_⟩
    · rw [List.filterMap_append, hheard]
      exact (List.append_nil _).symm
    · rw [lastUserList_concat]
    · intro reason hr
      exact hold hr fun r he => by cases he
  | disconnected reason =>
    refine ⟨⟨log ++ [Line.own (lit "[system] " ++ display reason)], ?_, ?_, ?_⟩, ?_, ?_⟩
    · have hclosed : ({ app with connected := false } : ChatApp).messages = kept log := hlog
      exact messages_pushMessage hclosed (.own _)
    · rw [List.filterMap_append, List.filterMap_append, hheard]
      rfl
    · intro text' hmem
      rcases List.mem_append.1 hmem with hmem | hmem
      · exact hown text' hmem
      · cases List.mem_singleton.1 hmem
        exact List.prefix_append _ _
    · rw [lastUserList_concat]
      exact h.users
    · intro _ _
      exact ⟨rfl, rfl⟩

/-- An edit writes the input and the selection alone. -/
theorem edits_eq {c : Call} {app' : ChatApp} (hc : c.edits = true) (h : app.call c = some app') :
    ∃ input i, app' = { app with input := input, mentionSelection := i } := by
  cases c with
  | appendInput | popInput =>
    obtain rfl := Option.some.inj h
    exact ⟨_, _, rfl⟩
  | selectPreviousMention =>
    obtain rfl := Option.some.inj h
    by_cases hnil : app.mentionCandidates = []
    · exact ⟨_, _, selectPreviousMention_nil hnil⟩
    · exact ⟨_, _, selectPreviousMention_eq hnil⟩
  | selectNextMention =>
    obtain rfl := Option.some.inj h
    by_cases hnil : app.mentionCandidates = []
    · exact ⟨_, _, selectNextMention_nil hnil⟩
    · exact ⟨_, _, selectNextMention_eq hnil⟩
  | applySelectedMention =>
    rcases applySelectedMention_cases h with rfl | ⟨_, rfl⟩
    · exact ⟨_, _, rfl⟩
    · exact ⟨_, _, rfl⟩
  | pushMessage | receiveMessage | updateConnectedUsers | beginShutdown | markOffline | takeInput => cases hc

theorem Follows.handles (h : Follows username events app) {polled : Polled} {outcome : Written}
    {socket socket' : Socket} {result : Except IoError Unit} {app' : ChatApp}
    (hh : Handles polled outcome app socket result app' socket') : Follows username events app' := by
  have hsystem : ∀ s, lit "[system] " <+: lit "[system] " ++ s := fun s => List.prefix_append _ s
  cases hh with
  | nothing | unpolled => exact h
  | quit => exact h.congr rfl rfl rfl rfl
  | edit _ hc he =>
    obtain ⟨_, _, rfl⟩ := edits_eq hc he
    exact h.congr rfl rfl rfl rfl
  | blank | sent => exact h.congr rfl rfl rfl rfl
  | offline => exact h.own (hsystem (lit "message not sent because the client is offline")) rfl rfl id id
  | refused => exact h.own (hsystem _) rfl rfl (fun _ => rfl) id
  | lost => exact h.own (hsystem _) rfl rfl (fun _ => rfl) (fun _ => rfl)
  | failed => exact h.own (hsystem _) rfl rfl (fun _ => rfl) id

theorem follows_new (username serverAddr : Str) : Follows username [] (.new username serverAddr) where
  log := by
    refine ⟨[.own (lit "[system] Connected to " ++ serverAddr), .own (lit "[system] Type a message and press Enter.")],
      ?_, rfl, ?_⟩
    · simp [kept, List.rtake, messageLimit, ChatApp.new, Line.text]
    intro text hmem
    rcases List.mem_cons.1 hmem with he | hmem
    · cases he
      exact ⟨lit "Connected to " ++ serverAddr, by simp [lit]⟩
    · cases List.mem_singleton.1 hmem
      exact ⟨lit "Type a message and press Enter.", rfl⟩
  users := rfl
  lost _ h := by cases h

end Follows

/-! ## The channel -/

/-- The event the reader waits to send. -/
def ReaderPc.pending : ReaderPc → List NetworkEvent
  | .sending event _ => [event]
  | _ => []

def ReaderPc.goesOn : ReaderPc → Bool
  | .unspawned | .reading => true
  | .sending _ goOn => goOn
  | .finished => false

/-- The events of what was read. -/
def made (heard : List (Except FrameError (Option Frame))) : List NetworkEvent :=
  heard.flatMap fun result => (hear result).2

/-- The events the main thread took off the channel. -/
def Runtime.processed (r : Runtime) : List NetworkEvent := r.events.sent.take r.events.received

theorem made_concat (heard : List (Except FrameError (Option Frame))) (result : Except FrameError (Option Frame)) :
    made (heard ++ [result]) = made heard ++ (hear result).2 := by
  rw [made, List.flatMap_append, List.flatMap_singleton]
  rfl

theorem goesOn_after (next : Bool × List NetworkEvent) : (ReaderPc.after next).goesOn = next.1 := by
  obtain ⟨goOn, events⟩ := next
  cases events with
  | nil => cases goOn <;> rfl
  | cons event events => rfl

/-- A frame makes one event at most. -/
theorem pending_after_hear (result : Except FrameError (Option Frame)) :
    (ReaderPc.after (hear result)).pending = (hear result).2 := by
  cases result with
  | error e => rfl
  | ok frame =>
    cases frame with
    | none => rfl
    | some frame =>
      rcases processFrame_cases frame with ⟨events, hacc⟩ | ⟨reason, hp, -⟩
      · rw [hear, processFrame_accepts hacc]
        cases hacc <;> rfl
      · rw [hear, hp]
        rfl

@[simp] theorem pending_after_nil (goOn : Bool) : (ReaderPc.after (goOn, [])).pending = [] := by cases goOn <;> rfl

/-- The reader sends what it made of what it read, in order, on a channel that holds no more than its capacity. -/
structure Channelled (r : Runtime) : Prop where
  capacity : r.events.capacity = networkEventCapacity
  received : r.events.received ≤ r.events.sent.length
  bounded : r.events.queued.length ≤ networkEventCapacity
  sent : r.events.sent <+: made r.heard
  order : r.events.closed = false → r.events.sent ++ r.reader.pending = made r.heard
  started : r.ui = .start → r.reader = .unspawned
  /-- The reader reads on only after what it goes on from, so only the last read is any other. -/
  goes : r.reader.goesOn = true → ∀ result ∈ r.heard, (hear result).1 = true
  stops : ∀ result ∈ r.heard.dropLast, (hear result).1 = true

section Steps

variable {display : Reason → Str} {username serverAddr : Str} {r r' : Runtime} {a : Action}

theorem Runtime.processed_append_queued (r : Runtime) : r.processed ++ r.events.queued = r.events.sent :=
  List.take_append_drop _ _

/-- A step of the main thread that leaves the channel. -/
theorem Channelled.congr (h : Channelled r) (hr : r'.reader = r.reader) (hh : r'.heard = r.heard)
    (hs : r'.events.sent = r.events.sent) (hv : r'.events.received = r.events.received)
    (hc : r'.events.capacity = r.events.capacity) (ho : r'.events.closed = false → r.events.closed = false)
    (hu : r'.ui ≠ .start) : Channelled r' := by
  have hq : r'.events.queued = r.events.queued := by rw [Fifo.queued, Fifo.queued, hs, hv]
  exact ⟨hc.trans h.capacity, by rw [hv, hs]; exact h.received, by rw [hq]; exact h.bounded,
    by rw [hs, hh]; exact h.sent, fun hcl => by rw [hs, hr, hh]; exact h.order (ho hcl), fun he => absurd he hu,
    by rw [hr, hh]; exact h.goes, by rw [hh]; exact h.stops⟩

theorem Channelled.step (h : Channelled r) (ha : Acts display username r a r') : Channelled r' := by
  cases ha with
  | unnamed | unconnected | ended | undrawn | unhandled | panics =>
    exact h.congr rfl rfl rfl rfl rfl Bool.noConfusion nofun
  | turn | drained | drawn | handled => exact h.congr rfl rfl rfl rfl rfl id nofun
  | connected hu =>
    have hr := h.started hu
    exact ⟨h.capacity, h.received, h.bounded, h.sent, fun hc => by simpa [hr, ReaderPc.pending] using h.order hc,
      nofun, fun _ => h.goes (by rw [hr]; rfl), h.stops⟩
  | received hu hq =>
    have hlen : r.events.received < r.events.sent.length := by
      have := congrArg List.length hq
      rw [Fifo.queued, List.length_drop, List.length_cons] at this
      omega
    refine ⟨h.capacity, hlen, ?_, h.sent, h.order, fun he => ?_, h.goes, h.stops⟩
    · refine Nat.le_trans ?_ h.bounded
      simp only [Fifo.queued, List.length_drop]
      omega
    · rw [hu] at he
      cases he
  | @read result hr =>
    refine ⟨h.capacity, h.received, h.bounded, h.sent.trans ?_, fun hc => ?_, fun he => ?_, fun hg => ?_, ?_⟩
    · rw [made_concat]
      exact List.prefix_append _ _
    · rw [made_concat, ← h.order hc, hr, pending_after_hear]
      simp [ReaderPc.pending]
    · rw [h.started he] at hr
      cases hr
    · rw [goesOn_after] at hg
      intro x hx
      rcases List.mem_append.1 hx with hx | hx
      · exact h.goes (by rw [hr]; rfl) x hx
      · rw [List.mem_singleton.1 hx]
        exact hg
    · rw [List.dropLast_concat]
      exact h.goes (by rw [hr]; rfl)
  | @sent event goOn hr ho hroom =>
    have horder := h.order ho
    rw [hr] at horder
    refine ⟨h.capacity, Nat.le_trans h.received (by simp), ?_, ?_, fun _ => ?_, fun he => ?_, fun hg => ?_, h.stops⟩
    · have hlen := h.received
      have hcap := h.capacity
      simp only [Fifo.queued, List.length_drop, List.length_append, List.length_singleton] at hroom ⊢
      omega
    · exact horder ▸ List.prefix_rfl
    · rw [pending_after_nil, List.append_nil]
      exact horder
    · rw [h.started he] at hr
      cases hr
    · rw [goesOn_after] at hg
      exact h.goes (by rw [hr]; exact hg)
  | @unsent event goOn hr hc =>
    refine ⟨h.capacity, h.received, h.bounded, h.sent, fun ho => ?_, fun he => ?_, fun hg => ?_, h.stops⟩
    · rw [hc] at ho
      cases ho
    · rw [h.started he] at hr
      cases hr
    · rw [goesOn_after] at hg
      exact h.goes (by rw [hr]; exact hg)

theorem channelled_init : Channelled (.init username serverAddr) where
  capacity := rfl
  received := Nat.le_refl 0
  bounded := Nat.zero_le _
  sent := List.prefix_rfl
  order _ := rfl
  started _ := rfl
  goes _ _ h := by cases h
  stops _ h := by cases h

theorem channelled_of_reach {G : Runtime → Action → Prop} (hr : System.Reach (client display username serverAddr) G r) :
    Channelled r :=
  hr.invariant (I := Channelled) channelled_init fun _ _ _ _ h _ hstep => h.step (acts_of_step hstep)

/-- **The app follows the events processed.** -/
theorem Follows.step (hc : Channelled r) (h : Follows username r.processed r.app) (ha : Acts display username r a r') :
    Follows username r'.processed r'.app := by
  cases ha with
  | unnamed | unconnected | ended | undrawn | panics | turn | drained | drawn | connected | read | unsent => exact h
  | handled _ hh | unhandled _ hh => exact h.handles hh
  | @received event rest hu hq =>
    have hprocessed : r.events.sent.take (r.events.received + 1) = r.processed ++ [event] := by
      rw [Runtime.processed, List.take_add_one, ← List.head?_drop]
      rw [Fifo.queued] at hq
      rw [hq]
      rfl
    rw [Runtime.processed]
    dsimp only
    rw [hprocessed]
    exact h.event display event
  | sent =>
    have hle := hc.received
    unfold Runtime.processed at h ⊢
    dsimp only
    rw [List.take_append_of_le_length hle]
    exact h

theorem follows_of_reach {G : Runtime → Action → Prop} (hr : System.Reach (client display username serverAddr) G r) :
    Follows username r.processed r.app :=
  hr.invariant (I := fun r => Follows username r.processed r.app) (follows_new username serverAddr)
    fun _ _ _ hs h _ hstep => h.step (channelled_of_reach hs) (acts_of_step hstep)

/-- What the client shows and holds of what it read. -/
structure Transcript (username : Str) (r : Runtime) : Prop where
  /-- What was processed and what is on the channel, with the event on its way there while the client runs. -/
  sent : r.processed ++ r.events.queued <+: made r.heard
  order : r.events.closed = false → r.processed ++ r.events.queued ++ r.reader.pending = made r.heard
  bounded : r.events.queued.length ≤ networkEventCapacity
  follows : Follows username r.processed r.app

/-- **Nothing the server sends is lost, doubled or shown out of order**, in any interleaving of the client's threads:
the events processed, queued and on their way are those of what was read as long as `run_client` has not returned, and
begin them afterwards; and the app shows the last 300 lines of a log that has exactly the messages processed, in order,
among lines of its own. -/
theorem transcript_of_reach (hr : System.Reach (client display username serverAddr) System.Any r) :
    Transcript username r := by
  have h := channelled_of_reach hr
  constructor
  case sent =>
    rw [r.processed_append_queued]
    exact h.sent
  case order =>
    intro hc
    rw [r.processed_append_queued]
    exact h.order hc
  case bounded => exact h.bounded
  case follows => exact follows_of_reach hr

end Steps

/-- Alice connects, and a line of bob's arrives. -/
def hearsBob : List Action :=
  [.start (.connected .ok), .read (.ok (some ⟨currentProtocolVersion, .chat, toBytes (lit "bob: hi")⟩)), .send, .turn,
    .tryRecv, .tryRecv]

theorem transcript_of_reach_hearsBob : ∃ r, Transcript (lit "alice") r ∧ r.processed = [.message (lit "bob: hi")] := by
  obtain ⟨r, hr, ht⟩ := System.exists_of_run (client (fun _ => []) (lit "alice") (lit "localhost"))
    (fun r => r.processed == [.message (lit "bob: hi")]) hearsBob (by decide +kernel)
  exact ⟨r, transcript_of_reach hr, by simpa using ht⟩

end Client
end Drocsid
