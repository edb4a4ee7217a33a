import Drocsid.Transition
import Drocsid.State
import Drocsid.ChatLine
/-!
# App — the state of the terminal client (`crates/client/src/app.rs`)

The input line, the messages drawn and the users known.  A mention is completed at the last `@` of the input, from the
users whose name starts with what stands after it.  What completion writes and submission sends is said of any state the
calls of the event loop lead to (`applySelectedMention_eq`, `takeInput_completed`).
-/
namespace Drocsid

open Text Protocol Server

namespace Client

open Tui (MessageState ChatMessage)

def messageLimit : Nat := 300

structure ChatApp where
  username         : Str
  input            : Str
  messages         : List ChatMessage
  connectedUsers   : List Str
  mentionSelection : Nat
  connected        : Bool
  exitNotice       : Option Str
  shouldQuit       : Bool
  deriving DecidableEq, Repr

/-- What stands after the last `@`, if it is one word and the `@` starts one. -/
def activeMentionQuery (input : Str) : Option Str :=
  match rsplitOnce '@' input with
  | none => none
  | some (before, mention) =>
    if mention.any isWhitespace then none
    else match before.getLast? with
      | none => some mention
      | some previous => if isWhitespace previous then some mention else none

theorem activeMentionQuery_eq_some {input query : Str} :
    activeMentionQuery input = some query ↔ ∃ before, rsplitOnce '@' input = some (before, query) ∧
      query.any isWhitespace = false ∧ ∀ c, before.getLast? = some c → isWhitespace c = true := by
  unfold activeMentionQuery
  cases hsplit : rsplitOnce '@' input with
  | none => simp
  | some parts =>
    obtain ⟨before, mention⟩ := parts
    cases hword : mention.any isWhitespace with
    | true =>
      simp only [hword, if_true, Option.some.injEq, Prod.mk.injEq, reduceCtorEq, false_iff]
      rintro ⟨_, ⟨rfl, rfl⟩, hq, -⟩
      rw [hword] at hq
      cases hq
    | false =>
      cases hlast : before.getLast? with
      | none =>
        simp only [hword, hlast, Bool.false_eq_true, if_false, Option.some.injEq, Prod.mk.injEq]
        constructor
        · rintro rfl
          exact ⟨before, ⟨rfl, rfl⟩, hword, fun c hc => by rw [hlast] at hc; cases hc⟩
        · rintro ⟨_, ⟨rfl, rfl⟩, -⟩
          rfl
      | some previous =>
        simp only [hword, hlast, Bool.false_eq_true, if_false, Option.some.injEq, Prod.mk.injEq]
        constructor
        · intro h
          split at h
          · rename_i hp
            cases h
            exact ⟨before, ⟨rfl, rfl⟩, hword, fun c hc => by rw [hlast] at hc; cases hc; exact hp⟩
          · cases h
        · rintro ⟨_, ⟨rfl, rfl⟩, -, hp⟩
          exact if_pos (hp previous hlast)

namespace ChatApp

def new (username serverAddr : Str) : ChatApp where
  username := username
  input := []
  messages := [⟨lit "[system] Connected to " ++ serverAddr, .confirmed⟩,
    ⟨lit "[system] Type a message and press Enter.", .confirmed⟩]
  connectedUsers := [username]
  mentionSelection := 0
  connected := true
  exitNotice := none
  shouldQuit := false

def pushMessage (app : ChatApp) (message : Str) (state : MessageState) : ChatApp :=
  let messages := app.messages ++ [⟨message, state⟩]
  { app with messages := if messages.length > messageLimit then messages.drop (messages.length - messageLimit)
    else messages }

def confirmMessage (app : ChatApp) (message : Str) : Bool × ChatApp :=
  let isEntry := fun entry : ChatMessage => entry.text == message && entry.state == .pending
  if app.messages.any isEntry then
    (true, { app with messages := modifyFirst isEntry (fun entry => { entry with state := .confirmed }) app.messages })
  else (false, app)

def receiveMessage (app : ChatApp) (message : Str) : ChatApp :=
  let (confirmed, app') := app.confirmMessage message
  if confirmed then app' else app'.pushMessage message .confirmed

def mentionCandidates (app : ChatApp) : List Str :=
  match activeMentionQuery app.input with
  | none => []
  | some query => app.connectedUsers.filter fun user => (toAsciiLowercase query).isPrefixOf (toAsciiLowercase user)

def updateConnectedUsers (app : ChatApp) (users : List Str) : ChatApp :=
  let app := { app with connectedUsers := users }
  let candidatesLen := app.mentionCandidates.length
  if candidatesLen = 0 then { app with mentionSelection := 0 }
  else if app.mentionSelection ≥ candidatesLen then { app with mentionSelection := candidatesLen - 1 }
  else app

def beginShutdown (app : ChatApp) (reason : Str) : ChatApp :=
  let app := { app with connected := false }.pushMessage (lit "[system] " ++ reason) .confirmed
  { app with exitNotice := some reason }

def markOffline (app : ChatApp) (reason : Str) : ChatApp :=
  { app with connected := false }.pushMessage (lit "[system] " ++ reason) .confirmed

def resetMentionSelection (app : ChatApp) : ChatApp := { app with mentionSelection := 0 }

def appendInput (app : ChatApp) (character : Char) : ChatApp :=
  { app with input := app.input ++ [character] }.resetMentionSelection

def popInput (app : ChatApp) : ChatApp := { app with input := app.input.dropLast }.resetMentionSelection

/-- The content submitted, and the app with its input cleared. -/
def takeInput (app : ChatApp) : Str × ChatApp := (trim app.input, { app with input := [] })

def selectPreviousMention (app : ChatApp) : ChatApp :=
  let candidates := app.mentionCandidates
  if candidates.isEmpty then app
  else if app.mentionSelection = 0 then { app with mentionSelection := candidates.length - 1 }
  else { app with mentionSelection := app.mentionSelection - 1 }

def selectNextMention (app : ChatApp) : ChatApp :=
  let candidates := app.mentionCandidates
  if candidates.isEmpty then app
  else { app with mentionSelection := (app.mentionSelection + 1) % candidates.length }

/-- None is the panic of an index past the candidates. -/
def applySelectedMention (app : ChatApp) : Option ChatApp :=
  let candidates := app.mentionCandidates
  if candidates.isEmpty then some app
  else match candidates[app.mentionSelection]? with
    | none => none
    | some mention =>
      match rsplitOnce '@' app.input with
      | none => some app
      | some (before, _) => some { app with input := before ++ ['@'] ++ mention ++ [' '], mentionSelection := 0 }

def messageMentionsCurrentUser (isAlphanumeric : Char → Bool) (app : ChatApp) (text : Str) : Except Panic Bool :=
  messageMentionsUser isAlphanumeric text app.username

end ChatApp

/-! ## The calls of the event loop -/

/-- A call `run_client`'s loop makes of the app. -/
inductive Call
  | pushMessage (message : Str) (state : MessageState)
  | receiveMessage (message : Str)
  | updateConnectedUsers (users : List Str)
  | beginShutdown (reason : Str)
  | markOffline (reason : Str)
  | appendInput (character : Char)
  | popInput
  | takeInput
  | selectPreviousMention
  | selectNextMention
  | applySelectedMention
  deriving DecidableEq, Repr

def ChatApp.call (app : ChatApp) : Call → Option ChatApp
  | .pushMessage message state => some (app.pushMessage message state)
  | .receiveMessage message => some (app.receiveMessage message)
  | .updateConnectedUsers users => some (app.updateConnectedUsers users)
  | .beginShutdown reason => some (app.beginShutdown reason)
  | .markOffline reason => some (app.markOffline reason)
  | .appendInput character => some (app.appendInput character)
  | .popInput => some app.popInput
  | .takeInput => some app.takeInput.2
  | .selectPreviousMention => some app.selectPreviousMention
  | .selectNextMention => some app.selectNextMention
  | .applySelectedMention => app.applySelectedMention

/-- The app of a user, from the start of `run_client`. -/
def chatApp (username serverAddr : Str) : System ChatApp Call := ⟨ChatApp.new username serverAddr, ChatApp.call⟩

/-- Some calls in some order lead to the app. -/
abbrev Reached (username serverAddr : Str) (app : ChatApp) : Prop :=
    System.Reach (chatApp username serverAddr) System.Any app

/-- The app types the characters. -/
def ChatApp.type (app : ChatApp) (text : Str) : ChatApp := text.foldl ChatApp.appendInput app

/-- A list of users replaces the one known, and may move the index down. -/
theorem updateConnectedUsers_eq (app : ChatApp) (users : List Str) :
    ∃ i ≤ app.mentionSelection,
      app.updateConnectedUsers users = { app with connectedUsers := users, mentionSelection := i } := by
  unfold ChatApp.updateConnectedUsers
  dsimp only
  split
  · exact ⟨0, Nat.zero_le _, rfl⟩
  · split
    · exact ⟨_, (Nat.sub_le _ 1).trans ‹_›, rfl⟩
    · exact ⟨_, Nat.le_refl _, rfl⟩

/-- Completion leaves the app as it is, or writes its input and selects the first candidate. -/
theorem applySelectedMention_cases {app app' : ChatApp} (h : app.applySelectedMention = some app') :
    app' = app ∨ ∃ input, app' = { app with input := input, mentionSelection := 0 } := by
  unfold ChatApp.applySelectedMention at h
  dsimp only at h
  split at h
  · exact Or.inl (Option.some.inj h).symm
  · split at h
    · cases h
    · split at h
      · exact Or.inl (Option.some.inj h).symm
      · exact Or.inr ⟨_, (Option.some.inj h).symm⟩

/-! ### The name stays -/

@[simp] theorem username_pushMessage (app : ChatApp) (message : Str) (state : MessageState) :
    (app.pushMessage message state).username = app.username := rfl

@[simp] theorem username_receiveMessage (app : ChatApp) (message : Str) :
    (app.receiveMessage message).username = app.username := by
  unfold ChatApp.receiveMessage ChatApp.confirmMessage
  by_cases h : app.messages.any (fun entry => entry.text == message && entry.state == .pending) = true
  · simp [h]
  · simp [h]

@[simp] theorem username_updateConnectedUsers (app : ChatApp) (users : List Str) :
    (app.updateConnectedUsers users).username = app.username := by
  obtain ⟨_, -, heq⟩ := updateConnectedUsers_eq app users
  rw [heq]

@[simp] theorem username_selectPreviousMention (app : ChatApp) : app.selectPreviousMention.username = app.username := by
  unfold ChatApp.selectPreviousMention
  dsimp only
  split
  · rfl
  · split <;> rfl

@[simp] theorem username_selectNextMention (app : ChatApp) : app.selectNextMention.username = app.username := by
  unfold ChatApp.selectNextMention
  dsimp only
  split <;> rfl

theorem username_applySelectedMention {app app' : ChatApp} (h : app.applySelectedMention = some app') :
    app'.username = app.username := by
  rcases applySelectedMention_cases h with rfl | ⟨_, rfl⟩
  · rfl
  · rfl

theorem username_call {app app' : ChatApp} {c : Call} (h : app.call c = some app') : app'.username = app.username := by
  cases c with
  | applySelectedMention => exact username_applySelectedMention h
  | receiveMessage | updateConnectedUsers | selectPreviousMention | selectNextMention =>
    obtain rfl := Option.some.inj h
    simp
  | pushMessage | beginShutdown | markOffline | appendInput | popInput | takeInput =>
    obtain rfl := Option.some.inj h
    rfl

/-- **An app keeps the name it was started with**: nothing the server sends changes it. -/
theorem username_of_reached {username serverAddr : Str} {app : ChatApp} (h : Reached username serverAddr app) :
    app.username = username := by
  refine h.invariant (I := fun app => app.username = username) rfl ?_
  intro app c app' _ ih _ hstep
  rw [username_call hstep, ih]

/-! ### Typing and completing -/

@[simp] theorem input_type (app : ChatApp) (text : Str) : (app.type text).input = app.input ++ text := by
  induction text generalizing app with
  | nil => simp [ChatApp.type]
  | cons c text ih =>
    have hcons : app.type (c :: text) = (app.appendInput c).type text := rfl
    rw [hcons, ih]
    simp [ChatApp.appendInput, ChatApp.resetMentionSelection]

@[simp] theorem connectedUsers_type (app : ChatApp) (text : Str) :
  (app.type text).connectedUsers = app.connectedUsers := by
  induction text generalizing app with
  | nil => rfl
  | cons c text ih => exact ih (app.appendInput c)

/-- Typing selects the first candidate. -/
theorem mentionSelection_type {app : ChatApp} (h : app.mentionSelection = 0) (text : Str) :
    (app.type text).mentionSelection = 0 := by
  induction text generalizing app with
  | nil => exact h
  | cons c text ih => exact ih rfl

theorem reached_type {username serverAddr : Str} {app : ChatApp} (h : Reached username serverAddr app) (text : Str) :
    Reached username serverAddr (app.type text) := by
  induction text generalizing app with
  | nil => exact h
  | cons c text ih => exact ih (.step (l := .appendInput c) h trivial rfl)

/-- **What completion writes**: the input up to its last `@`, and the user selected in place of the rest. -/
theorem applySelectedMention_eq {app : ChatApp} {mention : Str}
    (h : app.mentionCandidates[app.mentionSelection]? = some mention) :
    ∃ before query, app.input = before ++ '@' :: query ∧ activeMentionQuery app.input = some query ∧
      (∀ c, before.getLast? = some c → isWhitespace c = true) ∧
      app.applySelectedMention =
        some { app with input := before ++ ('@' :: mention ++ [' ']), mentionSelection := 0 } := by
  have hne : app.mentionCandidates.isEmpty = false := by
    rw [List.isEmpty_eq_false_iff]
    intro h0
    rw [h0] at h
    cases h
  obtain ⟨query, hquery⟩ : ∃ query, activeMentionQuery app.input = some query := by
    cases hq : activeMentionQuery app.input with
    | some query => exact ⟨query, rfl⟩
    | none => simp [ChatApp.mentionCandidates, hq] at hne
  obtain ⟨before, hsplit, -, hlast⟩ := activeMentionQuery_eq_some.1 hquery
  refine ⟨before, query, (rsplitOnce_eq_some.1 hsplit).1, hquery, hlast, ?_⟩
  unfold ChatApp.applySelectedMention
  simp [hne, h, hsplit]

end Client
end Drocsid
