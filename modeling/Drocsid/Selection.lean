import Drocsid.App
/-!
# Selection — the candidate a mention is completed to

The candidates are computed anew from the input and the users known; the index into them is kept.  Every call that can
shorten the list leaves the index in range (`Selects`), so completion indexes no candidate that is not there.  What
completion leaves ends in a space, so there is no mention to complete in it (`completion_once`).
-/
namespace Drocsid

open Text Protocol Server

namespace Client

open Tui (MessageState ChatMessage)

/-- There is nothing to select, or the index selects one of the candidates. -/
def Selects (app : ChatApp) : Prop := app.mentionCandidates = [] ∨ app.mentionSelection < app.mentionCandidates.length

/-- The app with this candidate selected. -/
def ChatApp.select (app : ChatApp) (i : Nat) : ChatApp := { app with mentionSelection := i }

/-- The candidates are those of the input and the users known. -/
theorem mentionCandidates_congr {app app' : ChatApp} (hi : app'.input = app.input)
    (hu : app'.connectedUsers = app.connectedUsers) : app'.mentionCandidates = app.mentionCandidates := by
  unfold ChatApp.mentionCandidates
  rw [hi, hu]

@[simp] theorem mentionCandidates_select (app : ChatApp) (i : Nat) :
    (app.select i).mentionCandidates = app.mentionCandidates := rfl

@[simp] theorem mentionSelection_select (app : ChatApp) (i : Nat) : (app.select i).mentionSelection = i := rfl

@[simp] theorem select_select (app : ChatApp) (i j : Nat) : (app.select i).select j = app.select j := rfl

@[simp] theorem select_self (app : ChatApp) : app.select app.mentionSelection = app := rfl

@[simp] theorem mentionCandidates_takeInput (app : ChatApp) : app.takeInput.2.mentionCandidates = [] := rfl

theorem selects_zero {app : ChatApp} (h : app.mentionSelection = 0) : Selects app := by
  cases hc : app.mentionCandidates with
  | nil => exact Or.inl hc
  | cons user users =>
    right
    rw [h, hc]
    exact Nat.succ_pos _

theorem Selects.lt {app : ChatApp} (h : Selects app) (hne : app.mentionCandidates ≠ []) :
    app.mentionSelection < app.mentionCandidates.length := h.resolve_left hne

theorem Selects.selected {app : ChatApp} (h : Selects app) (hne : app.mentionCandidates ≠ []) :
    ∃ user, app.mentionCandidates[app.mentionSelection]? = some user :=
  ⟨_, List.getElem?_eq_getElem (h.lt hne)⟩

/-- What changes neither the input, the users nor the index. -/
theorem Selects.congr {app app' : ChatApp} (h : Selects app) (hi : app'.input = app.input)
    (hu : app'.connectedUsers = app.connectedUsers) (hs : app'.mentionSelection = app.mentionSelection) :
    Selects app' := by
  unfold Selects
  rw [mentionCandidates_congr hi hu, hs]
  exact h

/-- A received message is drawn or confirms one drawn: the rest of the app stays. -/
theorem receiveMessage_eq (app : ChatApp) (message : Str) :
    app.receiveMessage message = { app with messages := (app.receiveMessage message).messages } := by
  unfold ChatApp.receiveMessage ChatApp.confirmMessage
  by_cases h : app.messages.any (fun entry => entry.text == message && entry.state == .pending) = true
  · simp only [h, if_true]
  · simp only [h, Bool.false_eq_true, if_false]
    rfl

/-! ## The two keys -/

theorem selectNextMention_eq {app : ChatApp} (hne : app.mentionCandidates ≠ []) :
    app.selectNextMention = app.select ((app.mentionSelection + 1) % app.mentionCandidates.length) := by
  unfold ChatApp.selectNextMention
  simp [hne, ChatApp.select]

theorem selectPreviousMention_eq {app : ChatApp} (hne : app.mentionCandidates ≠ []) : app.selectPreviousMention =
    app.select (if app.mentionSelection = 0 then app.mentionCandidates.length - 1 else app.mentionSelection - 1) := by
  unfold ChatApp.selectPreviousMention
  by_cases h0 : app.mentionSelection = 0
  · simp [hne, h0, ChatApp.select]
  · simp [hne, h0, ChatApp.select]

/-- With nothing to select the keys do nothing. -/
theorem selectNextMention_nil {app : ChatApp} (h : app.mentionCandidates = []) : app.selectNextMention = app := by
  unfold ChatApp.selectNextMention
  simp [h]

theorem selectPreviousMention_nil {app : ChatApp} (h : app.mentionCandidates = []) :
    app.selectPreviousMention = app := by
  unfold ChatApp.selectPreviousMention
  simp [h]

/-- **Up undoes Down.** -/
theorem selectPrevious_selectNext {app : ChatApp} (h : Selects app) (hne : app.mentionCandidates ≠ []) :
    app.selectNextMention.selectPreviousMention = app := by
  have hlt := h.lt hne
  have hne' : (app.select ((app.mentionSelection + 1) % app.mentionCandidates.length)).mentionCandidates ≠ [] := hne
  rw [selectNextMention_eq hne, selectPreviousMention_eq hne', mentionSelection_select, mentionCandidates_select,
    select_select]
  have hback : (if (app.mentionSelection + 1) % app.mentionCandidates.length = 0 then app.mentionCandidates.length - 1
      else (app.mentionSelection + 1) % app.mentionCandidates.length - 1) = app.mentionSelection := by
    by_cases hlast : app.mentionSelection + 1 = app.mentionCandidates.length
    · rw [hlast, Nat.mod_self, if_pos rfl]
      omega
    · rw [Nat.mod_eq_of_lt (by omega), if_neg (Nat.succ_ne_zero _)]
      rfl
  rw [hback, select_self]

/-- **Down undoes Up.** -/
theorem selectNext_selectPrevious {app : ChatApp} (h : Selects app) (hne : app.mentionCandidates ≠ []) :
    app.selectPreviousMention.selectNextMention = app := by
  have hlt := h.lt hne
  have hne' : (app.select (if app.mentionSelection = 0 then app.mentionCandidates.length - 1
      else app.mentionSelection - 1)).mentionCandidates ≠ [] := hne
  rw [selectPreviousMention_eq hne, selectNextMention_eq hne', mentionSelection_select, mentionCandidates_select,
    select_select]
  have hback : ((if app.mentionSelection = 0 then app.mentionCandidates.length - 1 else app.mentionSelection - 1) + 1) %
      app.mentionCandidates.length = app.mentionSelection := by
    by_cases h0 : app.mentionSelection = 0
    · rw [if_pos h0, Nat.sub_add_cancel (by omega), Nat.mod_self, h0]
    · rw [if_neg h0, Nat.sub_add_cancel (by omega), Nat.mod_eq_of_lt hlt]
  rw [hback, select_self]

/-! ## Completing a mention -/

/-- A mention is one word: an input that ends in white space is in none. -/
theorem activeMentionQuery_of_getLast {input : Str} {c : Char} (hc : input.getLast? = some c)
    (hw : isWhitespace c = true) : activeMentionQuery input = none := by
  cases hq : activeMentionQuery input with
  | none => rfl
  | some query =>
    exfalso
    obtain ⟨before, hsplit, hword, -⟩ := activeMentionQuery_eq_some.1 hq
    rw [(rsplitOnce_eq_some.1 hsplit).1, List.getLast?_append_of_ne_nil _ (List.cons_ne_nil _ _)] at hc
    rcases List.mem_cons.1 (List.mem_of_getLast? hc) with rfl | hmem
    · exact absurd hw (by decide)
    · exact List.any_eq_false.1 hword c hmem hw

theorem not_mem_activeMentionQuery {input query : Str} (h : activeMentionQuery input = some query) : '@' ∉ query := by
  obtain ⟨before, hsplit, -, -⟩ := activeMentionQuery_eq_some.1 h
  exact (rsplitOnce_eq_some.1 hsplit).2

theorem mentionCandidates_of_query {app : ChatApp} (h : activeMentionQuery app.input = none) :
    app.mentionCandidates = [] := by
  unfold ChatApp.mentionCandidates
  rw [h]

theorem applySelectedMention_nil {app : ChatApp} (h : app.mentionCandidates = []) :
    app.applySelectedMention = some app := by
  unfold ChatApp.applySelectedMention
  simp [h]

/-- The query of a candidate is a prefix of it, up to the case of ASCII letters. -/
theorem query_of_mem_mentionCandidates {app : ChatApp} {user query : Str} (h : user ∈ app.mentionCandidates)
    (hq : activeMentionQuery app.input = some query) :
    user ∈ app.connectedUsers ∧ ∃ start rest, user = start ++ rest ∧
      toAsciiLowercase start = toAsciiLowercase query := by
  unfold ChatApp.mentionCandidates at h
  rw [hq] at h
  obtain ⟨hmem, hprefix⟩ := List.mem_filter.1 h
  obtain ⟨start, ⟨rest, hrest⟩, hstart⟩ := List.prefix_map_iff.1 (List.isPrefixOf_iff_prefix.1 hprefix)
  exact ⟨hmem, start, rest, hrest.symm, hstart.symm⟩

theorem mentionCandidates_completed (app : ChatApp) (before user : Str) :
    ({ app with input := before ++ ('@' :: user ++ [' ']), mentionSelection := 0 } : ChatApp).mentionCandidates =
      [] := by
  have hlast : (before ++ ('@' :: user ++ [' '])).getLast? = some ' ' := by
    rw [← List.append_assoc, List.getLast?_concat]
  exact mentionCandidates_of_query (activeMentionQuery_of_getLast hlast (by decide))

/-! ## The calls -/

theorem selects_selectNextMention {app : ChatApp} (h : Selects app) : Selects app.selectNextMention := by
  by_cases hne : app.mentionCandidates = []
  · rw [selectNextMention_nil hne]
    exact h
  · rw [selectNextMention_eq hne]
    exact Or.inr (Nat.mod_lt _ (Nat.zero_lt_of_lt (h.lt hne)))

theorem selects_selectPreviousMention {app : ChatApp} (h : Selects app) : Selects app.selectPreviousMention := by
  by_cases hne : app.mentionCandidates = []
  · rw [selectPreviousMention_nil hne]
    exact h
  · have hlt := h.lt hne
    rw [selectPreviousMention_eq hne]
    right
    show (if app.mentionSelection = 0 then app.mentionCandidates.length - 1 else app.mentionSelection - 1) <
      app.mentionCandidates.length
    split
    · omega
    · omega

/-- A list of users is clamped to, whatever the index was. -/
theorem selects_updateConnectedUsers (app : ChatApp) (users : List Str) : Selects (app.updateConnectedUsers users) := by
  unfold ChatApp.updateConnectedUsers
  dsimp only
  by_cases h0 : ({ app with connectedUsers := users } : ChatApp).mentionCandidates.length = 0
  · rw [if_pos h0]
    exact Or.inl (List.eq_nil_of_length_eq_zero h0)
  · rw [if_neg h0]
    by_cases hge : app.mentionSelection ≥ ({ app with connectedUsers := users } : ChatApp).mentionCandidates.length
    · rw [if_pos hge]
      exact Or.inr (Nat.sub_lt (Nat.pos_of_ne_zero h0) Nat.one_pos)
    · rw [if_neg hge]
      exact Or.inr (Nat.lt_of_not_le hge)

theorem selects_applySelectedMention {app app' : ChatApp} (h : Selects app)
    (hstep : app.applySelectedMention = some app') : Selects app' := by
  rcases applySelectedMention_cases hstep with rfl | ⟨_, rfl⟩
  · exact h
  · exact selects_zero rfl

/-- **Completion finds the candidate selected.** -/
theorem exists_applySelectedMention {app : ChatApp} (h : Selects app) :
    ∃ app', app.applySelectedMention = some app' := by
  by_cases hne : app.mentionCandidates = []
  · exact ⟨app, applySelectedMention_nil hne⟩
  · obtain ⟨user, hselected⟩ := h.selected hne
    obtain ⟨_, _, -, -, -, happly⟩ := applySelectedMention_eq hselected
    exact ⟨_, happly⟩

/-- Neither a list of users nor a completion moves the index up. -/
theorem mentionSelection_updateConnectedUsers_le (app : ChatApp) (users : List Str) :
    (app.updateConnectedUsers users).mentionSelection ≤ app.mentionSelection := by
  obtain ⟨_, hle, heq⟩ := updateConnectedUsers_eq app users
  rw [heq]
  exact hle

theorem mentionSelection_applySelectedMention_le {app app' : ChatApp} (h : app.applySelectedMention = some app') :
    app'.mentionSelection ≤ app.mentionSelection := by
  rcases applySelectedMention_cases h with rfl | ⟨_, rfl⟩
  · exact Nat.le_refl _
  · exact Nat.zero_le _

/-- **A call keeps the index in range.** -/
theorem selects_call {app app' : ChatApp} {c : Call} (h : Selects app) (hstep : app.call c = some app') :
    Selects app' := by
  cases c with
  | pushMessage | beginShutdown | markOffline =>
    obtain rfl := Option.some.inj hstep
    exact h.congr rfl rfl rfl
  | receiveMessage message =>
    obtain rfl := Option.some.inj hstep
    rw [receiveMessage_eq]
    exact h.congr rfl rfl rfl
  | updateConnectedUsers users =>
    obtain rfl := Option.some.inj hstep
    exact selects_updateConnectedUsers app users
  | appendInput | popInput =>
    obtain rfl := Option.some.inj hstep
    exact selects_zero rfl
  | takeInput =>
    -- the index is left as it was: there is no candidate it could miss
    obtain rfl := Option.some.inj hstep
    exact Or.inl (mentionCandidates_takeInput app)
  | selectPreviousMention =>
    obtain rfl := Option.some.inj hstep
    exact selects_selectPreviousMention h
  | selectNextMention =>
    obtain rfl := Option.some.inj hstep
    exact selects_selectNextMention h
  | applySelectedMention => exact selects_applySelectedMention h hstep

theorem selects_of_reached {username serverAddr : Str} {app : ChatApp} (h : Reached username serverAddr app) :
    Selects app := by
  refine h.invariant (I := Selects) (selects_zero rfl) ?_
  intro app c app' _ ih _ hstep
  exact selects_call ih hstep

/-- **The selection is in range in every app reached**, completion never indexes past the candidates, and the two keys
undo each other. -/
theorem mentionSelection_in_range {username serverAddr : Str} {app : ChatApp} (h : Reached username serverAddr app) :
    (app.mentionCandidates = [] ∨ app.mentionSelection < app.mentionCandidates.length) ∧
    app.applySelectedMention ≠ none ∧
    (app.mentionCandidates ≠ [] → app.selectNextMention.selectPreviousMention = app ∧
      app.selectPreviousMention.selectNextMention = app) := by
  have hs := selects_of_reached h
  refine ⟨hs, ?_, ?_⟩
  · obtain ⟨app', happly⟩ := exists_applySelectedMention hs
    rw [happly]
    exact Option.some_ne_none app'
  · intro hne
    exact ⟨selectPrevious_selectNext hs hne, selectNext_selectPrevious hs hne⟩

/-- Two users, the second of them selected, and the list shortened to one. -/
theorem mentionSelection_in_range_alice :
    let app := ((((ChatApp.new (lit "alice") (lit "localhost:8080")).updateConnectedUsers [lit "alice", lit "ann"]).type
      (lit "@a")).selectNextMention).updateConnectedUsers [lit "ann"]
    (app.mentionCandidates = [] ∨ app.mentionSelection < app.mentionCandidates.length) ∧
    app.applySelectedMention ≠ none ∧
    (app.mentionCandidates ≠ [] → app.selectNextMention.selectPreviousMention = app ∧
      app.selectPreviousMention.selectNextMention = app) := by
  have h0 : Reached (lit "alice") (lit "localhost:8080") (ChatApp.new (lit "alice") (lit "localhost:8080")) := .init
  have h1 := System.Reach.step (l := .updateConnectedUsers [lit "alice", lit "ann"]) h0 trivial rfl
  have h2 := reached_type h1 (lit "@a")
  have h3 := System.Reach.step (l := .selectNextMention) h2 trivial rfl
  have h4 := System.Reach.step (l := .updateConnectedUsers [lit "ann"]) h3 trivial rfl
  exact mentionSelection_in_range h4

/-- **A mention is completed once**: the input keeps what stands before its last `@`, the user selected takes the place
of the query it starts with, and what is left has no candidate to complete again. -/
theorem completion_once {username serverAddr : Str} {app : ChatApp} (h : Reached username serverAddr app)
    (hne : app.mentionCandidates ≠ []) :
    ∃ before query user app', app.input = before ++ '@' :: query ∧ '@' ∉ query ∧
      app.mentionCandidates[app.mentionSelection]? = some user ∧ user ∈ app.connectedUsers ∧
      (∃ start rest, user = start ++ rest ∧ toAsciiLowercase start = toAsciiLowercase query) ∧
      app.applySelectedMention = some app' ∧
      app' = { app with input := before ++ ('@' :: user ++ [' ']), mentionSelection := 0 } ∧
      app'.mentionCandidates = [] ∧ app'.applySelectedMention = some app' := by
  obtain ⟨user, hselected⟩ := (selects_of_reached h).selected hne
  obtain ⟨before, query, hinput, hquery, -, happly⟩ := applySelectedMention_eq hselected
  obtain ⟨hmem, hprefix⟩ := query_of_mem_mentionCandidates (List.mem_of_getElem? hselected) hquery
  have hdone := mentionCandidates_completed app before user
  exact ⟨before, query, user, _, hinput, not_mem_activeMentionQuery hquery, hselected, hmem, hprefix, happly, rfl,
    hdone, applySelectedMention_nil hdone⟩

/-- A user whose name has an `@` after a space, completed after an accented word in the other case. -/
theorem completion_once_ann :
    let app := ((ChatApp.new (lit "alice") (lit "localhost:8080")).updateConnectedUsers [lit "Ann @é b"]).type
      (lit "é @aN")
    ∃ before query user app', app.input = before ++ '@' :: query ∧ '@' ∉ query ∧
      app.mentionCandidates[app.mentionSelection]? = some user ∧ user ∈ app.connectedUsers ∧
      (∃ start rest, user = start ++ rest ∧ toAsciiLowercase start = toAsciiLowercase query) ∧
      app.applySelectedMention = some app' ∧
      app' = { app with input := before ++ ('@' :: user ++ [' ']), mentionSelection := 0 } ∧
      app'.mentionCandidates = [] ∧ app'.applySelectedMention = some app' := by
  have h0 : Reached (lit "alice") (lit "localhost:8080") (ChatApp.new (lit "alice") (lit "localhost:8080")) := .init
  have h1 := System.Reach.step (l := .updateConnectedUsers [lit "Ann @é b"]) h0 trivial rfl
  exact completion_once (reached_type h1 (lit "é @aN")) (by decide)

end Client
end Drocsid
