import Drocsid.Selection
import Drocsid.Screen
/-!
# Popup — the candidates of a mention, listed above the input (`crates/tui/src/components.rs`, `theme.rs`)

The popup lists the first five candidates and is placed by the input's row.  The selection ranges over all of them, so
the candidate completion inserts is listed exactly when it is one of the five (`mention_shown_in_runs`); the rows are
placed by saturation alone, so the popup is inside the frame exactly when the frame has as many (`popup_within_iff`).
-/
namespace Drocsid

open Text Protocol Screen

namespace Tui

open Client (Call Reached Selects chatApp selects_of_reached applySelectedMention_eq)

def pastelYellowBorder : Color := .rgb 226 208 140

def inputBorderStyle : Style := { fg := some pastelYellowBorder }

def mentionSelectedStyle : Style := { fg := some .black, bg := some pastelYellow }

def mentionPlainStyle : Style := { fg := some .white }

/-- What is drawn in an area, and cleared there first. -/
structure Popup where
  area        : Rect
  title       : Str
  borderStyle : Style
  trim        : Bool
  text        : List Line
  deriving DecidableEq, Repr

/-- `popup_area`: above the input, as wide as the longest candidate and its border. -/
def mentionPopupArea (overflowChecks : Bool) (frameArea : Rect) (candidates : List Str) (inputArea : Rect) :
    Except Overflow Rect := do
  let height ← U16.add overflowChecks (.ofNat (min candidates.length 5)) 2
  let widths ← candidates.mapM fun candidate => U16.add overflowChecks (.ofNat (byteLen candidate)) 3
  let width := max (widths.max?.getD 12) 18
  let above ← U16.add overflowChecks height 1
  return {
    x := inputArea.x
    y := U16.saturatingSub inputArea.y above
    width := min width (U16.saturatingSub frameArea.width inputArea.x)
    height := height }

def mentionLine (candidate : Str) (style : Style) : Line := [⟨lit "@" ++ candidate, style⟩]

/-- `lines`: one for each of the first five candidates. -/
def mentionLines (candidates : List Str) (mentionSelection : Nat) : List Line :=
  (candidates.zipIdx.take 5).map fun (candidate, index) =>
    mentionLine candidate (if index = mentionSelection then mentionSelectedStyle else mentionPlainStyle)

def mentionPopup (app : Client.ChatApp) (area : Rect) : Popup where
  area := area
  title := lit "Mention"
  borderStyle := inputBorderStyle
  trim := false
  text := mentionLines app.mentionCandidates app.mentionSelection

/-- Nothing is drawn without candidates. -/
def renderMentionPopup (overflowChecks : Bool) (frameArea : Rect) (app : Client.ChatApp) (inputArea : Rect) :
    Except Overflow (Option Popup) :=
  if app.mentionCandidates.isEmpty then .ok none
  else (mentionPopupArea overflowChecks frameArea app.mentionCandidates inputArea).map fun area =>
    some (mentionPopup app area)

/-! ## What is computed -/

/-- No candidate's length, cut to a word, overflows by the border added to it. -/
def WidthsFit (candidates : List Str) : Prop := ∀ candidate ∈ candidates, byteLen candidate % 2 ^ 16 + 3 < 2 ^ 16

instance (candidates : List Str) : Decidable (WidthsFit candidates) := inferInstanceAs (Decidable (∀ _ ∈ _, _))

theorem widths_eq_ok_iff {overflowChecks : Bool} {candidates : List Str} {widths : List UInt16} :
    (candidates.mapM fun candidate => U16.add overflowChecks (.ofNat (byteLen candidate)) 3) = .ok widths ↔
      (overflowChecks = true → WidthsFit candidates) ∧
        (candidates.map fun candidate => .ofNat (byteLen candidate) + 3) = widths := by
  have hwidth : ∀ (candidate : Str) (width : UInt16),
      U16.add overflowChecks (.ofNat (byteLen candidate)) 3 = .ok width ↔
        (overflowChecks = true → byteLen candidate % 2 ^ 16 + 3 < 2 ^ 16) ∧
          .ofNat (byteLen candidate) + 3 = width := by
    intro candidate width
    rw [U16.add_eq_ok_iff, UInt16.toNat_ofNat']
    rfl
  rw [mapM_eq_ok_iff hwidth]
  exact and_congr_left' ⟨fun h hchecks candidate hc => h candidate hc hchecks,
    fun h candidate hc hchecks => h hchecks candidate hc⟩

/-- The area computed where no sum overflows. -/
def popupArea (frameArea : Rect) (candidates : List Str) (inputArea : Rect) : Rect where
  x := inputArea.x
  y := U16.saturatingSub inputArea.y (.ofNat (min candidates.length 5) + 2 + 1)
  width := min (max ((candidates.map fun candidate => .ofNat (byteLen candidate) + 3).max?.getD 12) 18)
    (U16.saturatingSub frameArea.width inputArea.x)
  height := .ofNat (min candidates.length 5) + 2

theorem toNat_popupHeight (n : Nat) : (UInt16.ofNat (min n 5) + 2).toNat = min n 5 + 2 := by
  rw [UInt16.toNat_add, UInt16.toNat_ofNat', show (2 : UInt16).toNat = 2 from rfl]
  omega

/-- Without an overflow the area is `popupArea`, and the only sums that can overflow are those of the lengths. -/
theorem mentionPopupArea_eq_ok_iff {overflowChecks : Bool} {frameArea inputArea area : Rect} {candidates : List Str} :
    mentionPopupArea overflowChecks frameArea candidates inputArea = .ok area ↔
      (overflowChecks = true → WidthsFit candidates) ∧ popupArea frameArea candidates inputArea = area := by
  have hheight : U16.add overflowChecks (.ofNat (min candidates.length 5)) 2 =
      .ok (.ofNat (min candidates.length 5) + 2) := by
    refine U16.add_eq_ok_iff.2 ⟨fun _ => ?_, rfl⟩
    rw [UInt16.toNat_ofNat', show (2 : UInt16).toNat = 2 from rfl]
    omega
  have habove : U16.add overflowChecks (.ofNat (min candidates.length 5) + 2) 1 =
      .ok (.ofNat (min candidates.length 5) + 2 + 1) := by
    refine U16.add_eq_ok_iff.2 ⟨fun _ => ?_, rfl⟩
    rw [toNat_popupHeight, show (1 : UInt16).toNat = 1 from rfl]
    omega
  unfold mentionPopupArea
  simp only [bind_eq_ok_iff, hheight, Except.ok.injEq, exists_eq_left', habove, widths_eq_ok_iff, pure, Except.pure]
  constructor
  · rintro ⟨_, ⟨hfit, rfl⟩, rfl⟩
    exact ⟨hfit, rfl⟩
  · rintro ⟨hfit, rfl⟩
    exact ⟨_, ⟨hfit, rfl⟩, rfl⟩

theorem renderMentionPopup_nil {overflowChecks : Bool} {frameArea inputArea : Rect} {app : Client.ChatApp}
    (h : app.mentionCandidates = []) : renderMentionPopup overflowChecks frameArea app inputArea = .ok none := by
  unfold renderMentionPopup
  rw [h]
  rfl

theorem renderMentionPopup_eq_ok_iff {overflowChecks : Bool} {frameArea inputArea : Rect} {app : Client.ChatApp}
    (hne : app.mentionCandidates ≠ []) {popup : Option Popup} :
    renderMentionPopup overflowChecks frameArea app inputArea = .ok popup ↔
      (overflowChecks = true → WidthsFit app.mentionCandidates) ∧
        some (mentionPopup app (popupArea frameArea app.mentionCandidates inputArea)) = popup := by
  unfold renderMentionPopup
  rw [if_neg (by rwa [List.isEmpty_iff])]
  cases harea : mentionPopupArea overflowChecks frameArea app.mentionCandidates inputArea with
  | error e =>
    have hfit : ¬ (overflowChecks = true → WidthsFit app.mentionCandidates) := by
      intro h
      rw [mentionPopupArea_eq_ok_iff.2 ⟨h, rfl⟩] at harea
      cases harea
    simp [Except.map, hfit]
  | ok area =>
    obtain ⟨hfit, rfl⟩ := mentionPopupArea_eq_ok_iff.1 harea
    rw [Except.map, Except.ok.injEq]
    exact (and_iff_right hfit).symm

/-! ## The selection -/

theorem getElem?_mentionLines (candidates : List Str) (selection i : Nat) :
    (mentionLines candidates selection)[i]? = if i < 5 then candidates[i]?.map fun candidate =>
      mentionLine candidate (if i = selection then mentionSelectedStyle else mentionPlainStyle) else none := by
  unfold mentionLines
  rw [List.getElem?_map, List.getElem?_take]
  split
  · rw [List.getElem?_zipIdx, Option.map_map, Nat.zero_add]
    rfl
  · rfl

/-- One line is drawn in the selected style, and it is the one of `mention`. -/
def Highlights (text : List Line) (mention : Str) : Prop :=
  ∃ i : Nat, text[i]? = some (mentionLine mention mentionSelectedStyle) ∧
    ∀ (j : Nat) (line : Line), text[j]? = some line → ((∃ span ∈ line, span.style = mentionSelectedStyle) ↔ j = i)

theorem selected_mentionLine (candidate : Str) {i selection : Nat} :
    (∃ span ∈ mentionLine candidate (if i = selection then mentionSelectedStyle else mentionPlainStyle),
      span.style = mentionSelectedStyle) ↔ i = selection := by
  unfold mentionLine
  simp only [List.mem_singleton, exists_eq_left]
  split
  · rename_i hi
    exact iff_of_true rfl hi
  · rename_i hi
    exact iff_of_false (by decide) hi

/-- The five lines highlight the selected candidate when it is one of them, and nothing otherwise. -/
theorem highlights_iff {candidates : List Str} {selection : Nat} {mention : Str} :
    Highlights (mentionLines candidates selection) mention ↔ selection < 5 ∧ candidates[selection]? = some mention := by
  constructor
  · rintro ⟨i, hline, hselected⟩
    have hi : i < 5 := by
      by_contra hge
      rw [getElem?_mentionLines, if_neg hge] at hline
      cases hline
    obtain ⟨candidate, hcandidate, hmention⟩ : ∃ candidate, candidates[i]? = some candidate ∧
        mentionLine candidate (if i = selection then mentionSelectedStyle else mentionPlainStyle) =
          mentionLine mention mentionSelectedStyle := by
      rw [getElem?_mentionLines, if_pos hi] at hline
      exact Option.map_eq_some_iff.1 hline
    obtain rfl : i = selection := by
      apply (selected_mentionLine candidate).1
      rw [hmention]
      exact ⟨_, List.mem_singleton_self _, rfl⟩
    obtain rfl : candidate = mention := by simpa [mentionLine] using hmention
    exact ⟨hi, hcandidate⟩
  · rintro ⟨hlt, hmention⟩
    refine ⟨selection, ?_, ?_⟩
    · rw [getElem?_mentionLines, if_pos hlt, hmention, Option.map_some, if_pos rfl]
    · intro j line hj
      rw [getElem?_mentionLines] at hj
      split at hj
      · obtain ⟨candidate, -, rfl⟩ := Option.map_eq_some_iff.1 hj
        exact selected_mentionLine candidate
      · cases hj

/-- Completion writes `mention` and a space after the last `@` of the input. -/
def Inserts (app : Client.ChatApp) (mention : Str) : Prop :=
  ∃ before query, app.input = before ++ '@' :: query ∧ '@' ∉ query ∧
    app.applySelectedMention = some { app with input := before ++ ('@' :: mention ++ [' ']), mentionSelection := 0 }

/-- **What completion would insert is listed, and is what is highlighted.** -/
def MentionShown (overflowChecks : Bool) (frameArea : Rect) (app : Client.ChatApp) (inputArea : Rect) : Prop :=
  ∃ mention popup, Inserts app mention ∧
    renderMentionPopup overflowChecks frameArea app inputArea = .ok (some popup) ∧ Highlights popup.text mention

theorem inserts_selected {app : Client.ChatApp} {mention : Str}
    (h : app.mentionCandidates[app.mentionSelection]? = some mention) : Inserts app mention := by
  obtain ⟨before, query, hinput, hquery, -, happly⟩ := applySelectedMention_eq h
  exact ⟨before, query, hinput, Client.not_mem_activeMentionQuery hquery, happly⟩

/-- **The selection is shown exactly when it is one of the first five**, and no sum overflows. -/
theorem mentionShown_iff {overflowChecks : Bool} {frameArea inputArea : Rect} {app : Client.ChatApp} (hs : Selects app)
    (hne : app.mentionCandidates ≠ []) :
    MentionShown overflowChecks frameArea app inputArea ↔
      app.mentionSelection < 5 ∧ (overflowChecks = true → WidthsFit app.mentionCandidates) := by
  constructor
  · rintro ⟨mention, popup, -, hrender, hshown⟩
    obtain ⟨hfit, hpopup⟩ := (renderMentionPopup_eq_ok_iff hne).1 hrender
    obtain rfl := Option.some.inj hpopup
    exact ⟨(highlights_iff.1 hshown).1, hfit⟩
  · rintro ⟨hlt, hfit⟩
    obtain ⟨mention, hselected⟩ := hs.selected hne
    exact ⟨mention, _, inserts_selected hselected, (renderMentionPopup_eq_ok_iff hne).2 ⟨hfit, rfl⟩,
      highlights_iff.2 ⟨hlt, hselected⟩⟩

/-- The step does not move the selection past the fifth candidate: neither up from the first of more than five, nor
down from the fifth of them. -/
def KeepsListed (app : Client.ChatApp) : Call → Prop
  | .selectPreviousMention => app.mentionSelection = 0 → app.mentionCandidates.length ≤ 5
  | .selectNextMention => app.mentionSelection = 4 → app.mentionCandidates.length ≤ 5
  | _ => True

/-- **A step that meets `KeepsListed` keeps the selection among the five.** -/
theorem listed_call {app app' : Client.ChatApp} {c : Call} (hs : Selects app) (h : app.mentionSelection < 5)
    (hkeeps : KeepsListed app c) (hstep : app.call c = some app') : app'.mentionSelection < 5 := by
  cases c with
  | pushMessage | beginShutdown | markOffline | takeInput =>
    obtain rfl := Option.some.inj hstep
    exact h
  | receiveMessage message =>
    obtain rfl := Option.some.inj hstep
    rw [Client.receiveMessage_eq]
    exact h
  | appendInput | popInput =>
    obtain rfl := Option.some.inj hstep
    exact Nat.zero_lt_succ 4
  | updateConnectedUsers users =>
    obtain rfl := Option.some.inj hstep
    exact Nat.lt_of_le_of_lt (Client.mentionSelection_updateConnectedUsers_le app users) h
  | applySelectedMention => exact Nat.lt_of_le_of_lt (Client.mentionSelection_applySelectedMention_le hstep) h
  | selectPreviousMention =>
    obtain rfl := Option.some.inj hstep
    by_cases hne : app.mentionCandidates = []
    · rwa [Client.selectPreviousMention_nil hne]
    · rw [Client.selectPreviousMention_eq hne, Client.mentionSelection_select]
      split
      · rename_i h0
        have := hkeeps h0
        omega
      · omega
  | selectNextMention =>
    obtain rfl := Option.some.inj hstep
    by_cases hne : app.mentionCandidates = []
    · rwa [Client.selectNextMention_nil hne]
    · have hlt := hs.lt hne
      rw [Client.selectNextMention_eq hne, Client.mentionSelection_select]
      by_cases h4 : app.mentionSelection = 4
      · have hlast : app.mentionSelection + 1 = app.mentionCandidates.length := by
          have := hkeeps h4
          omega
        rw [hlast, Nat.mod_self]
        omega
      · exact Nat.lt_of_le_of_lt (Nat.mod_le _ _) (by omega)

theorem listed_of_reach {username serverAddr : Str} {app : Client.ChatApp}
    (h : System.Reach (chatApp username serverAddr) KeepsListed app) : app.mentionSelection < 5 := by
  refine h.invariant (I := fun app => app.mentionSelection < 5) (Nat.zero_lt_succ 4) ?_
  intro app c app' hr ih hkeeps hstep
  exact listed_call (selects_of_reached hr.any) ih hkeeps hstep

/-- **What completion would insert is shown** exactly in the apps whose selection is one of the first five, in a build
without overflow checks; so it is in every app of a run that keeps the selection there. -/
theorem mention_shown_in_runs {username serverAddr : Str} :
    (∀ app, Reached username serverAddr app → app.mentionCandidates ≠ [] → ∀ overflowChecks frameArea inputArea,
      (MentionShown overflowChecks frameArea app inputArea ↔
        app.mentionSelection < 5 ∧ (overflowChecks = true → WidthsFit app.mentionCandidates))) ∧
    (∀ app, System.Reach (chatApp username serverAddr) KeepsListed app → app.mentionCandidates ≠ [] →
      ∀ overflowChecks frameArea inputArea, (overflowChecks = true → WidthsFit app.mentionCandidates) →
        MentionShown overflowChecks frameArea app inputArea) := by
  constructor
  · intro app h hne overflowChecks frameArea inputArea
    exact mentionShown_iff (selects_of_reached h) hne
  · intro app h hne overflowChecks frameArea inputArea hfit
    exact (mentionShown_iff (selects_of_reached h.any) hne).2 ⟨listed_of_reach h, hfit⟩

/-- The app whose users are `a0` to `a5` lists all six after `@a`. -/
def sixListed : Client.ChatApp :=
  ((Client.ChatApp.new (lit "a0") (lit "localhost:8080")).updateConnectedUsers
    [lit "a0", lit "a1", lit "a2", lit "a3", lit "a4", lit "a5"]).type (lit "@a")

/-- Going down from the first of them stays among the five. -/
theorem second_mention_shown :
    let app := sixListed.selectNextMention
    (MentionShown true (terminalArea 80 24) app ⟨0, 19, 80, 3⟩ ↔
      app.mentionSelection < 5 ∧ (true = true → WidthsFit app.mentionCandidates)) ∧
    MentionShown true (terminalArea 80 24) app ⟨0, 19, 80, 3⟩ := by
  have h0 : System.Reach (chatApp (lit "a0") (lit "localhost:8080")) KeepsListed _ := .init
  have h1 := System.Reach.step
    (l := Call.updateConnectedUsers [lit "a0", lit "a1", lit "a2", lit "a3", lit "a4", lit "a5"]) h0 trivial rfl
  have h2 := System.Reach.step (l := Call.appendInput '@') h1 trivial rfl
  have h3 := System.Reach.step (l := Call.appendInput 'a') h2 trivial rfl
  have h4 := System.Reach.step (l := Call.selectNextMention) h3 (fun h => absurd h (by decide)) rfl
  have hne : sixListed.selectNextMention.mentionCandidates ≠ [] := by decide
  exact ⟨mention_shown_in_runs.1 _ h4.any hne true _ _, mention_shown_in_runs.2 _ h4 hne true _ _ fun _ => by decide⟩

/-- **The sixth of six users, selected by going up from the first, is not shown.** -/
theorem sixth_mention_hidden :
    let app := sixListed.selectPreviousMention
    Reached (lit "a0") (lit "localhost:8080") app ∧ app.mentionCandidates ≠ [] ∧ app.mentionSelection = 5 ∧
      ∀ overflowChecks, ¬ MentionShown overflowChecks (terminalArea 80 24) app ⟨0, 19, 80, 3⟩ := by
  have h0 : Reached (lit "a0") (lit "localhost:8080") (Client.ChatApp.new (lit "a0") (lit "localhost:8080")) := .init
  have h1 := System.Reach.step
    (l := .updateConnectedUsers [lit "a0", lit "a1", lit "a2", lit "a3", lit "a4", lit "a5"]) h0 trivial rfl
  have h2 := System.Reach.step (l := .selectPreviousMention) (Client.reached_type h1 (lit "@a")) trivial rfl
  refine ⟨h2, by decide, by decide, ?_⟩
  intro overflowChecks hshown
  have hlt := ((mentionShown_iff (selects_of_reached h2) (by decide)).1 hshown).1
  exact absurd hlt (by decide)

/-! ## The frame -/

/-- **The popup is drawn without an overflow, on cells of the frame alone.** -/
def PopupInside (frameArea : Rect) (app : Client.ChatApp) (inputArea : Rect) : Prop :=
  ∃ drawn, (∀ overflowChecks, renderMentionPopup overflowChecks frameArea app inputArea = .ok drawn) ∧
    ∀ popup, drawn = some popup → popup.area.Within frameArea ∧
      ∀ column row, popup.area.Covers column row → frameArea.Covers column row

theorem toNat_popupArea_y (frameArea inputArea : Rect) (candidates : List Str) :
    (popupArea frameArea candidates inputArea).y.toNat = inputArea.y.toNat - (min candidates.length 5 + 3) := by
  unfold popupArea
  rw [U16.toNat_saturatingSub, UInt16.toNat_add, toNat_popupHeight, show (1 : UInt16).toNat = 1 from rfl]
  omega

theorem toNat_popupArea_width_le (frameArea inputArea : Rect) (candidates : List Str) :
    (popupArea frameArea candidates inputArea).width.toNat ≤ frameArea.width.toNat - inputArea.x.toNat := by
  unfold popupArea
  rw [UInt16.toNat_min, U16.toNat_saturatingSub]
  exact Nat.min_le_right _ _

/-- **The frame's rows decide**: the width is clamped to what is right of the input, the height to nothing, and where
there is no room above the input the popup starts at the top. -/
theorem popupArea_within_iff {width height : UInt16} {inputArea : Rect} {candidates : List Str}
    (hinput : inputArea.Within (terminalArea width height)) :
    (popupArea (terminalArea width height) candidates inputArea).Within (terminalArea width height) ↔
      min candidates.length 5 + 2 ≤ height.toNat := by
  have hzero : (0 : UInt16).toNat = 0 := rfl
  have hy := toNat_popupArea_y (terminalArea width height) inputArea candidates
  have hwidth := toNat_popupArea_width_le (terminalArea width height) inputArea candidates
  have hheight : (popupArea (terminalArea width height) candidates inputArea).height.toNat =
      min candidates.length 5 + 2 := toNat_popupHeight _
  have hright := hinput.right
  have hbottom := hinput.bottom
  simp only [terminalArea, hzero, Nat.zero_add] at hright hbottom
  constructor
  · intro h
    have hrows := h.bottom
    rw [hy, hheight] at hrows
    simp only [terminalArea, hzero, Nat.zero_add] at hrows
    omega
  · intro hrows
    constructor
    case left => exact Nat.zero_le _
    case top => exact Nat.zero_le _
    case right =>
      have hx : (popupArea (terminalArea width height) candidates inputArea).x = inputArea.x := rfl
      simp only [terminalArea, hzero, Nat.zero_add] at hwidth hx ⊢
      rw [hx]
      omega
    case bottom =>
      rw [hy, hheight]
      simp only [terminalArea, hzero, Nat.zero_add]
      omega

/-- **The popup is inside exactly when** the terminal has a row for each line listed and two for the border, and no
candidate's length overflows. -/
theorem popup_within_iff {width height : UInt16} {app : Client.ChatApp} {inputArea : Rect}
    (hinput : inputArea.Within (terminalArea width height)) :
    PopupInside (terminalArea width height) app inputArea ↔
      (app.mentionCandidates ≠ [] → min app.mentionCandidates.length 5 + 2 ≤ height.toNat) ∧
        WidthsFit app.mentionCandidates := by
  by_cases hne : app.mentionCandidates = []
  · have hdrawn : PopupInside (terminalArea width height) app inputArea :=
      ⟨none, fun _ => renderMentionPopup_nil hne, fun _ hpopup => by cases hpopup⟩
    refine iff_of_true hdrawn ⟨fun h => absurd hne h, ?_⟩
    rw [hne]
    exact List.forall_mem_nil _
  · rw [forall_prop_of_true hne, ← popupArea_within_iff hinput]
    constructor
    · rintro ⟨drawn, hrender, hinside⟩
      obtain ⟨hfit, rfl⟩ := (renderMentionPopup_eq_ok_iff hne).1 (hrender true)
      exact ⟨(hinside _ rfl).1, hfit rfl⟩
    · rintro ⟨hwithin, hfit⟩
      refine ⟨_, fun _ => (renderMentionPopup_eq_ok_iff hne).2 ⟨fun _ => hfit, rfl⟩, ?_⟩
      intro popup hpopup
      obtain rfl := Option.some.inj hpopup
      exact ⟨hwithin, fun _ _ => hwithin.covers⟩

/-- Six users listed in a terminal of seven rows, all of which the popup takes. -/
theorem popup_within_seven_rows :
    PopupInside (terminalArea 80 7) sixListed ⟨0, 7, 80, 0⟩ ↔
      (sixListed.mentionCandidates ≠ [] → min sixListed.mentionCandidates.length 5 + 2 ≤ (7 : UInt16).toNat) ∧
        WidthsFit sixListed.mentionCandidates :=
  popup_within_iff (by decide)

/-- **In six rows the popup ends below the frame**: the area that is cleared and drawn has a row outside the buffer. -/
theorem popup_outside_six_rows :
    (⟨0, 6, 80, 0⟩ : Rect).Within (terminalArea 80 6) ∧
    (∀ overflowChecks, renderMentionPopup overflowChecks (terminalArea 80 6) sixListed ⟨0, 6, 80, 0⟩ =
      .ok (some (mentionPopup sixListed ⟨0, 0, 18, 7⟩))) ∧
    (⟨0, 0, 18, 7⟩ : Rect).Covers 0 6 ∧ ¬ (terminalArea 80 6).Covers 0 6 ∧
    ¬ PopupInside (terminalArea 80 6) sixListed ⟨0, 6, 80, 0⟩ := by
  have hrender : ∀ overflowChecks, renderMentionPopup overflowChecks (terminalArea 80 6) sixListed ⟨0, 6, 80, 0⟩ =
      .ok (some (mentionPopup sixListed ⟨0, 0, 18, 7⟩)) := by decide
  refine ⟨by decide, hrender, by decide, by decide, ?_⟩
  rintro ⟨drawn, hdrawn, hinside⟩
  obtain rfl := Except.ok.inj ((hdrawn true).symm.trans (hrender true))
  exact absurd (hinside _ rfl).1 (by decide)

end Tui
end Drocsid
