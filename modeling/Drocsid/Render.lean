import Drocsid.Popup
import Drocsid.MessagesPanel
/-!
# Render — a whole frame (`crates/tui/src/lib.rs`, `components.rs`, `layout.rs`)

The frame is split into five areas, and the popups are drawn over them.  Where the areas lie is ratatui's; that they lie
in what is split comes with it (`Ratatui`).  Nothing but the mention popup can overflow or leave the frame
(`render_inside_iff`), and the cursor stands behind what is typed, inside the input (`cursor_inside`).
-/
namespace Drocsid

open Text Protocol Screen

namespace Tui

inductive Direction
  | horizontal | vertical
  deriving DecidableEq, Repr

inductive Constraint
  | length (cells : UInt16)
  | min (cells : UInt16)
  | percentage (percent : UInt16)
  deriving DecidableEq, Repr

/-- What is used of ratatui's layouts: the areas that an area is split into, and what a border leaves of one. -/
structure Ratatui where
  split        : Direction → (constraints : List Constraint) → Rect → Vector Rect constraints.length
  inner        : Rect → Rect
  split_within : ∀ direction constraints area (i : Nat) (hi : i < constraints.length),
    (split direction constraints area)[i].Within area
  inner_within : ∀ area, (inner area).Within area

structure AppLayout where
  header   : Rect
  messages : Rect
  sidebar  : Rect
  input    : Rect
  footer   : Rect
  deriving DecidableEq, Repr

/-- A paragraph in its block, without their styles. -/
structure Paragraph where
  area     : Rect
  title    : Str
  centered : Bool
  wraps    : Bool
  text     : List (List Str)
  deriving DecidableEq, Repr

/-- What is drawn, each part over those before it. -/
structure Drawing where
  header   : Paragraph
  messages : MessagesPanel
  session  : Paragraph
  input    : Paragraph
  help     : Paragraph
  mention  : Option Popup
  shutdown : Option Paragraph
  cursor   : UInt16 × UInt16
  deriving DecidableEq, Repr

inductive DrawPanic
  | slice (panic : Panic)
  | overflow (overflow : Overflow)
  deriving DecidableEq, Repr

section Render

variable (ratatui : Ratatui)

def AppLayout.new (area : Rect) : AppLayout :=
  let rows := ratatui.split .vertical [.length 3, .min 8, .length 3, .length 2] area
  let body := ratatui.split .horizontal [.percentage 72, .percentage 28] rows[1]
  { header := rows[0], messages := body[0], sidebar := body[1], input := rows[2], footer := rows[3] }

def centeredRect (area : Rect) (widthPercent heightPercent : UInt16) : Rect :=
  let vertical := ratatui.split .vertical
    [.percentage ((100 - heightPercent) / 2), .percentage heightPercent, .percentage ((100 - heightPercent) / 2)] area
  (ratatui.split .horizontal
    [.percentage ((100 - widthPercent) / 2), .percentage widthPercent, .percentage ((100 - widthPercent) / 2)]
      vertical[1])[1]

def renderHeader (area : Rect) : Paragraph where
  area := area
  title := []
  centered := true
  wraps := false
  text := [[lit "drocsid", lit "  ", lit "client"]]

def sidebarText (app : Client.ChatApp) : List (List Str) :=
  [lit "users"] :: if app.connectedUsers.isEmpty then [[lit "  nobody connected"]]
    else app.connectedUsers.map fun user => [lit "  ", user]

def renderSessionPanel (app : Client.ChatApp) (area : Rect) : Paragraph where
  area := area
  title := lit "Session"
  centered := false
  wraps := true
  text := sidebarText app

def renderInputPanel (app : Client.ChatApp) (area : Rect) : Paragraph where
  area := area
  title := lit "Input"
  centered := false
  wraps := false
  text := [[app.input]]

def renderHelpBar (area : Rect) : Paragraph where
  area := area
  title := []
  centered := false
  wraps := false
  text := [[lit "Enter", lit " send  ", lit "Tab", lit " mention  ", lit "Esc", lit " quit  ", lit "Ctrl+Q",
    lit " force quit"]]

def renderShutdownPopup (frameArea : Rect) (app : Client.ChatApp) : Option Paragraph :=
  app.exitNotice.map fun reason => {
    area := centeredRect ratatui frameArea 50 20
    title := lit "Disconnected"
    centered := true
    wraps := true
    text := [[lit "Server connection lost"], [[]], [reason], [[]], [lit "[ OK ]"], [[]],
      [lit "Press Enter to close"]] }

/-- The position that `set_input_cursor` sets. -/
def setInputCursor (app : Client.ChatApp) (area : Rect) : UInt16 × UInt16 :=
  let inputArea := ratatui.inner area
  let cursorX := U16.saturatingAdd inputArea.x (.ofNat app.input.length)
  let maxCursorX := U16.saturatingAdd inputArea.x (U16.saturatingSub inputArea.width 1)
  (min cursorX maxCursorX, inputArea.y)

variable (isAlphanumeric : Char → Bool) (overflowChecks : Bool)

def render (frameArea : Rect) (app : Client.ChatApp) : Except DrawPanic Drawing := do
  let appLayout := AppLayout.new ratatui frameArea
  let messages ← (renderMessagesPanel isAlphanumeric ratatui.inner app appLayout.messages).mapError DrawPanic.slice
  let mention ← (renderMentionPopup overflowChecks frameArea app appLayout.input).mapError DrawPanic.overflow
  return {
    header := renderHeader appLayout.header
    messages
    session := renderSessionPanel app appLayout.sidebar
    input := renderInputPanel app appLayout.input
    help := renderHelpBar appLayout.footer
    mention
    shutdown := renderShutdownPopup ratatui frameArea app
    cursor := setInputCursor ratatui app appLayout.input }

end Render

/-! ## Where it is drawn -/

section Areas

variable (ratatui : Ratatui)

theorem AppLayout.new_within (area : Rect) : (AppLayout.new ratatui area).header.Within area ∧
    (AppLayout.new ratatui area).messages.Within area ∧ (AppLayout.new ratatui area).sidebar.Within area ∧
    (AppLayout.new ratatui area).input.Within area ∧ (AppLayout.new ratatui area).footer.Within area := by
  have hrow := ratatui.split_within .vertical [.length 3, .min 8, .length 3, .length 2] area
  have hbody := fun body => ratatui.split_within .horizontal [.percentage 72, .percentage 28] body
  exact ⟨hrow 0 (by decide), (hbody _ 0 (by decide)).trans (hrow 1 (by decide)),
    (hbody _ 1 (by decide)).trans (hrow 1 (by decide)), hrow 2 (by decide), hrow 3 (by decide)⟩

theorem centeredRect_within (area : Rect) (widthPercent heightPercent : UInt16) :
    (centeredRect ratatui area widthPercent heightPercent).Within area :=
  (ratatui.split_within _ _ _ 1 (by simp)).trans (ratatui.split_within _ _ _ 1 (by simp))

/-- **The cursor stands behind what is typed**, or in the last column inside the border. -/
theorem toNat_setInputCursor (app : Client.ChatApp) {area : Rect} {width height : UInt16}
    (h : area.Within (terminalArea width height)) : (setInputCursor ratatui app area).1.toNat =
      (ratatui.inner area).x.toNat + min (app.input.length % 2 ^ 16) ((ratatui.inner area).width.toNat - 1) := by
  have hright := ((ratatui.inner_within area).trans h).right
  have hword : (terminalArea width height).x.toNat + (terminalArea width height).width.toNat < 2 ^ 16 := by
    rw [show (terminalArea width height).x.toNat = 0 from rfl, Nat.zero_add]
    exact width.toNat_lt
  unfold setInputCursor
  dsimp only
  rw [UInt16.toNat_min, U16.toNat_saturatingAdd, U16.toNat_saturatingAdd, U16.toNat_saturatingSub, UInt16.toNat_ofNat',
    show (1 : UInt16).toNat = 1 from rfl]
  omega

theorem cursor_inside (app : Client.ChatApp) {area : Rect} {width height : UInt16}
    (h : area.Within (terminalArea width height)) (hwidth : 0 < (ratatui.inner area).width.toNat)
    (hheight : 0 < (ratatui.inner area).height.toNat) : (ratatui.inner area).Covers
      (setInputCursor ratatui app area).1.toNat (setInputCursor ratatui app area).2.toNat := by
  have hx := toNat_setInputCursor ratatui app h
  have hy : (setInputCursor ratatui app area).2 = (ratatui.inner area).y := rfl
  rw [Rect.Covers, hx, hy]
  omega

end Areas

/-- **All is drawn in the frame**, and the cursor stands inside the input, if there is a cell. -/
structure Drawing.Inside (drawing : Drawing) (ratatui : Ratatui) (frameArea : Rect) : Prop where
  header : drawing.header.area.Within frameArea
  messages : drawing.messages.area.Within frameArea
  session : drawing.session.area.Within frameArea
  input : drawing.input.area.Within frameArea
  help : drawing.help.area.Within frameArea
  mention : ∀ popup, drawing.mention = some popup → popup.area.Within frameArea
  shutdown : ∀ popup, drawing.shutdown = some popup → popup.area.Within frameArea
  cursor : 0 < (ratatui.inner drawing.input.area).width.toNat → 0 < (ratatui.inner drawing.input.area).height.toNat →
    (ratatui.inner drawing.input.area).Covers drawing.cursor.1.toNat drawing.cursor.2.toNat

section Inside

variable {ratatui : Ratatui} {isAlphanumeric : Char → Bool} {overflowChecks : Bool}

/-- The panels and the mention popup are drawn, and then all is. -/
theorem render_eq_ok_iff {frameArea : Rect} {app : Client.ChatApp} {drawing : Drawing} :
    render ratatui isAlphanumeric overflowChecks frameArea app = .ok drawing ↔ ∃ messages mention,
      renderMessagesPanel isAlphanumeric ratatui.inner app (AppLayout.new ratatui frameArea).messages = .ok messages ∧
      renderMentionPopup overflowChecks frameArea app (AppLayout.new ratatui frameArea).input = .ok mention ∧
      drawing = {
        header := renderHeader (AppLayout.new ratatui frameArea).header
        messages
        session := renderSessionPanel app (AppLayout.new ratatui frameArea).sidebar
        input := renderInputPanel app (AppLayout.new ratatui frameArea).input
        help := renderHelpBar (AppLayout.new ratatui frameArea).footer
        mention
        shutdown := renderShutdownPopup ratatui frameArea app
        cursor := setInputCursor ratatui app (AppLayout.new ratatui frameArea).input } := by
  unfold render
  simp only [bind_eq_ok_iff, mapError_eq_ok_iff, pure, Except.pure, Except.ok.injEq]
  constructor
  · rintro ⟨messages, hmessages, mention, hmention, rfl⟩
    exact ⟨messages, mention, hmessages, hmention, rfl⟩
  · rintro ⟨messages, mention, hmessages, hmention, rfl⟩
    exact ⟨messages, hmessages, mention, hmention, rfl⟩

theorem area_of_renderMessagesPanel {app : Client.ChatApp} {area : Rect} {panel : MessagesPanel}
    (h : renderMessagesPanel isAlphanumeric ratatui.inner app area = .ok panel) : panel.area = area := by
  obtain ⟨text, -, hpanel⟩ := bind_eq_ok_iff.1 h
  exact congrArg MessagesPanel.area (Except.ok.inj hpanel).symm

/-- **Only the mention popup** can overflow or leave the frame: all is drawn in it exactly when the terminal has a row
for each candidate listed and two for the border, and no candidate's length overflows. -/
theorem render_inside_iff {width height : UInt16} {app : Client.ChatApp} :
    (∃ drawing, (∀ overflowChecks, render ratatui isAlphanumeric overflowChecks (terminalArea width height) app =
        .ok drawing) ∧ drawing.Inside ratatui (terminalArea width height)) ↔
      (app.mentionCandidates ≠ [] → min app.mentionCandidates.length 5 + 2 ≤ height.toNat) ∧
        WidthsFit app.mentionCandidates := by
  set layout := AppLayout.new ratatui (terminalArea width height) with hlayout
  obtain ⟨hheader, hmessages, hsidebar, hinput, hfooter⟩ := AppLayout.new_within ratatui (terminalArea width height)
  rw [← hlayout] at hheader hmessages hsidebar hinput hfooter
  obtain ⟨messages, hpanel, -, -⟩ := renderMessagesPanel_ok isAlphanumeric app ratatui.inner layout.messages
  have harea : messages.area = layout.messages := area_of_renderMessagesPanel hpanel
  -- all but the mention popup is in the frame
  have hinside : ∀ mention : Option Popup,
      (∀ popup, mention = some popup → popup.area.Within (terminalArea width height)) → Drawing.Inside {
        header := renderHeader layout.header
        messages
        session := renderSessionPanel app layout.sidebar
        input := renderInputPanel app layout.input
        help := renderHelpBar layout.footer
        mention
        shutdown := renderShutdownPopup ratatui (terminalArea width height) app
        cursor := setInputCursor ratatui app layout.input } ratatui (terminalArea width height) := by
    intro mention hmention
    refine ⟨hheader, harea ▸ hmessages, hsidebar, hinput, hfooter, hmention, fun popup hpopup => ?_,
      cursor_inside ratatui app hinput⟩
    obtain ⟨reason, -, rfl⟩ := Option.map_eq_some_iff.1 hpopup
    exact centeredRect_within _ _ _ _
  by_cases hne : app.mentionCandidates = []
  · refine iff_of_true ⟨_, fun _ => render_eq_ok_iff.2 ⟨_, _, hpanel, renderMentionPopup_nil hne, rfl⟩,
      hinside none fun _ h => by cases h⟩ ⟨fun h => absurd hne h, ?_⟩
    rw [hne]
    exact List.forall_mem_nil _
  · rw [forall_prop_of_true hne, ← popupArea_within_iff hinput]
    constructor
    · rintro ⟨drawing, hrender, hdrawn⟩
      obtain ⟨_, _, -, hmention, rfl⟩ := render_eq_ok_iff.1 (hrender true)
      obtain ⟨hfit, rfl⟩ := (renderMentionPopup_eq_ok_iff hne).1 hmention
      exact ⟨hdrawn.mention _ rfl, hfit rfl⟩
    · rintro ⟨hwithin, hfit⟩
      refine ⟨_, fun _ => render_eq_ok_iff.2 ⟨_, _, hpanel,
        (renderMentionPopup_eq_ok_iff hne).2 ⟨fun _ => hfit, rfl⟩, rfl⟩, hinside _ fun popup hpopup => ?_⟩
      obtain rfl := Option.some.inj hpopup
      exact hwithin

end Inside

/-! ## A terminal of 80 by 24 cells -/

/-- Ratatui's parts of the whole terminal and of its second row; nothing else is split there. -/
def standardParts (direction : Direction) (constraints : List Constraint) (area : Rect) : List Rect :=
  if direction = .vertical ∧ constraints = [.length 3, .min 8, .length 3, .length 2] ∧ area = ⟨0, 0, 80, 24⟩ then
    [⟨0, 0, 80, 3⟩, ⟨0, 3, 80, 16⟩, ⟨0, 19, 80, 3⟩, ⟨0, 22, 80, 2⟩]
  else if direction = .horizontal ∧ constraints = [.percentage 72, .percentage 28] ∧ area = ⟨0, 3, 80, 16⟩ then
    [⟨0, 3, 58, 16⟩, ⟨58, 3, 22, 16⟩]
  else []

theorem standardParts_within {direction : Direction} {constraints : List Constraint} {area part : Rect}
    (h : part ∈ standardParts direction constraints area) : part.Within area := by
  unfold standardParts at h
  split at h
  · rename_i hwhole
    obtain ⟨-, -, rfl⟩ := hwhole
    revert part
    decide
  · split at h
    · rename_i hbody
      obtain ⟨-, -, rfl⟩ := hbody
      revert part
      decide
    · cases h

/-- What a border leaves of an area, if it has room for one. -/
def bordered (area : Rect) : Rect :=
  if (insideBorder area).Within area then insideBorder area else area

def standard : Ratatui where
  split direction constraints area := .ofFn fun i => ((standardParts direction constraints area)[i.1]?).getD area
  inner := bordered
  split_within direction constraints area i hi := by
    rw [Vector.getElem_ofFn]
    cases hpart : (standardParts direction constraints area)[i]? with
    | none => exact .refl area
    | some part => exact standardParts_within (List.mem_of_getElem? hpart)
  inner_within area := by
    unfold bordered
    split
    · assumption
    · exact .refl area

end Tui
end Drocsid
