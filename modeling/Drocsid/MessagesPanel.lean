import Drocsid.App
import Drocsid.Screen
/-!
# MessagesPanel — the messages, scrolled to the newest (`crates/tui/src/components.rs`)

Every message is one line of the text drawn, and a line takes as many rows as it wraps to.  The offset counts lines and
skips rows, with one row to spare: the newest message is shown to its end exactly when wrapping adds no more rows than
those the panel has left, or one where it has none (`newest_shown_iff`).
-/
namespace Drocsid

open Text Protocol Screen

namespace Tui

/-- The paragraph drawn, without the style of its border. -/
structure MessagesPanel where
  area   : Rect
  title  : Str
  trim   : Bool
  text   : List Line
  scroll : UInt16
  deriving DecidableEq, Repr

def messageScrollOffset (text : List Line) (area : Rect) : UInt16 :=
  let visibleHeight := (U16.saturatingSub area.height 1).toNat
  let totalLines := text.length
  .ofNat (totalLines - visibleHeight)

variable (isAlphanumeric : Char → Bool)

def messagesText (app : Client.ChatApp) : Except Panic (List Line) :=
  app.messages.mapM fun message => chatLine isAlphanumeric message ⟨app.username⟩

/-- `blockInner` is `chat_block.inner`: the part of an area inside the block's border. -/
def renderMessagesPanel (blockInner : Rect → Rect) (app : Client.ChatApp) (area : Rect) :
    Except Panic MessagesPanel := do
  let text ← messagesText isAlphanumeric app
  return {
    area := area
    title := lit "Messages"
    trim := false
    text := text
    scroll := messageScrollOffset text (blockInner area) }

/-! ## What is drawn -/

theorem chatLine_ok (message : ChatMessage) (app : ChatApp) :
    ∃ line, chatLine isAlphanumeric message app = .ok line := by
  obtain ⟨kind, hkind⟩ := lineKind_ok isAlphanumeric app message.state message.text
  unfold lineKind at hkind
  cases hline : chatLine isAlphanumeric message app with
  | ok line => exact ⟨line, rfl⟩
  | error e =>
    rw [hline] at hkind
    cases hkind

/-- The panel is drawn: line `i` of its text is that of message `i`, and it is scrolled by its text. -/
theorem renderMessagesPanel_ok (app : Client.ChatApp) (blockInner : Rect → Rect) (area : Rect) :
    ∃ panel, renderMessagesPanel isAlphanumeric blockInner app area = .ok panel ∧
      app.messages.map (fun message => chatLine isAlphanumeric message ⟨app.username⟩) = panel.text.map .ok ∧
      panel.scroll = messageScrollOffset panel.text (blockInner area) := by
  choose line hline using fun message => chatLine_ok isAlphanumeric message ⟨app.username⟩
  have htext : messagesText isAlphanumeric app = .ok (app.messages.map line) := by
    refine (mapM_eq_ok_iff (P := fun _ => True) (g := line) ?_).2 ⟨fun _ _ => trivial, rfl⟩
    intro message l
    rw [hline message, Except.ok.injEq]
    exact (and_iff_right trivial).symm
  refine ⟨_, by rw [renderMessagesPanel, htext]; rfl, ?_, rfl⟩
  rw [List.map_map]
  exact List.map_congr_left fun message _ => hline message

theorem length_lines {app : Client.ChatApp} {line : ChatMessage → Except Panic Line} {text : List Line}
    (h : app.messages.map line = text.map .ok) : app.messages.length = text.length := by
  have hlength := congrArg List.length h
  rwa [List.length_map, List.length_map] at hlength

theorem toNat_messageScrollOffset (text : List Line) (area : Rect) :
    (messageScrollOffset text area).toNat = (text.length - (area.height.toNat - 1)) % 2 ^ 16 := by
  unfold messageScrollOffset
  rw [UInt16.toNat_ofNat', U16.toNat_saturatingSub]
  rfl

/-- Lines drawn on this many rows in all end in view of a panel scrolled by their number: with rows to spare they fit
in it, and without any, wrapping adds one row at most, and exactly one where only one row is shown. -/
def WrapsLittle (lines rows height : Nat) : Prop :=
  lines = 0 ∨ (lines < height ∧ rows ≤ height) ∨
    (1 ≤ height ∧ height ≤ lines ∧ lines - (height - 1) < 2 ^ 16 ∧ rows ≤ lines + 1 ∧
      (height = 1 → rows = lines + 1))

instance (lines rows height : Nat) : Decidable (WrapsLittle lines rows height) :=
  inferInstanceAs (Decidable (_ ∨ _ ∨ _))

theorem wrapsLittle_iff {lines rows height : Nat} (hle : lines ≤ rows) :
    WrapsLittle lines rows height ↔ lines = 0 ∨ (rows ≤ (lines - (height - 1)) % 2 ^ 16 + height ∧
      (lines - (height - 1)) % 2 ^ 16 < rows) := by
  unfold WrapsLittle
  by_cases hfits : lines < height
  · rw [Nat.sub_eq_zero_of_le (by omega : lines ≤ height - 1), Nat.zero_mod]
    omega
  · by_cases hword : lines - (height - 1) < 2 ^ 16
    · rw [Nat.mod_eq_of_lt hword]
      omega
    · -- the offset is cut to a word, and the window ends above the last line
      have hmod : (lines - (height - 1)) % 2 ^ 16 + 2 ^ 16 ≤ lines - (height - 1) := by omega
      omega

/-- **The newest message is shown to its end exactly when wrapping adds few rows**, whatever the messages, the area and
the rows the lines are drawn on. -/
theorem newest_shown_iff (app : Client.ChatApp) (blockInner : Rect → Rect) (area : Rect) :
    ∃ panel, renderMessagesPanel isAlphanumeric blockInner app area = .ok panel ∧
      app.messages.map (fun message => chatLine isAlphanumeric message ⟨app.username⟩) = panel.text.map .ok ∧
      ∀ heights : List Nat, heights.length = panel.text.length → (∀ h ∈ heights, 1 ≤ h) →
        (LastShown heights panel.scroll.toNat (blockInner area).height.toNat ↔
          WrapsLittle app.messages.length heights.sum (blockInner area).height.toNat) := by
  obtain ⟨panel, hpanel, hlines, hscroll⟩ :=
    renderMessagesPanel_ok isAlphanumeric app blockInner area
  refine ⟨panel, hpanel, hlines, ?_⟩
  intro heights hlength hrows
  have hmessages : app.messages.length = heights.length := (length_lines hlines).trans hlength.symm
  rw [lastShown_iff hrows, hmessages, wrapsLittle_iff (List.length_le_sum_of_one_le heights hrows),
    List.length_eq_zero_iff, hscroll, toNat_messageScrollOffset, hlength]

/-- What a border one cell wide leaves of an area that has room for one. -/
def insideBorder (area : Rect) : Rect := ⟨area.x + 1, area.y + 1, area.width - 2, area.height - 2⟩

/-- A message that wraps once in forty columns, received four times: the app draws it below its own two lines. -/
def fourReceived : Client.ChatApp :=
  let message := lit "[bob](09:00): the quick brown fox jumps over the lazy dog"
  let app := Client.ChatApp.new (lit "ann") (lit "localhost:8080")
  (((app.receiveMessage message).receiveMessage message).receiveMessage message).receiveMessage message

/-- In ten rows the six lines are all shown. -/
theorem newest_shown_ten_rows :
    ∃ panel, renderMessagesPanel Char.isAlphanum insideBorder fourReceived ⟨0, 3, 42, 12⟩ = .ok panel ∧
      LastShown [1, 1, 2, 2, 2, 2] panel.scroll.toNat (insideBorder ⟨0, 3, 42, 12⟩).height.toNat := by
  obtain ⟨panel, hpanel, hlines, hshown⟩ :=
    newest_shown_iff Char.isAlphanum fourReceived insideBorder ⟨0, 3, 42, 12⟩
  exact ⟨panel, hpanel, (hshown [1, 1, 2, 2, 2, 2] (length_lines hlines) (by decide)).2 (by decide)⟩

/-- **In six rows the newest message is not shown at all**: the window skips one row of ten and ends above its two. -/
theorem newest_hidden_six_rows :
    ∃ panel, renderMessagesPanel Char.isAlphanum insideBorder fourReceived ⟨0, 3, 42, 8⟩ = .ok panel ∧
      [1, 1, 2, 2, 2, 2].length = panel.text.length ∧ panel.scroll = 1 ∧
      ¬ LastShown [1, 1, 2, 2, 2, 2] panel.scroll.toNat (insideBorder ⟨0, 3, 42, 8⟩).height.toNat := by
  obtain ⟨panel, hpanel, hlines, hscroll⟩ := renderMessagesPanel_ok Char.isAlphanum fourReceived insideBorder
    ⟨0, 3, 42, 8⟩
  have hlength : 6 = panel.text.length := length_lines hlines
  have hone : panel.scroll = 1 := by
    rw [hscroll, messageScrollOffset, ← hlength]
    rfl
  refine ⟨panel, hpanel, hlength, hone, ?_⟩
  rw [hone]
  intro h
  exact absurd (h 5 rfl) (by decide)

end Tui
end Drocsid
