import Drocsid.ChatText
import Drocsid.Handshake
/-!
# ChatLine — how the client draws a message (`crates/tui/src/components.rs`, `theme.rs`)

`chat_line` tells a message's origin from its text alone: a prefix test, then the parser.  What it draws of the three
texts the server makes of a name (`joinMessage`, `formatChatMessage`, `leaveMessage`) matches their origin exactly when
the name is unambiguous (`attribution_iff`).
-/
namespace Drocsid

open Text Protocol Server

namespace Tui

inductive Color
  | black | cyan | gray | darkGray | magenta | white | rgb (r g b : Nat)
  deriving DecidableEq, Repr

inductive Modifier
  | dim
  deriving DecidableEq, Repr

/-- `ratatui::style::Style`. -/
structure Style where
  fg       : Option Color := none
  bg       : Option Color := none
  modifier : Option Modifier := none
  deriving DecidableEq, Repr

structure Span where
  content : Str
  style   : Style
  deriving DecidableEq, Repr

abbrev Line := List Span

inductive MessageState
  | pending | confirmed
  deriving DecidableEq, Repr

structure ChatMessage where
  text  : Str
  state : MessageState
  deriving DecidableEq, Repr

/-- The fields of `ChatApp` that drawing a message reads. -/
structure ChatApp where
  username : Str
  deriving DecidableEq, Repr

def pastelYellow : Color := .rgb 245 229 168

def systemMessageStyle : Style := { fg := some .magenta }

def usernameStyle (pending : Bool) : Style := if pending then { fg := some .gray } else { fg := some .cyan }

def timestampStyle : Style := { fg := some .darkGray, modifier := some .dim }

def bodyStyle (pending : Bool) : Style := if pending then { fg := some .gray } else { fg := some .white }

def fallbackMessageStyle (pending : Bool) : Style := if pending then { fg := some .gray } else {}

variable (isAlphanumeric : Char → Bool)

def messageMentionsCurrentUser (app : ChatApp) (text : Str) : Except Panic Bool :=
  messageMentionsUser isAlphanumeric text app.username

def fallbackLineStyle (message : ChatMessage) (app : ChatApp) : Except Panic Style := do
  let fallbackStyle := fallbackMessageStyle (message.state = .pending)
  if ← messageMentionsCurrentUser isAlphanumeric app message.text then
    return { fallbackStyle with fg := some .black, bg := some pastelYellow }
  else return fallbackStyle

def chatMessageLine (message : ChatMessage) (app : ChatApp) (username timestamp body : Str) : Except Panic Line := do
  let mentionHighlight ← messageMentionsCurrentUser isAlphanumeric app body
  let nameStyle := usernameStyle (message.state = .pending)
  let textStyle := bodyStyle (message.state = .pending)
  let (nameStyle, timeStyle, colonStyle, textStyle) :=
    if mentionHighlight then
      ({ nameStyle with bg := some pastelYellow }, { timestampStyle with bg := some pastelYellow },
        { textStyle with fg := some .black, bg := some pastelYellow },
        { textStyle with fg := some .black, bg := some pastelYellow })
    else (nameStyle, timestampStyle, textStyle, textStyle)
  return [⟨lit "[" ++ username ++ lit "]", nameStyle⟩, ⟨lit "(" ++ timestamp ++ lit ")", timeStyle⟩,
    ⟨lit ":", colonStyle⟩, ⟨lit " ", {}⟩, ⟨body, textStyle⟩]

def chatLine (message : ChatMessage) (app : ChatApp) : Except Panic Line :=
  if (lit "[system]").isPrefixOf message.text then .ok [⟨message.text, systemMessageStyle⟩]
  else match parseChatMessage message.text with
    | .error e => .error e
    | .ok (some (username, timestamp, body)) => chatMessageLine isAlphanumeric message app username timestamp body
    | .ok none => do
      let fallbackStyle ← fallbackLineStyle isAlphanumeric message app
      return [⟨message.text, fallbackStyle⟩]

/-! ## What a reader takes a line for -/

inductive LineKind
  | system
  | chat (username timestamp body : Str)
  | notice
  deriving DecidableEq, Repr

/-- The string between a span's first and last characters. -/
def inner (s : Str) : Str := (s.drop 1).dropLast

/-- The kind of a drawn line: one span in the system's style, one span in another, or name, time and body. -/
def Line.kind : Line → LineKind
  | [name, time, _, _, body] => .chat (inner name.content) (inner time.content) body.content
  | [span] => if span.style = systemMessageStyle then .system else .notice
  | _ => .notice

/-- The kind of the line drawn for a message. -/
def lineKind (app : ChatApp) (state : MessageState) (text : Str) : Except Panic LineKind :=
  (chatLine isAlphanumeric ⟨text, state⟩ app).map Line.kind

theorem inner_wrap (a b : Char) (s : Str) : inner ([a] ++ s ++ [b]) = s := by
  simp [inner]

theorem lineKind_system {app : ChatApp} {state : MessageState} {text : Str} (h : lit "[system]" <+: text) :
    lineKind isAlphanumeric app state text = .ok .system := by
  unfold lineKind chatLine
  rw [if_pos (List.isPrefixOf_iff_prefix.2 h)]
  rfl

theorem lineKind_chat {app : ChatApp} {state : MessageState} {text u t b : Str} (h : ¬ lit "[system]" <+: text)
    (hp : parseChatMessage text = .ok (some (u, t, b))) :
      lineKind isAlphanumeric app state text = .ok (.chat u t b) := by
  unfold lineKind chatLine
  rw [if_neg (fun hs => h (List.isPrefixOf_iff_prefix.1 hs))]
  simp only [hp, chatMessageLine, messageMentionsCurrentUser]
  obtain ⟨m, hm⟩ := messageMentionsUser_ok isAlphanumeric b app.username
  rw [hm]
  simp only [bind, Except.bind, pure, Except.pure, Except.map, Line.kind]
  rw [show lit "[" = ['['] from rfl, show lit "]" = [']'] from rfl, show lit "(" = ['('] from rfl,
    show lit ")" = [')'] from rfl, inner_wrap, inner_wrap]

theorem lineKind_notice {app : ChatApp} {state : MessageState} {text : Str} (h : ¬ lit "[system]" <+: text)
    (hp : parseChatMessage text = .ok none) : lineKind isAlphanumeric app state text = .ok .notice := by
  unfold lineKind chatLine
  rw [if_neg (fun hs => h (List.isPrefixOf_iff_prefix.1 hs))]
  simp only [hp, fallbackLineStyle, messageMentionsCurrentUser]
  obtain ⟨m, hm⟩ := messageMentionsUser_ok isAlphanumeric text app.username
  rw [hm]
  cases m <;> cases state <;> rfl

/-- Every message is drawn. -/
theorem lineKind_ok (app : ChatApp) (state : MessageState) (text : Str) :
    ∃ k, lineKind isAlphanumeric app state text = .ok k := by
  by_cases hs : lit "[system]" <+: text
  · exact ⟨_, lineKind_system isAlphanumeric hs⟩
  · obtain ⟨parsed, hp⟩ := parseChatMessage_ok text
    cases parsed with
    | none => exact ⟨_, lineKind_notice isAlphanumeric hs hp⟩
    | some p => exact ⟨_, lineKind_chat isAlphanumeric hs hp⟩

/-! ## Attribution -/

/-- **The three texts made of a name are drawn as what they are**: the formatted message as a chat line of that name and
that body, the two notices as notices. -/
def AttributionKept (app : ChatApp) (state : MessageState) (username content : Str) (t : HhMm) : Prop :=
  lineKind isAlphanumeric app state (formatChatMessage username t.text content) = .ok (.chat username t.text content) ∧
  lineKind isAlphanumeric app state (trimEnd (joinMessage username)) = .ok .notice ∧
  lineKind isAlphanumeric app state (trimEnd (leaveMessage username)) = .ok .notice

/-- The names no delimiter or prefix of the client's reading overlaps. -/
structure Unambiguous (username : Str) : Prop where
  closeUser : ¬ lit "](" <:+: username
  system : username ≠ lit "system"
  systemClosed : ¬ lit "system]" <+: username
  systemOpen : ¬ lit "[system]" <+: username

/-- A prefix of a string and what follows it ends inside the string, or takes the next character too. -/
theorem prefix_append_cons {l u v : Str} {c : Char} (h : l <+: u ++ c :: v) : l <+: u ∨ ∃ r, l = u ++ c :: r := by
  obtain ⟨r, hr⟩ := h
  rcases List.append_eq_append_iff.1 hr with ⟨w, rfl, -⟩ | ⟨w, rfl, hw⟩
  · exact Or.inl (List.prefix_append l w)
  · cases w with
    | nil => exact Or.inl (by simp)
    | cons d w =>
      simp only [List.cons_append, List.cons.injEq] at hw
      exact Or.inr ⟨w, by rw [hw.1]⟩

theorem system_prefix_chat {u t b : Str} :
    lit "[system]" <+: formatChatMessage u t b ↔ u = lit "system" ∨ lit "system]" <+: u := by
  have hcons : lit "[system]" <+: formatChatMessage u t b ↔
      lit "system]" <+: u ++ ']' :: ('(' :: (t ++ (lit "): " ++ b))) := by
    rw [formatChatMessage_eq]
    exact List.cons_prefix_cons.trans (and_iff_right rfl)
  rw [hcons]
  constructor
  · intro h
    rcases prefix_append_cons h with h | ⟨r, hr⟩
    · exact Or.inr h
    · left
      -- `]` ends `system]` and occurs nowhere else in it
      have hlen : u.length < (lit "system]").length := by rw [hr, List.length_append, List.length_cons]; omega
      have hu : u = (lit "system]").take u.length := by rw [hr, List.take_left]
      have hat : (lit "system]")[u.length]? = some ']' := by rw [hr, List.getElem?_append_right (Nat.le_refl _)]; simp
      have honly : ∀ k < (lit "system]").length, (lit "system]")[k]? = some ']' → k = 6 := by decide
      rw [honly _ hlen hat] at hu
      exact hu
  · rintro (rfl | h)
    · exact ⟨_, rfl⟩
    · exact h.trans (List.prefix_append _ _)

theorem system_prefix_leave {u : Str} : lit "[system]" <+: u ++ lit " has left the chat" ↔ lit "[system]" <+: u := by
  constructor
  · intro h
    rw [show lit " has left the chat" = ' ' :: lit "has left the chat" from rfl] at h
    rcases prefix_append_cons h with h | ⟨r, hr⟩
    · exact h
    · exact absurd (show ' ' ∈ lit "[system]" by rw [hr]; simp) (by decide)
  · exact fun h => h.trans (List.prefix_append _ _)

theorem kind_join (app : ChatApp) (state : MessageState) (u : Str) :
    lineKind isAlphanumeric app state (trimEnd (joinMessage u)) = .ok .notice := by
  have hhead : (trimEnd (joinMessage u)).head? = some '@' := by rw [trimEnd_joinMessage]; rfl
  refine lineKind_notice isAlphanumeric ?_ (parseChatMessage_of_head (by rw [hhead]; decide))
  rintro ⟨r, hr⟩
  rw [← hr] at hhead
  exact absurd hhead (show some '[' ≠ some '@' by decide)

/-- A name without `](` leaves a notice that is not parsed. -/
theorem kind_leave (app : ChatApp) (state : MessageState) {u : Str} (hc : ¬ lit "](" <:+: u) :
    lineKind isAlphanumeric app state (trimEnd (leaveMessage u)) = .ok .notice ↔ ¬ lit "[system]" <+: u := by
  rw [trimEnd_leaveMessage]
  constructor
  · intro h hs
    rw [lineKind_system isAlphanumeric (system_prefix_leave.2 hs)] at h
    cases h
  · intro hs
    refine lineKind_notice isAlphanumeric (fun h => hs (system_prefix_leave.1 h)) (parseChatMessage_eq_none ?_)
    exact fun h => hc ((closeUser_infix_append _ (by decide)).1 h)

/-- The formatted message is a chat line of its name unless the name reads as the system's or closes early. -/
theorem kind_chat (app : ChatApp) (state : MessageState) {u c : Str} {t : HhMm} :
    lineKind isAlphanumeric app state (formatChatMessage u t.text c) = .ok (.chat u t.text c) ↔
      ¬ lit "](" <:+: u ∧ u ≠ lit "system" ∧ ¬ lit "system]" <+: u := by
  constructor
  · intro h
    by_cases hs : lit "[system]" <+: formatChatMessage u t.text c
    · rw [lineKind_system isAlphanumeric hs] at h; cases h
    · obtain ⟨parsed, hp⟩ := parseChatMessage_ok (formatChatMessage u t.text c)
      cases parsed with
      | none => rw [lineKind_notice isAlphanumeric hs hp] at h; cases h
      | some p =>
        obtain ⟨u', t', c'⟩ := p
        rw [lineKind_chat isAlphanumeric hs hp] at h
        cases h
        rw [system_prefix_chat, not_or] at hs
        exact ⟨(parseChatMessage_eq_some.1 hp).2.1, hs⟩
  · rintro ⟨hc, hs, hsc⟩
    refine lineKind_chat isAlphanumeric (fun h => ?_) (parseChatMessage_eq_some.2 ⟨rfl, hc, t.no_closeTime⟩)
    rcases system_prefix_chat.1 h with h | h
    · exact hs h
    · exact hsc h

/-- **Attribution is kept exactly for the unambiguous names**, whatever the content, the time and the reader. -/
theorem attribution_iff (app : ChatApp) (state : MessageState) (u c : Str) (t : HhMm) :
    AttributionKept isAlphanumeric app state u c t ↔ Unambiguous u := by
  constructor
  · rintro ⟨hchat, -, hleave⟩
    obtain ⟨hc, hs, hsc⟩ := (kind_chat isAlphanumeric app state).1 hchat
    exact ⟨hc, hs, hsc, (kind_leave isAlphanumeric app state hc).1 hleave⟩
  · rintro ⟨hc, hs, hsc, hso⟩
    exact ⟨(kind_chat isAlphanumeric app state).2 ⟨hc, hs, hsc⟩, kind_join isAlphanumeric app state u,
      (kind_leave isAlphanumeric app state hc).2 hso⟩

/-- **A name that forges another's line**: the handshake accepts it, and what its session says is drawn as alice's. -/
theorem attribution_forged :
    handshakeUsername (.ok (some ⟨currentProtocolVersion, .handshake, toBytes (lit "alice](09:00): hi")⟩)) =
        .ok (lit "alice](09:00): hi") ∧
      acceptChat ⟨currentProtocolVersion, .chat, toBytes (lit "x")⟩ = .ok (some (lit "x")) ∧
      lineKind (fun _ => true) ⟨lit "bob"⟩ .confirmed
          (formatChatMessage (lit "alice](09:00): hi") (HhMm.text ⟨12, 34⟩) (lit "x")) =
        .ok (.chat (lit "alice") (lit "09:00") (lit "hi](12:34): x")) ∧
      ¬ AttributionKept (fun _ => true) ⟨lit "bob"⟩ .confirmed (lit "alice](09:00): hi") (lit "x") ⟨12, 34⟩ := by
  have hkind : lineKind (fun _ => true) ⟨lit "bob"⟩ .confirmed
      (formatChatMessage (lit "alice](09:00): hi") (HhMm.text ⟨12, 34⟩) (lit "x")) =
        .ok (.chat (lit "alice") (lit "09:00") (lit "hi](12:34): x")) :=
    lineKind_chat _ (by decide) (by decide)
  refine ⟨by decide, by decide, hkind, fun h => ?_⟩
  have := h.1
  rw [hkind] at this
  exact absurd this (by decide)

end Tui
end Drocsid
