import Drocsid.Protocol
import Drocsid.Matches
/-!
# ChatText — what `parse_chat_message` and `message_mentions_user` compute

The parser is the inverse of `format_chat_message` on the names without `](` and the times without `): `
(`parseChatMessage_eq_some`); neither function slices off a character boundary (`parseChatMessage_ok`,
`messageMentionsUser_ok`).  The mention scan finds what a scan without overlaps takes (`mentionsFrom_iff`), so it misses
a mention that begins inside another occurrence of the needle.
-/
namespace Drocsid

open Text Matches

namespace Protocol

theorem indexFrom_append (a b : Str) : indexFrom (a ++ b) (byteLen a) = .ok b := by
  unfold indexFrom; rw [dropBytes_append]

theorem byteLen_closeUser : byteLen (lit "](") = 2 := by decide

theorem byteLen_closeTime : byteLen (lit "): ") = 3 := by decide

theorem byteLen_open : byteLen ['['] = 1 := by decide

/-- What follows a string completes no needle whose last character it lacks. -/
theorem infix_append_of_not_mem {needle s : Str} {d : Char} (hn : needle.getLast? = some d) (v : Str) (hd : d ∉ v) :
    needle <:+: s ++ v ↔ needle <:+: s := by
  induction v using List.reverseRecOn with
  | nil => rw [List.append_nil]
  | append_singleton v c ih =>
    simp only [List.mem_append, List.mem_singleton, not_or] at hd
    rw [← ih hd.1, ← List.append_assoc]
    constructor
    · intro h
      rcases List.infix_concat_iff.1 h with ⟨a, ha⟩ | hs
      · have hlast := congrArg List.getLast? ha
        rw [List.getLast?_append, hn, List.getLast?_concat] at hlast
        exact absurd (Option.some.inj hlast) hd.2
      · exact hs
    · exact fun h => h.trans (List.prefix_append _ [c]).isInfix

theorem closeUser_infix_append {s : Str} (v : Str) (h : '(' ∉ v) : lit "](" <:+: s ++ v ↔ lit "](" <:+: s :=
  infix_append_of_not_mem (d := '(') (by decide) v h

theorem closeTime_infix_append {s : Str} (v : Str) (h : ' ' ∉ v) : lit "): " <:+: s ++ v ↔ lit "): " <:+: s :=
  infix_append_of_not_mem (d := ' ') (by decide) v h

theorem find_closeUser {a b : Str} (h : ¬ lit "](" <:+: a) :
    find (lit "](") (a ++ (lit "](" ++ b)) = some (byteLen a) :=
  find_append (fun hi => h ((closeUser_infix_append [']'] (by decide)).1 hi))

theorem find_closeTime {a b : Str} (h : ¬ lit "): " <:+: a) :
    find (lit "): ") (a ++ (lit "): " ++ b)) = some (byteLen a) :=
  find_append (fun hi => h ((closeTime_infix_append [')', ':'] (by decide)).1 hi))

/-- A first occurrence leaves no occurrence in what precedes it. -/
theorem not_infix_of_find {needle a b : Str} (h : find needle (a ++ (needle ++ b)) = some (byteLen a))
    (hn : needle ≠ []) :
    ¬ needle <:+: a := by
  rintro ⟨x, y, rfl⟩
  have hpos : 0 < byteLen needle := Nat.pos_of_ne_zero (fun h0 => hn (byteLen_eq_zero.1 h0))
  refine (find_eq_some.1 h).2 (byteLen x) ?_ ⟨x, y ++ (needle ++ b), by simp, rfl⟩
  simp only [byteLen_append]; omega

/-- `[` is the only character of a formatted message before the name. -/
theorem isInfix_open {u : Str} : lit "](" <:+: '[' :: u ↔ lit "](" <:+: u := by
  rw [List.infix_cons_iff]
  constructor
  · rintro (h | h)
    · exact absurd (List.cons_prefix_cons.1 h).1 (by decide)
    · exact h
  · exact Or.inr

theorem formatChatMessage_eq (u t b : Str) :
    formatChatMessage u t b = ('[' :: u) ++ (lit "](" ++ (t ++ (lit "): " ++ b))) := by
  simp [formatChatMessage, lit]

/-- The name after a message's opening bracket. -/
def afterOpen : Str → Option Str
  | '[' :: name => some name
  | _ => none

/-- The parts of a message around the two delimiters, as `parse_chat_message` cuts them. -/
theorem parseChatMessage_of_find {u r t b : Str} {message : Str} (hm : message = u ++ (lit "](" ++ r))
    (hr : r = t ++ (lit "): " ++ b)) (h1 : find (lit "](") message = some (byteLen u))
    (h2 : find (lit "): ") r = some (byteLen t)) :
    parseChatMessage message = .ok ((afterOpen u).map (fun name => (name, t, b))) := by
  have e1 : message = (u ++ lit "](") ++ r := by rw [hm, List.append_assoc]
  have hidx : indexFrom message (byteLen u + 2) = .ok r := by
    rw [e1, ← byteLen_closeUser, ← byteLen_append, indexFrom_append]
  have htime : sliceBytes message (byteLen u + 2) (byteLen t + byteLen u + 2) = some t := by
    rw [e1, hr, ← byteLen_closeUser, ← byteLen_append,
      show byteLen t + byteLen u + byteLen (lit "](") = byteLen (u ++ lit "](") + byteLen t by
        rw [byteLen_append]; omega, sliceBytes_append]
  have hbody : dropBytes message (byteLen t + byteLen u + 2 + 3) = some b := by
    rw [show message = (u ++ lit "](" ++ t ++ lit "): ") ++ b by rw [hm, hr]; simp,
      show byteLen t + byteLen u + 2 + 3 = byteLen (u ++ lit "](" ++ t ++ lit "): ") by
        simp only [byteLen_append, byteLen_closeUser, byteLen_closeTime]; omega, dropBytes_append]
  unfold parseChatMessage
  simp only [h1, hidx, h2, htime, hbody]
  rw [hm]
  match u with
  | [] => rfl
  | c :: name =>
    by_cases hc : c = '['
    · subst hc
      have hslice : sliceBytes ('[' :: name ++ (lit "](" ++ r)) 1 (byteLen ('[' :: name)) = some name := by
        have := sliceBytes_append ['['] name (lit "](" ++ r)
        rwa [byteLen_open] at this
      rw [hslice]
      rfl
    · have hpre : (lit "[").isPrefixOf (c :: name ++ (lit "](" ++ r)) = false := by
        rw [show lit "[" = ['['] from rfl, List.cons_append, List.isPrefixOf_cons_cons]
        simp [Ne.symm hc]
      have hopen : afterOpen (c :: name) = none := by unfold afterOpen; split <;> simp_all
      rw [hpre, hopen]
      cases sliceBytes (c :: name ++ (lit "](" ++ r)) 1 (byteLen (c :: name)) <;> rfl

/-- **`parse_chat_message` never slices off a character boundary.** -/
theorem parseChatMessage_ok (message : Str) : ∃ parsed, parseChatMessage message = .ok parsed := by
  cases h1 : find (lit "](") message with
  | none => exact ⟨none, by simp only [parseChatMessage, h1]⟩
  | some i =>
    obtain ⟨u, r, hm, rfl⟩ := find_split h1
    cases h2 : find (lit "): ") r with
    | none =>
      have hidx : indexFrom message (byteLen u + 2) = .ok r := by
        rw [hm, ← List.append_assoc, ← byteLen_closeUser, ← byteLen_append, indexFrom_append]
      exact ⟨none, by simp only [parseChatMessage, h1, hidx, h2]⟩
    | some j =>
      obtain ⟨t, b, hr, rfl⟩ := find_split h2
      exact ⟨_, parseChatMessage_of_find hm hr h1 h2⟩

/-- **`parse_chat_message` inverts `format_chat_message`** on exactly the names and times it cannot misread. -/
theorem parseChatMessage_eq_some {message u t b : Str} :
    parseChatMessage message = .ok (some (u, t, b)) ↔
      message = formatChatMessage u t b ∧ ¬ lit "](" <:+: u ∧ ¬ lit "): " <:+: t := by
  constructor
  · intro h
    cases h1 : find (lit "](") message with
    | none => simp [parseChatMessage, h1] at h
    | some i =>
      obtain ⟨u', r, hm, rfl⟩ := find_split h1
      cases h2 : find (lit "): ") r with
      | none =>
        have hidx : indexFrom message (byteLen u' + 2) = .ok r := by
          rw [hm, ← List.append_assoc, ← byteLen_closeUser, ← byteLen_append, indexFrom_append]
        simp [parseChatMessage, h1, hidx, h2] at h
      | some j =>
        obtain ⟨t', b', hr, rfl⟩ := find_split h2
        rw [parseChatMessage_of_find hm hr h1 h2] at h
        obtain ⟨name, hopen, htup⟩ := Option.map_eq_some_iff.1 (Except.ok.inj h)
        simp only [Prod.mk.injEq] at htup
        obtain ⟨rfl, rfl, rfl⟩ := htup
        obtain rfl : u' = '[' :: name := by
          unfold afterOpen at hopen
          split at hopen
          · cases hopen; rfl
          · cases hopen
        refine ⟨by rw [formatChatMessage_eq, hm, hr], ?_, ?_⟩
        · rw [hm] at h1
          exact fun hu => not_infix_of_find h1 (by decide) (isInfix_open.2 hu)
        · rw [hr] at h2
          exact not_infix_of_find h2 (by decide)
  · rintro ⟨rfl, hu, ht⟩
    rw [formatChatMessage_eq]
    exact parseChatMessage_of_find rfl rfl (find_closeUser (fun h => hu (isInfix_open.1 h))) (find_closeTime ht)

/-- **The parser and the formatter**: the parser is total, accepts exactly what was formatted from parts it cannot
misread, gives back what it accepts, and gives back those parts whatever the body. -/
theorem parseChatMessage_inverts :
    (∀ message, ∃ parsed, parseChatMessage message = .ok parsed) ∧
    (∀ message u t b, parseChatMessage message = .ok (some (u, t, b)) ↔
      message = formatChatMessage u t b ∧ ¬ lit "](" <:+: u ∧ ¬ lit "): " <:+: t) ∧
    (∀ message u t b, parseChatMessage message = .ok (some (u, t, b)) → formatChatMessage u t b = message) ∧
    (∀ u t b, parseChatMessage (formatChatMessage u t b) = .ok (some (u, t, b)) ↔
      ¬ lit "](" <:+: u ∧ ¬ lit "): " <:+: t) := by
  refine ⟨parseChatMessage_ok, ?_, ?_, ?_⟩
  · intro message u t b
    exact parseChatMessage_eq_some
  · intro message u t b h
    exact (parseChatMessage_eq_some.1 h).1.symm
  · intro u t b
    rw [parseChatMessage_eq_some]
    exact and_iff_right rfl

/-- A message that does not hold `](` is not parsed. -/
theorem parseChatMessage_eq_none {message : Str} (h : ¬ lit "](" <:+: message) :
    parseChatMessage message = .ok none := by
  unfold parseChatMessage
  rw [find_eq_none.2 h]

/-- A message that does not start with `[` is not parsed. -/
theorem parseChatMessage_of_head {message : Str} (h : message.head? ≠ some '[') :
    parseChatMessage message = .ok none := by
  obtain ⟨parsed, hp⟩ := parseChatMessage_ok message
  cases parsed with
  | none => exact hp
  | some p =>
    obtain ⟨u, t, b⟩ := p
    obtain ⟨rfl, -⟩ := parseChatMessage_eq_some.1 hp
    rw [formatChatMessage_eq] at h
    exact absurd rfl h

/-- **A formatted message parses, whatever the name**, to a body that its content ends, after nothing or after a
space. -/
theorem parseChatMessage_formatChatMessage (u t b : Str) :
    ∃ name time x, parseChatMessage (formatChatMessage u t b) = .ok (some (name, time, x ++ b)) ∧
      (x = [] ∨ x.getLast? = some ' ') := by
  have hmessage := formatChatMessage_eq u t b
  cases h1 : find (lit "](") (('[' :: u) ++ (lit "](" ++ (t ++ (lit "): " ++ b)))) with
  | none => exact absurd ⟨'[' :: u, t ++ (lit "): " ++ b), by simp⟩ (find_eq_none.1 h1)
  | some i =>
    obtain ⟨p, w, hp, hi, -⟩ := find_append_le (by decide) h1
    -- the name found starts with the opening bracket
    obtain ⟨name, rfl⟩ : ∃ name, p = '[' :: name := by
      cases p with
      | nil =>
        simp only [List.nil_append, lit, List.cons_append] at hp
        exact absurd (List.cons.inj hp).1 (by decide)
      | cons c name =>
        simp only [List.cons_append] at hp
        exact ⟨name, by rw [(List.cons.inj hp).1]⟩
    cases h2 : find (lit "): ") ((w ++ t) ++ (lit "): " ++ b)) with
    | none => exact absurd ⟨w ++ t, b, by simp⟩ (find_eq_none.1 h2)
    | some j =>
      obtain ⟨time, x, hx, hj, hlast⟩ := find_append_le (by decide) h2
      have hr : (w ++ t) ++ (lit "): " ++ b) = time ++ (lit "): " ++ (x ++ b)) := by
        rw [← List.append_assoc, hx]
        simp
      have hm : formatChatMessage u t b = ('[' :: name) ++ (lit "](" ++ ((w ++ t) ++ (lit "): " ++ b))) := by
        rw [hmessage, ← List.append_assoc, hp]
        simp
      rw [← hi, ← hmessage] at h1
      rw [← hj] at h2
      exact ⟨name, time, x, parseChatMessage_of_find hm hr h1 h2, hlast⟩

/-! ## Mentions -/

section Mentions

variable (isAlphanumeric : Char → Bool)

theorem mentionsFrom_none {a rest username : Str} (h : find (mentionNeedle username) rest = none) :
    mentionsFrom isAlphanumeric (a ++ rest) username (byteLen a) = .ok false := by
  rw [mentionsFrom]
  simp only [dropBytes_append, h]

/-- One turn of the loop at an occurrence: decide by the character after it, or go on past it. -/
theorem mentionsFrom_some {a x after username : Str}
    (h : find (mentionNeedle username) (x ++ (mentionNeedle username ++ after)) = some (byteLen x)) :
    mentionsFrom isAlphanumeric (a ++ (x ++ (mentionNeedle username ++ after))) username (byteLen a) =
      if after.head?.all (fun ch => !isAlphanumeric ch && ch != '_') then .ok true
      else mentionsFrom isAlphanumeric (a ++ (x ++ (mentionNeedle username ++ after))) username
        (byteLen (a ++ (x ++ mentionNeedle username))) := by
  have hsplit : a ++ (x ++ (mentionNeedle username ++ after)) = (a ++ (x ++ mentionNeedle username)) ++ after := by simp
  have hnext : byteLen a + byteLen x + byteLen (mentionNeedle username) =
      byteLen (a ++ (x ++ mentionNeedle username)) := by
    simp only [byteLen_append]; omega
  conv => lhs; rw [mentionsFrom]
  simp only [dropBytes_append, h]
  split
  · rename_i hnone
    rw [hnext, hsplit, dropBytes_append] at hnone
    cases hnone
  · rename_i after' hsome
    rw [hnext, hsplit, dropBytes_append] at hsome
    obtain rfl := Option.some.inj hsome
    rw [hnext]

/-- **The mention scan never slices off a character boundary**, started at a boundary of the text. -/
theorem mentionsFrom_ok (username : Str) : ∀ (n : Nat) (a rest : Str), rest.length ≤ n →
    ∃ b, mentionsFrom isAlphanumeric (a ++ rest) username (byteLen a) = .ok b
  | n, a, rest, hn => by
    cases hf : find (mentionNeedle username) rest with
    | none => exact ⟨false, mentionsFrom_none isAlphanumeric hf⟩
    | some i =>
      obtain ⟨x, after, rfl, rfl⟩ := find_split hf
      rw [mentionsFrom_some isAlphanumeric hf]
      split
      · exact ⟨true, rfl⟩
      · cases n with
        | zero => simp [mentionNeedle] at hn
        | succ n =>
          obtain ⟨b, hb⟩ := mentionsFrom_ok username n (a ++ (x ++ mentionNeedle username)) after (by
            simp only [List.length_append, mentionNeedle, List.length_cons] at hn; omega)
          exact ⟨b, by simpa using hb⟩

theorem messageMentionsUser_ok (text username : Str) : ∃ b, messageMentionsUser isAlphanumeric text username = .ok b :=
  mentionsFrom_ok isAlphanumeric username _ [] text (Nat.le_refl _)

theorem mentionNeedle_ne_nil (username : Str) : mentionNeedle username ≠ [] := List.cons_ne_nil _ _

/-- The needle overlaps itself: it occurs again after white space inside it, and what follows the first occurrence then
continues a word. -/
def Overlaps (username : Str) : Prop :=
  ∃ before overlap after, mentionNeedle username = before ++ overlap ∧ mentionNeedle username = overlap ++ after ∧
    overlap ≠ [] ∧ (∃ c, before.getLast? = some c ∧ isWhitespace c = true) ∧
    ∃ ch, after.head? = some ch ∧ (isAlphanumeric ch = true ∨ ch = '_')

theorem leftmost_iff_find {needle x y : Str} :
    Leftmost needle x y ↔ find needle (x ++ (needle ++ y)) = some (byteLen x) := by
  constructor
  · intro hl
    refine find_eq_some.2 ⟨⟨x, y, rfl, rfl⟩, ?_⟩
    rintro j hj ⟨x', y', he, rfl⟩
    obtain ⟨r, rfl, -⟩ := append_inj_of_byteLen he (Nat.le_of_lt hj)
    have hle := hl x' y' he
    rw [List.length_append] at hle
    obtain rfl : r = [] := List.eq_nil_of_length_eq_zero (by omega)
    simp at hj
  · intro h x' y' he
    by_contra hlt
    obtain ⟨r, rfl⟩ : x' <+: x := List.prefix_of_prefix_length_le (he ▸ List.prefix_append x' (needle ++ y'))
      (List.prefix_append x (needle ++ y)) (Nat.le_of_lt (Nat.lt_of_not_le hlt))
    have hr : byteLen r ≠ 0 := by
      intro h0
      rw [byteLen_eq_zero.1 h0, List.append_nil] at hlt
      exact hlt (Nat.le_refl _)
    refine (find_eq_some.1 h).2 (byteLen x') ?_ ⟨x', y', he, rfl⟩
    rw [byteLen_append]
    omega

/-- A mention may stop here: at the end of the text, or at a character that does not continue a word. -/
def EndsWord (after : Str) : Prop := ∀ ch, after.head? = some ch → isAlphanumeric ch = false ∧ ch ≠ '_'

theorem endsWord_iff {after : Str} :
    after.head?.all (fun ch => !isAlphanumeric ch && ch != '_') = true ↔ EndsWord isAlphanumeric after := by
  unfold EndsWord
  cases after.head? with
  | none => simp
  | some ch => simp

/-- **The scan answers yes exactly at a match that ends its word.** -/
theorem mentionsFrom_iff (username : Str) : ∀ (n : Nat) (a rest : Str), rest.length ≤ n →
    (mentionsFrom isAlphanumeric (a ++ rest) username (byteLen a) = .ok true ↔
      ∃ before after, Match (mentionNeedle username) rest before after ∧ EndsWord isAlphanumeric after)
  | n, a, rest, hn => by
    cases hf : find (mentionNeedle username) rest with
    | none =>
      rw [mentionsFrom_none isAlphanumeric hf]
      refine iff_of_false (by decide) ?_
      rintro ⟨before, after, m, -⟩
      exact find_eq_none.1 hf ⟨before, after, by rw [m.occurs, List.append_assoc]⟩
    | some i =>
      obtain ⟨x, y, rfl, rfl⟩ := find_split hf
      have hl : Leftmost (mentionNeedle username) x y := leftmost_iff_find.2 hf
      rw [mentionsFrom_some isAlphanumeric hf]
      split
      · rename_i hend
        exact iff_of_true rfl ⟨x, y, .first hl, (endsWord_iff isAlphanumeric).1 hend⟩
      · rename_i hend
        cases n with
        | zero => simp [mentionNeedle] at hn
        | succ n =>
          have ih := mentionsFrom_iff username n (a ++ (x ++ mentionNeedle username)) y (by
            simp only [List.length_append, mentionNeedle, List.length_cons] at hn; omega)
          have htext : a ++ (x ++ (mentionNeedle username ++ y)) = a ++ (x ++ mentionNeedle username) ++ y := by simp
          rw [htext, ih]
          constructor
          · rintro ⟨before, after, m, hafter⟩
            exact ⟨_, after, .later hl m, hafter⟩
          · rintro ⟨before, after, m, hafter⟩
            rcases m.inv rfl hl with ⟨-, rfl⟩ | ⟨before', -, m'⟩
            · exact absurd ((endsWord_iff isAlphanumeric).2 hafter) hend
            · exact ⟨before', after, m', hafter⟩

theorem messageMentionsUser_iff (text username : Str) : messageMentionsUser isAlphanumeric text username = .ok true ↔
    ∃ before after, Match (mentionNeedle username) text before after ∧ EndsWord isAlphanumeric after :=
  mentionsFrom_iff isAlphanumeric username _ [] text (Nat.le_refl _)

variable {isAlphanumeric}

/-- An occurrence that starts its word and ends it is found, unless the scan steps over it from one that it overlaps. -/
theorem mentionsFrom_of_occurrence {username y : Str} (hno : ¬ Overlaps isAlphanumeric username)
    (hy : y.head?.all (fun ch => !isAlphanumeric ch && ch != '_') = true) (a x : Str)
    (hx : ∀ c, x.getLast? = some c → isWhitespace c = true) :
    mentionsFrom isAlphanumeric (a ++ (x ++ (mentionNeedle username ++ y))) username (byteLen a) = .ok true := by
  apply (mentionsFrom_iff isAlphanumeric username _ a _ (Nat.le_refl _)).2
  rcases match_or_inside (mentionNeedle_ne_nil username) (x := x) (y := y) rfl with m | ⟨before, after, m, hlt, hgt⟩
  · exact ⟨x, y, m, (endsWord_iff isAlphanumeric).1 hy⟩
  · refine ⟨before, after, m, ?_⟩
    obtain ⟨b, w, c, hb, hc, hne, hw, rfl, rfl⟩ := overlap_of_inside m.occurs.symm hlt hgt
    -- a match that does not end its word would be stepped over with what it overlaps
    intro ch hch
    by_contra hword
    apply hno
    have hlast := List.getLast?_eq_some_getLast hne
    refine ⟨b, w, c, hb, hc, hw, ⟨_, hlast, hx _ ?_⟩, ?_⟩
    · rw [List.getLast?_append, hlast, Option.some_or]
    · cases c with
      | nil =>
        rw [List.append_nil] at hc
        have hlen := congrArg List.length hb
        rw [hc, List.length_append] at hlen
        have := List.length_pos_of_ne_nil hne
        omega
      | cons d c =>
        obtain rfl : d = ch := Option.some.inj hch
        refine ⟨d, rfl, ?_⟩
        cases hd : isAlphanumeric d with
        | true => exact Or.inl rfl
        | false =>
          refine Or.inr ?_
          by_contra hu
          exact hword ⟨hd, hu⟩

/-- A text shorter than the needle mentions nobody of that name. -/
theorem messageMentionsUser_of_short {text username : Str} (h : byteLen text < byteLen (mentionNeedle username)) :
    messageMentionsUser isAlphanumeric text username = .ok false := by
  refine mentionsFrom_none isAlphanumeric (a := []) (find_eq_none.2 fun hin => ?_)
  have := byteLen_le_of_infix hin
  omega

/-- **The scan steps over an occurrence** that overlaps an earlier one it rejects. -/
theorem messageMentionsUser_of_overlap {before overlap after username : Str} {ch : Char}
    (h1 : mentionNeedle username = before ++ overlap) (h2 : mentionNeedle username = overlap ++ after)
    (hne : overlap ≠ []) (hhead : after.head? = some ch) (hch : isAlphanumeric ch = true ∨ ch = '_') :
    messageMentionsUser isAlphanumeric (before ++ mentionNeedle username) username = .ok false := by
  have htext : before ++ mentionNeedle username = [] ++ ([] ++ (mentionNeedle username ++ after)) := by
    rw [h2, ← List.append_assoc, ← h1, h2]
    simp
  have hfirst : find (mentionNeedle username) ([] ++ (mentionNeedle username ++ after)) = some (byteLen []) := by
    refine find_eq_some.2 ⟨⟨[], after, rfl, rfl⟩, ?_⟩
    intro j hj
    simp at hj
  have hstop : ¬ after.head?.all (fun ch => !isAlphanumeric ch && ch != '_') = true := by
    rw [hhead]
    rcases hch with h | h <;> simp [h]
  have hrest : find (mentionNeedle username) after = none := by
    refine find_eq_none.2 fun hin => ?_
    have hle := byteLen_le_of_infix hin
    have hpos : byteLen overlap ≠ 0 := fun h0 => hne (byteLen_eq_zero.1 h0)
    rw [h2, byteLen_append] at hle
    omega
  unfold messageMentionsUser
  rw [htext, show (0 : Nat) = byteLen [] from rfl, mentionsFrom_some isAlphanumeric hfirst, if_neg hstop]
  have := mentionsFrom_none isAlphanumeric (a := mentionNeedle username) hrest
  simpa using this

/-! ## What the scan should find, and what it steps over -/

section Exact

variable (isAlphanumeric) (text username : Str)

/-- `@username` stands somewhere in the text and ends its word there. -/
def Mentioned : Prop :=
  ∃ before after, text = before ++ (mentionNeedle username ++ after) ∧ EndsWord isAlphanumeric after

/-- The scan ends, and says whether the user is mentioned. -/
def ScansRight : Prop :=
  ∃ found, messageMentionsUser isAlphanumeric text username = .ok found ∧
    (found = true ↔ Mentioned isAlphanumeric text username)

/-- If there is a mention, there is one that does not begin inside a match of a scan without overlaps. -/
def MentionedOutside : Prop :=
  Mentioned isAlphanumeric text username → ∃ before after, text = before ++ (mentionNeedle username ++ after) ∧
    EndsWord isAlphanumeric after ∧ ¬ Inside (mentionNeedle username) text before

/-- The needle ends as it begins, and goes on with a word after that beginning. -/
def Bordered : Prop :=
  ∃ b w c, mentionNeedle username = b ++ w ∧ mentionNeedle username = w ++ c ∧ b ≠ [] ∧ w ≠ [] ∧
    ¬ EndsWord isAlphanumeric c

end Exact

theorem mentioned_of_scan {text username : Str} (h : messageMentionsUser isAlphanumeric text username = .ok true) :
    Mentioned isAlphanumeric text username := by
  obtain ⟨before, after, m, hafter⟩ := (messageMentionsUser_iff isAlphanumeric text username).1 h
  exact ⟨before, after, m.occurs, hafter⟩

theorem scansRight_iff {text username : Str} : ScansRight isAlphanumeric text username ↔
    (Mentioned isAlphanumeric text username → messageMentionsUser isAlphanumeric text username = .ok true) := by
  constructor
  · rintro ⟨found, hrun, hfound⟩ hm
    rw [hrun, hfound.2 hm]
  · intro h
    obtain ⟨found, hrun⟩ := messageMentionsUser_ok isAlphanumeric text username
    refine ⟨found, hrun, ?_, ?_⟩
    · rintro rfl
      exact mentioned_of_scan hrun
    · intro hm
      rw [h hm] at hrun
      exact (Except.ok.inj hrun).symm

/-- **The scan is right on a text exactly when it does not step over every mention.** -/
theorem scansRight_iff_outside {text username : Str} :
    ScansRight isAlphanumeric text username ↔ MentionedOutside isAlphanumeric text username := by
  rw [scansRight_iff]
  constructor
  · intro h hm
    obtain ⟨before, after, m, hafter⟩ := (messageMentionsUser_iff isAlphanumeric text username).1 (h hm)
    exact ⟨before, after, m.occurs, hafter, m.not_inside⟩
  · intro h hm
    obtain ⟨before, after, ht, hafter, hout⟩ := h hm
    apply (messageMentionsUser_iff isAlphanumeric text username).2
    exact ⟨before, after, (match_or_inside (mentionNeedle_ne_nil username) ht).resolve_right hout, hafter⟩

theorem not_endsWord {c : Str} (h : ¬ EndsWord isAlphanumeric c) :
    ∃ ch, c.head? = some ch ∧ (isAlphanumeric ch = true ∨ ch = '_') := by
  by_contra hno
  apply h
  intro ch hch
  constructor
  · cases halpha : isAlphanumeric ch with
    | true => exact absurd ⟨ch, hch, Or.inl halpha⟩ hno
    | false => rfl
  · intro hu
    exact hno ⟨ch, hch, Or.inr hu⟩

/-- A mention that the scan steps over shows a border of the needle. -/
theorem outside_of_not_bordered {text username : Str} (h : ¬ Bordered isAlphanumeric username) :
    MentionedOutside isAlphanumeric text username := by
  rintro ⟨x, y, ht, hy⟩
  rcases match_or_inside (mentionNeedle_ne_nil username) ht with m | ⟨before, after, m, hlt, hgt⟩
  · exact ⟨x, y, ht, hy, m.not_inside⟩
  · refine ⟨before, after, m.occurs, ?_, m.not_inside⟩
    obtain ⟨b, w, c, hb, hc, hne, hw, -, rfl⟩ := overlap_of_inside (m.occurs.symm.trans ht) hlt hgt
    have hword : EndsWord isAlphanumeric c := by
      by_contra hc'
      exact h ⟨b, w, c, hb, hc, hne, hw, hc'⟩
    cases c with
    | nil =>
      have hlen := congrArg List.length hb
      rw [hc, List.append_nil, List.length_append] at hlen
      have := List.length_pos_of_ne_nil hne
      omega
    | cons d c => exact hword

/-- **Where the mention scan is right**: on a text, when some mention, if there is any, does not begin inside a match of
a scan without overlaps; on every text, when the needle has no border that a word follows. -/
theorem messageMentionsUser_exact (isAlphanumeric : Char → Bool) (username : Str) :
    (∀ text, ScansRight isAlphanumeric text username ↔ MentionedOutside isAlphanumeric text username) ∧
      ((∀ text, ScansRight isAlphanumeric text username) ↔ ¬ Bordered isAlphanumeric username) := by
  refine ⟨fun text => scansRight_iff_outside, ?_, ?_⟩
  · rintro h ⟨b, w, c, hb, hc, -, hw, hword⟩
    obtain ⟨ch, hhead, hch⟩ := not_endsWord hword
    have hfalse := messageMentionsUser_of_overlap hb hc hw hhead hch
    have htrue := scansRight_iff.1 (h (b ++ mentionNeedle username))
      ⟨b, [], by rw [List.append_nil], by intro ch hch; cases hch⟩
    rw [hfalse] at htrue
    cases htrue
  · intro h text
    exact scansRight_iff_outside.2 (outside_of_not_bordered h)

/-- `@ab@ab@a` mentions the user `ab@a` at its end, inside the occurrence at its beginning. -/
theorem messageMentionsUser_steps_over : isValidUsername (lit "ab@a") = true ∧
    Mentioned Char.isAlphanum (lit "@ab@ab@a") (lit "ab@a") ∧
    messageMentionsUser Char.isAlphanum (lit "@ab@ab@a") (lit "ab@a") = .ok false ∧
    ¬ ScansRight Char.isAlphanum (lit "@ab@ab@a") (lit "ab@a") := by
  have hm : Mentioned Char.isAlphanum (lit "@ab@ab@a") (lit "ab@a") :=
    ⟨lit "@ab", [], by decide, by intro ch hch; cases hch⟩
  have hends : mentionNeedle (lit "ab@a") = lit "@ab" ++ lit "@a" := by decide
  have hstarts : mentionNeedle (lit "ab@a") = lit "@a" ++ lit "b@a" := by decide
  have hhead : (lit "b@a").head? = some 'b' := by decide
  have hrun : messageMentionsUser Char.isAlphanum (lit "@ab@ab@a") (lit "ab@a") = .ok false :=
    messageMentionsUser_of_overlap hends hstarts (by decide) hhead (by decide)
  refine ⟨by decide, hm, hrun, ?_⟩
  intro h
  rw [scansRight_iff.1 h hm] at hrun
  cases hrun

end Mentions

end Protocol
end Drocsid
