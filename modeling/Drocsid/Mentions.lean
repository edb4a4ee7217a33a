import Drocsid.App
/-!
# Mentions — a completed mention, from one client to another (`crates/cli`, `crates/client/src/app.rs`)

The name a user gives on the command line is what the user's own client looks for; the name the others complete is the
one the handshake trimmed.  A message that completes a mention reaches its user exactly when the two are one, and the
name cannot be stepped over in a scan for itself (`mention_reaches_iff`).
-/
namespace Drocsid

open Text Protocol Server

/-- `non_empty_username`. -/
def Cli.nonEmptyUsername (value : Str) : Except Str Str :=
  if (trim value).isEmpty then .error (lit "username cannot be empty")
  else if !isValidUsername value then .error (lit "username cannot contain control characters")
  else .ok value

theorem Cli.nonEmptyUsername_ok {value username : Str} (h : Cli.nonEmptyUsername value = .ok username) :
    username = value := by
  unfold Cli.nonEmptyUsername at h
  split at h
  · cases h
  · split at h
    · cases h
    · exact (Except.ok.inj h).symm

namespace Server

/-- The server reads the handshake of a client started with `username` and knows it as `u`. -/
def Handshakes (username u : Str) : Prop :=
  handshakeUsername (.ok (some ⟨currentProtocolVersion, .handshake, toBytes username⟩)) = .ok u

theorem Handshakes.trim {username u : Str} (h : Handshakes username u) : u = trim username := by
  unfold Handshakes handshakeUsername at h
  simp only [ne_eq, not_true_eq_false, if_false, fromUtf8_toBytes] at h
  split at h
  · cases h
  · split at h
    · cases h
    · split at h
      · cases h
      · exact (Except.ok.inj h).symm

/-- The message loop takes a text that is short enough and not blank. -/
theorem acceptChat_toBytes {content : Str} (hshort : byteLen content ≤ maxChatMessageBytes) {c : Char}
    (hc : c ∈ content) (hw : isWhitespace c = false) :
      acceptChat ⟨currentProtocolVersion, .chat, toBytes content⟩ = .ok (some content) := by
  have hblank : (Text.trim content).isEmpty = false := by
    rw [List.isEmpty_eq_false_iff]
    exact List.ne_nil_of_mem (mem_trim hc hw)
  unfold acceptChat
  rw [if_neg (not_not.2 rfl), if_neg (by rw [length_toBytes]; omega), fromUtf8_toBytes]
  simp [hblank]

end Server

namespace Client

/-- A client started with `username` completes the mention of `u`, types on and submits `content`. -/
def Completes (username u content : Str) : Prop :=
  ∃ serverAddr app app' typed, Reached username serverAddr app ∧ app.mentionCandidates[app.mentionSelection]? = some u ∧
    app.applySelectedMention = some app' ∧ content = (app'.type typed).takeInput.1

theorem head_mentionNeedle {u : Str} {c : Char} (h : (mentionNeedle u).head? = some c) : isWhitespace c = false := by
  obtain rfl := Option.some.inj h
  decide

theorem getLast_mentionNeedle {u : Str} (hu : IsUsername u) {c : Char} (h : (mentionNeedle u).getLast? = some c) :
    isWhitespace c = false := by
  rw [show mentionNeedle u = ['@'] ++ u from rfl, List.getLast?_append_of_ne_nil _ hu.nonempty, ← hu.trimmed] at h
  exact getLast_trim h

/-- **The content submitted**: trimming leaves the mention, white space before it and what was typed after the space. -/
theorem Completes.content {username u content : Str} (hu : IsUsername u) (h : Completes username u content) :
    ∃ x y, content = x ++ (mentionNeedle u ++ y) ∧ (∀ c, x.getLast? = some c → isWhitespace c = true) ∧
      ∀ c, y.head? = some c → c = ' ' := by
  obtain ⟨serverAddr, app, app', typed, -, hselected, happly, rfl⟩ := h
  obtain ⟨before, query, -, -, hbefore, happ⟩ := applySelectedMention_eq hselected
  obtain rfl := Option.some.inj (happly.symm.trans happ)
  have hinput : before ++ ('@' :: u ++ [' ']) ++ typed = before ++ (mentionNeedle u ++ ' ' :: typed) := by
    simp [mentionNeedle]
  refine ⟨trimStart before, trimEnd (' ' :: typed), ?_, ?_, ?_⟩
  · simp only [ChatApp.takeInput, input_type, hinput]
    exact trim_append (fun c => head_mentionNeedle) (fun c => getLast_mentionNeedle hu) (mentionNeedle_ne_nil u)
  · intro c hc
    exact hbefore c (getLast_trimStart hc)
  · intro c hc
    obtain ⟨r, hr⟩ : trimEnd (' ' :: typed) <+: ' ' :: typed := List.rdropWhile_prefix _ _
    cases ht : trimEnd (' ' :: typed) with
    | nil =>
      rw [ht] at hc
      cases hc
    | cons d ds =>
      rw [ht] at hc hr
      rw [← Option.some.inj hc]
      exact (List.cons.inj hr).1

/-- Any text that ends in white space, or none, can stand before a completed mention. -/
theorem completes_of {u before : Str} (username : Str)
    (hbefore : ∀ c, before.getLast? = some c → isWhitespace c = true) :
    Completes username u (trim (before ++ mentionNeedle u ++ [' '])) := by
  let start := (ChatApp.new username []).updateConnectedUsers [u]
  have hstart : Reached username [] start := .step (l := .updateConnectedUsers [u]) .init trivial rfl
  let app := start.type (before ++ ['@'])
  have hinput : app.input = before ++ ['@'] := by
    rw [input_type]
    rfl
  have husers : app.connectedUsers = [u] := by
    rw [connectedUsers_type]
    rfl
  have hselection : app.mentionSelection = 0 := mentionSelection_type rfl _
  have hquery : activeMentionQuery app.input = some [] := by
    rw [hinput]
    exact activeMentionQuery_eq_some.2 ⟨before, rsplitOnce_append (by simp) before, rfl, hbefore⟩
  have hselected : app.mentionCandidates[app.mentionSelection]? = some u := by
    simp [ChatApp.mentionCandidates, hquery, husers, hselection, toAsciiLowercase]
  obtain ⟨before', query, hsplit, hquery', -, happly⟩ := applySelectedMention_eq hselected
  rw [hquery] at hquery'
  obtain rfl := Option.some.inj hquery'
  rw [hinput] at hsplit
  obtain rfl := List.append_cancel_right hsplit
  refine ⟨[], app, _, [], reached_type hstart _, hselected, happly, ?_⟩
  rw [ChatApp.takeInput, input_type]
  simp [mentionNeedle]

/-! ## Reaching the user -/

section Reaches

variable (isAlphanumeric : Char → Bool)

/-- **The mention of `u` reaches the client started with `n`**: whoever completes it, every message the server formats
of the content is parsed there, and its body is recognised. -/
def MentionReaches (n u : Str) : Prop :=
  ∀ username sender content, Handshakes username sender → Completes username u content →
    acceptChat ⟨currentProtocolVersion, .chat, toBytes content⟩ = .ok (some content) →
    ∀ (now : HhMm) (serverAddr : Str) (app : ChatApp), Reached n serverAddr app →
      ∃ name time body, parseChatMessage (formatChatMessage sender now.text content) = .ok (some (name, time, body)) ∧
        app.messageMentionsCurrentUser isAlphanumeric body = .ok true

variable {isAlphanumeric}

/-- What a failure of `MentionReaches` takes: a content before a time that the scan for `n` misses. -/
theorem not_reaches_of_content {n u content : Str} (hcompletes : Completes (lit "x") u content)
    (haccept : acceptChat ⟨currentProtocolVersion, .chat, toBytes content⟩ = .ok (some content))
    (hmiss : messageMentionsUser isAlphanumeric content n = .ok false) : ¬ MentionReaches isAlphanumeric n u := by
  intro h
  let now : HhMm := ⟨0, 0⟩
  have hx : Handshakes (lit "x") (lit "x") := by
    unfold Handshakes
    decide
  obtain ⟨name, time, body, hparse, hmention⟩ :=
    h (lit "x") (lit "x") content hx hcompletes haccept now [] (ChatApp.new n []) .init
  have hread : parseChatMessage (formatChatMessage (lit "x") now.text content) =
    .ok (some (lit "x", now.text, content)) :=
    parseChatMessage_eq_some.2 ⟨rfl, by decide, now.no_closeTime⟩
  rw [hread] at hparse
  obtain ⟨-, -, rfl⟩ : lit "x" = name ∧ now.text = time ∧ content = body := by simpa using hparse
  rw [ChatApp.messageMentionsCurrentUser, show (ChatApp.new n []).username = n from rfl, hmiss] at hmention
  cases hmention

theorem byteLen_mentionNeedle (u : Str) : byteLen (mentionNeedle u) = 1 + byteLen u := by
  rw [mentionNeedle, byteLen_cons, show Char.utf8Size '@' = 1 by decide]

theorem trim_mentionNeedle {u a : Str} (hu : IsUsername u)
    (ha : ∀ c, (a ++ mentionNeedle u).head? = some c → isWhitespace c = false) :
    trim (a ++ mentionNeedle u ++ [' ']) = a ++ mentionNeedle u := by
  have hlast : ∀ c, (a ++ mentionNeedle u).getLast? = some c → isWhitespace c = false := by
    intro c hc
    rw [List.getLast?_append_of_ne_nil _ (mentionNeedle_ne_nil u)] at hc
    exact getLast_mentionNeedle hu hc
  have htrim := trim_append (a := []) (e := [' ']) ha hlast (by simp [mentionNeedle])
  rw [show trimEnd [' '] = [] by decide, show trimStart [] = [] from rfl] at htrim
  simpa using htrim

/-- A name that the handshake trims is longer than what the others mention. -/
theorem not_reaches_of_untrimmed {n u : Str} (hu : Handshakes n u) (hn : trim n ≠ n) :
    ¬ MentionReaches isAlphanumeric n u := by
  have hname := isUsername_of_handshake hu
  have hshorter : byteLen u < byteLen n := by
    obtain ⟨a, b, hab⟩ := isInfix_trim n
    have hlen := congrArg byteLen hab
    simp only [byteLen_append] at hlen
    rw [hu.trim]
    by_contra hge
    have ha : a = [] := byteLen_eq_zero.1 (by omega)
    have hb : b = [] := byteLen_eq_zero.1 (by omega)
    rw [ha, hb, List.nil_append, List.append_nil] at hab
    exact hn hab
  have hcompletes : Completes (lit "x") u (mentionNeedle u) := by
    have hfirst : Completes (lit "x") u (trim ([] ++ mentionNeedle u ++ [' '])) := completes_of (lit "x") (by simp)
    rwa [trim_mentionNeedle hname (fun c => head_mentionNeedle)] at hfirst
  refine not_reaches_of_content hcompletes (acceptChat_toBytes ?_ (c := '@') (by simp [mentionNeedle]) (by decide)) ?_
  · have := hname.short
    rw [byteLen_mentionNeedle]
    unfold maxUsernameBytes at this
    unfold maxChatMessageBytes
    omega
  · apply messageMentionsUser_of_short
    rw [byteLen_mentionNeedle, byteLen_mentionNeedle]
    omega

/-- A name that is stepped over: the mention is completed after what comes before the overlap. -/
theorem not_reaches_of_overlaps {n : Str} (hn : Handshakes n n) (ho : Overlaps isAlphanumeric n) :
    ¬ MentionReaches isAlphanumeric n n := by
  obtain ⟨before, overlap, after, h1, h2, hne, ⟨c, hc, hspace⟩, ch, hhead, hch⟩ := ho
  have hname := isUsername_of_handshake hn
  have hbefore : ∀ d, before.getLast? = some d → isWhitespace d = true := by
    intro d hd
    rw [hc] at hd
    rwa [← Option.some.inj hd]
  have hstart : ∀ d, (before ++ mentionNeedle n).head? = some d → isWhitespace d = false := by
    intro d hd
    cases before with
    | nil => cases hc
    | cons e before =>
      obtain rfl := (List.cons.inj h1).1
      exact head_mentionNeedle (u := n) hd
  have hcompletes : Completes (lit "x") n (before ++ mentionNeedle n) := by
    have := completes_of (u := n) (lit "x") hbefore
    rwa [trim_mentionNeedle hname hstart] at this
  refine not_reaches_of_content hcompletes (acceptChat_toBytes ?_ (c := '@') (by simp [mentionNeedle]) (by decide))
    (messageMentionsUser_of_overlap h1 h2 hne hhead hch)
  have hlen := congrArg byteLen h1
  have := hname.short
  rw [byteLen_mentionNeedle, byteLen_append] at hlen
  rw [byteLen_append, byteLen_mentionNeedle]
  unfold maxUsernameBytes at this
  unfold maxChatMessageBytes
  omega

/-- **Completed mentions reach their target exactly when** the name given on the command line has no white space around
it and is not stepped over in the scan for it. -/
theorem mention_reaches_iff (hspace : isAlphanumeric ' ' = false) {argument n u : Str}
    (hargument : Cli.nonEmptyUsername argument = .ok n) (hu : Handshakes n u) :
    MentionReaches isAlphanumeric n u ↔ trim argument = argument ∧ ¬ Overlaps isAlphanumeric argument := by
  obtain rfl := Cli.nonEmptyUsername_ok hargument
  constructor
  · intro h
    by_cases hn : trim n = n
    · obtain rfl : u = n := hu.trim.trans hn
      exact ⟨hn, fun ho => not_reaches_of_overlaps hu ho h⟩
    · exact absurd h (not_reaches_of_untrimmed hu hn)
  · rintro ⟨hn, hno⟩ username sender content - hcompletes - now serverAddr app happ
    obtain rfl : u = n := hu.trim.trans hn
    obtain ⟨x, y, rfl, hx, hy⟩ := hcompletes.content (isUsername_of_handshake hu)
    obtain ⟨name, time, z, hparse, hz⟩ :=
      parseChatMessage_formatChatMessage sender now.text (x ++ (mentionNeedle u ++ y))
    refine ⟨name, time, _, hparse, ?_⟩
    have hy' : y.head?.all (fun ch => !isAlphanumeric ch && ch != '_') = true := by
      cases hhead : y.head? with
      | none => rfl
      | some ch =>
        obtain rfl := hy ch hhead
        simp [hspace]
    have hzx : ∀ c, (z ++ x).getLast? = some c → isWhitespace c = true := by
      intro c hc
      rw [List.getLast?_append] at hc
      cases hlast : x.getLast? with
      | some d =>
        rw [hlast, Option.some_or] at hc
        obtain rfl := Option.some.inj hc
        exact hx d hlast
      | none =>
        rw [hlast, Option.none_or] at hc
        rcases hz with rfl | hz
        · cases hc
        · rw [hz] at hc
          obtain rfl := Option.some.inj hc
          decide
    have hscan := mentionsFrom_of_occurrence hno hy' [] (z ++ x) hzx
    rw [List.nil_append, List.append_assoc] at hscan
    rw [ChatApp.messageMentionsCurrentUser, username_of_reached happ]
    exact hscan

/-- A name of one word is not stepped over. -/
theorem not_overlaps_of_word {n : Str} (h : n.any isWhitespace = false) : ¬ Overlaps isAlphanumeric n := by
  rintro ⟨before, overlap, after, hneedle, -, -, ⟨c, hc, hspace⟩, -⟩
  have hmem : c ∈ mentionNeedle n := by
    rw [hneedle]
    exact List.mem_append_left _ (List.mem_of_getLast? hc)
  rcases List.mem_cons.1 hmem with rfl | hmem
  · exact absurd hspace (by decide)
  · exact List.any_eq_false.1 h c hmem hspace

end Reaches

/-- A name of one word, with nothing to trim. -/
theorem mention_reaches_bob : MentionReaches Char.isAlphanum (lit "bob") (lit "bob") := by
  have hu : Handshakes (lit "bob") (lit "bob") := by
    unfold Handshakes
    decide
  have hargument : Cli.nonEmptyUsername (lit "bob") = .ok (lit "bob") := by decide
  exact (mention_reaches_iff (by decide) hargument hu).2 ⟨by decide, not_overlaps_of_word (by decide)⟩

/-- **Two names no mention reaches**: one the handshake trims, and one whose needle `@ab @a` is stepped over in `@ab @ab
@a`. -/
theorem mentions_missed :
    (Cli.nonEmptyUsername (lit "bob ") = .ok (lit "bob ") ∧ Handshakes (lit "bob ") (lit "bob") ∧
      ¬ MentionReaches Char.isAlphanum (lit "bob ") (lit "bob")) ∧
    (Cli.nonEmptyUsername (lit "ab @a") = .ok (lit "ab @a") ∧ Handshakes (lit "ab @a") (lit "ab @a") ∧
      ¬ MentionReaches Char.isAlphanum (lit "ab @a") (lit "ab @a")) := by
  have hbob : Handshakes (lit "bob ") (lit "bob") := by
    unfold Handshakes
    decide
  have hab : Handshakes (lit "ab @a") (lit "ab @a") := by
    unfold Handshakes
    decide
  refine ⟨⟨by decide, hbob, not_reaches_of_untrimmed hbob (by decide)⟩, by decide, hab, not_reaches_of_overlaps hab ?_⟩
  exact ⟨lit "@ab ", lit "@a", lit "b @a", rfl, rfl, by decide, ⟨' ', rfl, by decide⟩, 'b', rfl, Or.inl (by decide)⟩

end Client
end Drocsid
