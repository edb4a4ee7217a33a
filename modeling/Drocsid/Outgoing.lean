import Drocsid.Transcript
import Drocsid.Mentions
import Drocsid.Pipe
/-!
# Outgoing — what the client writes (`crates/tui/src/lib.rs`, `crates/client/src/network.rs`)

In any run the bytes the client wrote are its handshake and a frame for each content submitted (`Speaks`), and after
them at most a part of one more, of which nothing follows.  So however the transport cuts and delivers them the
server's reader finds the first of these frames, each of which the message loop accepts, and then the end or a
truncated frame (`understood_of_reach`).
-/
namespace Drocsid

open Text ByteSource Protocol Server

namespace Client

/-! ## Frames -/

/-- What is submitted: not blank, trimmed, and short enough for a chat message. -/
structure IsContent (content : Str) : Prop where
  trimmed : trim content = content
  nonempty : content ≠ []
  short : byteLen content ≤ maxChatMessageBytes

def handshakeOf (username : Str) : Frame := ⟨currentProtocolVersion, .handshake, toBytes username⟩

def chatOf (content : Str) : Frame := ⟨currentProtocolVersion, .chat, toBytes content⟩

/-- The frames of a client that has connected. -/
def spoken (username : Str) (contents : List Str) : List Frame := handshakeOf username :: contents.map chatOf

/-- The frames of a client whose user submitted these contents. -/
inductive Speaks (username : Str) : List Str → List Frame → Prop
  | silent : Speaks username [] []
  | speaks {contents} (h : ∀ content ∈ contents, IsContent content) :
    Speaks username contents (spoken username contents)

def Encodes (frame : Frame) (bytes : Bytes) : Prop := encodeFrame frame.kind frame.payload = .ok bytes

theorem Speaks.version {username : Str} {contents : List Str} {frames : List Frame}
    (h : Speaks username contents frames) : ∀ f ∈ frames, f.version = currentProtocolVersion := by
  cases h with
  | silent => exact nofun
  | speaks _ =>
    intro f hf
    rcases List.mem_cons.1 hf with rfl | hf
    · rfl
    · obtain ⟨content, -, rfl⟩ := List.mem_map.1 hf
      rfl

/-- The first frames of a client that speaks are those of one that spoke less. -/
theorem Speaks.of_prefix {username : Str} {contents : List Str} {frames frames' : List Frame}
    (h : Speaks username contents frames) (hp : frames' <+: frames) :
    ∃ contents', Speaks username contents' frames' ∧ contents' <+: contents := by
  cases h with
  | silent =>
    rw [List.prefix_nil.1 hp]
    exact ⟨[], .silent, List.nil_prefix⟩
  | @speaks contents hc =>
    cases frames' with
    | nil => exact ⟨[], .silent, List.nil_prefix⟩
    | cons f fs =>
      rw [spoken, List.cons_prefix_cons] at hp
      obtain ⟨rfl, hp⟩ := hp
      obtain ⟨contents', hpre, rfl⟩ := List.prefix_map_iff.1 hp
      exact ⟨contents', .speaks fun content hm => hc content (hpre.subset hm), hpre⟩

theorem encodeAll_of_forall₂ {frames : List Frame} {whole : List Bytes} (h : List.Forall₂ Encodes frames whole) :
    encodeAll frames = .ok whole.flatten := by
  induction h with
  | nil => rfl
  | cons hf _ ih => exact encodeAll_cons hf ih

theorem isContent_of_submitted {input : Str} {frame : Bytes} (hne : trim input ≠ [])
    (h : encodeChatFrame (trim input) = .ok frame) : IsContent (trim input) ∧ Encodes (chatOf (trim input)) frame := by
  have hl : byteLen (trim input) ≤ maxChatMessageBytes := by
    by_contra hl
    rw [encodeChatFrame_long (Nat.lt_of_not_le hl)] at h
    cases h
  refine ⟨⟨trim_trim input, hne, hl⟩, ?_⟩
  unfold encodeChatFrame at h
  rw [if_neg (Nat.not_lt.2 hl)] at h
  split at h
  · cases h
  · rename_i henc
    cases h
    exact henc

/-- **The message loop accepts what is submitted.** -/
theorem acceptChat_chatOf {content : Str} (h : IsContent content) :
    acceptChat (chatOf content) = .ok (some content) := by
  unfold acceptChat chatOf
  rw [if_neg (not_not.2 rfl), if_neg (by rw [length_toBytes]; exact Nat.not_lt.2 h.short), fromUtf8_toBytes]
  simp [h.trimmed, h.nonempty]

/-! ## The socket -/

theorem connect_ok {username : Str} {dial : Dial} {socket : Socket} (h : connect username dial = (.ok (), socket)) :
    ∃ handshake, Encodes (handshakeOf username) handshake ∧ socket = ⟨handshake, [handshake]⟩ := by
  cases dial with
  | unconnected | uncloned => cases h
  | connected outcome =>
    unfold connect at h
    dsimp only at h
    split at h
    · cases h
    · rename_i handshake henc
      cases outcome with
      | ok =>
        cases h
        exact ⟨handshake, henc, rfl⟩
      | failed => cases h

theorem connect_error {username : Str} {dial : Dial} {socket : Socket} {error : IoError}
    (h : connect username dial = (.error error, socket)) : socket.whole = [] ∧ Unfinished socket.bytes := by
  cases dial with
  | unconnected | uncloned =>
    cases h
    exact ⟨rfl, .inl rfl⟩
  | connected outcome =>
    unfold connect at h
    dsimp only at h
    split at h
    · cases h
      exact ⟨rfl, .inl rfl⟩
    · rename_i handshake henc
      cases outcome with
      | ok => cases h
      | failed error taken =>
        cases h
        exact ⟨rfl, unfinished_take henc taken⟩

/-- `run_client` has ended. -/
def UiPc.ended : UiPc → Prop
  | .returned _ | .panicked => True
  | _ => False

/-- Nothing more will be written. -/
def Runtime.mute (r : Runtime) : Prop := r.app.connected = false ∨ r.events.closed = true

/-- The client wrote the frames it speaks, and of one more at most a part. -/
structure Outgoing (username : Str) (r : Runtime) : Prop where
  started : r.ui = .start → r.socket = .new ∧ r.submitted = []
  greeted : r.ui ≠ .start → r.events.closed = false → r.socket.whole ≠ []
  ended : r.events.closed = true → r.ui.ended
  spoke : ∃ frames, Speaks username r.submitted frames ∧ List.Forall₂ Encodes frames r.socket.whole
  bytes : ∃ part, r.socket.bytes = r.socket.whole.flatten ++ part ∧ Unfinished part ∧ (part = [] ∨ r.mute)

section Steps

variable {display : Reason → Str} {username serverAddr : Str} {r r' : Runtime} {a : Action}

theorem Outgoing.congr (h : Outgoing username r) (hs : r'.socket = r.socket) (hsub : r'.submitted = r.submitted)
    (hu : r'.ui ≠ .start) (hg : r'.events.closed = false → r.ui ≠ .start ∧ r.events.closed = false)
    (he : r'.events.closed = true → r'.ui.ended) (hm : r.mute → r'.mute) : Outgoing username r' := by
  refine ⟨fun hst => absurd hst hu, fun _ hc => ?_, he, ?_, ?_⟩
  · rw [hs]
    exact h.greeted (hg hc).1 (hg hc).2
  · rw [hs, hsub]
    exact h.spoke
  · rw [hs]
    obtain ⟨part, hb, hpart, hmute⟩ := h.bytes
    exact ⟨part, hb, hpart, hmute.imp_right hm⟩

/-- While it is connected it wrote whole frames. -/
theorem Outgoing.whole (h : Outgoing username r) (hc : r.app.connected = true) (ho : r.events.closed = false) :
    r.socket.bytes = r.socket.whole.flatten := by
  obtain ⟨part, hb, -, hpart⟩ := h.bytes
  rw [hb, hpart.resolve_right, List.append_nil]
  rintro (hm | hm)
  · rw [hc] at hm
    cases hm
  · rw [ho] at hm
    cases hm

/-- One more content is submitted. -/
theorem speaks_concat {contents : List Str} {frames : List Frame} {whole : List Bytes} {content : Str} {frame : Bytes}
    (h : Speaks username contents frames) (hw : List.Forall₂ Encodes frames whole) (hne : whole ≠ [])
    (hc : IsContent content) (henc : Encodes (chatOf content) frame) :
    ∃ frames, Speaks username (contents ++ [content]) frames ∧ List.Forall₂ Encodes frames (whole ++ [frame]) := by
  refine ⟨frames ++ [chatOf content], ?_, List.rel_append hw (.cons henc .nil)⟩
  cases h with
  | silent =>
    cases hw
    exact absurd rfl hne
  | speaks hall =>
    rw [spoken, List.cons_append, ← List.map_singleton, ← List.map_append]
    refine .speaks fun content' hm => ?_
    rcases List.mem_append.1 hm with hm | hm
    · exact hall content' hm
    · rw [List.mem_singleton.1 hm]
      exact hc

/-- A terminal event of a client that runs adds what it submits to what was written whole. -/
theorem Outgoing.spoke_submit (h : Outgoing username r) (hst : r.ui ≠ .start) (ho : r.events.closed = false)
    {polled : Polled} {outcome : Written} {app : ChatApp} {socket : Socket} {result : Except IoError Unit}
    (hh : Handles polled outcome r.app r.socket result app socket) :
    ∃ frames, Speaks username (r.submit polled outcome).submitted frames ∧
      List.Forall₂ Encodes frames socket.whole := by
  rcases hh.submits with ⟨hnone, hwhole⟩ | ⟨frame, hsome, hne, henc, hwhole⟩
  · rw [Runtime.submit_of_none hnone, hwhole]
    exact h.spoke
  · obtain ⟨hcontent, hframe⟩ := isContent_of_submitted hne henc
    obtain ⟨frames, hspeaks, hframes⟩ := h.spoke
    rw [Runtime.submit, hsome, hwhole]
    exact speaks_concat hspeaks hframes (h.greeted hst ho) hcontent hframe

theorem Outgoing.handles (h : Outgoing username r) (hu : r.ui = .handle) {polled : Polled} {outcome : Written}
    {app : ChatApp} {socket : Socket} {result : Except IoError Unit} {ui : UiPc} {events : Fifo NetworkEvent}
    (hh : Handles polled outcome r.app r.socket result app socket) (hui : ui ≠ .start)
    (hclosed : events.closed = true → ui.ended) :
    Outgoing username { r.submit polled outcome with app, socket, ui, events } := by
  have ho : r.events.closed = false := by
    cases hc : r.events.closed with
    | false => rfl
    | true =>
      have := h.ended hc
      rw [hu] at this
      exact this.elim
  have hst : r.ui ≠ .start := by
    rw [hu]
    exact nofun
  have hspoke := h.spoke_submit hst ho hh
  have hgreeted := h.greeted hst ho
  -- the client wrote nothing, and may have gone offline
  have hkeep : (app.connected = r.app.connected ∨ app.connected = false) → socket = r.socket →
      Outgoing username { r.submit polled outcome with app, socket, ui, events } := by
    rintro happ rfl
    obtain ⟨part, hb, hpart, hmute⟩ := h.bytes
    refine ⟨fun he => absurd he hui, fun _ _ => hgreeted, hclosed, hspoke, part, hb, hpart, hmute.imp_right ?_⟩
    rintro (hm | hm)
    · rcases happ with he | he
      · exact .inl (he.trans hm)
      · exact .inl he
    · rw [ho] at hm
      cases hm
  -- it wrote a part of a frame, and is offline
  have hpart : ∀ {frame error taken}, r.app.connected = true → trim r.app.input ≠ [] →
      encodeChatFrame (trim r.app.input) = .ok frame → outcome = .failed error taken → app.connected = false →
      socket = ⟨r.socket.bytes ++ frame.dropLast.take taken, r.socket.whole⟩ →
      Outgoing username { r.submit polled outcome with app, socket, ui, events } := by
    rintro frame error taken hc hne henc - happ rfl
    refine ⟨fun he => absurd he hui, fun _ _ => hgreeted, hclosed, hspoke, _, ?_,
      unfinished_take (isContent_of_submitted hne henc).2 taken, .inr (.inl happ)⟩
    rw [h.whole hc ho]
  cases hh with
  | nothing | unpolled | quit | blank | offline => exact hkeep (.inl rfl) rfl
  | edit _ hc he =>
    obtain ⟨_, _, rfl⟩ := edits_eq hc he
    exact hkeep (.inl rfl) rfl
  | refused => exact hkeep (.inr rfl) rfl
  | @sent frame _ hc hne henc =>
    refine ⟨fun he => absurd he hui, fun _ _ => by simp, hclosed, hspoke, [], ?_, .inl rfl, .inl rfl⟩
    rw [h.whole hc ho]
    simp
  | lost _ hc hne henc ho' => exact hpart hc hne henc ho' rfl rfl
  | failed _ hc hne henc ho' => exact hpart hc hne henc ho' rfl rfl

theorem connected_applyTo (event : NetworkEvent) {app : ChatApp} (h : app.connected = false) :
    (event.applyTo display app).connected = false := by
  cases event with
  | message text =>
    rw [NetworkEvent.applyTo, receiveMessage_eq]
    exact h
  | userList users =>
    obtain ⟨_, -, heq⟩ := updateConnectedUsers_eq app users
    rw [NetworkEvent.applyTo, heq]
    exact h
  | disconnected reason => rfl

theorem Outgoing.step (h : Outgoing username r) (ha : Acts display username r a r') : Outgoing username r' := by
  have hopen : ∀ {ui}, r.ui = ui → ¬ ui.ended → r.events.closed = false := by
    intro ui hu hne
    cases hc : r.events.closed with
    | false => rfl
    | true => exact absurd (hu ▸ h.ended hc) hne
  cases ha with
  | unnamed hu hb =>
    obtain ⟨hs, -⟩ := h.started hu
    refine ⟨nofun, fun _ hc => ?_, fun _ => trivial, h.spoke, [], ?_, .inl rfl, .inl rfl⟩
    · cases hc
    · show r.socket.bytes = r.socket.whole.flatten ++ []
      rw [hs]
      rfl
  | connected hu hne hcon =>
    obtain ⟨handshake, henc, rfl⟩ := connect_ok hcon
    refine ⟨nofun, fun _ _ => List.cons_ne_nil _ _, fun hc => ?_, ⟨spoken username [], ?_, .cons henc .nil⟩, [],
      by simp, .inl rfl, .inl rfl⟩
    case refine_2 =>
      show Speaks username r.submitted _
      rw [(h.started hu).2]
      exact .speaks nofun
    have := h.ended hc
    rw [hu] at this
    exact this.elim
  | unconnected hu hne hcon =>
    obtain ⟨hw, hpart⟩ := connect_error hcon
    refine ⟨nofun, fun _ hc => ?_, fun _ => trivial, ⟨[], ?_, ?_⟩, _, ?_, hpart, .inr (.inr rfl)⟩
    · cases hc
    · show Speaks username r.submitted []
      rw [(h.started hu).2]
      exact .silent
    · dsimp only
      rw [hw]
      exact .nil
    · dsimp only
      rw [hw]
      rfl
  | ended hu | undrawn hu =>
    exact h.congr rfl rfl nofun (fun hc => by cases hc) (fun _ => trivial) (fun hm => .inr rfl)
  | panics hu _ hs =>
    rw [Runtime.submit_of_none hs]
    exact h.congr rfl rfl nofun (fun hc => by cases hc) (fun _ => trivial) (fun hm => .inr rfl)
  | turn hu | drained hu | drawn hu =>
    have ho := hopen hu id
    refine h.congr rfl rfl nofun (fun hc => ⟨by rw [hu]; exact nofun, hc⟩) (fun hc => ?_) id
    rw [ho] at hc
    cases hc
  | received hu =>
    have ho := hopen hu id
    refine h.congr rfl rfl (by rw [hu]; exact nofun) (fun hc => ⟨by rw [hu]; exact nofun, hc⟩) (fun hc => ?_)
      (Or.imp_left (connected_applyTo _))
    rw [show _ = false from ho] at hc
    cases hc
  | handled hu hh =>
    refine h.handles hu hh nofun fun hc => ?_
    cases (hopen hu id).symm.trans hc
  | unhandled hu hh => exact h.handles hu hh nofun fun _ => trivial
  | read hr => exact ⟨h.started, h.greeted, h.ended, h.spoke, h.bytes⟩
  | sent hr ho => exact ⟨h.started, h.greeted, h.ended, h.spoke, h.bytes⟩
  | unsent hr hc => exact ⟨h.started, h.greeted, h.ended, h.spoke, h.bytes⟩

theorem outgoing_init : Outgoing username (.init username serverAddr) where
  started _ := ⟨rfl, rfl⟩
  greeted h := absurd rfl h
  ended h := by cases h
  spoke := ⟨[], .silent, .nil⟩
  bytes := ⟨[], rfl, .inl rfl, .inl rfl⟩

theorem outgoing_of_reach {G : Runtime → Action → Prop} (hr : System.Reach (client display username serverAddr) G r) :
    Outgoing username r :=
  hr.invariant (I := Outgoing username) outgoing_init fun _ _ _ _ h _ hstep => h.step (acts_of_step hstep)

/-! ## What the server reads of it -/

/-- What the server's reader found: a client that says nothing, or its handshake and contents that are all accepted. -/
structure Understood (username : Str) (frames : List Frame) (out : Except ServerError Unit) : Prop where
  frames : frames = [] ∨ ∃ contents, frames = spoken username contents ∧
    ∀ content ∈ contents, acceptChat (chatOf content) = .ok (some content) ∧ trim content = content
  /-- It found no fault with them. -/
  out : out = .ok () ∨ out = .error .truncatedProtocolFrame

/-- **The client speaks the protocol.**  Whatever part of the bytes it wrote arrives, in whatever chunks, the server
reads its handshake and contents the message loop accepts, and then the end or a frame cut short. -/
theorem understood_of_reach (hr : System.Reach (client display username serverAddr) System.Any r) {src : Source}
    (hc : Chunked src) (hs : stream src <+: r.socket.bytes) :
    ∃ frames out, readFrames readAsyncFrame src = (frames, some out) ∧ Understood username frames out := by
  have h := outgoing_of_reach hr
  obtain ⟨spoke, hspeaks, hwhole⟩ := h.spoke
  obtain ⟨part, hbytes, hpart, -⟩ := h.bytes
  rw [hbytes] at hs
  obtain ⟨frames, out, hread, hpre, hout⟩ :=
    readFrames_cut hspeaks.version (encodeAll_of_forall₂ hwhole) hpart hc hs
  refine ⟨frames, out, hread, ?_, hout⟩
  obtain ⟨contents, hspeaks', -⟩ := hspeaks.of_prefix hpre
  cases hspeaks' with
  | silent => exact .inl rfl
  | speaks hall =>
    exact .inr ⟨_, rfl, fun content hm => ⟨acceptChat_chatOf (hall content hm), (hall content hm).trimmed⟩⟩

end Steps

/-- A turn of the main thread without network events, which handles the press of a key. -/
def presses (code : KeyCode) : List Action :=
  [.turn, .tryRecv, .draw (.ok ()), .handle (.event (.key ⟨code, .press, false⟩)) .ok]

/-- Alice connects and says hi. -/
def saysHi : List Action :=
  .start (.connected .ok) :: presses (.char 'h') ++ presses (.char 'i') ++ presses .enter

/-- Of which the last byte is still on its way. -/
theorem understood_of_reach_saysHi : ∃ (r : Runtime) (src : Source) (out : Except ServerError Unit),
    stream src = r.socket.bytes.dropLast ∧ r.socket.whole.length = 2 ∧
      ∃ frames, readFrames readAsyncFrame src = (frames, some out) ∧ Understood (lit "alice") frames out := by
  obtain ⟨r, hr, ht⟩ := System.exists_of_run (client (fun _ => []) (lit "alice") (lit "localhost"))
    (fun r => r.socket.whole.length == 2 && !r.socket.bytes.dropLast.isEmpty) saysHi (by decide +kernel)
  simp only [Bool.and_eq_true, beq_iff_eq, Bool.not_eq_true', List.isEmpty_eq_false_iff] at ht
  have hs : stream [.data r.socket.bytes.dropLast] = r.socket.bytes.dropLast := by simp
  have hc : Chunked [.data r.socket.bytes.dropLast] := by simp [Chunked, ht.2]
  obtain ⟨frames, out, hread, h⟩ := understood_of_reach hr hc (by rw [hs]; exact List.dropLast_prefix _)
  exact ⟨r, _, out, hs, ht.1, frames, hread, h⟩

end Client
end Drocsid
