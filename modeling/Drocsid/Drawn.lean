import Drocsid.Outgoing
import Drocsid.Render
/-!
# Drawn — the frames of a client's run (`crates/tui/src/lib.rs`)

Whatever bytes come from the server, a user that it lists is no longer than the payload of a frame; and neither is the
client's own name, which was in its handshake.  So no length overflows in the mention popup, and whatever was typed and
received a frame is drawn inside the terminal exactly when that has the rows for the popup (`drawn_inside_iff`).
-/
namespace Drocsid

open Text ByteSource Protocol Screen

namespace Protocol

theorem payload_of_readFrame {src : Source} {frame : Frame} (h : (readFrame src).1 = .ok (some frame)) :
    frame.payload.length ≤ maxFramePayloadBytes := by
  unfold readFrame at h
  split at h
  · cases h
  · cases h
  · dsimp only at h
    split at h
    · cases h
    · split at h
      · cases h
      · split at h
        · cases h
        · rename_i hlen
          split at h
          · cases h
          · cases h
          · rename_i hpayload
            cases h
            exact (length_readExact hpayload).trans_le (Nat.le_of_not_lt hlen)

theorem byteLen_of_encodeUsers : ∀ {users : List Str} {bytes : Bytes}, encodeUsers users = .ok bytes →
    ∀ user ∈ users, byteLen user ≤ bytes.length
  | [], _, _, _, hu => by cases hu
  | u :: users, bytes, h, user, hu => by
    obtain ⟨-, -, rest, hrest, rfl⟩ := encodeUsers_cons h
    have hlen : byteLen u + rest.length ≤ (u16ToBeBytes (byteLen u) ++ (toBytes u ++ rest)).length := by
      rw [List.length_append, List.length_append, length_toBytes]
      exact Nat.le_add_left _ _
    rcases List.mem_cons.1 hu with rfl | hu
    · omega
    · have := byteLen_of_encodeUsers hrest user hu
      omega

theorem byteLen_of_parsePresence {payload : Bytes} {users : List Str} (h : parsePresence payload = some users) :
    ∀ user ∈ users, byteLen user ≤ payload.length := by
  unfold parsePresence at h
  simp only [Option.bind_eq_bind, Option.bind_eq_some_iff] at h
  obtain ⟨count, hcount, ⟨users', last⟩, husers, h⟩ := h
  split at h
  · cases h
    obtain ⟨hin, -, -⟩ := getU16_eq_some hcount
    obtain ⟨-, -, bytes, henc, hdrop⟩ := parseUsers_eq_some husers hin
    intro user hu
    have hlen := congrArg List.length hdrop
    rw [List.length_drop, List.length_append] at hlen
    have := byteLen_of_encodeUsers henc user hu
    omega
  · cases h

end Protocol

namespace Client

variable {display : Reason → Str} {username serverAddr : Str} {r : Runtime}

/-- What the reader is given is what `read_frame` returned, of some source. -/
def OfBytes (_ : Runtime) (a : Action) : Prop := ∀ result, a = .read result → ∃ src, (readFrame src).1 = result

theorem payload_of_heard (hr : System.Reach (client display username serverAddr) OfBytes r) :
    ∀ frame, .ok (some frame) ∈ r.heard → frame.payload.length ≤ maxFramePayloadBytes := by
  refine hr.invariant
    (I := fun r => ∀ frame, .ok (some frame) ∈ r.heard → frame.payload.length ≤ maxFramePayloadBytes)
    (fun _ hf => by cases hf) ?_
  intro r a r' _ ih hG hstep
  cases acts_of_step hstep with
  | @read result _ =>
    intro frame hf
    rcases List.mem_append.1 hf with hf | hf
    · exact ih frame hf
    · obtain ⟨src, hsrc⟩ := hG result rfl
      exact payload_of_readFrame (hsrc.trans (List.mem_singleton.1 hf).symm)
  | unnamed | connected | unconnected | ended | turn | drained | received | drawn | undrawn | handled | unhandled
  | panics | sent | unsent => exact ih

theorem mem_lastUserList {users : List Str} {events : List NetworkEvent} {user : Str}
    (h : user ∈ lastUserList users events) : user ∈ users ∨ ∃ users', .userList users' ∈ events ∧ user ∈ users' := by
  induction events generalizing users with
  | nil => exact .inl h
  | cons event events ih =>
    have hnext : ∀ {users' : List Str}, user ∈ lastUserList users' events →
        user ∈ users' ∨ ∃ users', .userList users' ∈ event :: events ∧ user ∈ users' :=
      fun h => (ih h).imp_right fun ⟨users', hu, hm⟩ => ⟨users', List.mem_cons_of_mem _ hu, hm⟩
    cases event with
    | userList users' => exact .inr ((hnext h).elim (fun hm => ⟨users', List.mem_cons_self, hm⟩) id)
    | message | disconnected => exact hnext h

theorem parsePresence_of_hear {result : Except FrameError (Option Frame)} {users : List Str}
    (h : .userList users ∈ (hear result).2) :
    ∃ frame, result = .ok (some frame) ∧ parsePresence frame.payload = some users := by
  match result, h with
  | .ok (some frame), h =>
    refine ⟨frame, rfl, ?_⟩
    unfold hear processFrame at h
    dsimp only at h
    split at h
    · split at h
      · cases List.mem_singleton.1 h
      · dsimp only at h
        split at h
        · cases List.mem_singleton.1 h
        · cases h
    · split at h
      · cases List.mem_singleton.1 h
      · rename_i hparse
        cases List.mem_singleton.1 h
        exact hparse
    · cases List.mem_singleton.1 h

/-- **No user listed is longer than a payload.** -/
theorem byteLen_of_connectedUsers (hr : System.Reach (client display username serverAddr) OfBytes r)
    (hstart : r.ui ≠ .start) (hended : ¬ r.ui.ended) :
    ∀ user ∈ r.app.connectedUsers, byteLen user ≤ maxFramePayloadBytes := by
  intro user hu
  rw [(follows_of_reach hr).users] at hu
  rcases mem_lastUserList hu with hown | ⟨users, hevent, hu⟩
  · -- its own name was in the handshake
    obtain rfl := List.mem_singleton.1 hown
    have ho := outgoing_of_reach hr
    obtain ⟨frames, hspeaks, hencodes⟩ := ho.spoke
    have hwhole := ho.greeted hstart (Bool.eq_false_iff.2 fun hclosed => hended (ho.ended hclosed))
    generalize r.submitted = contents at hspeaks
    cases hspeaks with
    | silent => exact absurd (List.forall₂_nil_left_iff.1 hencodes) hwhole
    | speaks _ =>
      obtain ⟨bytes, rest, hencode, -, -⟩ := List.forall₂_cons_left_iff.1 hencodes
      exact length_toBytes user ▸ (encodeFrame_eq_ok.1 hencode).1
  · -- the others were in a presence
    have hmade : .userList users ∈ made r.heard :=
      (channelled_of_reach hr).sent.subset (List.mem_of_mem_take hevent)
    obtain ⟨result, hresult, hmem⟩ := List.mem_flatMap.1 hmade
    obtain ⟨frame, rfl, hparse⟩ := parsePresence_of_hear hmem
    exact (byteLen_of_parsePresence hparse user hu).trans (payload_of_heard hr frame hresult)

/-- **A frame is drawn inside the terminal** exactly when that has a row for each candidate listed and two for the
border, whatever was typed and whatever came from the server; and no arithmetic overflows. -/
theorem drawn_inside_iff (hr : System.Reach (client display username serverAddr) OfBytes r) (hui : r.ui = .draw)
    (ratatui : Tui.Ratatui) (isAlphanumeric : Char → Bool) (width height : UInt16) :
    (∃ drawing, (∀ overflowChecks,
        Tui.render ratatui isAlphanumeric overflowChecks (terminalArea width height) r.app = .ok drawing) ∧
        drawing.Inside ratatui (terminalArea width height)) ↔
      (r.app.mentionCandidates ≠ [] → min r.app.mentionCandidates.length 5 + 2 ≤ height.toNat) := by
  rw [Tui.render_inside_iff]
  refine and_iff_left fun user hu => ?_
  have hlisted : user ∈ r.app.connectedUsers := by
    unfold ChatApp.mentionCandidates at hu
    split at hu
    · cases hu
    · exact List.mem_of_mem_filter hu
  have hstart : r.ui ≠ .start := by
    rw [hui]
    intro h
    cases h
  have hended : ¬ r.ui.ended := by
    rw [hui]
    exact id
  have hshort := byteLen_of_connectedUsers hr hstart hended user hlisted
  have hmod := Nat.mod_le (byteLen user) (2 ^ 16)
  rw [maxFramePayloadBytes] at hshort
  omega

/-- Alice connects and types an at sign, and her client is about to draw. -/
def drawsMention (r : Runtime) : Bool :=
  match r.ui with
  | .draw => r.app.mentionCandidates == [lit "alice"]
  | _ => false

def readsNothing : Action → Bool
  | .read _ => false
  | _ => true

theorem ofBytes_of_readsNothing (r : Runtime) (a : Action) (h : readsNothing a = true) : OfBytes r a := by
  rintro result rfl
  cases h

theorem drawn_inside_alice : ∃ r : Runtime, r.ui = .draw ∧ r.app.mentionCandidates = [lit "alice"] ∧
    ((∃ drawing, (∀ overflowChecks,
        Tui.render Tui.standard Char.isAlphanum overflowChecks (terminalArea 80 24) r.app = .ok drawing) ∧
        drawing.Inside Tui.standard (terminalArea 80 24)) ↔
      (r.app.mentionCandidates ≠ [] → min r.app.mentionCandidates.length 5 + 2 ≤ (24 : UInt16).toNat)) := by
  obtain ⟨r, hr, ht⟩ := System.exists_of_runIf (fun r a => ofBytes_of_readsNothing r a)
    (client (fun _ => []) (lit "alice") (lit "localhost")) drawsMention
    (.start (.connected .ok) :: presses (.char '@') ++ [.turn, .tryRecv]) (by decide +kernel)
  unfold drawsMention at ht
  split at ht
  · rename_i hui
    exact ⟨r, hui, by simpa using ht, drawn_inside_iff hr hui Tui.standard Char.isAlphanum 80 24⟩
  · cases ht

end Client
end Drocsid
