import Drocsid.Outgoing
/-!
# Ending — how a client ends (`crates/tui/src/lib.rs`)

Whatever the server sends and the terminal gives, the client does not panic, and in every state its app is one the
calls of the event loop lead to (`sound_of_reach`).  A client that went offline stays so and writes nothing more, and
one that shows a notice that the connection is lost takes no key but Enter, which ends it (`offline_final`).  It ends
by a key, or with an error of its start, the terminal or a write (`ends_only`).
-/
namespace Drocsid

open Text ByteSource Protocol Server

namespace Client

section

variable {display : Reason → Str} {username serverAddr : Str} {r r' : Runtime} {a : Action}

/-! ## No panic -/

/-- The app but for whether it is to quit, which no call reads. -/
def ChatApp.staying (app : ChatApp) : ChatApp := { app with shouldQuit := false }

/-- The calls of the event loop lead to the app; once it is to quit no more are made, and there is no panic. -/
structure Sound (username serverAddr : Str) (r : Runtime) : Prop where
  reached : Reached username serverAddr r.app.staying
  quits : r.app.shouldQuit = true → r.ui = .turn ∨ r.ui.ended
  unpanicked : r.ui ≠ .panicked
  fresh : r.ui = .start → r.app = .new username serverAddr
  noticed : r.app.exitNotice.isSome = true → r.app.connected = false

theorem staying_eq {app : ChatApp} (h : app.shouldQuit = false) : app.staying = app := by
  unfold ChatApp.staying
  rw [← h]

theorem shouldQuit_applyTo (event : NetworkEvent) (app : ChatApp) :
    (event.applyTo display app).shouldQuit = app.shouldQuit := by
  cases event with
  | message text => rw [NetworkEvent.applyTo, receiveMessage_eq]
  | userList users =>
    obtain ⟨_, -, heq⟩ := updateConnectedUsers_eq app users
    rw [NetworkEvent.applyTo, heq]
  | disconnected reason => rfl

theorem reached_applyTo {app : ChatApp} (h : Reached username serverAddr app) (event : NetworkEvent) :
    Reached username serverAddr (event.applyTo display app) := by
  cases event with
  | message text => exact .step (l := .receiveMessage text) h trivial rfl
  | userList users => exact .step (l := .updateConnectedUsers users) h trivial rfl
  | disconnected reason => exact .step (l := .beginShutdown (display reason)) h trivial rfl

/-- The notice that the connection is lost goes with being offline. -/
theorem noticed_applyTo {app : ChatApp} (h : app.exitNotice.isSome = true → app.connected = false)
    (event : NetworkEvent) : (event.applyTo display app).exitNotice.isSome = true →
      (event.applyTo display app).connected = false := by
  cases event with
  | message text =>
    rw [NetworkEvent.applyTo, receiveMessage_eq]
    exact h
  | userList users =>
    obtain ⟨_, -, heq⟩ := updateConnectedUsers_eq app users
    rw [NetworkEvent.applyTo, heq]
    exact h
  | disconnected reason => exact fun _ => rfl

/-- No call quits. -/
theorem shouldQuit_of_reached {app : ChatApp} (hr : Reached username serverAddr app) : app.shouldQuit = false := by
  refine hr.invariant (I := fun app => app.shouldQuit = false) rfl fun app c app' _ ih _ hstep => ?_
  replace hstep : app.call c = some app' := hstep
  cases c with
  | receiveMessage message =>
    obtain rfl := Option.some.inj hstep
    rw [receiveMessage_eq]
    exact ih
  | updateConnectedUsers users =>
    obtain rfl := Option.some.inj hstep
    obtain ⟨_, -, heq⟩ := updateConnectedUsers_eq app users
    rw [heq]
    exact ih
  | pushMessage | beginShutdown | markOffline | takeInput =>
    obtain rfl := Option.some.inj hstep
    exact ih
  | appendInput | popInput | selectPreviousMention | selectNextMention | applySelectedMention =>
    obtain ⟨_, _, rfl⟩ := edits_eq (by rfl) hstep
    exact ih

/-- What handling a terminal event leaves of an app that is not to quit. -/
theorem Handles.sound {polled : Polled} {outcome : Written} {app app' : ChatApp} {socket socket' : Socket}
    {result : Except IoError Unit} (h : Handles polled outcome app socket result app' socket')
    (hr : Reached username serverAddr app) (hn : app.exitNotice.isSome = true → app.connected = false) :
    Reached username serverAddr app'.staying ∧ (app'.exitNotice.isSome = true → app'.connected = false) := by
  have hq := shouldQuit_of_reached hr
  have htaken : Reached username serverAddr app.takeInput.2 := .step (l := .takeInput) hr trivial rfl
  have hstay : ∀ {app₁ : ChatApp}, Reached username serverAddr app₁ → app₁.shouldQuit = false →
      Reached username serverAddr app₁.staying := by
    intro app₁ h₁ hq₁
    rw [staying_eq hq₁]
    exact h₁
  cases h with
  | nothing | unpolled => exact ⟨hstay hr hq, hn⟩
  | quit =>
    refine ⟨?_, hn⟩
    rw [show app.quit.staying = app.staying from rfl]
    exact hstay hr hq
  | @edit c _ _ hc he =>
    have hstep : Reached username serverAddr app' := .step (l := c) hr trivial he
    obtain ⟨_, _, rfl⟩ := edits_eq hc he
    exact ⟨hstay hstep hq, hn⟩
  | blank | sent => exact ⟨hstay htaken hq, hn⟩
  | offline =>
    exact ⟨hstay (.step (l := .pushMessage (lit "[system] message not sent because the client is offline") .confirmed)
      htaken trivial rfl) hq, hn⟩
  | refused => exact ⟨hstay (.step (l := .markOffline _) htaken trivial rfl) hq, fun _ => rfl⟩
  | lost => exact ⟨hstay (.step (l := .beginShutdown _) htaken trivial rfl) hq, fun _ => rfl⟩
  | failed => exact ⟨hstay (.step (l := .markOffline _) htaken trivial rfl) hq, fun _ => rfl⟩

theorem Sound.step (h : Sound username serverAddr r) (ha : Acts display username r a r') :
    Sound username serverAddr r' := by
  have hrunning : ∀ {ui}, r.ui = ui → ui ≠ .turn → ¬ ui.ended → r.app.shouldQuit = false := by
    intro ui hu hne hnot
    rw [Bool.eq_false_iff]
    intro hq
    rcases h.quits hq with he | he
    · exact hne (hu ▸ he)
    · exact hnot (hu ▸ he)
  cases ha with
  | unnamed | unconnected | ended | undrawn => exact ⟨h.reached, fun _ => .inr trivial, nofun, nofun, h.noticed⟩
  | connected => exact ⟨h.reached, fun _ => .inl rfl, nofun, nofun, h.noticed⟩
  | turn hu hq =>
    refine ⟨h.reached, fun hq' => ?_, nofun, nofun, h.noticed⟩
    rw [hq] at hq'
    cases hq'
  | drained hu | drawn hu =>
    have hq := hrunning hu nofun id
    refine ⟨h.reached, fun hq' => ?_, nofun, nofun, h.noticed⟩
    rw [hq] at hq'
    cases hq'
  | @received event rest hu =>
    have hq := hrunning hu nofun id
    have hq' : (event.applyTo display r.app).shouldQuit = false := by rw [shouldQuit_applyTo, hq]
    refine ⟨?_, fun hq₁ => ?_, ?_, fun he => ?_, noticed_applyTo h.noticed event⟩
    · rw [staying_eq hq']
      exact reached_applyTo (staying_eq hq ▸ h.reached) event
    · rw [hq'] at hq₁
      cases hq₁
    · rw [hu]
      exact nofun
    · rw [hu] at he
      cases he
  | handled hu hh =>
    have hq := hrunning hu nofun id
    obtain ⟨hreached, hnoticed⟩ := hh.sound (staying_eq hq ▸ h.reached) h.noticed
    exact ⟨hreached, fun _ => .inl rfl, nofun, nofun, hnoticed⟩
  | unhandled hu hh =>
    have hq := hrunning hu nofun id
    obtain ⟨hreached, hnoticed⟩ := hh.sound (staying_eq hq ▸ h.reached) h.noticed
    exact ⟨hreached, fun _ => .inr trivial, nofun, nofun, hnoticed⟩
  | panics hu hp =>
    -- the selection is in range, so the completion finds its candidate
    have hq := hrunning hu nofun id
    obtain ⟨_, happly⟩ := exists_applySelectedMention (selects_of_reached (staying_eq hq ▸ h.reached))
    rw [happly] at hp
    cases hp
  | read | sent | unsent => exact ⟨h.reached, h.quits, h.unpanicked, h.fresh, h.noticed⟩

theorem sound_init : Sound username serverAddr (.init username serverAddr) where
  reached := .init
  quits h := by cases h
  unpanicked := nofun
  fresh _ := rfl
  noticed h := by cases h

theorem sound_of_reach {G : Runtime → Action → Prop} (hr : System.Reach (client display username serverAddr) G r) :
    Sound username serverAddr r :=
  hr.invariant (I := Sound username serverAddr) sound_init fun _ _ _ _ h _ hstep => h.step (acts_of_step hstep)

/-! ## Offline -/

/-- The handling of a key that quits a client which shows a notice. -/
def Action.dismisses : Action → Bool
  | .handle polled _ => polled.quits true
  | _ => false

/-- What stays of a client that is offline, and of one that shows a notice. -/
structure Stays (r : Runtime) (actions : List Action) (r' : Runtime) : Prop where
  offline : r.app.connected = false → r'.app.connected = false ∧ r'.socket = r.socket
  noticed : r.app.exitNotice.isSome = true → r'.app.exitNotice.isSome = true ∧ r'.app.input = r.app.input ∧
    (r'.app.shouldQuit = true → r.app.shouldQuit = true ∨ ∃ a ∈ actions, a.dismisses = true)

theorem Stays.refl (r : Runtime) : Stays r [] r := ⟨fun h => ⟨h, rfl⟩, fun h => ⟨h, rfl, .inl⟩⟩

theorem Stays.cons {t : Runtime} {actions : List Action} (h : Stays r [a] t) (h' : Stays t actions r') :
    Stays r (a :: actions) r' := by
  constructor
  case offline =>
    intro hc
    obtain ⟨hc₁, hs₁⟩ := h.offline hc
    obtain ⟨hc₂, hs₂⟩ := h'.offline hc₁
    exact ⟨hc₂, hs₂.trans hs₁⟩
  case noticed =>
    intro hn
    obtain ⟨hn₁, hi₁, hq₁⟩ := h.noticed hn
    obtain ⟨hn₂, hi₂, hq₂⟩ := h'.noticed hn₁
    refine ⟨hn₂, hi₂.trans hi₁, fun hq => ?_⟩
    rcases hq₂ hq with hq | ⟨b, hb, hd⟩
    · rcases hq₁ hq with hq | ⟨b, hb, hd⟩
      · exact .inl hq
      · exact .inr ⟨b, List.mem_singleton.1 hb ▸ List.mem_cons_self, hd⟩
    · exact .inr ⟨b, List.mem_cons_of_mem _ hb, hd⟩

/-- A step that leaves the app and the socket. -/
theorem Stays.of_eq (ha : r'.app = r.app) (hs : r'.socket = r.socket) : Stays r [a] r' := by
  refine ⟨fun h => ⟨by rw [ha]; exact h, hs⟩, fun h => ⟨by rw [ha]; exact h, by rw [ha], fun hq => .inl ?_⟩⟩
  rwa [ha] at hq

theorem input_applyTo (event : NetworkEvent) (app : ChatApp) : (event.applyTo display app).input = app.input := by
  cases event with
  | message text => rw [NetworkEvent.applyTo, receiveMessage_eq]
  | userList users =>
    obtain ⟨_, -, heq⟩ := updateConnectedUsers_eq app users
    rw [NetworkEvent.applyTo, heq]
  | disconnected reason => rfl

theorem exitNotice_applyTo (event : NetworkEvent) {app : ChatApp} (h : app.exitNotice.isSome = true) :
    (event.applyTo display app).exitNotice.isSome = true := by
  cases event with
  | message text =>
    rw [NetworkEvent.applyTo, receiveMessage_eq]
    exact h
  | userList users =>
    obtain ⟨_, -, heq⟩ := updateConnectedUsers_eq app users
    rw [NetworkEvent.applyTo, heq]
    exact h
  | disconnected reason => rfl

/-- Handling a terminal event while offline, or while a notice is shown. -/
theorem Handles.stays {polled : Polled} {outcome : Written} {app app' : ChatApp} {socket socket' : Socket}
    {result : Except IoError Unit} (h : Handles polled outcome app socket result app' socket') :
    (app.connected = false → app'.connected = false ∧ socket' = socket) ∧
      (app.exitNotice.isSome = true →
        socket' = socket ∧ (app' = app ∨ app' = app.quit ∧ polled.quits true = true)) := by
  have hsome : app.exitNotice = none → ¬ app.exitNotice.isSome = true := by
    intro hn
    simp [hn]
  cases h with
  | nothing | unpolled => exact ⟨fun hc => ⟨hc, rfl⟩, fun _ => ⟨rfl, .inl rfl⟩⟩
  | quit hq =>
    refine ⟨fun hc => ⟨hc, rfl⟩, fun hn => ⟨rfl, .inr ⟨rfl, ?_⟩⟩⟩
    rwa [ChatApp.hasExitNotice, hn] at hq
  | edit hn hc he =>
    obtain ⟨_, _, rfl⟩ := edits_eq hc he
    exact ⟨fun hc => ⟨hc, rfl⟩, fun h => absurd h (hsome hn)⟩
  | blank hn | offline hn => exact ⟨fun hc => ⟨hc, rfl⟩, fun h => absurd h (hsome hn)⟩
  | refused hn hc | sent hn hc | lost hn hc | failed hn hc =>
    refine ⟨fun hc' => ?_, fun h => absurd h (hsome hn)⟩
    rw [hc] at hc'
    cases hc'

theorem stays_of_acts (h : Sound username serverAddr r) (ha : Acts display username r a r') : Stays r [a] r' := by
  have hstarted : r.ui = .start → ∀ socket ui reader, Stays r [a] { r with ui, reader, socket } := by
    intro hu socket ui reader
    have happ := h.fresh hu
    refine ⟨fun hc => ?_, fun hn => ?_⟩
    · rw [happ] at hc
      cases hc
    · rw [happ] at hn
      cases hn
  have hhandled : ∀ {polled outcome app socket result ui events}, a = .handle polled outcome →
      Handles polled outcome r.app r.socket result app socket →
        Stays r [a] { r.submit polled outcome with app, socket, ui, events } := by
    intro polled outcome app socket result ui events he hh
    obtain ⟨hoff, hnot⟩ := hh.stays
    refine ⟨hoff, fun hn => ?_⟩
    obtain ⟨-, rfl | ⟨rfl, hq⟩⟩ := hnot hn
    · exact ⟨hn, rfl, .inl⟩
    · exact ⟨hn, rfl, fun _ => .inr ⟨a, List.mem_singleton_self a, by rw [he]; exact hq⟩⟩
  cases ha with
  | unnamed | ended | turn | drained | drawn | undrawn | panics | read | sent | unsent => exact .of_eq rfl rfl
  | connected hu => exact hstarted hu _ _ _
  | unconnected hu =>
    have happ := h.fresh hu
    refine ⟨fun hc => ?_, fun hn => ?_⟩
    · replace hc : r.app.connected = false := hc
      rw [happ] at hc
      cases hc
    · replace hn : r.app.exitNotice.isSome = true := hn
      rw [happ] at hn
      cases hn
  | @received event rest hu =>
    refine ⟨fun hc => ⟨connected_applyTo event hc, rfl⟩,
      fun hn => ⟨exitNotice_applyTo event hn, input_applyTo event _, ?_⟩⟩
    intro hq
    exact .inl (by rwa [shouldQuit_applyTo] at hq)
  | handled _ hh => exact hhandled rfl hh
  | unhandled _ hh => exact hhandled rfl hh

theorem stays_of_run {actions : List Action} (hr : System.Reach (client display username serverAddr) System.Any r)
    (hrun : (client display username serverAddr).run r actions = some r') : Stays r actions r' :=
  System.run_induction (P := Stays) Stays.refl
    (fun _ _ _ _ _ hs hstep h => (stays_of_acts (sound_of_reach hs) (acts_of_step hstep)).cons h) hr hrun

/-- **Offline is final.**  From a state in which the client is offline no run writes another byte or connects it again;
and while it shows that the connection is lost no key changes the input, and none but Enter ends it. -/
theorem offline_final {actions : List Action} (hr : System.Reach (client display username serverAddr) System.Any r)
    (hrun : (client display username serverAddr).run r actions = some r') :
    (r.app.connected = false → r'.app.connected = false ∧ r'.socket = r.socket) ∧
    (r.app.exitNotice.isSome = true → r'.app.exitNotice.isSome = true ∧ r'.app.connected = false ∧
      r'.socket = r.socket ∧ r'.app.input = r.app.input ∧
      (r'.app.shouldQuit = true → r.app.shouldQuit = true ∨ ∃ a ∈ actions, a.dismisses = true)) := by
  have h := stays_of_run hr hrun
  refine ⟨h.offline, fun hn => ?_⟩
  obtain ⟨hn', hi, hq⟩ := h.noticed hn
  obtain ⟨hc, hs⟩ := h.offline ((sound_of_reach hr).noticed hn)
  exact ⟨hn', hc, hs, hi, hq⟩

/-! ## The end -/

/-- The client handles a key that quits it. -/
def Runtime.Quits (r : Runtime) : Action → Prop
  | .handle polled _ => polled.quits r.app.hasExitNotice = true
  | _ => False

/-- Dialling fails with this error: there is no connection, the name is too long for a frame, or the handshake is not
written. -/
def Dial.Fails (username : Str) (error : IoError) : Dial → Prop
  | .unconnected e | .uncloned e => e = error
  | .connected outcome =>
    maxFramePayloadBytes < byteLen username ∧ error = ⟨.invalidInput, lit "username is too large"⟩ ∨
      byteLen username ≤ maxFramePayloadBytes ∧ ∃ taken, outcome = .failed error taken

/-- The client of that name fails with this error: the name is blank or dialling fails, drawing or polling the terminal
fails, or Enter submits what is too long, or a write of what it submits fails and not for a disconnect. -/
def Runtime.Fails (username : Str) (error : IoError) (r : Runtime) : Action → Prop
  | .start dial => trim username = [] ∧ error = ⟨.invalidInput, lit "username cannot be empty"⟩ ∨
    trim username ≠ [] ∧ dial.Fails username error
  | .draw result => result = .error error
  | .handle polled outcome => polled = .failed error ∨
    polled.enters = true ∧ r.app.exitNotice = none ∧ r.app.connected = true ∧
      (maxChatMessageBytes < byteLen (trim r.app.input) ∧ error = tooLarge ∨
        byteLen (trim r.app.input) ≤ maxChatMessageBytes ∧ trim r.app.input ≠ [] ∧
          ∃ taken, outcome = .failed error taken ∧ isDisconnectError error = false)
  | _ => False

theorem fails_of_connect {dial : Dial} {socket : Socket} {error : IoError}
    (h : connect username dial = (.error error, socket)) : dial.Fails username error := by
  cases dial with
  | unconnected | uncloned =>
    cases h
    rfl
  | connected outcome =>
    unfold connect at h
    dsimp only at h
    split at h
    · rename_i e henc
      cases h
      refine .inl ⟨Nat.lt_of_not_le fun hle => ?_, rfl⟩
      have hok : encodeFrame .handshake (toBytes username) = .ok _ :=
        encodeFrame_eq_ok.2 ⟨(length_toBytes username).trans_le hle, rfl⟩
      rw [hok] at henc
      cases henc
    · rename_i handshake henc
      cases outcome with
      | ok => cases h
      | failed e taken =>
        cases h
        exact .inr ⟨length_toBytes username ▸ (encodeFrame_eq_ok.1 henc).1, taken, rfl⟩

/-- What an error of handling a terminal event comes from. -/
theorem Handles.fails {polled : Polled} {outcome : Written} {app' : ChatApp} {socket' : Socket} {error : IoError}
    (h : Handles polled outcome r.app r.socket (.error error) app' socket') :
    r.Fails username error (.handle polled outcome) := by
  cases h with
  | unpolled hp => exact .inl hp
  | refused hn hc hl hk => exact .inr ⟨hk, hn, hc, .inl ⟨hl, rfl⟩⟩
  | failed hn hc hne henc ho hd hk =>
    exact .inr ⟨hk, hn, hc, .inr ⟨(isContent_of_submitted hne henc).1.short, hne, _, ho, hd⟩⟩

theorem Handles.quits {polled : Polled} {outcome : Written} {app' : ChatApp} {socket' : Socket}
    {result : Except IoError Unit} (h : Handles polled outcome r.app r.socket result app' socket')
    (hq : app'.shouldQuit = true) : r.app.shouldQuit = true ∨ r.Quits (.handle polled outcome) := by
  cases h with
  | quit hp => exact .inr hp
  | edit _ hc he =>
    obtain ⟨_, _, rfl⟩ := edits_eq hc he
    exact .inl hq
  | nothing | unpolled | blank | offline | refused | sent | lost | failed => exact .inl hq

theorem quits_of_acts (ha : Acts display username r a r') (hq : r'.app.shouldQuit = true) :
    r.app.shouldQuit = true ∨ r.Quits a := by
  cases ha with
  | received =>
    left
    rwa [shouldQuit_applyTo] at hq
  | handled _ hh | unhandled _ hh => exact hh.quits hq
  | unnamed | connected | unconnected | ended | turn | drained | drawn | undrawn | panics | read | sent | unsent =>
    exact .inl hq

theorem fails_of_acts (ha : Acts display username r a r') {error : IoError} (hu : r'.ui = .returned (.error error)) :
    r.ui = .returned (.error error) ∨ r.Fails username error a := by
  cases ha with
  | unnamed _ hb =>
    cases hu
    exact .inr (.inl ⟨hb, rfl⟩)
  | unconnected _ hne h =>
    cases hu
    exact .inr (.inr ⟨hne, fails_of_connect h⟩)
  | undrawn =>
    cases hu
    exact .inr rfl
  | unhandled _ hh =>
    cases hu
    exact .inr hh.fails
  | received | read | sent | unsent => exact .inl hu
  | connected | ended | turn | drained | drawn | handled | panics => cases hu

/-- Why a client that runs is about to end, or ended. -/
structure Concludes (display : Reason → Str) (username serverAddr : Str) (r : Runtime) (actions : List Action)
    (r' : Runtime) : Prop where
  quit : r'.app.shouldQuit = true → r.app.shouldQuit = true ∨ (client display username serverAddr).Occurs
    (fun t a t' => t.Quits a ∧ t'.app.shouldQuit = true) r actions
  failed : ∀ error, r'.ui = .returned (.error error) → r.ui = .returned (.error error) ∨
    (client display username serverAddr).Occurs
      (fun t a t' => t.Fails username error a ∧ t'.ui = .returned (.error error)) r actions

theorem Concludes.cons {t : Runtime} {actions : List Action}
    (hstep : (client display username serverAddr).step r a = some t)
    (h : Concludes display username serverAddr t actions r') :
    Concludes display username serverAddr r (a :: actions) r' := by
  have ha := acts_of_step hstep
  constructor
  case quit =>
    intro hq
    rcases h.quit hq with hq | hlater
    · exact (quits_of_acts ha hq).imp_right fun hquits => .head hstep ⟨hquits, hq⟩ _
    · exact .inr (.cons hstep hlater)
  case failed =>
    intro error hu
    rcases h.failed error hu with hu | hlater
    · exact (fails_of_acts ha hu).imp_right fun hfails => .head hstep ⟨hfails, hu⟩ _
    · exact .inr (.cons hstep hlater)

theorem concludes_of_run {actions : List Action} (hr : System.Reach (client display username serverAddr) System.Any r)
    (hrun : (client display username serverAddr).run r actions = some r') :
    Concludes display username serverAddr r actions r' :=
  System.run_induction (P := Concludes display username serverAddr) (fun _ => ⟨.inl, fun _ => .inl⟩)
    (fun _ _ _ _ _ _ hstep h => .cons hstep h) hr hrun

/-- `run_client` returns `Ok` when it is to quit. -/
theorem shouldQuit_of_returned {G : Runtime → Action → Prop}
    (hr : System.Reach (client display username serverAddr) G r) (hu : r.ui = .returned (.ok ())) :
    r.app.shouldQuit = true := by
  refine hr.invariant (I := fun r => r.ui = .returned (.ok ()) → r.app.shouldQuit = true) (fun h => by cases h)
    (fun r a r' _ ih _ hstep hu => ?_) hu
  cases acts_of_step hstep with
  | ended _ hq => exact hq
  | received hu' => cases hu'.symm.trans hu
  | read | sent | unsent => exact ih hu
  | unnamed | unconnected | undrawn | unhandled | connected | turn | drained | drawn | handled | panics =>
    cases hu

/-- **How a client ends.**  No run panics; in one that returned without an error some step handled a key that quits it,
and in one that returned an error the step that returned it failed with it to start, to draw, to poll the terminal or to
send. -/
theorem ends_only {actions : List Action}
    (hrun : (client display username serverAddr).run (.init username serverAddr) actions = some r) :
    r.ui ≠ .panicked ∧
    (r.ui = .returned (.ok ()) → (client display username serverAddr).Occurs
      (fun t a t' => t.Quits a ∧ t'.app.shouldQuit = true) (.init username serverAddr) actions) ∧
    ∀ error, r.ui = .returned (.error error) → (client display username serverAddr).Occurs
      (fun t a t' => t.Fails username error a ∧ t'.ui = .returned (.error error)) (.init username serverAddr)
        actions := by
  have h0 : System.Reach (client display username serverAddr) System.Any (.init username serverAddr) := .init
  have hr := System.reach_of_run h0 hrun
  have h := concludes_of_run h0 hrun
  refine ⟨(sound_of_reach hr).unpanicked, fun hu => ?_, fun error hu => ?_⟩
  · exact (h.quit (shouldQuit_of_returned hr hu)).resolve_left Bool.noConfusion
  · exact (h.failed error hu).resolve_left nofun

end

/-- Alice typed `h`, and the server closed the connection. -/
def loses : List Action :=
  .start (.connected .ok) :: presses (.char 'h') ++ [.read (.ok none), .send, .turn, .tryRecv, .tryRecv, .draw (.ok ())]

/-- She types on, and then she presses Enter. -/
def dismissesNotice : List Action :=
  .handle (.event (.key ⟨.char 'i', .press, false⟩)) .ok :: presses .enter ++ [.turn]

/-- What `run_client` returned. -/
def Runtime.result : Runtime → Option (Except IoError Unit)
  | { ui := .returned result, .. } => some result
  | _ => none

theorem returned_of_result {r : Runtime} {result : Except IoError Unit} (h : r.result = some result) :
    r.ui = .returned result := by
  unfold Runtime.result at h
  split at h
  · cases h
    rfl
  · cases h

theorem offline_final_loses : ∃ r r' : Runtime, r.app.connected = false ∧ r.app.exitNotice.isSome = true ∧
    r'.app.shouldQuit = true ∧ r'.app.connected = false ∧ r'.socket = r.socket ∧ r'.app.input = r.app.input ∧
    ∃ a ∈ dismissesNotice, a.dismisses = true := by
  obtain ⟨r, hr, ht⟩ := System.exists_of_run (client (fun _ => []) (lit "alice") (lit "localhost"))
    (fun r => !r.app.connected && r.app.exitNotice.isSome && !r.app.shouldQuit &&
      ((client (fun _ => []) (lit "alice") (lit "localhost")).run r dismissesNotice).any (·.app.shouldQuit))
    loses (by decide +kernel)
  simp only [Bool.and_eq_true, Bool.not_eq_true', Option.any_eq_true] at ht
  obtain ⟨⟨⟨hc, hn⟩, hq⟩, r', hrun, hq'⟩ := ht
  obtain ⟨-, hnotice⟩ := offline_final hr hrun
  obtain ⟨-, hc', hs, hi, hquit⟩ := hnotice hn
  refine ⟨r, r', hc, hn, hq', hc', hs, hi, (hquit hq').resolve_left fun he => ?_⟩
  rw [hq] at he
  cases he

def timedOut : IoError := ⟨.timedOut, lit "timed out"⟩

/-- She says hi, and the write times out. -/
def failsToSayHi : List Action :=
  .start (.connected .ok) :: presses (.char 'h') ++ presses (.char 'i') ++
    [.turn, .tryRecv, .draw (.ok ()), .handle (.event (.key ⟨.enter, .press, false⟩)) (.failed timedOut 0)]

abbrev alice : System Runtime Action := client (fun _ => []) (lit "alice") (lit "localhost")

theorem ends_only_dismissesNotice :
    (∃ r, alice.run alice.init (loses ++ dismissesNotice) = some r ∧ r.ui = .returned (.ok ()) ∧
      alice.Occurs (fun t a t' => t.Quits a ∧ t'.app.shouldQuit = true) alice.init (loses ++ dismissesNotice)) ∧
    ∃ r, alice.run alice.init failsToSayHi = some r ∧ r.ui = .returned (.error timedOut) ∧
      alice.Occurs (fun t a t' => t.Fails (lit "alice") timedOut a ∧ t'.ui = .returned (.error timedOut)) alice.init
        failsToSayHi := by
  constructor
  · obtain ⟨r, hrun, hr⟩ := Option.map_eq_some_iff.1 (show (alice.run alice.init (loses ++ dismissesNotice)).map
      Runtime.result = some (some (.ok ())) by decide +kernel)
    exact ⟨r, hrun, returned_of_result hr, (ends_only hrun).2.1 (returned_of_result hr)⟩
  · obtain ⟨r, hrun, hr⟩ := Option.map_eq_some_iff.1 (show (alice.run alice.init failsToSayHi).map Runtime.result =
      some (some (.error timedOut)) by decide +kernel)
    exact ⟨r, hrun, returned_of_result hr, (ends_only hrun).2.2 _ (returned_of_result hr)⟩

end Client
end Drocsid
