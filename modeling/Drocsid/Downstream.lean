import Drocsid.Deployment
/-!
# Downstream — from the server's channels to the clients' screens

A writer wrote the messages it received, and of one more at most a part (`WriterPc.Wrote`).  Its client's reader finds
the first of them and nothing else, each of which shows a message recorded or usernames.  So in any run of the
deployment a client has processed the first of the events that were addressed to it, in order, each once
(`shown_in_order`).
-/
namespace Drocsid

open Text ByteSource Protocol Server Client

/-- What is related to one of a list is related to one of the other. -/
theorem exists_of_forall₂ {α β : Type*} {R : α → β → Prop} {l : List α} {l' : List β} (h : List.Forall₂ R l l') {b : β}
    (hb : b ∈ l') : ∃ a ∈ l, R a b := by
  induction h with
  | nil => cases hb
  | @cons a b' l l' hab _ ih =>
    rcases List.mem_cons.1 hb with rfl | hb
    · exact ⟨a, List.mem_cons_self, hab⟩
    · obtain ⟨a', ha', hab'⟩ := ih hb
      exact ⟨a', List.mem_cons_of_mem _ ha', hab'⟩

/-! ## What a writer wrote -/

namespace Server

/-- What a writer wrote, by where it is. -/
def WriterPc.Wrote (channels : Channels) (written : Bytes) : WriterPc → Prop
  | .unspawned => written = []
  | .running s .recv => written = ((channels s.token).sent.take (channels s.token).received).flatten
  | .running s .write => 0 < (channels s.token).received ∧
    written = ((channels s.token).sent.take ((channels s.token).received - 1)).flatten
  | .running s _ | .ended s => ∃ n part, n ≤ (channels s.token).sent.length ∧
    written = ((channels s.token).sent.take n).flatten ++ part ∧ Unfinished part

/-- The messages it wrote, and the part of one more. -/
theorem WriterPc.Wrote.messages {channels : Channels} {written : Bytes} {pc : WriterPc} {s : Session}
    (h : pc.Wrote channels written) (hs : pc.session = some s)
    (hr : (channels s.token).received ≤ (channels s.token).sent.length) :
    ∃ n part, n ≤ (channels s.token).sent.length ∧ written = ((channels s.token).sent.take n).flatten ++ part ∧
      Unfinished part := by
  cases pc with
  | unspawned => cases hs
  | ended s => cases hs; exact h
  | running s pc =>
    cases hs
    cases pc with
    | recv => exact ⟨_, [], hr, by rw [List.append_nil]; exact h, .inl rfl⟩
    | write =>
      refine ⟨(channels s.token).received - 1, [], Nat.le_trans (Nat.sub_le _ 1) hr, ?_, .inl rfl⟩
      rw [List.append_nil]
      exact h.2
    | remove | loadJoined | posting | presenting | stopping => exact h

/-- Channels grow. -/
theorem grows_of_step {w w' : World} {l : Label} (hw : System.Reach server System.Any w) (h : server.step w l = some w')
    (t : ClientToken) : (w.st.channels t).Grows (w'.st.channels t) := by
  obtain ⟨hs, hr⟩ := sound_of_reach hw
  rcases (steps_of_step h).simulates hs with he | ⟨k, -, hk⟩
  · rw [show w'.st = w.st from congrArg Shared.st he]
    exact .refl _
  · exact ((moves_of_step hk).loads (fed_of_reach hr) t).grows

/-- A writer that stopped wrote what it had. -/
theorem WriterPc.Wrote.stopped {channels channels' : Channels} {written : Bytes} {s : Session}
    (h : (WriterPc.ended s).Wrote channels written) (hg : (channels s.token).Grows (channels' s.token)) :
    (WriterPc.ended s).Wrote channels' (written ++ []) := by
  obtain ⟨n, part, hn, rfl, hpart⟩ := h
  obtain ⟨rest, hrest⟩ := hg.sent
  refine ⟨n, part, Nat.le_trans hn hg.sent.length_le, ?_, hpart⟩
  rw [← hrest, List.take_append_of_le_length hn, List.append_nil]

/-- The writer is where it was, while the channels grew: what it wrote is what it passed. -/
theorem WriterPc.Wrote.grows {channels channels' : Channels} {written : Bytes} {pc : WriterPc}
    (h : pc.Wrote channels written) (hg : ∀ t, (channels t).Grows (channels' t))
    (hr : ∀ t, (channels t).received ≤ (channels t).sent.length) :
    pc.Wrote channels' (written ++ ((pc.passed channels').drop (pc.passed channels).length).flatten) := by
  have happend : ∀ {l l' : List Bytes}, l <+: l' → l.flatten ++ (l'.drop l.length).flatten = l'.flatten := by
    rintro l l' ⟨rest, rfl⟩
    rw [List.drop_left, List.flatten_append]
  cases pc with
  | unspawned => exact (List.append_nil _).trans h
  | ended s => exact h.stopped (hg s.token)
  | running s pc =>
    cases pc with
    | recv =>
      refine Eq.trans ?_ (happend ((hg s.token).taken (hr s.token) 0))
      rw [show written = _ from h]
      rfl
    | write =>
      obtain ⟨hpos, rfl⟩ := h
      refine ⟨Nat.lt_of_lt_of_le hpos ((hg s.token).received (hr s.token)).1, ?_⟩
      exact happend ((hg s.token).taken (hr s.token) 1)
    | remove | loadJoined | posting | presenting | stopping =>
      exact WriterPc.Wrote.stopped (s := s) h (hg s.token)

/-- A writer that writes goes on with the outcome of that. -/
theorem written_of_step {w w' : World} {c : Nat} {input : Input} {s : Session}
    (h : server.step w (.writer c input) = some w') (hw : (w.conns c).writer = .running s .write) :
    ∃ ok, input = .written ok := by
  simp only [server, hw] at h
  cases input with
  | written ok => exact ⟨ok, rfl⟩
  | go | frame | timeout | disconnected | allowed | time | rx => cases h

/-- A writer that receives found a message. -/
theorem queued_of_step {w w' : World} {c : Nat} {input : Input} {s s' : Session}
    (h : server.step w (.writer c input) = some w') (hw : (w.conns c).writer = .running s .recv)
    (hw' : (w'.conns c).writer = .running s' .write) : (w.st.channels s.token).queued ≠ [] := by
  intro hq
  simp only [server, hw] at h
  cases input with
  | go =>
    rw [World.writeStep, hq, List.isEmpty_nil, if_pos rfl] at h
    split at h
    · cases h
      simp [World.gotoWriter] at hw'
    · cases h
  | written | frame | timeout | disconnected | allowed | time | rx => cases h

/-- A step of a connection of its own. -/
theorem Turn.wrote {w w' : World} {c : Nat} {l : Label} {conn : Conn} {written : Bytes}
    (hw : System.Reach server System.Any w) (hl : l.transports = false)
    (hstep : server.step w l = some (w.after c w' conn)) (h : Turn w c l w' conn)
    (hwrote : (w.conns c).writer.Wrote w.st.channels written) : conn.writer.Wrote w'.st.channels (written ++
      ((conn.writer.passed w'.st.channels).drop ((w.conns c).writer.passed w.st.channels).length).flatten) := by
  obtain ⟨hs, hr⟩ := sound_of_reach hw
  have hb := hs.bound c
  have hg := grows_of_step hw hstep
  have hle := (carries_of_reach hr).received
  have hstays := hwrote.grows hg hle
  cases h with
  | acquired | full | admitted | refused | registered | unregistered | unnamed | unregister | call | storeJoined
  | finish | wait | dropPermit | dropGlobal => exact hstays
  | accept hh =>
    rw [hb.unspawned (.inl (by rw [hh]; rfl))] at hwrote
    show written ++ (([] : List Bytes).drop _).flatten = []
    rw [List.drop_nil, List.flatten_nil, List.append_nil]
    exact hwrote
  | @named input s st hh hu =>
    -- nothing was sent on the channel yet
    have hun := hb.unspawned (.inr (by rw [hh]; rfl))
    have hnot := hb.unreplayed
    rw [hh] at hnot
    have hnil : (st.channels s.token).sent = [] := by
      obtain ⟨-, -, byAddr, rfl, -⟩ := setClientUsername_ok hu
      exact (outlasts_of_reach hr).unbegun s.token hnot
    rw [hun] at hwrote
    show _ = _
    rw [show written = [] from hwrote]
    simp [WriterPc.passed, hnil]
  | @receive input s hwr =>
    have hlt : (w.st.channels s.token).received < (w.st.channels s.token).sent.length := by
      have hq := queued_of_step hstep hwr (by rw [World.after_self])
      by_contra hge
      exact hq (List.drop_eq_nil_of_le (Nat.not_lt.1 hge))
    have hch : (receiveOn w.st s.token).channels s.token =
        { w.st.channels s.token with received := (w.st.channels s.token).received + 1 } := by
      have hmin : min ((w.st.channels s.token).received + 1) (w.st.channels s.token).sent.length =
        (w.st.channels s.token).received + 1 := Nat.min_eq_left hlt
      simp [receiveOn, setChannel, Fifo.tick, hmin]
    rw [hwr] at hwrote ⊢
    rw [show written = _ from hwrote]
    simp only [WriterPc.Wrote, WriterPc.passed, hch, Nat.add_sub_cancel, List.drop_length, List.flatten_nil,
      List.append_nil, and_true]
    exact Nat.succ_pos _
  | @remove input s removed st hwr =>
    rw [hwr] at hstays ⊢
    cases removed <;> exact hstays
  | writerCall hwr hpc =>
    cases hpc with
    | posting | presenting =>
      rw [hwr] at hstays ⊢
      exact hstays
  | @writerWait input s pc pc' hwr hwait =>
    cases hwait with
    | gone =>
      rw [hwr] at hwrote
      refine ⟨_, [], hle s.token, ?_, .inl rfl⟩
      show written ++ (([] : List Bytes).drop _).flatten = _
      rw [List.drop_nil, List.flatten_nil, List.append_nil, List.append_nil]
      exact hwrote
    | written | failed =>
      obtain ⟨ok, rfl⟩ := written_of_step hstep hwr
      cases hl
    | announces | unencoded | unjoined | posted | presented =>
      rw [hwr] at hstays ⊢
      exact hstays
  | @stop input s hwr =>
    rw [hwr] at hstays ⊢
    exact hstays

/-- **What the writers wrote is what they received**, after a step that is no read or write. -/
theorem wrote_of_step {w w' : World} {l : Label} {written : Nat → Bytes} (hw : System.Reach server System.Any w)
    (hl : l.transports = false) (h : server.step w l = some w')
    (hwrote : ∀ c, (w.conns c).writer.Wrote w.st.channels (written c)) (c : Nat) :
    (w'.conns c).writer.Wrote w'.st.channels (written c ++ ((w'.passed c).drop (w.passed c).length).flatten) := by
  obtain ⟨hs, hr⟩ := sound_of_reach hw
  have hstays := (hwrote c).grows (grows_of_step hw h) (carries_of_reach hr).received
  cases steps_of_step h with
  | reorder => exact hstays
  | @turn _ b w₁ conn ht =>
    by_cases hc : c = b
    · subst hc
      have hown := ht.wrote hw hl h (hwrote c)
      unfold World.passed
      rw [show ({ w₁ with conns := Function.update w.conns c conn } : World).conns c = conn from
        Function.update_self ..]
      exact hown
    · unfold World.passed
      rw [show ({ w₁ with conns := Function.update w.conns b conn } : World).conns c = w.conns c from
        Function.update_of_ne hc ..]
      exact hstays

theorem Conveys.encoded {tr : List Event} {frame : Bytes} {event : NetworkEvent} (h : Conveys tr frame event) :
    ∃ kind payload, encodeFrame kind payload = .ok frame := by
  cases h with
  | live _ hf => exact ⟨_, _, hf ▸ encodeFrame_of_chatFrame (Post.encoded _)⟩
  | replayed _ hf => exact ⟨_, _, encodeFrame_of_chatFrame hf⟩
  | presence hf =>
    obtain ⟨payload, henc, -⟩ := parsePresence_encode (encodePresence_of_presenceFrame hf)
    exact ⟨_, _, henc⟩

/-- **A write** is of the message in hand, or of a part of it, and is the last then. -/
theorem wrote_of_write {w w' : World} {c : Nat} {s : Session} {outcome : Written} {written : Nat → Bytes}
    (hw : System.Reach server System.Any w) (hwr : (w.conns c).writer = .running s .write)
    (h : server.step w (.writer c (.written (decide (outcome = .ok)))) = some w')
    (hwrote : ∀ b, (w.conns b).writer.Wrote w.st.channels (written b)) (b : Nat) :
    (w'.conns b).writer.Wrote w'.st.channels
      (Function.update written c (written c ++ outcome.of (w.inHand s)) b) := by
  have hcarries := carries_of_reach (sound_of_reach hw).2
  replace h : w.writeStep c s .write (.written (decide (outcome = .ok))) = some w' := by
    rw [← h]
    simp only [server, hwr]
  obtain rfl := Option.some.inj h
  show (Function.update w.conns c _ b).writer.Wrote w.st.channels _
  by_cases hb : b = c
  · subst hb
    have hle : (w.st.channels s.token).received ≤ (w.st.channels s.token).sent.length := hcarries.received s.token
    obtain ⟨hpos, hbytes⟩ : (WriterPc.running s .write).Wrote w.st.channels (written b) := hwr ▸ hwrote b
    obtain ⟨m, rest, hdrop⟩ :
        ∃ m rest, (w.st.channels s.token).sent.drop ((w.st.channels s.token).received - 1) = m :: rest := by
      rw [← List.ne_nil_iff_exists_cons, ne_eq, List.drop_eq_nil_iff]
      omega
    have hhand : w.inHand s = m := by rw [World.inHand, hdrop]; rfl
    rw [Function.update_self, Function.update_self, hbytes, hhand]
    cases outcome with
    | ok =>
      show _ = _
      have htake : (w.st.channels s.token).sent.take (w.st.channels s.token).received =
          (w.st.channels s.token).sent.take ((w.st.channels s.token).received - 1) ++ [m] := by
        conv_lhs => rw [← Nat.sub_add_cancel hpos]
        rw [List.take_add, hdrop]
        rfl
      rw [htake, List.flatten_append, List.flatten_singleton]
      rfl
    | failed error taken =>
      have hmem : m ∈ (w.st.channels s.token).sent := List.mem_of_mem_drop (hdrop ▸ List.mem_cons_self)
      obtain ⟨event, hev⟩ := hcarries.channels s.token m hmem
      obtain ⟨kind, payload, henc⟩ := hev.encoded
      exact ⟨_, _, Nat.le_trans (Nat.sub_le _ 1) hle, rfl, unfinished_take henc taken⟩
  · rw [Function.update_of_ne hb, Function.update_of_ne hb]
    exact hwrote b

/-- Where a handler is reads a frame: the handshake, or the message loop. -/
inductive HandlerPc.Reads (result : Except ServerError (Option Frame)) : HandlerPc → HandlerPc → Prop
  | named {username} (h : handshakeUsername result = .ok username.1) : Reads result .handshake (.register username)
  | unnamed {e} (h : handshakeUsername result = .error e) : Reads result .handshake (.dropPermit none)
  | received {s} : Reads result (.serving s .select) (received s result)

/-- **A read of a handler** writes nothing but where the handler is. -/
theorem reads_of_step {w w' : World} {c : Nat} {result : Except ServerError (Option Frame)}
    (h : server.step w (.handler c (.frame result)) = some w') :
    ∃ pc, (w.conns c).handler.Reads result pc ∧ w' = w.goto c pc := by
  replace h : w.handlerStep c (.frame result) = some w' := h
  cases hh : (w.conns c).handler with
  | handshake =>
    simp only [World.handlerStep, hh] at h
    split at h
    · rename_i username hu
      exact ⟨_, .named hu, (Option.some.inj h).symm⟩
    · rename_i e hu
      exact ⟨_, .unnamed hu, (Option.some.inj h).symm⟩
  | serving s pc =>
    cases pc with
    | select =>
      simp only [World.handlerStep, hh, World.serveStep] at h
      exact ⟨_, .received, (Option.some.inj h).symm⟩
    | calling next call =>
      cases call <;> simp [World.handlerStep, hh, World.serveStep] at h
    | setUsername | unregister | storeJoined | allow | sleep | finish =>
      simp [World.handlerStep, hh, World.serveStep] at h
  | idle | acquire | acquireIp | refused | register | dropPermit | dropGlobal | returned =>
    simp [World.handlerStep, hh] at h

end Server

/-! ## What the ends of a connection read -/

namespace Client

/-- The frames among what was read. -/
def framesOf (heard : List (Except FrameError (Option Frame))) : List Frame :=
  heard.filterMap fun result => match result with
    | .ok frame => frame
    | .error _ => none

variable {display : Reason → Str} {username : Str} {r r' : Runtime} {a : Action}

theorem Handles.bytes {polled : Polled} {outcome : Written} {app app' : ChatApp} {socket socket' : Socket}
    {result : Except IoError Unit} (h : Handles polled outcome app socket result app' socket') :
    socket.bytes <+: socket'.bytes := by
  cases h with
  | nothing | unpolled | quit | edit | blank | offline | refused => exact List.prefix_rfl
  | sent | lost | failed => exact List.prefix_append _ _

/-- What is written stays, and only a read adds to what is read. -/
theorem Acts.wires (h : Acts display username r a r') (ho : Outgoing username r) :
    r.socket.bytes <+: r'.socket.bytes ∧ (a.reads = false → r'.heard = r.heard) := by
  cases h with
  | connected hu | unconnected hu =>
    rw [(ho.started hu).1]
    exact ⟨List.nil_prefix, fun _ => rfl⟩
  | handled _ hh | unhandled _ hh => exact ⟨hh.bytes, fun _ => rfl⟩
  | read => exact ⟨List.prefix_rfl, nofun⟩
  | unnamed | ended | turn | drained | received | drawn | undrawn | panics | sent | unsent =>
    exact ⟨List.prefix_rfl, fun _ => rfl⟩

end Client

namespace Deployment

variable {P : Peers} {d d' : Deployment} {o : Occurrence}

/-- What is on the wires: what the writers wrote, and what each end read of what the other wrote. -/
structure Wired (P : Peers) (d : Deployment) : Prop where
  wrote : ∀ c, (d.world.conns c).writer.Wrote d.world.st.channels (d.written c)
  up : ∀ c, (P.username c).isSome = true → (d.up c).Of (d.clients c).socket.bytes
  down : ∀ c, (P.username c).isSome = true → (d.down c).Of (d.written c)
  heard : ∀ c, (P.username c).isSome = true → framesOf (d.clients c).heard = (d.down c).frames

theorem wired_init : Wired P (.init P) where
  wrote _ := rfl
  up _ _ := Receipt.of_new _
  down _ _ := Receipt.of_new _
  heard _ _ := rfl

/-- A client's read is what its reader finds. -/
theorem framesOf_read {src : Source} {heard : List (Except FrameError (Option Frame))} {r : Receipt}
    (h : framesOf heard = r.frames) :
    framesOf (heard ++ [(readFrame src).1]) = (r.after src (readFrame src)).frames := by
  rcases readFrame src with ⟨result, src'⟩
  rw [framesOf, List.filterMap_append, ← framesOf, h]
  match result with
  | .error _ | .ok none => exact List.append_nil _
  | .ok (some frame) => rfl

theorem Wired.step (hd : System.Reach (deployment P) System.Any d) (h : Wired P d) (ho : Happens P d d') :
    Wired P d' := by
  have hacts : ∀ {b name a r}, Runtime.step P.display name (d.clients b) a = some r →
      Acts P.display name (d.clients b) a r := by
    intro b name a r hstep
    exact acts_of_step (show (client P.display name P.serverAddr).step _ a = some r from hstep)
  have hclient : ∀ {b name a r}, P.username b = some name → Runtime.step P.display name (d.clients b) a = some r →
      (d.clients b).socket.bytes <+: r.socket.bytes ∧ (a.reads = false → r.heard = (d.clients b).heard) := by
    intro b name a r hu hstep
    exact (hacts hstep).wires (outgoing_of_reach (client_of_reach hd hu))
  cases ho with
  | server hl hstep =>
    exact ⟨wrote_of_step (world_of_reach hd) hl hstep h.wrote, h.up,
      fun c hc => (h.down c hc).mono (List.prefix_append _ _), h.heard⟩
  | @handlerReads c src world ha hstep =>
    obtain ⟨pc, -, rfl⟩ := reads_of_step hstep
    constructor
    case wrote =>
      exact (Function.forall_update_iff d.world.conns fun b conn =>
        conn.writer.Wrote d.world.st.channels (d.written b)).2 ⟨h.wrote c, fun b _ => h.wrote b⟩
    case up =>
      exact (Function.forall_update_iff d.up fun b r =>
        (P.username b).isSome = true → r.Of (d.clients b).socket.bytes).2
          ⟨fun hc => (h.up c hc).after takes_readAsyncFrame (ha hc), fun b _ => h.up b⟩
    case down => exact h.down
    case heard => exact h.heard
  | @writerWrites c s world outcome hw hstep =>
    refine ⟨wrote_of_write (world_of_reach hd) hw hstep h.wrote, h.up, ?_, h.heard⟩
    exact (Function.forall_update_iff d.written fun b written =>
      (P.username b).isSome = true → (d.down b).Of written).2
        ⟨fun hc => (h.down c hc).mono (List.prefix_append _ _), fun b _ => h.down b⟩
  | @client c a username r hu ha hstep =>
    obtain ⟨hbytes, hheard⟩ := hclient hu hstep
    refine ⟨h.wrote, ?_, h.down, ?_⟩
    · exact (Function.forall_update_iff d.clients fun b r =>
        (P.username b).isSome = true → (d.up b).Of r.socket.bytes).2
          ⟨fun hc => (h.up c hc).mono hbytes, fun b _ => h.up b⟩
    · exact (Function.forall_update_iff d.clients fun b r =>
        (P.username b).isSome = true → framesOf r.heard = (d.down b).frames).2
          ⟨fun hc => (congrArg framesOf (hheard ha)).trans (h.heard c hc), fun b _ => h.heard b⟩
  | @clientReads c src username r hu ha hstep =>
    have hc : (P.username c).isSome = true := by rw [hu]; rfl
    have hheard : r.heard = (d.clients c).heard ++ [(readFrame src).1] := by
      cases hacts hstep
      rfl
    refine ⟨h.wrote, ?_, ?_, fun b hb => ?_⟩
    · exact (Function.forall_update_iff d.clients fun b r =>
        (P.username b).isSome = true → (d.up b).Of r.socket.bytes).2
          ⟨fun hc => (h.up c hc).mono (hclient hu hstep).1, fun b _ => h.up b⟩
    · exact (Function.forall_update_iff d.down fun b r =>
        (P.username b).isSome = true → r.Of (d.written b)).2
          ⟨fun hc => (h.down c hc).after takes_readFrame ha, fun b _ => h.down b⟩
    · show framesOf (Function.update d.clients c r b).heard = (Function.update d.down c _ b).frames
      by_cases hbc : b = c
      · subst hbc
        rw [Function.update_self, Function.update_self, hheard]
        exact framesOf_read (h.heard b hb)
      · rw [Function.update_of_ne hbc, Function.update_of_ne hbc]
        exact h.heard b hb

theorem wired_of_reach (hd : System.Reach (deployment P) System.Any d) : Wired P d :=
  hd.invariant wired_init fun _ _ _ hr h _ hstep => h.step hr (happens_of_step hstep)

end Deployment

/-! ## The events of what was read -/

namespace Client

theorem ne_nil_of_encodeFrame {kind : FrameType} {payload bytes : Bytes} (h : encodeFrame kind payload = .ok bytes) :
    bytes ≠ [] := by
  have hlen := length_of_encodeFrame h
  unfold frameHeaderBytes at hlen
  exact List.ne_nil_of_length_pos (by omega)

/-- A client goes on from a frame that shows an event, with the event. -/
theorem processFrame_of_shows {frame : Frame} {bytes : Bytes} {event : NetworkEvent} (h : Shows bytes event)
    (henc : Encodes frame bytes) (hv : frame.version = currentProtocolVersion) :
    processFrame frame = (true, [event]) := by
  have hc : Chunked [.data bytes] := by simp [Chunked, ne_nil_of_encodeFrame henc]
  have hs : stream [.data bytes] = bytes ++ [] := stream_data bytes []
  obtain ⟨f, src₁, hread, -, -, hproc⟩ := h _ [] hc hs
  obtain ⟨src₂, hread', -, -⟩ := readsFrames_readFrame.frame hc henc hs
  rw [hread'] at hread
  cases hread
  obtain ⟨version, kind, payload⟩ := frame
  cases (show version = _ from hv)
  exact hproc

/-- A reader that goes on read frames. -/
theorem heard_eq {heard : List (Except FrameError (Option Frame))} (h : ∀ result ∈ heard, (hear result).1 = true) :
    heard = (framesOf heard).map fun frame => .ok (some frame) := by
  induction heard with
  | nil => rfl
  | cons result heard ih =>
    have htail := ih fun r hr => h r (List.mem_cons_of_mem _ hr)
    match result with
    | .ok (some frame) => exact congrArg (_ :: ·) htail
    | .ok none | .error _ => exact absurd (h _ List.mem_cons_self) Bool.false_ne_true

/-- Frames are all a reader reads, but for what it ends with. -/
theorem heard_split {heard : List (Except FrameError (Option Frame))}
    (h : ∀ result ∈ heard.dropLast, (hear result).1 = true) :
    ∃ ending, heard = (framesOf heard).map (fun frame => .ok (some frame)) ++ ending ∧
      (ending = [] ∨ ending = [.ok none] ∨ ∃ e, ending = [.error e]) := by
  rcases List.eq_nil_or_concat heard with rfl | ⟨l, last, rfl⟩
  · exact ⟨[], rfl, .inl rfl⟩
  · rw [List.concat_eq_append, List.dropLast_concat] at h
    have hl := heard_eq h
    rw [List.concat_eq_append, framesOf, List.filterMap_append, ← framesOf, List.map_append, ← hl]
    match last with
    | .ok (some frame) => exact ⟨[], by simp, .inl rfl⟩
    | .ok none => exact ⟨[.ok none], by simp, .inr (.inl rfl)⟩
    | .error e => exact ⟨[.error e], by simp, .inr (.inr ⟨e, rfl⟩)⟩

/-- The events of frames that show them. -/
theorem made_frames {frames : List Frame} {events : List NetworkEvent}
    (h : List.Forall₂ (fun frame event => processFrame frame = (true, [event])) frames events) :
    made (frames.map fun frame => .ok (some frame)) = events := by
  induction h with
  | nil => rfl
  | @cons frame event frames events hp _ ih =>
    rw [List.map_cons, made, List.flatMap_cons, ← made, ih, hear, hp]
    rfl

/-- The client heard that the connection ended, of nothing that was sent on it. -/
def Parts (farewell : List NetworkEvent) : Prop :=
  farewell = [] ∨ farewell = [.disconnected .serverDisconnected] ∨ ∃ e, farewell = [.disconnected (.connectionError e)]

/-- And perhaps of the end. -/
theorem made_of_frames {heard : List (Except FrameError (Option Frame))} {events : List NetworkEvent}
    (h : ∀ result ∈ heard.dropLast, (hear result).1 = true)
    (hf : List.Forall₂ (fun frame event => processFrame frame = (true, [event])) (framesOf heard) events) :
    ∃ farewell, made heard = events ++ farewell ∧ Parts farewell := by
  obtain ⟨ending, hsplit, hending⟩ := heard_split h
  refine ⟨made ending, ?_, ?_⟩
  · rw [hsplit, made, List.flatMap_append, ← made, ← made, made_frames hf]
  · rcases hending with rfl | rfl | ⟨e, rfl⟩
    · exact .inl rfl
    · exact .inr (.inl rfl)
    · exact .inr (.inr ⟨e, rfl⟩)

end Client

namespace Server

/-- Encoded frames of messages that each convey an event. -/
theorem exists_frames {tr : List Event} {messages : List Bytes}
    (h : ∀ message ∈ messages, ∃ event, Conveys tr message event) :
    ∃ (frames : List Frame) (events : List NetworkEvent), (∀ frame ∈ frames, frame.version = currentProtocolVersion) ∧
      List.Forall₂ Client.Encodes frames messages ∧ List.Forall₂ (Conveys tr) messages events := by
  induction messages with
  | nil => exact ⟨[], [], nofun, .nil, .nil⟩
  | cons message messages ih =>
    obtain ⟨frames, events, hv, henc, hev⟩ := ih fun m hm => h m (List.mem_cons_of_mem _ hm)
    obtain ⟨event, hevent⟩ := h message List.mem_cons_self
    obtain ⟨kind, payload, hframe⟩ := hevent.encoded
    refine ⟨⟨currentProtocolVersion, kind, payload⟩ :: frames, event :: events, fun f hf => ?_, .cons hframe henc,
      .cons hevent hev⟩
    rcases List.mem_cons.1 hf with rfl | hf
    · rfl
    · exact hv f hf

/-- A client goes on from such frames with the events. -/
theorem processed_of_conveys {G : World → Label → Prop} {w : World} (hw : System.Reach server G w) {frames : List Frame}
    {messages : List Bytes} {events : List NetworkEvent} (hv : ∀ frame ∈ frames, frame.version = currentProtocolVersion)
    (henc : List.Forall₂ Client.Encodes frames messages) (hev : List.Forall₂ (Conveys w.trace) messages events) :
    List.Forall₂ (fun frame event => processFrame frame = (true, [event])) frames events := by
  induction henc generalizing events with
  | nil =>
    cases hev
    exact .nil
  | @cons frame message frames messages hframe _ ih =>
    cases hev with
    | cons hevent hev =>
      refine .cons ?_ (ih (fun f hf => hv f (List.mem_cons_of_mem _ hf)) hev)
      exact processFrame_of_shows (hevent.shows hw) hframe (hv frame List.mem_cons_self)

end Server

namespace Deployment

variable {P : Peers} {d : Deployment} {c : Nat} {username : Str}

/-- What was sent on the channel of a connection's session. -/
def sentTo (d : Deployment) (c : Nat) : List Bytes :=
  match (d.world.conns c).handler.session with
  | none => []
  | some s => (d.world.st.channels s.token).sent

/-- The messages that a client read off its connection, and what they show. -/
structure ReadOf (d : Deployment) (c : Nat) (messages : List Bytes) (events : List NetworkEvent) : Prop where
  first : messages <+: d.sentTo c
  conveys : List.Forall₂ (Conveys d.world.trace) messages events
  frames : List.Forall₂ Client.Encodes (d.down c).frames messages
  processed : List.Forall₂ (fun frame event => processFrame frame = (true, [event])) (d.down c).frames events

theorem conveys_of_sentTo (hd : System.Reach (deployment P) System.Any d) :
    ∀ message ∈ d.sentTo c, ∃ event, Conveys d.world.trace message event := by
  unfold sentTo
  split
  · exact nofun
  · exact (carries_of_reach (sound_of_reach (world_of_reach hd)).2).channels _

/-- A writer wrote messages sent on its channel. -/
theorem written_of_sentTo (hd : System.Reach (deployment P) System.Any d) (c : Nat) :
    ∃ n part, d.written c = ((d.sentTo c).take n).flatten ++ part ∧ Unfinished part := by
  obtain ⟨hsound, hr⟩ := sound_of_reach (world_of_reach hd)
  have hwrote := (wired_of_reach hd).wrote c
  cases hwr : (d.world.conns c).writer.session with
  | none =>
    cases hpc : (d.world.conns c).writer with
    | unspawned =>
      rw [hpc] at hwrote
      exact ⟨0, [], hwrote, .inl rfl⟩
    | running | ended =>
      rw [hpc] at hwr
      cases hwr
  | some s =>
    obtain ⟨n, part, -, hbytes, hpart⟩ := hwrote.messages hwr ((carries_of_reach hr).received s.token)
    refine ⟨n, part, ?_, hpart⟩
    rw [hbytes, sentTo, (hsound.bound c).writer s hwr]

/-- **What a client read** are the first of the messages sent on its channel. -/
theorem exists_readOf (hd : System.Reach (deployment P) System.Any d) (hu : P.username c = some username) :
    ∃ messages events, ReadOf d c messages events := by
  have hdown := (wired_of_reach hd).down c (by rw [hu]; rfl)
  obtain ⟨n, part, hbytes, hpart⟩ := written_of_sentTo hd c
  obtain ⟨frames, events, hv, henc, hev⟩ :=
    exists_frames fun m hm => conveys_of_sentTo hd m (List.mem_of_mem_take (i := n) hm)
  have hpre := prefix_of_delivers hv (encodeAll_of_forall₂ henc) hpart (hbytes ▸ hdown.delivers)
  obtain ⟨k, hk⟩ : ∃ k, (d.down c).frames = frames.take k := ⟨_, List.prefix_iff_eq_take.1 hpre⟩
  have henc' := List.forall₂_take k henc
  have hev' := List.forall₂_take k hev
  rw [← hk] at henc'
  refine ⟨_, _, (List.take_prefix k _).trans (List.take_prefix n _), hev', henc', ?_⟩
  exact processed_of_conveys (world_of_reach hd) hdown.version henc' hev'

/-- What a client processed are the first of the events of what it read, and perhaps that the connection ended. -/
theorem ReadOf.events {messages : List Bytes} {events : List NetworkEvent} (h : ReadOf d c messages events)
    (hd : System.Reach (deployment P) System.Any d) (hu : P.username c = some username) :
    ∃ farewell, (d.clients c).processed <+: events ++ farewell ∧ Parts farewell := by
  have hchannelled := channelled_of_reach (client_of_reach hd hu)
  have hframes := (wired_of_reach hd).heard c (by rw [hu]; rfl)
  obtain ⟨farewell, hmade, hparts⟩ := made_of_frames hchannelled.stops (hframes ▸ h.processed)
  refine ⟨farewell, ?_, hparts⟩
  rw [← hmade]
  exact (List.take_prefix _ _).trans hchannelled.sent

/-- An event processed was conveyed by a message, or is that the connection ended. -/
theorem conveys_of_processed (hd : System.Reach (deployment P) System.Any d) (hu : P.username c = some username)
    {event : NetworkEvent} (h : event ∈ (d.clients c).processed) :
    (∃ message ∈ d.sentTo c, Conveys d.world.trace message event) ∨ ∃ reason, event = .disconnected reason := by
  obtain ⟨messages, events, hread⟩ := exists_readOf hd hu
  obtain ⟨farewell, hpre, hparts⟩ := hread.events hd hu
  rcases List.mem_append.1 (hpre.subset h) with hmem | hmem
  · obtain ⟨message, hm, hev⟩ := exists_of_forall₂ hread.conveys hmem
    exact .inl ⟨message, hread.first.subset hm, hev⟩
  · rcases hparts with rfl | rfl | ⟨e, rfl⟩
    · cases hmem
    · exact .inr ⟨_, List.mem_singleton.1 hmem⟩
    · exact .inr ⟨_, List.mem_singleton.1 hmem⟩

/-- What a client shows: the first of the events of these messages, and of no others. -/
structure Shown (d : Deployment) (c : Nat) (username : Str) (messages : List Bytes) : Prop where
  events : ∃ events farewell, List.Forall₂ (Conveys d.world.trace) messages events ∧ Parts farewell ∧
    (d.clients c).processed <+: events ++ farewell
  follows : Follows username (d.clients c).processed (d.clients c).app

/-- **What a client shows** are the first of the messages sent to it, in order and each once.  Unless a broadcast
found no room for it these are of what was addressed to it: what was replayed, and then what was broadcast since it
registered. -/
theorem shown_in_order (hd : System.Reach (deployment P) System.Any d) (hu : P.username c = some username) :
    ∃ messages, Shown d c username messages ∧ messages <+: d.sentTo c ∧
      ∀ s, (d.world.conns c).handler.session = some s → s.token ∉ failed d.world.trace →
        messages <+: addressed s.token (d.world.conns c).addr d.world.trace := by
  obtain ⟨messages, events, h⟩ := exists_readOf hd hu
  obtain ⟨farewell, hpre, hparts⟩ := h.events hd hu
  refine ⟨messages, ⟨⟨events, farewell, h.conveys, hparts, hpre⟩, follows_of_reach (client_of_reach hd hu)⟩, h.first,
    fun s hs hf => h.first.trans ?_⟩
  obtain ⟨hsound, hr⟩ := sound_of_reach (world_of_reach hd)
  rw [sentTo, hs]
  exact fed_ever hr ((hsound.bound c).registered s hs) hf

/-- The session is ready, and nothing is on its way to its client: the writer waits for messages, and what it wrote was
read and processed. -/
structure Settled (d : Deployment) (c : Nat) (s : Session) : Prop where
  ready : ∃ p ∈ d.world.st.delivering, p.2.token = s.token ∧ p.2.ready = true
  writer : (d.world.conns c).writer = .running s .recv
  received : (d.world.st.channels s.token).queued = []
  read : (d.down c).position = (d.written c).length
  reader : (d.clients c).reader = .reading
  processed : (d.clients c).events.queued = []
  opened : (d.clients c).events.closed = false

theorem Settled.session (hd : System.Reach (deployment P) System.Any d) {s : Session} (h : Settled d c s) :
    (d.world.conns c).handler.session = some s :=
  ((sound_of_reach (world_of_reach hd)).1.bound c).writer s (by rw [h.writer]; rfl)

/-- A settled client is delivered to at its address. -/
theorem Settled.delivers (hd : System.Reach (deployment P) System.Any d) {s : Session} (h : Settled d c s) :
    ∃ client, ((d.world.conns c).addr, client) ∈ d.world.st.delivering ∧ client.token = s.token ∧
      client.ready = true := by
  obtain ⟨hsound, hr⟩ := sound_of_reach (world_of_reach hd)
  obtain ⟨p, hp, ht, hready⟩ := h.ready
  have hid := (fed_of_reach hr).consistent.same.mem_iff.1 (mem_deliveryIds.2 ⟨p.2, hp, rfl⟩)
  have hregistered := (((tracked_of_reach hr).live _ _).1 hid).1
  have haddr : (d.world.conns c).addr = p.1 :=
    registered_unique hr ((hsound.bound c).registered s (h.session hd)) (ht ▸ hregistered)
  exact ⟨p.2, haddr ▸ hp, ht, hready⟩

/-- The first of some messages, if they are as long as all, are all. -/
theorem eq_of_flatten_eq {messages sent : List Bytes} (part : Bytes) (hp : messages <+: sent) (hne : ∀ m ∈ sent, m ≠ [])
    (h : messages.flatten = sent.flatten ++ part) : messages = sent := by
  obtain ⟨rest, rfl⟩ := hp
  have hrest : rest.flatten = [] := by
    rw [List.flatten_append, List.append_assoc, List.self_eq_append_right, List.append_eq_nil_iff] at h
    exact h.1
  cases rest with
  | nil => exact (List.append_nil _).symm
  | cons m rest =>
    rw [List.flatten_cons, List.append_eq_nil_iff] at hrest
    exact absurd hrest.1 (hne m (List.mem_append_right _ List.mem_cons_self))

/-- What a settled client processed conveys all that was addressed to it. -/
theorem conveys_of_settled (hd : System.Reach (deployment P) System.Any d) (hu : P.username c = some username)
    {s : Session} (hset : Settled d c s) (hf : s.token ∉ failed d.world.trace) :
    List.Forall₂ (Conveys d.world.trace) (addressed s.token (d.world.conns c).addr d.world.trace)
      (d.clients c).processed := by
  have hchannelled := channelled_of_reach (client_of_reach hd hu)
  have hwired := wired_of_reach hd
  have hfed := fed_of_reach (sound_of_reach (world_of_reach hd)).2
  have hsentTo : d.sentTo c = (d.world.st.channels s.token).sent := by rw [sentTo, hset.session hd]
  -- what is addressed to it is what was sent to it
  have hsent : d.sentTo c = addressed s.token (d.world.conns c).addr d.world.trace := by
    obtain ⟨client, hp, ht, hready⟩ := hset.delivers hd
    have h := hfed.fed _ hp (ht ▸ hf)
    rw [hfed.readied _ hp hready, List.append_nil, hfed.consistent.addr _ hp, ht] at h
    exact hsentTo.trans h
  -- what was sent is what it read
  obtain ⟨messages, events, hread⟩ := exists_readOf hd hu
  have hall : messages = d.sentTo c := by
    refine eq_of_flatten_eq [] hread.first (fun m hm => ?_) ?_
    · obtain ⟨event, hev⟩ := conveys_of_sentTo hd m hm
      obtain ⟨kind, payload, henc⟩ := hev.encoded
      exact ne_nil_of_encodeFrame henc
    · have hbytes := (hwired.down c (by rw [hu]; rfl)).encoded
      rw [hset.read, List.take_length, encodeAll_of_forall₂ hread.frames] at hbytes
      have hwrote := hwired.wrote c
      rw [hset.writer] at hwrote
      have hreceived : (d.world.st.channels s.token).sent.length ≤ (d.world.st.channels s.token).received :=
        List.drop_eq_nil_iff.1 hset.received
      rw [Except.ok.inj hbytes, show d.written c = _ from hwrote, List.take_of_length_le hreceived, List.append_nil,
        hsentTo]
  -- what it read it processed
  have hheard : made (d.clients c).heard = (d.clients c).processed := by
    rw [← hchannelled.order hset.opened, ← Runtime.processed_append_queued, hset.processed, hset.reader]
    simp [ReaderPc.pending]
  have hevents : made (d.clients c).heard = events := by
    have hgoes := hchannelled.goes (by rw [hset.reader]; rfl)
    rw [heard_eq hgoes, hwired.heard c (by rw [hu]; rfl), made_frames hread.processed]
  rw [← hheard, hevents, ← hsent, ← hall]
  exact hread.conveys

/-- **What a settled client shows** is all that the server addressed to it, each message once and in order. -/
theorem shown_all (hd : System.Reach (deployment P) System.Any d) (hu : P.username c = some username) {s : Session}
    (hset : Settled d c s) (hf : s.token ∉ failed d.world.trace) :
    List.Forall₂ (Conveys d.world.trace) (addressed s.token (d.world.conns c).addr d.world.trace)
      (d.clients c).processed ∧ Follows username (d.clients c).processed (d.clients c).app :=
  ⟨conveys_of_settled hd hu hset hf, follows_of_reach (client_of_reach hd hu)⟩

/-! ## Alice alone -/

/-- Our client at connection 0 is alice; who is at the others is a stranger. -/
def aliceAlone : Peers := ⟨fun _ => [], lit "localhost", fun c => if c = 0 then some (lit "alice") else none⟩

/-- A frame that arrives at once. -/
def arrives {ε : Type} (frame : Except ε Bytes) : Source := [.data (frame.toOption.getD [])]

/-- Our client connects, and its handler registers it, replays so many messages and broadcasts its presence and join. -/
def comes (c : Nat) (addr : SocketAddr) (name : String) (messages : Nat) : List Occurrence :=
  [.client c (.start (.connected .ok)), .server (.accept c addr), .server (.handler c .go), .server (.handler c .go),
    .handlerReads c (arrives (encodeFrame .handshake (toBytes (lit name)))), .server (.handler c .go)] ++
  (replays c messages ++ enters c).map .server

/-- A writer writes the next message. -/
def writes (c : Nat) : List Occurrence := [.server (.writer c .go), .writerWrites c .ok]

/-- A reader reads a frame, and sends the event. -/
def hears (c : Nat) (src : Source) : List Occurrence := [.clientReads c src, .client c .send]

/-- She comes, and is told who there is and that she joined. -/
def aliceComes : List Occurrence :=
  comes 0 aliceAddr "alice" 0 ++ writes 0 ++ writes 0 ++ hears 0 (arrives (presenceFrame [lit "alice"])) ++
  hears 0 (arrives (chatFrame (trimEnd (joinMessage (lit "alice"))))) ++
  [.client 0 .turn, .client 0 .tryRecv, .client 0 .tryRecv]

theorem shown_in_order_alice : ∃ d, (d.clients 0).processed.length = 2 ∧ ∃ messages,
    Shown d 0 (lit "alice") messages ∧ messages <+: d.sentTo 0 ∧
      ∀ s, (d.world.conns 0).handler.session = some s → s.token ∉ failed d.world.trace →
        messages <+: addressed s.token (d.world.conns 0).addr d.world.trace := by
  obtain ⟨d, hd, ht⟩ := System.exists_of_run (evaluated aliceAlone) (fun d => (d.clients 0).processed.length == 2)
    aliceComes (by decide +kernel)
  exact ⟨d, by simpa using ht, shown_in_order (reach_of_evaluated hd) rfl⟩

def settles (d : Deployment) (c : Nat) : Bool :=
  (match (d.world.conns c).writer with
    | .running s .recv => (d.world.st.channels s.token).queued.isEmpty && decide (s.token ∉ failed d.world.trace) &&
      d.world.st.delivering.any fun p => p.2.token == s.token && p.2.ready
    | _ => false) &&
  (d.down c).position == (d.written c).length && decide ((d.clients c).reader = .reading) &&
  (d.clients c).events.queued.isEmpty && !(d.clients c).events.closed

theorem settled_of_settles {d : Deployment} (h : d.settles c = true) : ∃ s, Settled d c s ∧
    s.token ∉ failed d.world.trace := by
  unfold settles at h
  simp only [Bool.and_eq_true, beq_iff_eq, decide_eq_true_eq, List.isEmpty_iff, Bool.not_eq_true'] at h
  obtain ⟨⟨⟨⟨hw, hread⟩, hreader⟩, hprocessed⟩, hopened⟩ := h
  split at hw
  · rename_i s hwriter
    simp only [Bool.and_eq_true, List.isEmpty_iff, decide_eq_true_eq, List.any_eq_true, beq_iff_eq] at hw
    obtain ⟨⟨hq, hf⟩, hready⟩ := hw
    exact ⟨s, ⟨hready, hwriter, hq, hread, hreader, hprocessed, hopened⟩, hf⟩
  · cases hw

theorem shown_all_alice : ∃ d s, Settled d 0 s ∧ (d.clients 0).processed.length = 2 ∧
    List.Forall₂ (Conveys d.world.trace) (addressed s.token (d.world.conns 0).addr d.world.trace)
      (d.clients 0).processed ∧ Follows (lit "alice") (d.clients 0).processed (d.clients 0).app := by
  obtain ⟨d, hd, ht⟩ := System.exists_of_run (evaluated aliceAlone)
    (fun d => d.settles 0 && (d.clients 0).processed.length == 2) aliceComes (by decide +kernel)
  rw [Bool.and_eq_true, beq_iff_eq] at ht
  obtain ⟨s, hset, hf⟩ := settled_of_settles ht.1
  exact ⟨d, s, hset, ht.2, shown_all (reach_of_evaluated hd) rfl hset hf⟩

end Deployment
end Drocsid
