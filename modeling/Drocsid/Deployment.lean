import Drocsid.Ending
import Drocsid.Carriage
/-!
# Deployment — the server, and the clients at the other end of its connections

A connection's handler reads what its client wrote, and its client what its writer wrote: each read runs the reader's
own code on some of the bytes written and not read yet, handed on in any chunks and among any errors.  Who is at the
other end of a connection may also be a stranger, who sends anything.  Every run of it is a run of the server and of
each client (`world_of_reach`, `client_of_reach`).
-/
namespace Drocsid

open Text ByteSource Protocol Server Client

/-- Who is at the other end of the connections: the username our client there was started with, or a stranger. -/
structure Peers where
  display    : Reason → Str
  serverAddr : Str
  username   : Nat → Option Str

structure Deployment where
  world   : World
  clients : Nat → Runtime
  /-- What each handler read. -/
  up      : Nat → Receipt
  /-- The bytes each writer wrote. -/
  written : Nat → Bytes
  /-- What each client's reader read of them. -/
  down    : Nat → Receipt

inductive Occurrence
  | server (l : Label)
  | handlerReads (c : Nat) (src : Source)
  | writerWrites (c : Nat) (outcome : Written)
  | client (c : Nat) (a : Action)
  | clientReads (c : Nat) (src : Source)

/-- A read of a handler, or a write of a writer. -/
def Server.Label.transports : Label → Bool
  | .handler _ (.frame _) | .writer _ (.written _) => true
  | _ => false

/-- A read of the client. -/
def Client.Action.reads : Action → Bool
  | .read _ => true
  | _ => false

/-- The messages a writer that goes on received and wrote. -/
def Server.WriterPc.passed (channels : Channels) : WriterPc → List Bytes
  | .running s .recv => (channels s.token).sent.take (channels s.token).received
  | .running s .write => (channels s.token).sent.take ((channels s.token).received - 1)
  | _ => []

def Server.World.passed (w : World) (c : Nat) : List Bytes := (w.conns c).writer.passed w.st.channels

/-- The message a session's writer has in hand. -/
def Server.World.inHand (w : World) (s : Session) : Bytes :=
  ((w.st.channels s.token).sent.drop ((w.st.channels s.token).received - 1)).headD []

namespace Deployment

section

variable (P : Peers)

def init : Deployment where
  world   := .init
  clients := fun c => .init ((P.username c).getD []) P.serverAddr
  up      := fun _ => .new
  written := fun _ => []
  down    := fun _ => .new

/-- A handler goes on with what its read returns. -/
def handlerHears (d : Deployment) (c : Nat) (src : Source) (r : Except ServerError (Option Frame) × Source) :
    Option Deployment :=
  if (P.username c).isNone || (d.up c).admits (d.clients c).socket.bytes src then
    (server.step d.world (.handler c (.frame r.1))).map fun world =>
      { d with world, up := Function.update d.up c ((d.up c).after src r) }
  else none

/-- A client's reader goes on with what its read returns. -/
def clientHears (d : Deployment) (c : Nat) (src : Source) (r : Except FrameError (Option Frame) × Source) :
    Option Deployment :=
  (P.username c).bind fun username =>
    if (d.down c).admits (d.written c) src then
      (Runtime.step P.display username (d.clients c) (.read r.1)).map fun client =>
        { d with clients := Function.update d.clients c client
                 down := Function.update d.down c ((d.down c).after src r) }
    else none

def step (d : Deployment) : Occurrence → Option Deployment
  | .server l =>
    if l.transports then none
    -- a section that sends on a channel may leave its receiver the time to write what it received
    else (server.step d.world l).map fun world => { d with
      world, written := fun c => d.written c ++ ((world.passed c).drop (d.world.passed c).length).flatten }
  | .handlerReads c src => d.handlerHears P c src (readAsyncFrame src)
  | .writerWrites c outcome =>
    match (d.world.conns c).writer with
    | .running s .write =>
      (server.step d.world (.writer c (.written (decide (outcome = .ok))))).map fun world =>
        { d with world, written := Function.update d.written c (d.written c ++ outcome.of (d.world.inHand s)) }
    | _ => none
  | .client c a => (P.username c).bind fun username =>
    if a.reads then none
    else (Runtime.step P.display username (d.clients c) a).map fun r =>
      { d with clients := Function.update d.clients c r }
  | .clientReads c src => d.clientHears P c src (readFrame src)

end

end Deployment

def deployment (P : Peers) : System Deployment Occurrence := ⟨.init P, Deployment.step P⟩

namespace Deployment

variable {P : Peers} {d d' : Deployment} {o : Occurrence}

/-- An occurrence, by the step of the server or of a client that it is. -/
inductive Happens (P : Peers) (d : Deployment) : Deployment → Prop
  | server {l world} (hl : l.transports = false) (h : server.step d.world l = some world) : Happens P d
      { d with world, written := fun c => d.written c ++ ((world.passed c).drop (d.world.passed c).length).flatten }
  | handlerReads {c src world}
      (ha : (P.username c).isSome = true → (d.up c).admits (d.clients c).socket.bytes src = true)
      (h : server.step d.world (.handler c (.frame (readAsyncFrame src).1)) = some world) : Happens P d
      { d with world, up := Function.update d.up c ((d.up c).after src (readAsyncFrame src)) }
  | writerWrites {c s world} {outcome : Written} (hw : (d.world.conns c).writer = .running s .write)
      (h : server.step d.world (.writer c (.written (decide (outcome = .ok)))) = some world) : Happens P d
      { d with world, written := Function.update d.written c (d.written c ++ outcome.of (d.world.inHand s)) }
  | client {c a username r} (hu : P.username c = some username) (ha : a.reads = false)
      (h : Runtime.step P.display username (d.clients c) a = some r) : Happens P d
      { d with clients := Function.update d.clients c r }
  | clientReads {c src username r} (hu : P.username c = some username) (ha : (d.down c).admits (d.written c) src = true)
      (h : Runtime.step P.display username (d.clients c) (.read (readFrame src).1) = some r) : Happens P d
      { d with clients := Function.update d.clients c r,
               down := Function.update d.down c ((d.down c).after src (readFrame src)) }

theorem happens_of_step (h : (deployment P).step d o = some d') : Happens P d d' := by
  replace h : Deployment.step P d o = some d' := h
  cases o with
  | server l =>
    rw [Deployment.step] at h
    split at h
    · cases h
    · rename_i hl
      obtain ⟨world, hw, rfl⟩ := Option.map_eq_some_iff.1 h
      exact .server (Bool.eq_false_iff.2 hl) hw
  | handlerReads c src =>
    rw [Deployment.step, handlerHears] at h
    split at h
    · rename_i ha
      obtain ⟨world, hw, rfl⟩ := Option.map_eq_some_iff.1 h
      refine .handlerReads (fun hu => ?_) hw
      rw [Bool.or_eq_true] at ha
      refine ha.resolve_left fun hn => ?_
      rw [Option.isNone_iff_eq_none.1 hn] at hu
      cases hu
    · cases h
  | writerWrites c outcome =>
    rw [Deployment.step] at h
    split at h
    · rename_i hw
      obtain ⟨world, hstep, rfl⟩ := Option.map_eq_some_iff.1 h
      exact .writerWrites hw hstep
    · cases h
  | client c a =>
    obtain ⟨username, hu, h⟩ := Option.bind_eq_some_iff.1 h
    split at h
    · cases h
    · rename_i ha
      obtain ⟨r, hr, rfl⟩ := Option.map_eq_some_iff.1 h
      exact .client hu (Bool.eq_false_iff.2 ha) hr
  | clientReads c src =>
    obtain ⟨username, hu, h⟩ := Option.bind_eq_some_iff.1 h
    split at h
    · rename_i ha
      obtain ⟨r, hr, rfl⟩ := Option.map_eq_some_iff.1 h
      exact .clientReads hu ha hr
    · cases h

/-! ## The runs in it -/

/-- The step of the server that an occurrence is, if it is one. -/
def label : Occurrence → Option Label
  | .server l => some l
  | .handlerReads c src => some (.handler c (.frame (readAsyncFrame src).1))
  | .writerWrites c outcome => some (.writer c (.written (decide (outcome = .ok))))
  | .client .. | .clientReads .. => none

theorem world_of_step (h : (deployment P).step d o = some d') :
    (∃ l, label o = some l ∧ server.step d.world l = some d'.world) ∨ d'.world = d.world := by
  replace h : Deployment.step P d o = some d' := h
  cases o with
  | server l =>
    rw [Deployment.step] at h
    split at h
    · cases h
    · obtain ⟨world, hw, rfl⟩ := Option.map_eq_some_iff.1 h
      exact .inl ⟨l, rfl, hw⟩
  | handlerReads c src =>
    rw [Deployment.step, handlerHears] at h
    split at h
    · obtain ⟨world, hw, rfl⟩ := Option.map_eq_some_iff.1 h
      exact .inl ⟨_, rfl, hw⟩
    · cases h
  | writerWrites c outcome =>
    rw [Deployment.step] at h
    split at h
    · obtain ⟨world, hw, rfl⟩ := Option.map_eq_some_iff.1 h
      exact .inl ⟨_, rfl, hw⟩
    · cases h
  | client c a =>
    obtain ⟨username, -, h⟩ := Option.bind_eq_some_iff.1 h
    split at h
    · cases h
    · obtain ⟨r, -, rfl⟩ := Option.map_eq_some_iff.1 h
      exact .inr rfl
  | clientReads c src =>
    obtain ⟨username, -, h⟩ := Option.bind_eq_some_iff.1 h
    split at h
    · obtain ⟨r, -, rfl⟩ := Option.map_eq_some_iff.1 h
      exact .inr rfl
    · cases h

/-- The steps of the server in a run are such steps. -/
def Guards (G : World → Label → Prop) (d : Deployment) (o : Occurrence) : Prop := ∀ l, label o = some l → G d.world l

/-- **A run of the deployment is a run of its server**, of such steps as those in it. -/
theorem world_of_guarded {G : World → Label → Prop} (hd : System.Reach (deployment P) (Guards G) d) :
    System.Reach server G d.world := by
  refine hd.invariant (I := fun d => System.Reach server G d.world) .init fun d o d' _ ih hG hstep => ?_
  rcases world_of_step hstep with ⟨l, hl, h⟩ | h
  · exact .step ih (hG l hl) h
  · exact h ▸ ih

theorem world_of_reach {G : Deployment → Occurrence → Prop} (hd : System.Reach (deployment P) G d) :
    System.Reach server System.Any d.world :=
  world_of_guarded (hd.mono fun _ _ _ _ _ => trivial)

/-- **A run of the deployment is a run of each of its clients.** -/
theorem client_of_reach {G : Deployment → Occurrence → Prop} (hd : System.Reach (deployment P) G d) {c : Nat}
    {username : Str} (hu : P.username c = some username) :
    System.Reach (client P.display username P.serverAddr) System.Any (d.clients c) := by
  refine hd.invariant
    (I := fun d => System.Reach (client P.display username P.serverAddr) System.Any (d.clients c)) ?_
    fun d o d' _ ih _ hstep => ?_
  · show System.Reach _ _ (Runtime.init ((P.username c).getD []) P.serverAddr)
    rw [hu]
    exact .init
  · have hnext : ∀ {b name r a}, P.username b = some name →
        Runtime.step P.display name (d.clients b) a = some r →
        System.Reach (client P.display username P.serverAddr) System.Any (Function.update d.clients b r c) := by
      intro b name r a hb h
      by_cases hc : c = b
      · subst hc
        cases hu.symm.trans hb
        rw [Function.update_self]
        exact .step ih trivial h
      · rw [Function.update_of_ne hc]
        exact ih
    cases happens_of_step hstep with
    | server | handlerReads | writerWrites => exact ih
    | client hb _ h | clientReads hb _ h => exact hnext hb h

/-! ## Runs evaluated -/

/-- An occurrence, where a read finds bytes without errors, by what it decodes of them. -/
def evaluate (P : Peers) (d : Deployment) : Occurrence → Option Deployment
  | .handlerReads c [.data (b :: bs)] =>
    d.handlerHears P c [.data (b :: bs)] (Receipt.decoded checkAsyncHeader .truncatedProtocolFrame [.data (b :: bs)])
  | .clientReads c [.data (b :: bs)] =>
    d.clientHears P c [.data (b :: bs)] (Receipt.decoded checkHeader .truncated [.data (b :: bs)])
  | .handlerReads .. | .clientReads .. => none
  | o => step P d o

theorem step_of_evaluate (h : evaluate P d o = some d') : step P d o = some d' := by
  have hc : ∀ (b : UInt8) (bs : Bytes), Chunked [.data (b :: bs)] := fun b bs => by simp [Chunked]
  unfold evaluate at h
  split at h
  · rename_i c b bs
    obtain ⟨hresult, hafter⟩ := Receipt.after_decoded decodes_readAsyncFrame (hc b bs) (d.up c)
    rw [step, ← h, handlerHears, handlerHears, hresult, hafter]
  · rename_i c b bs
    obtain ⟨hresult, hafter⟩ := Receipt.after_decoded decodes_readFrame (hc b bs) (d.down c)
    rw [step, ← h, clientHears, clientHears, hresult, hafter]
  · cases h
  · cases h
  · exact h

def evaluated (P : Peers) : System Deployment Occurrence := ⟨.init P, evaluate P⟩

theorem reach_of_evaluated {G : Deployment → Occurrence → Prop} (hd : System.Reach (evaluated P) G d) :
    System.Reach (deployment P) G d := by
  induction hd with
  | init => exact .init
  | step _ hG hstep ih => exact .step ih hG (step_of_evaluate hstep)

end Deployment

end Drocsid
