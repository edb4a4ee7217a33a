import Drocsid.Turn
import Drocsid.Tracked
/-!
# Simulation — the server's steps are sections

What a task writes is written for its own session: a call goes through the sections of its purpose (`Running.Serves`)
and leaves their events (`Event.From`).  With the barrier held by the one task inside it (`Sound`), every step of the
server is a section of `sections` or none (`simulates`), so all that holds of any callers holds of the server.
-/
namespace Drocsid

open Text Protocol

namespace Server

/-! ## Whose a task is, and what it holds -/

/-- The session of a handler, from its registration on. -/
def HandlerPc.session : HandlerPc → Option Session
  | .serving s _ => some s
  | .dropPermit s | .dropGlobal s | .returned s => s
  | _ => none

def WriterPc.session : WriterPc → Option Session
  | .unspawned => none
  | .running s _ | .ended s => some s

/-- What a call does next under the barrier, if it holds it. -/
def Running.held : Running → Option Critical
  | .critical c => some c
  | _ => none

def HandlerPc.held : HandlerPc → Option Critical
  | .serving _ (.calling _ call) => call.held
  | _ => none

def WriterPc.held : WriterPc → Option Critical
  | .running _ (.posting call) | .running _ (.presenting call) => call.held
  | _ => none

def World.held (w : World) : Task → Option Critical
  | .handler c => (w.conns c).handler.held
  | .writer c => (w.conns c).writer.held

/-- The world, as any callers make it. -/
def World.shared (w : World) : Shared := ⟨w.st, w.barrier.bind w.held, w.trace⟩

def Label.task : Label → Option Task
  | .handler c _ => some (.handler c)
  | .writer c _ => some (.writer c)
  | _ => none

theorem Resumes.session {s : Session} {next : After} {result : Except ServerError Bool} {pc : HandlerPc}
    (h : Resumes s next result pc) : pc.session = some s ∧ pc.held = none := by
  cases h with
  | @abandons _ mode => cases mode <;> exact ⟨rfl, rfl⟩
  | replayed | presented | unencoded | joinDropped | joined | joinPresented | chatDropped | chatted | chatPresented
  | left | leavePresented | failed => exact ⟨rfl, rfl⟩

@[simp] theorem session_afterRemoval (s : Session) (mode : FinishMode) (removed joined : Bool) :
    (afterRemoval s mode removed joined).session = some s ∧ (afterRemoval s mode removed joined).held = none := by
  unfold afterRemoval
  split
  · split
    · exact ⟨rfl, rfl⟩
    · cases mode <;> exact ⟨rfl, rfl⟩
  · exact ⟨rfl, rfl⟩

@[simp] theorem session_received (s : Session) (result : Except ServerError (Option Frame)) :
    (received s result).session = some s ∧ (received s result).held = none := by
  unfold received
  split
  · exact ⟨rfl, rfl⟩
  · exact ⟨rfl, rfl⟩
  · split <;> exact ⟨rfl, rfl⟩

theorem HandlerPc.Waits.same {pc pc' : HandlerPc} (h : pc.Waits pc') : pc'.session = pc.session ∧
    pc'.held = pc.held := by
  cases h with
  | resume => exact (resumes_resume _ _ _).session
  | received => exact session_received _ _
  | timeout | refused | named | disconnected | limited | allowed | slept | tooLong => exact ⟨rfl, rfl⟩

theorem WritePc.Waits.held {s : Session} {joined : Bool} {pc pc' : WritePc} (h : pc.Waits s joined pc') :
    (WriterPc.running s pc').held = (WriterPc.running s pc).held := by
  cases h <;> rfl

/-- A step goes on with the session its connection has, or registers a new one. -/
theorem Turn.session {w w' : World} {c : Nat} {l : Label} {conn : Conn} (h : Turn w c l w' conn) :
    conn.handler.session = (w.conns c).handler.session ∨ (w.conns c).handler.session = none ∧
      ∃ s, conn.handler.session = some s ∧ s.token = w.st.nextToken ∧
        w'.trace = .registered s.token conn.addr :: w.trace := by
  cases h with
  | registered hh hr =>
    obtain ⟨rfl, -⟩ := registerClientWithStatus_ok hr
    exact .inr ⟨by rw [hh]; rfl, _, rfl, rfl, rfl⟩
  | wait hh hw => exact .inl (by rw [hh]; exact hw.same.1)
  | finish hh _ => exact .inl (by rw [hh]; exact (session_afterRemoval _ _ _ _).1)
  | accept hh | acquired hh | full hh | admitted hh | refused hh | unregistered hh | named hh | unnamed hh
  | unregister hh | call hh | storeJoined hh | dropPermit hh | dropGlobal hh => exact .inl (by rw [hh]; rfl)
  | receive | remove | writerCall | writerWait | stop => exact .inl rfl

/-- Only a handler that names its client starts a writer, of the same session. -/
theorem Turn.writerSession {w w' : World} {c : Nat} {l : Label} {conn : Conn} (h : Turn w c l w' conn) :
    conn.writer.session = (w.conns c).writer.session ∨ conn.writer.session = none ∨
      conn.writer.session = conn.handler.session := by
  cases h with
  | accept => exact .inr (.inl rfl)
  | named => exact .inr (.inr rfl)
  | receive hw | remove hw | writerCall hw | writerWait hw | stop hw => exact .inl (by rw [hw]; rfl)
  | acquired | full | admitted | refused | registered | unregistered | unnamed | unregister | call | storeJoined
  | finish | wait | dropPermit | dropGlobal => exact .inl rfl

/-! ## What a call is for -/

inductive Purpose
  | replay | post (kind : PostKind) | presence
  deriving DecidableEq

def After.purpose : After → Purpose
  | .history => .replay
  | .join => .post .join
  | .chat => .post .chat
  | .leave _ => .post .leave
  | .presence | .joinPresence | .chatPresence | .leavePresence _ => .presence

/-- The sections of a call under the barrier, for a session. -/
inductive Critical.Serves (a : SocketAddr) (t : ClientToken) : Purpose → Critical → Prop
  | lookup : Serves a t .replay (.lookup a t)
  | snapshot {writer} : Serves a t .replay (.snapshot a t writer)
  | replay {writer history} : Serves a t .replay (.replay a t writer history)
  | replayed {result} : Serves a t .replay (.replayed result)
  | record {post kind} (hs : post.session = t) (hk : post.kind = kind) : Serves a t (.post kind) (.record post none)
  | deliver {post kind} (hs : post.session = t) (hk : post.kind = kind) : Serves a t (.post kind) (.deliver post none)
  | drop {kind doomed dropped} : Serves a t (.post kind) (.drop doomed dropped)

/-- The sections of a call for a session. -/
inductive Running.Serves (a : SocketAddr) (t : ClientToken) : Purpose → Running → Prop
  | lockReplay : Serves a t .replay .lockReplay
  | lockRecord {post kind} (hs : post.session = t) (hk : post.kind = kind) : Serves a t (.post kind) (.lockRecord post)
  | critical {p c} (h : c.Serves a t p) : Serves a t p (.critical c)
  | prune : Serves a t .presence .prune
  | pruned {doomed} : Serves a t .presence (.pruned doomed)
  | present {users taken} : Serves a t .presence (.present users taken)
  | drop {doomed dropped} : Serves a t .presence (.drop doomed dropped)
  | done {p result} : Serves a t p (.done result)

/-- The events a call for a session leaves. -/
inductive Event.From (t : ClientToken) : Purpose → Event → Prop
  | removed {p u} : From t p (.removed u)
  | snapshot {history} : From t .replay (.snapshot t history)
  | replayed {frame} : From t .replay (.replayed t frame)
  | ready : From t .replay (.ready t)
  | recorded {post kind} (hs : post.session = t) (hk : post.kind = kind) : From t (.post kind) (.recorded post)
  | posted {frame doomed post kind} (hs : post.session = t) (hk : post.kind = kind) :
    From t (.post kind) (.broadcast frame none doomed (some post))
  | presented {frame doomed} : From t .presence (.broadcast frame none doomed none)

theorem from_removedEvent {t u : ClientToken} {removed : Bool} {p : Purpose} {e : Event}
    (he : e ∈ removedEvent u removed) : e.From t p := by
  cases removed with
  | false => cases he
  | true => cases List.mem_singleton.1 he; exact .removed

theorem Critical.Serves.step {a : SocketAddr} {t : ClientToken} {p : Purpose} {c c' : Critical} {st st' : ServerState}
    {rx : List Rx} {events : List Event} (hs : c.Serves a t p) (h : c.step st rx = some (st', c', events)) :
    c'.Serves a t p ∧ ∀ e ∈ events, e.From t p := by
  have hone : ∀ e : Event, e.From t p → ∀ e' ∈ [e], e'.From t p := fun e he e' he' => List.mem_singleton.1 he' ▸ he
  have hnil : ∀ e ∈ ([] : List Event), e.From t p := by
    intro e he
    cases he
  cases advances_of_step h with
  | unknown | unencoded | refused | unreadied => cases hs; exact ⟨.replayed, hnil⟩
  | found => cases hs; exact ⟨.snapshot, hnil⟩
  | snapshot => cases hs; exact ⟨.replay, hone _ .snapshot⟩
  | replayed => cases hs; exact ⟨.replay, hone _ .replayed⟩
  | readied => cases hs; exact ⟨.replayed, hone _ .ready⟩
  | record => cases hs with | record ht hk => exact ⟨.deliver ht hk, hone _ (.recorded ht hk)⟩
  | deliver => cases hs with | deliver ht hk => exact ⟨.drop, hone _ (.posted ht hk)⟩
  | drop => cases hs; exact ⟨.drop, fun e => from_removedEvent⟩

theorem CallTurn.serves {w w' : World} {me : Task} {a : SocketAddr} {t : ClientToken} {rx : List Rx} {p : Purpose}
    {call call' : Running} (h : CallTurn w me a t rx call w' call') (hs : call.Serves a t p) :
    call'.Serves a t p ∧ ∃ events, w'.trace = events ++ w.trace ∧ ∀ e ∈ events, e.From t p := by
  have hone : ∀ e : Event, e.From t p → ∀ e' ∈ [e], e'.From t p := fun e he e' he' => List.mem_singleton.1 he' ▸ he
  cases h with
  | lockReplay => cases hs; exact ⟨.critical .lookup, [], rfl, nofun⟩
  | lockRecord => cases hs with | lockRecord ht hk => exact ⟨.critical (.record ht hk), [], rfl, nofun⟩
  | unlock => exact ⟨.done, [], rfl, nofun⟩
  | advance _ hc =>
    cases hs with
    | critical hs =>
      obtain ⟨hs', he⟩ := hs.step hc
      exact ⟨.critical hs', _, rfl, he⟩
  | prune => cases hs; exact ⟨.pruned, [], rfl, nofun⟩
  | prunes => cases hs; exact ⟨.pruned, _, rfl, fun e => from_removedEvent⟩
  | taken => cases hs; exact ⟨.present, [], rfl, nofun⟩
  | unencoded => exact ⟨.done, [], rfl, nofun⟩
  | present => cases hs; exact ⟨.drop, [_], rfl, hone _ .presented⟩
  | drops => cases hs; exact ⟨.drop, _, rfl, fun e => from_removedEvent⟩
  | dropped => exact ⟨.done, [], rfl, nofun⟩

/-- The session an event is of; a removal and a presence are of none. -/
def Event.author : Event → Option ClientToken
  | .registered t _ | .named t | .snapshot t _ | .replayed t _ | .ready t => some t
  | .recorded post | .broadcast _ _ _ (some post) => some post.session
  | .broadcast _ _ _ none | .removed _ => none

theorem Event.From.author {t : ClientToken} {p : Purpose} {e : Event} (h : e.From t p) : ∀ u, e.author = some u →
    u = t := by
  intro u hu
  cases h with
  | removed | presented => cases hu
  | snapshot | replayed | ready => exact (Option.some.inj hu).symm
  | recorded hs | posted hs => exact (Option.some.inj hu).symm.trans hs

/-- What the trace gained is not of the session, but for its removal by another. -/
def Foreign (t : ClientToken) (tr tr' : List Event) : Prop := ∃ events, tr' = events ++ tr ∧
    ∀ e ∈ events, e.author ≠ some t

theorem Foreign.mem {t : ClientToken} {tr tr' : List Event} (h : Foreign t tr tr') {e : Event}
    (he : e.author = some t) : e ∈ tr' ↔ e ∈ tr := by
  obtain ⟨events, rfl, hev⟩ := h
  rw [List.mem_append]
  exact ⟨fun hm => hm.resolve_left fun hm => hev e hm he, .inr⟩

theorem mem_snapshots {t : ClientToken} {tr : List Event} : t ∈ snapshots tr ↔ ∃ history, .snapshot t history ∈ tr := by
  induction tr with
  | nil => simp [snapshots]
  | cons e tr ih =>
    cases e with
    | snapshot u history =>
      rw [snapshots, List.mem_cons, ih]
      simp only [List.mem_cons, Event.snapshot.injEq, exists_or, exists_and_left, exists_eq, and_true]
    | registered | named | replayed | ready | recorded | broadcast | removed =>
      rw [snapshots, ih]
      · simp
      · intro _ _ he
        cases he

/-! ## What holds of a connection -/

/-- A handler's call is for its session. -/
def HandlerPc.Serves (a : SocketAddr) : HandlerPc → Prop
  | .serving s (.calling next call) => call.Serves a s.token next.purpose
  | _ => True

def WriterPc.Serves (a : SocketAddr) : WriterPc → Prop
  | .running s (.posting call) => call.Serves a s.token (.post .leave)
  | .running s (.presenting call) => call.Serves a s.token .presence
  | _ => True

/-- A handler that has its history to replay has not begun to. -/
def HandlerPc.Unreplayed (tr : List Event) : HandlerPc → Prop
  | .serving s .setUsername | .serving s (.calling _ .lockReplay) => s.token ∉ snapshots tr
  | _ => True

/-- The writer, if any, is spawned. -/
def HandlerPc.spawns : HandlerPc → Bool
  | .serving _ .setUsername | .serving _ .unregister => false
  | _ => true

/-- A connection's calls are for its session, which registered and is its writer's. -/
structure Conn.Bound (tr : List Event) (conn : Conn) : Prop where
  handling : conn.handler.Serves conn.addr
  writing : conn.writer.Serves conn.addr
  registered : ∀ s, conn.handler.session = some s → .registered s.token conn.addr ∈ tr
  writer : ∀ s, conn.writer.session = some s → conn.handler.session = some s
  spawned : ∀ s, conn.writer.session = some s → conn.handler.spawns = true
  unreplayed : conn.handler.Unreplayed tr

theorem encode_of {t : ClientToken} {kind : PostKind} {message text : Str}
    {fits : byteLen (historyEntry message) ≤ byteLen text} {post : Post}
    (h : Post.encode t kind message text fits = .ok post) : post.session = t ∧ post.kind = kind := by
  unfold Post.encode at h
  split at h
  · cases h; exact ⟨rfl, rfl⟩
  · cases h

theorem joinPost_of {s : Session} {post : Post} (h : joinPost s = .ok post) : post.session = s.token ∧
    post.kind = .join :=
  encode_of h

theorem leavePost_of {s : Session} {post : Post} (h : leavePost s = .ok post) : post.session = s.token ∧
    post.kind = .leave :=
  encode_of h

theorem chatPost_of {s : Session} {now : HhMm} {content : Str} {post : Post} (h : chatPost s now content = .ok post) :
    post.session = s.token ∧ post.kind = .chat := encode_of h

/-- Where a call that replays no history starts. -/
def Running.isFirst : Running → Bool
  | .lockRecord _ | .prune => true
  | _ => false

/-- A call a handler begins on its way is for its session, and replays no history. -/
def HandlerPc.Begins (a : SocketAddr) : HandlerPc → Prop
  | .serving s (.calling next call) => call.Serves a s.token next.purpose ∧ call.isFirst = true
  | .serving _ .setUsername | .serving _ .unregister => False
  | _ => True

theorem HandlerPc.Begins.serves {a : SocketAddr} {pc : HandlerPc} (h : pc.Begins a) : pc.Serves a := by
  unfold HandlerPc.Serves
  split
  · exact h.1
  · trivial

theorem HandlerPc.Begins.unreplayed {a : SocketAddr} {pc : HandlerPc} (h : pc.Begins a) (tr : List Event) :
    pc.Unreplayed tr := by
  unfold HandlerPc.Unreplayed
  split
  · exact h.elim
  · exact nomatch h.2
  · trivial

theorem HandlerPc.Begins.spawns {a : SocketAddr} {pc : HandlerPc} (h : pc.Begins a) : pc.spawns = true := by
  unfold HandlerPc.spawns
  split
  · exact h.elim
  · exact h.elim
  · rfl

theorem begins_abandon (a : SocketAddr) (s : Session) (mode : FinishMode) : (abandon s mode).Begins a := by
  cases mode <;> trivial

theorem Resumes.begins {s : Session} {next : After} {result : Except ServerError Bool} {pc : HandlerPc}
    (h : Resumes s next result pc) (a : SocketAddr) : pc.Begins a := by
  cases h with
  | replayed | joinDropped | chatDropped | left => exact ⟨.prune, rfl⟩
  | presented hj => exact ⟨.lockRecord (joinPost_of hj).1 (joinPost_of hj).2, rfl⟩
  | abandons => exact begins_abandon a s _
  | unencoded | joined | joinPresented | chatted | chatPresented | leavePresented | failed => trivial

theorem begins_afterRemoval (a : SocketAddr) (s : Session) (mode : FinishMode) (removed joined : Bool) :
    (afterRemoval s mode removed joined).Begins a := by
  unfold afterRemoval
  split
  · split
    · rename_i hl
      exact ⟨.lockRecord (leavePost_of hl).1 (leavePost_of hl).2, rfl⟩
    · exact begins_abandon a s mode
  · trivial

theorem begins_received (a : SocketAddr) (s : Session) (result : Except ServerError (Option Frame)) :
    (received s result).Begins a := by
  unfold received
  split
  · trivial
  · trivial
  · split <;> trivial

theorem HandlerPc.Waits.begins {pc pc' : HandlerPc} (h : pc.Waits pc') (a : SocketAddr) : pc'.Begins a := by
  cases h with
  | resume => exact (resumes_resume _ _ _).begins a
  | received => exact begins_received a _ _
  | slept hp => exact ⟨.lockRecord (chatPost_of hp).1 (chatPost_of hp).2, rfl⟩
  | timeout | refused | named | disconnected | limited | allowed | tooLong => trivial

theorem WritePc.Waits.serves {s : Session} {joined : Bool} {pc pc' : WritePc} (h : pc.Waits s joined pc')
    (a : SocketAddr) : (WriterPc.running s pc').Serves a := by
  cases h with
  | announces _ hp => exact .lockRecord (leavePost_of hp).1 (leavePost_of hp).2
  | unencoded | unjoined | posted => exact .prune
  | gone | written | failed | presented => trivial

/-- A connection that has not named its session has no writer. -/
theorem Conn.Bound.unspawned {tr : List Event} {conn : Conn} (hb : conn.Bound tr)
    (h : conn.handler.session = none ∨ conn.handler.spawns = false) : conn.writer = .unspawned := by
  have hno : ∀ s, conn.writer.session ≠ some s := by
    intro s hs
    rcases h with h | h
    · rw [hb.writer s hs] at h; cases h
    · rw [hb.spawned s hs] at h; cases h
  cases hwr : conn.writer with
  | unspawned => rfl
  | running s pc => exact absurd (by rw [hwr]; rfl) (hno s)
  | ended s => exact absurd (by rw [hwr]; rfl) (hno s)

/-- A writer's call is for its connection's session, and is no replay. -/
theorem Conn.Bound.calls {tr : List Event} {conn : Conn} (hb : conn.Bound tr) {s : Session} {pc : WritePc}
    {call : Running} {goto : Running → WritePc} (hw : conn.writer = .running s pc) (hpc : pc.Calls call goto) :
    conn.handler.session = some s ∧ ∃ p, p ≠ .replay ∧ call.Serves conn.addr s.token p ∧
      ∀ call', call'.Serves conn.addr s.token p → (WriterPc.running s (goto call')).Serves conn.addr := by
  have hserves := hb.writing
  refine ⟨hb.writer s (by rw [hw]; rfl), ?_⟩
  rw [hw] at hserves
  cases hpc with
  | posting => exact ⟨.post .leave, nofun, hserves, fun _ h => h⟩
  | presenting => exact ⟨.presence, nofun, hserves, fun _ h => h⟩

/-- What a step leaves in the trace is of its connection's session. -/
theorem Turn.events {w w' : World} {c : Nat} {l : Label} {conn : Conn} (h : Turn w c l w' conn)
    (hb : (w.conns c).Bound w.trace) : ∃ events, w'.trace = events ++ w.trace ∧
      ∀ e ∈ events, ∀ u, e.author = some u → ∃ s, conn.handler.session = some s ∧ s.token = u := by
  have hcall : ∀ {s p} {me : Task} {rx : List Rx} {call call' : Running},
    CallTurn w me (w.conns c).addr s.token rx call w' call' →
      call.Serves (w.conns c).addr s.token p → conn.handler.session = some s → ∃ events, w'.trace = events ++ w.trace ∧
      ∀ e ∈ events, ∀ u, e.author = some u → ∃ s, conn.handler.session = some s ∧ s.token = u := fun ht hs hsess => by
    obtain ⟨-, events, he, hev⟩ := ht.serves hs
    exact ⟨events, he, fun e hm u hu => ⟨_, hsess, ((hev e hm).author u hu).symm⟩⟩
  have hremoved : ∀ {t u removed e}, e ∈ removedEvent t removed → e.author ≠ some u := fun he hu => by
    cases @from_removedEvent 0 _ _ .presence _ he <;> cases hu
  cases h with
  | registered | named hh =>
    refine ⟨[_], rfl, fun e he u hu => ⟨_, rfl, ?_⟩⟩
    cases List.mem_singleton.1 he
    exact Option.some.inj hu
  | unregister | finish | remove => exact ⟨_, rfl, fun e he u hu => absurd hu (hremoved he)⟩
  | call hh ht =>
    have hs := hb.handling
    rw [hh] at hs
    exact hcall ht hs rfl
  | writerCall hw hpc ht =>
    obtain ⟨hsess, p, -, hs, -⟩ := hb.calls hw hpc
    exact hcall ht hs hsess
  | accept | acquired | full | admitted | refused | unregistered | unnamed | storeJoined | wait | dropPermit
  | dropGlobal | receive | writerWait | stop => exact ⟨[], rfl, nofun⟩

theorem snapshots_of_from {t : ClientToken} {p : Purpose} (hp : p ≠ .replay) {events : List Event}
    (h : ∀ e ∈ events, e.From t p) (tr : List Event) (u : ClientToken) :
    u ∈ snapshots (events ++ tr) ↔ u ∈ snapshots tr := by
  simp only [mem_snapshots, List.mem_append]
  refine exists_congr fun history => ⟨fun hm => hm.resolve_left fun hm => ?_, .inr⟩
  cases h _ hm
  exact hp rfl

theorem HandlerPc.Unreplayed.congr {tr tr' : List Event} {pc : HandlerPc}
    (hs : ∀ s, pc.session = some s → (s.token ∈ snapshots tr' ↔ s.token ∈ snapshots tr)) (h : pc.Unreplayed tr) :
    pc.Unreplayed tr' := by
  unfold HandlerPc.Unreplayed at h ⊢
  split
  · rw [hs _ rfl]; exact h
  · rw [hs _ rfl]; exact h
  · trivial

/-- A step keeps what holds of its connection. -/
theorem Turn.bound {w w' : World} {c : Nat} {l : Label} {conn : Conn} (hfed : Fed w.shared) (h : Turn w c l w' conn)
    (hb : (w.conns c).Bound w.trace) : conn.Bound w'.trace := by
  obtain ⟨events, htr, -⟩ := h.events hb
  have hregistered : ∀ s, conn.handler.session = some s → .registered s.token conn.addr ∈ w'.trace := fun s hs => by
    rcases h.session with heq | ⟨-, s', hs', -, hreg⟩
    · rw [heq] at hs
      rw [htr]
      have haddr : conn.addr = (w.conns c).addr := by
        cases h with
        | accept hh => rw [hh] at hs; cases hs
        | _ => rfl
      rw [haddr]
      exact List.mem_append_right _ (hb.registered s hs)
    · cases hs'.symm.trans hs
      rw [hreg]
      exact List.mem_cons_self
  have hwriter : ∀ s, conn.writer.session = some s → conn.handler.session = some s := fun s hs => by
    rcases h.writerSession with heq | hnone | heq
    · have hold := hb.writer s (heq ▸ hs)
      rcases h.session with hsame | ⟨hnone, -⟩
      · rw [hsame]; exact hold
      · rw [hnone] at hold; cases hold
    · rw [hnone] at hs; cases hs
    · exact heq ▸ hs
  have hbegins : ∀ {pc : HandlerPc} {a : SocketAddr}, pc.Begins a → pc.Serves a ∧ pc.Unreplayed w'.trace := fun hp =>
    ⟨hp.serves, hp.unreplayed _⟩
  have hspawned : (w.conns c).handler.spawns = false → (w.conns c).writer.session = none := fun hn => by
    cases hs : (w.conns c).writer.session with
    | none => rfl
    | some s => rw [hb.spawned s hs] at hn; cases hn
  refine ⟨?_, ?_, hregistered, hwriter, fun s hs => ?_, ?_⟩
  · cases h with
    | named => exact .lockReplay
    | call hh ht =>
      have hs := hb.handling
      rw [hh] at hs
      exact (ht.serves hs).1
    | finish => exact (begins_afterRemoval _ _ _ _ _).serves
    | wait _ hw => exact (hw.begins _).serves
    | receive | remove | writerCall | writerWait | stop => exact hb.handling
    | accept | acquired | full | admitted | refused | registered | unregistered | unnamed | unregister | storeJoined
    | dropPermit | dropGlobal => trivial
  · cases h with
    | remove => split <;> trivial
    | writerCall hw hpc ht =>
      obtain ⟨-, p, -, hs, hgoto⟩ := hb.calls hw hpc
      exact hgoto _ (ht.serves hs).1
    | writerWait _ hw => exact hw.serves _
    | accept | named | receive | stop => trivial
    | acquired | full | admitted | refused | registered | unregistered | unnamed | unregister | call | storeJoined
    | finish | wait | dropPermit | dropGlobal => exact hb.writing
  · cases h with
    | registered hh =>
      have := hb.writer s hs
      rw [hh] at this
      cases this
    | unnamed hh =>
      have hn := hspawned (by rw [hh]; rfl)
      rw [hn] at hs
      cases hs
    | finish => exact (begins_afterRemoval (w.conns c).addr _ _ _ _).spawns
    | wait _ hw => exact (hw.begins (w.conns c).addr).spawns
    | receive hw | remove hw | writerCall hw | writerWait hw | stop hw => exact hb.spawned s (by rw [hw]; exact hs)
    | accept | acquired | full | admitted | refused | unregistered | named | unregister | call | storeJoined
    | dropPermit | dropGlobal => rfl
  · cases h with
    | registered hh hr =>
      obtain ⟨rfl, -⟩ := registerClientWithStatus_ok hr
      exact (hfed.unused _ (Nat.le_refl _)).2.2.1
    | named hh =>
      have hu := hb.unreplayed
      rw [hh] at hu
      exact hu
    | call hh ht => cases ht <;> trivial
    | finish => exact (begins_afterRemoval (w.conns c).addr _ _ _ _).unreplayed _
    | wait _ hw => exact (hw.begins (w.conns c).addr).unreplayed _
    | remove hw hr =>
      exact hb.unreplayed.congr fun s' _ => @snapshots_of_from 0 .presence nofun _ (fun e => from_removedEvent) _
        s'.token
    | writerCall hw hpc ht =>
      obtain ⟨-, p, hp, hs, -⟩ := hb.calls hw hpc
      obtain ⟨-, events, he, hev⟩ := ht.serves hs
      exact hb.unreplayed.congr fun s' _ => he ▸ snapshots_of_from hp hev _ s'.token
    | receive | writerWait | stop => exact hb.unreplayed
    | accept | acquired | full | admitted | refused | unregistered | unnamed | unregister | storeJoined | dropPermit
    | dropGlobal => trivial

/-- A step of another connection keeps it. -/
theorem Conn.Bound.foreign {tr tr' : List Event} {conn : Conn} (hb : conn.Bound tr)
    (h : ∀ s, conn.handler.session = some s → Foreign s.token tr tr') : conn.Bound tr' where
  handling := hb.handling
  writing := hb.writing
  registered s hs := ((h s hs).mem rfl).2 (hb.registered s hs)
  writer := hb.writer
  spawned := hb.spawned
  unreplayed := hb.unreplayed.congr fun s hs => by simp only [mem_snapshots,
    (h s hs).mem (e := .snapshot s.token _) rfl]

/-! ## The server's steps are sections -/

/-- A world whose connections are bound to their sessions, each its own, and whose barrier the task inside it holds. -/
structure Sound (w : World) : Prop where
  bound : ∀ c, (w.conns c).Bound w.trace
  holder : ∀ task, (w.held task).isSome = true ↔ w.barrier = some task
  distinct : ∀ c c' s s', (w.conns c).handler.session = some s → (w.conns c').handler.session = some s' →
    s.token = s'.token → c = c'

theorem sound_init : Sound .init where
  bound _ := ⟨trivial, trivial, nofun, nofun, nofun, trivial⟩
  holder task := by cases task <;> exact ⟨nofun, nofun⟩
  distinct _ _ _ _ h := by cases h

/-- The world after a step of a connection. -/
def World.after (w : World) (c : Nat) (w' : World) (conn : Conn) : World :=
    { w' with conns := Function.update w.conns c conn }

@[simp] theorem World.after_self (w : World) (c : Nat) (w' : World) (conn : Conn) :
  (w.after c w' conn).conns c = conn :=
  Function.update_self ..

@[simp] theorem World.after_of_ne (w : World) {c d : Nat} (hd : d ≠ c) (w' : World) (conn : Conn) :
    (w.after c w' conn).conns d = w.conns d := Function.update_of_ne hd ..

/-- What a task of another connection holds is as it was. -/
theorem World.held_after (w : World) (c : Nat) (w' : World) (conn : Conn) :
    (w.after c w' conn).held = fun task => if task = .handler c then conn.handler.held
      else if task = .writer c then conn.writer.held else w.held task := by
  funext task
  cases task with
  | handler c' =>
    by_cases hc : c' = c
    · subst hc; simp [World.after, World.held]
    · simp [World.after, World.held, hc]
  | writer c' =>
    by_cases hc : c' = c
    · subst hc; simp [World.after, World.held]
    · simp [World.after, World.held, hc]

/-- A section the server takes at a step: it excludes no address, gives a name that was checked, and goes on under the
barrier with the task that steps. -/
def Section.By (w : World) (l : Label) : Section → Prop
  | .lockRecord _ ex | .broadcast _ ex => ex = none
  | .setUsername _ _ username => IsUsername username
  | .advance _ => ∃ task, l.task = some task ∧ w.barrier = some task
  | _ => True

/-- A step outside calls writes nothing shared, or takes a section that has nothing to do with the barrier. -/
def Plain (w : World) (l : Label) (w' : World) : Prop :=
  w'.st = w.st ∧ w'.trace = w.trace ∨
    ∃ k : Section, k.By w l ∧ ∀ b, sections.step ⟨w.st, b, w.trace⟩ k = some ⟨w'.st, b, w'.trace⟩

theorem plain_remove {w w' : World} {l : Label} {a : SocketAddr} {t : ClientToken} {removed : Bool} {st : ServerState}
    (hr : removeClientIfCurrent w.st a t = some (removed, st)) (hst : w'.st = st)
    (htr : w'.trace = removedEvent t removed ++ w.trace) : Plain w l w' :=
  .inr ⟨.remove a t, trivial, fun b => by simp only [sections, hr, hst, htr]; rfl⟩

/-- A step is a call's section, or leaves who holds the barrier and what for. -/
theorem Turn.held {w w' : World} {c : Nat} {l : Label} {conn : Conn} (h : Turn w c l w' conn)
    (hb : (w.conns c).Bound w.trace) :
    (∃ me a t rx call call', CallTurn w me a t rx call w' call' ∧ l.task = some me ∧ w.held me = call.held ∧
      (w.after c w' conn).held = Function.update w.held me call'.held ∧ (call = .lockReplay → t ∉ snapshots w.trace)) ∨
    (w'.barrier = w.barrier ∧ (w.after c w' conn).held = w.held ∧ Plain w l w') := by
  have hsame : ∀ {conn : Conn}, conn.handler.held = (w.conns c).handler.held →
    conn.writer.held = (w.conns c).writer.held →
      (w.after c w' conn).held = w.held := fun hh hw => by
    rw [World.held_after]
    funext task
    split
    · rename_i ht; rw [ht]; exact hh
    · split
      · rename_i ht; rw [ht]; exact hw
      · rfl
  have hunspawned : (w.conns c).handler.session = none ∨ (w.conns c).handler.spawns = false →
    (w.conns c).writer.held = none := by
    intro hno
    rw [hb.unspawned hno]
    rfl
  cases h with
  | @call s next rx r _ r' hh ht =>
    refine .inl ⟨.handler c, _, _, rx, r, r', ht, rfl, by rw [World.held, hh]; rfl, ?_, fun hl => ?_⟩
    · rw [World.held_after]
      funext task
      by_cases htask : task = .handler c
      · subst htask; simp [HandlerPc.held]
      · rw [if_neg htask, Function.update_of_ne htask]
        split
        · rename_i hw; rw [hw]; rfl
        · rfl
    · have hu := hb.unreplayed
      rw [hh, hl] at hu
      exact hu
  | @writerCall s rx pc r _ r' goto hw hpc ht =>
    have hheld : ∀ r, (WriterPc.running s (goto r)).held = r.held := fun r => by cases hpc <;> rfl
    refine .inl ⟨.writer c, _, _, rx, r, r', ht, rfl, ?_, ?_, fun hl => ?_⟩
    · rw [World.held, hw]; cases hpc <;> rfl
    · rw [World.held_after]
      funext task
      by_cases htask : task = .writer c
      · subst htask; simp [hheld]
      · rw [Function.update_of_ne htask, if_neg htask]
        split
        · rename_i hh; rw [hh]; rfl
        · rfl
    · obtain ⟨-, p, hp, hs, -⟩ := hb.calls hw hpc
      subst hl
      cases hs
      exact absurd rfl hp
  | accept hh =>
    exact .inr ⟨rfl, hsame (by rw [hh]; rfl) (hunspawned (.inl (by rw [hh]; rfl))).symm, .inl ⟨rfl, rfl⟩⟩
  | @named _ s _ hh hu =>
    refine .inr ⟨rfl, hsame (by rw [hh]; rfl) (hunspawned (.inr (by rw [hh]; rfl))).symm, .inr
      ⟨.setUsername (w.conns c).addr s.token s.username, s.username.2, fun b => ?_⟩⟩
    simp only [sections]
    rw [hu]
  | registered hh hr =>
    refine .inr ⟨rfl, hsame (by rw [hh]; rfl) rfl, .inr ⟨.register (w.conns c).addr, trivial, fun b => ?_⟩⟩
    simp only [sections]
    rw [hr]
  | unregister hh hr => exact .inr ⟨rfl, hsame (by rw [hh]; rfl) rfl, plain_remove hr rfl rfl⟩
  | finish hh hr =>
    exact .inr ⟨rfl, hsame (by rw [hh]; exact (session_afterRemoval _ _ _ _).2) rfl, plain_remove hr rfl rfl⟩
  | remove hw hr => exact .inr ⟨rfl, hsame rfl (by rw [hw]; split <;> rfl), plain_remove hr rfl rfl⟩
  | @receive _ s hw => exact .inr ⟨rfl, hsame rfl (by rw [hw]; rfl), .inr ⟨.receive s.token, trivial, fun b => rfl⟩⟩
  | @stop _ s hw => exact .inr ⟨rfl, hsame rfl (by rw [hw]; rfl), .inr ⟨.close s.token, trivial, fun b => rfl⟩⟩
  | wait hh hw => exact .inr ⟨rfl, hsame (by rw [hh]; exact hw.same.2) rfl, .inl ⟨rfl, rfl⟩⟩
  | writerWait hw hp => exact .inr ⟨rfl, hsame rfl (by rw [hw]; exact hp.held), .inl ⟨rfl, rfl⟩⟩
  | acquired hh | full hh | admitted hh | refused hh | unregistered hh | unnamed hh | storeJoined hh | dropPermit hh
  | dropGlobal hh => exact .inr ⟨rfl, hsame (by rw [hh]; rfl) rfl, .inl ⟨rfl, rfl⟩⟩

theorem Turn.distinct {w w' : World} {c : Nat} {l : Label} {conn : Conn} (hs : Sound w) (ht : Tracked w.shared)
    (h : Turn w c l w' conn) : ∀ d d' s s', ((w.after c w' conn).conns d).handler.session = some s →
      ((w.after c w' conn).conns d').handler.session = some s' → s.token = s'.token → d = d' := by
  -- a session already there has a token already allocated
  have hlt : ∀ d s, (w.conns d).handler.session = some s → s.token < w.st.nextToken := fun d s hd =>
    ht.registered_lt _ _ ((hs.bound d).registered s hd)
  have hsession : ∀ d s, ((w.after c w' conn).conns d).handler.session = some s →
      (w.conns d).handler.session = some s ∨ d = c ∧ s.token = w.st.nextToken := fun d s hd => by
    by_cases hc : d = c
    · subst hc
      rw [World.after_self] at hd
      rcases h.session with he | ⟨-, s', hs', hnext, -⟩
      · exact .inl (he ▸ hd)
      · cases hs'.symm.trans hd
        exact .inr ⟨rfl, hnext⟩
    · rw [World.after_of_ne w hc] at hd
      exact .inl hd
  intro d d' s s' hd hd' he
  rcases hsession d s hd with h1 | ⟨rfl, h1⟩ <;> rcases hsession d' s' hd' with h2 | ⟨rfl, h2⟩
  · exact hs.distinct d d' s s' h1 h2 he
  · exact absurd (hlt d s h1) (by rw [he, h2]; exact Nat.lt_irrefl _)
  · exact absurd (hlt d' s' h2) (by rw [← he, h1]; exact Nat.lt_irrefl _)
  · rfl

/-- Every other connection sees a step of one as foreign. -/
theorem Turn.foreign {w w' : World} {c : Nat} {l : Label} {conn : Conn} (hs : Sound w) (ht : Tracked w.shared)
    (h : Turn w c l w' conn) {d : Nat} (hd : d ≠ c) {s : Session} (hsess : (w.conns d).handler.session = some s) :
    Foreign s.token w.trace w'.trace := by
  obtain ⟨events, he, hev⟩ := h.events (hs.bound c)
  refine ⟨events, he, fun e hm hu => hd ?_⟩
  obtain ⟨s', hs', htok⟩ := hev e hm s.token hu
  refine h.distinct hs ht d c s s' ?_ ?_ htok.symm
  · rw [World.after_of_ne w hd]; exact hsess
  · rw [World.after_self]; exact hs'

/-- The holder after a call's section. -/
theorem CallTurn.holder {w w' : World} {me : Task} {a : SocketAddr} {t : ClientToken} {rx : List Rx}
    {call call' : Running} (h : CallTurn w me a t rx call w' call')
    (hold : ∀ task, (w.held task).isSome = true ↔ w.barrier = some task) (hme : w.held me = call.held) (task : Task) :
    (Function.update w.held me call'.held task).isSome = true ↔ w'.barrier = some task := by
  have hmine := hold me
  rw [hme] at hmine
  by_cases htask : task = me
  · subst htask
    rw [Function.update_self]
    cases h with
    | lockReplay | lockRecord => exact ⟨fun _ => rfl, fun _ => rfl⟩
    | unlock => exact ⟨nofun, nofun⟩
    | advance => exact hmine
    | prune | prunes | taken | unencoded | present | drops | dropped => exact hmine
  · rw [Function.update_of_ne htask, hold]
    cases h with
    | lockReplay hb | lockRecord hb =>
      rw [hb]
      exact ⟨nofun, fun h => absurd (Option.some.inj h).symm htask⟩
    | unlock =>
      rw [hmine.1 rfl]
      exact ⟨fun h => absurd (Option.some.inj h).symm htask, nofun⟩
    | advance | prune | prunes | taken | unencoded | present | drops | dropped => exact .rfl

theorem Sound.step {w w' : World} {l : Label} (hs : Sound w) (hfed : Fed w.shared) (ht : Tracked w.shared)
    (h : Steps w l w') : Sound w' := by
  cases h with
  | reorder hr => exact ⟨hs.bound, hs.holder, hs.distinct⟩
  | @turn _ c w' conn h =>
    show Sound (w.after c w' conn)
    refine ⟨fun d => ?_, fun task => ?_, h.distinct hs ht⟩
    · by_cases hd : d = c
      · subst hd
        show ((w.after d w' conn).conns d).Bound w'.trace
        rw [World.after_self]
        exact h.bound hfed (hs.bound d)
      · show ((w.after c w' conn).conns d).Bound w'.trace
        rw [World.after_of_ne w hd]
        exact (hs.bound d).foreign fun s hsess => h.foreign hs ht hd hsess
    · rcases h.held (hs.bound c) with ⟨me, a, t, rx, call, call', hc, -, hme, hheld, -⟩ | ⟨hb, hheld, -⟩
      · rw [hheld]
        exact hc.holder hs.holder hme task
      · rw [hheld, hs.holder]
        show _ ↔ w'.barrier = some task
        rw [hb]

theorem CallTurn.simulates {w w' w'' : World} {me : Task} {a : SocketAddr} {t : ClientToken} {rx : List Rx}
    {call call' : Running} {l : Label} (h : CallTurn w me a t rx call w' call') (hs : Sound w) (hl : l.task = some me)
    (hme : w.held me = call.held) (hw : w''.st = w'.st ∧ w''.trace = w'.trace ∧ w''.barrier = w'.barrier)
    (hheld : w''.held = Function.update w.held me call'.held) (hfresh : call = .lockReplay → t ∉ snapshots w.trace) :
    w''.shared = w.shared ∨ ∃ k : Section, k.By w l ∧ sections.step w.shared k = some w''.shared := by
  obtain ⟨hst, htr, hbar⟩ := hw
  -- the barrier's holder, of both worlds, where the section leaves it
  have hidle : call.held = none → call'.held = none → w''.held = w.held := fun h1 h2 => by
    rw [hheld, h2, ← h1, ← hme, Function.update_eq_self]
  have hmine := hs.holder me
  rw [hme] at hmine
  have hshared : w''.shared = ⟨w'.st, w'.barrier.bind w''.held, w'.trace⟩ := by rw [World.shared, hst, htr, hbar]
  cases h with
  | lockReplay hb =>
    refine .inr ⟨.lockReplay a t, trivial, ?_⟩
    have hnone : w.shared.barrier = none := by rw [World.shared, hb]; rfl
    simp only [sections, hnone]
    rw [if_pos ⟨rfl, hfresh rfl⟩, hshared, hheld]
    simp [World.shared, Running.held]
  | @lockRecord post hb =>
    refine .inr ⟨.lockRecord post none, rfl, ?_⟩
    have hnone : w.shared.barrier = none := by rw [World.shared, hb]; rfl
    simp only [sections, hnone, Option.isNone_none, if_true]
    rw [hshared, hheld]
    simp [World.shared, Running.held]
  | @unlock c result hd =>
    refine .inr ⟨.unlock, trivial, ?_⟩
    have hb : w.shared.barrier = some c := by
      rw [World.shared, hmine.1 rfl]
      exact hme
    simp only [sections, hb, Option.bind_some, hd, Option.isSome_some, if_true]
    rw [hshared]
    rfl
  | @advance c c' st events hd hc =>
    refine .inr ⟨.advance rx, ⟨me, hl, hmine.1 rfl⟩, ?_⟩
    have hb : w.shared.barrier = some c := by
      rw [World.shared, hmine.1 rfl]
      exact hme
    simp only [sections, hb, Option.bind_some]
    rw [show c.step w.shared.st rx = _ from hc, hshared, hheld]
    simp [World.shared, hmine.1 rfl, Running.held]
  | @prunes b u _ _ _ hr =>
    refine .inr ⟨.remove b u, trivial, ?_⟩
    simp only [sections]
    rw [show removeClientIfCurrent w.shared.st b u = _ from hr, hshared, hidle rfl rfl]
    rfl
  | @drops b u _ _ _ _ hr =>
    refine .inr ⟨.remove b u, trivial, ?_⟩
    simp only [sections]
    rw [show removeClientIfCurrent w.shared.st b u = _ from hr, hshared, hidle rfl rfl]
    rfl
  | @present users _ _ hp =>
    refine .inr ⟨.broadcast users none, rfl, ?_⟩
    simp only [sections, hp]
    rw [hshared, hidle rfl rfl]
    rfl
  | prune | taken | unencoded | dropped =>
    left
    rw [hshared, hidle rfl rfl]
    rfl

/-- **Every step of the server is a section**, or none. -/
theorem Steps.simulates {w w' : World} {l : Label} (h : Steps w l w') (hs : Sound w) :
    w'.shared = w.shared ∨ ∃ k : Section, k.By w l ∧ sections.step w.shared k = some w'.shared := by
  cases h with
  | @reorder clients deliveries st hr =>
    refine .inr ⟨.reorder clients deliveries, trivial, ?_⟩
    simp only [sections]
    rw [show Server.reorder w.shared.st clients deliveries = _ from hr]
    rfl
  | @turn _ c w' conn h =>
    show (w.after c w' conn).shared = w.shared ∨ ∃ k : Section, k.By w l ∧
      sections.step w.shared k = some (w.after c w' conn).shared
    rcases h.held (hs.bound c) with ⟨me, a, t, rx, call, call', hc, hl, hme, hheld, hfresh⟩ | ⟨hb, hheld, hplain⟩
    · exact hc.simulates hs hl hme ⟨rfl, rfl, rfl⟩ hheld hfresh
    · have hshared : (w.after c w' conn).shared = ⟨w'.st, w.shared.barrier, w'.trace⟩ := by
        rw [World.shared, hheld]
        show (⟨w'.st, w'.barrier.bind w.held, w'.trace⟩ : Shared) = _
        rw [hb]
        rfl
      rw [hshared]
      rcases hplain with ⟨hst, htr⟩ | ⟨k, hk, hstep⟩
      · exact .inl (by rw [hst, htr]; rfl)
      · exact .inr ⟨k, hk, hstep w.shared.barrier⟩

/-- The server is sound, and so far a run of any callers. -/
theorem sound_of_reach {G : World → Label → Prop} {w : World} (hw : System.Reach server G w) :
    Sound w ∧ System.Reach sections System.Any w.shared := by
  refine @System.Reach.invariant _ _ _ _ (fun w => Sound w ∧ System.Reach sections System.Any w.shared) ⟨sound_init,
    .init⟩
    (fun w l w' _ hI _ hstep => ?_) _ hw
  obtain ⟨hs, hr⟩ := hI
  have h := steps_of_step hstep
  refine ⟨hs.step (fed_of_reach hr) (tracked_of_reach hr) h, ?_⟩
  rcases h.simulates hs with he | ⟨k, -, hk⟩
  · rw [he]; exact hr
  · exact .step hr trivial hk

theorem server_refines {G : World → Label → Prop} {H : Shared → Section → Prop}
    (hH : ∀ w l k, System.Reach server G w → G w l → k.By w l → H w.shared k) :
      System.Refines server G sections H World.shared where
  init := rfl
  step w l w' hr hG hstep := by
    have hs := (sound_of_reach hr).1
    exact ((steps_of_step hstep).simulates hs).imp_right fun ⟨k, hk, hsec⟩ => ⟨k, hH w l k hr hG hk, hsec⟩

/-- **What holds of every connection**: of a new one, after a step of its own, and after a step of another, which may
remove its session and leaves no other event of it. -/
theorem forall_conns_step {G : World → Label → Prop} {P : List Event → Conn → Prop} (h0 : P [] (World.init.conns 0))
    (hown : ∀ w l c w' conn, System.Reach server G w → G w l → server.step w l = some (w.after c w' conn) →
      Turn w c l w' conn → P w.trace (w.conns c) → P w'.trace conn)
    (hother : ∀ w l c w' conn d, System.Reach server G w → G w l → Turn w c l w' conn → d ≠ c →
      (∀ s, (w.conns d).handler.session = some s → Foreign s.token w.trace w'.trace) → P w.trace (w.conns d) →
      P w'.trace (w.conns d)) {w : World} (hw : System.Reach server G w) : ∀ c, P w.trace (w.conns c) := by
  refine hw.invariant (I := fun w => ∀ c, P w.trace (w.conns c)) (fun _ => h0) fun w l w' hr hI hG hstep d => ?_
  obtain ⟨hs, hr'⟩ := sound_of_reach hr
  cases steps_of_step hstep with
  | reorder => exact hI d
  | @turn _ c w' conn h =>
    show P w'.trace ((w.after c w' conn).conns d)
    by_cases hd : d = c
    · subst hd
      rw [World.after_self]
      exact hown w l d w' conn hr hG hstep h (hI d)
    · rw [World.after_of_ne w hd]
      exact hother w l c w' conn d hr hG h hd (fun s hsess => h.foreign hs (tracked_of_reach hr') hd hsess) (hI d)

theorem forall_conns {G : World → Label → Prop} {P : List Event → Conn → Prop} (h0 : P [] (World.init.conns 0))
    (hown : ∀ w l c w' conn, System.Reach server G w → G w l → Turn w c l w' conn → P w.trace (w.conns c) →
      P w'.trace conn)
    (hother : ∀ w l c w' conn d, System.Reach server G w → G w l → Turn w c l w' conn → d ≠ c →
      (∀ s, (w.conns d).handler.session = some s → Foreign s.token w.trace w'.trace) → P w.trace (w.conns d) →
      P w'.trace (w.conns d)) {w : World} (hw : System.Reach server G w) : ∀ c, P w.trace (w.conns c) :=
  forall_conns_step h0 (fun w l c w' conn hr hG _ h => hown w l c w' conn hr hG h) hother hw

end Server
end Drocsid
