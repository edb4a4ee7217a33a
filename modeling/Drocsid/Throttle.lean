import Drocsid.Permits
import Drocsid.Posted
import Drocsid.RateLimit
/-!
# Throttle — the server with its rate limiter and the time (`crates/server/src/lib.rs`)

Handlers ask the limiter before they go on with a chat, and a task of its own cleans it up now and then.  A chat allowed
is recorded later or not at all; what is allowed and not yet recorded is in the hand of a handler with a permit
(`inHand_le`).  So the chats recorded, the chats in hand and the tokens left gain no more than the rate gives
(`Throttled.account_step`), and in no window of a run are more chats of an address recorded than its connections, the
burst and the rate account for (`chats_window`).  The time and the tokens are rational numbers, as in the limiter's
model: what `f64` rounds is left out.
-/
namespace Drocsid

open Text Protocol

namespace Server

/-- The server, its limiter and the time. -/
structure Throttled where
  world      : World
  rateLimits : RateLimits
  clock      : Seconds

inductive Moment
  /-- A step that asks the limiter nothing. -/
  | server (l : Label)
  /-- A handler's `allow_message`. -/
  | allow (c : Nat)
  /-- The cleanup task, with the time it read. -/
  | cleanup (now : Seconds)
  | pass (d : Seconds)

/-- The limiter answers a handler. -/
def Label.answers : Label → Bool
  | .handler _ (.allowed _) => true
  | _ => false

def throttled : System Throttled Moment where
  init := ⟨.init, .empty, 0⟩
  step s
    | .server l => if l.answers then none else (server.step s.world l).map fun world => { s with world }
    | .allow c =>
      let (result, rateLimits) := allowMessage s.rateLimits s.clock (s.world.conns c).addr
      (server.step s.world (.handler c (.allowed result.isOk))).map fun world => { s with world, rateLimits }
    | .cleanup now => if now ≤ s.clock then some { s with rateLimits := cleanupRateLimits s.rateLimits now } else none
    | .pass d => if 0 ≤ d then some { s with clock := s.clock + d } else none

/-- What a step is. -/
inductive Throttled.Moves (s : Throttled) : Moment → Throttled → Prop
  | server {l world} (hl : l.answers = false) (h : server.step s.world l = some world) :
    Moves s (.server l) { s with world }
  | allow {c world}
      (h : server.step s.world (.handler c
        (.allowed (allowMessage s.rateLimits s.clock (s.world.conns c).addr).1.isOk)) = some world) :
    Moves s (.allow c)
      { s with world, rateLimits := (allowMessage s.rateLimits s.clock (s.world.conns c).addr).2 }
  | cleanup {now} (h : now ≤ s.clock) :
    Moves s (.cleanup now) { s with rateLimits := cleanupRateLimits s.rateLimits now }
  | pass {d} (h : 0 ≤ d) : Moves s (.pass d) { s with clock := s.clock + d }

theorem throttled_moves {s s' : Throttled} {l : Moment} (h : throttled.step s l = some s') : s.Moves l s' := by
  cases l with
  | server l =>
    simp only [throttled] at h
    split at h
    · cases h
    · rename_i hl
      obtain ⟨world, hstep, rfl⟩ := Option.map_eq_some_iff.1 h
      exact .server (Bool.eq_false_iff.2 hl) hstep
  | allow c =>
    obtain ⟨world, hstep, rfl⟩ := Option.map_eq_some_iff.1 h
    exact .allow hstep
  | cleanup now =>
    simp only [throttled] at h
    split at h
    · cases h; exact .cleanup ‹_›
    · cases h
  | pass d =>
    simp only [throttled] at h
    split at h
    · cases h; exact .pass ‹_›
    · cases h

/-- **Its runs are runs of the server**, with the limiter's answers. -/
theorem throttled_refines : System.Refines throttled System.Any server System.Any Throttled.world where
  init := rfl
  step s l s' _ _ h := by
    cases throttled_moves h with
    | server _ hstep | allow hstep => exact .inr ⟨_, trivial, hstep⟩
    | cleanup | pass => exact .inl rfl

/-! ## Chats recorded, and in hand -/

/-- A session of the address registers. -/
def Event.registers (ip : IpAddr) (t : ClientToken) : Event → Bool
  | .registered u a => u == t && a.ip == ip
  | _ => false

/-- The chats recorded by sessions of the address. -/
def chatsFrom (ip : IpAddr) : List Event → Nat
  | [] => 0
  | .recorded post :: tr =>
    chatsFrom ip tr + if post.kind = .chat ∧ tr.any (Event.registers ip post.session) = true then 1 else 0
  | _ :: tr => chatsFrom ip tr

/-- It was allowed a chat that it has not recorded. -/
def HandlerPc.holdsChat : HandlerPc → Bool
  | .serving _ (.sleep _) => true
  | .serving _ (.calling .chat call) => call.message.isSome
  | _ => false

def Conn.holdsChat (ip : IpAddr) (conn : Conn) : Bool := conn.handler.holdsChat && conn.addr.ip == ip

/-- The connections of the address that hold a chat. -/
def inHand (ip : IpAddr) (w : World) : Nat := w.admission.globals.countP fun c => (w.conns c).holdsChat ip

theorem chatsFrom_of_posts (ip : IpAddr) {events tr : List Event} (h : posts (events ++ tr) = posts tr) :
    chatsFrom ip (events ++ tr) = chatsFrom ip tr := by
  rw [posts_append, List.append_right_eq_self] at h
  induction events with
  | nil => rfl
  | cons e events ih =>
    cases e with
    | recorded post => simp [posts] at h
    | registered | named | snapshot | replayed | ready | broadcast | removed => exact ih h

theorem chatsFrom_removed (ip : IpAddr) (t : ClientToken) (removed : Bool) (tr : List Event) :
    chatsFrom ip (removedEvent t removed ++ tr) = chatsFrom ip tr := by
  cases removed <;> rfl

/-- The session of a connection registered from its address. -/
theorem registers_iff {w : World} (hw : System.Reach server System.Any w) {c : Nat} {s : Session}
    (hs : (w.conns c).handler.session = some s) (ip : IpAddr) :
    w.trace.any (Event.registers ip s.token) = ((w.conns c).addr.ip == ip) := by
  obtain ⟨hsound, hr⟩ := sound_of_reach hw
  have hreg := (hsound.bound c).registered s hs
  rw [Bool.eq_iff_iff, List.any_eq_true]
  constructor
  · rintro ⟨e, he, h⟩
    unfold Event.registers at h
    split at h
    · rw [Bool.and_eq_true, beq_iff_eq] at h
      obtain ⟨rfl, hip⟩ := h
      rwa [registered_unique hr hreg he]
    · cases h
  · intro h
    exact ⟨_, hreg, by simpa [Event.registers] using h⟩

/-! ## What a step records and holds -/

theorem Resumes.holdsChat {s : Session} {next : After} {result : Except ServerError Bool} {pc : HandlerPc}
    (h : Resumes s next result pc) : pc.holdsChat = false := by
  cases h with
  | @abandons _ mode => cases mode <;> rfl
  | replayed | presented | unencoded | joinDropped | joined | joinPresented | chatDropped | chatted | chatPresented
  | left | leavePresented | failed => rfl

theorem holdsChat_received (s : Session) (result : Except ServerError (Option Frame)) :
    (received s result).holdsChat = false := by
  unfold received
  split
  · rfl
  · rfl
  · split <;> rfl

theorem holdsChat_afterRemoval (s : Session) (mode : FinishMode) (removed joined : Bool) :
    (afterRemoval s mode removed joined).holdsChat = false := by
  unfold afterRemoval
  split
  · split
    · rfl
    · cases mode <;> rfl
  · rfl

/-- A handler that goes on holds the chat it held, or was allowed it. -/
theorem HandlerPc.Waits.holdsChat {w w' : World} {c : Nat} {input : Input} {pc pc' : HandlerPc} (h : pc.Waits pc')
    (hstep : server.step w (.handler c input) = some w') (hpc : (w.conns c).handler = pc)
    (hpc' : (w'.conns c).handler = pc') (hholds : pc'.holdsChat = true) :
    pc.holdsChat = true ∨ input = .allowed true := by
  cases h with
  | resume =>
    rw [(resumes_resume _ _ _).holdsChat] at hholds
    cases hholds
  | received =>
    rw [holdsChat_received] at hholds
    cases hholds
  | @allowed s content =>
    replace hstep : w.handlerStep c input = some w' := hstep
    simp only [World.handlerStep, hpc] at hstep
    cases input with
    | allowed ok =>
      cases ok with
      | true => exact .inr rfl
      | false =>
        cases hstep
        simp [World.goto] at hpc'
    | go | frame | timeout | disconnected | time | rx | written => cases hstep
  | slept => exact .inl rfl
  | timeout | refused | named | disconnected | limited | tooLong => cases hholds

/-- A call that is for no chat records none. -/
theorem CallTurn.chatsFrom_eq {w w' : World} {me : Task} {a : SocketAddr} {t : ClientToken} {rx : List Rx} {p : Purpose}
    {call call' : Running} (h : CallTurn w me a t rx call w' call') (hs : call.Serves a t p) (hp : p ≠ .post .chat)
    (ip : IpAddr) : chatsFrom ip w'.trace = chatsFrom ip w.trace := by
  rcases h.messages hs with ⟨post, -, -, hpost, -, htr⟩ | ⟨-, hsame⟩
  · have hk : post.kind ≠ .chat := fun hk => hp (hpost.trans (by rw [hk]))
    rw [htr, chatsFrom, if_neg fun hc => hk hc.1]
    rfl
  · obtain ⟨-, events, htr, -⟩ := h.serves hs
    rw [htr] at hsame ⊢
    exact chatsFrom_of_posts ip hsame

/-- A handler's call records the chat it holds, or holds on to it. -/
theorem CallTurn.chats {w w' : World} {c : Nat} {s : Session} {next : After} {rx : List Rx} {call call' : Running}
    (hr : System.Reach server System.Any w) (hh : (w.conns c).handler = .serving s (.calling next call))
    (ht : CallTurn w (.handler c) (w.conns c).addr s.token rx call w' call') (ip : IpAddr) :
    chatsFrom ip w'.trace +
        (Conn.holdsChat ip { w.conns c with handler := .serving s (.calling next call') }).toNat =
      chatsFrom ip w.trace + ((w.conns c).holdsChat ip).toNat := by
  obtain ⟨hsound, -⟩ := sound_of_reach hr
  have hserves := (hsound.bound c).handling
  rw [hh] at hserves
  cases next with
  | chat =>
    rcases ht.messages hserves with ⟨post, hm, hm', hp, hsess, htr⟩ | ⟨hm, hsame⟩
    · have hat := registers_iff hr (s := s) (by rw [hh]; rfl) ip
      have hk : post.kind = .chat := (Purpose.post.inj hp).symm
      rw [htr, chatsFrom, hsess, hat]
      simp only [Conn.holdsChat, hh, HandlerPc.holdsChat, hm, hm', hk, Option.isSome_none, Option.isSome_some,
        Bool.false_and, Bool.true_and, true_and, Bool.toNat_false, Nat.add_zero]
      cases (w.conns c).addr.ip == ip <;> rfl
    · obtain ⟨-, events, htr, -⟩ := ht.serves hserves
      rw [htr] at hsame ⊢
      rw [chatsFrom_of_posts ip hsame]
      simp only [Conn.holdsChat, hh, HandlerPc.holdsChat, hm]
  | history | presence | join | joinPresence | chatPresence | leave | leavePresence =>
    rw [ht.chatsFrom_eq hserves (fun he => by cases he) ip]
    simp only [Conn.holdsChat, hh, HandlerPc.holdsChat]

/-- A connection of the address is allowed a chat. -/
def World.grants (w : World) (ip : IpAddr) : Label → Bool
  | .handler c (.allowed true) => (w.conns c).addr.ip == ip
  | _ => false

/-- **A chat recorded was held, and a chat held was allowed.** -/
theorem Turn.chats {w w' : World} {c : Nat} {l : Label} {conn : Conn} (hr : System.Reach server System.Any w)
    (hstep : server.step w l = some (w.after c w' conn)) (ht : Turn w c l w' conn) (ip : IpAddr) :
    chatsFrom ip w'.trace + (conn.holdsChat ip).toNat ≤
      chatsFrom ip w.trace + ((w.conns c).holdsChat ip).toNat + (w.grants ip l).toNat := by
  obtain ⟨hsound, -⟩ := sound_of_reach hr
  have hb := hsound.bound c
  -- a step that records nothing, of a handler that holds nothing after it
  have hnone : chatsFrom ip w'.trace = chatsFrom ip w.trace → conn.handler.holdsChat = false →
      chatsFrom ip w'.trace + (conn.holdsChat ip).toNat ≤
        chatsFrom ip w.trace + ((w.conns c).holdsChat ip).toNat + (w.grants ip l).toNat := by
    intro hsame hholds
    rw [hsame, Conn.holdsChat, hholds]
    exact Nat.le_trans (Nat.le_add_right _ _) (Nat.le_add_right _ _)
  cases ht with
  | accept | acquired | full | admitted | refused | unregistered | unnamed | storeJoined | dropPermit | dropGlobal |
    registered | named => exact hnone rfl rfl
  | unregister => exact hnone (chatsFrom_removed _ _ _ _) rfl
  | finish => exact hnone (chatsFrom_removed _ _ _ _) (holdsChat_afterRemoval _ _ _ _)
  | call hh hcall =>
    rw [hcall.chats hr hh ip]
    exact Nat.le_add_right _ _
  | @wait input pc pc' hh hwait =>
    cases hholds : pc'.holdsChat with
    | false => exact hnone rfl hholds
    | true =>
      have hpc' : ((w.after c w { w.conns c with handler := pc' }).conns c).handler = pc' := by rw [World.after_self]
      rw [Nat.add_assoc]
      refine Nat.add_le_add_left ?_ _
      show (pc'.holdsChat && (w.conns c).addr.ip == ip).toNat ≤ _
      rw [hholds, Bool.true_and]
      rcases hwait.holdsChat hstep hh hpc' hholds with hheld | rfl
      · rw [Conn.holdsChat, hh, hheld, Bool.true_and]
        exact Nat.le_add_right _ _
      · exact Nat.le_add_left _ _
  | receive | writerWait | stop => exact Nat.le_add_right _ _
  | remove =>
    rw [chatsFrom_removed]
    exact Nat.le_add_right _ _
  | @writerCall s rx pc call w' call' goto hwr hpc hcall =>
    suffices hsame : chatsFrom ip w'.trace = chatsFrom ip w.trace by
      rw [hsame]
      exact Nat.le_add_right _ _
    have hserves := hb.writing
    rw [hwr] at hserves
    cases hpc with
    | posting => exact hcall.chatsFrom_eq (p := .post .leave) hserves (fun he => by cases he) ip
    | presenting => exact hcall.chatsFrom_eq (p := .presence) hserves (fun he => by cases he) ip

/-! ## In hand -/

theorem HandlerPc.hasPermit_of_holdsChat {pc : HandlerPc} (h : pc.holdsChat = true) :
    pc.hasGlobal = true ∧ pc.hasPermit = true := by
  cases pc with
  | serving => exact ⟨rfl, rfl⟩
  | idle | acquire | acquireIp | refused | handshake | register | dropPermit | dropGlobal | returned => cases h

/-- Two lists without repetitions that agree but for one member. -/
theorem length_of_agree {α : Type*} [DecidableEq α] {l l' : List α} (h : l.Nodup) (h' : l'.Nodup) (a : α)
    (hag : ∀ b, b ≠ a → (b ∈ l' ↔ b ∈ l)) :
    l'.length + (decide (a ∈ l)).toNat = l.length + (decide (a ∈ l')).toNat := by
  have hperm : (l'.erase a).Perm (l.erase a) := by
    refine (List.perm_ext_iff_of_nodup (h'.erase a) (h.erase a)).2 fun b => ?_
    rw [h'.mem_erase_iff, h.mem_erase_iff]
    exact and_congr_right (hag b)
  have hlen := hperm.length_eq
  rw [List.length_erase, List.length_erase] at hlen
  by_cases hm : a ∈ l
  · have := List.length_pos_of_mem hm
    by_cases hm' : a ∈ l'
    · have := List.length_pos_of_mem hm'
      simp only [hm, hm', if_true, decide_true, Bool.toNat_true] at hlen ⊢
      omega
    · simp only [hm, hm', if_true, if_false, decide_true, decide_false, Bool.toNat_true, Bool.toNat_false] at hlen ⊢
      omega
  · by_cases hm' : a ∈ l'
    · have := List.length_pos_of_mem hm'
      simp only [hm, hm', if_true, if_false, decide_true, decide_false, Bool.toNat_true, Bool.toNat_false] at hlen ⊢
      omega
    · simp only [hm, hm', if_false, decide_false, Bool.toNat_false] at hlen ⊢
      omega

/-- The connections that hold a chat have a permit of the semaphore. -/
theorem mem_holders {w : World} (h : Accounted w.admission w.conns) (ip : IpAddr) (c : Nat) :
    c ∈ w.admission.globals.filter (fun c => (w.conns c).holdsChat ip) ↔ (w.conns c).holdsChat ip = true := by
  rw [List.mem_filter, h.globals]
  refine and_iff_right_of_imp fun hc => ?_
  rw [Conn.holdsChat, Bool.and_eq_true] at hc
  exact (HandlerPc.hasPermit_of_holdsChat hc.1).1

/-- **No more chats are in hand than an address may have connections.** -/
theorem inHand_le {w : World} (h : Accounted w.admission w.conns) (ip : IpAddr) :
    inHand ip w ≤ maxConnectionsPerIp := by
  refine Nat.le_trans ?_ (h.perIp_le ip)
  rw [inHand, List.countP_eq_length_filter, List.countP_eq_length_filter]
  refine length_le_of_rel (h.globalsNodup.filter _) (fun c x => x.1 = c) (fun c hc => ⟨(c, ip), ?_, rfl⟩)
    fun c _ d _ x hx hx' => hx.symm.trans hx'
  rw [mem_holders h, Conn.holdsChat, Bool.and_eq_true, beq_iff_eq] at hc
  exact List.mem_filter.2 ⟨(h.permits c ip).2 ⟨(HandlerPc.hasPermit_of_holdsChat hc.1).2, hc.2.symm⟩, by simp⟩

/-- A step changes what its connection holds. -/
theorem inHand_after {w w' : World} {c : Nat} {conn : Conn} (h : Accounted w.admission w.conns)
    (h' : Accounted (w.after c w' conn).admission (w.after c w' conn).conns) (ip : IpAddr) :
    inHand ip (w.after c w' conn) + ((w.conns c).holdsChat ip).toNat = inHand ip w + (conn.holdsChat ip).toNat := by
  have hag := length_of_agree (h.globalsNodup.filter fun d => (w.conns d).holdsChat ip)
    (h'.globalsNodup.filter fun d => ((w.after c w' conn).conns d).holdsChat ip) c
    fun d hd => by rw [mem_holders h, mem_holders h', World.after_of_ne w hd]
  rw [inHand, inHand, List.countP_eq_length_filter, List.countP_eq_length_filter]
  simpa only [mem_holders h, mem_holders h', World.after_self, Bool.decide_eq_true] using hag

theorem chats_step {w w' : World} {l : Label} (hw : System.Reach server System.Any w)
    (hstep : server.step w l = some w') (ip : IpAddr) :
    chatsFrom ip w'.trace + inHand ip w' ≤ chatsFrom ip w.trace + inHand ip w + (w.grants ip l).toNat := by
  cases steps_of_step hstep with
  | reorder => exact Nat.le_add_right _ _
  | @turn _ c w' conn ht =>
    have hchats := ht.chats hw hstep ip
    have hafter : Accounted (w.after c w' conn).admission (w.after c w' conn).conns :=
      accounted_of_reach (.step hw trivial hstep)
    have hhand := inHand_after (accounted_of_reach hw) hafter ip
    show chatsFrom ip w'.trace + inHand ip (w.after c w' conn) ≤ _
    omega

/-! ## Tokens -/

/-- What the limiter would allow an address at once. -/
def Throttled.level (s : Throttled) (ip : IpAddr) : ℚ :=
  (RateLimit.bucketOf s.rateLimits ip s.clock).level messageRatePerSecond messageBurstSize s.clock

theorem solvent_of_reach {s : Throttled} (hs : System.Reach throttled System.Any s) :
    RateLimit.Solvent s.rateLimits := by
  refine hs.invariant (I := fun s => RateLimit.Solvent s.rateLimits) RateLimit.solvent_empty ?_
  intro s l s' _ h _ hstep
  cases throttled_moves hstep with
  | server | pass => exact h
  | allow => exact h.allowMessage _ _
  | cleanup => exact h.cleanup _

theorem Throttled.level_nonneg {s : Throttled} (hs : System.Reach throttled System.Any s) (ip : IpAddr) :
    0 ≤ s.level ip :=
  TokenBucket.refill_nonneg RateLimit.rate_nonneg RateLimit.burst_nonneg ((solvent_of_reach hs).bucketOf ip s.clock) _

/-- An answer of the limiter costs its address a token if it allows a chat, and no other address anything. -/
theorem level_allowMessage (s : Throttled) (c : Nat) (ip : IpAddr) :
    Throttled.level { s with rateLimits := (allowMessage s.rateLimits s.clock (s.world.conns c).addr).2 } ip =
      s.level ip - (s.world.grants ip
        (.handler c (.allowed (allowMessage s.rateLimits s.clock (s.world.conns c).addr).1.isOk))).toNat := by
  obtain ⟨hanswer, hbucket⟩ := RateLimit.allowMessage_eq s.rateLimits s.clock (s.world.conns c).addr
  rw [Throttled.level, hbucket, hanswer, RateLimit.isOk_answer]
  by_cases hip : ip = (s.world.conns c).addr.ip
  · subst hip
    rw [if_pos rfl, RateLimit.take, TokenBucket.level_take, Throttled.level]
    cases (TokenBucket.take messageRatePerSecond messageBurstSize
        (RateLimit.bucketOf s.rateLimits (s.world.conns c).addr.ip s.clock) s.clock).1 <;> simp [World.grants]
  · rw [if_neg hip, Throttled.level]
    have hne : ((s.world.conns c).addr.ip == ip) = false := beq_false_of_ne (Ne.symm hip)
    cases (RateLimit.take (RateLimit.bucketOf s.rateLimits (s.world.conns c).addr.ip s.clock) s.clock).1 <;>
      simp [World.grants, hne]

/-- Time gives an address no more than the rate. -/
theorem level_pass (s : Throttled) {d : Seconds} (h : 0 ≤ d) (ip : IpAddr) :
    Throttled.level { s with clock := s.clock + d } ip ≤ s.level ip + messageRatePerSecond * d := by
  have hgain : 0 ≤ messageRatePerSecond * d := mul_nonneg RateLimit.rate_nonneg h
  unfold Throttled.level RateLimit.bucketOf
  cases s.rateLimits.get? ip with
  | none =>
    simp only [Option.map_none, Option.getD_none, TokenBucket.level_full RateLimit.rate_nonneg]
    exact le_add_of_nonneg_right hgain
  | some limiter =>
    have hlater : limiter.bucket.level _ messageBurstSize (s.clock + d) ≤ _ :=
      TokenBucket.level_later RateLimit.rate_nonneg limiter.bucket (le_add_of_nonneg_right h)
    rwa [add_sub_cancel_left] at hlater

/-! ## Every window -/

/-- The chats recorded, the chats in hand and the tokens left. -/
def Throttled.account (s : Throttled) (ip : IpAddr) : ℚ :=
  chatsFrom ip s.world.trace + inHand ip s.world + s.level ip

/-- **The account gains no more than the rate gives.** -/
theorem Throttled.account_step {s s' : Throttled} {l : Moment} (hs : System.Reach throttled System.Any s)
    (hstep : throttled.step s l = some s') (ip : IpAddr) :
    s'.account ip ≤ s.account ip + messageRatePerSecond * (s'.clock - s.clock) := by
  have hw := throttled_refines.reach hs
  unfold Throttled.account
  cases throttled_moves hstep with
  | @server l world hl h =>
    have hgrants : s.world.grants ip l = false := by
      unfold World.grants
      split
      · cases hl
      · rfl
    have hchats := chats_step hw h ip
    rw [hgrants, Bool.toNat_false, Nat.add_zero] at hchats
    have hcast : (chatsFrom ip world.trace : ℚ) + inHand ip world ≤ chatsFrom ip s.world.trace + inHand ip s.world := by
      exact_mod_cast hchats
    show (chatsFrom ip world.trace : ℚ) + inHand ip world + s.level ip ≤ _
    linarith
  | @allow c world h =>
    have hchats := chats_step hw h ip
    have hcast : (chatsFrom ip world.trace : ℚ) + inHand ip world ≤ chatsFrom ip s.world.trace +
        inHand ip s.world + (s.world.grants ip (.handler c (.allowed
          (allowMessage s.rateLimits s.clock (s.world.conns c).addr).1.isOk))).toNat := by
      exact_mod_cast hchats
    have hlevel := level_allowMessage s c ip
    show (chatsFrom ip world.trace : ℚ) + inHand ip world +
      Throttled.level { s with rateLimits := (allowMessage s.rateLimits s.clock (s.world.conns c).addr).2 } ip ≤ _
    rw [hlevel]
    linarith
  | @cleanup now h =>
    have hlevel : Throttled.level { s with rateLimits := cleanupRateLimits s.rateLimits now } ip = s.level ip :=
      congrArg TokenBucket.tokens (RateLimit.refill_cleanup (solvent_of_reach hs) h ip)
    rw [hlevel]
    linarith
  | @pass d h =>
    have hlevel := level_pass s h ip
    show (chatsFrom ip s.world.trace : ℚ) + inHand ip s.world + Throttled.level { s with clock := s.clock + d } ip ≤ _
    rw [add_sub_cancel_left]
    linarith

theorem Throttled.account_run {s s' : Throttled} {ls : List Moment} (hs : System.Reach throttled System.Any s)
    (hrun : throttled.run s ls = some s') (ip : IpAddr) :
    s'.account ip ≤ s.account ip + messageRatePerSecond * (s'.clock - s.clock) := by
  refine System.run_induction (P := fun s _ s' =>
    s'.account ip ≤ s.account ip + messageRatePerSecond * (s'.clock - s.clock)) ?_ ?_ hs hrun
  · intro s
    rw [sub_self, mul_zero, add_zero]
  · intro s l t ls s' hs hstep ih
    have hfirst := Throttled.account_step hs hstep ip
    have hsplit : messageRatePerSecond * (s'.clock - s.clock) =
        messageRatePerSecond * (s'.clock - t.clock) + messageRatePerSecond * (t.clock - s.clock) := by ring
    linarith

theorem Throttled.account_of_reach {s : Throttled} (hs : System.Reach throttled System.Any s) (ip : IpAddr) :
    s.account ip ≤ messageBurstSize + messageRatePerSecond * s.clock := by
  refine hs.invariant (I := fun s => s.account ip ≤ messageBurstSize + messageRatePerSecond * s.clock) ?_ ?_
  · have hfull : Throttled.level throttled.init ip = messageBurstSize :=
      TokenBucket.level_full RateLimit.rate_nonneg _ _
    show ((0 : Nat) : ℚ) + (0 : Nat) + Throttled.level throttled.init ip ≤ messageBurstSize + messageRatePerSecond * 0
    rw [hfull, mul_zero, add_zero, Nat.cast_zero, add_zero, zero_add]
  · intro s l s' hs ih _ hstep
    have hfirst := Throttled.account_step hs hstep ip
    have hsplit : messageRatePerSecond * s'.clock =
        messageRatePerSecond * (s'.clock - s.clock) + messageRatePerSecond * s.clock := by ring
    linarith

/-- **No address floods the chat.**  From any state of a run to any later one, the chats recorded of an address are no
more than its connections, the burst and what the rate gives in that time; and since the start, no more than the burst
and what the rate gives.  The limiter's arithmetic is read as exact rationals. -/
theorem chats_window {s s' : Throttled} {ls : List Moment} (hs : System.Reach throttled System.Any s)
    (hrun : throttled.run s ls = some s') (ip : IpAddr) :
    (chatsFrom ip s'.world.trace : ℚ) - chatsFrom ip s.world.trace ≤
      maxConnectionsPerIp + messageBurstSize + messageRatePerSecond * (s'.clock - s.clock) ∧
    (chatsFrom ip s.world.trace : ℚ) ≤ messageBurstSize + messageRatePerSecond * s.clock := by
  have hs' := System.reach_of_run hs hrun
  have haccount := Throttled.account_run hs hrun ip
  have hstart := Throttled.account_of_reach hs ip
  have hburst : s.level ip ≤ messageBurstSize := TokenBucket.level_le _ _
  have hlevel := Throttled.level_nonneg hs ip
  have hlevel' := Throttled.level_nonneg hs' ip
  have hheld : (0 : ℚ) ≤ inHand ip s.world := Nat.cast_nonneg _
  have hheld' : (0 : ℚ) ≤ inHand ip s'.world := Nat.cast_nonneg _
  have hhand : (inHand ip s.world : ℚ) ≤ maxConnectionsPerIp := by
    exact_mod_cast inHand_le (accounted_of_reach (throttled_refines.reach hs)) ip
  unfold Throttled.account at haccount hstart
  constructor <;> linarith

/-- The connection says "hi" and records it, after a second. -/
def saysAfter (c : Nat) : List Moment :=
  [.pass 1, .server (.handler c (.frame (.ok (some ⟨currentProtocolVersion, .chat, toBytes (lit "hi")⟩)))), .allow c,
    .server (.handler c (.time ⟨Fin.last 23, Fin.last 59⟩))] ++
  (sectionsOf 4 c).map .server ++ [.server (.handler c .go)]

/-- Bob joins, and says "hi" once. -/
def bobJoins : List Moment := (registers 0 bobAddr "bob" ++ replays 0 0 ++ enters 0).map .server ++ saysAfter 0

/-- The limiter is cleaned up, and bob says it again. -/
theorem chats_window_bob : ∃ s s' : Throttled,
    chatsFrom bobAddr.ip s.world.trace = 1 ∧ chatsFrom bobAddr.ip s'.world.trace = 2 ∧
    (chatsFrom bobAddr.ip s'.world.trace : ℚ) - chatsFrom bobAddr.ip s.world.trace ≤
      maxConnectionsPerIp + messageBurstSize + messageRatePerSecond * (s'.clock - s.clock) ∧
    (chatsFrom bobAddr.ip s.world.trace : ℚ) ≤ messageBurstSize + messageRatePerSecond * s.clock := by
  have ht : ((throttled.run throttled.init bobJoins).bind fun s =>
      (throttled.run s (.cleanup 1 :: saysAfter 0)).map fun s' =>
        chatsFrom bobAddr.ip s.world.trace == 1 && chatsFrom bobAddr.ip s'.world.trace == 2) = some true := by
    decide +kernel
  obtain ⟨s, hs, hmore⟩ := Option.bind_eq_some_iff.1 ht
  obtain ⟨s', hs', hchats⟩ := Option.map_eq_some_iff.1 hmore
  rw [Bool.and_eq_true, beq_iff_eq, beq_iff_eq] at hchats
  exact ⟨s, s', hchats.1, hchats.2, chats_window (System.reach_of_run .init hs) hs' bobAddr.ip⟩

end Server
end Drocsid
