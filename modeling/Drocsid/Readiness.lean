import Drocsid.Delivery
/-!
# Readiness — `mark_client_ready`, and trying it again (`crates/server/src/state.rs`)

One try moves the pending messages to the channel as far as they go, and leaves the others pending, from the one that
failed on (`Tries`).  So however often it is tried, what the channel has and what is pending are the messages there were
(`tries_conserve`).
-/
namespace Drocsid

open Text Protocol

namespace Server

theorem find?_modifyFirst {α : Type*} {p : α → Bool} {f : α → α} (hf : ∀ a, p (f a) = p a) :
    ∀ l : List α, (modifyFirst p f l).find? p = (l.find? p).map f
  | [] => rfl
  | a :: l => by
    unfold modifyFirst
    cases hp : p a with
    | true => rw [if_pos rfl, List.find?_cons_of_pos (by rw [hf, hp]), List.find?_cons_of_pos hp, Option.map_some]
    | false =>
      rw [if_neg Bool.false_ne_true, List.find?_cons_of_neg (by simp [hp]), List.find?_cons_of_neg (by simp [hp]),
        find?_modifyFirst hf l]

theorem find?_modifyFirst_of_ne {α : Type*} {p q : α → Bool} {f : α → α}
    (h : ∀ a, p a = true → q a = false ∧ q (f a) = false) :
    ∀ l : List α, (modifyFirst p f l).find? q = l.find? q
  | [] => rfl
  | a :: l => by
    unfold modifyFirst
    cases hp : p a with
    | true =>
      obtain ⟨hq, hqf⟩ := h a hp
      rw [if_pos rfl, List.find?_cons_of_neg (by simp [hqf]), List.find?_cons_of_neg (by simp [hq])]
    | false =>
      rw [if_neg Bool.false_ne_true, List.find?_cons, List.find?_cons, find?_modifyFirst_of_ne h l]

/-- Writing a client that is there is seen by who looks it up, and by no one else. -/
theorem findDelivery_writeDelivery {st : ServerState} {f : ClientDelivery → ClientDelivery}
    (hf : ∀ d, (f d).token = d.token) (a : SocketAddr) (t : ClientToken) (b : SocketAddr) (u : ClientToken) :
    findDelivery (writeDelivery st a t f) b u =
      if (b, u) = (a, t) then (findDelivery st a t).map f else findDelivery st b u := by
  unfold findDelivery writeDelivery
  cases hentries : st.deliveries.byAddr.get? a with
  | none =>
    dsimp only
    split
    · rename_i h
      cases h
      rw [hentries]
      rfl
    · rfl
  | some entries =>
    dsimp only
    rw [Table.get?_insert]
    by_cases hb : b = a
    · subst hb
      rw [if_pos rfl, hentries, Option.bind_some, Option.bind_some]
      by_cases hu : u = t
      · subst hu
        rw [if_pos rfl]
        exact find?_modifyFirst (fun d => by rw [hf]) entries
      · rw [if_neg (by simpa using hu)]
        refine find?_modifyFirst_of_ne (fun d hd => ?_) entries
        have ht : d.token = t := by simpa using hd
        rw [hf, ht]
        simpa using Ne.symm hu
    · rw [if_neg hb, if_neg (by simp [hb])]

/-! ## One try -/

/-- The messages that were sent on the client's channel, and then those pending. -/
def ClientDelivery.messages (st : ServerState) (client : ClientDelivery) : List Bytes :=
  (st.channels client.writer).sent ++ client.pendingMessages

/-- A try to make a client ready, from the client it finds to the one it leaves. -/
structure Tries (st : ServerState) (a : SocketAddr) (t : ClientToken) (rx : List Rx) (d d' : ClientDelivery) :
    Prop where
  found : findDelivery (markClientReady st a t rx).2 a t = some d'
  client : d' = { d with pendingMessages := d'.pendingMessages, ready := d'.ready }
  /-- No message is lost, doubled or put before another. -/
  conserves : d'.messages (markClientReady st a t rx).2 = d.messages st
  /-- Those in the queue are among them: what the receiver took meanwhile, the queue and the pending list are the queue
  and the pending list there were. -/
  contents : ∃ taken, taken ++ (((markClientReady st a t rx).2.channels d.writer).queued ++ d'.pendingMessages) =
    (st.channels d.writer).queued ++ d.pendingMessages ∧ (rx = [] → taken = [])
  /-- All was sent and the client is ready; or a send failed, and that message and those behind it are pending. -/
  outcome : (markClientReady st a t rx).1 = .ok () ∧ d'.ready = true ∧ d'.pendingMessages = [] ∨
    ((markClientReady st a t rx).1 = .error .outboundQueueFull ∨
      (markClientReady st a t rx).1 = .error .outboundWriterGone) ∧
      d'.ready = d.ready ∧ ∃ done message rest, d.pendingMessages = done ++ message :: rest ∧
        d'.pendingMessages = message :: rest
  /-- While nothing is received, the queue's room and whether the channel is closed decide. -/
  result : rx = [] → (markClientReady st a t rx).1 =
    if d.pendingMessages = [] then .ok ()
    else if (st.channels d.writer).closed then .error .outboundWriterGone
    else if (st.channels d.writer).queued.length + d.pendingMessages.length ≤ (st.channels d.writer).capacity then
      .ok ()
    else .error .outboundQueueFull
  others : ∀ b u, (b, u) ≠ (a, t) → findDelivery (markClientReady st a t rx).2 b u = findDelivery st b u
  channels : ∀ w, w ≠ d.writer → (markClientReady st a t rx).2.channels w = st.channels w
  clients : (markClientReady st a t rx).2.clients = st.clients
  history : (markClientReady st a t rx).2.history = st.history
  disconnects : (markClientReady st a t rx).2.disconnects = st.disconnects

/-- What was not sent is the end of what there was to send. -/
theorem exists_of_sendAll {c channel : Fifo Bytes} {as unsent : List Bytes} {rx : List Rx} {e : SendError}
    (h : c.sendAll as rx = (channel, unsent, some e)) : ∃ done message rest, as = done ++ message :: rest ∧
      unsent = message :: rest := by
  have hne : unsent ≠ [] := by
    intro hnil
    have := (Fifo.sendAll_unsent c as rx).1 (by rw [h]; exact hnil)
    rw [h] at this
    cases this
  obtain ⟨message, rest, rfl⟩ := List.exists_cons_of_ne_nil hne
  have hcons := Fifo.sendAll_conserves c as rx
  have hle := Fifo.sent_le_sendAll c as rx
  rw [h] at hcons hle
  obtain ⟨done, hdone⟩ : c.sent <+: channel.sent :=
    List.prefix_of_prefix_length_le ⟨as, rfl⟩ (hcons ▸ List.prefix_append channel.sent (message :: rest)) hle
  refine ⟨done, message, rest, ?_, rfl⟩
  dsimp only at hcons
  rw [← hdone, List.append_assoc] at hcons
  exact (List.append_cancel_left hcons).symm

/-- When no send failed, nothing is left unsent. -/
theorem unsent_of_sendAll {c channel : Fifo Bytes} {as unsent : List Bytes} {rx : List Rx}
    (h : c.sendAll as rx = (channel, unsent, none)) : unsent = [] := by
  have hunsent := (Fifo.sendAll_unsent c as rx).2 (by rw [h])
  rwa [h] at hunsent

/-- What `mark_client_ready` returns when its sends end so. -/
def sendResult : Option SendError → Except ServerError Unit
  | none => .ok ()
  | some e => .error (sendError e)

/-- What `markClientReady` writes, for the client it finds. -/
theorem markClientReady_eq {st : ServerState} {a : SocketAddr} {t : ClientToken} {d : ClientDelivery}
    (hd : findDelivery st a t = some d) {rx : List Rx} {channel : Fifo Bytes} {unsent : List Bytes}
    {e : Option SendError} (hsend : (st.channels d.writer).sendAll d.pendingMessages rx = (channel, unsent, e)) :
    markClientReady st a t rx = (sendResult e, writeDelivery (setChannel st d.writer channel) a t
      (fun client => { client with pendingMessages := unsent, ready := client.ready || e.isNone })) := by
  unfold markClientReady
  rw [hd]
  dsimp only
  rw [hsend]
  cases e with
  | some e => simp [sendResult]
  | none => simp [sendResult, unsent_of_sendAll hsend]

/-- What `markClientReady` leaves behind, for the client it finds and for the others. -/
theorem findDelivery_markClientReady {st : ServerState} {a : SocketAddr} {t : ClientToken} {d : ClientDelivery}
    (hd : findDelivery st a t = some d) {rx : List Rx} {channel : Fifo Bytes} {unsent : List Bytes}
    {e : Option SendError} (hsend : (st.channels d.writer).sendAll d.pendingMessages rx = (channel, unsent, e))
    (b : SocketAddr) (u : ClientToken) : findDelivery (markClientReady st a t rx).2 b u =
      if (b, u) = (a, t) then some { d with pendingMessages := unsent, ready := d.ready || e.isNone }
      else findDelivery st b u := by
  rw [markClientReady_eq hd hsend]
  refine (findDelivery_writeDelivery ?_ a t b u).trans ?_
  · exact fun _ => rfl
  · show (if (b, u) = (a, t) then (findDelivery st a t).map _ else findDelivery st b u) = _
    rw [hd]
    rfl

/-- **A try to make a client ready**, whatever is pending, whatever the channel has and whatever room. -/
theorem exists_tries {st : ServerState} {a : SocketAddr} {t : ClientToken} {d : ClientDelivery}
    (hd : findDelivery st a t = some d) (rx : List Rx) : ∃ d', Tries st a t rx d d' := by
  rcases hsend : (st.channels d.writer).sendAll d.pendingMessages rx with ⟨channel, unsent, e⟩
  have heq := markClientReady_eq hd hsend
  have hconserves := Fifo.sendAll_conserves (st.channels d.writer) d.pendingMessages rx
  have hcontents := Fifo.sendAll_queued (st.channels d.writer) d.pendingMessages rx
  rw [hsend] at hconserves hcontents
  obtain ⟨hclients, hhistory, hchannels, hdisconnects, -⟩ := sessions_writeDelivery (setChannel st d.writer channel) a t
    (fun client => { client with pendingMessages := unsent, ready := client.ready || e.isNone })
  have hchannel : (markClientReady st a t rx).2.channels d.writer = channel := by
    rw [heq, hchannels]
    exact Function.update_self ..
  have hfind := findDelivery_markClientReady hd hsend
  refine ⟨{ d with pendingMessages := unsent, ready := d.ready || e.isNone }, ?_⟩
  constructor
  case found =>
    rw [hfind, if_pos rfl]
  case client => rfl
  case conserves =>
    unfold ClientDelivery.messages
    rw [hchannel]
    exact hconserves
  case contents =>
    rw [hchannel]
    exact hcontents
  case outcome =>
    cases e with
    | none =>
      refine .inl ⟨?_, by simp, unsent_of_sendAll hsend⟩
      rw [heq]
      rfl
    | some e =>
      refine .inr ⟨?_, by simp, exists_of_sendAll hsend⟩
      rw [heq]
      cases e with
      | full => exact .inl rfl
      | closed => exact .inr rfl
  case result =>
    rintro rfl
    have hresult := Fifo.sendAll_result (st.channels d.writer) d.pendingMessages
    rw [hsend] at hresult
    replace hresult : e = _ := hresult
    rw [heq]
    subst hresult
    split_ifs <;> rfl
  case others =>
    intro b u hne
    rw [hfind, if_neg hne]
  case channels =>
    intro w hw
    rw [heq, hchannels]
    exact Function.update_of_ne hw ..
  case clients => rw [heq, hclients]; rfl
  case history => rw [heq, hhistory]; rfl
  case disconnects => rw [heq, hdisconnects]; rfl

/-! ## Trying again -/

/-- The state after some tries, with what the receiver does in each. -/
def tries (a : SocketAddr) (t : ClientToken) : ServerState → List (List Rx) → ServerState
  | st, [] => st
  | st, rx :: rxs => tries a t (markClientReady st a t rx).2 rxs

theorem Tries.writer {st : ServerState} {a : SocketAddr} {t : ClientToken} {rx : List Rx} {d d' : ClientDelivery}
    (h : Tries st a t rx d d') : d'.writer = d.writer := by
  rw [h.client]

/-- **However often it is tried**, the channel and the pending list have the messages there were. -/
theorem tries_conserve : ∀ {st : ServerState} {a : SocketAddr} {t : ClientToken} {d : ClientDelivery}
    (rxs : List (List Rx)),
    findDelivery st a t = some d → ∃ d', findDelivery (tries a t st rxs) a t = some d' ∧ d'.writer = d.writer ∧
      d'.messages (tries a t st rxs) = d.messages st
  | _, _, _, d, [], hd => ⟨d, hd, rfl, rfl⟩
  | st, a, t, d, rx :: rxs, hd => by
    obtain ⟨d₁, htry⟩ := exists_tries hd rx
    obtain ⟨d', hd', hwriter, hmessages⟩ := tries_conserve rxs htry.found
    exact ⟨d', hd', hwriter.trans htry.writer, hmessages.trans htry.conserves⟩

/-- **Making a client ready loses no message**: a try moves what it can and keeps the rest, and when one after any
number that failed succeeds, the channel was sent the messages that were on it and then those that were pending. -/
theorem markClientReady_conserves {st : ServerState} {a : SocketAddr} {t : ClientToken} {d : ClientDelivery}
    (hd : findDelivery st a t = some d) : (∀ rx, ∃ d', Tries st a t rx d d') ∧
      ∀ rxs, ∃ d', findDelivery (tries a t st rxs) a t = some d' ∧ d'.messages (tries a t st rxs) = d.messages st ∧
        ∀ rx, (markClientReady (tries a t st rxs) a t rx).1 = .ok () →
          ((markClientReady (tries a t st rxs) a t rx).2.channels d.writer).sent = d.messages st := by
  refine ⟨exists_tries hd, fun rxs => ?_⟩
  obtain ⟨d', hd', hwriter, hmessages⟩ := tries_conserve rxs hd
  refine ⟨d', hd', hmessages, fun rx hok => ?_⟩
  obtain ⟨d'', htry⟩ := exists_tries hd' rx
  have hsent : d''.messages (markClientReady (tries a t st rxs) a t rx).2 = d.messages st :=
    htry.conserves.trans hmessages
  rcases htry.outcome with ⟨-, -, hempty⟩ | ⟨herror, -⟩
  · unfold ClientDelivery.messages at hsent
    rw [htry.writer, hwriter, hempty, List.append_nil] at hsent
    exact hsent
  · rw [hok] at herror
    rcases herror with h | h
    · cases h
    · cases h

/-- A pending client with two frames, and a channel with room for one. -/
def narrow : List CallLabel :=
  [.call (.registerClientWithStatus (.v4 0x7f000001 7878) 0 none false), .call (.broadcast [1] none),
    .call (.broadcast [2] none),
    .channels fun _ => .new 1]

theorem markClientReady_conserves_narrow : ∃ st d, System.Reach calls System.Any st ∧
    findDelivery st (.v4 0x7f000001 7878) 0 = some d ∧ d.pendingMessages = [[1], [2]] ∧
    (markClientReady st (.v4 0x7f000001 7878) 0 []).1 = .error .outboundQueueFull ∧
    ∀ rx, (markClientReady (tries (.v4 0x7f000001 7878) 0 st [[]]) (.v4 0x7f000001 7878) 0 rx).1 = .ok () →
      ((markClientReady (tries (.v4 0x7f000001 7878) 0 st [[]]) (.v4 0x7f000001 7878) 0 rx).2.channels d.writer).sent =
        d.messages st := by
  obtain ⟨st, hr, ht⟩ := System.exists_of_run calls (fun st =>
    (findDelivery st (.v4 0x7f000001 7878) 0).map (·.pendingMessages) == some [[1], [2]] &&
      decide ((markClientReady st (.v4 0x7f000001 7878) 0 []).1 = .error .outboundQueueFull)) narrow (by decide)
  rw [Bool.and_eq_true, beq_iff_eq, decide_eq_true_eq] at ht
  obtain ⟨d, hd, hpending⟩ := Option.map_eq_some_iff.1 ht.1
  obtain ⟨-, -, -, hcompletes⟩ := (markClientReady_conserves hd).2 [[]]
  exact ⟨st, d, hr, hd, hpending, ht.2, hcompletes⟩

/-- **A client with nothing pending is made ready although its channel is closed**: only a send finds that out. -/
theorem ready_with_closed : ∃ st d, System.Reach calls System.Any st ∧
    findDelivery st (.v4 0x7f000001 7878) 0 = some d ∧
    (markClientReady st (.v4 0x7f000001 7878) 0 []).1 = .ok () ∧ (st.channels d.writer).closed = true := by
  obtain ⟨st, hr, ht⟩ := System.exists_of_run calls (fun st =>
    decide ((markClientReady st (.v4 0x7f000001 7878) 0 []).1 = .ok ()) &&
      ((findDelivery st (.v4 0x7f000001 7878) 0).any fun d => (st.channels d.writer).closed))
    [.call (.registerClientWithStatus (.v4 0x7f000001 7878) 0 none false),
      .channels fun _ => { Fifo.new outboundQueueSize with closed := true }]
    (by decide)
  rw [Bool.and_eq_true, decide_eq_true_eq, Option.any_eq_true] at ht
  obtain ⟨hok, d, hd, hclosed⟩ := ht
  exact ⟨st, d, hr, hd, hok, hclosed⟩

end Server
end Drocsid
