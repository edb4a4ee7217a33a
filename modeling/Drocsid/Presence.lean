import Drocsid.Handshake
/-!
# Presence — what a presence payload decodes to

`parse_presence` reads back what `encode_presence` wrote (`parsePresence_encode`), and what it accepts is what
`encode_presence` writes for the users it returns: the payload is cut at each length prefix and nothing is left
(`parsePresence_iff`).  Names that `read_handshake_username` returned always encode, up to the server's limit of
connections (`encodePresence_of_usernames`).
-/
namespace Drocsid

open Text Protocol

namespace Protocol

theorem u16FromBeBytes_toBeBytes {n : Nat} (h : n < 2 ^ 16) :
    u16FromBeBytes (UInt8.ofNat (n / 256)) (UInt8.ofNat n) = n := by
  simp only [u16FromBeBytes, UInt8.toNat_ofNat']
  omega

/-- A range that ends where a part of the payload does is that part. -/
theorem getRange_append (pre a post : Bytes) :
    getRange (pre ++ (a ++ post)) pre.length (pre.length + a.length) = some a := by
  unfold getRange
  rw [if_pos ⟨by omega, by simp only [List.length_append]; omega⟩, List.drop_left, Nat.add_sub_cancel_left,
    List.take_left]

theorem getU16_append {n : Nat} (h : n < 2 ^ 16) (pre post : Bytes) :
    getU16 (pre ++ (u16ToBeBytes n ++ post)) pre.length = some n := by
  have := getRange_append pre (u16ToBeBytes n) post
  unfold getU16
  rw [show pre.length + 2 = pre.length + (u16ToBeBytes n).length from rfl, this]
  simp only [u16ToBeBytes, u16FromBeBytes_toBeBytes h]

/-- What the users' encoding says of its first one. -/
theorem encodeUsers_cons {user : Str} {users : List Str} {bytes : Bytes} (h : encodeUsers (user :: users) = .ok bytes) :
    isValidUsername user = true ∧ byteLen user < 2 ^ 16 ∧
      ∃ rest, encodeUsers users = .ok rest ∧ bytes = u16ToBeBytes (byteLen user) ++ (toBytes user ++ rest) := by
  unfold encodeUsers at h
  split at h
  · cases h
  · rename_i hvalid
    unfold u16TryFrom at h
    by_cases hlen : byteLen user < 2 ^ 16
    · simp only [if_pos hlen] at h
      split at h
      · cases h
      · rename_i rest hrest
        cases h
        exact ⟨by simpa using hvalid, hlen, rest, hrest, List.append_assoc _ _ _⟩
    · simp only [if_neg hlen] at h
      cases h

/-- **The loop of `parse_presence` reads back the users**, from where their encoding starts to its end. -/
theorem parseUsers_encode : ∀ {users : List Str} {bytes : Bytes} (pre : Bytes), encodeUsers users = .ok bytes →
    parseUsers (pre ++ bytes) users.length pre.length = some (users, (pre ++ bytes).length)
  | [], bytes, pre, h => by
    cases h
    simp [parseUsers]
  | user :: users, bytes, pre, h => by
    obtain ⟨hvalid, hlen, rest, hrest, rfl⟩ := encodeUsers_cons h
    have hname : getRange (pre ++ (u16ToBeBytes (byteLen user) ++ (toBytes user ++ rest))) (pre.length + 2)
        (pre.length + 2 + byteLen user) = some (toBytes user) := by
      have := getRange_append (pre ++ u16ToBeBytes (byteLen user)) (toBytes user) rest
      rwa [List.length_append, show (u16ToBeBytes (byteLen user)).length = 2 from rfl, length_toBytes,
        List.append_assoc] at this
    have ih := parseUsers_encode (pre ++ u16ToBeBytes (byteLen user) ++ toBytes user) hrest
    simp only [List.length_append, show (u16ToBeBytes (byteLen user)).length = 2 from rfl, length_toBytes,
      List.append_assoc, ← Nat.add_assoc] at ih
    rw [List.length_cons, parseUsers]
    simp only [getU16_append hlen, hname, fromUtf8_toBytes, hvalid, Option.bind_eq_bind, Option.bind_some,
      Bool.not_true,
      Bool.false_eq_true, if_false, ih, List.length_append, show (u16ToBeBytes (byteLen user)).length = 2 from rfl,
        length_toBytes,
      ← Nat.add_assoc]

/-- **A presence frame reads back**: its payload is parsed to the users it was made of. -/
theorem parsePresence_encode {users : List Str} {frame : Bytes} (h : encodePresence users = .ok frame) :
    ∃ payload, encodeFrame .presence payload = .ok frame ∧ parsePresence payload = some users := by
  unfold encodePresence u16TryFrom at h
  by_cases hlen : users.length < 2 ^ 16
  · simp only [if_pos hlen] at h
    split at h
    · cases h
    · rename_i rest hrest
      refine ⟨u16ToBeBytes users.length ++ rest, h, ?_⟩
      have hcount := getU16_append hlen [] rest
      have husers := parseUsers_encode (u16ToBeBytes users.length) hrest
      rw [show (u16ToBeBytes users.length).length = 2 from rfl] at husers
      rw [List.nil_append, List.length_nil] at hcount
      unfold parsePresence
      simp only [hcount, husers, Option.bind_eq_bind, Option.bind_some, if_true]
  · simp only [if_neg hlen] at h
    cases h

/-! ## What is accepted -/

/-- A range that was got is inside the payload, and its bytes are all there. -/
theorem getRange_eq_some {payload bs : Bytes} {i j : Nat} (h : getRange payload i j = some bs) :
    i ≤ j ∧ j ≤ payload.length ∧ bs.length = j - i ∧ payload.drop i = bs ++ payload.drop j := by
  unfold getRange at h
  split at h
  · rename_i hij
    cases h
    refine ⟨hij.1, hij.2, by rw [List.length_take, List.length_drop]; omega, ?_⟩
    conv => lhs; rw [← List.take_append_drop (j - i) (payload.drop i)]
    rw [List.drop_drop, Nat.add_sub_cancel' hij.1]
  · cases h

theorem toBeBytes_u16FromBeBytes (b0 b1 : UInt8) : u16ToBeBytes (u16FromBeBytes b0 b1) = [b0, b1] := by
  have h0 := b0.toNat_lt
  have h1 := b1.toNat_lt
  have hb0 : UInt8.ofNat (u16FromBeBytes b0 b1 / 256) = b0 := UInt8.toNat_inj.1 (by
    simp only [u16FromBeBytes, UInt8.toNat_ofNat']; omega)
  have hb1 : UInt8.ofNat (u16FromBeBytes b0 b1) = b1 := UInt8.toNat_inj.1 (by
    simp only [u16FromBeBytes, UInt8.toNat_ofNat']; omega)
  rw [u16ToBeBytes, hb0, hb1]

/-- A length prefix that was read is its number's two bytes. -/
theorem getU16_eq_some {payload : Bytes} {i n : Nat} (h : getU16 payload i = some n) :
    i + 2 ≤ payload.length ∧ n < 2 ^ 16 ∧ payload.drop i = u16ToBeBytes n ++ payload.drop (i + 2) := by
  unfold getU16 at h
  split at h
  · rename_i b0 b1 hr
    cases h
    obtain ⟨-, hlen, -, hdrop⟩ := getRange_eq_some hr
    have h0 := b0.toNat_lt
    have h1 := b1.toNat_lt
    exact ⟨hlen, by simp only [u16FromBeBytes]; omega, by rw [toBeBytes_u16FromBeBytes, hdrop]⟩
  · cases h

/-- **The loop accepts encodings only**: from where it starts to where it ends, the payload is the encoding of the
users. -/
theorem parseUsers_eq_some {payload : Bytes} : ∀ {count offset last : Nat} {users : List Str},
    parseUsers payload count offset = some (users, last) → offset ≤ payload.length →
    users.length = count ∧ last ≤ payload.length ∧
      ∃ bytes, encodeUsers users = .ok bytes ∧ payload.drop offset = bytes ++ payload.drop last
  | 0, offset, last, users, h, hle => by
    cases h
    exact ⟨rfl, hle, [], rfl, rfl⟩
  | count + 1, offset, last, users, h, _ => by
    unfold parseUsers at h
    simp only [Option.bind_eq_bind, Option.bind_eq_some_iff] at h
    obtain ⟨length, hlength, name, hname, user, huser, h⟩ := h
    obtain ⟨-, hlt, hfront⟩ := getU16_eq_some hlength
    obtain ⟨-, hin, hcount, hbody⟩ := getRange_eq_some hname
    obtain rfl := fromUtf8_eq_some.1 huser
    rw [length_toBytes, Nat.add_sub_cancel_left] at hcount
    subst hcount
    split at h
    · cases h
    · rename_i hvalid
      obtain ⟨⟨users', last'⟩, hrest, he⟩ := Option.bind_eq_some_iff.1 h
      cases he
      obtain ⟨hlen, hlast, bytes, henc, hdrop⟩ := parseUsers_eq_some hrest hin
      refine ⟨by rw [List.length_cons, hlen], hlast, u16ToBeBytes (byteLen user) ++ toBytes user ++ bytes, ?_, ?_⟩
      · simp only [encodeUsers, if_neg hvalid, u16TryFrom, if_pos hlt, henc]
      · rw [hfront, hbody, hdrop, List.append_assoc, List.append_assoc]

/-- **What `parse_presence` accepts is what `encode_presence` writes** for the users it returns. -/
theorem encodePresence_of_parse {payload : Bytes} {users : List Str} (h : parsePresence payload = some users) :
    encodePresence users = encodeFrame .presence payload := by
  unfold parsePresence at h
  simp only [Option.bind_eq_bind, Option.bind_eq_some_iff] at h
  obtain ⟨count, hcount, ⟨users', last⟩, husers, h⟩ := h
  split at h
  · rename_i hend
    cases h
    obtain ⟨hin, hlt, hfront⟩ := getU16_eq_some hcount
    obtain ⟨rfl, -, bytes, henc, hdrop⟩ := parseUsers_eq_some husers hin
    rw [show last = payload.length from hend, List.drop_length, List.append_nil] at hdrop
    rw [List.drop_zero, Nat.zero_add, hdrop] at hfront
    simp only [encodePresence, u16TryFrom, if_pos hlt, henc, hfront]
  · cases h

/-- The ranges of the payload that `parse_presence`'s loop takes, in order. -/
def usersRanges (payload : Bytes) : Nat → Nat → List (Nat × Nat)
  | 0, _ => []
  | count + 1, offset => (offset, offset + 2) ::
    match getU16 payload offset with
    | none => []
    | some length => (offset + 2, offset + 2 + length) ::
      match (getRange payload (offset + 2) (offset + 2 + length)).bind fromUtf8 with
      | none => []
      | some user => if !isValidUsername user then [] else usersRanges payload count (offset + 2 + length)

def presenceRanges (payload : Bytes) : List (Nat × Nat) :=
  (0, 2) ::
    match getU16 payload 0 with
    | none => []
    | some count => usersRanges payload count 2

/-- Ranges that lie in a payload, but for perhaps the last, which then gives no value. -/
def Guarded (payload : Bytes) (failed : Prop) (ranges : List (Nat × Nat)) : Prop :=
  ∀ r ∈ ranges, r.1 ≤ r.2 ∧ (r.2 ≤ payload.length ∨ failed ∧ ranges.getLast? = some r)

theorem Guarded.nil {payload : Bytes} {failed : Prop} : Guarded payload failed [] := fun _ h => by cases h

theorem Guarded.cons {payload : Bytes} {failed : Prop} {r : Nat × Nat} {ranges : List (Nat × Nat)}
    (h : Guarded payload failed ranges) (hle : r.1 ≤ r.2) (hin : r.2 ≤ payload.length) :
    Guarded payload failed (r :: ranges) := by
  intro q hq
  rcases List.mem_cons.1 hq with rfl | hq
  · exact ⟨hle, .inl hin⟩
  · obtain ⟨hle, hin⟩ := h q hq
    refine ⟨hle, hin.imp_right fun ⟨hf, hlast⟩ => ⟨hf, ?_⟩⟩
    rw [List.getLast?_cons, hlast]
    rfl

theorem Guarded.last {payload : Bytes} {failed : Prop} {r : Nat × Nat} (hle : r.1 ≤ r.2) (hf : failed) :
    Guarded payload failed [r] := by
  intro q hq
  rw [List.mem_singleton.1 hq]
  exact ⟨hle, .inr ⟨hf, rfl⟩⟩

theorem guarded_usersRanges (payload : Bytes) : ∀ (count offset : Nat),
    Guarded payload (parseUsers payload count offset = none) (usersRanges payload count offset)
  | 0, _ => .nil
  | count + 1, offset => by
    unfold usersRanges parseUsers
    cases hlength : getU16 payload offset with
    | none => exact .last (Nat.le_add_right _ _) rfl
    | some length =>
      obtain ⟨hin, -⟩ := getU16_eq_some hlength
      refine .cons ?_ (Nat.le_add_right _ _) hin
      simp only [Option.bind_eq_bind, Option.bind_some]
      cases hname : getRange payload (offset + 2) (offset + 2 + length) with
      | none => exact .last (Nat.le_add_right (offset + 2) length) rfl
      | some name =>
        obtain ⟨-, hin', -⟩ := getRange_eq_some hname
        simp only [Option.bind_some]
        cases huser : fromUtf8 name with
        | none => exact .cons .nil (Nat.le_add_right _ _) hin'
        | some user =>
          refine .cons ?_ (Nat.le_add_right _ _) hin'
          simp only [Option.bind_some]
          split
          · exact .nil
          · have ih := guarded_usersRanges payload count (offset + 2 + length)
            intro r hr
            obtain ⟨hle, hor⟩ := ih r hr
            exact ⟨hle, hor.imp_right fun ⟨hf, hlast⟩ => ⟨by rw [hf]; rfl, hlast⟩⟩

theorem guarded_presenceRanges (payload : Bytes) : Guarded payload (parsePresence payload = none)
    (presenceRanges payload) := by
  unfold presenceRanges parsePresence
  cases hcount : getU16 payload 0 with
  | none => exact .last (Nat.zero_le _) rfl
  | some count =>
    obtain ⟨hin, -⟩ := getU16_eq_some hcount
    refine .cons (fun r hr => ?_) (Nat.zero_le _) hin
    obtain ⟨hle, hor⟩ := guarded_usersRanges payload count 2 r hr
    exact ⟨hle, hor.imp_right fun ⟨hf, hlast⟩ => ⟨by simp [hf], hlast⟩⟩

/-- **Decoding is the inverse of encoding**: a payload decodes to a list exactly when the list encodes to its frame, and
no range that decoding takes of any payload reaches past its end, unless it is the last and decoding fails there. -/
theorem parsePresence_iff : (∀ (payload : Bytes) (users : List Str), payload.length ≤ maxFramePayloadBytes →
      (parsePresence payload = some users ↔
        ∃ frame, encodeFrame .presence payload = .ok frame ∧ encodePresence users = .ok frame)) ∧
    ∀ payload, Guarded payload (parsePresence payload = none) (presenceRanges payload) := by
  refine ⟨fun payload users hlen => ⟨fun h => ?_, fun ⟨frame, hf, he⟩ => ?_⟩, guarded_presenceRanges⟩
  · have hframe : encodeFrame .presence payload = .ok _ := encodeFrame_eq_ok.2 ⟨hlen, rfl⟩
    exact ⟨_, hframe, (encodePresence_of_parse h).trans hframe⟩
  · obtain ⟨payload', hf', hparse⟩ := parsePresence_encode he
    obtain ⟨-, rfl⟩ := encodeFrame_eq_ok.1 hf
    have hsame : payload = payload' := List.append_inj_right (encodeFrame_eq_ok.1 hf').2 rfl
    rw [hsame]
    exact hparse

end Protocol

namespace Server

theorem encodeUsers_of_usernames : ∀ {users : List Str}, (∀ u ∈ users, IsUsername u) →
    ∃ bytes, encodeUsers users = .ok bytes ∧ bytes.length ≤ (maxUsernameBytes + 2) * users.length
  | [], _ => ⟨[], rfl, Nat.zero_le _⟩
  | user :: users, h => by
    have hu := h user List.mem_cons_self
    obtain ⟨rest, hrest, hlen⟩ := encodeUsers_of_usernames fun u hu => h u (List.mem_cons_of_mem _ hu)
    have hshort : byteLen user < 65536 := Nat.lt_of_le_of_lt hu.short (by decide)
    refine ⟨u16ToBeBytes (byteLen user) ++ toBytes user ++ rest, ?_, ?_⟩
    · simp [encodeUsers, hu.valid, u16TryFrom, hshort, hrest]
    · have := hu.short
      simp only [List.length_append, show (u16ToBeBytes (byteLen user)).length = 2 from rfl, length_toBytes,
        List.length_cons]
      rw [Nat.mul_succ]
      omega

/-- **Usernames always encode**, as many as there may be connections. -/
theorem encodePresence_of_usernames {users : List Str} (h : ∀ u ∈ users, IsUsername u) (hlen : users.length ≤ 256) :
    ∃ frame, encodePresence users = .ok frame := by
  obtain ⟨rest, hrest, hsize⟩ := encodeUsers_of_usernames h
  have hbound : (maxUsernameBytes + 2) * users.length ≤ 34 * 256 := Nat.mul_le_mul_left 34 hlen
  have hfits : ¬ (u16ToBeBytes users.length ++ rest).length > maxFramePayloadBytes := by
    simp only [List.length_append, show (u16ToBeBytes users.length).length = 2 from rfl, maxFramePayloadBytes]
    omega
  unfold encodePresence u16TryFrom encodeFrame
  rw [if_pos (show users.length < 2 ^ 16 by omega)]
  simp only [hrest, if_neg hfits]
  exact ⟨_, rfl⟩

end Server
end Drocsid
