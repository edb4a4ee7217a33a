import Drocsid.Protocol
/-!
# Framing — the two frame readers

`readFrame` (`crates/protocol`, used by the client) fills its header in a loop of its own; `readAsyncFrame`
(`crates/server/src/connection.rs`) reads one byte, then five.  However the stream is cut into chunks, either is a
function of its bytes (`decode`), with checks of the header in an order of its own.  Both obey the law of the frame code
(`FrameLaw`): reading a stream to its end cuts it into encoded frames and a rest that no encoded frame starts.
-/
namespace Drocsid

open Text ByteSource Protocol

/-- `ServerError` (`crates/server/src/lib.rs`), without the poisoned mutex. -/
inductive ServerError
  | emptyHandshakeUsername | usernameContainsControlCharacters | usernameTooLong | messageTooLong | invalidFrameType
  | unsupportedProtocolVersion | unknownProtocolFrameType | truncatedProtocolFrame | presenceEncodingFailed
  | invalidUtf8 | connectionLimitReached | messageRateLimitExceeded | outboundQueueFull | outboundWriterGone
  | unknownClient | io (kind : ErrorKind)
  deriving DecidableEq, Repr

/-- `read_header`'s loop, with the bytes read so far; none is its `Ok(false)`. -/
def readHeader (got : Bytes) (src : Source) : Except FrameError (Option Bytes) × Source :=
  if got.length < frameHeaderBytes then
    match ByteSource.read (frameHeaderBytes - got.length) src with
    | (.ok [], src') => if got = [] then (.ok none, src') else (.error .truncated, src')
    | (.ok (b :: bs), src') => readHeader (got ++ b :: bs) src'
    | (.error kind, src') => (.error (.io kind), src')
  else (.ok (some got), src)
termination_by frameHeaderBytes - got.length
decreasing_by simp only [List.length_append, List.length_cons]; omega

/-- `header[i]` of a six-byte buffer. -/
def headerByte (header : Bytes) (i : Nat) : UInt8 := header.getD i 0

/-- `u32::from_be_bytes([header[2], header[3], header[4], header[5]])`. -/
def headerLen (header : Bytes) : Nat :=
  u32FromBeBytes (headerByte header 2) (headerByte header 3) (headerByte header 4) (headerByte header 5)

def readFrame (src : Source) : Except FrameError (Option Frame) × Source :=
  match readHeader [] src with
  | (.error e, src) => (.error e, src)
  | (.ok none, src) => (.ok none, src)
  | (.ok (some header), src) =>
    let version := headerByte header 0
    if version ≠ currentProtocolVersion then (.error (.unsupportedVersion version), src)
    else match FrameType.tryFrom (headerByte header 1) with
      | .error e => (.error e, src)
      | .ok kind =>
        if headerLen header > maxFramePayloadBytes then (.error (.tooLarge (headerLen header)), src)
        else match readExact true (headerLen header) src with
          | (.error .unexpectedEof, src) => (.error .truncated, src)
          | (.error kind, src) => (.error (.io kind), src)
          | (.ok payload, src) => (.ok (some ⟨version, kind, payload⟩), src)

/-- The server's `map_err` of a `read_exact`. -/
def truncatedOrIo : ErrorKind → ServerError
  | .unexpectedEof => .truncatedProtocolFrame
  | kind => .io kind

def readAsyncFrame (src : Source) : Except ServerError (Option Frame) × Source :=
  match ByteSource.read 1 src with
  | (.error kind, src) => (.error (.io kind), src)
  | (.ok [], src) => (.ok none, src)
  | (.ok (first :: _), src) =>
    match readExact false (frameHeaderBytes - 1) src with
    | (.error kind, src) => (.error (truncatedOrIo kind), src)
    | (.ok rest, src) =>
      let bytes := first :: rest
      if headerLen bytes > maxFramePayloadBytes then (.error .messageTooLong, src)
      else
        let version := headerByte bytes 0
        if version ≠ currentProtocolVersion then (.error .unsupportedProtocolVersion, src)
        else match FrameType.tryFrom (headerByte bytes 1) with
          | .error _ => (.error .unknownProtocolFrameType, src)
          | .ok kind =>
            match readExact false (headerLen bytes) src with
            | (.error kind, src) => (.error (truncatedOrIo kind), src)
            | (.ok payload, src) => (.ok (some ⟨version, kind, payload⟩), src)

/-! ## What an encoded frame is -/

theorem tryFrom_toByte (kind : FrameType) : FrameType.tryFrom kind.toByte = .ok kind := by cases kind <;> rfl

theorem toByte_of_tryFrom {value : UInt8} {kind : FrameType} (h : FrameType.tryFrom value = .ok kind) :
    value = kind.toByte := by
  unfold FrameType.tryFrom at h
  split at h
  · cases h; assumption
  · split at h
    · cases h; assumption
    · split at h
      · cases h; assumption
      · cases h

theorem tryFrom_error {value : UInt8} {e : FrameError} (h : FrameType.tryFrom value = .error e) :
    e = .unknownType value := by
  unfold FrameType.tryFrom at h
  split at h
  · cases h
  · split at h
    · cases h
    · split at h
      · cases h
      · cases h
        rfl

/-- The six bytes `encode_frame` puts before a payload of this length. -/
def frameHeader (kind : FrameType) (len : Nat) : Bytes :=
  [currentProtocolVersion, kind.toByte, UInt8.ofNat ((len >>> 24) &&& 0xff), UInt8.ofNat ((len >>> 16) &&& 0xff),
    UInt8.ofNat ((len >>> 8) &&& 0xff), UInt8.ofNat (len &&& 0xff)]

theorem encodeFrame_eq_ok {kind : FrameType} {payload bytes : Bytes} :
    encodeFrame kind payload = .ok bytes ↔
      payload.length ≤ maxFramePayloadBytes ∧ bytes = frameHeader kind payload.length ++ payload := by
  unfold encodeFrame
  split
  · simp only [reduceCtorEq, false_iff, not_and]; omega
  · rename_i h
    simp only [Except.ok.injEq, frameHeader]
    exact ⟨fun hb => ⟨by omega, hb.symm⟩, fun hb => hb.2.symm⟩

theorem byte_of_len (n : Nat) : (UInt8.ofNat (n &&& 0xff)).toNat = n % 256 := by
  rw [UInt8.toNat_ofNat', show (0xff : Nat) = 2 ^ 8 - 1 from rfl, Nat.and_two_pow_sub_one_eq_mod]
  simp

theorem headerLen_cons (version kind b0 b1 b2 b3 : UInt8) (rest : Bytes) :
    headerLen (version :: kind :: b0 :: b1 :: b2 :: b3 :: rest) = u32FromBeBytes b0 b1 b2 b3 := rfl

/-- **The four length bytes read back as the length**, below `2 ^ 32`. -/
theorem headerLen_frameHeader (kind : FrameType) (len : Nat) (rest : Bytes) (h : len < 2 ^ 32) :
    headerLen (frameHeader kind len ++ rest) = len := by
  simp only [frameHeader, List.cons_append]
  rw [headerLen_cons, u32FromBeBytes, byte_of_len, byte_of_len, byte_of_len, byte_of_len]
  simp only [Nat.shiftRight_eq_div_pow]
  omega

/-- A length's bytes are the ones it was read from. -/
theorem lenBytes_u32FromBeBytes (b0 b1 b2 b3 : UInt8) :
    let len := u32FromBeBytes b0 b1 b2 b3
    UInt8.ofNat ((len >>> 24) &&& 0xff) = b0 ∧ UInt8.ofNat ((len >>> 16) &&& 0xff) = b1 ∧
      UInt8.ofNat ((len >>> 8) &&& 0xff) = b2 ∧ UInt8.ofNat (len &&& 0xff) = b3 := by
  have := b0.toNat_lt; have := b1.toNat_lt; have := b2.toNat_lt; have := b3.toNat_lt
  simp only [← UInt8.toNat_inj, byte_of_len, Nat.shiftRight_eq_div_pow, u32FromBeBytes]
  omega

theorem exists_six {s : Bytes} (h : 6 ≤ s.length) :
    ∃ b0 b1 b2 b3 b4 b5 r, s = b0 :: b1 :: b2 :: b3 :: b4 :: b5 :: r := by
  match s, h with
  | b0 :: b1 :: b2 :: b3 :: b4 :: b5 :: r, _ => exact ⟨b0, b1, b2, b3, b4, b5, r, rfl⟩

/-- **A stream whose header is valid and whose payload is there begins with an encoded frame.** -/
theorem encodeFrame_of_header {s : Bytes} {kind : FrameType} (hv : headerByte s 0 = currentProtocolVersion)
    (hk : FrameType.tryFrom (headerByte s 1) = .ok kind) (hm : headerLen s ≤ maxFramePayloadBytes)
    (hl : frameHeaderBytes + headerLen s ≤ s.length) :
    encodeFrame kind ((s.drop frameHeaderBytes).take (headerLen s)) =
      .ok (s.take (frameHeaderBytes + headerLen s)) := by
  obtain ⟨b0, b1, b2, b3, b4, b5, r, rfl⟩ := exists_six (s := s) (by unfold frameHeaderBytes at hl; omega)
  rw [headerLen_cons] at hm hl ⊢
  have hr : u32FromBeBytes b2 b3 b4 b5 ≤ r.length := by
    simp only [frameHeaderBytes, List.length_cons] at hl; omega
  have hdrop : (b0 :: b1 :: b2 :: b3 :: b4 :: b5 :: r).drop frameHeaderBytes = r := rfl
  have hplen : (r.take (u32FromBeBytes b2 b3 b4 b5)).length = u32FromBeBytes b2 b3 b4 b5 := by
    rw [List.length_take]; omega
  obtain ⟨e2, e3, e4, e5⟩ := lenBytes_u32FromBeBytes b2 b3 b4 b5
  have hb0 : b0 = currentProtocolVersion := hv
  have hb1 : b1 = kind.toByte := toByte_of_tryFrom hk
  refine encodeFrame_eq_ok.2 ⟨by rw [hdrop, hplen]; exact hm, ?_⟩
  rw [hdrop, hplen, frameHeader, e2, e3, e4, e5, hb0, hb1, Nat.add_comm frameHeaderBytes]
  rfl

/-! ## The law -/

/-- The frames' encodings, one after another. -/
def encodeAll : List Frame → Except FrameError Bytes
  | [] => .ok []
  | f :: fs =>
    match encodeFrame f.kind f.payload, encodeAll fs with
    | .ok b, .ok bs => .ok (b ++ bs)
    | .error e, _ => .error e
    | _, .error e => .error e

/-- Some encoded frame starts the bytes. -/
def BeginsWithFrame (s : Bytes) : Prop := ∃ kind payload bytes, encodeFrame kind payload = .ok bytes ∧ bytes <+: s

variable {ε : Type}

/-- Read until `Ok(None)` or an error; `fuel` bounds the frames, which the bytes do. -/
def readFramesGo (reader : Source → Except ε (Option Frame) × Source) :
    Nat → Source → List Frame × Option (Except ε Unit)
  | 0, _ => ([], none)
  | fuel + 1, src =>
    match reader src with
    | (.ok none, _) => ([], some (.ok ()))
    | (.error e, _) => ([], some (.error e))
    | (.ok (some f), src') =>
      let (fs, out) := readFramesGo reader fuel src'
      (f :: fs, out)

/-- The frames a reader returns before its `Ok(None)` or error, and which of the two ends the run. -/
def readFrames (reader : Source → Except ε (Option Frame) × Source) (src : Source) :
    List Frame × Option (Except ε Unit) := readFramesGo reader ((stream src).length + 1) src

/-- **What one read of a frame reader does**, by what the stream begins with. -/
structure ReadsFrames (reader : Source → Except ε (Option Frame) × Source) : Prop where
  eof : ∀ {src : Source}, Chunked src → stream src = [] → ∃ src', reader src = (.ok none, src')
  frame : ∀ {src : Source} {kind : FrameType} {payload bytes rest : Bytes}, Chunked src →
    encodeFrame kind payload = .ok bytes → stream src = bytes ++ rest →
    ∃ src', reader src = (.ok (some ⟨currentProtocolVersion, kind, payload⟩), src') ∧ stream src' = rest ∧ Chunked src'
  error : ∀ {src : Source}, Chunked src → stream src ≠ [] → ¬ BeginsWithFrame (stream src) →
    ∃ e src', reader src = (.error e, src')

theorem length_of_encodeFrame {kind : FrameType} {payload bytes : Bytes} (h : encodeFrame kind payload = .ok bytes) :
    bytes.length = frameHeaderBytes + payload.length := by
  rw [(encodeFrame_eq_ok.1 h).2, List.length_append]; rfl

theorem not_beginsWithFrame_nil : ¬ BeginsWithFrame [] := by
  rintro ⟨kind, payload, bytes, henc, hpre⟩
  have := length_of_encodeFrame henc
  rw [List.prefix_nil.1 hpre, List.length_nil] at this
  unfold frameHeaderBytes at this; omega

theorem encodeAll_cons {f : Frame} {fs : List Frame} {b bs : Bytes} (h : encodeFrame f.kind f.payload = .ok b)
    (hs : encodeAll fs = .ok bs) : encodeAll (f :: fs) = .ok (b ++ bs) := by simp only [encodeAll, h, hs]

theorem encodeAll_cons_inv {f : Frame} {fs : List Frame} {bytes : Bytes} (h : encodeAll (f :: fs) = .ok bytes) :
    ∃ b bs, encodeFrame f.kind f.payload = .ok b ∧ encodeAll fs = .ok bs ∧ bytes = b ++ bs := by
  unfold encodeAll at h
  split at h
  · rename_i b bs hb hbs
    exact ⟨b, bs, hb, hbs, (Except.ok.inj h).symm⟩
  · cases h
  · cases h

/-- Frames of at most `MAX_FRAME_PAYLOAD_BYTES` all encode. -/
theorem exists_encodeAll : ∀ (fs : List Frame), (∀ f ∈ fs, f.payload.length ≤ maxFramePayloadBytes) →
    ∃ bytes, encodeAll fs = .ok bytes
  | [], _ => ⟨[], rfl⟩
  | f :: fs, h => by
    obtain ⟨bs, hbs⟩ := exists_encodeAll fs (fun g hg => h g (List.mem_cons_of_mem _ hg))
    exact ⟨_, encodeAll_cons (encodeFrame_eq_ok.2 ⟨h f List.mem_cons_self, rfl⟩) hbs⟩

section Reader

variable {reader : Source → Except ε (Option Frame) × Source}

/-- **A read that returns a frame consumed exactly its encoding.** -/
theorem ReadsFrames.consumes (R : ReadsFrames reader) {src src' : Source} {f : Frame} (hc : Chunked src)
    (h : reader src = (.ok (some f), src')) :
    f.version = currentProtocolVersion ∧ Chunked src' ∧
      ∃ bytes, encodeFrame f.kind f.payload = .ok bytes ∧ stream src = bytes ++ stream src' := by
  by_cases hnil : stream src = []
  · obtain ⟨_, he⟩ := R.eof hc hnil
    rw [h] at he; cases he
  · by_cases hb : BeginsWithFrame (stream src)
    · obtain ⟨kind, payload, bytes, henc, rest, hrest⟩ := hb
      obtain ⟨src'', hr, hs, hc'⟩ := R.frame hc henc hrest.symm
      rw [h] at hr
      cases hr
      exact ⟨rfl, hc', bytes, henc, by rw [hs]; exact hrest.symm⟩
    · obtain ⟨_, _, he⟩ := R.error hc hnil hb
      rw [h] at he; cases he

/-- A run cuts the stream into encoded frames and a rest none starts, and ends cleanly exactly at its end. -/
theorem ReadsFrames.cut_go (R : ReadsFrames reader) : ∀ (fuel : Nat) (src : Source), Chunked src →
    (stream src).length < fuel → ∃ fs out bytes rest, readFramesGo reader fuel src = (fs, some out) ∧
      (∀ f ∈ fs, f.version = currentProtocolVersion) ∧ encodeAll fs = .ok bytes ∧ stream src = bytes ++ rest ∧
      (out = .ok () ↔ rest = []) ∧ ¬ BeginsWithFrame rest
  | 0, _, _, h => absurd h (Nat.not_lt_zero _)
  | fuel + 1, src, hc, hl => by
    by_cases hnil : stream src = []
    · obtain ⟨src', he⟩ := R.eof hc hnil
      refine ⟨[], .ok (), [], [], ?_, by simp, rfl, hnil, by simp, not_beginsWithFrame_nil⟩
      simp only [readFramesGo, he]
    · by_cases hb : BeginsWithFrame (stream src)
      · obtain ⟨kind, payload, b, henc, r, hr⟩ := hb
        obtain ⟨src', hread, hs, hc'⟩ := R.frame hc henc hr.symm
        have hlen := length_of_encodeFrame henc
        have hlt : (stream src').length < fuel := by
          rw [← hr, List.length_append] at hl
          unfold frameHeaderBytes at hlen
          rw [hs]; omega
        obtain ⟨fs, out, bytes, rest, hgo, hv, hall, hstr, hout, hrest⟩ := R.cut_go fuel src' hc' hlt
        refine ⟨⟨currentProtocolVersion, kind, payload⟩ :: fs, out, b ++ bytes, rest, ?_, ?_,
          encodeAll_cons henc hall, ?_, hout, hrest⟩
        · simp only [readFramesGo, hread, hgo]
        · intro f hf
          rcases List.mem_cons.1 hf with rfl | hf
          · rfl
          · exact hv f hf
        · rw [← hr, ← hs, hstr, List.append_assoc]
      · obtain ⟨e, src', he⟩ := R.error hc hnil hb
        refine ⟨[], .error e, [], stream src, ?_, by simp, rfl, rfl, ?_, hb⟩
        · simp only [readFramesGo, he]
        · simp [hnil]

/-- Encoded frames, and nothing after them, read back as themselves. -/
theorem ReadsFrames.roundTrip_go (R : ReadsFrames reader) : ∀ (fs : List Frame) (fuel : Nat) (src : Source)
    (bytes : Bytes),
    Chunked src → (∀ f ∈ fs, f.version = currentProtocolVersion) → encodeAll fs = .ok bytes → stream src = bytes →
    bytes.length < fuel → readFramesGo reader fuel src = (fs, some (.ok ()))
  | _, 0, _, _, _, _, _, _, h => absurd h (Nat.not_lt_zero _)
  | [], fuel + 1, src, bytes, hc, _, he, hs, _ => by
    cases he
    obtain ⟨src', hread⟩ := R.eof hc hs
    simp only [readFramesGo, hread]
  | f :: fs, fuel + 1, src, bytes, hc, hv, he, hs, hl => by
    obtain ⟨b, bs, hb, hbs, rfl⟩ := encodeAll_cons_inv he
    obtain ⟨src', hread, hs', hc'⟩ := R.frame hc hb hs
    have hlen := length_of_encodeFrame hb
    rw [List.length_append] at hl
    unfold frameHeaderBytes at hlen
    have ih := R.roundTrip_go fs fuel src' bs hc' (fun g hg => hv g (List.mem_cons_of_mem _ hg)) hbs hs' (by omega)
    have hf : f = ⟨currentProtocolVersion, f.kind, f.payload⟩ := by
      rw [← hv f List.mem_cons_self]
    simp only [readFramesGo, hread, ih]
    rw [← hf]

/-- **The law of the frame code**, for a reader run on any chunking of any bytes. -/
structure FrameLaw (reader : Source → Except ε (Option Frame) × Source) : Prop where
  /-- The run ends, having cut the stream into encoded frames and a rest. -/
  cut : ∀ src, Chunked src → ∃ fs out bytes rest, readFrames reader src = (fs, some out) ∧
    (∀ f ∈ fs, f.version = currentProtocolVersion) ∧ encodeAll fs = .ok bytes ∧ stream src = bytes ++ rest ∧
    (out = .ok () ↔ rest = []) ∧ ¬ BeginsWithFrame rest
  roundTrip : ∀ fs, (∀ f ∈ fs, f.version = currentProtocolVersion ∧ f.payload.length ≤ maxFramePayloadBytes) →
    ∃ bytes, encodeAll fs = .ok bytes ∧
      ∀ src, Chunked src → stream src = bytes → readFrames reader src = (fs, some (.ok ()))
  consumes : ∀ src src' f, Chunked src → reader src = (.ok (some f), src') → f.version = currentProtocolVersion ∧
    Chunked src' ∧ ∃ bytes, encodeFrame f.kind f.payload = .ok bytes ∧ stream src = bytes ++ stream src'

theorem ReadsFrames.frameLaw (R : ReadsFrames reader) : FrameLaw reader where
  cut src hc := R.cut_go _ src hc (Nat.lt_succ_self _)
  roundTrip fs hfs := by
    obtain ⟨bytes, he⟩ := exists_encodeAll fs (fun f hf => (hfs f hf).2)
    refine ⟨bytes, he, fun src hc hs => ?_⟩
    exact R.roundTrip_go fs _ src bytes hc (fun f hf => (hfs f hf).1) he hs (by rw [hs]; exact Nat.lt_succ_self _)
  consumes _ _ _ hc h := R.consumes hc h

end Reader

/-! ## The two readers -/

theorem readHeader_full {got : Bytes} (h : frameHeaderBytes ≤ got.length) (src : Source) :
    readHeader got src = (.ok (some got), src) := by
  rw [readHeader, if_neg (Nat.not_lt.2 h)]

theorem readHeader_fail {got : Bytes} (h : got.length < frameHeaderBytes) (kind : ErrorKind) (src : Source) :
    readHeader got (.fail kind :: src) = (.error (.io kind), src) := by
  rw [readHeader, if_pos h]
  rfl

/-- The end of the file, or a read that looks like it. -/
theorem readHeader_eof {got : Bytes} {src src' : Source} (h : got.length < frameHeaderBytes)
    (hr : ByteSource.read (frameHeaderBytes - got.length) src = (.ok [], src')) :
    readHeader got src = (if got = [] then .ok none else .error .truncated, src') := by
  rw [readHeader, if_pos h]
  simp only [hr]
  split <;> rfl

theorem readHeader_turn {got bs : Bytes} {src src' : Source} (h : got.length < frameHeaderBytes) (hne : bs ≠ [])
    (hr : ByteSource.read (frameHeaderBytes - got.length) src = (.ok bs, src')) :
    readHeader got src = readHeader (got ++ bs) src' := by
  cases bs with
  | nil => exact absurd rfl hne
  | cons b bs =>
    rw [readHeader, if_pos h]
    simp only [hr]

/-- `read_header` on a chunked source: the buffer filled, a clean end before its first byte, or an error. -/
theorem readHeader_chunked : ∀ (got : Bytes) {src : Source}, Chunked src → got.length ≤ frameHeaderBytes →
    (frameHeaderBytes ≤ got.length + (stream src).length → ∃ src',
      readHeader got src = (.ok (some (got ++ (stream src).take (frameHeaderBytes - got.length))), src') ∧
        stream src' = (stream src).drop (frameHeaderBytes - got.length) ∧ Chunked src') ∧
    (got.length + (stream src).length < frameHeaderBytes →
      readHeader got src = (if got ++ stream src = [] then .ok none else .error .truncated, [])) := by
  intro got
  induction hk : frameHeaderBytes - got.length using Nat.strongRecOn generalizing got with
  | ind k ih =>
    intro src hc hle
    by_cases hlt : got.length < frameHeaderBytes
    · obtain ⟨bs, src₁, hr, hs, hbl, hc₁, hnil⟩ := read_chunked (n := frameHeaderBytes - got.length) (by omega) hc
      cases bs with
      | nil =>
        obtain rfl := hnil rfl
        refine ⟨fun h => by simp at h; omega, fun _ => ?_⟩
        rw [readHeader_eof hlt (read_nil _), stream_nil, List.append_nil]
      | cons b bs =>
        have hlen : (got ++ b :: bs).length = got.length + (b :: bs).length := List.length_append
        have hpos : 0 < (b :: bs).length := Nat.succ_pos _
        have hstep := readHeader_turn hlt (List.cons_ne_nil b bs) hr
        obtain ⟨ih₁, ih₂⟩ := ih (frameHeaderBytes - (got ++ b :: bs).length) (by omega) _ rfl hc₁ (by omega)
        have hslen : (stream src).length = (b :: bs).length + (stream src₁).length := by rw [hs, List.length_append]
        refine ⟨fun h => ?_, fun h => ?_⟩
        · obtain ⟨src₂, h1, h2, h3⟩ := ih₁ (by omega)
          refine ⟨src₂, ?_, ?_, h3⟩
          · rw [hstep, h1, hs, ← hk, hlen, List.take_append, List.take_of_length_le hbl, List.append_assoc, Nat.sub_sub]
          · rw [h2, hs, ← hk, hlen, List.drop_append, List.drop_eq_nil_of_le hbl, List.nil_append, Nat.sub_sub]
        · rw [hstep, ih₂ (by omega), hs, List.append_assoc]
    · have heq : got.length = frameHeaderBytes := by omega
      refine ⟨fun _ => ⟨src, ?_, ?_, hc⟩, fun h => by omega⟩
      · rw [readHeader_full (Nat.not_lt.1 hlt), ← hk, heq]; simp
      · rw [← hk, heq]; simp

theorem headerByte_take {s : Bytes} {i : Nat} (h : i < frameHeaderBytes) :
    headerByte (s.take frameHeaderBytes) i = headerByte s i := by
  simp only [headerByte, List.getD_eq_getElem?_getD, List.getElem?_take, if_pos h]

theorem headerLen_take (s : Bytes) : headerLen (s.take frameHeaderBytes) = headerLen s := by
  have h : ∀ i, i < frameHeaderBytes → headerByte (s.take frameHeaderBytes) i = headerByte s i :=
    fun i hi => headerByte_take hi
  simp only [headerLen, h 2 (by decide), h 3 (by decide), h 4 (by decide), h 5 (by decide)]

/-- The fields of a stream that begins with an encoded frame. -/
theorem frame_fields {kind : FrameType} {payload bytes rest s : Bytes} (h : encodeFrame kind payload = .ok bytes)
    (hs : s = bytes ++ rest) : headerByte s 0 = currentProtocolVersion ∧ headerByte s 1 = kind.toByte ∧
      headerLen s = payload.length ∧ payload.length ≤ maxFramePayloadBytes ∧ frameHeaderBytes ≤ s.length ∧
      s.drop frameHeaderBytes = payload ++ rest := by
  obtain ⟨hmax, rfl⟩ := encodeFrame_eq_ok.1 h
  have hlt : payload.length < 2 ^ 32 := by unfold maxFramePayloadBytes at hmax; omega
  rw [List.append_assoc] at hs
  subst hs
  refine ⟨rfl, rfl, headerLen_frameHeader kind _ _ hlt, hmax, ?_, rfl⟩
  simp only [List.length_append, frameHeader, List.length_cons, List.length_nil, frameHeaderBytes]; omega

/-- A one-byte read of a chunked source that is not at its end. -/
theorem read_one {src : Source} (hc : Chunked src) (hne : stream src ≠ []) :
    ∃ b src', ByteSource.read 1 src = (.ok [b], src') ∧ stream src = b :: stream src' ∧ Chunked src' := by
  obtain ⟨bs, src', hr, hs, hl, hc', hnil⟩ := read_chunked Nat.one_pos hc
  match bs, hl with
  | [], _ => rw [hnil rfl] at hne; exact absurd rfl hne
  | [b], _ => exact ⟨b, src', hr, hs, hc'⟩

/-- The server's header reads: one byte, then five. -/
theorem readAsync_header {src : Source} (hc : Chunked src) (h6 : frameHeaderBytes ≤ (stream src).length) :
    ∃ b src₁ rest src₂, ByteSource.read 1 src = (.ok [b], src₁) ∧
      readExact false (frameHeaderBytes - 1) src₁ = (.ok rest, src₂) ∧
      b :: rest = (stream src).take frameHeaderBytes ∧ stream src₂ = (stream src).drop frameHeaderBytes ∧
      Chunked src₂ := by
  have hne : stream src ≠ [] := fun h => by rw [h] at h6; exact absurd h6 (by decide)
  obtain ⟨b, src₁, hr, hs, hc₁⟩ := read_one hc hne
  rw [hs, List.length_cons] at h6
  obtain ⟨src₂, h2, hs2, hc2⟩ := readExact_chunked false (frameHeaderBytes - 1) hc₁ (by omega)
  exact ⟨b, src₁, _, src₂, hr, h2, by rw [hs]; rfl, by rw [hs2, hs]; rfl, hc2⟩

/-! ## A reader as a function of the stream -/

/-- `read_frame`'s checks of a header, in its order. -/
def checkHeader (header : Bytes) : Except FrameError FrameType :=
  if headerByte header 0 ≠ currentProtocolVersion then .error (.unsupportedVersion (headerByte header 0))
  else match FrameType.tryFrom (headerByte header 1) with
    | .error e => .error e
    | .ok kind => if headerLen header > maxFramePayloadBytes then .error (.tooLarge (headerLen header)) else .ok kind

/-- `read_async_frame`'s checks of a header, in its order. -/
def checkAsyncHeader (header : Bytes) : Except ServerError FrameType :=
  if headerLen header > maxFramePayloadBytes then .error .messageTooLong
  else if headerByte header 0 ≠ currentProtocolVersion then .error .unsupportedProtocolVersion
  else match FrameType.tryFrom (headerByte header 1) with
    | .error _ => .error .unknownProtocolFrameType
    | .ok kind => .ok kind

/-- A header both accept, as one that announces a frame of this kind. -/
structure ValidHeader (header : Bytes) (kind : FrameType) : Prop where
  version : headerByte header 0 = currentProtocolVersion
  kind    : FrameType.tryFrom (headerByte header 1) = .ok kind
  len     : headerLen header ≤ maxFramePayloadBytes

theorem checkHeader_eq_ok {header : Bytes} {kind : FrameType} :
    checkHeader header = .ok kind ↔ ValidHeader header kind := by
  constructor
  · intro h
    unfold checkHeader at h
    split at h
    · cases h
    · rename_i hv
      split at h
      · cases h
      · rename_i k hk
        split at h
        · cases h
        · rename_i hl
          cases h
          exact ⟨not_not.1 hv, hk, Nat.not_lt.1 hl⟩
  · rintro ⟨hv, hk, hl⟩
    simp only [checkHeader, hv, hk, ne_eq, not_true_eq_false, if_false, if_neg (Nat.not_lt.2 hl)]

theorem checkAsyncHeader_eq_ok {header : Bytes} {kind : FrameType} :
    checkAsyncHeader header = .ok kind ↔ ValidHeader header kind := by
  constructor
  · intro h
    unfold checkAsyncHeader at h
    split at h
    · cases h
    · rename_i hl
      split at h
      · cases h
      · rename_i hv
        split at h
        · cases h
        · rename_i k hk
          cases h
          exact ⟨not_not.1 hv, hk, Nat.not_lt.1 hl⟩
  · rintro ⟨hv, hk, hl⟩
    simp only [checkAsyncHeader, hv, hk, ne_eq, not_true_eq_false, if_false, if_neg (Nat.not_lt.2 hl)]

theorem checkHeader_take (s : Bytes) : checkHeader (s.take frameHeaderBytes) = checkHeader s := by
  simp only [checkHeader, headerLen_take, headerByte_take (by decide : 0 < frameHeaderBytes),
    headerByte_take (by decide : 1 < frameHeaderBytes)]

theorem checkAsyncHeader_take (s : Bytes) : checkAsyncHeader (s.take frameHeaderBytes) = checkAsyncHeader s := by
  simp only [checkAsyncHeader, headerLen_take, headerByte_take (by decide : 0 < frameHeaderBytes),
    headerByte_take (by decide : 1 < frameHeaderBytes)]

/-- What a reader with these checks makes of a stream, and the bytes it leaves. -/
def decode (check : Bytes → Except ε FrameType) (truncated : ε) (s : Bytes) : Except ε (Option Frame) × Bytes :=
  if s = [] then (.ok none, [])
  else if s.length < frameHeaderBytes then (.error truncated, [])
  else
    let rest := s.drop frameHeaderBytes
    match check s with
    | .error e => (.error e, rest)
    | .ok kind =>
      if rest.length < headerLen s then (.error truncated, [])
      else (.ok (some ⟨headerByte s 0, kind, rest.take (headerLen s)⟩), rest.drop (headerLen s))

/-- The reader is `decode`, however the stream is cut into chunks. -/
def Decodes (reader : Source → Except ε (Option Frame) × Source) (check : Bytes → Except ε FrameType) (truncated : ε) :
    Prop :=
  ∀ {src : Source}, Chunked src → ∃ src', reader src = ((decode check truncated (stream src)).1, src') ∧
    stream src' = (decode check truncated (stream src)).2 ∧ Chunked src'

section Decode

variable {check : Bytes → Except ε FrameType} {truncated : ε} {s : Bytes}

theorem decode_nil : decode check truncated [] = (.ok none, []) := rfl

theorem decode_short (hne : s ≠ []) (h6 : s.length < frameHeaderBytes) :
    decode check truncated s = (.error truncated, []) := by
  rw [decode, if_neg hne, if_pos h6]

/-- Past a whole header the checks decide, and then the length of what follows. -/
theorem decode_header (h6 : frameHeaderBytes ≤ s.length) : decode check truncated s =
    match check s with
    | .error e => (.error e, s.drop frameHeaderBytes)
    | .ok kind =>
      if (s.drop frameHeaderBytes).length < headerLen s then (.error truncated, [])
      else (.ok (some ⟨headerByte s 0, kind, (s.drop frameHeaderBytes).take (headerLen s)⟩),
        (s.drop frameHeaderBytes).drop (headerLen s)) := by
  have hne : s ≠ [] := fun h => by rw [h] at h6; exact absurd h6 (by decide)
  rw [decode, if_neg hne, if_neg (Nat.not_lt.2 h6)]

theorem decode_rejected {e : ε} (h6 : frameHeaderBytes ≤ s.length) (hk : check s = .error e) :
    decode check truncated s = (.error e, s.drop frameHeaderBytes) := by
  rw [decode_header h6, hk]

theorem decode_truncated {kind : FrameType} (h6 : frameHeaderBytes ≤ s.length) (hk : check s = .ok kind)
    (hl : (s.drop frameHeaderBytes).length < headerLen s) : decode check truncated s = (.error truncated, []) := by
  rw [decode_header h6, hk]
  exact if_pos hl

theorem decode_frame {kind : FrameType} (h6 : frameHeaderBytes ≤ s.length) (hk : check s = .ok kind)
    (hl : headerLen s ≤ (s.drop frameHeaderBytes).length) : decode check truncated s =
      (.ok (some ⟨headerByte s 0, kind, (s.drop frameHeaderBytes).take (headerLen s)⟩),
        (s.drop frameHeaderBytes).drop (headerLen s)) := by
  rw [decode_header h6, hk]
  exact if_neg (Nat.not_lt.2 hl)

/-- A valid header whose payload is there would begin the stream with a frame. -/
theorem short_of_not_begins {kind : FrameType} (hb : ¬ BeginsWithFrame s) (hk : ValidHeader s kind)
    (hl : frameHeaderBytes ≤ s.length) : (s.drop frameHeaderBytes).length < headerLen s := by
  rw [List.length_drop]
  refine Nat.lt_of_not_le (fun hle => hb ?_)
  exact ⟨kind, _, _, encodeFrame_of_header hk.version hk.kind hk.len (by omega), List.take_prefix _ _⟩

/-- **A reader that is `decode` with checks of its own order** reads frames. -/
theorem Decodes.readsFrames {reader : Source → Except ε (Option Frame) × Source} (hd : Decodes reader check truncated)
    (hcheck : ∀ {header : Bytes} {kind : FrameType}, check header = .ok kind ↔ ValidHeader header kind) :
    ReadsFrames reader where
  eof {src} hc hs := by
    obtain ⟨src', hr, -, -⟩ := hd hc
    rw [hs] at hr
    exact ⟨src', hr⟩
  frame {src kind payload bytes rest} hc henc hs := by
    obtain ⟨src', hr, hs', hc'⟩ := hd hc
    obtain ⟨hv, hk, hl, hmax, h6, hdrop⟩ := frame_fields henc hs
    have ha : check (stream src) = .ok kind := hcheck.2 ⟨hv, by rw [hk, tryFrom_toByte], by rw [hl]; exact hmax⟩
    have hd' : decode check truncated (stream src) = _ :=
      decode_frame h6 ha (by rw [hdrop, hl, List.length_append]; omega)
    rw [hd', hdrop, hl, hv, List.take_left] at hr
    rw [hd', hdrop, hl, List.drop_left] at hs'
    exact ⟨src', hr, hs', hc'⟩
  error {src} hc hne hb := by
    obtain ⟨src', hr, -, -⟩ := hd hc
    by_cases h6 : frameHeaderBytes ≤ (stream src).length
    · cases hk : check (stream src) with
      | error e =>
        rw [decode_rejected h6 hk] at hr
        exact ⟨e, src', hr⟩
      | ok kind =>
        rw [decode_truncated h6 hk (short_of_not_begins hb (hcheck.1 hk) h6)] at hr
        exact ⟨truncated, src', hr⟩
    · rw [decode_short hne (Nat.lt_of_not_le h6)] at hr
      exact ⟨truncated, src', hr⟩

end Decode

/-! ## One read of each reader, by what its checks said -/

section ReadFrame

variable {src src₁ src₂ : Source} {header payload : Bytes} {kind : FrameType}

theorem readFrame_header_error {e : FrameError} (h : readHeader [] src = (.error e, src₁)) :
    readFrame src = (.error e, src₁) := by simp only [readFrame, h]

theorem readFrame_none (h : readHeader [] src = (.ok none, src₁)) :
    readFrame src = (.ok none, src₁) := by simp only [readFrame, h]

theorem readFrame_rejected {e : FrameError} (h : readHeader [] src = (.ok (some header), src₁))
    (hk : checkHeader header = .error e) : readFrame src = (.error e, src₁) := by
  unfold checkHeader at hk
  simp only [readFrame, h]
  split at hk
  · rename_i hv
    cases hk
    rw [if_pos hv]
  · rename_i hv
    rw [if_neg hv]
    split at hk
    · cases hk
      rfl
    · split at hk
      · rename_i hl
        cases hk
        exact if_pos hl
      · cases hk

/-- Past its checks `read_frame` is its payload read. -/
theorem readFrame_accepted (h : readHeader [] src = (.ok (some header), src₁)) (hk : checkHeader header = .ok kind) :
    readFrame src = match readExact true (headerLen header) src₁ with
      | (.error .unexpectedEof, src) => (.error .truncated, src)
      | (.error kind, src) => (.error (.io kind), src)
      | (.ok payload, src) => (.ok (some ⟨headerByte header 0, kind, payload⟩), src) := by
  obtain ⟨hv, hk', hl⟩ := checkHeader_eq_ok.1 hk
  simp only [readFrame, h, hv, hk', ne_eq, not_true_eq_false, if_false, if_neg (Nat.not_lt.2 hl)]

theorem readFrame_truncated (h : readHeader [] src = (.ok (some header), src₁)) (hk : checkHeader header = .ok kind)
    (hp : readExact true (headerLen header) src₁ = (.error .unexpectedEof, src₂)) :
    readFrame src = (.error .truncated, src₂) := by
  rw [readFrame_accepted h hk, hp]

theorem readFrame_payload (h : readHeader [] src = (.ok (some header), src₁)) (hk : checkHeader header = .ok kind)
    (hp : readExact true (headerLen header) src₁ = (.ok payload, src₂)) :
    readFrame src = (.ok (some ⟨headerByte header 0, kind, payload⟩), src₂) := by
  rw [readFrame_accepted h hk, hp]

end ReadFrame

section ReadAsyncFrame

variable {src src₁ src₂ src₃ : Source} {b : UInt8} {rest payload : Bytes} {kind : FrameType}

theorem readAsyncFrame_rejected {e : ServerError} (h1 : ByteSource.read 1 src = (.ok [b], src₁))
    (h2 : readExact false (frameHeaderBytes - 1) src₁ = (.ok rest, src₂))
    (hk : checkAsyncHeader (b :: rest) = .error e) :
    readAsyncFrame src = (.error e, src₂) := by
  unfold checkAsyncHeader at hk
  simp only [readAsyncFrame, h1, h2]
  split at hk
  · rename_i hl
    cases hk
    exact if_pos hl
  · rename_i hl
    rw [if_neg hl]
    split at hk
    · rename_i hv
      cases hk
      exact if_pos hv
    · rename_i hv
      rw [if_neg hv]
      split at hk
      · cases hk
        rfl
      · cases hk

/-- Past its checks `read_async_frame` is its payload read. -/
theorem readAsyncFrame_accepted (h1 : ByteSource.read 1 src = (.ok [b], src₁))
    (h2 : readExact false (frameHeaderBytes - 1) src₁ = (.ok rest, src₂))
    (hk : checkAsyncHeader (b :: rest) = .ok kind) :
    readAsyncFrame src = match readExact false (headerLen (b :: rest)) src₂ with
      | (.error kind, src) => (.error (truncatedOrIo kind), src)
      | (.ok payload, src) => (.ok (some ⟨headerByte (b :: rest) 0, kind, payload⟩), src) := by
  obtain ⟨hv, hk', hl⟩ := checkAsyncHeader_eq_ok.1 hk
  simp only [readAsyncFrame, h1, h2, hv, hk', ne_eq, not_true_eq_false, if_false, if_neg (Nat.not_lt.2 hl)]

theorem readAsyncFrame_truncated (h1 : ByteSource.read 1 src = (.ok [b], src₁))
    (h2 : readExact false (frameHeaderBytes - 1) src₁ = (.ok rest, src₂)) (hk : checkAsyncHeader (b :: rest) = .ok kind)
    (hp : readExact false (headerLen (b :: rest)) src₂ = (.error .unexpectedEof, src₃)) :
    readAsyncFrame src = (.error .truncatedProtocolFrame, src₃) := by
  rw [readAsyncFrame_accepted h1 h2 hk, hp]
  rfl

theorem readAsyncFrame_payload (h1 : ByteSource.read 1 src = (.ok [b], src₁))
    (h2 : readExact false (frameHeaderBytes - 1) src₁ = (.ok rest, src₂)) (hk : checkAsyncHeader (b :: rest) = .ok kind)
    (hp : readExact false (headerLen (b :: rest)) src₂ = (.ok payload, src₃)) :
    readAsyncFrame src = (.ok (some ⟨headerByte (b :: rest) 0, kind, payload⟩), src₃) := by
  rw [readAsyncFrame_accepted h1 h2 hk, hp]

end ReadAsyncFrame

/-! ## The law of the two readers -/

theorem decodes_readFrame : Decodes readFrame checkHeader .truncated := by
  intro src hc
  by_cases h6 : frameHeaderBytes ≤ (stream src).length
  · obtain ⟨src₁, h1, hs1, hc1⟩ := (readHeader_chunked [] hc (by decide)).1 (by simpa using h6)
    simp only [List.length_nil, Nat.sub_zero, List.nil_append] at h1 hs1
    have hlen := headerLen_take (stream src)
    cases hk : checkHeader (stream src) with
    | error e =>
      rw [decode_rejected h6 hk]
      exact ⟨src₁, readFrame_rejected h1 (by rw [checkHeader_take, hk]), hs1, hc1⟩
    | ok kind =>
      have hk' : checkHeader ((stream src).take frameHeaderBytes) = .ok kind := by rw [checkHeader_take, hk]
      by_cases hl : (stream src₁).length < headerLen (stream src)
      · rw [decode_truncated h6 hk (by rw [← hs1]; exact hl)]
        refine ⟨[], readFrame_truncated h1 hk' ?_, rfl, chunked_nil⟩
        rw [hlen]
        exact readExact_short true _ hc1 hl
      · obtain ⟨src₂, h2, hs2, hc2⟩ := readExact_chunked true _ hc1 (Nat.not_lt.1 hl)
        rw [decode_frame h6 hk (by rw [← hs1]; exact Nat.not_lt.1 hl), ← hs1]
        refine ⟨src₂, ?_, hs2, hc2⟩
        rw [readFrame_payload h1 hk' (by rw [hlen]; exact h2), headerByte_take (by decide)]
  · have h1 := (readHeader_chunked [] hc (by decide)).2 (by simpa using h6)
    rw [List.nil_append] at h1
    by_cases hne : stream src = []
    · rw [if_pos hne] at h1
      rw [hne, decode_nil]
      exact ⟨[], readFrame_none h1, rfl, chunked_nil⟩
    · rw [if_neg hne] at h1
      rw [decode_short hne (Nat.lt_of_not_le h6)]
      exact ⟨[], readFrame_header_error h1, rfl, chunked_nil⟩

theorem decodes_readAsyncFrame : Decodes readAsyncFrame checkAsyncHeader .truncatedProtocolFrame := by
  intro src hc
  by_cases h6 : frameHeaderBytes ≤ (stream src).length
  · obtain ⟨b, src₁, rest, src₂, h1, h2, hbytes, hs2, hc2⟩ := readAsync_header hc h6
    have hlen : headerLen (b :: rest) = headerLen (stream src) := by rw [hbytes, headerLen_take]
    have hcheck : checkAsyncHeader (b :: rest) = checkAsyncHeader (stream src) := by
      rw [hbytes, checkAsyncHeader_take]
    cases hk : checkAsyncHeader (stream src) with
    | error e =>
      rw [decode_rejected h6 hk]
      exact ⟨src₂, readAsyncFrame_rejected h1 h2 (by rw [hcheck, hk]), hs2, hc2⟩
    | ok kind =>
      rw [hk] at hcheck
      by_cases hl : (stream src₂).length < headerLen (stream src)
      · rw [decode_truncated h6 hk (by rw [← hs2]; exact hl)]
        refine ⟨[], readAsyncFrame_truncated h1 h2 hcheck ?_, rfl, chunked_nil⟩
        rw [hlen]
        exact readExact_short false _ hc2 hl
      · obtain ⟨src₃, h3, hs3, hc3⟩ := readExact_chunked false _ hc2 (Nat.not_lt.1 hl)
        rw [decode_frame h6 hk (by rw [← hs2]; exact Nat.not_lt.1 hl), ← hs2]
        refine ⟨src₃, ?_, hs3, hc3⟩
        rw [readAsyncFrame_payload h1 h2 hcheck (by rw [hlen]; exact h3), hbytes, headerByte_take (by decide)]
  · by_cases hne : stream src = []
    · obtain rfl := (stream_eq_nil hc).1 hne
      exact ⟨[], rfl, rfl, chunked_nil⟩
    · obtain ⟨b, src₁, hr, hs, hc₁⟩ := read_one hc hne
      have hshort : (stream src₁).length < frameHeaderBytes - 1 := by
        rw [hs, List.length_cons] at h6
        omega
      rw [decode_short hne (Nat.lt_of_not_le h6)]
      refine ⟨[], ?_, rfl, chunked_nil⟩
      simp only [readAsyncFrame, hr, readExact_short false _ hc₁ hshort, truncatedOrIo]

theorem readsFrames_readFrame : ReadsFrames readFrame := decodes_readFrame.readsFrames checkHeader_eq_ok

theorem readsFrames_readAsyncFrame : ReadsFrames readAsyncFrame :=
  decodes_readAsyncFrame.readsFrames checkAsyncHeader_eq_ok

/-- **Both readers obey the law**: on every stream and every chunking of it they return the frames it begins with, end
cleanly exactly when nothing is left over, and otherwise stop where no encoded frame begins. -/
theorem readers_frameLaw : FrameLaw readFrame ∧ FrameLaw readAsyncFrame :=
  ⟨readsFrames_readFrame.frameLaw, readsFrames_readAsyncFrame.frameLaw⟩

end Drocsid
