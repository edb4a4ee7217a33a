import Drocsid.Network
/-!
# Pipe — frames through a stream that may break off anywhere

A read that returns a frame took its encoding off the stream, whatever the transport hands the reads (`Takes`).  So what
a reader gets of a stream of encoded frames, cut anywhere, are the first of the frames (`prefix_of_delivers`), and where
the stream was cut it finds the end or a truncated frame (`readFrames_cut`).
-/
namespace Drocsid

open Text ByteSource Protocol

/-! ## What a read takes -/

theorem length_readExact {retry : Bool} {n : Nat} {src src' : Source} {bs : Bytes}
    (h : readExact retry n src = (.ok bs, src')) : bs.length = n := by
  induction n, src using readExact.induct retry generalizing bs src' with
  | case1 src => rw [readExact_zero] at h; cases h; rfl
  | case2 n src hn src₁ hr => rw [readExact_eq hn, hr] at h; cases h
  | case3 n src hn b bs₁ src₁ hr rest src₂ hrest ih =>
    have hle := length_read hr
    rw [readExact_eq hn, hr] at h
    simp only [hrest] at h
    cases h
    rw [List.length_append, ih hrest]
    omega
  | case4 n src hn b bs₁ src₁ hr kind src₂ hrest =>
    rw [readExact_eq hn, hr] at h
    simp only [hrest] at h
    cases h
  | case5 n src hn kind src₁ hr hretry ih =>
    rw [readExact_eq hn, hr] at h
    simp only [if_pos hretry] at h
    exact ih h
  | case6 n src hn kind src₁ hr hretry =>
    rw [readExact_eq hn, hr] at h
    simp only [if_neg hretry] at h
    cases h

theorem length_readHeader {got header : Bytes} {src src' : Source} (hg : got.length ≤ frameHeaderBytes)
    (h : readHeader got src = (.ok (some header), src')) : header.length = frameHeaderBytes := by
  induction got, src using readHeader.induct with
  | case1 src src₁ hlt hr => rw [readHeader, if_pos hlt, hr] at h; simp at h
  | case2 got src hlt src₁ hr hnil => rw [readHeader, if_pos hlt, hr] at h; simp [hnil] at h
  | case3 got src hlt b bs src₁ hr ih =>
    have hle := length_read hr
    rw [readHeader, if_pos hlt, hr] at h
    exact ih (by rw [List.length_append]; omega) h
  | case4 got src hlt kind src₁ hr => rw [readHeader, if_pos hlt, hr] at h; cases h
  | case5 got src hlt =>
    rw [readHeader, if_neg hlt] at h
    cases h
    omega

/-- A read that returns a frame took its encoding. -/
def Takes {ε : Type} (reader : Source → Except ε (Option Frame) × Source) : Prop :=
  ∀ {src src' : Source} {frame : Frame}, reader src = (.ok (some frame), src') →
    frame.version = currentProtocolVersion ∧
      ∃ bytes, encodeFrame frame.kind frame.payload = .ok bytes ∧ stream src = bytes ++ stream src'

/-- A valid header and the payload it announces are an encoded frame. -/
theorem encodeFrame_of_parts {header payload : Bytes} {kind : FrameType} (h6 : header.length = frameHeaderBytes)
    (hv : ValidHeader header kind) (hl : payload.length = headerLen header) :
    encodeFrame kind payload = .ok (header ++ payload) := by
  have htake : (header ++ payload).take frameHeaderBytes = header := by rw [← h6, List.take_left]
  have hdrop : (header ++ payload).drop frameHeaderBytes = payload := by rw [← h6, List.drop_left]
  have hbyte : ∀ i, i < frameHeaderBytes → headerByte (header ++ payload) i = headerByte header i := by
    intro i hi
    rw [← headerByte_take hi, htake]
  have hlen : headerLen (header ++ payload) = headerLen header := by rw [← headerLen_take, htake]
  have henc := @encodeFrame_of_header (header ++ payload) kind
    (by rw [hbyte 0 (by decide)]; exact hv.version) (by rw [hbyte 1 (by decide)]; exact hv.kind)
    (by rw [hlen]; exact hv.len) (by rw [hlen, List.length_append]; omega)
  rw [hdrop, hlen, ← hl, List.take_length, ← h6, ← List.length_append, List.take_length] at henc
  exact henc

theorem takes_readFrame : Takes readFrame := by
  intro src src' frame h
  cases hr : readHeader [] src with
  | mk r src₁ =>
    cases r with
    | error e =>
      rw [readFrame_header_error hr] at h
      cases h
    | ok r =>
      cases r with
      | none =>
        rw [readFrame_none hr] at h
        cases h
      | some header =>
        obtain ⟨bs, hbs, hs, -⟩ := stream_readHeader hr
        rw [List.nil_append] at hbs
        subst hbs
        have h6 := length_readHeader (Nat.zero_le _) hr
        cases hk : checkHeader header with
        | error e =>
          rw [readFrame_rejected hr hk] at h
          cases h
        | ok kind =>
          have hv := checkHeader_eq_ok.1 hk
          cases hp : readExact true (headerLen header) src₁ with
          | mk p src₂ =>
            rw [readFrame_accepted hr hk, hp] at h
            cases p with
            | error e => cases e <;> cases h
            | ok payload =>
              cases h
              refine ⟨hv.version, _, encodeFrame_of_parts h6 hv (length_readExact hp), ?_⟩
              rw [hs, stream_readExact hp, List.append_assoc]

theorem takes_readAsyncFrame : Takes readAsyncFrame := by
  intro src src' frame h
  cases h1 : ByteSource.read 1 src with
  | mk r src₁ =>
    cases r with
    | error e => simp only [readAsyncFrame, h1] at h; cases h
    | ok bs =>
      cases bs with
      | nil => simp only [readAsyncFrame, h1] at h; cases h
      | cons b bs =>
        obtain rfl : bs = [] := by
          have := length_read h1
          rw [List.length_cons] at this
          exact List.length_eq_zero_iff.1 (by omega)
        cases h2 : readExact false (frameHeaderBytes - 1) src₁ with
        | mk p src₂ =>
          cases p with
          | error e => simp only [readAsyncFrame, h1, h2] at h; cases h
          | ok rest =>
            have h6 : (b :: rest).length = frameHeaderBytes := by
              rw [List.length_cons, length_readExact h2]
              rfl
            cases hk : checkAsyncHeader (b :: rest) with
            | error e =>
              rw [readAsyncFrame_rejected h1 h2 hk] at h
              cases h
            | ok kind =>
              have hv := checkAsyncHeader_eq_ok.1 hk
              cases hp : readExact false (headerLen (b :: rest)) src₂ with
              | mk q src₃ =>
                rw [readAsyncFrame_accepted h1 h2 hk, hp] at h
                cases q with
                | error e => cases h
                | ok payload =>
                  cases h
                  refine ⟨hv.version, _, encodeFrame_of_parts h6 hv (length_readExact hp), ?_⟩
                  rw [stream_read h1, stream_readExact h2, stream_readExact hp]
                  simp

/-! ## Frames off a stream -/

/-- The stream begins with the frames' encodings. -/
def Delivers (stream : Bytes) (frames : List Frame) : Prop :=
  (∀ frame ∈ frames, frame.version = currentProtocolVersion) ∧ ∃ bytes, encodeAll frames = .ok bytes ∧ bytes <+: stream

theorem encodeAll_append {fs gs : List Frame} {bs cs : Bytes} (h : encodeAll fs = .ok bs) (h' : encodeAll gs = .ok cs) :
    encodeAll (fs ++ gs) = .ok (bs ++ cs) := by
  induction fs generalizing bs with
  | nil => cases h; exact h'
  | cons f fs ih =>
    obtain ⟨b, bs, hb, hbs, rfl⟩ := encodeAll_cons_inv h
    rw [List.append_assoc]
    exact encodeAll_cons hb (ih hbs)

/-- The frames read of a stream, and how much of it they took. -/
structure Receipt where
  frames   : List Frame
  position : Nat

namespace Receipt

def new : Receipt := ⟨[], 0⟩

/-- The transport hands on bytes that were written and not read yet. -/
def admits (r : Receipt) (written : Bytes) (src : Source) : Bool := (stream src).isPrefixOf (written.drop r.position)

/-- What was read after a read that may have returned a frame, of what the transport handed on. -/
def after {ε : Type} (r : Receipt) (src : Source) : Except ε (Option Frame) × Source → Receipt
  | (.ok (some frame), src') => ⟨r.frames ++ [frame], r.position + ((stream src).length - (stream src').length)⟩
  | _ => r

/-- The frames are those the first bytes written encode. -/
structure Of (written : Bytes) (r : Receipt) : Prop where
  version : ∀ frame ∈ r.frames, frame.version = currentProtocolVersion
  encoded : encodeAll r.frames = .ok (written.take r.position)
  within  : r.position ≤ written.length

variable {r : Receipt} {written written' : Bytes}

theorem of_new (written : Bytes) : Receipt.new.Of written := ⟨nofun, rfl, Nat.zero_le _⟩

theorem Of.delivers (h : r.Of written) : Delivers written r.frames := ⟨h.version, _, h.encoded, List.take_prefix _ _⟩

theorem Of.mono (h : r.Of written) (hw : written <+: written') : r.Of written' := by
  obtain ⟨rest, rfl⟩ := hw
  refine ⟨h.version, ?_, Nat.le_trans h.within (List.prefix_append _ _).length_le⟩
  rw [List.take_append_of_le_length h.within]
  exact h.encoded

/-- **A read goes on where the last one ended.** -/
theorem Of.after {ε : Type} {reader : Source → Except ε (Option Frame) × Source} (T : Takes reader) (h : r.Of written)
    {src : Source} (hs : r.admits written src = true) : (r.after src (reader src)).Of written := by
  rcases hr : reader src with ⟨result, src'⟩
  match result with
  | .error _ | .ok none => exact h
  | .ok (some frame) =>
    obtain ⟨hver, bytes, hbytes, hstr⟩ := T hr
    obtain ⟨rest, hrest⟩ := List.isPrefixOf_iff_prefix.1 hs
    rw [hstr, List.append_assoc] at hrest
    have hlen : (stream src).length - (stream src').length = bytes.length := by
      rw [hstr, List.length_append]
      omega
    have htake : written.take (r.position + bytes.length) = written.take r.position ++ bytes := by
      rw [List.take_add, ← hrest, List.take_left]
    refine ⟨fun f hf => ?_, ?_, ?_⟩
    · rcases List.mem_append.1 hf with hf | hf
      · exact h.version f hf
      · rw [List.mem_singleton.1 hf]
        exact hver
    · show encodeAll (r.frames ++ [frame]) = .ok (written.take (r.position + _))
      rw [hlen, htake, ← List.append_nil bytes]
      exact encodeAll_append h.encoded (encodeAll_cons hbytes rfl)
    · show r.position + _ ≤ _
      have hdrop := congrArg List.length hrest
      rw [List.length_drop, List.length_append] at hdrop
      have := h.within
      omega

/-- A read by what it decodes of the bytes that arrive, without errors. -/
def decoded {ε : Type} (check : Bytes → Except ε FrameType) (truncated : ε) (src : Source) :
    Except ε (Option Frame) × Source :=
  ((decode check truncated (stream src)).1, [.data (decode check truncated (stream src)).2])

theorem after_decoded {ε : Type} {reader : Source → Except ε (Option Frame) × Source}
    {check : Bytes → Except ε FrameType} {truncated : ε} (hd : Decodes reader check truncated) {src : Source}
    (hc : Chunked src) (r : Receipt) :
    (decoded check truncated src).1 = (reader src).1 ∧
      r.after src (decoded check truncated src) = r.after src (reader src) := by
  obtain ⟨src', hr, hs, -⟩ := hd hc
  rw [hr, decoded]
  refine ⟨rfl, ?_⟩
  rcases (decode check truncated (stream src)).1 with e | _ | frame
  · rfl
  · rfl
  · rw [after, after, hs]
    simp

end Receipt

/-! ## A stream cut off -/

/-- A frame of which not all is there, or nothing. -/
def Unfinished (part : Bytes) : Prop := part = [] ∨ ∃ kind payload bytes, encodeFrame kind payload = .ok bytes ∧
  part <+: bytes ∧ part.length < bytes.length

theorem Unfinished.of_prefix {part part' : Bytes} (h : Unfinished part) (hp : part' <+: part) : Unfinished part' := by
  rcases h with rfl | ⟨kind, payload, bytes, henc, hpre, hlt⟩
  · exact .inl (List.prefix_nil.1 hp)
  · exact .inr ⟨kind, payload, bytes, henc, hp.trans hpre, Nat.lt_of_le_of_lt hp.length_le hlt⟩

theorem unfinished_take {kind : FrameType} {payload bytes : Bytes} (h : encodeFrame kind payload = .ok bytes)
    (n : Nat) :
    Unfinished (bytes.dropLast.take n) := by
  have hlen := length_of_encodeFrame h
  unfold frameHeaderBytes at hlen
  refine .inr ⟨kind, payload, bytes, h, (List.take_prefix _ _).trans (List.dropLast_prefix _), ?_⟩
  have := (List.take_prefix n bytes.dropLast).length_le
  rw [List.length_dropLast] at this
  omega

/-- No frame begins it. -/
theorem Unfinished.not_begins {part : Bytes} (h : Unfinished part) : ¬ BeginsWithFrame part := by
  rcases h with rfl | ⟨kind, payload, bytes, henc, hpre, hlt⟩
  · exact not_beginsWithFrame_nil
  · rintro ⟨kind', payload', bytes', henc', hpre'⟩
    obtain ⟨rest, hrest⟩ := hpre'.trans hpre
    have hwhole : bytes ++ [] = bytes' ++ rest := by rw [List.append_nil, hrest]
    obtain ⟨rfl, rfl, -⟩ := Client.frame_unique henc henc' hwhole
    cases henc.symm.trans henc'
    have := hpre'.length_le
    omega

/-- **The frames a cut stream of encoded frames delivers are the first of them.** -/
theorem prefix_of_delivers {fs frames : List Frame} {bytes part : Bytes}
    (hv : ∀ f ∈ fs, f.version = currentProtocolVersion) (henc : encodeAll fs = .ok bytes) (hpart : Unfinished part)
    (h : Delivers (bytes ++ part) frames) : frames <+: fs := by
  obtain ⟨hver, bs, hbs, hpre⟩ := h
  induction frames generalizing fs bytes bs with
  | nil => exact List.nil_prefix
  | cons frame frames ih =>
    obtain ⟨b, bs, hb, hrest, rfl⟩ := encodeAll_cons_inv hbs
    obtain ⟨rest, hsplit⟩ := hpre
    rw [List.append_assoc] at hsplit
    cases fs with
    | nil =>
      cases henc
      exact absurd ⟨frame.kind, frame.payload, b, hb, _, hsplit⟩ hpart.not_begins
    | cons f fs =>
      obtain ⟨b', bs', hb', henc', rfl⟩ := encodeAll_cons_inv henc
      rw [List.append_assoc] at hsplit
      obtain ⟨hk, hp, htail⟩ := Client.frame_unique hb hb' hsplit
      have hf : frame = f := by
        obtain ⟨version, kind, payload⟩ := frame
        obtain ⟨version', kind', payload'⟩ := f
        have h1 : version = _ := hver ⟨version, kind, payload⟩ List.mem_cons_self
        have h2 : version' = _ := hv ⟨version', kind', payload'⟩ List.mem_cons_self
        subst h1 h2 hk hp
        rfl
      subst hf
      refine List.cons_prefix_cons.2 ⟨rfl, ?_⟩
      exact ih (fun f hf => hv f (List.mem_cons_of_mem _ hf)) henc' (fun f hf => hver f (List.mem_cons_of_mem _ hf))
        bs hrest ⟨rest, htail⟩

/-- A frame cut off is truncated. -/
theorem decode_unfinished {ε : Type} {check : Bytes → Except ε FrameType} {truncated : ε} {part : Bytes}
    (hcheck : ∀ {header : Bytes} {kind : FrameType}, check header = .ok kind ↔ ValidHeader header kind)
    (htake : ∀ s, check (s.take frameHeaderBytes) = check s) (h : Unfinished part) :
    (decode check truncated part).1 = if part = [] then .ok none else .error truncated := by
  split
  · rename_i hnil
    rw [hnil]
    rfl
  · rename_i hne
    by_cases h6 : frameHeaderBytes ≤ part.length
    · obtain ⟨kind, payload, bytes, henc, hpre, hlt⟩ := h.resolve_left hne
      obtain ⟨hv, hk, hl, hmax, -, -⟩ := frame_fields henc (List.append_nil bytes).symm
      have hsame : part.take frameHeaderBytes = bytes.take frameHeaderBytes := by
        obtain ⟨rest, rfl⟩ := hpre
        rw [List.take_append_of_le_length h6]
      have hok : check part = .ok kind := by
        rw [← htake, hsame, htake]
        exact hcheck.2 ⟨hv, by rw [hk, tryFrom_toByte], by rw [hl]; exact hmax⟩
      have hlen : headerLen part = headerLen bytes := by rw [← headerLen_take, hsame, headerLen_take]
      have hb := length_of_encodeFrame henc
      rw [decode_truncated h6 hok (by rw [hlen, hl, List.length_drop]; omega)]
    · rw [decode_short hne (Nat.lt_of_not_le h6)]

section Cut

variable {ε : Type} {reader : Source → Except ε (Option Frame) × Source} {check : Bytes → Except ε FrameType}
variable {truncated : ε}

/-- What ends a reading of a stream that was cut. -/
def CutShort (truncated : ε) (out : Except ε Unit) : Prop := out = .ok () ∨ out = .error truncated

theorem readFramesGo_unfinished (hd : Decodes reader check truncated)
    (hcheck : ∀ {header : Bytes} {kind : FrameType}, check header = .ok kind ↔ ValidHeader header kind)
    (htake : ∀ s, check (s.take frameHeaderBytes) = check s) {src : Source} (hc : Chunked src)
    (h : Unfinished (stream src)) (fuel : Nat) :
    ∃ out, readFramesGo reader (fuel + 1) src = ([], some out) ∧ CutShort truncated out := by
  obtain ⟨src', hr, -, -⟩ := hd hc
  rw [decode_unfinished hcheck htake h] at hr
  split at hr
  · exact ⟨.ok (), by simp only [readFramesGo, hr], .inl rfl⟩
  · exact ⟨.error truncated, by simp only [readFramesGo, hr], .inr rfl⟩

/-- A frame that is there is read, and then what follows it. -/
theorem readFramesGo_next (R : ReadsFrames reader) {f : Frame} {b rest : Bytes} {src : Source} (fuel : Nat)
    (hv : f.version = currentProtocolVersion) (hb : encodeFrame f.kind f.payload = .ok b) (hc : Chunked src)
    (hs : stream src = b ++ rest) : ∃ src', stream src' = rest ∧ Chunked src' ∧ readFramesGo reader (fuel + 1) src =
      (f :: (readFramesGo reader fuel src').1, (readFramesGo reader fuel src').2) := by
  obtain ⟨src', hread, hs', hc'⟩ := R.frame hc hb hs
  refine ⟨src', hs', hc', ?_⟩
  simp only [readFramesGo, hread]
  rw [← hv]

theorem readFramesGo_cut (hd : Decodes reader check truncated)
    (hcheck : ∀ {header : Bytes} {kind : FrameType}, check header = .ok kind ↔ ValidHeader header kind)
    (htake : ∀ s, check (s.take frameHeaderBytes) = check s) {part : Bytes} (hpart : Unfinished part) :
    ∀ (fs : List Frame) (bytes : Bytes) (fuel : Nat) (src : Source), (∀ f ∈ fs, f.version = currentProtocolVersion) →
      encodeAll fs = .ok bytes → Chunked src → stream src <+: bytes ++ part → (stream src).length < fuel →
      ∃ frames out, readFramesGo reader fuel src = (frames, some out) ∧ frames <+: fs ∧ CutShort truncated out
  | _, _, 0, _, _, _, _, _, h => absurd h (Nat.not_lt_zero _)
  | [], bytes, fuel + 1, src, _, henc, hc, hs, _ => by
    cases henc
    obtain ⟨out, hgo, hout⟩ := readFramesGo_unfinished hd hcheck htake hc (hpart.of_prefix hs) fuel
    exact ⟨[], out, hgo, List.prefix_rfl, hout⟩
  | f :: fs, bytes, fuel + 1, src, hv, henc, hc, hs, hl => by
    obtain ⟨b, bs, hb, henc', rfl⟩ := encodeAll_cons_inv henc
    have hlen := length_of_encodeFrame hb
    unfold frameHeaderBytes at hlen
    have hwhole : ∀ rest, stream src = b ++ rest → rest <+: bs ++ part → ∃ frames out,
        readFramesGo reader (fuel + 1) src = (frames, some out) ∧ frames <+: f :: fs ∧ CutShort truncated out := by
      intro rest hrest hpre
      obtain ⟨src', hs', hc', hgo⟩ :=
        readFramesGo_next (hd.readsFrames hcheck) fuel (hv f List.mem_cons_self) hb hc hrest
      obtain ⟨frames, out, hgo', hframes, hout⟩ := readFramesGo_cut hd hcheck htake hpart fs bs fuel src'
        (fun g hg => hv g (List.mem_cons_of_mem _ hg)) henc' hc' (by rw [hs']; exact hpre)
        (by rw [hrest, List.length_append] at hl; rw [hs']; omega)
      exact ⟨f :: frames, out, by rw [hgo, hgo'], List.cons_prefix_cons.2 ⟨rfl, hframes⟩, hout⟩
    rw [List.append_assoc] at hs
    rcases List.prefix_or_prefix_of_prefix hs (List.prefix_append b (bs ++ part)) with hle | ⟨rest, hrest⟩
    · by_cases hlt : (stream src).length < b.length
      · obtain ⟨out, hgo, hout⟩ := readFramesGo_unfinished hd hcheck htake hc (.inr ⟨_, _, b, hb, hle, hlt⟩) fuel
        exact ⟨[], out, hgo, List.nil_prefix, hout⟩
      · have heq : stream src = b := hle.eq_of_length_le (Nat.not_lt.1 hlt)
        exact hwhole [] (by rw [heq, List.append_nil]) List.nil_prefix
    · rw [← hrest] at hs
      exact hwhole rest hrest.symm ((List.prefix_append_right_inj b).1 hs)

end Cut

/-- **What the server reads of a stream of encoded frames cut anywhere**: the first of them, and then the end or a
truncated frame. -/
theorem readFrames_cut {fs : List Frame} {bytes part : Bytes} (hv : ∀ f ∈ fs, f.version = currentProtocolVersion)
    (henc : encodeAll fs = .ok bytes) (hpart : Unfinished part) {src : Source} (hc : Chunked src)
    (hs : stream src <+: bytes ++ part) : ∃ frames out, readFrames readAsyncFrame src = (frames, some out) ∧
      frames <+: fs ∧ CutShort .truncatedProtocolFrame out :=
  readFramesGo_cut decodes_readAsyncFrame checkAsyncHeader_eq_ok checkAsyncHeader_take hpart fs bytes _ src hv
    henc hc hs
    (Nat.lt_succ_self _)

end Drocsid
