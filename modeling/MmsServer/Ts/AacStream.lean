import Mathlib.Data.List.Forall2
import MmsServer.Ts.RtmpBridge

namespace MmsServer.Ts.AacStream

open Lib.ByteReader Lib.Checked Rtmp.FlvTag Rtp.AacBridge Segment Packetizer RtmpBridge

section Iso13818

/-- The length that ISO 13818-7 reads from an ADTS header, in 13 bits. -/
def adtsFrameLength (header : Bytes) : ℕ :=
  (header.getD 3 0).toNat % 4 * 2 ^ 11 + (header.getD 4 0).toNat * 8 + (header.getD 5 0).toNat / 32

/-- A frame behind its ADTS header. -/
def IsAdts (frame unit : Bytes) : Prop :=
  ∃ header, unit = header ++ frame ∧ header.length = 7 ∧
    adtsFrameLength header = 7 + frame.length

def pesPacketLength (pes : Bytes) : ℕ := fromBE ((pes.drop 4).take 2)

def pesPayload (pes : Bytes) : Bytes := pes.drop (9 + (pes.getD 8 0).toNat)

end Iso13818

section Packets

theorem adtsHeader_isAdts (profile : ℕ) (config : AudioSpecificConfig) {frame : Bytes}
    (h : frame.length ≤ 8184) :
    IsAdts frame (adtsHeader profile config (7 + frame.length) ++ frame) := by
  refine ⟨_, rfl, rfl, ?_⟩
  simp only [adtsFrameLength, adtsHeader, List.getD_cons_succ, List.getD_cons_zero,
    UInt8.toNat_ofNat']
  omega

theorem audioPesHeader_length (payloadSize : ℕ) (timestamp : ℤ) :
    (audioPesHeader payloadSize timestamp).length = 14 := by
  simp [audioPesHeader, ptsBytes, putBE_length]

theorem pesPayload_audio (timestamp : ℤ) (n : ℕ) (body : Bytes) :
    pesPayload (audioPesHeader n timestamp ++ body) = body := by
  have hlen : ((audioPesHeader n timestamp ++ body).getD 8 0).toNat = 5 := by
    simp [audioPesHeader, putBE, List.getD]
  rw [pesPayload, hlen]
  exact List.drop_left' (audioPesHeader_length n timestamp)

theorem pesPacketLength_audio (timestamp : ℤ) {body : Bytes} (h : 8 + body.length ≤ 0xffff) :
    pesPacketLength (audioPesHeader body.length timestamp ++ body) =
      ((audioPesHeader body.length timestamp ++ body).drop 6).length := by
  have hfield : pesPacketLength (audioPesHeader body.length timestamp ++ body) =
      fromBE (putBE 2 (8 + body.length)) := by
    rw [pesPacketLength, audioPesHeader, if_neg (by omega)]
    simp [putBE]
  rw [hfield, fromBE_putBE, Nat.mod_eq_of_lt (by omega), List.length_drop, List.length_append,
    audioPesHeader_length]
  omega

end Packets

section Buffer

def bufferedViews : ℕ → List Bytes → List View
  | _, [] => []
  | i, f :: fs => .adts i :: .bytes f :: bufferedViews (i + 1) fs

theorem bufferedViews_append (i : ℕ) (fs : List Bytes) (f : Bytes) :
    bufferedViews i (fs ++ [f]) = bufferedViews i fs ++ [.adts (i + fs.length), .bytes f] := by
  induction fs generalizing i with
  | nil => rfl
  | cons g fs ih =>
    rw [List.cons_append, bufferedViews, ih, bufferedViews, List.length_cons, Nat.add_assoc,
      Nat.add_comm 1]
    rfl

def adtsUnit (profile : ℕ) (config : AudioSpecificConfig) (frame : Bytes) : Bytes :=
  adtsHeader profile config (7 + frame.length) ++ frame

theorem adtsUnit_length (profile : ℕ) (config : AudioSpecificConfig) (frame : Bytes) :
    (adtsUnit profile config frame).length = 7 + frame.length := by
  rw [adtsUnit, List.length_append]
  rfl

variable {profile : ℕ} {config : AudioSpecificConfig}

theorem bufferedViews_read {headers : List Bytes} {i : ℕ} {fs : List Bytes}
    (h : ∀ j f, fs[j]? = some f →
      headers[i + j]? = some (adtsHeader profile config (7 + f.length))) :
    ((bufferedViews i fs).map (View.read headers)).flatten =
      (fs.map (adtsUnit profile config)).flatten := by
  induction fs generalizing i with
  | nil => rfl
  | cons f fs ih =>
    have hhead : View.read headers (.adts i) = adtsHeader profile config (7 + f.length) := by
      have hf := h 0 f rfl
      rw [Nat.add_zero] at hf
      rw [View.read, List.getD_eq_getElem?_getD, hf, Option.getD_some]
    have htail := ih (i := i + 1) fun j g hg ↦ by
      rw [Nat.add_assoc, Nat.add_comm 1]
      exact h (j + 1) g hg
    rw [bufferedViews, List.map_cons, List.map_cons, List.flatten_cons, List.flatten_cons, htail,
      hhead, List.map_cons, List.flatten_cons, adtsUnit, List.append_assoc]
    rfl

variable (profile config)

structure Buffering (s : Bridge) (fs : List Bytes) : Prop where
  codec : s.audioCodec = some (.aac (some config))
  ready : s.audioReady = true
  segs : s.audioBuf.audioPesSegs = .bytes [] :: bufferedViews 0 fs
  len : s.audioBuf.audioPesLen = (fs.map (adtsUnit profile config)).flatten.length
  index : s.adtsHeaderIndex = fs.length
  slots : s.adtsHeaders.length = adtsReserved
  headers : ∀ (j : ℕ) (f : Bytes), fs[j]? = some f →
    s.adtsHeaders[j]? = some (adtsHeader profile config (7 + f.length))

/-- A frame takes seven bytes or more, so that no slot is used past the last one. -/
theorem index_lt {fs : List Bytes} (h : (fs.map (adtsUnit profile config)).flatten.length < 1400) :
    fs.length < adtsReserved := by
  have hle : 7 * fs.length ≤ (fs.map (adtsUnit profile config)).flatten.length := by
    clear h
    induction fs with
    | nil => exact Nat.zero_le _
    | cons f fs ih =>
      rw [List.map_cons, List.flatten_cons, List.length_append, adtsUnit_length, List.length_cons]
      omega
  unfold adtsReserved
  omega

variable {profile config}

structure KeepsAudio (s s' : Bridge) : Prop where
  codec : s'.audioCodec = s.audioCodec
  ready : s'.audioReady = s.audioReady
  buf : s'.audioBuf = s.audioBuf
  index : s'.adtsHeaderIndex = s.adtsHeaderIndex
  headers : s'.adtsHeaders = s.adtsHeaders

theorem KeepsAudio.trans {s₁ s₂ s₃ : Bridge} (h₁ : KeepsAudio s₁ s₂) (h₂ : KeepsAudio s₂ s₃) :
    KeepsAudio s₁ s₃ :=
  ⟨h₂.codec.trans h₁.codec, h₂.ready.trans h₁.ready, h₂.buf.trans h₁.buf, h₂.index.trans h₁.index,
    h₂.headers.trans h₁.headers⟩

theorem Buffering.keep {s s' : Bridge} {fs : List Bytes} (h : Buffering profile config s fs)
    (hk : KeepsAudio s s') : Buffering profile config s' fs :=
  ⟨hk.codec ▸ h.codec, hk.ready ▸ h.ready, hk.buf ▸ h.segs, hk.buf ▸ h.len, hk.index ▸ h.index,
    hk.headers ▸ h.slots, hk.headers ▸ h.headers⟩

theorem reap_keepsAudio (s : Bridge) (canReap : Bool) : KeepsAudio s (s.reap canReap) := by
  unfold Bridge.reap
  split
  · exact ⟨rfl, rfl, rfl, rfl, rfl⟩
  · exact ⟨rfl, rfl, rfl, rfl, rfl⟩

theorem Buffering.push {s : Bridge} {fs : List Bytes} (h : Buffering profile config s fs)
    (hidx : fs.length < adtsReserved) (f : Bytes) (timestamp : ℤ) :
    Buffering profile config
      (s.bufferFrame (adtsHeader profile config (7 + f.length)) f timestamp) (fs ++ [f]) := by
  refine ⟨h.codec, h.ready, ?_, ?_, ?_, ?_, ?_⟩
  · change s.audioBuf.audioPesSegs ++ [.adts s.adtsHeaderIndex, .bytes f] = _
    rw [h.segs, h.index, bufferedViews_append, Nat.zero_add, List.cons_append]
  · change s.audioBuf.audioPesLen + (7 + f.length) = _
    rw [h.len, List.map_append, List.flatten_append, List.length_append, List.map_singleton,
      List.flatten_singleton, adtsUnit_length]
  · change s.adtsHeaderIndex + 1 = _
    rw [h.index, List.length_append, List.length_singleton]
  · change (s.adtsHeaders.set s.adtsHeaderIndex _).length = _
    rw [List.length_set, h.slots]
  · intro j g hg
    change (s.adtsHeaders.set s.adtsHeaderIndex _)[j]? = _
    rw [h.index]
    by_cases hj : j < fs.length
    · rw [List.getElem?_set_ne (by omega)]
      rw [List.getElem?_append_left hj] at hg
      exact h.headers j g hg
    · rw [List.getElem?_append_right (by omega), List.getElem?_singleton] at hg
      split at hg
      · cases hg
        rw [show j = fs.length by omega, List.getElem?_set_self (by rw [h.slots]; exact hidx)]
      · cases hg

end Buffer

section Step

variable {profile : ℕ} {config : AudioSpecificConfig}

theorem processVideoPes_keepsAudio (s : Bridge) (codec : VideoCodec) (m : VideoMessage) :
    ∃ s' b e, s.processVideoPes codec m = .ok (s', b, e) ∧ KeepsAudio s s' := by
  unfold Bridge.processVideoPes
  cases hsegs : m.videoPesSegs with
  | none => exact ⟨_, _, _, rfl, rfl, rfl, rfl, rfl, rfl⟩
  | some segs =>
    obtain ⟨r, hr⟩ : ∃ r, packetLoop codec.pid
        (if s.pcrPid = codec.pid ∧ m.isKey then some m.dts else none) segs.flatten.length
        segs.flatten.length segs.flatten.length segs s.openSegment.1
        (s.continuityCounter codec.pid) = some r := packetLoop_total _ _ segs _ _ le_rfl
    simp only [createVideoTs, hr, Option.map_some]
    exact ⟨_, _, _, rfl, rfl, rfl, rfl, rfl, rfl⟩

theorem onVideoPacket_keepsAudio (s : Bridge) (m : VideoMessage) :
    ∃ s' b e, s.onVideoPacket m = .ok (s', b, e) ∧ KeepsAudio s s' := by
  have hquiet (t : Bridge) (b : Bool) (hk : KeepsAudio s t) : ∃ s' b' e,
      (.ok (t, b, {}) : Processed) = .ok (s', b', e) ∧ KeepsAudio s s' := ⟨t, b, {}, rfl, hk⟩
  have hpes (t : Bridge) (codec : VideoCodec) (hk : KeepsAudio s t) : ∃ s' b e,
      (t.reap m.canReap).processVideoPes codec m = .ok (s', b, e) ∧ KeepsAudio s s' := by
    obtain ⟨s', b, e, h, hk'⟩ := processVideoPes_keepsAudio (t.reap m.canReap) codec m
    exact ⟨s', b, e, h, (hk.trans (reap_keepsAudio t m.canReap)).trans hk'⟩
  have havc (t : Bridge) (hk : KeepsAudio s t) : ∃ s' b e,
      t.processH264Packet m = .ok (s', b, e) ∧ KeepsAudio s s' := by
    unfold Bridge.processH264Packet
    split
    · exact hquiet t _ hk
    · split
      · exact hquiet t _ hk
      · exact hpes t _ hk
  have hhevc (t : Bridge) (hk : KeepsAudio s t) : ∃ s' b e,
      t.processH265Packet m = .ok (s', b, e) ∧ KeepsAudio s s' := by
    unfold Bridge.processH265Packet
    split
    · exact hquiet t _ hk
    · split
      · exact hquiet t _ hk
      · split
        · exact hquiet t _ hk
        · exact hpes t _ hk
  have hself : KeepsAudio s s := ⟨rfl, rfl, rfl, rfl, rfl⟩
  have hset (codec : VideoCodec) : KeepsAudio s (s.setVideoCodec codec) := ⟨rfl, rfl, rfl, rfl, rfl⟩
  unfold Bridge.onVideoPacket
  cases hv : s.videoCodec with
  | some codec =>
    cases codec with
    | avc => exact havc s hself
    | hevc => exact hhevc s hself
  | none =>
    cases hc : codecOf m.codecId with
    | none => exact hquiet s _ hself
    | some codec =>
      cases codec with
      | avc => exact havc _ (hset _)
      | hevc => exact hhevc _ (hset _)

/-- A PES packet of the audio, its payload, and the packets that it is cut into. -/
structure Carries (e : Emitted) (payload : Bytes) : Prop where
  pes : ∃ pes, e.pes = some pes ∧ pesPayload pes = payload ∧
    pesPacketLength pes = (pes.drop 6).length ∧
    (e.writes.map fun w ↦ payloadOf w.bytes).flatten = pes

theorem flushAudio_carries {s : Bridge} {fs : List Bytes} (h : Buffering profile config s fs)
    (hlen : s.audioBuf.audioPesLen ≤ 0xfff7) (timestamp : ℤ) :
    ∃ s' e, s.flushAudio timestamp 0 = .ok (s', true, e) ∧
      Carries e (fs.map (adtsUnit profile config)).flatten ∧ Buffering profile config s' [] := by
  obtain ⟨body, hbody⟩ : ∃ body, body = (fs.map (adtsUnit profile config)).flatten := ⟨_, rfl⟩
  have hlenBody : s.audioBuf.audioPesLen = body.length := by rw [h.len, hbody]
  rw [hlenBody] at hlen
  obtain ⟨segs, hsegs⟩ : ∃ segs, segs = (s.audioBuf.audioPesSegs.set 0
      (.bytes (audioPesHeader body.length timestamp))).map (View.read s.adtsHeaders) := ⟨_, rfl⟩
  have hflat : segs.flatten = audioPesHeader body.length timestamp ++ body := by
    have hread : ((bufferedViews 0 fs).map (View.read s.adtsHeaders)).flatten =
        (fs.map (adtsUnit profile config)).flatten := bufferedViews_read fun j f hf ↦ by
      rw [Nat.zero_add]
      exact h.headers j f hf
    rw [hsegs, h.segs, List.set_cons_zero, List.map_cons, List.flatten_cons, hread, hbody]
    rfl
  have htotal : segs.flatten.length =
      body.length + (audioPesHeader body.length timestamp).length := by
    rw [hflat, List.length_append, Nat.add_comm]
  have hpid : audioPid.toNat < 2 ^ 13 := by decide
  obtain ⟨r, hr, -, -, hpay⟩ := packetLoop_spec hpid (.inl rfl) segs.flatten.length segs
    s.openSegment.1 (s.continuityCounter audioPid) le_rfl le_rfl
  have hcreate : createAudioTs s.openSegment.1 (s.continuityCounter audioPid) segs
      (body.length + (audioPesHeader body.length timestamp).length) = some r := by
    rw [createAudioTs, ← htotal]
    exact hr
  unfold Bridge.flushAudio
  simp only [hlenBody, ← hsegs, hcreate]
  refine ⟨_, _, rfl, ⟨segs.flatten, rfl, ?_, ?_, hpay⟩, ?_⟩
  · rw [hflat, pesPayload_audio, hbody]
  · rw [hflat]
    exact pesPacketLength_audio timestamp (by omega)
  · exact ⟨h.codec, h.ready, rfl, rfl, rfl, h.slots, nofun⟩

/-- A message with AAC data: the frame lies behind the two bytes of the tag header. -/
def IsAacRaw (m : AudioMessage) : Prop :=
  ∃ header, AudioTagHeader.decode m.payload = .ok (header, 2) ∧ header.isSeqHeader = false

def frameOf (m : AudioMessage) : Bytes := m.payload.drop 2

/-- The frame waits with the others, or all of them leave in one PES packet. -/
theorem onAudioPacket_step {s : Bridge} {fs : List Bytes} (h : Buffering profile config s fs)
    (hsmall : (fs.map (adtsUnit profile config)).flatten.length < 1400)
    (hprofile : adtsProfile config.audioObjectType = some profile) {m : AudioMessage}
    (hraw : IsAacRaw m) (hframe : (frameOf m).length ≤ 8184) :
    ∃ s' e, s.onAudioPacket m = .ok (s', true, e) ∧
      (e.pes = none ∧ Buffering profile config s' (fs ++ [frameOf m]) ∧
          ((fs ++ [frameOf m]).map (adtsUnit profile config)).flatten.length < 1400 ∨
        Carries e ((fs ++ [frameOf m]).map (adtsUnit profile config)).flatten ∧
          Buffering profile config s' []) := by
  obtain ⟨header, hdecode, hseq⟩ := hraw
  have hcall : s.onAudioPacket m = s.processAacFrame (some config) (frameOf m) m := by
    rw [Bridge.onAudioPacket, h.codec]
    simp only [Bridge.processAacPacket, hdecode, hseq, Bool.false_eq_true, if_false]
    rfl
  have hreap := h.keep (reap_keepsAudio s m.canReap)
  have hidx : fs.length < adtsReserved := index_lt profile config hsmall
  have hpush := hreap.push hidx (frameOf m) m.timestamp.toInt
  have hgrown : ((fs ++ [frameOf m]).map (adtsUnit profile config)).flatten.length =
      (fs.map (adtsUnit profile config)).flatten.length + (7 + (frameOf m).length) := by
    rw [List.map_append, List.flatten_append, List.length_append, List.map_singleton,
      List.flatten_singleton, adtsUnit_length]
  rw [hcall, Bridge.processAacFrame, if_neg (by rw [h.ready]; exact Bool.noConfusion)]
  simp only [hprofile]
  rw [if_neg (by rw [hreap.index]; omega)]
  split
  · rename_i hlt
    rw [hpush.len] at hlt
    exact ⟨_, {}, rfl, .inl ⟨rfl, hpush, hlt⟩⟩
  · obtain ⟨s', e, he, hcarries, hempty⟩ := flushAudio_carries hpush
      (by rw [hpush.len, hgrown]; omega) _
    exact ⟨s', e, he, .inr ⟨hcarries, hempty⟩⟩

/-- The messages between the sequence header and new metadata. -/
def AacOrVideo : Message → Prop
  | .metadata _ => False
  | .video _ => True
  | .audio m => IsAacRaw m ∧ (frameOf m).length ≤ 8184

def framesOf (ms : List Message) : List Bytes :=
  ms.flatMap fun
    | .audio m => [frameOf m]
    | _ => []

def audioEmitted (ms : List Message) (es : List Emitted) : List Emitted :=
  (ms.zip es).flatMap fun
    | (.audio _, e) => [e]
    | _ => []

/-- The PES packet of a message, if there is one, has its length in its header and
goes into the packets without loss. -/
def Emitted.Sound (e : Emitted) : Prop :=
  ∀ pes, e.pes = some pes → pesPacketLength pes = (pes.drop 6).length ∧
    (e.writes.map fun w ↦ payloadOf w.bytes).flatten = pes

def Emitted.payload (e : Emitted) : Bytes := (e.pes.map pesPayload).getD []

theorem Carries.spec {e : Emitted} {payload : Bytes} (h : Carries e payload) :
    Emitted.Sound e ∧ Emitted.payload e = payload := by
  obtain ⟨pes, hpes, hpayload, hlen, hwrites⟩ := h.pes
  refine ⟨?_, ?_⟩
  · intro pes' hpes'
    obtain rfl : pes = pes' := Option.some.inj (hpes.symm.trans hpes')
    exact ⟨hlen, hwrites⟩
  · rw [Emitted.payload, hpes, Option.map_some, Option.getD_some, hpayload]

theorem run_cons {s s₁ s' : Bridge} {m : Message} {ms : List Message} {b : Bool} {e : Emitted}
    {es : List Emitted} (hstep : s.process m = .ok (s₁, b, e)) (hrun : s₁.run ms = .ok (s', es)) :
    s.run (m :: ms) = .ok (s', e :: es) := by
  rw [Bridge.run, hstep, Outcome.ok_bind]
  simp only [hrun, Outcome.ok_bind, Outcome.pure_eq]

/-- Frames that went out in the order in which they came, and those that wait. -/
theorem run_buffering (hprofile : adtsProfile config.audioObjectType = some profile)
    {ms : List Message} (hms : ∀ m ∈ ms, AacOrVideo m) {s : Bridge} {fs : List Bytes}
    (h : Buffering profile config s fs)
    (hsmall : (fs.map (adtsUnit profile config)).flatten.length < 1400) :
    ∃ s' es done rest, s.run ms = .ok (s', es) ∧ fs ++ framesOf ms = done ++ rest ∧
      (audioEmitted ms es).flatMap Emitted.payload =
        (done.map (adtsUnit profile config)).flatten ∧
      (rest.map (adtsUnit profile config)).flatten.length < 1400 ∧
      Buffering profile config s' rest ∧ ∀ e ∈ audioEmitted ms es, Emitted.Sound e := by
  induction ms generalizing s fs with
  | nil =>
    refine ⟨s, [], [], fs, rfl, ?_, rfl, hsmall, h, nofun⟩
    exact List.append_nil fs
  | cons m ms ih =>
    have hrest : ∀ m ∈ ms, AacOrVideo m := fun m' hm' ↦ hms m' (List.mem_cons_of_mem m hm')
    have hm := hms m List.mem_cons_self
    cases m with
    | metadata m => exact hm.elim
    | video m =>
      obtain ⟨s₁, b, e, hstep, hkeep⟩ := onVideoPacket_keepsAudio s m
      obtain ⟨s', es, done, rest, hrun, hsplit, hpay, hlt, hbuf, hsound⟩ :=
        ih hrest (h.keep hkeep) hsmall
      exact ⟨s', e :: es, done, rest, run_cons hstep hrun, hsplit, hpay, hlt, hbuf, hsound⟩
    | audio m =>
      obtain ⟨s₁, e, hstep, hcase⟩ := onAudioPacket_step h hsmall hprofile hm.1 hm.2
      have hframes : fs ++ framesOf (.audio m :: ms) = fs ++ [frameOf m] ++ framesOf ms := by
        rw [List.append_assoc]
        rfl
      have hcons (es : List Emitted) :
          audioEmitted (.audio m :: ms) (e :: es) = e :: audioEmitted ms es := rfl
      rcases hcase with ⟨hnone, hbuf₁, hlt₁⟩ | ⟨hcarries, hempty⟩
      · obtain ⟨s', es, done, rest, hrun, hsplit, hpay, hlt, hbuf, hsound⟩ := ih hrest hbuf₁ hlt₁
        refine ⟨s', e :: es, done, rest, run_cons hstep hrun, hframes.trans hsplit, ?_, hlt, hbuf,
          ?_⟩
        · rw [hcons, List.flatMap_cons, Emitted.payload, hnone]
          exact hpay
        · rw [hcons, List.forall_mem_cons]
          refine ⟨?_, hsound⟩
          intro pes hpes
          rw [hnone] at hpes
          cases hpes
      · obtain ⟨hesound, hepay⟩ := hcarries.spec
        obtain ⟨s', es, done, rest, hrun, hsplit, hpay, hlt, hbuf, hsound⟩ :=
          ih hrest hempty (Nat.zero_lt_succ 1399)
        refine ⟨s', e :: es, fs ++ [frameOf m] ++ done, rest, run_cons hstep hrun, ?_, ?_, hlt, hbuf,
          ?_⟩
        · rw [List.nil_append] at hsplit
          rw [hframes, hsplit, List.append_assoc _ done]
        · rw [hcons, List.flatMap_cons, hepay, hpay, ← List.flatten_append, ← List.map_append]
        · rw [hcons, List.forall_mem_cons]
          exact ⟨hesound, hsound⟩

end Step

structure Fresh (s : Bridge) : Prop where
  codec : ∃ config, s.audioCodec = some (.aac config)
  buf : s.audioBuf = {}
  index : s.adtsHeaderIndex = 0
  slots : s.adtsHeaders.length = adtsReserved

def SupportedHeader (m : AudioMessage) : Prop :=
  ∃ header consumed config pos, AudioTagHeader.decode m.payload = .ok (header, consumed) ∧
    header.isSeqHeader = true ∧
    AudioSpecificConfig.parse (m.payload.drop consumed) = .ok (config, pos) ∧
    (adtsProfile config.audioObjectType).isSome

theorem seqHeader_buffering {s : Bridge} (h : Fresh s) {m : AudioMessage} (hm : SupportedHeader m) :
    ∃ s' profile config, s.onAudioPacket m = .ok (s', true, {}) ∧
      adtsProfile config.audioObjectType = some profile ∧ Buffering profile config s' [] := by
  obtain ⟨header, consumed, config, pos, hdecode, hseq, hparse, hsome⟩ := hm
  obtain ⟨profile, hprofile⟩ := Option.isSome_iff_exists.mp hsome
  obtain ⟨old, hcodec⟩ := h.codec
  refine ⟨{ s with audioReady := true, audioCodec := some (.aac (some config)) }, profile, config,
    ?_, hprofile, rfl, rfl, ?_, ?_, h.index, h.slots, nofun⟩
  · rw [Bridge.onAudioPacket, hcodec]
    simp only [Bridge.processAacPacket, hdecode, hseq, hparse, if_true]
  · rw [h.buf]
    rfl
  · rw [h.buf]
    rfl

/-- The frames that go into a stream are behind ADTS headers in the payloads of its PES
packets, but for those in the buffer, and no slot is used past the last one. -/
theorem aac_stream_complete (s : Bridge) (hs : Fresh s) (m₀ : AudioMessage)
    (h₀ : SupportedHeader m₀) (ms : List Message) (hms : ∀ m ∈ ms, AacOrVideo m) :
    ∃ s' es units k, s.run (.audio m₀ :: ms) = .ok (s', {} :: es) ∧
      List.Forall₂ IsAdts (framesOf ms) units ∧
      (audioEmitted ms es).flatMap Emitted.payload = (units.take k).flatten ∧
      (units.drop k).flatten.length < 1400 ∧
      (∀ e ∈ audioEmitted ms es, Emitted.Sound e) ∧ s'.adtsHeaderIndex < adtsReserved := by
  obtain ⟨s₁, profile, config, hstep, hprofile, hempty⟩ := seqHeader_buffering hs h₀
  obtain ⟨s', es, done, rest, hrun, hsplit, hpay, hlt, hbuf, hsound⟩ :=
    run_buffering hprofile hms hempty (Nat.zero_lt_succ 1399)
  rw [List.nil_append] at hsplit
  refine ⟨s', es, (framesOf ms).map (adtsUnit profile config), done.length, run_cons hstep hrun, ?_,
    ?_, ?_, hsound, ?_⟩
  · rw [List.forall₂_map_right_iff, List.forall₂_same]
    intro f hf
    obtain ⟨m, hm, hmem⟩ := List.mem_flatMap.mp hf
    cases m with
    | metadata m => cases hmem
    | video m => cases hmem
    | audio m =>
      obtain rfl := List.mem_singleton.mp hmem
      exact adtsHeader_isAdts profile config (hms _ hm).2
  · rw [hsplit, hpay, List.map_append, List.take_left' (List.length_map _)]
  · rw [hsplit, List.map_append, List.drop_left' (List.length_map _)]
    exact hlt
  · rw [hbuf.index]
    exact index_lt profile config hlt

def aacMetadata : Metadata := ⟨none, some .aac⟩

def aacMessage (payload : Bytes) : AudioMessage := ⟨payload, 0, false⟩

def twoFrames : List Message :=
  [.audio (aacMessage (0xaf :: 0x01 :: [0x21, 0x10])),
    .audio (aacMessage (0xaf :: 0x01 :: List.replicate 1393 0x21))]

theorem aac_stream_complete_twoFrames : ∃ s' es units k,
    (Bridge.onMetadata {} (some aacMetadata)).1.run
      (.audio (aacMessage [0xaf, 0x00, 0x12, 0x10]) :: twoFrames) = .ok (s', {} :: es) ∧
      List.Forall₂ IsAdts (framesOf twoFrames) units ∧
      (audioEmitted twoFrames es).flatMap Emitted.payload = (units.take k).flatten ∧
      (units.drop k).flatten.length < 1400 ∧
      (∀ e ∈ audioEmitted twoFrames es, Emitted.Sound e) ∧ s'.adtsHeaderIndex < adtsReserved := by
  have hraw (frame : Bytes) (h : frame.length ≤ 8184) :
      AacOrVideo (.audio (aacMessage (0xaf :: 0x01 :: frame))) := ⟨⟨_, rfl, rfl⟩, h⟩
  refine aac_stream_complete _ ⟨⟨none, rfl⟩, rfl, rfl, rfl⟩ _ ?_ twoFrames ?_
  · exact ⟨_, 2, _, _, rfl, rfl, rfl, rfl⟩
  · intro m hm
    rcases List.mem_cons.mp hm with rfl | hm
    · exact hraw [0x21, 0x10] (by decide)
    · obtain rfl := List.mem_singleton.mp hm
      exact hraw (List.replicate 1393 0x21) (by rw [List.length_replicate]; decide)

end MmsServer.Ts.AacStream
