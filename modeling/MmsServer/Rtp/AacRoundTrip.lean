import MmsServer.Rtp.AacBridge
import Mathlib.Data.List.ReduceOption

namespace MmsServer.Rtp.AacRoundTrip

open Lib.ByteReader Lib.Checked Lib.SortedMap Base.BitStream Rtmp.Define Rtmp.FlvTag Packer
  Depacketizer Assembler AacBridge

section Bound

variable {au : AUConfig} {ps : List RtpPacket} {p : RtpPacket} {frame frame' payload : Bytes}

/-- The bytes of a packet that can go to a frame: an AU header section takes four
bytes at least. -/
def auBytes (p : RtpPacket) : ℕ := p.payload.length - 4

def totalAuBytes (ps : List RtpPacket) : ℕ := (ps.map auBytes).sum

theorem putFrame_eq_ok {bs : Bytes} (h : putFrame frame bs = .ok frame') :
    frame' = frame ++ bs := by
  unfold putFrame at h
  split at h
  · cases h
    rfl
  · cases h

/-- The bytes copied lie between the first section and the end of the payload. -/
theorem auUnits_length {left : ℤ} {count bitPos start : ℕ} (hcount : 0 < count)
    (h : auUnits au payload left count bitPos start frame = .ok (some frame')) :
    frame'.length + start ≤ frame.length + payload.length := by
  induction count generalizing bitPos start frame with
  | zero => exact absurd hcount (Nat.lt_irrefl 0)
  | succ count ih =>
    obtain ⟨auSize, -, h⟩ := Outcome.bind_eq_ok.mp h
    split at h
    · cases h
    · obtain ⟨index, -, h⟩ := Outcome.bind_eq_ok.mp h
      split at h
      · cases h
      · obtain ⟨bytes, hs, h⟩ := Outcome.bind_eq_ok.mp h
        obtain ⟨frame₁, hf, h⟩ := Outcome.bind_eq_ok.mp h
        have hle : start + min auSize left.toNat ≤ payload.length := by
          by_contra hgt
          rw [slice_overread (by omega)] at hs
          cases hs
        have hlen : bytes.length = min auSize left.toNat := by
          rw [slice_ok hle] at hs
          cases hs
          rw [List.length_take, List.length_drop]
          omega
        have hf₁ := congrArg List.length (putFrame_eq_ok hf)
        rw [List.length_append, hlen] at hf₁
        obtain hc | hc := Nat.eq_zero_or_pos count
        · subst hc
          cases h
          omega
        · have hrest := ih hc h
          omega

theorem auPacket_length (hau : 2 ≤ au.perHeaderBytes)
    (h : auPacket au frame payload = .ok (some frame')) :
    frame'.length ≤ frame.length + (payload.length - 4) := by
  obtain ⟨bits, -, h⟩ := Outcome.bind_eq_ok.mp h
  split at h
  · cases h
  · dsimp only at h
    split at h
    · cases h
    · rename_i htotal
      obtain hc | hc := Nat.eq_zero_or_pos (bits / 8 / au.perHeaderBytes)
      · rw [hc] at h
        cases h
        omega
      · have hlen := auUnits_length hc h
        have hmul : 1 * 2 ≤ bits / 8 / au.perHeaderBytes * au.perHeaderBytes :=
          Nat.mul_le_mul hc hau
        rw [not_not.mp htotal] at hmul
        omega

theorem auPackets_length (hau : 2 ≤ au.perHeaderBytes)
    (h : auPackets au frame ps = .ok (some frame')) :
    frame'.length ≤ frame.length + totalAuBytes ps := by
  induction ps generalizing frame with
  | nil => cases h
  | cons p ps ih =>
    have hsum : totalAuBytes (p :: ps) = (p.payload.length - 4) + totalAuBytes ps := List.sum_cons
    unfold auPackets at h
    split at h
    · have hrest := ih h
      omega
    · obtain ⟨o, hp, h⟩ := Outcome.bind_eq_ok.mp h
      cases o with
      | none => cases h
      | some frame₁ =>
        have hlen := auPacket_length hau hp
        by_cases hm : p.marker = true
        · simp only [hm] at h
          cases h
          omega
        · simp only [hm] at h
          have hrest := ih h
          omega

end Bound

section Run

variable {r r' : RtspToRtmp} {ps : List RtpPacket} {p : RtpPacket} {ts : BitVec 32}
  {msg : Option RtmpMessage} {msgs : List (Option RtmpMessage)}

def frameBytes (msgs : List (Option RtmpMessage)) : ℕ :=
  (msgs.reduceOption.map fun m ↦ m.usingData.length - 2).sum

def Configured (r : RtspToRtmp) : Prop :=
  ∃ config, r.audioSpecificConfig = some config ∧ config.samplingFrequency ≠ 0

/-- The AU headers have two bytes at least. -/
def WideHeaders (r : RtspToRtmp) : Prop := ∀ au ∈ r.auConfig, 2 ≤ au.perHeaderBytes

theorem frameBytes_cons (msg : Option RtmpMessage) (msgs : List (Option RtmpMessage)) :
    frameBytes (msg :: msgs) = frameBytes [msg] + frameBytes msgs := by
  cases msg with
  | none => simp [frameBytes]
  | some m => simp [frameBytes]

theorem audioMessage_length (config : AudioSpecificConfig) (t : BitVec 32) (frame : Bytes) :
    (audioMessage config t frame).usingData.length - 2 = frame.length := by
  change (_ :: _ :: frame).length - 2 = _
  rfl

theorem generate_frameBytes {pkts : List RtpPacket} {t : BitVec 32} (hau : WideHeaders r)
    (h : r.generateAacRtmpMessage t pkts = .ok msg) : frameBytes [msg] ≤ totalAuBytes pkts := by
  unfold RtspToRtmp.generateAacRtmpMessage at h
  split at h
  · cases h
    exact Nat.zero_le _
  · rename_i au hr
    obtain ⟨o, ho, h⟩ := Outcome.bind_eq_ok.mp h
    cases o with
    | none =>
      cases h
      exact Nat.zero_le _
    | some frame =>
      have hlen := auPackets_length (hau au hr) ho
      dsimp only at h
      split at h
      · cases h
        exact Nat.zero_le _
      · cases h
        rename_i config hconfig
        have hm := audioMessage_length config t frame
        have hsum : frameBytes [some (audioMessage config t frame)] =
            (audioMessage config t frame).usingData.length - 2 + 0 := rfl
        rw [List.length_nil] at hlen
        omega

/-- What one packet does: the configs stay, a message takes the place of the packets
held, and there is none without a config. -/
theorem processAacPacket_cases (h : r.processAacPacket p = .ok (r', msg)) :
    (msg = none ∧ r' = { r with
      pktsBuf := Function.update r.pktsBuf p.timestamp
        (insertPacket p (r.pktsBuf p.timestamp)) }) ∨
    (r' = { r with pktsBuf := Function.update r.pktsBuf p.timestamp [] } ∧ p.marker = true ∧
      (msg = none ∨ Configured r ∧ ∃ t, r'.generateAacRtmpMessage t
        (insertPacket p (r.pktsBuf p.timestamp)) = .ok msg)) := by
  unfold RtspToRtmp.processAacPacket RtpAACDepacketizer.onPacket at h
  by_cases hm : p.marker = true
  · rw [takePacket_marker hm] at h
    dsimp only at h
    split at h
    · cases h
      exact .inr ⟨rfl, hm, .inl rfl⟩
    · rename_i config hconfig
      split at h
      · cases h
        exact .inr ⟨rfl, hm, .inl rfl⟩
      · rename_i hfreq
        obtain ⟨m, hg, h⟩ := Outcome.bind_eq_ok.mp h
        cases h
        exact .inr ⟨rfl, hm, .inr ⟨⟨config, hconfig, hfreq⟩, _, hg⟩⟩
  · rw [takePacket_noMarker (Bool.eq_false_iff.mpr hm)] at h
    cases h
    exact .inl ⟨rfl, rfl⟩

theorem processAacPacket_frameBytes (hau : WideHeaders r) (ht : p.timestamp = ts)
    (h : r.processAacPacket p = .ok (r', msg)) :
    WideHeaders r' ∧
      totalAuBytes (r'.pktsBuf ts) + frameBytes [msg] ≤
        totalAuBytes (r.pktsBuf ts) + auBytes p := by
  have hins : totalAuBytes (insertPacket p (r.pktsBuf ts)) ≤
      auBytes p + totalAuBytes (r.pktsBuf ts) := sum_insertNew_le auBytes p (r.pktsBuf ts)
  subst ht
  obtain ⟨rfl, rfl⟩ | ⟨rfl, -, hmsg⟩ := processAacPacket_cases h
  · refine ⟨hau, ?_⟩
    rw [show frameBytes [none] = 0 from rfl]
    dsimp only
    rw [Function.update_self]
    omega
  · refine ⟨hau, ?_⟩
    dsimp only
    rw [Function.update_self, show totalAuBytes [] = 0 from rfl]
    obtain rfl | ⟨-, t, hg⟩ := hmsg
    · rw [show frameBytes [none] = 0 from rfl]
      omega
    · have hle := generate_frameBytes (show WideHeaders { r with .. } from hau) hg
      omega

/-- In every run the frames of the messages have no more bytes than the packets
brought in behind their AU headers. -/
theorem feed_frameBytes (hau : WideHeaders r) (ht : ∀ p ∈ ps, p.timestamp = ts)
    (h : feed RtspToRtmp.processAacPacket r ps = .ok (r', msgs)) :
    totalAuBytes (r'.pktsBuf ts) + frameBytes msgs ≤
      totalAuBytes (r.pktsBuf ts) + totalAuBytes ps := by
  induction ps generalizing r msgs with
  | nil =>
    cases h
    exact le_rfl
  | cons p ps ih =>
    obtain ⟨⟨r₁, msg⟩, hp, h⟩ := Outcome.bind_eq_ok.mp h
    obtain ⟨⟨r₂, rest⟩, hps, h⟩ := Outcome.bind_eq_ok.mp h
    cases h
    obtain ⟨hau₁, hstep⟩ := processAacPacket_frameBytes hau (ht p List.mem_cons_self) hp
    have hrest := ih hau₁ (fun q hq ↦ ht q (List.mem_cons_of_mem p hq)) hps
    have hsum : totalAuBytes (p :: ps) = auBytes p + totalAuBytes ps := List.sum_cons
    rw [frameBytes_cons]
    omega

/-- Without a marker or without a config there is no message. -/
theorem feed_no_message (hno : (∀ p ∈ ps, p.marker = false) ∨ ¬ Configured r)
    (h : feed RtspToRtmp.processAacPacket r ps = .ok (r', msgs)) : msgs.reduceOption = [] := by
  induction ps generalizing r msgs with
  | nil =>
    cases h
    rfl
  | cons p ps ih =>
    obtain ⟨⟨r₁, msg⟩, hp, h⟩ := Outcome.bind_eq_ok.mp h
    obtain ⟨⟨r₂, rest⟩, hps, h⟩ := Outcome.bind_eq_ok.mp h
    cases h
    have hcases := processAacPacket_cases hp
    have hmsg : msg = none := by
      obtain ⟨rfl, -⟩ | ⟨-, hm, rfl | ⟨hc, -⟩⟩ := hcases
      · rfl
      · rfl
      · obtain hno | hno := hno
        · rw [hno p List.mem_cons_self] at hm
          cases hm
        · exact absurd hc hno
    have hconfig : Configured r₁ ↔ Configured r := by
      obtain ⟨-, rfl⟩ | ⟨rfl, -⟩ := hcases
      · exact Iff.rfl
      · exact Iff.rfl
    rw [hmsg, List.reduceOption_cons_of_none]
    exact ih (hno.imp (fun h q hq ↦ h q (List.mem_cons_of_mem p hq)) fun h ↦ hconfig.not.mpr h) hps

end Run

section Raw

variable {data : Bytes} {st : Stream} {c : BitVec 16}

theorem totalAuBytes_number (st : Stream) (c : BitVec 16) (ps : List (Bool × Bytes)) :
    totalAuBytes (number st c ps) = (ps.map fun q ↦ q.2.length - 4).sum := by
  induction ps generalizing c with
  | nil => rfl
  | cons q ps ih =>
    have hsum : totalAuBytes (number st c (q :: ps)) =
        (q.2.length - 4) + totalAuBytes (number st (getSequenceNum c) ps) := List.sum_cons
    rw [hsum, ih, List.map_cons, List.sum_cons]

theorem sum_rawPayloads_le (fuel : ℕ) (data : Bytes) :
    ((rawPayloads fuel data).map fun q ↦ q.2.length - 4).sum + min 4 data.length ≤ data.length := by
  have hsize : nalRtpPacketSize = 1400 := rfl
  induction fuel generalizing data with
  | zero =>
    rw [rawPayloads, List.map_nil, List.sum_nil]
    omega
  | succ fuel ih =>
    by_cases hl : nalRtpPacketSize ≤ data.length
    · have hrest := ih (data.drop nalRtpPacketSize)
      rw [rawPayloads_more fuel hl, List.map_cons, List.sum_cons, List.length_take]
      rw [List.length_drop] at hrest
      omega
    · by_cases h : 0 < data.length
      · rw [rawPayloads_last fuel h (by omega), List.map_singleton, List.sum_singleton]
        change data.length - 4 + _ ≤ _
        omega
      · rw [List.length_eq_zero_iff.mp (Nat.eq_zero_of_not_pos h), rawPayloads_nil]
        exact le_rfl

/-- Every packet behind the first one loses a byte at least. -/
theorem totalAuBytes_packRaw_lt (st : Stream) (c : BitVec 16) (h : nalRtpPacketSize < data.length) :
    totalAuBytes (packRaw st c data) + 4 < data.length := by
  have hsize : nalRtpPacketSize = 1400 := rfl
  obtain ⟨fuel, hfuel⟩ : ∃ fuel, data.length = fuel + 1 := ⟨data.length - 1, by omega⟩
  have hrest := sum_rawPayloads_le fuel (data.drop nalRtpPacketSize)
  rw [List.length_drop] at hrest
  rw [packRaw, totalAuBytes_number, hfuel, rawPayloads_more fuel (by omega), List.map_cons,
    List.sum_cons, List.length_take]
  omega

theorem packRaw_last (h : 0 < data.length) (hl : data.length < nalRtpPacketSize) :
    packRaw st c data = [packet st (getSequenceNum c) true data] := by
  obtain ⟨fuel, hfuel⟩ : ∃ fuel, data.length = fuel + 1 := ⟨data.length - 1, by omega⟩
  rw [packRaw, hfuel, rawPayloads_last fuel h hl]
  rfl

/-- A buffer that fills one packet has no marker. -/
theorem packRaw_full (h : data.length = nalRtpPacketSize) :
    packRaw st c data = [packet st (getSequenceNum c) false data] := by
  have hsize : nalRtpPacketSize = 1400 := rfl
  obtain ⟨fuel, hfuel⟩ : ∃ fuel, data.length = fuel + 1 := ⟨data.length - 1, by omega⟩
  rw [packRaw, hfuel, rawPayloads_more fuel (by omega), List.drop_of_length_le (by omega),
    List.take_of_length_le (by omega), rawPayloads_nil]
  rfl

end Raw

section Frame

variable {frame : Bytes}

structure AuHeader (hd frame : Bytes) : Prop where
  length_eq : hd.length = 2
  size_eq : readU 16 hd 13 0 0 = .ok frame.length
  index_eq : readU 16 hd 3 13 0 = .ok 0

theorem auSection_eq (h : frame.length ≤ 8187) :
    ∃ hd, auSection frame = .ok (putBE 2 16 ++ (hd ++ frame)) ∧ AuHeader hd frame := by
  obtain ⟨hd₁, h₁, hl₁, hn₁⟩ := writeBits_eq (show 0 + 13 ≤ 8 * [(0 : UInt8), 0].length by decide)
    frame.length
  have hlen₁ : hd₁.length = 2 := hl₁
  obtain ⟨hd, h₂, hl₂, hn₂⟩ := writeBits_eq (show 13 + 3 ≤ 8 * hd₁.length by omega) 0
  have hlen : hd.length = 2 := hl₂.trans hlen₁
  have hn : fromBE hd = 8 * frame.length := by
    have hmod : frame.length % 2 ^ 13 = frame.length := Nat.mod_eq_of_lt (by omega)
    rw [hmod, show fromBE [0, 0] = 0 from rfl, Nat.zero_or, Nat.shiftLeft_eq] at hn₁
    rw [Nat.zero_mod, Nat.zero_shiftLeft, Nat.or_zero, hn₁] at hn₂
    rw [hn₂, Nat.mul_comm]
    rfl
  have hbuf : audioBufBytes = 8192 := rfl
  refine ⟨hd, ?_, hlen, ?_, ?_⟩
  · rw [auSection, h₁, Outcome.ok_bind, h₂, Outcome.ok_bind, if_pos (by omega)]
    rfl
  · have hsize : (0 * 2 ^ 13 + 8 * frame.length / 2 ^ (8 * 2 - (0 + 13)) % 2 ^ 13) % 2 ^ 16 =
        frame.length := by omega
    rw [readU_eq (by omega) (by decide), hn, hlen, hsize]
  · have hindex : (0 * 2 ^ 3 + 8 * frame.length / 2 ^ (8 * 2 - (13 + 3)) % 2 ^ 3) % 2 ^ 16 = 0 := by
      omega
    rw [readU_eq (by omega) (by decide), hn, hlen, hindex]

theorem section_length {hd : Bytes} (hh : AuHeader hd frame) :
    (putBE 2 16 ++ (hd ++ frame)).length = frame.length + 4 := by
  rw [List.length_append, List.length_append, putBE_length, hh.length_eq]
  omega

theorem auPacket_section {hd : Bytes} (hh : AuHeader hd frame) (hpos : 0 < frame.length)
    (hle : frame.length ≤ audioFrameCacheBytes) :
    auPacket ⟨13, 3⟩ [] (putBE 2 16 ++ (hd ++ frame)) = .ok (some frame) := by
  have hhd := hh.length_eq
  have hdrop : (putBE 2 16 ++ (hd ++ frame)).drop 2 = hd ++ frame :=
    List.drop_left' (putBE_length 2 16)
  have hlen := section_length hh
  have hslice : slice 4 frame.length (putBE 2 16 ++ (hd ++ frame)) = .ok frame := by
    have h : slice 4 frame.length ((putBE 2 16 ++ hd) ++ (frame ++ [])) = .ok frame :=
      slice_append (by rw [List.length_append, putBE_length, hhd]) rfl
    rwa [List.append_nil, List.append_assoc] at h
  have hput : putFrame [] frame = .ok frame := if_pos (by rw [List.length_nil]; omega)
  have hunits : auUnits ⟨13, 3⟩ (putBE 2 16 ++ (hd ++ frame)) frame.length 1 0 4 [] =
      .ok (some frame) := by
    have hsize : readU 16 (hd ++ frame) 13 0 0 = .ok frame.length :=
      (readU_append (by omega)).trans hh.size_eq
    have hindex : readU 16 (hd ++ frame) 3 (0 + 13) 0 = .ok 0 :=
      (readU_append (by omega)).trans hh.index_eq
    rw [auUnits, hdrop]
    simp only [hsize, hindex, Outcome.ok_bind, if_neg (Nat.pos_iff_ne_zero.mp hpos),
      if_neg (Int.not_lt.mpr (Int.natCast_nonneg _)), Int.toNat_natCast, Nat.min_self, hslice, hput]
    rfl
  rw [auPacket, load_front (by decide), Outcome.ok_bind]
  have hleft : ((putBE 2 16 ++ (hd ++ frame)).length : ℤ) - (2 + (16 / 8 : ℕ)) = frame.length := by
    rw [hlen]
    omega
  change auUnits ⟨13, 3⟩ _ (((putBE 2 16 ++ (hd ++ frame)).length : ℤ) - (2 + (16 / 8 : ℕ))) 1 0 4
    [] = _
  rw [hleft, hunits]

end Frame

section Main

variable {s : RtmpToRtsp} {config : AudioSpecificConfig} {audioPkt : RtmpMessage} {r : RtspToRtmp}
  {frame : Bytes}

/-- A message of AAC with a raw frame, for a sender that has seen a config. -/
structure Sends (s : RtmpToRtsp) (config : AudioSpecificConfig) (audioPkt : RtmpMessage)
    (frame : Bytes) : Prop where
  audioReady : s.audioReady = true
  config_eq : s.audioSpecificConfig = some config
  usingData_eq : ∃ b : UInt8, b.toNat / 16 = 10 ∧ audioPkt.usingData = b :: aacRaw :: frame
  length_pos : 1 ≤ frame.length
  length_le : frame.length ≤ 8187

def frameTimestamp (s : RtmpToRtsp) (config : AudioSpecificConfig) (audioPkt : RtmpMessage) :
    BitVec 32 := (s.start audioPkt).rtpTimestamp config audioPkt

/-- A receiver of AU headers with 13 and 3 bits, which has no packets of a timestamp. -/
structure Receives (r : RtspToRtmp) (ts : BitVec 32) : Prop where
  auConfig_eq : r.auConfig = some ⟨13, 3⟩
  pktsBuf_eq : r.pktsBuf ts = []

/-- The packets of a frame, in order, give one audio message, which carries the
frame behind a tag header of two bytes. -/
def AacRoundTrips (s : RtmpToRtsp) (audioPkt : RtmpMessage) (r : RtspToRtmp) (frame : Bytes) :
    Prop :=
  ∃ s' pkts r' msgs msg header, s.processAacPacket audioPkt = .ok (s', some pkts) ∧
    feed RtspToRtmp.processAacPacket r pkts = .ok (r', msgs) ∧ msgs.reduceOption = [msg] ∧
      msg.messageTypeId = flvAudioTag ∧ AudioTagHeader.decode msg.usingData = .ok (header, 2) ∧
      header.soundFormat = .aac ∧ msg.usingData.drop 2 = frame

theorem start_config (h : Sends s config audioPkt frame) :
    (s.start audioPkt).audioSpecificConfig = some config := by
  unfold RtmpToRtsp.start
  split
  · exact h.config_eq
  · exact h.config_eq

theorem processAacPacket_raw (h : Sends s config audioPkt frame) :
    ∃ s' hd, s.processAacPacket audioPkt =
        .ok (s', some (packRaw ((s.start audioPkt).stream config audioPkt)
          (s.start audioPkt).rtpSeqnum (putBE 2 16 ++ (hd ++ frame)))) ∧ AuHeader hd frame := by
  obtain ⟨hd, hsec, hh⟩ := auSection_eq h.length_le
  obtain ⟨b, hb, hdata⟩ := h.usingData_eq
  obtain ⟨header, hdec, hraw⟩ : ∃ header,
      AudioTagHeader.decode audioPkt.usingData = .ok (header, 2) ∧ header.isSeqHeader = false := by
    rw [hdata, AudioTagHeader.decode, hb]
    exact ⟨_, rfl, rfl⟩
  have hdrop : audioPkt.usingData.drop 2 = frame := by rw [hdata]; rfl
  unfold RtmpToRtsp.processAacPacket
  rw [hdec]
  dsimp only
  rw [if_neg (Bool.eq_false_iff.mp hraw), if_pos h.audioReady, start_config h, hdrop]
  dsimp only
  rw [hsec, Outcome.ok_bind]
  exact ⟨_, hd, rfl, hh⟩

/-- A frame that fits in one packet with the marker comes out of it. -/
theorem processAacPacket_single (st : Stream) (seqnum : BitVec 16) {hd : Bytes}
    (hr : Receives r st.pts) (hc : Configured r) (hh : AuHeader hd frame) (hpos : 0 < frame.length)
    (hle : frame.length ≤ audioFrameCacheBytes) :
    ∃ r' config t, r.processAacPacket (packet st seqnum true (putBE 2 16 ++ (hd ++ frame))) =
      .ok (r', some (audioMessage config t frame)) := by
  obtain ⟨config, hconfig, hfreq⟩ := hc
  set p := packet st seqnum true (putBE 2 16 ++ (hd ++ frame)) with hp
  have hins : insertPacket p (r.pktsBuf p.timestamp) = [p] := by
    change insertPacket p (r.pktsBuf st.pts) = _
    rw [hr.pktsBuf_eq]
    rfl
  have hpkts : auPackets ⟨13, 3⟩ [] [p] = .ok (some frame) := by
    change ((auPacket ⟨13, 3⟩ [] (putBE 2 16 ++ (hd ++ frame))) >>= _) = _
    rw [auPacket_section hh hpos hle]
    rfl
  refine ⟨{ r with pktsBuf := Function.update r.pktsBuf p.timestamp [] }, config,
    (getTimestamp [p] - r.firstRtpAudioTs) * 1000 / config.samplingFrequency, ?_⟩
  unfold RtspToRtmp.processAacPacket RtpAACDepacketizer.onPacket
  rw [takePacket_marker rfl, hins]
  simp only [hconfig, if_neg hfreq, RtspToRtmp.generateAacRtmpMessage, hr.auConfig_eq, hpkts,
    Outcome.ok_bind]
  rfl

theorem decode_audioMessage (config : AudioSpecificConfig) (t : BitVec 32) (frame : Bytes) :
    ∃ header, AudioTagHeader.decode (audioMessage config t frame).usingData = .ok (header, 2) ∧
      header.soundFormat = .aac := by
  have hrate : soundRate config = 1 ∨ soundRate config = 2 ∨ soundRate config = 3 := by
    unfold soundRate
    split_ifs <;> simp
  unfold audioMessage
  obtain h | h | h := hrate
  · rw [h]
    exact ⟨_, rfl, rfl⟩
  · rw [h]
    exact ⟨_, rfl, rfl⟩
  · rw [h]
    exact ⟨_, rfl, rfl⟩

theorem aacRoundTrips_of_le (hs : Sends s config audioPkt frame)
    (hr : Receives r (frameTimestamp s config audioPkt)) (hc : Configured r)
    (hle : frame.length ≤ 1395) : AacRoundTrips s audioPkt r frame := by
  have hsize : nalRtpPacketSize = 1400 := rfl
  have hcache : audioFrameCacheBytes = 20480 := rfl
  obtain ⟨s', hd, hsend, hh⟩ := processAacPacket_raw hs
  have hlen := section_length hh
  rw [packRaw_last (by omega) (by omega)] at hsend
  obtain ⟨r', rc, t, hrecv⟩ := processAacPacket_single
    ((s.start audioPkt).stream config audioPkt) (getSequenceNum (s.start audioPkt).rtpSeqnum) hr hc hh
    hs.length_pos (by omega)
  obtain ⟨header, hdec, hformat⟩ := decode_audioMessage rc t frame
  refine ⟨s', _, r', [some (audioMessage rc t frame)], audioMessage rc t frame, header, hsend, ?_,
    rfl, rfl, hdec, hformat, rfl⟩
  rw [feed, hrecv]
  rfl

theorem le_of_aacRoundTrips (hs : Sends s config audioPkt frame)
    (hr : Receives r (frameTimestamp s config audioPkt)) (h : AacRoundTrips s audioPkt r frame) :
    frame.length ≤ 1395 ∧ Configured r := by
  have hsize : nalRtpPacketSize = 1400 := rfl
  obtain ⟨s', pkts, r', msgs, msg, header, hsend, hfeed, hmsgs, -, -, -, hdata⟩ := h
  obtain ⟨s₁, hd, hsend₁, hh⟩ := processAacPacket_raw hs
  have hlen := section_length hh
  cases hsend.symm.trans hsend₁
  have hconfigured : Configured r := by
    by_contra hc
    cases (feed_no_message (.inr hc) hfeed).symm.trans hmsgs
  have hnotFull : frame.length ≠ 1396 := by
    intro hfull
    rw [packRaw_full (by omega)] at hfeed
    have hm := feed_no_message (.inl fun p hp ↦ List.mem_singleton.mp hp ▸ rfl) hfeed
    cases hm.symm.trans hmsgs
  refine ⟨?_, hconfigured⟩
  by_contra hgt
  -- the message is longer than all that the packets hold behind their AU headers
  have hau : WideHeaders r := by
    intro au h
    cases hr.auConfig_eq.symm.trans h
    decide
  set st := (s.start audioPkt).stream config audioPkt
  set pkts := packRaw st (s.start audioPkt).rtpSeqnum (putBE 2 16 ++ (hd ++ frame)) with hpkts
  have ht : ∀ p ∈ pkts, p.timestamp = st.pts := fun p hp ↦ (mem_number _ _ _ hp).1
  have hle := feed_frameBytes hau ht hfeed
  have hlt : totalAuBytes pkts + 4 < _ := totalAuBytes_packRaw_lt _ _ (by omega)
  have hbuf : r.pktsBuf st.pts = [] := hr.pktsBuf_eq
  have hbytes : frameBytes msgs = msg.usingData.length - 2 := by
    rw [frameBytes, hmsgs]
    rfl
  rw [hbuf, hbytes, ← List.length_drop, hdata] at hle
  change _ ≤ 0 + _ at hle
  omega

theorem aacRoundTrips_iff (hs : Sends s config audioPkt frame)
    (hr : Receives r (frameTimestamp s config audioPkt)) :
    AacRoundTrips s audioPkt r frame ↔ frame.length ≤ 1395 ∧ Configured r :=
  ⟨le_of_aacRoundTrips hs hr, fun h ↦ aacRoundTrips_of_le hs hr h.2 h.1⟩

def sampleConfig : AudioSpecificConfig := ⟨2, 4, 44100, 2⟩

def sampleSender : RtmpToRtsp := ⟨true, some sampleConfig, 0, 97, 0⟩

def sampleReceiver : RtspToRtmp := ⟨fun _ ↦ [], some sampleConfig, some ⟨13, 3⟩, 0⟩

def rawMessage (frame : Bytes) : RtmpMessage :=
  { Packet.ofBytes (0xAF :: aacRaw :: frame) with messageTypeId := flvAudioTag }

theorem sampleSender_sends (hpos : 1 ≤ frame.length) (hle : frame.length ≤ 8187) :
    Sends sampleSender sampleConfig (rawMessage frame) frame :=
  ⟨rfl, rfl, ⟨0xAF, rfl, rfl⟩, hpos, hle⟩

theorem sampleReceiver_receives (ts : BitVec 32) : Receives sampleReceiver ts := ⟨rfl, rfl⟩

theorem sampleReceiver_configured : Configured sampleReceiver := ⟨sampleConfig, rfl, by decide⟩

theorem aacRoundTrips_iff_sample :
    AacRoundTrips sampleSender (rawMessage [0x21, 0x10, 0x04]) sampleReceiver [0x21, 0x10, 0x04] :=
  (aacRoundTrips_iff (sampleSender_sends (by decide) (by decide)) (sampleReceiver_receives _)).mpr
    ⟨by decide, sampleReceiver_configured⟩

theorem not_aacRoundTrips_zeros {n : ℕ} (hn : 1396 ≤ n) (hle : n ≤ 8187) :
    ¬ AacRoundTrips sampleSender (rawMessage (List.replicate n 0)) sampleReceiver
      (List.replicate n 0) := by
  have hlen : (List.replicate n (0 : UInt8)).length = n := List.length_replicate
  intro h
  have hshort := (le_of_aacRoundTrips (sampleSender_sends (by omega) (by omega))
    (sampleReceiver_receives _) h).1
  omega

/-- A frame of 1396 bytes fills one packet, which has no marker, and one of 1500
bytes has a second packet without AU headers. -/
theorem aacRoundTrips_fails :
    Configured sampleReceiver ∧
      (¬ AacRoundTrips sampleSender (rawMessage (List.replicate 1396 0)) sampleReceiver
        (List.replicate 1396 0)) ∧
      ¬ AacRoundTrips sampleSender (rawMessage (List.replicate 1500 0)) sampleReceiver
        (List.replicate 1500 0) :=
  ⟨sampleReceiver_configured, not_aacRoundTrips_zeros (by omega) (by omega),
    not_aacRoundTrips_zeros (by omega) (by omega)⟩

end Main

end MmsServer.Rtp.AacRoundTrip
