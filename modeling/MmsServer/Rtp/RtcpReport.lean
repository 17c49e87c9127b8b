import MmsServer.Lib.CheckedReading
import MmsServer.Lib.CheckedWriting
import MmsServer.Lib.PackedByte

namespace MmsServer.Rtp.RtcpReport

open Lib.ByteReader Lib.Checked Lib.ByteLayout Lib.CheckedReading Lib.CheckedWriting
  Lib.PackedByte

structure RtcpHeader where
  padding : UInt8 := 0
  version : UInt8 := 2
  rc : UInt8 := 0
  pt : UInt8
  length : UInt16
  senderSsrc : UInt32
deriving DecidableEq

/-- Words that the source keeps signed are kept here by their bits. -/
structure ReceptionReportBlock where
  ssrc : UInt32
  fractionLost : UInt8
  cumulativeNumberOfPacketsLost : UInt32
  extendedHighestSequenceNumberReceived : UInt32
  interarrivalJitter : UInt32
  lastSR : UInt32
  delaySinceLastSR : UInt32
deriving DecidableEq

structure RtcpSr where
  header : RtcpHeader
  ntpTimestampSec : UInt32
  ntpTimestampPsec : UInt32
  rtpTime : UInt32
  senderPacketCount : UInt32
  senderOctetCount : UInt32
  receptionReportBlocks : List ReceptionReportBlock
deriving DecidableEq

structure RtcpRR where
  header : RtcpHeader
  receptionReportBlocks : List ReceptionReportBlock
deriving DecidableEq

def wordBytes (w : UInt32) : Bytes := putBE 4 w.toNat

def memoryByte (w : UInt32) (i : ℕ) : UInt8 := UInt8.ofNat (w.toNat / 256 ^ i)

def loadWord : CheckedReader UInt32 := do return UInt32.ofNat (← loadBE 4)

def getWord (code : ℤ) : CheckedReader UInt32 := do return UInt32.ofNat (← getBE 4 code)

namespace RtcpHeader

variable (h : RtcpHeader)

def decode : CheckedReader RtcpHeader := do
  let tmpv1 ← getByte (-1)
  let pt ← getByte (-2)
  let length ← getBE 2 (-3)
  let senderSsrc ← getWord (-4)
  return {
    rc := tmpv1 &&& 0x1F
    padding := (tmpv1 >>> 5) &&& 0x01
    version := (tmpv1 >>> 6) &&& 0x03
    pt
    length := UInt16.ofNat length
    senderSsrc }

def firstByte : UInt8 := (h.version <<< 6) ||| (h.padding <<< 5) ||| h.rc

def encode : CheckedWriter Unit := do
  putBytes [h.firstByte] (-1)
  putBytes [h.pt] (-2)
  putBytes (putBE 2 h.length.toNat) (-3)
  putBytes (wordBytes h.senderSsrc) (-4)

def bytes : Bytes :=
  [h.firstByte] ++ ([h.pt] ++ (putBE 2 h.length.toNat ++ wordBytes h.senderSsrc))

/-- Each field of the first byte fits the bits it has there. -/
structure Fits : Prop where
  version_lt : h.version.toNat < 4
  padding_lt : h.padding.toNat < 2
  rc_lt : h.rc.toNat < 32

end RtcpHeader

namespace ReceptionReportBlock

variable (r : ReceptionReportBlock)

def decode : CheckedReader ReceptionReportBlock := do
  let ssrc ← getWord 0
  let lost ← getBytes 4 0
  let extendedHighestSequenceNumberReceived ← getWord 0
  let interarrivalJitter ← getWord 0
  let lastSR ← getWord 0
  let delaySinceLastSR ← getWord 0
  return {
    ssrc
    fractionLost := lost.headD 0
    cumulativeNumberOfPacketsLost := UInt32.ofNat (fromBE (lost.drop 1))
    extendedHighestSequenceNumberReceived, interarrivalJitter, lastSR, delaySinceLastSR }

def cleared : ReceptionReportBlock := { r with cumulativeNumberOfPacketsLost := 0 }

/-- The number of lost packets is set to zero before its bytes are written, and the three
upper ones are. -/
def encode : CheckedWriter ReceptionReportBlock := do
  putBytes (wordBytes r.ssrc) 0
  let r := r.cleared
  let p := memoryByte r.cumulativeNumberOfPacketsLost
  putBytes [r.fractionLost, p 3, p 2, p 1] 0
  putBytes (wordBytes r.extendedHighestSequenceNumberReceived) 0
  putBytes (wordBytes r.interarrivalJitter) 0
  putBytes (wordBytes r.lastSR) 0
  putBytes (wordBytes r.delaySinceLastSR) 0
  return r

def bytes : Bytes :=
  wordBytes r.ssrc ++ ([r.fractionLost, 0, 0, 0] ++
    (wordBytes r.extendedHighestSequenceNumberReceived ++ (wordBytes r.interarrivalJitter ++
      (wordBytes r.lastSR ++ wordBytes r.delaySinceLastSR))))

end ReceptionReportBlock

namespace RtcpSr

variable (sr : RtcpSr)

def decode : CheckedReader RtcpSr := do
  let header ← Lib.CheckedReading.orReturn 0 RtcpHeader.decode
  need 8 0
  let ntpTimestampSec ← loadWord
  let ntpTimestampPsec ← loadWord
  let rtpTime ← getWord 0
  let senderPacketCount ← getWord 0
  let senderOctetCount ← getWord 0
  let receptionReportBlocks ← many ReceptionReportBlock.decode header.rc.toNat
  return {
    header, ntpTimestampSec, ntpTimestampPsec, rtpTime, senderPacketCount, senderOctetCount
    receptionReportBlocks }

def encode : CheckedWriter RtcpSr := do
  Lib.CheckedWriting.orReturn 0 sr.header.encode
  putBytes (wordBytes sr.ntpTimestampSec ++ wordBytes sr.ntpTimestampPsec) 0
  putBytes (wordBytes sr.rtpTime) 0
  putBytes (wordBytes sr.senderPacketCount) 0
  putBytes (wordBytes sr.senderOctetCount) 0
  let receptionReportBlocks ← each ReceptionReportBlock.encode sr.receptionReportBlocks
  return { sr with receptionReportBlocks }

def cleared : RtcpSr :=
  { sr with receptionReportBlocks := sr.receptionReportBlocks.map ReceptionReportBlock.cleared }

def bytes : Bytes :=
  sr.header.bytes ++ ((wordBytes sr.ntpTimestampSec ++ wordBytes sr.ntpTimestampPsec) ++
    (wordBytes sr.rtpTime ++ (wordBytes sr.senderPacketCount ++ (wordBytes sr.senderOctetCount ++
      sr.receptionReportBlocks.flatMap ReceptionReportBlock.bytes))))

end RtcpSr

namespace RtcpRR

variable (rr : RtcpRR)

def decode : CheckedReader RtcpRR := do
  let header ← Lib.CheckedReading.orReturn 0 RtcpHeader.decode
  let receptionReportBlocks ← many ReceptionReportBlock.decode header.rc.toNat
  return { header, receptionReportBlocks }

def counted : RtcpHeader :=
  { rr.header with
    rc := UInt8.ofNat rr.receptionReportBlocks.length
    length := UInt16.ofNat ((4 + 24 * rr.receptionReportBlocks.length) / 4) }

def encode : CheckedWriter RtcpRR := do
  let header := rr.counted
  Lib.CheckedWriting.orReturn 0 header.encode
  let receptionReportBlocks ← each ReceptionReportBlock.encode rr.receptionReportBlocks
  return { header, receptionReportBlocks }

def cleared : RtcpRR where
  header := rr.counted
  receptionReportBlocks := rr.receptionReportBlocks.map ReceptionReportBlock.cleared

def bytes : Bytes :=
  rr.counted.bytes ++ rr.receptionReportBlocks.flatMap ReceptionReportBlock.bytes

end RtcpRR

section Words

theorem wordBytes_length (w : UInt32) : (wordBytes w).length = 4 := putBE_length 4 w.toNat

theorem word_lt (w : UInt32) : w.toNat < 256 ^ 4 := w.toNat_lt

theorem getWord_gives (w : UInt32) (code : ℤ) : Gives (getWord code) (wordBytes w) w := by
  have h := (gives_getBE (word_lt w) code).map UInt32.ofNat
  rwa [UInt32.ofNat_toNat] at h

theorem loadWord_gives (w : UInt32) : Gives loadWord (wordBytes w) w := by
  have h := (gives_loadBE (word_lt w)).map UInt32.ofNat
  rwa [UInt32.ofNat_toNat] at h

end Words

section Header

variable {h : RtcpHeader}

theorem RtcpHeader.encode_puts (h : RtcpHeader) : Puts h.encode h.bytes () :=
  (puts_putBytes _ _).bind <| (puts_putBytes _ _).bind <| (puts_putBytes _ _).bind <|
    puts_putBytes _ _

theorem RtcpHeader.decode_gives (hf : h.Fits) : Gives RtcpHeader.decode h.bytes h := by
  have hsplit := split_two_one_five hf.version_lt hf.padding_lt hf.rc_lt
  obtain ⟨hversion, hpadding, hrc⟩ := hsplit
  have hlt : h.length.toNat < 256 ^ 2 := h.length.toNat_lt
  refine (gives_getByte _ _).bind <| (gives_getByte _ _).bind <| (gives_getBE hlt _).bind ?_
  have hlast := (getWord_gives h.senderSsrc (-4)).map fun w ↦
    ({ h with length := UInt16.ofNat h.length.toNat, senderSsrc := w } : RtcpHeader)
  simp only [UInt16.ofNat_toNat] at hlast ⊢
  simp only [RtcpHeader.firstByte, hversion, hpadding, hrc]
  exact hlast

end Header

section Blocks

theorem memoryByte_zero (i : ℕ) : memoryByte 0 i = 0 := by
  simp only [memoryByte, UInt32.toNat_zero, Nat.zero_div]
  rfl

theorem ReceptionReportBlock.encode_puts (r : ReceptionReportBlock) :
    Puts r.encode r.bytes r.cleared := by
  have hzero : r.cleared.cumulativeNumberOfPacketsLost = 0 := rfl
  simp only [ReceptionReportBlock.encode, hzero, memoryByte_zero]
  exact (puts_putBytes _ _).bind <| (puts_putBytes _ _).bind <| (puts_putBytes _ _).bind <|
    (puts_putBytes _ _).bind <| (puts_putBytes _ _).bind <| (puts_putBytes _ _).map _

theorem ReceptionReportBlock.decode_gives (r : ReceptionReportBlock) :
    Gives ReceptionReportBlock.decode r.bytes r.cleared := by
  have hlost : Gives (getBytes 4 0) [r.fractionLost, 0, 0, 0] [r.fractionLost, 0, 0, 0] :=
    gives_getBytes rfl 0
  exact (getWord_gives _ _).bind <| hlost.bind <| (getWord_gives _ _).bind <|
    (getWord_gives _ _).bind <| (getWord_gives _ _).bind <| (getWord_gives _ _).map _

theorem blocks_puts (blocks : List ReceptionReportBlock) :
    Puts (each ReceptionReportBlock.encode blocks) (blocks.flatMap ReceptionReportBlock.bytes)
      (blocks.map ReceptionReportBlock.cleared) :=
  Puts.each blocks ReceptionReportBlock.encode_puts

theorem blocks_gives (blocks : List ReceptionReportBlock) :
    Gives (many ReceptionReportBlock.decode blocks.length)
      (blocks.flatMap ReceptionReportBlock.bytes) (blocks.map ReceptionReportBlock.cleared) :=
  Gives.many fun r _ ↦ r.decode_gives

def NoneLost (blocks : List ReceptionReportBlock) : Prop :=
  ∀ r ∈ blocks, r.cumulativeNumberOfPacketsLost = 0

theorem cleared_eq_self {r : ReceptionReportBlock} :
    r.cleared = r ↔ r.cumulativeNumberOfPacketsLost = 0 := by
  constructor
  · intro h
    rw [← h]
    rfl
  · intro h
    rw [ReceptionReportBlock.cleared, ← h]

theorem map_cleared_eq_self {blocks : List ReceptionReportBlock} :
    blocks.map ReceptionReportBlock.cleared = blocks ↔ NoneLost blocks := by
  have h : blocks.map ReceptionReportBlock.cleared = blocks.map id ↔
      ∀ r ∈ blocks, r.cleared = id r := List.map_inj_left
  simpa only [List.map_id, id, cleared_eq_self, NoneLost] using h

end Blocks

theorem RtcpHeader.bytes_length (h : RtcpHeader) : h.bytes.length = 8 := by
  simp only [RtcpHeader.bytes, List.length_append, List.length_singleton, putBE_length,
    wordBytes_length]

theorem blocks_length (blocks : List ReceptionReportBlock) :
    (blocks.flatMap ReceptionReportBlock.bytes).length = 24 * blocks.length := by
  induction blocks with
  | nil => rfl
  | cons r blocks ih =>
    have hr : r.bytes.length = 24 := by
      simp only [ReceptionReportBlock.bytes, List.length_append, wordBytes_length]
      rfl
    rw [List.flatMap_cons, List.length_append, ih, hr, List.length_cons]
    omega

namespace RtcpSr

variable {sr : RtcpSr}

/-- The header fits its bytes and counts the blocks. -/
structure Fits (sr : RtcpSr) : Prop where
  header : sr.header.Fits
  rc_eq : sr.header.rc.toNat = sr.receptionReportBlocks.length

theorem bytes_length (sr : RtcpSr) :
    sr.bytes.length = 28 + 24 * sr.receptionReportBlocks.length := by
  simp only [bytes, List.length_append, RtcpHeader.bytes_length, wordBytes_length, blocks_length]
  omega

theorem encode_puts (sr : RtcpSr) : Puts sr.encode sr.bytes sr.cleared :=
  (sr.header.encode_puts.orReturn 0).bind <| (puts_putBytes _ _).bind <|
    (puts_putBytes _ _).bind <| (puts_putBytes _ _).bind <| (puts_putBytes _ _).bind <|
    (blocks_puts _).map _

theorem decode_gives (hf : sr.Fits) : Gives decode sr.bytes sr.cleared := by
  have hblocks := blocks_gives sr.receptionReportBlocks
  rw [← hf.rc_eq] at hblocks
  refine ((RtcpHeader.decode_gives hf.header).orReturn 0).bind ?_
  refine Gives.behind_need ?_ ?_ 0
  · rw [List.append_assoc]
    exact (loadWord_gives _).bind <| (loadWord_gives _).bind <| (getWord_gives _ _).bind <|
      (getWord_gives _ _).bind <| (getWord_gives _ _).bind <| hblocks.map _
  · rw [List.length_append, List.length_append, wordBytes_length, wordBytes_length]
    omega

theorem cleared_eq_self : sr.cleared = sr ↔ NoneLost sr.receptionReportBlocks := by
  rw [← map_cleared_eq_self]
  constructor
  · intro h
    exact congrArg receptionReportBlocks h
  · intro h
    rw [cleared, h]

end RtcpSr

namespace RtcpRR

variable {rr : RtcpRR}

structure Fits (rr : RtcpRR) : Prop where
  header : rr.header.Fits
  rc_eq : rr.header.rc.toNat = rr.receptionReportBlocks.length

theorem bytes_length (rr : RtcpRR) :
    rr.bytes.length = 8 + 24 * rr.receptionReportBlocks.length := by
  rw [bytes, List.length_append, RtcpHeader.bytes_length, blocks_length]

theorem counted_rc (hf : rr.Fits) : rr.counted.rc = rr.header.rc := by
  rw [counted, ← hf.rc_eq, UInt8.ofNat_toNat]

theorem counted_fits (hf : rr.Fits) : rr.counted.Fits :=
  ⟨hf.header.version_lt, hf.header.padding_lt, by rw [counted_rc hf]; exact hf.header.rc_lt⟩

theorem counted_eq_self (hf : rr.Fits) : rr.counted = rr.header ↔
    rr.header.length.toNat = 1 + 6 * rr.receptionReportBlocks.length := by
  have hrc := counted_rc hf
  have hlt := hf.header.rc_lt
  have hn := hf.rc_eq
  have hlength : rr.counted.length.toNat = 1 + 6 * rr.receptionReportBlocks.length := by
    change (UInt16.ofNat ((4 + 24 * rr.receptionReportBlocks.length) / 4)).toNat = _
    rw [UInt16.toNat_ofNat_of_lt' (by change _ < 65536; omega)]
    omega
  constructor
  · intro h
    rw [← h, hlength]
  · intro h
    have hsame : rr.counted.length = rr.header.length := UInt16.toNat_inj.mp (hlength.trans h.symm)
    change ({ rr.header with rc := rr.counted.rc, length := rr.counted.length } : RtcpHeader) = _
    rw [hrc, hsame]

theorem encode_puts (rr : RtcpRR) : Puts rr.encode rr.bytes rr.cleared :=
  (rr.counted.encode_puts.orReturn 0).bind <| (blocks_puts _).map _

theorem decode_gives (hf : rr.Fits) : Gives decode rr.bytes rr.cleared := by
  have hblocks := blocks_gives rr.receptionReportBlocks
  rw [← hf.rc_eq, ← counted_rc hf] at hblocks
  exact ((RtcpHeader.decode_gives (counted_fits hf)).orReturn 0).bind <| hblocks.map _

theorem cleared_eq_self (hf : rr.Fits) : rr.cleared = rr ↔ NoneLost rr.receptionReportBlocks ∧
    rr.header.length.toNat = 1 + 6 * rr.receptionReportBlocks.length := by
  rw [← map_cleared_eq_self, ← counted_eq_self hf]
  constructor
  · intro h
    exact ⟨congrArg receptionReportBlocks h, congrArg header h⟩
  · intro h
    rw [cleared, h.1, h.2]

end RtcpRR

section RoundTrip

variable {α : Type}

/-- What is encoded into a buffer of at least this size is as it was, and is read back from
exactly the bytes that were written. -/
def ComesBack (encode : CheckedWriter α) (decode : CheckedReader α) (size : ℕ) (a : α) : Prop :=
  ∀ buf : Bytes, size ≤ buf.length → ∃ n written, runWriter encode buf = .ok (n, written, a) ∧
    decode (written.take n) = .ok (a, [])

theorem comesBack_iff {encode : CheckedWriter α} {decode : CheckedReader α} {bs : Bytes} {a a' : α}
    (hp : Puts encode bs a') (hg : Gives decode bs a') :
    ComesBack encode decode bs.length a ↔ a' = a := by
  constructor
  · intro h
    obtain ⟨n, written, hw, -⟩ := h bs (le_refl _)
    rw [hp.run _ (le_refl _)] at hw
    simp only [Outcome.ok.injEq, Prod.mk.injEq] at hw
    exact hw.2.2
  · rintro rfl buf hbuf
    have hback := hg []
    rw [List.append_nil] at hback
    exact ⟨bs.length, _, hp.run _ hbuf, by rw [List.take_left, hback]⟩

def RtcpSr.RoundTrips (sr : RtcpSr) : Prop :=
  ComesBack sr.encode RtcpSr.decode (28 + 24 * sr.receptionReportBlocks.length) sr

def RtcpRR.RoundTrips (rr : RtcpRR) : Prop :=
  ComesBack rr.encode RtcpRR.decode (8 + 24 * rr.receptionReportBlocks.length) rr

/-- A report comes back as it was if and only if no block counts a lost packet. For a receiver
report the length in its header must be the one of its blocks, which `encode` puts there. -/
theorem reports_roundTrip_iff (sr : RtcpSr) (rr : RtcpRR) (hs : sr.Fits) (hr : rr.Fits) :
    (sr.RoundTrips ↔ NoneLost sr.receptionReportBlocks) ∧
      (rr.RoundTrips ↔ NoneLost rr.receptionReportBlocks ∧
        rr.header.length.toNat = 1 + 6 * rr.receptionReportBlocks.length) := by
  constructor
  · rw [RtcpSr.RoundTrips, ← RtcpSr.bytes_length, comesBack_iff sr.encode_puts (sr.decode_gives hs),
      RtcpSr.cleared_eq_self]
  · rw [RtcpRR.RoundTrips, ← RtcpRR.bytes_length, comesBack_iff rr.encode_puts (rr.decode_gives hr),
      RtcpRR.cleared_eq_self hr]

def oneBlock (lost : UInt32) : ReceptionReportBlock where
  ssrc := 7
  fractionLost := 2
  cumulativeNumberOfPacketsLost := lost
  extendedHighestSequenceNumberReceived := 0x10203
  interarrivalJitter := 4
  lastSR := 5
  delaySinceLastSR := 6

def oneBlockSr (lost : UInt32) : RtcpSr where
  header := { rc := 1, pt := 200, length := 12, senderSsrc := 9 }
  ntpTimestampSec := 1
  ntpTimestampPsec := 2
  rtpTime := 3
  senderPacketCount := 4
  senderOctetCount := 5
  receptionReportBlocks := [oneBlock lost]

def oneBlockRR (lost : UInt32) : RtcpRR where
  header := { rc := 1, pt := 201, length := 7, senderSsrc := 9 }
  receptionReportBlocks := [oneBlock lost]

theorem oneBlockSr_fits (lost : UInt32) : (oneBlockSr lost).Fits :=
  ⟨⟨by simp [oneBlockSr], by simp [oneBlockSr], by simp [oneBlockSr]⟩, rfl⟩

theorem oneBlockRR_fits (lost : UInt32) : (oneBlockRR lost).Fits :=
  ⟨⟨by simp [oneBlockRR], by simp [oneBlockRR], by simp [oneBlockRR]⟩, rfl⟩

theorem noneLost_roundTrip :
    ((oneBlockSr 0).RoundTrips ↔ NoneLost (oneBlockSr 0).receptionReportBlocks) ∧
      ((oneBlockRR 0).RoundTrips ↔ NoneLost (oneBlockRR 0).receptionReportBlocks ∧
        (oneBlockRR 0).header.length.toNat = 7) :=
  reports_roundTrip_iff (oneBlockSr 0) (oneBlockRR 0) (oneBlockSr_fits 0) (oneBlockRR_fits 0)

/-- A count of one lost packet does not come back. -/
theorem lostPacket_forgotten : (oneBlockSr 1).Fits ∧ ¬ (oneBlockSr 1).RoundTrips := by
  refine ⟨oneBlockSr_fits 1, fun h ↦ ?_⟩
  obtain ⟨n, written, hw, -⟩ := h (List.replicate 52 0) (by decide)
  have hrun : runWriter (oneBlockSr 1).encode (List.replicate 52 0) =
      .ok (52, (oneBlockSr 1).bytes, oneBlockSr 0) := by decide
  rw [hrun] at hw
  cases hw

end RoundTrip

end MmsServer.Rtp.RtcpReport
