import MmsServer.Mp4.Base

namespace MmsServer.Mp4.Esds

open Lib.ByteReader Lib.ByteLayout Lib.ByteLayout.Layout Mp4.Base

section Descriptor

def esDescrTag : BitVec 8 := 0x03

def decoderConfigDescrTag : BitVec 8 := 0x04

def decSpecificInfoTag : BitVec 8 := 0x05

def slConfigDescrTag : BitVec 8 := 0x06

def objectTypeAac : BitVec 8 := 0x40

def audioStream : BitVec 8 := 0x05

structure Mp4BaseDescriptor where
  tag : BitVec 8
  vlen : BitVec 32
deriving Inhabited

def vlenSize (len : ℕ) : ℕ := if len < 128 then 1 else vlenSize (len / 128) + 1
termination_by len
decreasing_by omega

/-- The bytes of a length, with the low bits first. A length of 0 has none. -/
def vlenBytes (len : ℕ) : Bytes :=
  if len = 0 then []
  else UInt8.ofNat (if len > 0x7f then len % 128 + 128 else len % 128) :: vlenBytes (len / 128)
termination_by len
decreasing_by omega

def Mp4BaseDescriptor.size (d : Mp4BaseDescriptor) : ℤ := 1 + vlenSize d.vlen.toNat

def Mp4BaseDescriptor.encode (d : Mp4BaseDescriptor) : Layout := seqs [
  write1 d.tag,
  writeString (vlenBytes d.vlen.toNat)]

/-- The loop stops at the byte without a mark, before it has taken its bits. -/
def readVlen (len : BitVec 32) : Reader (BitVec 32)
  | [] => none
  | v :: bs => if 128 ≤ v.toNat then readVlen (len <<< 7 ||| BitVec.ofNat 32 (v.toNat % 128)) bs
    else some (len, bs)

def Mp4BaseDescriptor.decode : Reader Mp4BaseDescriptor := do
  let tag ← read1
  let vlen ← readVlen 0
  return ⟨tag, vlen⟩

structure Mp4SLConfigDescriptor extends Mp4BaseDescriptor where
  predefined : BitVec 8
deriving Inhabited

def Mp4SLConfigDescriptor.new (memory : Mp4SLConfigDescriptor) : Mp4SLConfigDescriptor :=
  { memory with tag := slConfigDescrTag, predefined := 2 }

/-- The descriptor after a call of `size`, which sets the length. -/
def Mp4SLConfigDescriptor.sized (d : Mp4SLConfigDescriptor) : Mp4SLConfigDescriptor :=
  { d with vlen := 1 }

def Mp4SLConfigDescriptor.size (d : Mp4SLConfigDescriptor) : ℤ :=
  d.sized.toMp4BaseDescriptor.size + 1

def Mp4SLConfigDescriptor.encode (d : Mp4SLConfigDescriptor) : Layout := seqs [
  d.toMp4BaseDescriptor.encode,
  write1 d.predefined]

def Mp4SLConfigDescriptor.decode : Reader Mp4SLConfigDescriptor := do
  let base ← Mp4BaseDescriptor.decode
  let predefined ← read1
  return { base with predefined := predefined }

structure Mp4DecoderSpecificInfo extends Mp4BaseDescriptor where
  asc : Bytes
deriving Inhabited

def Mp4DecoderSpecificInfo.new (memory : Mp4BaseDescriptor) : Mp4DecoderSpecificInfo where
  toMp4BaseDescriptor := { memory with tag := decSpecificInfoTag }
  asc := []

def Mp4DecoderSpecificInfo.sized (d : Mp4DecoderSpecificInfo) : Mp4DecoderSpecificInfo :=
  { d with vlen := BitVec.ofNat 32 d.asc.length }

def Mp4DecoderSpecificInfo.size (d : Mp4DecoderSpecificInfo) : ℤ :=
  d.sized.toMp4BaseDescriptor.size + d.asc.length

def Mp4DecoderSpecificInfo.encode (d : Mp4DecoderSpecificInfo) : Layout := seqs [
  d.toMp4BaseDescriptor.encode,
  writeString d.asc]

/-- The length is an `int32_t` that becomes a `size_t`. -/
def Mp4DecoderSpecificInfo.decode : Reader Mp4DecoderSpecificInfo := do
  let base ← Mp4BaseDescriptor.decode
  let asc ← readString (base.vlen.signExtend 64).toNat
  return { base with asc := asc }

structure Mp4DecoderConfigDescriptor extends Mp4BaseDescriptor where
  objectTypeIndication : BitVec 8
  streamType : BitVec 8
  upstream : BitVec 8
  reserved : BitVec 8
  bufferSizeDb : BitVec 32
  maxBitrate : BitVec 32
  avgBitrate : BitVec 32
  decSpecificInfo : Option Mp4DecoderSpecificInfo
deriving Inhabited

def Mp4DecoderConfigDescriptor.new (memory : Mp4DecoderConfigDescriptor) : Mp4DecoderConfigDescriptor :=
  { memory with
    tag := decoderConfigDescrTag
    objectTypeIndication := 0
    streamType := 0
    reserved := 1
    decSpecificInfo := none }

def Mp4DecoderConfigDescriptor.sized (d : Mp4DecoderConfigDescriptor) : Mp4DecoderConfigDescriptor :=
  { d with
    vlen := BitVec.ofInt 32 (13 + d.decSpecificInfo.elim 0 Mp4DecoderSpecificInfo.size)
    decSpecificInfo := d.decSpecificInfo.map Mp4DecoderSpecificInfo.sized }

def Mp4DecoderConfigDescriptor.size (d : Mp4DecoderConfigDescriptor) : ℤ :=
  d.sized.toMp4BaseDescriptor.size + d.sized.vlen.toInt

def Mp4DecoderConfigDescriptor.streamByte (d : Mp4DecoderConfigDescriptor) : BitVec 8 :=
  d.reserved ||| (d.upstream &&& 1) <<< 1 ||| (d.streamType &&& 0x3f) <<< 2

def Mp4DecoderConfigDescriptor.encode (d : Mp4DecoderConfigDescriptor) : Layout := seqs [
  d.toMp4BaseDescriptor.encode,
  write1 d.objectTypeIndication,
  write1 d.streamByte,
  write3 d.bufferSizeDb,
  write4 d.maxBitrate,
  write4 d.avgBitrate,
  d.decSpecificInfo.elim done Mp4DecoderSpecificInfo.encode]

def Mp4DecoderConfigDescriptor.decode (d : Mp4DecoderConfigDescriptor) :
    Reader Mp4DecoderConfigDescriptor := do
  let base ← Mp4BaseDescriptor.decode
  let objectTypeIndication ← read1
  let v ← read1
  let bufferSizeDb ← read3
  let maxBitrate ← read4
  let avgBitrate ← read4
  let decSpecificInfo ← readIf (13 < base.vlen.toInt)
    (return some (← Mp4DecoderSpecificInfo.decode)) d.decSpecificInfo
  return { base with
    objectTypeIndication := objectTypeIndication
    streamType := v >>> 2 &&& 0x3f
    upstream := v >>> 1 &&& 1
    reserved := d.reserved
    bufferSizeDb := bufferSizeDb
    maxBitrate := maxBitrate
    avgBitrate := avgBitrate
    decSpecificInfo := decSpecificInfo }

structure Mp4EsDescriptor extends Mp4BaseDescriptor where
  esId : BitVec 16
  streamDependenceFlag : BitVec 8
  urlFlag : BitVec 8
  ocrStreamFlag : BitVec 8
  streamPriority : BitVec 8
  dependsOnEsId : BitVec 16
  urlString : Bytes
  ocrEsId : BitVec 16
  decConfigDescr : Mp4DecoderConfigDescriptor
  slConfigDescr : Mp4SLConfigDescriptor
deriving Inhabited

def Mp4EsDescriptor.new (memory : Mp4EsDescriptor) : Mp4EsDescriptor :=
  { memory with
    tag := esDescrTag
    streamPriority := 0
    streamDependenceFlag := 0
    urlFlag := 0
    ocrStreamFlag := 0
    urlString := []
    decConfigDescr := .new memory.decConfigDescr
    slConfigDescr := .new memory.slConfigDescr }

def Mp4EsDescriptor.sized (d : Mp4EsDescriptor) : Mp4EsDescriptor :=
  { d with
    vlen := BitVec.ofInt 32 (3 + (if d.streamDependenceFlag ≠ 0 then 2 else 0) +
      (if d.urlFlag ≠ 0 then 1 + d.urlString.length else 0) +
      (if d.ocrStreamFlag ≠ 0 then 2 else 0) + (d.decConfigDescr.size + d.slConfigDescr.size))
    decConfigDescr := d.decConfigDescr.sized
    slConfigDescr := d.slConfigDescr.sized }

def Mp4EsDescriptor.size (d : Mp4EsDescriptor) : ℤ :=
  d.sized.toMp4BaseDescriptor.size + d.sized.vlen.toInt

def Mp4EsDescriptor.flagByte (d : Mp4EsDescriptor) : BitVec 8 :=
  d.streamPriority &&& 0x1f ||| (d.streamDependenceFlag &&& 1) <<< 7 ||| (d.urlFlag &&& 1) <<< 6 |||
    (d.ocrStreamFlag &&& 1) <<< 5

def Mp4EsDescriptor.encode (d : Mp4EsDescriptor) : Layout := seqs [
  d.toMp4BaseDescriptor.encode,
  write2 d.esId,
  write1 d.flagByte,
  writeIf (d.streamDependenceFlag ≠ 0) (write2 d.dependsOnEsId),
  writeIf (d.urlFlag ≠ 0 ∧ d.urlString ≠ [])
    (seqs [write1 (BitVec.ofNat 8 d.urlString.length), writeString d.urlString]),
  writeIf (d.ocrStreamFlag ≠ 0) (write2 d.ocrEsId),
  d.decConfigDescr.encode,
  d.slConfigDescr.encode]

def readUrl : Reader Bytes := do
  let urlLength ← read1
  readString urlLength.toNat

/-- The tag and the length of the descriptor are not read. -/
def Mp4EsDescriptor.decode (d : Mp4EsDescriptor) : Reader Mp4EsDescriptor := do
  let esId ← read2
  let v ← read1
  let streamDependenceFlag := v >>> 7 &&& 1
  let urlFlag := v >>> 6 &&& 1
  let ocrStreamFlag := v >>> 5 &&& 1
  let dependsOnEsId ← readIf (streamDependenceFlag ≠ 0) read2 d.dependsOnEsId
  let urlString ← readIf (urlFlag ≠ 0) readUrl d.urlString
  let ocrEsId ← readIf (ocrStreamFlag ≠ 0) read2 d.ocrEsId
  let decConfigDescr ← d.decConfigDescr.decode
  let slConfigDescr ← Mp4SLConfigDescriptor.decode
  return { d with
    esId := esId
    streamDependenceFlag := streamDependenceFlag
    urlFlag := urlFlag
    ocrStreamFlag := ocrStreamFlag
    streamPriority := v &&& 0x1f
    dependsOnEsId := dependsOnEsId
    urlString := urlString
    ocrEsId := ocrEsId
    decConfigDescr := decConfigDescr
    slConfigDescr := slConfigDescr }

structure EsdsBox extends FullBox where
  es : Mp4EsDescriptor
deriving Inhabited

def EsdsBox.new (memory : EsdsBox) : EsdsBox where
  toFullBox := .new memory.toBox (boxType 'e' 's' 'd' 's') 0 0
  es := .new memory.es

def EsdsBox.size (b : EsdsBox) : ℤ := b.toFullBox.size + b.es.size

def EsdsBox.encode (b : EsdsBox) : Layout := b.toFullBox.emit b.size [b.es.sized.encode]

def EsdsBox.decode (b : EsdsBox) : Reader EsdsBox := do
  let full ← b.toFullBox.decode
  let es ← b.es.decode
  return { full with es := es }

def EsdsBox.any (b : EsdsBox) : AnyBox := ⟨b.size, b.encode⟩

end Descriptor

section Size

theorem vlenBytes_length {len : ℕ} (h : 0 < len) : (vlenBytes len).length = vlenSize len := by
  induction len using Nat.strong_induction_on with
  | _ len ih =>
    rw [vlenBytes, if_neg (by omega), List.length_cons, vlenSize]
    by_cases hlt : len < 128
    · have hz : len / 128 = 0 := by omega
      rw [if_pos hlt, hz, vlenBytes, if_pos rfl, List.length_nil]
    · rw [if_neg hlt, ih (len / 128) (by omega) (by omega)]

theorem vlenSize_le (len : ℕ) : vlenSize len ≤ len / 128 + 1 := by
  induction len using Nat.strong_induction_on with
  | _ len ih =>
    rw [vlenSize]
    split
    · omega
    · have h := ih (len / 128) (by omega)
      omega

/-- A descriptor whose length has not run over and is not 0. -/
theorem Mp4BaseDescriptor.size_encode (d : Mp4BaseDescriptor) (h : 0 < d.vlen.toNat) :
    (d.encode.size : ℤ) = d.size := by
  simp only [Mp4BaseDescriptor.encode, Mp4BaseDescriptor.size, seqs_cons, seqs_nil, size_seq, size_write1,
    size_writeString, size_done, vlenBytes_length h]
  push_cast
  omega

theorem Mp4SLConfigDescriptor.size_encode (d : Mp4SLConfigDescriptor) :
    (d.sized.encode.size : ℤ) = d.size := by
  have hvlen : 0 < d.sized.vlen.toNat := Nat.zero_lt_one
  have hbase := d.sized.toMp4BaseDescriptor.size_encode hvlen
  simp only [Mp4SLConfigDescriptor.encode, Mp4SLConfigDescriptor.size, seqs_cons, seqs_nil, size_seq,
    size_write1, size_done]
  push_cast
  omega

theorem Mp4SLConfigDescriptor.size_eq (d : Mp4SLConfigDescriptor) : d.size = 3 := by
  have hone : vlenSize 1 = 1 := by rw [vlenSize, if_pos (by decide)]
  change 1 + (vlenSize 1 : ℤ) + 1 = 3
  rw [hone]
  rfl

/-- The descriptors are written as `size` counts them: the configuration is not
empty, an announced URL is there, and the lengths stay in an `int32_t`. -/
structure Mp4EsDescriptor.Proper (d : Mp4EsDescriptor) : Prop where
  asc : ∀ info, d.decConfigDescr.decSpecificInfo = some info → info.asc ≠ [] ∧ info.asc.length < 2 ^ 29
  url : d.urlFlag ≠ 0 → d.urlString ≠ [] ∧ d.urlString.length < 2 ^ 29

theorem Mp4DecoderSpecificInfo.size_encode (d : Mp4DecoderSpecificInfo) (hne : d.asc ≠ [])
    (hlt : d.asc.length < 2 ^ 29) :
    (d.sized.encode.size : ℤ) = d.size ∧ 0 < d.size ∧ d.size < 2 ^ 30 := by
  have hpos := List.length_pos_iff.mpr hne
  have hvlen : d.sized.vlen.toNat = d.asc.length := by
    change (BitVec.ofNat 32 d.asc.length).toNat = _
    rw [BitVec.toNat_ofNat, Nat.mod_eq_of_lt (by omega)]
  have hbase := d.sized.toMp4BaseDescriptor.size_encode (by omega)
  have hsize : d.sized.toMp4BaseDescriptor.size = 1 + vlenSize d.asc.length := by
    rw [Mp4BaseDescriptor.size, hvlen]
  have hle := vlenSize_le d.asc.length
  have hasc : d.sized.asc = d.asc := rfl
  simp only [Mp4DecoderSpecificInfo.encode, Mp4DecoderSpecificInfo.size, seqs_cons, seqs_nil, size_seq,
    size_writeString, size_done, hasc]
  push_cast
  omega

theorem toInt_ofInt {n : ℤ} (h0 : 0 ≤ n) (hlt : n < 2 ^ 31) :
    (BitVec.ofInt 32 n).toInt = n ∧ ((BitVec.ofInt 32 n).toNat : ℤ) = n := by
  constructor
  · rw [BitVec.toInt_ofInt]
    exact Int.bmod_eq_of_le (by omega) (by omega)
  · rw [BitVec.toNat_ofInt]
    omega

theorem Mp4DecoderConfigDescriptor.size_encode (d : Mp4DecoderConfigDescriptor)
    (hasc : ∀ info, d.decSpecificInfo = some info → info.asc ≠ [] ∧ info.asc.length < 2 ^ 29) :
    (d.sized.encode.size : ℤ) = d.size ∧ 0 < d.size ∧ d.size < 2 ^ 30 + 2 ^ 24 := by
  -- what is behind the fixed part
  have hinfo : ((d.sized.decSpecificInfo.elim done Mp4DecoderSpecificInfo.encode).size : ℤ) =
      d.decSpecificInfo.elim 0 Mp4DecoderSpecificInfo.size ∧
      0 ≤ d.decSpecificInfo.elim 0 Mp4DecoderSpecificInfo.size ∧
      d.decSpecificInfo.elim 0 Mp4DecoderSpecificInfo.size < 2 ^ 30 := by
    cases hi : d.decSpecificInfo with
    | none => simp [Mp4DecoderConfigDescriptor.sized, hi]
    | some info =>
      obtain ⟨hne, hlt⟩ := hasc info hi
      obtain ⟨hsize, hpos, hbound⟩ := info.size_encode hne hlt
      simp only [Mp4DecoderConfigDescriptor.sized, hi, Option.map_some, Option.elim_some]
      omega
  obtain ⟨hsize, hnn, hbound⟩ := hinfo
  obtain ⟨hint, hnat⟩ := toInt_ofInt (n := 13 + d.decSpecificInfo.elim 0 Mp4DecoderSpecificInfo.size)
    (by omega) (by omega)
  have hvlen : d.sized.vlen =
      BitVec.ofInt 32 (13 + d.decSpecificInfo.elim 0 Mp4DecoderSpecificInfo.size) := rfl
  rw [← hvlen] at hint hnat
  have hbase := d.sized.toMp4BaseDescriptor.size_encode (by omega)
  have hle := vlenSize_le d.sized.vlen.toNat
  have hb : d.sized.toMp4BaseDescriptor.size = 1 + vlenSize d.sized.vlen.toNat := rfl
  simp only [Mp4DecoderConfigDescriptor.encode, Mp4DecoderConfigDescriptor.size, seqs_cons, seqs_nil,
    size_seq, size_write1, size_write3, size_write4, size_done]
  push_cast
  omega

theorem Mp4EsDescriptor.size_encode (d : Mp4EsDescriptor) (h : d.Proper) :
    (d.sized.encode.size : ℤ) = d.size ∧ 0 < d.size := by
  obtain ⟨hdec, hdpos, hdlt⟩ := d.decConfigDescr.size_encode h.asc
  have hsl := d.slConfigDescr.size_encode
  have hsl3 := d.slConfigDescr.size_eq
  -- the URL is counted with its length byte
  have hurl : (writeIf (d.urlFlag ≠ 0 ∧ d.urlString ≠ [])
      (seqs [write1 (BitVec.ofNat 8 d.urlString.length), writeString d.urlString])).size =
      (if d.urlFlag ≠ 0 then 1 + d.urlString.length else 0) ∧
      (if d.urlFlag ≠ 0 then 1 + d.urlString.length else 0) ≤ 2 ^ 29 := by
    by_cases hu : d.urlFlag ≠ 0
    · obtain ⟨hne, hlt⟩ := h.url hu
      simp only [size_writeIf, if_pos hu, if_pos (And.intro hu hne), seqs_cons, seqs_nil, size_seq,
        size_write1, size_writeString, size_done]
      omega
    · have h0 : d.urlFlag = 0 := not_not.mp hu
      simp [h0]
  obtain ⟨hurl, hurllt⟩ := hurl
  have hvlen : d.sized.vlen = BitVec.ofInt 32 (3 + (if d.streamDependenceFlag ≠ 0 then 2 else 0) +
      (if d.urlFlag ≠ 0 then 1 + d.urlString.length else 0) +
      (if d.ocrStreamFlag ≠ 0 then 2 else 0) + (d.decConfigDescr.size + d.slConfigDescr.size)) := rfl
  obtain ⟨hint, hnat⟩ := toInt_ofInt (n := 3 + (if d.streamDependenceFlag ≠ 0 then 2 else 0) +
      (if d.urlFlag ≠ 0 then 1 + d.urlString.length else 0) +
      (if d.ocrStreamFlag ≠ 0 then 2 else 0) + (d.decConfigDescr.size + d.slConfigDescr.size))
    (by omega) (by omega)
  rw [← hvlen] at hint hnat
  have hbase := d.sized.toMp4BaseDescriptor.size_encode (by omega)
  have hb : d.sized.toMp4BaseDescriptor.size = 1 + vlenSize d.sized.vlen.toNat := rfl
  have hencode : d.sized.encode = seqs [
      d.sized.toMp4BaseDescriptor.encode,
      write2 d.esId,
      write1 d.flagByte,
      writeIf (d.streamDependenceFlag ≠ 0) (write2 d.dependsOnEsId),
      writeIf (d.urlFlag ≠ 0 ∧ d.urlString ≠ [])
        (seqs [write1 (BitVec.ofNat 8 d.urlString.length), writeString d.urlString]),
      writeIf (d.ocrStreamFlag ≠ 0) (write2 d.ocrEsId),
      d.decConfigDescr.sized.encode,
      d.slConfigDescr.sized.encode] := rfl
  rw [hencode, Mp4EsDescriptor.size]
  simp only [seqs_cons, seqs_nil, size_seq, size_write2, size_write1, size_done] at hurl ⊢
  rw [hurl, size_writeIf _ (write2 d.dependsOnEsId), size_writeIf _ (write2 d.ocrEsId), size_write2,
    size_write2]
  simp only [Nat.cast_add, Nat.cast_ite (d.streamDependenceFlag ≠ 0),
    Nat.cast_ite (d.ocrStreamFlag ≠ 0), Nat.cast_ofNat, Nat.cast_zero]
  omega

theorem Mp4EsDescriptor.announces_encode (d : Mp4EsDescriptor) : d.encode.Announces 4 := by
  have hbase : ∀ b : Mp4BaseDescriptor, b.encode.Announces 4 := fun b ↦ by
    simp [Mp4BaseDescriptor.encode]
  have hinfo : (d.decConfigDescr.decSpecificInfo.elim done Mp4DecoderSpecificInfo.encode).Announces 4 := by
    cases d.decConfigDescr.decSpecificInfo with
    | none => exact trivial
    | some info => simp [Mp4DecoderSpecificInfo.encode, hbase]
  simp [Mp4EsDescriptor.encode, Mp4DecoderConfigDescriptor.encode, Mp4SLConfigDescriptor.encode, hbase,
    hinfo]

theorem EsdsBox.sound (b : EsdsBox) (h : b.Fresh) (hes : b.es.Proper) : b.any.Sound := by
  obtain ⟨hsize, -⟩ := b.es.size_encode hes
  apply FullBox.leaf_sound h
  · rw [EsdsBox.size, seqs_cons, seqs_nil, size_seq, size_done, Nat.add_zero, hsize]
  · exact ⟨b.es.sized.announces_encode, trivial⟩

end Size

end MmsServer.Mp4.Esds
