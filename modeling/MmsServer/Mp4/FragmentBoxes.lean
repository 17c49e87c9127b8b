import MmsServer.Mp4.MovieBoxes

namespace MmsServer.Mp4.FragmentBoxes

open Lib.ByteReader Lib.ByteLayout Lib.ByteLayout.Layout Mp4.Base MovieBoxes

section Index

structure SegmentIndexEntry where
  referenceType : BitVec 8
  referencedSize : BitVec 32
  subsegmentDuration : BitVec 32
  startsWithSap : BitVec 8
  sapType : BitVec 8
  sapDeltaTime : BitVec 32
deriving DecidableEq

def SegmentIndexEntry.reference (e : SegmentIndexEntry) : BitVec 32 :=
  (e.referenceType &&& 1).setWidth 32 <<< 31 ||| e.referencedSize &&& 0x7fffffff

def SegmentIndexEntry.accessPoint (e : SegmentIndexEntry) : BitVec 32 :=
  (e.startsWithSap &&& 1).setWidth 32 <<< 31 ||| (e.sapType &&& 7).setWidth 32 <<< 28 |||
    e.sapDeltaTime &&& 0xfffffff

def SegmentIndexEntry.encode (e : SegmentIndexEntry) : Layout := seqs [
  write4 e.reference,
  write4 e.subsegmentDuration,
  write4 e.accessPoint]

def SegmentIndexEntry.ofWords (v duration w : BitVec 32) : SegmentIndexEntry where
  referenceType := ((v &&& 0x80000000) >>> 31).setWidth 8
  referencedSize := v &&& 0x7fffffff
  subsegmentDuration := duration
  startsWithSap := ((w &&& 0x80000000) >>> 31).setWidth 8
  sapType := ((w &&& 0x70000000) >>> 28).setWidth 8
  sapDeltaTime := w &&& 0xfffffff

def SegmentIndexEntry.decode : Reader SegmentIndexEntry := do
  let v ← read4
  let subsegmentDuration ← read4
  let w ← read4
  return .ofWords v subsegmentDuration w

structure SidxBox extends FullBox where
  referenceId : BitVec 32
  timescale : BitVec 32
  earliestPresentationTime : BitVec 64
  firstOffset : BitVec 64
  entries : List SegmentIndexEntry

def SidxBox.new (memory : Box) : SidxBox where
  toFullBox := .new memory (boxType 's' 'i' 'd' 'x') 0 0
  referenceId := 0
  timescale := 0
  earliestPresentationTime := 0
  firstOffset := 0
  entries := []

def SidxBox.size (b : SidxBox) : ℤ :=
  b.toFullBox.size + (8 + (if b.version = 1 then 16 else 8) + 4 + b.entries.length * 12)

def SidxBox.encode (b : SidxBox) : Layout := b.toFullBox.emit b.size [
  write4 b.referenceId,
  write4 b.timescale,
  writeTime b.version b.earliestPresentationTime,
  writeTime b.version b.firstOffset,
  write4 (BitVec.ofNat 32 b.entries.length),
  each SegmentIndexEntry.encode b.entries]

/-- The entries are read, but not kept. -/
def SidxBox.decode (b : SidxBox) : Reader SidxBox := do
  let full ← b.toFullBox.decode
  let referenceId ← read4
  let timescale ← read4
  let earliestPresentationTime ← readTime full.version
  let firstOffset ← readTime full.version
  let entryCount ← read4
  let _ ← readMany SegmentIndexEntry.decode entryCount.toNat
  return { full with
    referenceId := referenceId
    timescale := timescale
    earliestPresentationTime := earliestPresentationTime
    firstOffset := firstOffset
    entries := b.entries }

def SidxBox.any (b : SidxBox) : AnyBox := ⟨b.size, b.encode⟩

theorem SegmentIndexEntry.size_encode (e : SegmentIndexEntry) : e.encode.size = 12 := by
  simp [SegmentIndexEntry.encode]

theorem SegmentIndexEntry.announces_encode (e : SegmentIndexEntry) : e.encode.Announces 4 := by
  simp [SegmentIndexEntry.encode]

theorem SegmentIndexEntry.reads (e : SegmentIndexEntry) :
    Reads SegmentIndexEntry.decode e.encode (.ofWords e.reference e.subsegmentDuration e.accessPoint) :=
  (reads4 _).bind ((reads4 _).bind ((reads4 _).bind (.pure _)))

theorem SidxBox.sound (b : SidxBox) (h : b.Fresh) : b.any.Sound := by
  apply FullBox.leaf_sound h
  · simp only [SidxBox.size, seqs_cons, seqs_nil, size_seq, size_write4, size_writeTime,
      size_each_const SegmentIndexEntry.size_encode, size_done]
    split <;> omega
  · simp [announces_writeTime, SegmentIndexEntry.announces_encode]

end Index

section Fragment

structure MfhdBox extends FullBox where
  sequenceNumber : BitVec 32
deriving Inhabited

def MfhdBox.new (memory : MfhdBox) : MfhdBox :=
  { memory with toFullBox := .new memory.toBox (boxType 'm' 'f' 'h' 'd') 0 0 }

def MfhdBox.size (b : MfhdBox) : ℤ := b.toFullBox.size + 4

def MfhdBox.encode (b : MfhdBox) : Layout := b.toFullBox.emit b.size [write4 b.sequenceNumber]

def MfhdBox.any (b : MfhdBox) : AnyBox := ⟨b.size, b.encode⟩

theorem MfhdBox.sound (b : MfhdBox) (h : b.Fresh) : b.any.Sound := by
  apply FullBox.leaf_sound h
  · simp [MfhdBox.size]
  · simp

abbrev HasFlag (flags flag : BitVec 32) : Prop := flags &&& flag = flag

def tfhdBaseDataOffset : BitVec 32 := 0x000001

def tfhdSampleDescriptionIndex : BitVec 32 := 0x000002

def tfhdDefaultSampleDuration : BitVec 32 := 0x000008

def tfhdDefaultSampleSize : BitVec 32 := 0x000010

def tfhdDefaultSampleFlags : BitVec 32 := 0x000020

def tfhdDefaultBaseIsMoof : BitVec 32 := 0x020000

structure TfhdBox extends FullBox where
  trackId : BitVec 32
  baseDataOffset : BitVec 64
  sampleDescriptionIndex : BitVec 32
  defaultSampleDuration : BitVec 32
  defaultSampleSize : BitVec 32
  defaultSampleFlags : BitVec 32
deriving Inhabited

def TfhdBox.new (memory : TfhdBox) (flags : BitVec 32) : TfhdBox :=
  { memory with toFullBox := .new memory.toBox (boxType 't' 'f' 'h' 'd') 0 flags }

def TfhdBox.size (b : TfhdBox) : ℤ :=
  b.toFullBox.size + 4 + (if HasFlag b.flags tfhdBaseDataOffset then 8 else 0) +
    (if HasFlag b.flags tfhdSampleDescriptionIndex then 4 else 0) +
    (if HasFlag b.flags tfhdDefaultSampleDuration then 4 else 0) +
    (if HasFlag b.flags tfhdDefaultSampleSize then 4 else 0) +
    (if HasFlag b.flags tfhdDefaultSampleFlags then 4 else 0)

def TfhdBox.encode (b : TfhdBox) : Layout := b.toFullBox.emit b.size [
  write4 b.trackId,
  writeIf (HasFlag b.flags tfhdBaseDataOffset) (write8 b.baseDataOffset),
  writeIf (HasFlag b.flags tfhdSampleDescriptionIndex) (write4 b.sampleDescriptionIndex),
  writeIf (HasFlag b.flags tfhdDefaultSampleDuration) (write4 b.defaultSampleDuration),
  writeIf (HasFlag b.flags tfhdDefaultSampleSize) (write4 b.defaultSampleSize),
  writeIf (HasFlag b.flags tfhdDefaultSampleFlags) (write4 b.defaultSampleFlags)]

def TfhdBox.decode (b : TfhdBox) : Reader TfhdBox := do
  let full ← b.toFullBox.decode
  let trackId ← read4
  let baseDataOffset ← readIf (HasFlag full.flags tfhdBaseDataOffset) read8 b.baseDataOffset
  let sampleDescriptionIndex ←
    readIf (HasFlag full.flags tfhdSampleDescriptionIndex) read4 b.sampleDescriptionIndex
  let defaultSampleDuration ←
    readIf (HasFlag full.flags tfhdDefaultSampleDuration) read4 b.defaultSampleDuration
  let defaultSampleSize ← readIf (HasFlag full.flags tfhdDefaultSampleSize) read4 b.defaultSampleSize
  let defaultSampleFlags ←
    readIf (HasFlag full.flags tfhdDefaultSampleFlags) read4 b.defaultSampleFlags
  return { full with
    trackId := trackId
    baseDataOffset := baseDataOffset
    sampleDescriptionIndex := sampleDescriptionIndex
    defaultSampleDuration := defaultSampleDuration
    defaultSampleSize := defaultSampleSize
    defaultSampleFlags := defaultSampleFlags }

def TfhdBox.any (b : TfhdBox) : AnyBox := ⟨b.size, b.encode⟩

theorem TfhdBox.sound (b : TfhdBox) (h : b.Fresh) : b.any.Sound := by
  apply FullBox.leaf_sound h
  · simp only [TfhdBox.size, seqs_cons, seqs_nil, size_seq, size_write8, size_write4, size_writeIf,
      size_done]
    push_cast
    omega
  · simp

structure TfdtBox extends FullBox where
  baseMediaDecodeTime : BitVec 64
deriving Inhabited

def TfdtBox.new (memory : TfdtBox) : TfdtBox :=
  { memory with toFullBox := .new memory.toBox (boxType 't' 'f' 'd' 't') 0 0 }

def TfdtBox.size (b : TfdtBox) : ℤ := b.toFullBox.size + (if b.version ≠ 0 then 8 else 4)

def TfdtBox.encode (b : TfdtBox) : Layout := b.toFullBox.emit b.size [
  if b.version ≠ 0 then write8 b.baseMediaDecodeTime
  else write4 (b.baseMediaDecodeTime.setWidth 32)]

def TfdtBox.readTime (version : BitVec 8) : Reader (BitVec 64) :=
  if version ≠ 0 then read8 else return (← read4).setWidth 64

def TfdtBox.decode (b : TfdtBox) : Reader TfdtBox := do
  let full ← b.toFullBox.decode
  let baseMediaDecodeTime ← TfdtBox.readTime full.version
  return { full with baseMediaDecodeTime := baseMediaDecodeTime }

def TfdtBox.any (b : TfdtBox) : AnyBox := ⟨b.size, b.encode⟩

theorem TfdtBox.sound (b : TfdtBox) (h : b.Fresh) : b.any.Sound := by
  apply FullBox.leaf_sound h
  · rw [TfdtBox.size, seqs_cons, seqs_nil, size_seq]
    split <;> simp
  · rw [seqs_cons, announces_seq]
    split <;> simp

end Fragment

section Run

def trunDataOffset : BitVec 32 := 0x000001

def trunFirstSample : BitVec 32 := 0x000004

def trunSampleDuration : BitVec 32 := 0x000100

def trunSampleSize : BitVec 32 := 0x000200

def trunSampleFlag : BitVec 32 := 0x000400

def trunSampleCtsOffset : BitVec 32 := 0x000800

/-- An entry reads the version and the flags of the box it belongs to. -/
structure TrunEntry where
  sampleDuration : BitVec 32
  sampleSize : BitVec 32
  sampleFlags : BitVec 32
  sampleCompositionTimeOffset : BitVec 64
deriving DecidableEq

def TrunEntry.size (flags : BitVec 32) : ℤ :=
  (if HasFlag flags trunSampleDuration then 4 else 0) + (if HasFlag flags trunSampleSize then 4 else 0) +
    (if HasFlag flags trunSampleFlag then 4 else 0) +
    (if HasFlag flags trunSampleCtsOffset then 4 else 0)

def TrunEntry.encode (flags : BitVec 32) (e : TrunEntry) : Layout := seqs [
  writeIf (HasFlag flags trunSampleDuration) (write4 e.sampleDuration),
  writeIf (HasFlag flags trunSampleSize) (write4 e.sampleSize),
  writeIf (HasFlag flags trunSampleFlag) (write4 e.sampleFlags),
  writeIf (HasFlag flags trunSampleCtsOffset) (write4 (e.sampleCompositionTimeOffset.setWidth 32))]

/-- The offset is unsigned in version 0 and signed in the others. -/
def TrunEntry.readOffset (version : BitVec 8) : Reader (BitVec 64) :=
  if version = 0 then return (← read4).setWidth 64 else return (← read4).signExtend 64

def TrunEntry.decode (version : BitVec 8) (flags : BitVec 32) (e : TrunEntry) : Reader TrunEntry := do
  let sampleDuration ← readIf (HasFlag flags trunSampleDuration) read4 e.sampleDuration
  let sampleSize ← readIf (HasFlag flags trunSampleSize) read4 e.sampleSize
  let sampleFlags ← readIf (HasFlag flags trunSampleFlag) read4 e.sampleFlags
  let sampleCompositionTimeOffset ← readIf (HasFlag flags trunSampleCtsOffset)
    (TrunEntry.readOffset version) e.sampleCompositionTimeOffset
  return ⟨sampleDuration, sampleSize, sampleFlags, sampleCompositionTimeOffset⟩

structure TrunBox extends FullBox where
  entries : List TrunEntry
  dataOffset : BitVec 32
  firstSampleFlags : BitVec 32
deriving Inhabited

def TrunBox.new (memory : TrunBox) (flags : BitVec 32) : TrunBox :=
  { memory with toFullBox := .new memory.toBox (boxType 't' 'r' 'u' 'n') 0 flags, entries := [] }

def TrunBox.size (b : TrunBox) : ℤ :=
  b.toFullBox.size + 4 + (if HasFlag b.flags trunDataOffset then 4 else 0) +
    (if HasFlag b.flags trunFirstSample then 4 else 0) +
    (b.entries.map fun _ ↦ TrunEntry.size b.flags).sum

def TrunBox.encode (b : TrunBox) : Layout := b.toFullBox.emit b.size [
  write4 (BitVec.ofNat 32 b.entries.length),
  writeIf (HasFlag b.flags trunDataOffset) (write4 b.dataOffset),
  writeIf (HasFlag b.flags trunFirstSample) (write4 b.firstSampleFlags),
  each (TrunEntry.encode b.flags) b.entries]

/-- The number of entries is compared as an `int`; `memory` is what the entries
hold before they are read. -/
def TrunBox.decode (b : TrunBox) (memory : TrunEntry) : Reader TrunBox := do
  let full ← b.toFullBox.decode
  let entryCount ← read4
  let dataOffset ← readIf (HasFlag full.flags trunDataOffset) read4 b.dataOffset
  let firstSampleFlags ← readIf (HasFlag full.flags trunFirstSample) read4 b.firstSampleFlags
  let entries ← readMany (TrunEntry.decode full.version full.flags memory) entryCount.toInt.toNat
  return { full with
    entries := b.entries ++ entries
    dataOffset := dataOffset
    firstSampleFlags := firstSampleFlags }

def TrunBox.any (b : TrunBox) : AnyBox := ⟨b.size, b.encode⟩

theorem TrunEntry.size_encode (flags : BitVec 32) (e : TrunEntry) :
    ((e.encode flags).size : ℤ) = TrunEntry.size flags := by
  simp only [TrunEntry.encode, TrunEntry.size, seqs_cons, seqs_nil, size_seq, size_writeIf, size_write4,
    size_done]
  push_cast
  omega

theorem TrunEntry.announces_encode (flags : BitVec 32) (e : TrunEntry) :
    (e.encode flags).Announces 4 := by
  simp [TrunEntry.encode]

theorem TrunEntry.size_each (flags : BitVec 32) (es : List TrunEntry) :
    ((each (TrunEntry.encode flags) es).size : ℤ) = (es.map fun _ ↦ TrunEntry.size flags).sum := by
  induction es with
  | nil => rfl
  | cons e es ih =>
    rw [List.map_cons, List.sum_cons, ← ih, ← TrunEntry.size_encode flags e]
    exact Int.natCast_add ..

theorem TrunBox.sound (b : TrunBox) (h : b.Fresh) : b.any.Sound := by
  apply FullBox.leaf_sound h
  · simp only [TrunBox.size, seqs_cons, seqs_nil, size_seq, size_write4, size_writeIf, size_done,
      ← TrunEntry.size_each]
    push_cast
    omega
  · simp [TrunEntry.announces_encode]

def TrunEntry.readInto (version : BitVec 8) (flags : BitVec 32) (memory e : TrunEntry) : TrunEntry where
  sampleDuration := if HasFlag flags trunSampleDuration then e.sampleDuration else memory.sampleDuration
  sampleSize := if HasFlag flags trunSampleSize then e.sampleSize else memory.sampleSize
  sampleFlags := if HasFlag flags trunSampleFlag then e.sampleFlags else memory.sampleFlags
  sampleCompositionTimeOffset :=
    if HasFlag flags trunSampleCtsOffset then
      if version = 0 then (e.sampleCompositionTimeOffset.setWidth 32).setWidth 64
      else (e.sampleCompositionTimeOffset.setWidth 32).signExtend 64
    else memory.sampleCompositionTimeOffset

theorem TrunEntry.readsOffset (version : BitVec 8) (v : BitVec 32) :
    Reads (TrunEntry.readOffset version) (write4 v)
      (if version = 0 then v.setWidth 64 else v.signExtend 64) := by
  unfold TrunEntry.readOffset
  split
  · exact (reads4 v).map fun w ↦ w.setWidth 64
  · exact (reads4 v).map fun w ↦ w.signExtend 64

theorem TrunEntry.reads (version : BitVec 8) (flags : BitVec 32) (memory e : TrunEntry) :
    Reads (memory.decode version flags) (e.encode flags) (memory.readInto version flags e) :=
  (Reads.readIf (fun _ ↦ reads4 _) _).bind ((Reads.readIf (fun _ ↦ reads4 _) _).bind
    ((Reads.readIf (fun _ ↦ reads4 _) _).bind
      ((Reads.readIf (fun _ ↦ TrunEntry.readsOffset version _) _).bind (.pure _))))

def TrunBox.readInto (memory : TrunBox) (e : TrunEntry) (b : TrunBox) : TrunBox where
  toFullBox := memory.toFullBox.readInto (b.toFullBox.updateSize b.size)
  entries := memory.entries ++ b.entries.map (e.readInto b.version b.flags)
  dataOffset := if HasFlag b.flags trunDataOffset then b.dataOffset else memory.dataOffset
  firstSampleFlags := if HasFlag b.flags trunFirstSample then b.firstSampleFlags else memory.firstSampleFlags

theorem toInt_count {n : ℕ} (h : n < 2 ^ 31) : (BitVec.ofNat 32 n).toInt.toNat = n := by
  have hn : (BitVec.ofNat 32 n).toNat = n := by
    rw [BitVec.toNat_ofNat, Nat.mod_eq_of_lt (by omega)]
  rw [BitVec.toInt_eq_toNat_of_lt (by omega), hn, Int.toNat_natCast]

theorem TrunBox.reads (memory : TrunBox) (e : TrunEntry) {b : TrunBox} (hflags : b.flags.toNat < 2 ^ 24)
    (hcount : b.entries.length < 2 ^ 31) :
    Reads (memory.decode e) b.encode (memory.readInto e b) := by
  have hmany := Reads.each b.entries (TrunEntry.reads b.version b.flags e)
  rw [← toInt_count hcount] at hmany
  have hfull : Reads memory.toFullBox.decode (b.toFullBox.updateSize b.size).encode
      (memory.toFullBox.readInto (b.toFullBox.updateSize b.size)) :=
    FullBox.reads memory.toFullBox (b.toBox.updateSize_lt _) hflags
  exact hfull.bind ((reads4 _).bind ((Reads.readIf (fun _ ↦ reads4 _) _).bind
    ((Reads.readIf (fun _ ↦ reads4 _) _).bind (hmany.bind (.pure _)))))

structure TrafBox extends Box where
  tfhd : Option TfhdBox
  tfdt : Option TfdtBox
  trun : Option TrunBox

def TrafBox.boxes (b : TrafBox) : List AnyBox :=
  (b.tfhd.map TfhdBox.any).toList ++ (b.tfdt.map TfdtBox.any).toList ++ (b.trun.map TrunBox.any).toList

def TrafBox.any (b : TrafBox) : AnyBox := container b.toBox b.boxes

structure MoofBox extends Box where
  mfhd : Option MfhdBox
  traf : Option TrafBox

def MoofBox.boxes (b : MoofBox) : List AnyBox :=
  (b.mfhd.map MfhdBox.any).toList ++ (b.traf.map TrafBox.any).toList

def MoofBox.any (b : MoofBox) : AnyBox := container b.toBox b.boxes

structure MdatBox extends Box where
  datas : List Bytes

def MdatBox.size (b : MdatBox) : ℤ := b.toBox.size + (b.datas.map fun data ↦ (data.length : ℤ)).sum

def MdatBox.encode (b : MdatBox) : Layout := b.toBox.emit b.size [
  each (fun data ↦ writeIf (data.isEmpty = false) (writeString data)) b.datas]

def MdatBox.any (b : MdatBox) : AnyBox := ⟨b.size, b.encode⟩

theorem size_datas (datas : List Bytes) :
    ((each (fun data ↦ writeIf (data.isEmpty = false) (writeString data)) datas).size : ℤ) =
      (datas.map fun data ↦ (data.length : ℤ)).sum := by
  induction datas with
  | nil => rfl
  | cons data datas ih =>
    have hdata : (writeIf (data.isEmpty = false) (writeString data)).size = data.length := by
      cases data <;> simp
    rw [List.map_cons, List.sum_cons, ← ih, ← hdata]
    exact Int.natCast_add ..

theorem MdatBox.sound (b : MdatBox) (h : b.Fresh) : b.any.Sound := by
  apply Box.leaf_sound h
  · rw [MdatBox.size, seqs_cons, seqs_nil, size_seq, size_done, Nat.add_zero, size_datas]
  · simp

end Run

end MmsServer.Mp4.FragmentBoxes
