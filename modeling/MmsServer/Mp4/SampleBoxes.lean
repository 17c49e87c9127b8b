import MmsServer.Mp4.Esds
import MmsServer.Mp4.MovieBoxes

namespace MmsServer.Mp4.SampleBoxes

open Lib.ByteReader Lib.ByteLayout Lib.ByteLayout.Layout Mp4.Base MovieBoxes Esds

section Table

structure SttsEntry where
  sampleCount : BitVec 32
  sampleDelta : BitVec 32

def SttsEntry.encode (e : SttsEntry) : Layout := seqs [write4 e.sampleCount, write4 e.sampleDelta]

structure StscEntry where
  firstChunk : BitVec 32
  samplesPerChunk : BitVec 32
  sampleDescriptionIndex : BitVec 32

def StscEntry.encode (e : StscEntry) : Layout := seqs [
  write4 e.firstChunk,
  write4 e.samplesPerChunk,
  write4 e.sampleDescriptionIndex]

/-- A full box that is a table: the number of its entries, which are of `width`
bytes, and the entries. -/
def table {α : Type} (width : ℕ) (encode : α → Layout) (b : FullBox) (entries : List α) : AnyBox where
  size := b.size + 4 + entries.length * width
  encode := b.emit (b.size + 4 + entries.length * width)
    [write4 (BitVec.ofNat 32 entries.length), each encode entries]

theorem table_sound {α : Type} {width : ℕ} {encode : α → Layout} {b : FullBox} {entries : List α}
    (h : b.Fresh) (hsize : ∀ e, (encode e).size = width) (hann : ∀ e, (encode e).Announces 4) :
    (table width encode b entries).Sound := by
  apply FullBox.leaf_sound h
  · simp only [seqs_cons, seqs_nil, size_seq, size_write4, size_each_const hsize, size_done]
    push_cast
    omega
  · simp [hann]

structure SttsBox extends FullBox where
  entries : List SttsEntry

def SttsBox.new (memory : Box) : SttsBox := ⟨.new memory (boxType 's' 't' 't' 's') 0 0, []⟩

def SttsBox.any (b : SttsBox) : AnyBox := table 8 SttsEntry.encode b.toFullBox b.entries

structure StscBox extends FullBox where
  entries : List StscEntry

def StscBox.new (memory : Box) : StscBox := ⟨.new memory (boxType 's' 't' 's' 'c') 0 0, []⟩

def StscBox.any (b : StscBox) : AnyBox := table 12 StscEntry.encode b.toFullBox b.entries

structure StcoBox extends FullBox where
  entries : List (BitVec 32)

def StcoBox.new (memory : Box) : StcoBox := ⟨.new memory (boxType 's' 't' 'c' 'o') 0 0, []⟩

def StcoBox.any (b : StcoBox) : AnyBox := table 4 write4 b.toFullBox b.entries

theorem SttsBox.sound (b : SttsBox) (h : b.Fresh) : b.any.Sound :=
  table_sound h (fun e ↦ by simp [SttsEntry.encode]) fun e ↦ by simp [SttsEntry.encode]

theorem StscBox.sound (b : StscBox) (h : b.Fresh) : b.any.Sound :=
  table_sound h (fun e ↦ by simp [StscEntry.encode]) fun e ↦ by simp [StscEntry.encode]

theorem StcoBox.sound (b : StcoBox) (h : b.Fresh) : b.any.Sound :=
  table_sound h size_write4 announces_write4

structure StszBox extends FullBox where
  sampleSize : BitVec 32
  entrySizes : List (BitVec 32)

def StszBox.new (memory : Box) : StszBox := ⟨.new memory (boxType 's' 't' 's' 'z') 0 0, 0, []⟩

def StszBox.size (b : StszBox) : ℤ :=
  b.toFullBox.size + (4 + 4) + (if b.sampleSize = 0 then 4 * b.entrySizes.length else 0)

def StszBox.encode (b : StszBox) : Layout := b.toFullBox.emit b.size [
  write4 b.sampleSize,
  write4 (BitVec.ofNat 32 b.entrySizes.length),
  writeIf (b.sampleSize = 0) (each write4 b.entrySizes)]

/-- The table is read whether there is one or not. -/
def StszBox.decode (b : StszBox) : Reader StszBox := do
  let full ← b.toFullBox.decode
  let sampleSize ← read4
  let entryCount ← read4
  let entrySizes ← readMany read4 entryCount.toNat
  return { full with sampleSize := sampleSize, entrySizes := b.entrySizes ++ entrySizes }

def StszBox.any (b : StszBox) : AnyBox := ⟨b.size, b.encode⟩

theorem StszBox.sound (b : StszBox) (h : b.Fresh) : b.any.Sound := by
  apply FullBox.leaf_sound h
  · simp only [StszBox.size, seqs_cons, seqs_nil, size_seq, size_write4, size_writeIf, size_each4,
      size_done]
    split <;> push_cast <;> omega
  · simp

end Table

section Entry

structure AvccBox extends Box where
  avcConfig : Bytes

def AvccBox.new (memory : Box) : AvccBox := ⟨.new memory (boxType 'a' 'v' 'c' 'C'), []⟩

def AvccBox.size (b : AvccBox) : ℤ := b.toBox.size + b.avcConfig.length

def AvccBox.encode (b : AvccBox) : Layout := b.toBox.emit b.size [writeString b.avcConfig]

def AvccBox.any (b : AvccBox) : AnyBox := ⟨b.size, b.encode⟩

theorem AvccBox.sound (b : AvccBox) (h : b.Fresh) : b.any.Sound := by
  apply Box.leaf_sound h
  · simp [AvccBox.size]
  · simp

structure SampleEntry extends Box where
  dataReferenceIndex : BitVec 16
deriving Inhabited

def SampleEntry.size (b : SampleEntry) : ℤ := b.toBox.size + 8

/-- `SampleEntry::encode` in an entry whose virtual `size` is `total`, with what
the entry writes behind it. -/
def SampleEntry.emit (b : SampleEntry) (total : ℤ) (body : List Layout) : Layout :=
  b.toBox.emit total (.skip 6 :: write2 b.dataReferenceIndex :: body)

structure VisualSampleEntry extends SampleEntry where
  preDefined1 : BitVec 16
  reserved1 : BitVec 16
  preDefined2 : Vector (BitVec 32) 3
  width : BitVec 16
  height : BitVec 16
  horizresolution : BitVec 32
  vertresolution : BitVec 32
  reserved2 : BitVec 32
  frameCount : BitVec 16
  compressorname : Vector (BitVec 8) 32
  depth : BitVec 16
  preDefined3 : BitVec 16
  avcc : Option AnyBox
  hvcc : Option AnyBox
deriving Inhabited

def VisualSampleEntry.new (memory : VisualSampleEntry) (type : BitVec 32) : VisualSampleEntry :=
  { memory with
    toBox := .new memory.toBox type
    preDefined1 := 0
    reserved1 := 0
    preDefined2 := Vector.replicate 3 0
    horizresolution := 0x00480000
    vertresolution := 0x00480000
    reserved2 := 0
    frameCount := 1
    depth := 0x0018
    preDefined3 := -1
    avcc := none
    hvcc := none }

/-- One configuration is counted. -/
def VisualSampleEntry.size (b : VisualSampleEntry) : ℤ :=
  b.toSampleEntry.size + 2 + 2 + 3 * 4 + 2 + 2 + 4 + 4 + 4 + 2 + 32 + 2 + 2 +
    (b.avcc.orElse fun _ ↦ b.hvcc).elim 0 AnyBox.size

/-- `update_size` is called here and once more in `SampleEntry::encode`. -/
def VisualSampleEntry.encode (b : VisualSampleEntry) : Layout :=
  let b := { b with toBox := b.toBox.updateSize b.size }
  b.toSampleEntry.emit b.size [
    write2 b.preDefined1,
    write2 b.reserved1,
    each write4 b.preDefined2.toList,
    write2 b.width,
    write2 b.height,
    write4 b.horizresolution,
    write4 b.vertresolution,
    write4 b.reserved2,
    write2 b.frameCount,
    each write1 b.compressorname.toList,
    write2 b.depth,
    write2 b.preDefined3,
    b.avcc.elim done AnyBox.encode,
    b.hvcc.elim done AnyBox.encode]

def VisualSampleEntry.any (b : VisualSampleEntry) : AnyBox := ⟨b.size, b.encode⟩

structure AudioSampleEntry extends SampleEntry where
  channelCount : BitVec 16
  sampleSize : BitVec 16
  preDefined : BitVec 16
  sampleRate : BitVec 32
  esds : Option EsdsBox

def AudioSampleEntry.new (memory : SampleEntry) (type : BitVec 32) : AudioSampleEntry where
  toSampleEntry := { memory with toBox := .new memory.toBox type }
  channelCount := 2
  sampleSize := 16
  preDefined := 0
  sampleRate := 0
  esds := none

def AudioSampleEntry.size (b : AudioSampleEntry) : ℤ :=
  b.toSampleEntry.size + 20 + b.esds.elim 0 EsdsBox.size

def AudioSampleEntry.encode (b : AudioSampleEntry) : Layout := b.toSampleEntry.emit b.size [
  .skip 8,
  write2 b.channelCount,
  write2 b.sampleSize,
  write2 b.preDefined,
  .skip 2,
  write4 b.sampleRate,
  b.esds.elim done EsdsBox.encode]

def AudioSampleEntry.any (b : AudioSampleEntry) : AnyBox := ⟨b.size, b.encode⟩

structure StsdBox extends FullBox where
  entries : List AnyBox

def StsdBox.new (memory : Box) : StsdBox := ⟨.new memory (boxType 's' 't' 's' 'd') 0 0, []⟩

def StsdBox.any (b : StsdBox) : AnyBox := countedBoxes b.toFullBox b.entries

theorem AudioSampleEntry.sound (b : AudioSampleEntry) (h : b.Fresh)
    (hesds : ∀ e, b.esds = some e → e.any.Sound) : b.any.Sound := by
  have hinner : 0 ≤ b.esds.elim 0 EsdsBox.size ∧ (b.esds.elim 0 EsdsBox.size < maxSize →
      ((b.esds.elim done EsdsBox.encode).size : ℤ) = b.esds.elim 0 EsdsBox.size ∧
        (b.esds.elim done EsdsBox.encode).Announces 4) := by
    cases he : b.esds with
    | none => exact ⟨le_refl 0, fun _ ↦ ⟨rfl, trivial⟩⟩
    | some e =>
      have hsound := hesds e he
      exact ⟨hsound.nonneg, fun hlt ↦ ⟨(hsound.exact hlt).size, (hsound.exact hlt).announces⟩⟩
  obtain ⟨hnn, hexact⟩ := hinner
  have h8 : b.toBox.size = 8 := h.size_eq
  have hsize : b.size = 8 + 8 + 20 + b.esds.elim 0 EsdsBox.size := by
    rw [AudioSampleEntry.size, SampleEntry.size, h8]
  refine ⟨by simp only [AudioSampleEntry.any]; omega, fun hlt ↦ ?_⟩
  simp only [AudioSampleEntry.any] at hlt ⊢
  obtain ⟨hes, hann⟩ := hexact (by omega)
  apply Box.emit_exact h.cachedSize h.type hlt
  · simp only [seqs_cons, seqs_nil, size_seq, size_skip, size_write2, size_write4, size_done]
    omega
  · simpa using hann

theorem Box.Fresh.updateSize {b : Box} (h : b.Fresh) {total : ℤ} (h8 : 8 ≤ total)
    (hlt : total < maxSize) : (b.updateSize total).Fresh := by
  rw [updateSize_of_lt (by omega) hlt]
  refine ⟨?_, h.type⟩
  dsimp only
  omega

/-- An entry with one configuration. -/
theorem VisualSampleEntry.sound (b : VisualSampleEntry) (h : b.Fresh) (hone : b.hvcc = none)
    (havcc : ∀ c, b.avcc = some c → c.Sound) : b.any.Sound := by
  have hinner : 0 ≤ b.avcc.elim 0 AnyBox.size ∧ (b.avcc.elim 0 AnyBox.size < maxSize →
      ((b.avcc.elim done AnyBox.encode).size : ℤ) = b.avcc.elim 0 AnyBox.size ∧
        (b.avcc.elim done AnyBox.encode).Announces 4) := by
    cases he : b.avcc with
    | none => exact ⟨le_refl 0, fun _ ↦ ⟨rfl, trivial⟩⟩
    | some c =>
      have hsound := havcc c he
      exact ⟨hsound.nonneg, fun hlt ↦ ⟨(hsound.exact hlt).size, (hsound.exact hlt).announces⟩⟩
  obtain ⟨hnn, hexact⟩ := hinner
  have hsize : ∀ box : Box, box.Fresh →
      ({ b with toBox := box } : VisualSampleEntry).size = 86 + b.avcc.elim 0 AnyBox.size := by
    intro box hbox
    have h8 : box.size = 8 := hbox.size_eq
    have hconf : (b.avcc.orElse fun _ ↦ b.hvcc) = b.avcc := by
      rw [hone]
      cases b.avcc <;> rfl
    simp only [VisualSampleEntry.size, SampleEntry.size, h8, hconf]
    omega
  have htotal : b.size = 86 + b.avcc.elim 0 AnyBox.size := hsize b.toBox h
  refine ⟨by simp only [VisualSampleEntry.any]; omega, fun hlt ↦ ?_⟩
  simp only [VisualSampleEntry.any] at hlt ⊢
  obtain ⟨hconf, hann⟩ := hexact (by omega)
  have hfresh : (b.toBox.updateSize b.size).Fresh := Box.Fresh.updateSize h (by omega) hlt
  have h8 : (b.toBox.updateSize b.size).size = 8 := hfresh.size_eq
  rw [VisualSampleEntry.encode]
  dsimp only
  rw [hsize _ hfresh, ← htotal, hone]
  have hpre : (each write4 b.preDefined2.toList).size = 12 := by
    rw [size_each4, Vector.length_toList]
  have hname : (each write1 b.compressorname.toList).size = 32 := by
    rw [size_each_const size_write1, Vector.length_toList]
  apply Box.emit_exact hfresh.cachedSize hfresh.type hlt
  · simp only [seqs_cons, seqs_nil, size_seq, size_skip, size_write2, size_write4, hpre, hname,
      Option.elim_none, size_done]
    omega
  · simpa using hann

end Entry

end MmsServer.Mp4.SampleBoxes
