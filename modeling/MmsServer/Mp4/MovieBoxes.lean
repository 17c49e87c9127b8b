import MmsServer.Mp4.Base

namespace MmsServer.Mp4.MovieBoxes

open Lib.ByteReader Lib.ByteLayout Lib.ByteLayout.Layout Mp4.Base

section FileType

structure FtypBox extends Box where
  majorBrand : BitVec 32
  minorVersion : BitVec 32
  compatibleBrands : List (BitVec 32)

def FtypBox.new (memory : Box) : FtypBox where
  toBox := .new memory (boxType 'f' 't' 'y' 'p')
  majorBrand := boxType 'i' 's' 'o' '5'
  minorVersion := 512
  compatibleBrands := []

def FtypBox.newStyp (memory : Box) : FtypBox :=
  { FtypBox.new memory with toBox := .new memory (boxType 's' 't' 'y' 'p') }

def FtypBox.size (b : FtypBox) : ℤ := b.toBox.size + 4 + 4 + b.compatibleBrands.length * 4

def FtypBox.encode (b : FtypBox) : Layout := b.toBox.emit b.size [
  write4 b.majorBrand,
  write4 b.minorVersion,
  each write4 b.compatibleBrands]

def FtypBox.any (b : FtypBox) : AnyBox := ⟨b.size, b.encode⟩

theorem size_each4 (vs : List (BitVec 32)) : (each write4 vs).size = vs.length * 4 :=
  size_each_const size_write4 vs

theorem FtypBox.sound (b : FtypBox) (h : b.Fresh) : b.any.Sound := by
  apply Box.leaf_sound h
  · simp only [FtypBox.size, seqs_cons, seqs_nil, size_seq, size_write4, size_each4, size_done]
    omega
  · simp

end FileType

section Header

structure MvhdBox extends FullBox where
  creationTime : BitVec 64
  modificationTime : BitVec 64
  timescale : BitVec 32
  duration : BitVec 64
  rate : BitVec 32
  volume : BitVec 16
  matrix : Vector (BitVec 32) 9
  nextTrackId : BitVec 32
deriving Inhabited

def unityMatrix : Vector (BitVec 32) 9 := #v[0x00010000, 0, 0, 0, 0x00010000, 0, 0, 0, 0x40000000]

def MvhdBox.new (memory : MvhdBox) : MvhdBox :=
  { memory with toFullBox := .new memory.toBox (boxType 'm' 'v' 'h' 'd') 0 0, matrix := unityMatrix }

def MvhdBox.size (b : MvhdBox) : ℤ :=
  b.toFullBox.size + (if b.version = 1 then 8 * 3 + 4 else 4 * 4) + 6 + 10 + 9 * 4 + 24 + 4

def MvhdBox.times (b : MvhdBox) : Layout :=
  if b.version = 1 then seqs [
    write8 b.creationTime,
    write8 b.modificationTime,
    write4 b.timescale,
    write8 b.duration]
  else seqs [
    write4 (b.creationTime.setWidth 32),
    write4 (b.modificationTime.setWidth 32),
    write4 b.timescale,
    write4 (b.duration.setWidth 32)]

def MvhdBox.encode (b : MvhdBox) : Layout := b.toFullBox.emit b.size [
  b.times,
  write4 b.rate,
  write2 b.volume,
  .skip 10,
  each write4 b.matrix.toList,
  .skip 24,
  write4 b.nextTrackId]

/-- In version 1 the time scale is read from eight bytes. -/
def MvhdBox.readTimes (version : BitVec 8) : Reader (BitVec 64 × BitVec 64 × BitVec 32 × BitVec 64) :=
  if version = 1 then do
    let creationTime ← read8
    let modificationTime ← read8
    let timescale ← read8
    let duration ← read8
    return (creationTime, modificationTime, timescale.setWidth 32, duration)
  else do
    let creationTime ← read4
    let modificationTime ← read4
    let timescale ← read4
    let duration ← read4
    return (creationTime.setWidth 64, modificationTime.setWidth 64, timescale, duration.setWidth 64)

def MvhdBox.decode (b : MvhdBox) : Reader MvhdBox := do
  let full ← b.toFullBox.decode
  let times ← MvhdBox.readTimes full.version
  let rate ← read4
  let volume ← read2
  skipBytes 10
  let matrix ← readVector read4 9
  skipBytes 24
  let nextTrackId ← read4
  return { full with
    creationTime := times.1
    modificationTime := times.2.1
    timescale := times.2.2.1
    duration := times.2.2.2
    rate := rate
    volume := volume
    matrix := matrix
    nextTrackId := nextTrackId }

def MvhdBox.any (b : MvhdBox) : AnyBox := ⟨b.size, b.encode⟩

theorem size_matrix (m : Vector (BitVec 32) 9) : (each write4 m.toList).size = 36 := by
  rw [size_each4, Vector.length_toList]

theorem MvhdBox.sound (b : MvhdBox) (h : b.Fresh) : b.any.Sound := by
  apply FullBox.leaf_sound h
  · simp only [MvhdBox.size, MvhdBox.times, seqs_cons, seqs_nil, size_seq, size_write4, size_write2,
      size_skip, size_matrix, size_done]
    split
    · simp only [size_seq, size_write8, size_write4, size_done]
      omega
    · simp only [size_seq, size_write4, size_done]
      omega
  · simp only [MvhdBox.times]
    split <;> simp

structure TkhdBox extends FullBox where
  trackId : BitVec 32
  creationTime : BitVec 64
  modificationTime : BitVec 64
  duration : BitVec 64
  layer : BitVec 16
  alternateGroup : BitVec 16
  volume : BitVec 16
  matrix : Vector (BitVec 32) 9
  width : BitVec 32
  height : BitVec 32
deriving Inhabited

def TkhdBox.new (memory : TkhdBox) (now : BitVec 64) (version : BitVec 8) (flags : BitVec 32) :
    TkhdBox :=
  { memory with
    toFullBox := .new memory.toBox (boxType 't' 'k' 'h' 'd') version flags
    trackId := 0
    creationTime := now
    duration := 0
    layer := 0
    alternateGroup := 0
    volume := 0
    matrix := unityMatrix }

def TkhdBox.size (b : TkhdBox) : ℤ :=
  b.toFullBox.size + (if b.version = 1 then 32 else 20) + 8 + 8 + 4 * 9 + 8

def writeTime (version : BitVec 8) (time : BitVec 64) : Layout :=
  if version = 1 then write8 time else write4 (time.setWidth 32)

def readTime (version : BitVec 8) : Reader (BitVec 64) :=
  if version = 1 then read8 else return (← read4).setWidth 64

def TkhdBox.encode (b : TkhdBox) : Layout := b.toFullBox.emit b.size [
  writeTime b.version b.creationTime,
  writeTime b.version b.modificationTime,
  write4 b.trackId,
  write4 0,
  writeTime b.version b.duration,
  write8 0,
  write2 b.layer,
  write2 b.alternateGroup,
  write2 b.volume,
  write2 0,
  each write4 b.matrix.toList,
  write4 b.width,
  write4 b.height]

/-- Later versions throw. -/
def TkhdBox.decode (b : TkhdBox) : Reader TkhdBox := do
  let full ← b.toFullBox.decode
  guard (full.version ≤ 1)
  let creationTime ← readTime full.version
  let modificationTime ← readTime full.version
  let trackId ← read4
  skipBytes 4
  let duration ← readTime full.version
  skipBytes 8
  let layer ← read2
  let alternateGroup ← read2
  let volume ← read2
  skipBytes 2
  let matrix ← readVector read4 9
  let width ← read4
  let height ← read4
  return { full with
    trackId := trackId
    creationTime := creationTime
    modificationTime := modificationTime
    duration := duration
    layer := layer
    alternateGroup := alternateGroup
    volume := volume
    matrix := matrix
    width := width
    height := height }

def TkhdBox.any (b : TkhdBox) : AnyBox := ⟨b.size, b.encode⟩

theorem size_writeTime (version : BitVec 8) (time : BitVec 64) :
    (writeTime version time).size = if version = 1 then 8 else 4 := by
  unfold writeTime
  split <;> simp

theorem announces_writeTime (version : BitVec 8) (time : BitVec 64) :
    (writeTime version time).Announces 4 := by
  unfold writeTime
  split <;> simp

theorem TkhdBox.sound (b : TkhdBox) (h : b.Fresh) : b.any.Sound := by
  apply FullBox.leaf_sound h
  · simp only [TkhdBox.size, seqs_cons, seqs_nil, size_seq, size_write8, size_write4, size_write2,
      size_writeTime, size_matrix, size_done]
    split <;> omega
  · simp [announces_writeTime]

structure MdhdBox extends FullBox where
  creationTime : BitVec 64
  modificationTime : BitVec 64
  timescale : BitVec 32
  duration : BitVec 64
  language : BitVec 16
  preDefined : BitVec 16

def MdhdBox.new (memory : Box) : MdhdBox where
  toFullBox := .new memory (boxType 'm' 'd' 'h' 'd') 0 0
  creationTime := 0
  modificationTime := 0
  timescale := 1000
  duration := 0
  language := 0x55c4
  preDefined := 0

/-- `set_language0`, `set_language1` and `set_language2`, which add to the bits
that are set. -/
def MdhdBox.setLanguage (b : MdhdBox) (v0 v1 v2 : Char) : MdhdBox :=
  let bits := fun v : Char ↦ (BitVec.ofNat 8 v.toNat - 0x60 &&& 0x1f).setWidth 16
  { b with language := b.language ||| bits v0 <<< 10 ||| bits v1 <<< 5 ||| bits v2 }

def MdhdBox.size (b : MdhdBox) : ℤ :=
  b.toFullBox.size + (if b.version = 1 then 8 * 3 + 4 else 4 * 3 + 4) + 4

def MdhdBox.encode (b : MdhdBox) : Layout := b.toFullBox.emit b.size [
  writeTime b.version b.creationTime,
  writeTime b.version b.modificationTime,
  write4 b.timescale,
  writeTime b.version b.duration,
  write2 b.language,
  write2 b.preDefined]

def MdhdBox.decode (b : MdhdBox) : Reader MdhdBox := do
  let full ← b.toFullBox.decode
  let creationTime ← readTime full.version
  let modificationTime ← readTime full.version
  let timescale ← read4
  let duration ← readTime full.version
  let language ← read2
  let preDefined ← read2
  return { full with
    creationTime := creationTime
    modificationTime := modificationTime
    timescale := timescale
    duration := duration
    language := language
    preDefined := preDefined }

def MdhdBox.any (b : MdhdBox) : AnyBox := ⟨b.size, b.encode⟩

theorem MdhdBox.sound (b : MdhdBox) (h : b.Fresh) : b.any.Sound := by
  apply FullBox.leaf_sound h
  · simp only [MdhdBox.size, seqs_cons, seqs_nil, size_seq, size_write4, size_write2, size_writeTime,
      size_done]
    split <;> omega
  · simp [announces_writeTime]

structure HdlrBox extends FullBox where
  preDefined : BitVec 32
  handlerType : BitVec 32
  reserved : Vector (BitVec 32) 3
  name : Bytes
deriving Inhabited

def HdlrBox.new (memory : HdlrBox) : HdlrBox :=
  { memory with
    toFullBox := .new memory.toBox (boxType 'h' 'd' 'l' 'r') 0 0
    preDefined := 0
    reserved := #v[0, 0, 0]
    name := [] }

def HdlrBox.size (b : HdlrBox) : ℤ := b.toFullBox.size + 20 + b.name.length + 1

def HdlrBox.encode (b : HdlrBox) : Layout := b.toFullBox.emit b.size [
  write4 b.preDefined,
  write4 b.handlerType,
  .skip 12,
  writeString b.name,
  write1 0]

def HdlrBox.readHead (b : HdlrBox) : Reader HdlrBox := do
  let full ← b.toFullBox.decode
  let preDefined ← read4
  let handlerType ← read4
  let reserved ← readVector read4 3
  return { full with
    preDefined := preDefined
    handlerType := handlerType
    reserved := reserved
    name := b.name }

/-- The name is taken to the end of the box, and one more byte is passed over. -/
def HdlrBox.decode (b : HdlrBox) : Reader HdlrBox := do
  let head ← counted b.readHead
  let leftBytes := head.1.decodedSize - head.2
  let name ← readString (leftBytes % 2 ^ 64).toNat
  skipBytes 1
  return { head.1 with name := name }

def HdlrBox.any (b : HdlrBox) : AnyBox := ⟨b.size, b.encode⟩

theorem HdlrBox.sound (b : HdlrBox) (h : b.Fresh) : b.any.Sound := by
  apply FullBox.leaf_sound h
  · simp only [HdlrBox.size, seqs_cons, seqs_nil, size_seq, size_write4, size_skip, size_writeString,
      size_write1, size_done]
    omega
  · simp

end Header

section Media

structure VmhdBox extends FullBox where
  graphicsmode : BitVec 16
  opcolor : Vector (BitVec 16) 3

def VmhdBox.new (memory : Box) : VmhdBox where
  toFullBox := .new memory (boxType 'v' 'm' 'h' 'd') 0 1
  graphicsmode := 0
  opcolor := #v[0, 0, 0]

def VmhdBox.size (b : VmhdBox) : ℤ := b.toFullBox.size + 8

def VmhdBox.encode (b : VmhdBox) : Layout := b.toFullBox.emit b.size [
  write2 b.graphicsmode,
  each write2 b.opcolor.toList]

def VmhdBox.any (b : VmhdBox) : AnyBox := ⟨b.size, b.encode⟩

theorem VmhdBox.sound (b : VmhdBox) (h : b.Fresh) : b.any.Sound := by
  apply FullBox.leaf_sound h
  · have hcolor : (each write2 b.opcolor.toList).size = 6 := by
      rw [size_each_const size_write2, Vector.length_toList]
    simp only [VmhdBox.size, seqs_cons, seqs_nil, size_seq, size_write2, hcolor, size_done]
    rfl
  · simp

structure UrlBox extends FullBox where
  location : Bytes

def UrlBox.new (memory : Box) : UrlBox where
  toFullBox := .new memory (boxType 'u' 'r' 'l' ' ') 0 0
  location := []

def UrlBox.size (b : UrlBox) : ℤ := b.toFullBox.size + (b.location.length + 1)

/-- A box without a location is marked in its flags. -/
def UrlBox.encode (b : UrlBox) : Layout :=
  let full := if b.location.isEmpty then { b.toFullBox with flags := 1 } else b.toFullBox
  full.emit b.size [writeString b.location, write1 0]

def UrlBox.any (b : UrlBox) : AnyBox := ⟨b.size, b.encode⟩

theorem UrlBox.sound (b : UrlBox) (h : b.Fresh) : b.any.Sound := by
  have hsize : ∀ full : FullBox, full.toBox = b.toBox →
      AnyBox.Sound ⟨b.size, full.emit b.size [writeString b.location, write1 0]⟩ := by
    intro full hbox
    have hfull : full.size = b.toFullBox.size := by rw [FullBox.size, hbox, FullBox.size]
    apply FullBox.leaf_sound (hbox ▸ h)
    · simp [UrlBox.size, hfull]
    · simp
  unfold UrlBox.any UrlBox.encode
  dsimp only
  split
  · exact hsize _ rfl
  · exact hsize _ rfl

structure DrefBox extends FullBox where
  entries : List AnyBox

def DrefBox.new (memory : Box) : DrefBox where
  toFullBox := .new memory (boxType 'd' 'r' 'e' 'f') 0 0
  entries := []

def DrefBox.any (b : DrefBox) : AnyBox := countedBoxes b.toFullBox b.entries

structure DinfBox extends Box where
  dref : DrefBox

def DinfBox.any (b : DinfBox) : AnyBox := container b.toBox [b.dref.any]

structure MinfBox extends Box where
  boxes : List AnyBox

def MinfBox.any (b : MinfBox) : AnyBox := container b.toBox b.boxes

structure MdiaBox extends Box where
  hdlr : Option HdlrBox
  mdhd : Option MdhdBox
  minf : Option MinfBox

def MdiaBox.boxes (b : MdiaBox) : List AnyBox :=
  (b.hdlr.map HdlrBox.any).toList ++ (b.mdhd.map MdhdBox.any).toList ++ (b.minf.map MinfBox.any).toList

def MdiaBox.any (b : MdiaBox) : AnyBox := container b.toBox b.boxes

structure TrakBox extends Box where
  tkhd : Option TkhdBox
  mdia : Option MdiaBox

def TrakBox.boxes (b : TrakBox) : List AnyBox :=
  (b.tkhd.map TkhdBox.any).toList ++ (b.mdia.map MdiaBox.any).toList

def TrakBox.any (b : TrakBox) : AnyBox := container b.toBox b.boxes

structure TrexBox extends FullBox where
  trackId : BitVec 32
  defaultSampleDescriptionIndex : BitVec 32
  defaultSampleDuration : BitVec 32
  defaultSampleSize : BitVec 32
  defaultSampleFlags : BitVec 32
deriving Inhabited

def TrexBox.new (memory : TrexBox) : TrexBox :=
  { memory with
    toFullBox := .new memory.toBox (boxType 't' 'r' 'e' 'x') 0 0
    defaultSampleDuration := 0
    defaultSampleSize := 0
    defaultSampleFlags := 0 }

def TrexBox.size (b : TrexBox) : ℤ := b.toFullBox.size + 4 * 5

def TrexBox.encode (b : TrexBox) : Layout := b.toFullBox.emit b.size [
  write4 b.trackId,
  write4 b.defaultSampleDescriptionIndex,
  write4 b.defaultSampleDuration,
  write4 b.defaultSampleSize,
  write4 b.defaultSampleFlags]

def TrexBox.any (b : TrexBox) : AnyBox := ⟨b.size, b.encode⟩

theorem TrexBox.sound (b : TrexBox) (h : b.Fresh) : b.any.Sound := by
  apply FullBox.leaf_sound h
  · simp [TrexBox.size]
  · simp

structure MvexBox extends Box where
  boxes : List AnyBox

def MvexBox.any (b : MvexBox) : AnyBox := container b.toBox b.boxes

structure MoovBox extends Box where
  boxes : List AnyBox

def MoovBox.any (b : MoovBox) : AnyBox := container b.toBox b.boxes

end Media

end MmsServer.Mp4.MovieBoxes
