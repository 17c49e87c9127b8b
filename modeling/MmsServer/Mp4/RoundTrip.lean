import MmsServer.Mp4.Esds
import MmsServer.Mp4.FragmentBoxes
import MmsServer.Mp4.SampleBoxes

namespace MmsServer.Mp4.RoundTrip

open Lib.ByteReader Lib.ByteLayout Lib.ByteLayout.Layout Mp4.Base MovieBoxes FragmentBoxes SampleBoxes Esds

section Full

/-- Flags of three bytes, in one of the two versions. -/
structure FullBox.Fits (b : FullBox) : Prop where
  version : b.version = 0 ∨ b.version = 1
  flags : b.flags.toNat < 2 ^ 24

def FullBox.restored (memory b : FullBox) (total : ℤ) : FullBox := memory.readInto (b.updateSize total)

theorem reads_emit {memory b : FullBox} (hflags : b.flags.toNat < 2 ^ 24) {β : Type}
    {f : FullBox → Reader β} {total : ℤ} {body : List Layout} {x : β} :
    Reads (memory.decode >>= f) (b.emit total body) x ↔
      Reads (f (FullBox.restored memory b total)) (seqs body) x :=
  Reads.bind_iff (FullBox.reads memory (b := b.updateSize total) (b.toBox.updateSize_lt total) hflags)

def TimeFits (version : BitVec 8) (time : BitVec 64) : Prop := version = 1 ∨ time.toNat < 2 ^ 32

theorem setWidth_setWidth {v : BitVec 64} (h : v.toNat < 2 ^ 32) : (v.setWidth 32).setWidth 64 = v := by
  apply BitVec.eq_of_toNat_eq
  rw [BitVec.toNat_setWidth, BitVec.toNat_setWidth, Nat.mod_eq_of_lt h, Nat.mod_eq_of_lt v.isLt]

theorem readsShort {v : BitVec 64} (h : v.toNat < 2 ^ 32) :
    Reads (do return (← read4).setWidth 64) (write4 (v.setWidth 32)) v := by
  have hr := (reads4 (v.setWidth 32)).map fun w ↦ w.setWidth 64
  rwa [setWidth_setWidth h] at hr

theorem readsTime {version : BitVec 8} {time : BitVec 64} (h : TimeFits version time) :
    Reads (readTime version) (writeTime version time) time := by
  unfold readTime writeTime
  split
  · exact reads8 time
  · exact readsShort (h.resolve_left ‹_›)

end Full

section Headers

structure MvhdBox.Fits (b : MvhdBox) : Prop where
  full : FullBox.Fits b.toFullBox
  creationTime : TimeFits b.version b.creationTime
  modificationTime : TimeFits b.version b.modificationTime
  duration : TimeFits b.version b.duration

def MvhdBox.restored (memory b : MvhdBox) : MvhdBox :=
  { b with toFullBox := FullBox.restored memory.toFullBox b.toFullBox b.size }

theorem MvhdBox.readsTimes {b : MvhdBox} (hb : MvhdBox.Fits b) (h0 : b.version = 0) :
    Reads (MvhdBox.readTimes b.version) b.times
      (b.creationTime, b.modificationTime, b.timescale, b.duration) := by
  have hshort {time : BitVec 64} (h : TimeFits b.version time) : time.toNat < 2 ^ 32 := by
    rw [TimeFits, h0] at h
    exact h.resolve_left (by decide)
  have hcreation := setWidth_setWidth (hshort hb.creationTime)
  have hmodification := setWidth_setWidth (hshort hb.modificationTime)
  have hduration := setWidth_setWidth (hshort hb.duration)
  have h1 : ¬ b.version = 1 := by
    rw [h0]
    decide
  rw [MvhdBox.readTimes, MvhdBox.times, if_neg h1, if_neg h1]
  refine (reads4 _).bind ((reads4 _).bind ((reads4 _).bind ((reads4 _).bind ?_)))
  rw [hcreation, hmodification, hduration]
  exact .pure _

theorem MvhdBox.reads {b : MvhdBox} (hb : MvhdBox.Fits b) (h0 : b.version = 0) (memory : MvhdBox) :
    Reads memory.decode b.encode { MvhdBox.restored memory b with volume := 0 } :=
  (reads_emit hb.full.flags).mpr ((MvhdBox.readsTimes hb h0).bind ((reads4 _).bind ((reads2 _).bind
    ((readsSkip 10).bind ((Reads.vector _ reads4).bind ((readsSkip 24).bind ((reads4 _).bind (.pure _))))))))

/-- The time scale of version 1 is read from four bytes too many, and two bytes are
always read as 0. -/
theorem MvhdBox.reads_iff {b : MvhdBox} (hb : MvhdBox.Fits b) :
    (∀ memory : MvhdBox, Reads memory.decode b.encode (MvhdBox.restored memory b)) ↔
      b.version = 0 ∧ b.volume = 0 := by
  constructor
  · intro h
    rcases hb.full.version with h0 | h1
    · have heq := (h default).unique (MvhdBox.reads hb h0 default)
      exact ⟨h0, congrArg MvhdBox.volume heq⟩
    · exfalso
      have hbody := (reads_emit hb.full.flags).mp (h default)
      have htimes : Takes (MvhdBox.readTimes b.version) 32 := by
        rw [MvhdBox.readTimes, if_pos h1]
        exact takes8.bind fun _ ↦ takes8.bind fun _ ↦ takes8.bind fun _ ↦ takes8.map _
      have hsize := hbody.size_eq (htimes.bind fun _ ↦ takes4.bind fun _ ↦ takes2.bind fun _ ↦
        (takesSkip 10).bind fun _ ↦ (takes4.vector 9).bind fun _ ↦ (takesSkip 24).bind fun _ ↦
        takes4.map _)
      simp only [MvhdBox.times, if_pos h1, seqs_cons, seqs_nil, size_seq, size_write8, size_write4,
        size_write2, size_skip, size_matrix, size_done] at hsize
      omega
  · rintro ⟨h0, hvolume⟩ memory
    have hr := MvhdBox.reads hb h0 memory
    rwa [← hvolume] at hr

structure TkhdBox.Fits (b : TkhdBox) : Prop where
  full : FullBox.Fits b.toFullBox
  creationTime : TimeFits b.version b.creationTime
  modificationTime : TimeFits b.version b.modificationTime
  duration : TimeFits b.version b.duration

def TkhdBox.restored (memory b : TkhdBox) : TkhdBox :=
  { b with toFullBox := FullBox.restored memory.toFullBox b.toFullBox b.size }

theorem reads_guard {β : Type} {p : Prop} [Decidable p] {f : Unit → Reader β} {l : Layout} {x : β}
    (hp : p) (h : Reads (f ()) l x) : Reads (guard p >>= f) l x := by
  have hguard (bs : Bytes) : (guard p : Reader Unit) bs = some ((), bs) := by
    rw [guard, if_pos hp]
    rfl
  intro old hold rest
  rw [bind_some (hguard _)]
  exact h old hold rest

theorem TkhdBox.reads {b : TkhdBox} (hb : TkhdBox.Fits b) (memory : TkhdBox) :
    Reads memory.decode b.encode
      { TkhdBox.restored memory b with layer := 0, alternateGroup := 0, volume := 0 } := by
  have hversion : b.version ≤ 1 := by
    rcases hb.full.version with h | h <;> rw [h] <;> decide
  have hskip4 : Reads (skipBytes 4) (write4 0) () := readsSkipped (putBE_length 4 _)
  have hskip8 : Reads (skipBytes 8) (write8 0) () := readsSkipped (putBE_length 8 _)
  have hskip2 : Reads (skipBytes 2) (write2 0) () := readsSkipped (putBE_length 2 _)
  exact (reads_emit hb.full.flags).mpr (reads_guard hversion ((readsTime hb.creationTime).bind
    ((readsTime hb.modificationTime).bind ((reads4 _).bind (hskip4.bind ((readsTime hb.duration).bind
      (hskip8.bind ((reads2 _).bind ((reads2 _).bind ((reads2 _).bind (hskip2.bind
        ((Reads.vector _ reads4).bind ((reads4 _).bind ((reads4 _).bind (.pure _)))))))))))))))

/-- The three members of two bytes are always read as 0. -/
theorem TkhdBox.reads_iff {b : TkhdBox} (hb : TkhdBox.Fits b) :
    (∀ memory : TkhdBox, Reads memory.decode b.encode (TkhdBox.restored memory b)) ↔
      b.layer = 0 ∧ b.alternateGroup = 0 ∧ b.volume = 0 := by
  constructor
  · intro h
    have heq := (h default).unique (TkhdBox.reads hb default)
    exact ⟨congrArg TkhdBox.layer heq, congrArg TkhdBox.alternateGroup heq,
      congrArg TkhdBox.volume heq⟩
  · rintro ⟨hlayer, hgroup, hvolume⟩ memory
    have heq : { TkhdBox.restored memory b with layer := 0, alternateGroup := 0, volume := 0 } =
        TkhdBox.restored memory b := by
      simp only [TkhdBox.restored, hlayer, hgroup, hvolume]
    rw [← heq]
    exact TkhdBox.reads hb memory

structure MdhdBox.Fits (b : MdhdBox) : Prop where
  full : FullBox.Fits b.toFullBox
  creationTime : TimeFits b.version b.creationTime
  modificationTime : TimeFits b.version b.modificationTime
  duration : TimeFits b.version b.duration

def MdhdBox.restored (memory b : MdhdBox) : MdhdBox :=
  { b with toFullBox := FullBox.restored memory.toFullBox b.toFullBox b.size }

theorem MdhdBox.reads {b : MdhdBox} (hb : MdhdBox.Fits b) (memory : MdhdBox) :
    Reads memory.decode b.encode { MdhdBox.restored memory b with language := 0, preDefined := 0 } :=
  (reads_emit hb.full.flags).mpr ((readsTime hb.creationTime).bind ((readsTime hb.modificationTime).bind
    ((reads4 _).bind ((readsTime hb.duration).bind ((reads2 _).bind ((reads2 _).bind (.pure _)))))))

theorem MdhdBox.reads_iff {b : MdhdBox} (hb : MdhdBox.Fits b) :
    (∀ memory : MdhdBox, Reads memory.decode b.encode (MdhdBox.restored memory b)) ↔
      b.language = 0 ∧ b.preDefined = 0 := by
  constructor
  · intro h
    have heq := (h (.new default)).unique (MdhdBox.reads hb _)
    exact ⟨congrArg MdhdBox.language heq, congrArg MdhdBox.preDefined heq⟩
  · rintro ⟨hlanguage, hpre⟩ memory
    have heq : { MdhdBox.restored memory b with language := 0, preDefined := 0 } =
        MdhdBox.restored memory b := by
      simp only [MdhdBox.restored, hlanguage, hpre]
    rw [← heq]
    exact MdhdBox.reads hb memory

end Headers

section Tables

theorem toNat_count {n : ℕ} (h : n < 2 ^ 32) : (BitVec.ofNat 32 n).toNat = n := by
  rw [BitVec.toNat_ofNat, Nat.mod_eq_of_lt h]

structure SidxBox.Fits (b : SidxBox) : Prop where
  full : FullBox.Fits b.toFullBox
  earliestPresentationTime : TimeFits b.version b.earliestPresentationTime
  firstOffset : TimeFits b.version b.firstOffset
  count : b.entries.length < 2 ^ 32

def SidxBox.restored (memory b : SidxBox) : SidxBox :=
  { b with toFullBox := FullBox.restored memory.toFullBox b.toFullBox b.size }

theorem SidxBox.reads {b : SidxBox} (hb : SidxBox.Fits b) (memory : SidxBox) :
    Reads memory.decode b.encode { SidxBox.restored memory b with entries := memory.entries } := by
  have hentries := Reads.each b.entries SegmentIndexEntry.reads
  rw [← toNat_count hb.count] at hentries
  exact (reads_emit hb.full.flags).mpr ((reads4 _).bind ((reads4 _).bind
    ((readsTime hb.earliestPresentationTime).bind ((readsTime hb.firstOffset).bind ((reads4 _).bind
      (hentries.bind (.pure _)))))))

/-- The entries are lost. -/
theorem SidxBox.reads_iff {b : SidxBox} (hb : SidxBox.Fits b) :
    (∀ memory : SidxBox, memory.entries = [] →
      Reads memory.decode b.encode (SidxBox.restored memory b)) ↔ b.entries = [] := by
  constructor
  · intro h
    have heq := (h (.new default) rfl).unique (SidxBox.reads hb _)
    exact congrArg SidxBox.entries heq
  · intro hentries memory hmem
    have heq : { SidxBox.restored memory b with entries := memory.entries } =
        SidxBox.restored memory b := by
      simp only [SidxBox.restored, hentries, hmem]
    rw [← heq]
    exact SidxBox.reads hb memory

/-- The members of an entry that the flags leave out keep their value. -/
def TrunEntry.restored (flags : BitVec 32) (memory e : TrunEntry) : TrunEntry where
  sampleDuration := if HasFlag flags trunSampleDuration then e.sampleDuration else memory.sampleDuration
  sampleSize := if HasFlag flags trunSampleSize then e.sampleSize else memory.sampleSize
  sampleFlags := if HasFlag flags trunSampleFlag then e.sampleFlags else memory.sampleFlags
  sampleCompositionTimeOffset :=
    if HasFlag flags trunSampleCtsOffset then e.sampleCompositionTimeOffset
    else memory.sampleCompositionTimeOffset

def OffsetFits (version : BitVec 8) (offset : BitVec 64) : Prop :=
  if version = 0 then offset.toNat < 2 ^ 32 else -2 ^ 31 ≤ offset.toInt ∧ offset.toInt < 2 ^ 31

structure TrunBox.Fits (b : TrunBox) : Prop where
  full : FullBox.Fits b.toFullBox
  count : b.entries.length < 2 ^ 32
  offsets : ∀ e ∈ b.entries, OffsetFits b.version e.sampleCompositionTimeOffset

def TrunBox.restored (memory : TrunBox) (e : TrunEntry) (b : TrunBox) : TrunBox where
  toFullBox := FullBox.restored memory.toFullBox b.toFullBox b.size
  entries := memory.entries ++ b.entries.map (TrunEntry.restored b.flags e)
  dataOffset := if HasFlag b.flags trunDataOffset then b.dataOffset else memory.dataOffset
  firstSampleFlags := if HasFlag b.flags trunFirstSample then b.firstSampleFlags else memory.firstSampleFlags

theorem signExtend_setWidth {v : BitVec 64} (hlo : -2 ^ 31 ≤ v.toInt) (hhi : v.toInt < 2 ^ 31) :
    (v.setWidth 32).signExtend 64 = v := by
  apply BitVec.eq_of_toInt_eq
  rw [BitVec.toInt_signExtend_of_le (by decide), BitVec.toInt_setWidth]
  rw [BitVec.toInt_eq_toNat_cond] at hlo hhi ⊢
  have hv := v.isLt
  rw [Int.bmod]
  split at hlo <;> split at hhi <;> split <;> omega

theorem TrunEntry.readInto_eq {version : BitVec 8} (flags : BitVec 32) (memory : TrunEntry) {e : TrunEntry}
    (h : OffsetFits version e.sampleCompositionTimeOffset) :
    memory.readInto version flags e = TrunEntry.restored flags memory e := by
  have hoffset : (if version = 0 then (e.sampleCompositionTimeOffset.setWidth 32).setWidth 64
      else (e.sampleCompositionTimeOffset.setWidth 32).signExtend 64) = e.sampleCompositionTimeOffset := by
    unfold OffsetFits at h
    split at h
    · rw [if_pos ‹_›, setWidth_setWidth h]
    · rw [if_neg ‹_›, signExtend_setWidth h.1 h.2]
  simp only [TrunEntry.readInto, TrunEntry.restored, hoffset]

/-- The number of entries is read as an `int`. -/
theorem TrunBox.reads_iff {b : TrunBox} (hb : TrunBox.Fits b) :
    (∀ (memory : TrunBox) (e : TrunEntry), memory.entries = [] →
      Reads (memory.decode e) b.encode (TrunBox.restored memory e b)) ↔ b.entries.length < 2 ^ 31 := by
  constructor
  · intro h
    by_contra hlarge
    have hcount : (BitVec.ofNat 32 b.entries.length).toInt.toNat = 0 := by
      have hlt := hb.count
      rw [BitVec.toInt_eq_toNat_cond, toNat_count hlt]
      omega
    have hbody := (reads_emit hb.full.flags).mp (h (.new default 0) ⟨0, 0, 0, 0⟩ rfl)
    have hrest := (Reads.bind_iff (Reads.readIf (fun _ ↦ reads4 _) _)).mp
      ((Reads.bind_iff (Reads.readIf (fun _ ↦ reads4 _) _)).mp ((Reads.bind_iff (reads4 _)).mp hbody))
    rw [hcount] at hrest
    -- without an entry that is read, the list stays empty
    have hnone := hrest (List.replicate (seqs [each (TrunEntry.encode b.flags) b.entries]).size 0)
      (le_of_eq List.length_replicate.symm) []
    rw [readMany, bind_some (pure_eq_some.mpr ⟨rfl, rfl⟩)] at hnone
    have hentries := congrArg TrunBox.entries (pure_eq_some.mp hnone).1
    have hlen : 0 = b.entries.length := by
      simpa [TrunBox.restored, TrunBox.new] using congrArg List.length hentries
    omega
  · intro hlt memory e hmem
    have hreads := TrunBox.reads memory e hb.full.flags hlt
    have heq : memory.readInto e b = TrunBox.restored memory e b := by
      have hentries : b.entries.map (e.readInto b.version b.flags) =
          b.entries.map (TrunEntry.restored b.flags e) :=
        List.map_congr_left fun x hx ↦ TrunEntry.readInto_eq b.flags e (hb.offsets x hx)
      simp only [TrunBox.readInto, TrunBox.restored, hentries]
      rfl
    rwa [heq] at hreads

structure TfhdBox.Fits (b : TfhdBox) : Prop where
  full : FullBox.Fits b.toFullBox

def TfhdBox.restored (memory b : TfhdBox) : TfhdBox where
  toFullBox := FullBox.restored memory.toFullBox b.toFullBox b.size
  trackId := b.trackId
  baseDataOffset := if HasFlag b.flags tfhdBaseDataOffset then b.baseDataOffset else memory.baseDataOffset
  sampleDescriptionIndex :=
    if HasFlag b.flags tfhdSampleDescriptionIndex then b.sampleDescriptionIndex
    else memory.sampleDescriptionIndex
  defaultSampleDuration :=
    if HasFlag b.flags tfhdDefaultSampleDuration then b.defaultSampleDuration
    else memory.defaultSampleDuration
  defaultSampleSize :=
    if HasFlag b.flags tfhdDefaultSampleSize then b.defaultSampleSize else memory.defaultSampleSize
  defaultSampleFlags :=
    if HasFlag b.flags tfhdDefaultSampleFlags then b.defaultSampleFlags else memory.defaultSampleFlags

theorem TfhdBox.reads {b : TfhdBox} (hb : TfhdBox.Fits b) (memory : TfhdBox) :
    Reads memory.decode b.encode (TfhdBox.restored memory b) :=
  (reads_emit hb.full.flags).mpr ((reads4 _).bind ((Reads.readIf (fun _ ↦ reads8 _) _).bind
    ((Reads.readIf (fun _ ↦ reads4 _) _).bind ((Reads.readIf (fun _ ↦ reads4 _) _).bind
      ((Reads.readIf (fun _ ↦ reads4 _) _).bind ((Reads.readIf (fun _ ↦ reads4 _) _).bind (.pure _)))))))

structure TfdtBox.Fits (b : TfdtBox) : Prop where
  full : FullBox.Fits b.toFullBox
  baseMediaDecodeTime : TimeFits b.version b.baseMediaDecodeTime

def TfdtBox.restored (memory b : TfdtBox) : TfdtBox :=
  { b with toFullBox := FullBox.restored memory.toFullBox b.toFullBox b.size }

theorem TfdtBox.readsTime {b : TfdtBox} (hb : TfdtBox.Fits b) :
    Reads (TfdtBox.readTime b.version)
      (if b.version ≠ 0 then write8 b.baseMediaDecodeTime
        else write4 (b.baseMediaDecodeTime.setWidth 32)) b.baseMediaDecodeTime := by
  unfold TfdtBox.readTime
  split
  · exact reads8 _
  · rename_i h0
    have h0 : b.version = 0 := not_not.mp h0
    have htime := hb.baseMediaDecodeTime
    rw [TimeFits, h0] at htime
    exact readsShort (htime.resolve_left (by decide))

theorem TfdtBox.reads {b : TfdtBox} (hb : TfdtBox.Fits b) (memory : TfdtBox) :
    Reads memory.decode b.encode (TfdtBox.restored memory b) :=
  (reads_emit hb.full.flags).mpr ((TfdtBox.readsTime hb).bind (.pure _))

structure StszBox.Fits (b : StszBox) : Prop where
  full : FullBox.Fits b.toFullBox
  count : b.entrySizes.length < 2 ^ 32

def StszBox.restored (memory b : StszBox) : StszBox where
  toFullBox := FullBox.restored memory.toFullBox b.toFullBox b.size
  sampleSize := b.sampleSize
  entrySizes := if b.sampleSize = 0 then b.entrySizes else memory.entrySizes

/-- A table that is not there is read from what is behind the box. -/
theorem StszBox.reads_iff {b : StszBox} (hb : StszBox.Fits b) :
    (∀ memory : StszBox, memory.entrySizes = [] →
      Reads memory.decode b.encode (StszBox.restored memory b)) ↔
      b.sampleSize = 0 ∨ b.entrySizes = [] := by
  constructor
  · intro h
    by_contra hboth
    rw [not_or] at hboth
    have hbody := (reads_emit hb.full.flags).mp (h (.new default) rfl)
    have hrest := (Reads.bind_iff (reads4 _)).mp ((Reads.bind_iff (reads4 _)).mp hbody)
    have hsize := hrest.size_eq ((takes4.many _).map _)
    rw [toNat_count hb.count, writeIf, if_neg hboth.1] at hsize
    have hpos := List.length_pos_iff.mpr hboth.2
    change 0 = b.entrySizes.length * 4 at hsize
    omega
  · rintro h memory hmem
    have hentries : Reads (readMany read4 b.entrySizes.length)
        (writeIf (b.sampleSize = 0) (each write4 b.entrySizes)) b.entrySizes := by
      have hall := Reads.each (g := id) b.entrySizes reads4
      rw [List.map_id] at hall
      by_cases h0 : b.sampleSize = 0
      · rwa [writeIf, if_pos h0]
      · rw [writeIf, if_neg h0, h.resolve_left h0]
        exact .pure []
    rw [← toNat_count hb.count] at hentries
    have heq : StszBox.restored memory b =
        { FullBox.restored memory.toFullBox b.toFullBox b.size with
          sampleSize := b.sampleSize, entrySizes := memory.entrySizes ++ b.entrySizes } := by
      rcases h with h0 | hnil
      · simp [StszBox.restored, h0, hmem]
      · simp [StszBox.restored, hnil, hmem]
    rw [heq]
    exact (reads_emit hb.full.flags).mpr ((reads4 _).bind ((reads4 _).bind (hentries.bind (.pure _))))

end Tables

section Name

structure HdlrBox.Fits (b : HdlrBox) : Prop where
  full : FullBox.Fits b.toFullBox
  size : b.size < 2 ^ 63

/-- The reserved words are not encoded. -/
def HdlrBox.DecodesBack (b : HdlrBox) : Prop :=
  ∀ (memory : HdlrBox) (old rest : Bytes), b.encode.size ≤ old.length → ∃ b',
    memory.decode (b.encode.fill old ++ rest) = some (b', rest) ∧
    b'.toFullBox = FullBox.restored memory.toFullBox b.toFullBox b.size ∧
    b'.preDefined = b.preDefined ∧ b'.handlerType = b.handlerType ∧ b'.name = b.name

theorem size_fullHeader (b : FullBox) :
    (b.encode.size : ℤ) =
      12 + (if b.cachedSize = 1 then 8 else 0) + (if b.type = typeUuid then 16 else 0) := by
  have huser : (each write1 b.userType.toList).size = 16 := by
    rw [size_each_const size_write1, Vector.length_toList]
  simp only [FullBox.encode, Box.encode, seqs_cons, seqs_nil, size_seq, size_writeIf, size_write4,
    size_write8, size_write3, size_write1, size_done, huser]
  push_cast
  omega

/-- A size that does not run over is announced as it is, in the one field or the other. -/
theorem decodedSize_restored {memory b : FullBox} {total : ℤ} (h8 : 8 ≤ total) (hlt : total < 2 ^ 63) :
    (FullBox.restored memory b total).decodedSize = total ∧
      ((b.updateSize total).cachedSize = 1 ↔ 0xffffffff ≤ total) := by
  have hmod : total % 2 ^ 64 = total := Int.emod_eq_of_lt (by omega) (by omega)
  simp only [FullBox.restored, FullBox.readInto, FullBox.updateSize, Box.readInto, Box.decodedSize,
    Box.updateSize, hmod]
  by_cases hlarge : 0xffffffff ≤ total.toNat
  · have hnat : (BitVec.ofNat 64 total.toNat).toNat = total.toNat := by
      rw [BitVec.toNat_ofNat, Nat.mod_eq_of_lt (by omega)]
    simp only [if_pos hlarge, if_pos, true_iff]
    rw [BitVec.toInt_eq_toNat_of_lt (by omega), hnat]
    omega
  · simp only [if_neg hlarge]
    rw [if_neg (by omega)]
    omega

theorem HdlrBox.readHead_inv {memory head : HdlrBox} {b : FullBox} {total : ℤ}
    (hflags : b.flags.toNat < 2 ^ 24) {old behind mid : Bytes}
    (hold : (b.updateSize total).encode.size ≤ old.length)
    (h : memory.readHead ((b.updateSize total).encode.fill old ++ behind) = some (head, mid)) :
    head.toFullBox = FullBox.restored memory.toFullBox b total ∧
      ((b.updateSize total).encode.fill old ++ behind).length =
        (b.updateSize total).encode.size + 20 + mid.length := by
  have hfull := FullBox.reads memory.toFullBox (b := b.updateSize total) (b.toBox.updateSize_lt total)
    hflags old hold behind
  rw [HdlrBox.readHead, bind_some hfull] at h
  obtain ⟨preDefined, mid₁, h₁, h⟩ := bind_eq_some.mp h
  obtain ⟨handlerType, mid₂, h₂, h⟩ := bind_eq_some.mp h
  obtain ⟨reserved, mid₃, h₃, h⟩ := bind_eq_some.mp h
  obtain ⟨rfl, rfl⟩ := pure_eq_some.mp h
  have hlen₁ := takes4 _ _ _ h₁
  have hlen₂ := takes4 _ _ _ h₂
  have hlen₃ := takes4.vector 3 _ _ _ h₃
  refine ⟨rfl, ?_⟩
  rw [List.length_append, fill_length _ hold]
  omega

theorem counted_eq_some {α : Type} {r : Reader α} {bs rest : Bytes} {p : α × ℕ}
    (h : counted r bs = some (p, rest)) :
    r bs = some (p.1, rest) ∧ p.2 = bs.length - rest.length := by
  cases hr : r bs with
  | none => simp [counted, hr] at h
  | some q =>
    simp only [counted, hr, Option.map_some, Option.some.injEq, Prod.mk.injEq] at h
    obtain ⟨rfl, rfl⟩ := h
    exact ⟨rfl, rfl⟩

theorem readString_length {len : ℕ} {bs s rest : Bytes} (h : readString len bs = some (s, rest)) :
    s.length = len ∧ bs.length = len + rest.length := by
  unfold readString at h
  split at h
  · cases h
  · cases h
    rw [List.length_take, List.length_drop]
    omega

/-- The name takes the byte behind it, and one more byte is passed over. -/
theorem HdlrBox.not_decodesBack {b : HdlrBox} (hb : HdlrBox.Fits b) : ¬ HdlrBox.DecodesBack b := by
  intro h
  obtain ⟨b', hdecode, -, -, -, hname⟩ :=
    h default (List.replicate b.encode.size 0) [] (le_of_eq List.length_replicate.symm)
  rw [List.append_nil] at hdecode
  obtain ⟨head, mid, hhead, hdecode⟩ := bind_eq_some.mp hdecode
  obtain ⟨name, mid', hstring, hdecode⟩ := bind_eq_some.mp hdecode
  obtain ⟨u, mid'', hskip, hdecode⟩ := bind_eq_some.mp hdecode
  obtain ⟨rfl, rfl⟩ := pure_eq_some.mp hdecode
  obtain ⟨hread, hcount⟩ := counted_eq_some hhead
  have hfill : (b.encode.fill (List.replicate b.encode.size 0)).length = b.encode.size :=
    b.encode.fill_length (le_of_eq List.length_replicate.symm)
  have hencode : b.encode.size = (b.toFullBox.updateSize b.size).encode.size + (20 + b.name.length + 1) := by
    change (b.toFullBox.updateSize b.size).encode.size + _ = _
    simp only [List.foldr_cons, List.foldr_nil, size_seq, size_write4, size_skip, size_writeString,
      size_write1, size_done]
    omega
  obtain ⟨hfull, hlen⟩ := HdlrBox.readHead_inv hb.full.flags
    (by rw [List.length_replicate]; omega) hread
  obtain ⟨hname', hmid⟩ := readString_length hstring
  have hbehind := (takesSkip 1) _ _ _ hskip
  have hsize : b.size = b.toFullBox.size + 20 + b.name.length + 1 := rfl
  have hheader := size_fullHeader (b.toFullBox.updateSize b.size)
  have htype : (b.toFullBox.updateSize b.size).type = b.type := b.toBox.updateSize_type _
  have hcached : b.toFullBox.size =
      8 + (if b.cachedSize = 1 then 8 else 0) + (if b.type = typeUuid then 16 else 0) + 4 := rfl
  have hpos : 8 ≤ b.size := by
    rw [hsize, hcached]
    split <;> split <;> omega
  obtain ⟨hdecoded, hlarge⟩ :
      (FullBox.restored (default : HdlrBox).toFullBox b.toFullBox b.size).decodedSize = b.size ∧
        ((b.toFullBox.updateSize b.size).cachedSize = 1 ↔ 0xffffffff ≤ b.size) :=
    decodedSize_restored hpos hb.size
  rw [htype] at hheader
  dsimp only at hname
  have hleft : head.1.decodedSize = b.size := by
    rw [hfull]
    exact hdecoded
  change (b.encode.fill (List.replicate b.encode.size 0)).length = _ at hlen
  have hlength : (b.name.length : ℤ) = (head.1.decodedSize - head.2) % 2 ^ 64 := by
    rw [← hname, hname']
    omega
  rw [hleft] at hlength
  -- the name would have to be 1, 9 or -7 bytes longer than it is
  generalize (if b.type = typeUuid then (16 : ℤ) else 0) = user at hheader hcached
  by_cases hone : (b.toFullBox.updateSize b.size).cachedSize = 1
  · have hover := hlarge.mp hone
    rw [if_pos hone] at hheader
    split at hcached <;> omega
  · rw [if_neg hone] at hheader
    split at hcached <;> omega

end Name

section Descriptors

def DecoderConfig.restored (memory d : Mp4DecoderConfigDescriptor) : Mp4DecoderConfigDescriptor :=
  { d with decSpecificInfo := d.decSpecificInfo.or memory.decSpecificInfo }

def EsDescriptor.restored (memory d : Mp4EsDescriptor) : Mp4EsDescriptor :=
  { d with
    dependsOnEsId := if d.streamDependenceFlag ≠ 0 then d.dependsOnEsId else memory.dependsOnEsId
    urlString := if d.urlFlag ≠ 0 then d.urlString else memory.urlString
    ocrEsId := if d.ocrStreamFlag ≠ 0 then d.ocrEsId else memory.ocrEsId
    decConfigDescr := DecoderConfig.restored memory.decConfigDescr d.decConfigDescr }

def EsdsBox.restored (memory b : EsdsBox) : EsdsBox where
  toFullBox := FullBox.restored memory.toFullBox b.toFullBox b.size
  es := EsDescriptor.restored memory.es b.es.sized

def LeavesSuffix {α : Type} (r : Reader α) : Prop := ∀ bs a rest, r bs = some (a, rest) → rest <:+ bs

variable {α β : Type}

theorem leavesSuffix_bind {r : Reader α} {f : α → Reader β} (h : LeavesSuffix r)
    (h' : ∀ a, LeavesSuffix (f a)) : LeavesSuffix (r >>= f) := by
  intro bs b rest hb
  obtain ⟨a, mid, hr, hf⟩ := bind_eq_some.mp hb
  exact (h' a mid b rest hf).trans (h bs a mid hr)

theorem leavesSuffix_pure (a : α) : LeavesSuffix (Pure.pure a) := by
  intro bs b rest h
  obtain ⟨-, rfl⟩ := pure_eq_some.mp h
  exact List.suffix_refl bs

theorem leavesSuffix_map {r : Reader α} (h : LeavesSuffix r) (g : α → β) :
    LeavesSuffix (r >>= fun a ↦ Pure.pure (g a)) := leavesSuffix_bind h fun a ↦ leavesSuffix_pure (g a)

theorem leavesSuffix_readIf {p : Prop} [Decidable p] {r : Reader α} (h : LeavesSuffix r) (a : α) :
    LeavesSuffix (readIf p r a) := by
  unfold readIf
  split
  · exact h
  · exact leavesSuffix_pure a

theorem leavesSuffix_hostLoad (k : ℕ) : LeavesSuffix (hostLoad k) := by
  intro bs a rest h
  unfold hostLoad at h
  split at h
  · cases h
  · cases h
    exact List.drop_suffix ..

theorem leavesSuffix_readString (len : ℕ) : LeavesSuffix (readString len) := by
  intro bs a rest h
  unfold readString at h
  split at h
  · cases h
  · cases h
    exact List.drop_suffix ..

theorem leavesSuffix_read3 : LeavesSuffix read3 := by
  refine leavesSuffix_map (fun bs a rest h ↦ ?_) _
  obtain ⟨hd, rfl, -⟩ := readBE_delimited 3 bs a rest h
  exact List.suffix_append ..

/-- The bytes of a length: those with a mark, and one without. -/
theorem readVlen_inv {len acc : BitVec 32} {bs rest : Bytes} (h : readVlen acc bs = some (len, rest)) :
    ∃ marked v, bs = marked ++ v :: rest ∧ (∀ m ∈ marked, 128 ≤ m.toNat) ∧ (marked = [] → len = acc) := by
  induction bs generalizing acc with
  | nil => cases h
  | cons b bs ih =>
    rw [readVlen] at h
    split at h
    · rename_i hmark
      obtain ⟨marked, v, rfl, hmarked, -⟩ := ih h
      exact ⟨b :: marked, v, rfl, List.forall_mem_cons.mpr ⟨hmark, hmarked⟩, by simp⟩
    · cases h
      exact ⟨[], b, rfl, by simp, fun _ ↦ rfl⟩

theorem leavesSuffix_base : LeavesSuffix Mp4BaseDescriptor.decode := by
  refine leavesSuffix_bind (leavesSuffix_map (leavesSuffix_hostLoad 1) _) fun tag ↦
    leavesSuffix_map (fun bs len rest h ↦ ?_) _
  obtain ⟨marked, v, rfl, -⟩ := readVlen_inv h
  exact (List.suffix_cons v rest).trans (List.suffix_append ..)

theorem leavesSuffix_decConfig (d : Mp4DecoderConfigDescriptor) : LeavesSuffix d.decode := by
  have hinfo : LeavesSuffix Mp4DecoderSpecificInfo.decode :=
    leavesSuffix_bind leavesSuffix_base fun _ ↦ leavesSuffix_map (leavesSuffix_readString _) _
  exact leavesSuffix_bind leavesSuffix_base fun _ ↦
    leavesSuffix_bind (leavesSuffix_map (leavesSuffix_hostLoad 1) _) fun _ ↦
    leavesSuffix_bind (leavesSuffix_map (leavesSuffix_hostLoad 1) _) fun _ ↦
    leavesSuffix_bind leavesSuffix_read3 fun _ ↦
    leavesSuffix_bind (leavesSuffix_map (leavesSuffix_hostLoad 4) _) fun _ ↦
    leavesSuffix_bind (leavesSuffix_map (leavesSuffix_hostLoad 4) _) fun _ ↦
    leavesSuffix_map (leavesSuffix_readIf (leavesSuffix_map hinfo _) _) _

/-- The last descriptor is decoded from an end of the bytes. -/
theorem esDescriptor_decode_inv {memory es : Mp4EsDescriptor} {bs rest : Bytes}
    (h : memory.decode bs = some (es, rest)) :
    ∃ last, last <:+ bs ∧ Mp4SLConfigDescriptor.decode last = some (es.slConfigDescr, rest) := by
  have hread1 : LeavesSuffix read1 := leavesSuffix_map (leavesSuffix_hostLoad 1) _
  have hread2 : LeavesSuffix read2 := leavesSuffix_map (leavesSuffix_hostLoad 2) _
  have hurl : LeavesSuffix readUrl := leavesSuffix_bind hread1 fun _ ↦ leavesSuffix_readString _
  obtain ⟨esId, bs₁, h₁, h⟩ := bind_eq_some.mp h
  obtain ⟨v, bs₂, h₂, h⟩ := bind_eq_some.mp h
  obtain ⟨dependsOnEsId, bs₃, h₃, h⟩ := bind_eq_some.mp h
  obtain ⟨urlString, bs₄, h₄, h⟩ := bind_eq_some.mp h
  obtain ⟨ocrEsId, bs₅, h₅, h⟩ := bind_eq_some.mp h
  obtain ⟨decConfigDescr, bs₆, h₆, h⟩ := bind_eq_some.mp h
  obtain ⟨slConfigDescr, bs₇, h₇, h⟩ := bind_eq_some.mp h
  obtain ⟨rfl, rfl⟩ := pure_eq_some.mp h
  refine ⟨bs₆, ?_, h₇⟩
  have hs₆ := leavesSuffix_decConfig _ _ _ _ h₆
  have hs₅ := leavesSuffix_readIf hread2 _ _ _ _ h₅
  have hs₄ := leavesSuffix_readIf hurl _ _ _ _ h₄
  have hs₃ := leavesSuffix_readIf hread2 _ _ _ _ h₃
  have hs₂ := hread1 _ _ _ h₂
  have hs₁ := hread2 _ _ _ h₁
  exact hs₆.trans (hs₅.trans (hs₄.trans (hs₃.trans (hs₂.trans hs₁))))

/-- Every tag of the enumeration is below 128. -/
structure EsdsBox.Fits (b : EsdsBox) : Prop where
  full : FullBox.Fits b.toFullBox
  tag : b.es.slConfigDescr.tag.toNat < 128

theorem slConfig_fill (d : Mp4SLConfigDescriptor) (old : Bytes) :
    d.sized.encode.fill old = [UInt8.ofNat d.tag.toNat, 1, UInt8.ofNat d.predefined.toNat] := by
  have hone : vlenBytes 1 = [1] := by
    rw [vlenBytes, if_neg (by decide), show 1 / 128 = 0 from rfl, vlenBytes, if_pos rfl]
    rfl
  change putBE 1 d.tag.toNat ++ (vlenBytes 1 ++ []) ++ (putBE 1 d.predefined.toNat ++ []) = _
  rw [hone]
  simp [putBE]

theorem read1_inv {bs rest : Bytes} {v : BitVec 8} (h : read1 bs = some (v, rest)) :
    ∃ c, bs = c :: rest := by
  obtain ⟨n, mid, hload, h⟩ := bind_eq_some.mp h
  obtain ⟨-, rfl⟩ := pure_eq_some.mp h
  cases bs with
  | nil => simp [hostLoad] at hload
  | cons c bs =>
    simp only [hostLoad, List.length_cons, Nat.not_lt_of_le (Nat.le_add_left 1 bs.length), if_false,
      Option.some.injEq, Prod.mk.injEq] at hload
    exact ⟨c, congrArg (c :: ·) hload.2⟩

/-- A length of one byte is decoded as 0. -/
theorem slConfig_decode_vlen {last front : Bytes} {tag pre : UInt8} {sl : Mp4SLConfigDescriptor}
    (htag : tag.toNat < 128) (hsuffix : last <:+ front ++ [tag, 1, pre])
    (h : Mp4SLConfigDescriptor.decode last = some (sl, [])) : sl.vlen = 0 := by
  obtain ⟨base, mid, hbase, h⟩ := bind_eq_some.mp h
  obtain ⟨predefined, mid', hpre, h⟩ := bind_eq_some.mp h
  obtain ⟨rfl, rfl⟩ := pure_eq_some.mp h
  obtain ⟨t, mid₁, hread, hbase⟩ := bind_eq_some.mp hbase
  obtain ⟨len, mid₂, hlen, hbase⟩ := bind_eq_some.mp hbase
  obtain ⟨rfl, rfl⟩ := pure_eq_some.mp hbase
  obtain ⟨marked, v, rfl, hmarked, hzero⟩ := readVlen_inv hlen
  obtain ⟨c, rfl⟩ := read1_inv hread
  obtain ⟨e, rfl⟩ := read1_inv hpre
  apply hzero
  -- a byte with a mark would stand where the tag is
  rcases List.eq_nil_or_concat marked with hnil | ⟨init, m, hinit⟩
  · exact hnil
  · exfalso
    subst hinit
    obtain ⟨before, hbefore⟩ := hsuffix
    have hcut : (before ++ c :: init) ++ [m, v, e] = front ++ [tag, 1, pre] := by
      rw [← hbefore]
      simp
    have hm : m = tag := (List.cons.inj (List.append_inj' hcut rfl).2).1
    have hmark := hmarked m (by simp)
    rw [hm] at hmark
    omega

theorem EsdsBox.not_reads {b : EsdsBox} (hb : EsdsBox.Fits b) (memory : EsdsBox) :
    ¬ Reads memory.decode b.encode (EsdsBox.restored memory b) := by
  intro h
  have hbody := (reads_emit hb.full.flags).mp h (List.replicate (seqs [b.es.sized.encode]).size 0)
    (le_of_eq List.length_replicate.symm) []
  rw [List.append_nil] at hbody
  obtain ⟨es, mid, hes, hbody⟩ := bind_eq_some.mp hbody
  obtain ⟨heq, rfl⟩ := pure_eq_some.mp hbody
  have hvlen : es.slConfigDescr.vlen = 1 := by
    have h := congrArg (fun b : EsdsBox ↦ b.es.slConfigDescr.vlen) heq
    exact h
  have hends : EndsWith (seqs [b.es.sized.encode]) b.es.slConfigDescr.sized.encode :=
    (endsWith_seqs [] _).trans (endsWith_seqs [_, _, _, _, _, _, _] _)
  obtain ⟨front, old, hfill, -⟩ := hends _ (le_of_eq List.length_replicate.symm)
  obtain ⟨last, hsuffix, hlast⟩ := esDescriptor_decode_inv hes
  rw [hfill, slConfig_fill] at hsuffix
  have htag : (UInt8.ofNat b.es.slConfigDescr.tag.toNat).toNat < 128 := by
    rw [UInt8.toNat_ofNat']
    have := hb.tag
    omega
  rw [slConfig_decode_vlen htag hsuffix hlast] at hvlen
  exact absurd hvlen (by decide)

end Descriptors

section Boxes

inductive Mp4Box
  | mvhd (b : MvhdBox)
  | tkhd (b : TkhdBox)
  | mdhd (b : MdhdBox)
  | hdlr (b : HdlrBox)
  | sidx (b : SidxBox)
  | trun (b : TrunBox)
  | tfhd (b : TfhdBox)
  | tfdt (b : TfdtBox)
  | stsz (b : StszBox)
  | esds (b : EsdsBox)

namespace Mp4Box

def Fits : Mp4Box → Prop
  | .mvhd b => MvhdBox.Fits b
  | .tkhd b => TkhdBox.Fits b
  | .mdhd b => MdhdBox.Fits b
  | .hdlr b => HdlrBox.Fits b
  | .sidx b => SidxBox.Fits b
  | .trun b => TrunBox.Fits b
  | .tfhd b => TfhdBox.Fits b
  | .tfdt b => TfdtBox.Fits b
  | .stsz b => StszBox.Fits b
  | .esds b => EsdsBox.Fits b

/-- Whatever a box held before, what `b` was encoded to restores `b` in it. Lists are
decoded into a box that has none. -/
def DecodesBack : Mp4Box → Prop
  | .mvhd b => ∀ memory : MvhdBox, Reads memory.decode b.encode (MvhdBox.restored memory b)
  | .tkhd b => ∀ memory : TkhdBox, Reads memory.decode b.encode (TkhdBox.restored memory b)
  | .mdhd b => ∀ memory : MdhdBox, Reads memory.decode b.encode (MdhdBox.restored memory b)
  | .hdlr b => HdlrBox.DecodesBack b
  | .sidx b => ∀ memory : SidxBox, memory.entries = [] →
      Reads memory.decode b.encode (SidxBox.restored memory b)
  | .trun b => ∀ (memory : TrunBox) (e : TrunEntry), memory.entries = [] →
      Reads (memory.decode e) b.encode (TrunBox.restored memory e b)
  | .tfhd b => ∀ memory : TfhdBox, Reads memory.decode b.encode (TfhdBox.restored memory b)
  | .tfdt b => ∀ memory : TfdtBox, Reads memory.decode b.encode (TfdtBox.restored memory b)
  | .stsz b => ∀ memory : StszBox, memory.entrySizes = [] →
      Reads memory.decode b.encode (StszBox.restored memory b)
  | .esds b => ∀ memory : EsdsBox, Reads memory.decode b.encode (EsdsBox.restored memory b)

def Undamaged : Mp4Box → Prop
  | .mvhd b => b.version = 0 ∧ b.volume = 0
  | .tkhd b => b.layer = 0 ∧ b.alternateGroup = 0 ∧ b.volume = 0
  | .mdhd b => b.language = 0 ∧ b.preDefined = 0
  | .hdlr _ => False
  | .sidx b => b.entries = []
  | .trun b => b.entries.length < 2 ^ 31
  | .tfhd _ => True
  | .tfdt _ => True
  | .stsz b => b.sampleSize = 0 ∨ b.entrySizes = []
  | .esds _ => False

end Mp4Box

theorem decode_undoes_encode_iff (b : Mp4Box) (hb : b.Fits) : b.DecodesBack ↔ b.Undamaged := by
  cases b with
  | mvhd b => exact MvhdBox.reads_iff hb
  | tkhd b => exact TkhdBox.reads_iff hb
  | mdhd b => exact MdhdBox.reads_iff hb
  | hdlr b => exact iff_false_intro (HdlrBox.not_decodesBack hb)
  | sidx b => exact SidxBox.reads_iff hb
  | trun b => exact TrunBox.reads_iff hb
  | tfhd b => exact iff_true_intro fun memory ↦ TfhdBox.reads hb memory
  | tfdt b => exact iff_true_intro fun memory ↦ TfdtBox.reads hb memory
  | stsz b => exact StszBox.reads_iff hb
  | esds b => exact iff_false_intro fun h ↦ EsdsBox.not_reads hb default (h default)

def loudMvhd : MvhdBox := { MvhdBox.new default with volume := 0x0100 }

theorem loudMvhd_fits : MvhdBox.Fits loudMvhd :=
  ⟨⟨.inl rfl, by decide⟩, .inr (by decide), .inr (by decide), .inr (by decide)⟩

theorem decode_loses_volume :
    MvhdBox.Fits loudMvhd ∧ ¬ (Mp4Box.mvhd loudMvhd).DecodesBack := by
  refine ⟨loudMvhd_fits, fun h ↦ ?_⟩
  have heq := (h default).unique (MvhdBox.reads loudMvhd_fits rfl default)
  exact absurd (congrArg MvhdBox.volume heq) (by decide)

theorem decode_undoes_encode_default :
    (Mp4Box.mvhd (.new default)).DecodesBack ∧
      (Mp4Box.tfhd (.new default 0x20038)).DecodesBack := by
  have hmvhd : MvhdBox.Fits (.new default) :=
    ⟨⟨.inl rfl, by decide⟩, .inr (by decide), .inr (by decide), .inr (by decide)⟩
  have htfhd : TfhdBox.Fits (.new default 0x20038) := ⟨⟨.inl rfl, by decide⟩⟩
  exact ⟨(decode_undoes_encode_iff (.mvhd (.new default)) hmvhd).mpr ⟨rfl, rfl⟩,
    (decode_undoes_encode_iff (.tfhd (.new default 0x20038)) htfhd).mpr trivial⟩

end Boxes

end MmsServer.Mp4.RoundTrip
