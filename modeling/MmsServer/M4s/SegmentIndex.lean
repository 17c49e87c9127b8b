import MmsServer.M4s.MediaSegment

namespace MmsServer.M4s.SegmentIndex

open Lib.ByteReader Lib.Checked Lib.ByteLayout Lib.ByteLayout.Layout Mp4.Base Mp4.MovieBoxes
  Mp4.FragmentBoxes Rtmp.FlvTag InitSegment MediaSegment

section Bytes

/-- Each box is encoded into the view that `alloc_buffer` returns for it; the
result is what stands in the views behind that. -/
def writeBoxes : List AnyBox → List Bytes → Outcome (List Bytes)
  | b :: boxes, view :: views => do
    let buf ← b.encode.write ⟨[], view⟩
    let rest ← writeBoxes boxes views
    return (buf.written ++ buf.left) :: rest
  | _, _ => .ok []

def Fits (boxes : List AnyBox) (views : List Bytes) : Prop :=
  List.Forall₂ (fun b view ↦ (view.length : ℤ) = b.size) boxes views

/-- What `fragment` and `index` say about the data of a segment: `moof` is followed
by `mdat`, and offsets are counted from the start of `moof`. -/
structure Describes (frames : List Bytes) (moof mdat : Bytes) (fragment : TrunBox)
    (index : SegmentIndexEntry) : Prop where
  dataOffset : fragment.dataOffset.toInt = moof.length + 8
  samples : (fragment.entries.map fun e ↦ e.sampleSize.toNat).splitLengths
    ((moof ++ mdat).drop fragment.dataOffset.toNat) = frames
  payload : mdat.drop 8 = frames.flatten
  size : (fragment.entries.map fun e ↦ e.sampleSize.toNat).sum + 8 = fromBE (mdat.take 4)
  whole : fromBE (mdat.take 4) = mdat.length
  referencedSize : index.referencedSize.toNat = moof.length + mdat.length

/-- The last box of `moof` is a `trun` and the last part of `sidx` an entry, and what
is decoded from them describes the data. -/
def IndexesData (frames : List Bytes) (boxes : List AnyBox) : Prop :=
  ∀ views, Fits boxes views → ∃ styp sidx moof mdat,
    writeBoxes boxes views = .ok [styp, sidx, moof, mdat] ∧
    ∃ moofHead trunBytes sidxHead entryBytes, moof = moofHead ++ trunBytes ∧
      sidx = sidxHead ++ entryBytes ∧
      ∀ (memory : TrunBox) (e : TrunEntry), memory.entries = [] → ∃ fragment index,
        memory.decode e trunBytes = some (fragment, []) ∧
        fragment.type = boxType 't' 'r' 'u' 'n' ∧
        SegmentIndexEntry.decode entryBytes = some (index, []) ∧
        Describes frames moof mdat fragment index

theorem writeBoxes_ok {boxes : List AnyBox} {views : List Bytes} (h : Fits boxes views)
    (hsound : ∀ b ∈ boxes, b.Sound) (hlt : ∀ b ∈ boxes, b.size < maxSize) :
    writeBoxes boxes views = .ok (List.zipWith (fun b view ↦ b.encode.fill view) boxes views) := by
  induction h with
  | nil => rfl
  | @cons b view boxes views hview hviews ih =>
    rw [List.forall_mem_cons] at hsound hlt
    have hsize := (hsound.1.exact hlt.1).size
    have hroom : b.encode.size = view.length := by omega
    rw [writeBoxes, write_ok b.encode ⟨[], view⟩ (by dsimp only; omega), ih hsound.2 hlt.2,
      Outcome.ok_bind, Outcome.ok_bind]
    simp only [hroom, List.drop_length, List.append_nil, List.nil_append, List.zipWith_cons_cons,
      Outcome.pure_eq]

end Bytes

section Header

theorem videoError_le {data : Bytes} {e : ℤ} (h : VideoTagHeader.decode data = .error e) : e ≤ 0 := by
  unfold VideoTagHeader.decode VideoTagHeader.decodeExt at h
  grind

theorem audioError_lt {data : Bytes} {e : ℤ} (h : AudioTagHeader.decode data = .error e) : e < 0 := by
  unfold AudioTagHeader.decode at h
  grind

theorem videoHeader_le (payload : Bytes) : (videoHeader payload).1 ≤ payload.length := by
  unfold videoHeader
  split
  · rename_i header consumed hd
    obtain ⟨bytes, rest, -, hlen, hdata⟩ := videoTagHeader_inv hd le_rfl
    rw [hdata, List.length_append]
    omega
  · rename_i e hd
    have := videoError_le hd
    dsimp only
    omega

theorem audioHeader_le (payload : Bytes) : (audioHeader payload).1 ≤ payload.length := by
  unfold audioHeader
  split
  · rename_i header consumed hd
    obtain ⟨hlen, hdata⟩ := audioTagHeader_inv hd
    rw [hdata, List.length_append]
    omega
  · rename_i e hd
    have := audioError_lt hd
    dsimp only
    omega

end Header

section Sizes

variable {t : Track}

theorem length_frameData (hle : ∀ bs, (t.header bs).1 ≤ bs.length) {p : Packet}
    (hp : 0 ≤ t.headerConsumed p) :
    ((t.frameData p).length : ℤ) = p.payload.length - t.headerConsumed p := by
  have h : t.headerConsumed p ≤ p.payload.length := hle p.payload
  rw [Track.frameData, List.length_drop]
  omega

theorem toNat_ofInt {k : ℤ} (h0 : 0 ≤ k) (hlt : k < 2 ^ 32) : ((BitVec.ofInt 32 k).toNat : ℤ) = k := by
  rw [BitVec.toNat_ofInt, Int.toNat_of_nonneg (by omega)]
  omega

/-- The sizes in the `trun` are those of the frames. -/
theorem trunEntries_sizes (hle : ∀ bs, (t.header bs).1 ≤ bs.length) (dts : BitVec 64)
    (flags : BitVec 32) {pkts : List Packet} (hdec : ∀ p ∈ pkts, 0 ≤ t.headerConsumed p)
    (hlt : (pkts.map fun p ↦ (t.frameData p).length).sum < 2 ^ 32) :
    ((t.trunEntries dts flags pkts).map fun e ↦ e.sampleSize.toNat) =
      pkts.map fun p ↦ (t.frameData p).length := by
  induction pkts generalizing flags with
  | nil => rfl
  | cons p ps ih =>
    rw [List.forall_mem_cons] at hdec
    rw [List.map_cons, List.sum_cons] at hlt
    have hframe := length_frameData hle hdec.1
    have hsize := toNat_ofInt (k := p.payload.length - t.headerConsumed p) (by omega) (by omega)
    rw [Track.trunEntries, List.map_cons, List.map_cons, ih 0x01000000 hdec.2 (by omega)]
    congr 1
    dsimp only
    omega

theorem sum_map_cast {α : Type} (f : α → ℕ) (as : List α) :
    (as.map fun a ↦ (f a : ℤ)).sum = ((as.map f).sum : ℕ) := by
  induction as with
  | nil => rfl
  | cons a as ih =>
    rw [List.map_cons, List.sum_cons, List.map_cons, List.sum_cons, ih]
    exact (Int.natCast_add ..).symm

theorem splitLengths_flatten (frames : List Bytes) :
    (frames.map List.length).splitLengths frames.flatten = frames := by
  induction frames with
  | nil => rfl
  | cons f fs ih =>
    rw [List.map_cons, List.splitLengths_cons, List.flatten_cons, List.take_left' rfl,
      List.drop_left' rfl, ih]

theorem fill_datas (datas : List Bytes) (old : Bytes) :
    (each (fun data ↦ writeIf (data.isEmpty = false) (writeString data)) datas).fill old =
      datas.flatten := by
  induction datas generalizing old with
  | nil => rfl
  | cons data datas ih =>
    have hdata : (writeIf (data.isEmpty = false) (writeString data)).fill old = data := by
      cases data <;> rfl
    rw [List.flatten_cons, ← ih (old.drop _)]
    exact congrArg (· ++ _) hdata

/-- The bytes of `mdat`: the size, the type and the frames. -/
theorem fill_mdat {b : MdatBox} (h : b.toBox.Fresh) (hlt : b.size < maxSize) (old : Bytes) :
    b.encode.fill old = putBE 4 b.size.toNat ++ (putBE 4 b.type.toNat ++ b.datas.flatten) := by
  have hsize : b.size = 8 + (b.datas.map fun data ↦ (data.length : ℤ)).sum := by
    rw [MdatBox.size, h.size_eq]
  have h8 : 8 ≤ b.size := by
    rw [hsize, sum_map_cast]
    omega
  rw [MdatBox.encode, Box.emit, encode_updateSize h8 hlt h.type]
  simp only [seqs_cons, seqs_nil, Layout.fill, fill_datas, write4, List.append_nil,
    List.append_assoc]

end Sizes

section Index

theorem container_endsWith (b : Box) (boxes : List AnyBox) (c : AnyBox) :
    EndsWith (container b (boxes ++ [c])).encode c.encode :=
  (endsWith_seqs [_] (each AnyBox.encode (boxes ++ [c]))).trans (endsWith_each AnyBox.encode boxes c)

variable (t : Track) (m : SegmentMemory)

theorem moofBox_endsWith (seqNo : BitVec 64) (p : Packet) (trun : TrunBox) :
    EndsWith (t.moofBox m seqNo p trun).any.encode trun.encode :=
  (container_endsWith _ [_] _).trans (container_endsWith _ [_, _] trun.any)

theorem sidxBox_endsWith (p : Packet) (ps : List Packet) (dts : BitVec 64) (size : BitVec 32) :
    EndsWith (t.sidxBox m p ps dts size).encode
      (sidxEntry ((t.indexEnd (ps.getLastD p) dts - p.time).setWidth 32) size).encode :=
  (endsWith_seqs [_, _, _, _, _, _] _).trans (endsWith_each SegmentIndexEntry.encode [] _)

/-- The size in the index is read back without its highest bit. -/
theorem sidxEntry_referencedSize (duration : BitVec 32) {size : BitVec 32} (h : size.toNat < 2 ^ 31)
    (v w : BitVec 32) :
    (SegmentIndexEntry.ofWords (sidxEntry duration size).reference v w).referencedSize = size := by
  have hmask : size &&& 0x7fffffff = size := by
    apply BitVec.eq_of_toNat_eq
    rw [BitVec.toNat_and]
    exact (Nat.and_two_pow_sub_one_eq_mod size.toNat 31).trans (Nat.mod_eq_of_lt h)
  have href : (sidxEntry duration size).reference = size &&& 0x7fffffff := by
    simp [SegmentIndexEntry.reference, sidxEntry]
  rw [href, hmask]
  exact hmask

variable {t m}

def frameBytes (t : Track) (pkts : List Packet) : ℕ := (pkts.map fun p ↦ (t.frameData p).length).sum

theorem mdatBox_size (hm : Uncached m.boxes) (pkts : List Packet) :
    (t.mdatBox m pkts).size = 8 + frameBytes t pkts := by
  rw [MdatBox.size, (mdatBox_fresh t hm pkts).size_eq, sum_map_cast, Track.mdatBox, List.map_map]
  rfl

/-- The size of the `moof` does not depend on the offset in it. -/
theorem moofBox_size (seqNo : BitVec 64) (p : Packet) (trun : TrunBox) (offset : BitVec 32) :
    (t.moofBox m seqNo p { trun with dataOffset := offset }).any.size =
      (t.moofBox m seqNo p trun).any.size := rfl

/-- The offset and the size that are filled in. -/
theorem reapSeg_eq (hm : Uncached m.boxes) (hle : ∀ bs, (t.header bs).1 ≤ bs.length)
    (seqNo : BitVec 64) {p : Packet} {ps : List Packet} (dts : BitVec 64)
    (hdec : ∀ q ∈ p :: ps, 0 ≤ t.headerConsumed q) (hlt : frameBytes t (p :: ps) < 2 ^ 32) :
    t.reapSeg m seqNo p ps dts =
      let trun := t.trunBox m (p :: ps) dts
      let moofBytes := (t.moofBox m seqNo p trun).any.size
      { styp := stypBox m
        sidx := t.sidxBox m p ps dts (BitVec.ofInt 32 (moofBytes + (t.mdatBox m (p :: ps)).size))
        moof := t.moofBox m seqNo p { trun with dataOffset := BitVec.ofInt 32 (moofBytes + 8) }
        mdat := t.mdatBox m (p :: ps) } := by
  have hbytes : ((t.trunBox m (p :: ps) dts).entries.map fun e ↦ (e.sampleSize.toNat : ℤ)).sum =
      frameBytes t (p :: ps) := by
    rw [sum_map_cast]
    exact congrArg (fun ns : List ℕ ↦ (ns.sum : ℤ)) (trunEntries_sizes hle dts 0x02000000 hdec hlt)
  have hsize := mdatBox_size (t := t) hm (p :: ps)
  simp only [Track.reapSeg, hbytes, hsize, Int.add_assoc, Int.add_sub_cancel]

theorem count_le_size {b : TrunBox} (hflags : b.flags = trunFlags) :
    b.entries.length ≤ b.encode.size := by
  have hentry (e : TrunEntry) : (e.encode b.flags).size = 16 := by
    have h := TrunEntry.size_encode b.flags e
    rw [hflags, show TrunEntry.size trunFlags = 16 by decide] at h
    rw [hflags]
    omega
  have heach : EndsWith b.encode (each (TrunEntry.encode b.flags) b.entries) :=
    endsWith_seqs [_, _, _, _] _
  have hle := heach.size_le
  rw [size_each_const hentry] at hle
  omega

theorem describes_of_offset {frames : List Bytes} {moof mdat : Bytes} {fragment : TrunBox}
    {index : SegmentIndexEntry} {type : ℕ}
    (hoffset : fragment.dataOffset = BitVec.ofInt 32 (moof.length + 8))
    (hsizes : (fragment.entries.map fun e ↦ e.sampleSize.toNat) = frames.map List.length)
    (hmdat : mdat = putBE 4 mdat.length ++ (putBE 4 type ++ frames.flatten))
    (hindex : index.referencedSize.toNat = moof.length + mdat.length)
    (hlt : moof.length + mdat.length < 2 ^ 31) : Describes frames moof mdat fragment index := by
  have hlen : mdat.length = 8 + frames.flatten.length := by
    have h := congrArg List.length hmdat
    simp only [List.length_append, putBE_length] at h
    omega
  have hnat : fragment.dataOffset.toNat = moof.length + 8 := by
    have h := toNat_ofInt (k := moof.length + 8) (by omega) (by omega)
    rw [hoffset]
    omega
  have hpayload : mdat.drop 8 = frames.flatten := by
    rw [hmdat, ← List.append_assoc]
    exact List.drop_left' (by simp [putBE_length])
  have hfield : fromBE (mdat.take 4) = mdat.length := by
    rw [hmdat, List.take_left' (putBE_length ..), fromBE_putBE, ← hmdat]
    exact Nat.mod_eq_of_lt (by omega)
  refine ⟨?_, ?_, hpayload, ?_, hfield, hindex⟩
  · rw [BitVec.toInt_eq_toNat_of_lt (by omega), hnat]
    omega
  · rw [hnat, List.drop_append, List.drop_eq_nil_of_le (by omega), List.nil_append,
      Nat.add_sub_cancel_left, hpayload, hsizes, splitLengths_flatten]
  · rw [hsizes, hfield, hlen, List.length_flatten]
    omega

/-- What is read from the `trun` of a segment. -/
theorem readInto_trunBox {memory trun : TrunBox} (e : TrunEntry) (hmem : memory.entries = [])
    (hflags : trun.flags = trunFlags) :
    (memory.readInto e trun).type = trun.type ∧
      (memory.readInto e trun).dataOffset = trun.dataOffset ∧
      ((memory.readInto e trun).entries.map fun e ↦ e.sampleSize.toNat) =
        trun.entries.map fun e ↦ e.sampleSize.toNat := by
  have hoffset : HasFlag trunFlags trunDataOffset := by decide
  have hsize : HasFlag trunFlags trunSampleSize := by decide
  have htype : (trun.toFullBox.updateSize trun.size).type = trun.type := trun.toBox.updateSize_type _
  refine ⟨htype, ?_, ?_⟩
  · simp only [TrunBox.readInto, hflags, if_pos hoffset]
  · simp only [TrunBox.readInto, hmem, List.nil_append, List.map_map, hflags]
    apply List.map_congr_left
    intro entry _
    simp only [Function.comp_apply, TrunEntry.readInto, if_pos hsize]

/-- Four boxes, the third of which ends with `trun` and the second with `entry`. -/
theorem indexesData_of_boxes {styp sidx moof : AnyBox} {mdat : MdatBox} {trun : TrunBox}
    {frames : List Bytes} {duration referencedSize : BitVec 32}
    (hsound : ∀ b ∈ [styp, sidx, moof, mdat.any], b.Sound)
    (hlt : sizes [styp, sidx, moof, mdat.any] < 2 ^ 31)
    (hmoof : EndsWith moof.encode trun.encode)
    (hsidx : EndsWith sidx.encode (sidxEntry duration referencedSize).encode)
    (htype : trun.type = boxType 't' 'r' 'u' 'n') (hflags : trun.flags = trunFlags)
    (hcount : trun.entries.length < 2 ^ 31)
    (hoffset : trun.dataOffset = BitVec.ofInt 32 (moof.size + 8))
    (hsizes : (trun.entries.map fun e ↦ e.sampleSize.toNat) = frames.map List.length)
    (hreferenced : referencedSize = BitVec.ofInt 32 (moof.size + mdat.size))
    (hfresh : mdat.toBox.Fresh) (hdatas : mdat.datas = frames) :
    IndexesData frames [styp, sidx, moof, mdat.any] := by
  have hmax (b : AnyBox) (hb : b ∈ [styp, sidx, moof, mdat.any]) : b.size < maxSize := by
    have hle := size_le_sizes hsound hb
    rw [maxSize]
    omega
  intro views hviews
  have hwrite := writeBoxes_ok hviews hsound hmax
  obtain _ | @⟨_, v₁, _, _, h₁, _ | @⟨_, v₂, _, _, h₂, _ | @⟨_, v₃, _, _, h₃, _ | @⟨_, v₄, _, _, h₄, ⟨⟩⟩⟩⟩⟩ :=
    hviews
  rw [List.forall_mem_cons, List.forall_mem_cons, List.forall_mem_cons, List.forall_mem_singleton]
    at hsound hmax
  obtain ⟨hs₁, hs₂, hs₃, hs₄⟩ := hsound
  obtain ⟨hm₁, hm₂, hm₃, hm₄⟩ := hmax
  have hn₁ := hs₁.nonneg
  have hn₂ := hs₂.nonneg
  have hn₃ := hs₃.nonneg
  have hn₄ := hs₄.nonneg
  have he₂ := (hs₂.exact hm₂).size
  have he₃ := (hs₃.exact hm₃).size
  have he₄ := (hs₄.exact hm₄).size
  have hl₃ : (moof.encode.fill v₃).length = moof.encode.size := moof.encode.fill_length (by omega)
  have hl₄ : (mdat.any.encode.fill v₄).length = mdat.any.encode.size :=
    mdat.any.encode.fill_length (by omega)
  simp only [sizes_cons, sizes_nil] at hlt
  obtain ⟨moofHead, old₃, hfill₃, hold₃⟩ := hmoof v₃ (by omega)
  obtain ⟨sidxHead, old₂, hfill₂, hold₂⟩ := hsidx v₂ (by omega)
  refine ⟨_, _, _, _, hwrite, moofHead, _, sidxHead, _, hfill₃, hfill₂, fun memory e hmem ↦ ?_⟩
  have htrun := TrunBox.reads memory e (by rw [hflags]; decide) hcount old₃ hold₃ []
  have hentry := SegmentIndexEntry.reads (sidxEntry duration referencedSize) old₂ hold₂ []
  rw [List.append_nil] at htrun hentry
  have hsize : mdat.any.size = mdat.size := rfl
  obtain ⟨hreadType, hreadOffset, hreadSizes⟩ := readInto_trunBox e hmem hflags
  have hnat := toNat_ofInt (k := moof.size + mdat.size) (by omega) (by omega)
  rw [← hreferenced] at hnat
  refine ⟨_, _, htrun, hreadType.trans htype, hentry, ?_⟩
  apply describes_of_offset
  · rw [hreadOffset, hoffset, hl₃, he₃]
  · rw [hreadSizes, hsizes]
  · rw [hl₄, show mdat.any.encode.size = mdat.size.toNat by omega, ← hdatas]
    exact fill_mdat hfresh hm₄ v₄
  · rw [sidxEntry_referencedSize duration (by omega), hl₃, hl₄]
    omega
  · rw [hl₃, hl₄]
    omega

theorem reapSeg_indexesData (hm : Uncached m.boxes) (hle : ∀ bs, (t.header bs).1 ≤ bs.length)
    (seqNo : BitVec 64) {p : Packet} {ps : List Packet} (dts : BitVec 64)
    (hdec : ∀ q ∈ p :: ps, 0 ≤ t.headerConsumed q)
    (hlt : sizes (t.reapSeg m seqNo p ps dts).boxes < 2 ^ 31) :
    IndexesData ((p :: ps).map t.frameData) (t.reapSeg m seqNo p ps dts).boxes := by
  have hsound := reapSeg_sound t hm seqNo p ps dts
  have hmdat : (t.mdatBox m (p :: ps)).size < 2 ^ 31 :=
    lt_of_le_of_lt (size_le_sizes hsound (b := (t.mdatBox m (p :: ps)).any)
      (by simp [DataSegment.boxes, Track.reapSeg])) hlt
  have hsize := @moofBox_size t m seqNo p (t.trunBox m (p :: ps) dts)
  have hmoof : (t.moofBox m seqNo p (t.trunBox m (p :: ps) dts)).any.size < 2 ^ 31 := by
    have hmem : (t.reapSeg m seqNo p ps dts).moof.any ∈ (t.reapSeg m seqNo p ps dts).boxes := by
      simp [DataSegment.boxes]
    have hle := size_le_sizes hsound hmem
    rw [Track.reapSeg, hsize] at hle
    exact hle.trans_lt hlt
  have hframes := mdatBox_size (t := t) hm (p :: ps)
  have hcount : (t.trunBox m (p :: ps) dts).entries.length < 2 ^ 31 := by
    have hsize := ((moofBox_sound t hm seqNo p (trunBox_fresh t hm (p :: ps) dts)).exact
      (by rw [maxSize]; omega)).size
    have hle := (moofBox_endsWith t m seqNo p (t.trunBox m (p :: ps) dts)).size_le
    have hentries := count_le_size (b := t.trunBox m (p :: ps) dts) rfl
    omega
  have hentrySizes := trunEntries_sizes hle dts 0x02000000 hdec (by rw [← frameBytes]; omega)
  have htype : (t.trunBox m (p :: ps) dts).type = boxType 't' 'r' 'u' 'n' := rfl
  have hflags : (t.trunBox m (p :: ps) dts).flags = trunFlags := rfl
  have hsizes := hentrySizes.trans (List.map_map (f := t.frameData) (g := List.length)).symm
  have hfresh := mdatBox_fresh t hm (p :: ps)
  have hdatas : (t.mdatBox m (p :: ps)).datas = (p :: ps).map t.frameData := rfl
  rw [reapSeg_eq hm hle seqNo dts hdec (by omega)] at hsound hlt ⊢
  refine indexesData_of_boxes hsound hlt (moofBox_endsWith t m seqNo p _)
    (sidxBox_endsWith t m p ps dts _) htype hflags hcount ?_ hsizes ?_ hfresh hdatas
  · exact congrArg (fun n : ℤ ↦ BitVec.ofInt 32 (n + 8)) (hsize _).symm
  · exact congrArg (fun n : ℤ ↦ BitVec.ofInt 32 (n + _)) (hsize _).symm

/-- The packets of a segment are `p` and those behind it, with tag headers that
decode; the buffers have the sizes that were asked for. -/
theorem segments_index_data (hm : Uncached m.boxes) (seqNo : BitVec 64) (p : Packet) (ps : List Packet)
    (dts : BitVec 64) :
    ((∀ q ∈ p :: ps, 0 ≤ videoTrack.headerConsumed q) →
      sizes (reapVideoSeg m seqNo p ps dts).boxes < 2 ^ 31 →
      IndexesData ((p :: ps).map videoTrack.frameData) (reapVideoSeg m seqNo p ps dts).boxes) ∧
    ((∀ q ∈ p :: ps, 0 ≤ audioTrack.headerConsumed q) →
      sizes (reapAudioSeg m seqNo p ps dts).boxes < 2 ^ 31 →
      IndexesData ((p :: ps).map audioTrack.frameData) (reapAudioSeg m seqNo p ps dts).boxes) :=
  ⟨fun hdec hlt ↦ reapSeg_indexesData hm videoHeader_le seqNo dts hdec hlt,
    fun hdec hlt ↦ reapSeg_indexesData hm audioHeader_le seqNo dts hdec hlt⟩

theorem segments_index_data_cleared :
    IndexesData [[0xaa, 0xbb], [0xcc]] (reapVideoSeg default 1 ⟨0, [0x17, 1, 0, 0, 0, 0xaa, 0xbb]⟩
      [⟨40, [0x27, 1, 0, 0, 0, 0xcc]⟩] 80).boxes ∧
    IndexesData [[0xaa]] (reapAudioSeg default 1 ⟨0, [0xaf, 1, 0xaa]⟩ [] 23).boxes :=
  ⟨(segments_index_data (by decide) 1 _ _ 80).1 (by decide) (by decide),
    (segments_index_data (by decide) 1 _ _ 23).2 (by decide) (by decide)⟩

end Index

end MmsServer.M4s.SegmentIndex
