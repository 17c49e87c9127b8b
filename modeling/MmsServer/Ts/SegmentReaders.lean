import MmsServer.Lib.ChunkedMemory
import MmsServer.Ts.Segment

namespace MmsServer.Ts.SegmentReaders

open Lib.ChunkedMemory Segment

def extentOf (slot : Slot) : Extent := ⟨slot.chunk, slot.off, 188⟩

def placeOf (s : TsSegment) : ℕ := s.tsChunkIndex * singleTsBytes + s.tsChunkOff

def allocTsPackets : ℕ → TsSegment → List Slot × TsSegment
  | 0, s => ([], s)
  | n + 1, s =>
    let (slot, s) := s.allocTsPacket
    let (slots, s) := allocTsPackets n s
    (slot :: slots, s)

/-- `none` if a buffer would start outside of the chunks. -/
def tsSegLoop (s : TsSegment) (chunkIndex chunkOff : ℕ) (bytes : ℤ) : Option (List Extent) :=
  if 0 < bytes then
    if chunkIndex < s.tsChunks ∧ chunkOff ≤ singleTsBytes then
      let tsSegLeft := singleTsBytes - chunkOff
      if bytes < tsSegLeft then some [⟨chunkIndex, chunkOff, bytes.toNat⟩]
      else
        (tsSegLoop s (chunkIndex + 1) 0 (bytes - tsSegLeft)).map fun bufs ↦
          ⟨chunkIndex, chunkOff, tsSegLeft⟩ :: bufs
    else none
  else some []
termination_by s.tsChunks - chunkIndex

/-- The number of bytes is an `int32_t`. -/
def getTsSeg (s : TsSegment) (chunkIndex chunkOff : ℕ) (bytes : BitVec 32) : Option (List Extent) :=
  tsSegLoop s chunkIndex chunkOff bytes.toInt

/-- Every chunk but the last one is taken to be full. -/
def getTsData (s : TsSegment) : List Extent :=
  (List.range s.tsChunks).map fun i ↦
    ⟨i, 0, if i + 1 = s.tsChunks then s.tsChunkOff else singleTsBytes⟩

def getTsBytes (s : TsSegment) : ℕ := s.totalTsBytes

section Fresh

theorem one_chunk : 1 = 0 + 1 := rfl

theorem start_aligned : 188 ∣ 0 := Nat.dvd_zero 188

theorem start_le : 0 ≤ singleTsBytes := Nat.zero_le singleTsBytes

def emptySegment : TsSegment where
  chunks_eq := one_chunk
  aligned := start_aligned
  off_le := start_le

end Fresh

section Alloc

theorem alloc_start (s : TsSegment) : (extentOf s.allocTsPacket.1).start singleTsBytes =
    placeOf s := by
  have hoff := s.off_le
  unfold TsSegment.allocTsPacket extentOf Extent.start placeOf
  split
  · rename_i h
    simp only [Nat.le_antisymm hoff h, Nat.succ_mul, Nat.add_zero]
  · rfl

theorem alloc_place (s : TsSegment) :
    placeOf s.allocTsPacket.2 = placeOf s + 188 := by
  have hoff := s.off_le
  unfold TsSegment.allocTsPacket placeOf
  split
  · rename_i h
    rw [Nat.le_antisymm hoff h]
    simp only [Nat.succ_mul]
  · simp only [Nat.add_assoc]

theorem alloc_totalTsBytes (s : TsSegment) :
    s.allocTsPacket.2.totalTsBytes = s.totalTsBytes + 188 := by
  unfold TsSegment.allocTsPacket
  split <;> rfl

theorem allocTsPackets_add (n m : ℕ) (s : TsSegment) :
    allocTsPackets (n + m) s =
      ((allocTsPackets n s).1 ++ (allocTsPackets m (allocTsPackets n s).2).1,
        (allocTsPackets m (allocTsPackets n s).2).2) := by
  induction n generalizing s with
  | zero => rw [Nat.zero_add]; rfl
  | succ n ih =>
    rw [Nat.succ_add]
    simp only [allocTsPackets, ih, List.cons_append]

structure Allocated (s : TsSegment) (n : ℕ) (slots : List Slot) (s' : TsSegment) : Prop where
  chunks_le : s.tsChunks ≤ s'.tsChunks
  place_eq : placeOf s' = placeOf s + 188 * n
  totalTsBytes_eq : s'.totalTsBytes = s.totalTsBytes + 188 * n
  inside : ∀ slot ∈ slots, slot.Inside s'
  from_start : ∀ slot ∈ slots, placeOf s ≤ (extentOf slot).start singleTsBytes
  covers : Covers singleTsBytes (placeOf s) (188 * n) (slots.map extentOf)
  apart : (slots.map extentOf).Pairwise Extent.Apart

theorem allocTsPackets_allocated (n : ℕ) (s : TsSegment) :
    Allocated s n (allocTsPackets n s).1 (allocTsPackets n s).2 := by
  induction n generalizing s with
  | zero =>
    refine ⟨Nat.le_refl _, (Nat.add_zero (placeOf s)).symm, (Nat.add_zero _).symm, ?_, ?_,
      covers_nil _ _, List.Pairwise.nil⟩
    · intro slot h
      cases h
    · intro slot h
      cases h
  | succ n ih =>
    have hrest := ih s.allocTsPacket.2
    have hstart := alloc_start s
    have hplace := alloc_place s
    have hin := alloc_inside s
    refine ⟨Nat.le_trans (alloc_chunks_le s) hrest.chunks_le, ?_, ?_, ?_, ?_, ?_, ?_⟩
    · have h := hrest.place_eq
      rw [hplace] at h
      exact h.trans (by rw [Nat.mul_succ]; omega)
    · have h := hrest.totalTsBytes_eq
      rw [alloc_totalTsBytes] at h
      exact h.trans (by rw [Nat.mul_succ]; omega)
    · intro slot hslot
      obtain rfl | hslot := List.mem_cons.mp hslot
      · exact hin.mono hrest.chunks_le
      · exact hrest.inside slot hslot
    · intro slot hslot
      obtain rfl | hslot := List.mem_cons.mp hslot
      · exact hstart.ge
      · have h := hrest.from_start slot hslot
        omega
    · have hcov := hrest.covers
      rw [hplace] at hcov
      rw [Nat.mul_succ, Nat.add_comm]
      exact covers_cons hin.off_le hstart hcov
    · refine List.pairwise_cons.mpr ⟨?_, hrest.apart⟩
      intro e he
      obtain ⟨slot, hslot, rfl⟩ := List.mem_map.mp he
      have h := hrest.from_start slot hslot
      rw [hplace, ← hstart] at h
      exact apart_of_start_le h

end Alloc

section Readers

theorem tsSegLoop_nil (s : TsSegment) (chunkIndex chunkOff : ℕ) :
    tsSegLoop s chunkIndex chunkOff 0 = some [] := by
  unfold tsSegLoop
  rfl

/-- From any place on, the end of a chunk included, the loop finds the bytes as
long as there are chunks to hold them. -/
theorem tsSegLoop_spec (s : TsSegment) (chunkIndex chunkOff bytes : ℕ)
    (hoff : chunkOff ≤ singleTsBytes)
    (hfits : chunkIndex * singleTsBytes + chunkOff + bytes ≤ s.tsChunks * singleTsBytes) :
    ∃ bufs, tsSegLoop s chunkIndex chunkOff bytes = some bufs ∧
      (∀ buf ∈ bufs, buf.Fits singleTsBytes s.tsChunks) ∧
      Covers singleTsBytes (chunkIndex * singleTsBytes + chunkOff) bytes bufs := by
  induction hk : s.tsChunks - chunkIndex generalizing chunkIndex chunkOff bytes with
  | zero =>
    have hle : s.tsChunks ≤ chunkIndex := Nat.sub_eq_zero_iff_le.mp hk
    have hmul := Nat.mul_le_mul_right singleTsBytes hle
    obtain rfl : bytes = 0 := by omega
    refine ⟨[], tsSegLoop_nil s chunkIndex chunkOff, ?_, covers_nil _ _⟩
    intro buf h
    cases h
  | succ k ih =>
    by_cases h0 : bytes = 0
    · subst h0
      refine ⟨[], tsSegLoop_nil s chunkIndex chunkOff, ?_, covers_nil _ _⟩
      intro buf h
      cases h
    · have hidx : chunkIndex < s.tsChunks := by omega
      rw [tsSegLoop, if_pos (by omega), if_pos ⟨hidx, hoff⟩]
      by_cases hlt : bytes < singleTsBytes - chunkOff
      · refine ⟨[⟨chunkIndex, chunkOff, bytes⟩], ?_, ?_, ?_⟩
        · rw [if_pos (by omega), Int.toNat_natCast]
        · intro buf h
          obtain rfl := List.mem_singleton.mp h
          exact ⟨hidx, by simp only; omega⟩
        · exact covers_single (by simp only; omega) rfl
      · -- the rest of this chunk, which may be nothing, and then the next one from its start
        obtain ⟨left, hleft⟩ : ∃ left, left = singleTsBytes - chunkOff := ⟨_, rfl⟩
        obtain ⟨bufs, hbufs, hin, hcov⟩ := ih (chunkIndex + 1) 0 (bytes - left) (Nat.zero_le _)
          (by rw [Nat.succ_mul]; omega) (by omega)
        have hsub : (bytes : ℤ) - (left : ℤ) = ((bytes - left : ℕ) : ℤ) := by omega
        have hnext : (chunkIndex + 1) * singleTsBytes + 0 =
            chunkIndex * singleTsBytes + chunkOff + left := by
          rw [Nat.succ_mul]
          omega
        rw [← hleft, if_neg (by omega), hsub, hbufs, Option.map_some]
        refine ⟨_, rfl, ?_, ?_⟩
        · intro buf h
          obtain rfl | h := List.mem_cons.mp h
          · exact ⟨hidx, by simp only; omega⟩
          · exact hin buf h
        · rw [hnext] at hcov
          rw [show bytes = left + (bytes - left) by omega]
          exact covers_cons (e := ⟨chunkIndex, chunkOff, left⟩) (by simp only; omega) rfl hcov

theorem getTsSeg_spec (s : TsSegment) (chunkIndex chunkOff : ℕ) {bytes : ℕ}
    (hoff : chunkOff ≤ singleTsBytes)
    (hfits : chunkIndex * singleTsBytes + chunkOff + bytes ≤ s.tsChunks * singleTsBytes)
    (hsmall : bytes < 2 ^ 31) :
    ∃ bufs, getTsSeg s chunkIndex chunkOff (BitVec.ofNat 32 bytes) = some bufs ∧
      (∀ buf ∈ bufs, buf.Fits singleTsBytes s.tsChunks) ∧
      Covers singleTsBytes (chunkIndex * singleTsBytes + chunkOff) bytes bufs := by
  have hbytes : (BitVec.ofNat 32 bytes).toInt = bytes := by
    rw [BitVec.toInt_eq_toNat_of_lt (by rw [BitVec.toNat_ofNat]; omega), BitVec.toNat_ofNat,
      Nat.mod_eq_of_lt (by omega)]
  rw [getTsSeg, hbytes]
  exact tsSegLoop_spec s chunkIndex chunkOff bytes hoff hfits

theorem fullChunks_covers (n : ℕ) : Covers singleTsBytes 0 (n * singleTsBytes)
    ((List.range n).map fun i ↦ ⟨i, 0, singleTsBytes⟩) := by
  induction n with
  | zero =>
    rw [Nat.zero_mul]
    exact covers_nil _ _
  | succ n ih =>
    rw [List.range_succ, List.map_append, Nat.succ_mul]
    apply covers_append ih
    exact covers_single (by simp only; omega) (by simp [Extent.start])

theorem getTsData_covers (s : TsSegment) :
    Covers singleTsBytes 0 (placeOf s) (getTsData s) := by
  have hc := s.chunks_eq
  have hfull : (List.range s.tsChunkIndex).map (fun i ↦
        (⟨i, 0, if i + 1 = s.tsChunks then s.tsChunkOff else singleTsBytes⟩ : Extent)) =
      (List.range s.tsChunkIndex).map fun i ↦ ⟨i, 0, singleTsBytes⟩ := by
    apply List.map_congr_left
    intro i hi
    have hlt := List.mem_range.mp hi
    rw [if_neg (by omega)]
  rw [getTsData, hc, List.range_succ, List.map_append, ← hc, hfull, placeOf]
  apply covers_append (fullChunks_covers s.tsChunkIndex)
  rw [List.map_singleton, if_pos hc.symm]
  exact covers_single (by simpa using s.off_le) (by simp [Extent.start])

end Readers

/-- `before` packets are allocated, the place is recorded, then `n` packets and
some more are allocated. -/
structure HandsOut (before n after : ℕ) (bufs : List Extent) (s : TsSegment) : Prop where
  inside : ∀ buf ∈ bufs, buf.Fits singleTsBytes s.tsChunks
  seg_eq : ∀ (α : Type) (mem : ℕ → ℕ → α),
    readAll mem bufs =
      readAll mem ((allocTsPackets n (allocTsPackets before emptySegment).2).1.map extentOf)
  data_eq : ∀ (α : Type) (mem : ℕ → ℕ → α),
    readAll mem (getTsData s) =
      readAll mem ((allocTsPackets (before + n + after) emptySegment).1.map extentOf)
  bytes_eq : getTsBytes s = 188 * (before + n + after)
  apart : ((allocTsPackets (before + n + after) emptySegment).1.map extentOf).Pairwise
    Extent.Apart

theorem place_le (s : TsSegment) : placeOf s ≤ s.tsChunks * singleTsBytes := by
  have hoff := s.off_le
  rw [placeOf, s.chunks_eq, Nat.succ_mul]
  omega

/-- Whatever is allocated before and after, the range that was recorded hands
out the packets that were allocated from there on. -/
theorem getTsSeg_handsOut (before n after : ℕ) (hn : 188 * n < 2 ^ 31) :
    ∃ bufs, getTsSeg (allocTsPackets (before + n + after) emptySegment).2
        (allocTsPackets before emptySegment).2.tsChunkIndex
        (allocTsPackets before emptySegment).2.tsChunkOff (BitVec.ofNat 32 (188 * n)) = some bufs ∧
      HandsOut before n after bufs (allocTsPackets (before + n + after) emptySegment).2 := by
  obtain ⟨r, hr⟩ : ∃ r, r = (allocTsPackets before emptySegment).2 := ⟨_, rfl⟩
  obtain ⟨s, hs⟩ : ∃ s, s = (allocTsPackets (before + n + after) emptySegment).2 := ⟨_, rfl⟩
  have hall := allocTsPackets_allocated (before + n + after) emptySegment
  have hmid := allocTsPackets_allocated n r
  have hafter := allocTsPackets_allocated after (allocTsPackets n r).2
  have hend : s = (allocTsPackets after (allocTsPackets n r).2).2 := by
    rw [hs, hr, allocTsPackets_add, allocTsPackets_add]
  rw [← hs] at hall
  rw [← hend] at hafter
  have hfits : placeOf r + 188 * n ≤ s.tsChunks * singleTsBytes := by
    have h₁ := hmid.place_eq
    have h₂ := hafter.place_eq
    have h₃ := place_le s
    omega
  obtain ⟨bufs, hbufs, hin, hcov⟩ :=
    getTsSeg_spec s r.tsChunkIndex r.tsChunkOff r.off_le hfits hn
  have hzero : placeOf emptySegment = 0 := by
    rw [placeOf, show emptySegment.tsChunkIndex = 0 from rfl, Nat.zero_mul]
    rfl
  have hplace := hall.place_eq
  have hdata := getTsData_covers s
  have hcall := hall.covers
  rw [hzero, Nat.zero_add] at hplace
  rw [hplace] at hdata
  rw [hzero] at hcall
  rw [← hs, ← hr]
  refine ⟨bufs, hbufs, hin, ?_, ?_, ?_, hall.apart⟩
  · rw [← hr]
    exact fun α mem ↦ hcov.readAll_eq hmid.covers mem
  · exact fun α mem ↦ hdata.readAll_eq hcall mem
  · rw [getTsBytes, hall.totalTsBytes_eq]
    exact Nat.zero_add _

/-- Three packets behind a first chunk that is full up to one packet. -/
theorem getTsSeg_handsOut_threePackets :
    ∃ bufs, getTsSeg (allocTsPackets (4095 + 3 + 1) emptySegment).2
        (allocTsPackets 4095 emptySegment).2.tsChunkIndex
        (allocTsPackets 4095 emptySegment).2.tsChunkOff (BitVec.ofNat 32 (188 * 3)) = some bufs ∧
      HandsOut 4095 3 1 bufs (allocTsPackets (4095 + 3 + 1) emptySegment).2 :=
  getTsSeg_handsOut 4095 3 1 (by decide)

/-- A count from 2^31 on is negative in the loop, which hands out nothing. -/
theorem getTsSeg_negative {n : ℕ} (before after : ℕ) (hn : 2 ^ 31 ≤ 188 * n) (hn' : 188 * n < 2 ^ 32)
    (s : TsSegment) (chunkIndex chunkOff : ℕ) :
    ¬ ∃ bufs, getTsSeg s chunkIndex chunkOff (BitVec.ofNat 32 (188 * n)) = some bufs ∧
      HandsOut before n after bufs s := by
  have hbytes : ¬ 0 < (BitVec.ofNat 32 (188 * n)).toInt := by
    rw [BitVec.toInt_eq_toNat_cond, BitVec.toNat_ofNat, Nat.mod_eq_of_lt hn', if_neg (by omega)]
    omega
  rintro ⟨bufs, hbufs, hout⟩
  rw [getTsSeg, tsSegLoop, if_neg hbytes, Option.some_inj] at hbufs
  have hcovers := (allocTsPackets_allocated n (allocTsPackets before emptySegment).2).covers
  have hlength := congrArg List.length (hout.seg_eq Unit fun _ _ ↦ ())
  rw [← hbufs, hcovers Unit, List.length_map, List.length_range'] at hlength
  have hzero : 188 * n = 0 := hlength.symm
  omega

theorem getTsSeg_tooMany : ¬ ∃ bufs,
    getTsSeg (allocTsPackets (0 + 11422786 + 0) emptySegment).2
        (allocTsPackets 0 emptySegment).2.tsChunkIndex
        (allocTsPackets 0 emptySegment).2.tsChunkOff (BitVec.ofNat 32 (188 * 11422786)) = some bufs ∧
      HandsOut 0 11422786 0 bufs (allocTsPackets (0 + 11422786 + 0) emptySegment).2 :=
  getTsSeg_negative (n := 11422786) 0 0 (by decide) (by decide) _ _ _

end MmsServer.Ts.SegmentReaders
