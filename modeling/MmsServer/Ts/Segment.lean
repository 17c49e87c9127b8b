import Mathlib.Tactic.Common

namespace MmsServer.Ts.Segment

def singleTsBytes : ℕ := 188 * 4096

/-- The chunks that hold the packets of a segment, and the place of the next packet. -/
structure TsSegment where
  tsChunks : ℕ := 1
  tsChunkIndex : ℕ := 0
  tsChunkOff : ℕ := 0
  totalTsBytes : ℕ := 0
  chunks_eq : tsChunks = tsChunkIndex + 1 := by rfl
  aligned : 188 ∣ tsChunkOff := by decide
  off_le : tsChunkOff ≤ singleTsBytes := by decide

structure Slot where
  chunk : ℕ
  off : ℕ
deriving DecidableEq

def TsSegment.allocTsPacket (s : TsSegment) : Slot × TsSegment :=
  if h : singleTsBytes ≤ s.tsChunkOff then
    (⟨s.tsChunkIndex + 1, 0⟩,
      { tsChunks := s.tsChunks + 1
        tsChunkIndex := s.tsChunkIndex + 1
        tsChunkOff := 188
        totalTsBytes := s.totalTsBytes + 188
        chunks_eq := by rw [s.chunks_eq]
        aligned := by decide
        off_le := by decide })
  else
    (⟨s.tsChunkIndex, s.tsChunkOff⟩,
      { s with
        tsChunkOff := s.tsChunkOff + 188
        totalTsBytes := s.totalTsBytes + 188
        aligned := (Nat.dvd_add_right s.aligned).mpr (Nat.dvd_refl 188)
        off_le := by
          have ha := s.aligned
          unfold singleTsBytes at h ⊢
          omega })

structure Slot.Inside (slot : Slot) (s : TsSegment) : Prop where
  chunk_lt : slot.chunk < s.tsChunks
  off_le : slot.off + 188 ≤ singleTsBytes

theorem alloc_inside (s : TsSegment) : s.allocTsPacket.1.Inside s.allocTsPacket.2 := by
  have hc := s.chunks_eq
  have ha := s.aligned
  unfold TsSegment.allocTsPacket
  split
  · exact ⟨by simp only; omega, show 0 + 188 ≤ singleTsBytes by decide⟩
  · rename_i h
    refine ⟨by simp only; omega, ?_⟩
    unfold singleTsBytes at h ⊢
    simp only
    omega

theorem alloc_chunks_le (s : TsSegment) : s.tsChunks ≤ s.allocTsPacket.2.tsChunks := by
  unfold TsSegment.allocTsPacket
  split <;> simp only <;> omega

theorem Slot.Inside.mono {slot : Slot} {s t : TsSegment} (h : slot.Inside s)
    (hst : s.tsChunks ≤ t.tsChunks) :
    slot.Inside t :=
  ⟨Nat.lt_of_lt_of_le h.chunk_lt hst, h.off_le⟩

end MmsServer.Ts.Segment
