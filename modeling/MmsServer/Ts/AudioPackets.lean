import MmsServer.Ts.RtmpBridge
import MmsServer.Ts.SegmentReaders

namespace MmsServer.Ts.AudioPackets

open Lib.ByteReader Lib.ChunkedMemory Segment SegmentReaders Packetizer RtmpBridge

/-- `audio_pes_segs` and `curr_pes_seg_index`. The segment in front has lost
what is written of it. -/
structure Cursor where
  audioPesSegs : List Bytes
  index : ℕ := 0

/-- The loop that fills one packet; `none` if the index runs past the last segment. -/
def copyAt (audioPesSegs : List Bytes) (index leftConsume : ℕ) : Option (Bytes × Cursor) :=
  if leftConsume = 0 then some ([], ⟨audioPesSegs, index⟩)
  else if h : index < audioPesSegs.length then
    let currSeg := audioPesSegs.get ⟨index, h⟩
    if currSeg.length < leftConsume then
      (copyAt audioPesSegs (index + 1) (leftConsume - currSeg.length)).map fun r ↦
        (currSeg ++ r.1, r.2)
    else if currSeg.length = leftConsume then some (currSeg, ⟨audioPesSegs, index + 1⟩)
    else some (currSeg.take leftConsume,
      ⟨audioPesSegs.set index (currSeg.drop leftConsume), index⟩)
  else none
termination_by audioPesSegs.length - index

structure AudioTs where
  writes : List TsWrite
  currSeg : TsSegment
  continuityCounter : UInt8
  pesPacket : PesPacket

def audioLoop (pes : PesPacket) (audioPesLen : ℕ) :
    ℕ → ℕ → Cursor → TsSegment → UInt8 → BitVec 32 → Option AudioTs
  | fuel, leftCount, cursor, currSeg, counter, tsTotalBytes =>
    if leftCount = 0 then some ⟨[], currSeg, counter, { pes with tsBytes := tsTotalBytes }⟩
    else match fuel with
      | 0 => none
      | fuel + 1 =>
        let (slot, currSeg) := currSeg.allocTsPacket
        let consumed := 184 - adaptationFieldTotalLength none leftCount
        match copyAt cursor.audioPesSegs cursor.index consumed with
        | none => none
        | some (payload, cursor) =>
          let w := tsPacket audioPid none (leftCount == audioPesLen) leftCount counter slot payload
          (audioLoop pes audioPesLen fuel (leftCount - consumed) cursor currSeg (counter + 1)
            (tsTotalBytes + 188)).map fun r ↦ { r with writes := w :: r.writes }

/-- Every packet takes a byte at least, so that the fuel is never used up. -/
def createAudioTs (currSeg : TsSegment) (counter : UInt8) (pes : PesPacket)
    (audioPesSegs : List Bytes) (audioPesLen : ℕ) : Option AudioTs :=
  let pes :=
    { pes with
      tsIndex := currSeg.tsChunkIndex
      tsOff := currSeg.tsChunkOff }
  audioLoop pes audioPesLen audioPesLen audioPesLen ⟨audioPesSegs, 0⟩ currSeg counter 0

section Refinement

def Cursor.rest (c : Cursor) : List Bytes := c.audioPesSegs.drop c.index

/-- To the cursor a segment is in front, whatever stands before it. -/
theorem copyAt_eq (audioPesSegs : List Bytes) (index leftConsume : ℕ) :
    (copyAt audioPesSegs index leftConsume).map (fun r ↦ (r.1, r.2.rest)) =
      copySegs (audioPesSegs.drop index) leftConsume := by
  fun_induction copyAt audioPesSegs index leftConsume with
  | case1 index => rw [copySegs]; rfl
  | case2 index leftConsume h0 h currSeg hlt ih =>
    obtain ⟨n, rfl⟩ := Nat.exists_eq_succ_of_ne_zero h0
    have hcons : audioPesSegs.drop index = currSeg :: audioPesSegs.drop (index + 1) :=
      List.drop_eq_getElem_cons h
    rw [hcons, copySegs, if_pos hlt, ← ih, Option.map_map, Option.map_map]
    rfl
  | case3 index h currSeg h0 hlt =>
    obtain ⟨n, hn⟩ := Nat.exists_eq_succ_of_ne_zero h0
    have hcons : audioPesSegs.drop index = currSeg :: audioPesSegs.drop (index + 1) :=
      List.drop_eq_getElem_cons h
    rw [hcons, hn, copySegs, if_neg (by omega), if_pos hn]
    rfl
  | case4 index leftConsume h0 h currSeg hlt heq =>
    obtain ⟨n, rfl⟩ := Nat.exists_eq_succ_of_ne_zero h0
    have hcons : audioPesSegs.drop index = currSeg :: audioPesSegs.drop (index + 1) :=
      List.drop_eq_getElem_cons h
    rw [hcons, copySegs, if_neg hlt, if_neg heq, Option.map_some]
    simp only [Cursor.rest]
    rw [List.drop_set, if_neg (Nat.lt_irrefl index), Nat.sub_self, hcons, List.set_cons_zero]
  | case5 index leftConsume h0 h =>
    obtain ⟨n, rfl⟩ := Nat.exists_eq_succ_of_ne_zero h0
    rw [List.drop_of_length_le (Nat.not_lt.mp h), copySegs]
    rfl

theorem copyAt_some {cursor : Cursor} {n : ℕ} {payload : Bytes} {rest : List Bytes}
    (h : copySegs cursor.rest n = some (payload, rest)) :
    ∃ cursor', copyAt cursor.audioPesSegs cursor.index n = some (payload, cursor') ∧
      cursor'.rest = rest := by
  rw [Cursor.rest, ← copyAt_eq] at h
  obtain ⟨⟨payload', cursor'⟩, hr, heq⟩ := Option.map_eq_some_iff.mp h
  obtain ⟨rfl, rfl⟩ := Prod.mk.inj heq
  exact ⟨cursor', hr, rfl⟩

theorem audioLoop_step {pes : PesPacket} {audioPesLen leftCount : ℕ} {tsTotalBytes : BitVec 32} (fuel : ℕ)
    (h0 : leftCount ≠ 0) {cursor cursor' : Cursor} (currSeg : TsSegment) (counter : UInt8)
    {payload : Bytes}
    (hcopy : copyAt cursor.audioPesSegs cursor.index
      (184 - adaptationFieldTotalLength none leftCount) = some (payload, cursor')) :
    audioLoop pes audioPesLen (fuel + 1) leftCount cursor currSeg counter tsTotalBytes =
      (audioLoop pes audioPesLen fuel (leftCount - (184 - adaptationFieldTotalLength none leftCount))
        cursor' currSeg.allocTsPacket.2 (counter + 1) (tsTotalBytes + 188)).map fun r ↦
          { r with
            writes := tsPacket audioPid none (leftCount == audioPesLen) leftCount counter
              currSeg.allocTsPacket.1 payload :: r.writes } := by
  rw [audioLoop, if_neg h0]
  simp only [hcopy]

/-- The loop with the index does what the loop that drops its segments does. -/
theorem audioLoop_eq {pes : PesPacket} {audioPesLen : ℕ} (fuel : ℕ) (tsTotalBytes : BitVec 32) (cursor : Cursor)
    (currSeg : TsSegment) (counter : UInt8) {leftCount : ℕ}
    (hleft : cursor.rest.flatten.length = leftCount) {r : PacketRun}
    (hr : packetLoop audioPid none audioPesLen fuel leftCount cursor.rest currSeg counter = some r) :
    audioLoop pes audioPesLen fuel leftCount cursor currSeg counter tsTotalBytes =
      some ⟨r.writes, r.seg, r.counter,
        { pes with tsBytes := tsTotalBytes + BitVec.ofNat 32 (188 * r.writes.length) }⟩ := by
  induction fuel generalizing leftCount tsTotalBytes cursor currSeg counter r with
  | zero =>
    by_cases h0 : leftCount = 0
    · rw [h0, packetLoop_done] at hr
      cases hr
      rw [h0, audioLoop, if_pos rfl]
      simp only [List.length_nil, Nat.mul_zero, BitVec.add_zero]
    · rw [packetLoop, if_neg h0] at hr
      cases hr
  | succ fuel ih =>
    by_cases h0 : leftCount = 0
    · rw [h0, packetLoop_done] at hr
      cases hr
      rw [h0, audioLoop, if_pos rfl]
      simp only [List.length_nil, Nat.mul_zero, BitVec.add_zero]
    · obtain ⟨hpos, hle⟩ := consumed_le none (Nat.pos_of_ne_zero h0)
      obtain ⟨rest, hcopy, hrest⟩ := copySegs_spec cursor.rest _ (hle.trans hleft.ge)
      obtain ⟨cursor', hcopy', hc⟩ := copyAt_some hcopy
      have hlen := congrArg List.length hrest
      rw [List.length_drop, hleft] at hlen
      rw [packetLoop_step fuel h0 currSeg counter (by rw [ite_self]) hcopy] at hr
      obtain ⟨r', hr', rfl⟩ := Option.map_eq_some_iff.mp hr
      subst hc
      rw [audioLoop_step fuel h0 currSeg counter hcopy',
        ih (tsTotalBytes + 188) cursor' _ _ hlen hr', Option.map_some]
      have hadd : BitVec.ofNat 32 (188 * (r'.writes.length + 1)) =
          188 + BitVec.ofNat 32 (188 * r'.writes.length) := by
        rw [Nat.mul_succ, Nat.add_comm, BitVec.ofNat_add]
        rfl
      rw [List.length_cons, hadd, BitVec.add_assoc]

end Refinement

/-- The packets that the loop writes are those that it allocates. -/
theorem packetLoop_slots {pid : BitVec 16} {pcr : Option (BitVec 64)} {pesLen : ℕ}
    (fuel left : ℕ) (segs : List Bytes) (seg : TsSegment) (counter : UInt8) {r : PacketRun}
    (hr : packetLoop pid pcr pesLen fuel left segs seg counter = some r) :
    allocTsPackets r.writes.length seg = (r.writes.map TsWrite.slot, r.seg) := by
  induction fuel generalizing left segs seg counter r with
  | zero =>
    by_cases h0 : left = 0
    · rw [h0, packetLoop_done] at hr
      cases hr
      rfl
    · rw [packetLoop, if_neg h0] at hr
      cases hr
  | succ fuel ih =>
    by_cases h0 : left = 0
    · rw [h0, packetLoop_done] at hr
      cases hr
      rfl
    · cases hcopy : copySegs segs
        (184 - adaptationFieldTotalLength (if left == pesLen then pcr else none) left) with
      | none =>
        rw [packetLoop, if_neg h0] at hr
        simp only [hcopy] at hr
        cases hr
      | some p =>
        rw [packetLoop_step fuel h0 seg counter rfl hcopy] at hr
        obtain ⟨r', hr', rfl⟩ := Option.map_eq_some_iff.mp hr
        have hrest := ih _ _ _ _ hr'
        simp only [List.length_cons, allocTsPackets, hrest]
        rfl

theorem consumed_cases {left : ℕ} (h : 0 < left) :
    left - (184 - adaptationFieldTotalLength none left) = left - 184 ∨
      left = 183 ∧ left - (184 - adaptationFieldTotalLength none left) = 1 := by
  unfold adaptationFieldTotalLength staffingCount
  split
  · split <;> omega
  · rw [Option.elim_none]
    omega

/-- All packets but the last carry 182 bytes at least. -/
theorem packetLoop_count {pid : BitVec 16} {pesLen : ℕ} (fuel left : ℕ) (segs : List Bytes)
    (seg : TsSegment) (counter : UInt8) {r : PacketRun}
    (hr : packetLoop pid none pesLen fuel left segs seg counter = some r) :
    r.writes.length ≤ (left + 181) / 182 := by
  induction fuel generalizing left segs seg counter r with
  | zero =>
    by_cases h0 : left = 0
    · rw [h0, packetLoop_done] at hr
      cases hr
      exact Nat.zero_le _
    · rw [packetLoop, if_neg h0] at hr
      cases hr
  | succ fuel ih =>
    by_cases h0 : left = 0
    · rw [h0, packetLoop_done] at hr
      cases hr
      exact Nat.zero_le _
    · cases hcopy : copySegs segs (184 - adaptationFieldTotalLength none left) with
      | none =>
        rw [packetLoop, if_neg h0] at hr
        simp only [ite_self, hcopy] at hr
        cases hr
      | some p =>
        rw [packetLoop_step fuel h0 seg counter (by rw [ite_self]) hcopy] at hr
        obtain ⟨r', hr', rfl⟩ := Option.map_eq_some_iff.mp hr
        have hrest := ih _ _ _ _ hr'
        have hcons := consumed_cases (Nat.pos_of_ne_zero h0)
        rw [List.length_cons]
        omega

theorem audioPid_lt : audioPid.toNat < 2 ^ 13 := by decide

theorem createAudioTs_eq (currSeg : TsSegment) (counter : UInt8) (pes : PesPacket)
    (audioPesSegs : List Bytes) (audioPesLen : ℕ) (hlen : audioPesLen = audioPesSegs.flatten.length)
    {r : PacketRun}
    (hr : RtmpBridge.createAudioTs currSeg counter audioPesSegs audioPesLen = some r) :
    createAudioTs currSeg counter pes audioPesSegs audioPesLen =
      some ⟨r.writes, r.seg, r.counter,
        { pes with
          tsIndex := currSeg.tsChunkIndex
          tsOff := currSeg.tsChunkOff
          tsBytes := BitVec.ofNat 32 (188 * r.writes.length) }⟩ := by
  rw [createAudioTs, audioLoop_eq audioPesLen 0 ⟨audioPesSegs, 0⟩ currSeg counter hlen.symm hr]
  simp only [BitVec.ofNat_eq_ofNat, BitVec.zero_add]

/-- The packets carry the segments, and they are what the PES packet says of them: below
a gigabyte the `int32_t` in which the bytes are counted does not overflow. -/
structure AudioPacketised (currSeg : TsSegment) (audioPesSegs : List Bytes) (r : AudioTs) :
    Prop where
  packetised : Packetised r.currSeg audioPesSegs r.writes
  nonempty : r.writes ≠ []
  allocated : allocTsPackets r.writes.length currSeg = (r.writes.map TsWrite.slot, r.currSeg)
  tsBytes_eq : r.pesPacket.tsBytes = BitVec.ofNat 32 (188 * r.writes.length)
  tsBytes_toInt : audioPesSegs.flatten.length < 2 ^ 30 → r.pesPacket.tsBytes.toInt = 188 * r.writes.length

theorem createAudioTs_packetised (currSeg : TsSegment) (counter : UInt8) (pes : PesPacket)
    (audioPesSegs : List Bytes) (audioPesLen : ℕ) (hpos : 0 < audioPesLen)
    (hlen : audioPesLen = audioPesSegs.flatten.length) :
    ∃ r, createAudioTs currSeg counter pes audioPesSegs audioPesLen = some r ∧
      AudioPacketised currSeg audioPesSegs r := by
  obtain ⟨r, hr, -, hwell, hpay⟩ := packetLoop_spec audioPid_lt (.inl rfl) audioPesLen audioPesSegs
    currSeg counter hlen.ge hlen.ge
  rw [← hlen] at hr hwell
  refine ⟨_, createAudioTs_eq currSeg counter pes audioPesSegs audioPesLen hlen hr, ?_, ?_,
    packetLoop_slots _ _ _ _ _ hr, rfl, ?_⟩
  · refine ⟨?_, hpay⟩
    intro i w hi
    have hw := hwell i w hi
    rwa [beq_self_eq_true, Bool.and_true] at hw
  · intro hnil
    have hnil : r.writes = [] := hnil
    rw [hnil] at hpay
    have h := congrArg List.length hpay
    rw [← hlen] at h
    exact hpos.ne h
  · intro hlt
    have hcount := packetLoop_count _ _ _ _ _ hr
    have hsmall : 188 * r.writes.length < 2 ^ 31 := by omega
    have hnat : (BitVec.ofNat 32 (188 * r.writes.length)).toNat = 188 * r.writes.length := by
      rw [BitVec.toNat_ofNat, Nat.mod_eq_of_lt (by omega)]
    change (BitVec.ofNat 32 (188 * r.writes.length)).toInt = 188 * r.writes.length
    rw [BitVec.toInt_eq_toNat_of_lt (by omega), hnat]
    rfl

/-- When 183 bytes are left, the two bytes of the adaptation field push one of them
into a second packet. -/
theorem oneByteOver_packetised : 0 < 183 ∧
    183 = [[7], List.replicate 182 (8 : UInt8)].flatten.length ∧
    ∃ r, createAudioTs emptySegment 0 ⟨0, 0, 0, 0⟩ [[7], List.replicate 182 8] 183 = some r ∧
      AudioPacketised emptySegment [[7], List.replicate 182 8] r :=
  ⟨by decide, rfl,
    createAudioTs_packetised emptySegment 0 ⟨0, 0, 0, 0⟩ _ 183 (by decide) rfl⟩

end MmsServer.Ts.AudioPackets
