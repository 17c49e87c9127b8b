import MmsServer.Ts.Demux
import MmsServer.Ts.SegmentReaders

namespace MmsServer.Ts.SegmentMemory

open Lib.ByteReader Lib.Checked Lib.ChunkedMemory Rtmp.FlvTag Segment Packetizer SegmentReaders
open RtmpBridge Continuity Tables AacStream Demux

section Memory

abbrev Memory := ℕ → ℕ → UInt8

def Memory.write (mem : Memory) (slot : Slot) (packet : Bytes) : Memory := fun chunk off ↦
  if chunk = slot.chunk ∧ slot.off ≤ off ∧ off < slot.off + packet.length
  then packet.getD (off - slot.off) 0 else mem chunk off

structure SegmentData where
  seg : TsSegment
  mem : Memory

/-- The segment is filled by these packets, one behind the other. -/
structure Holds (d : SegmentData) (packets : List Bytes) : Prop where
  length : ∀ p ∈ packets, p.length = 188
  place : placeOf d.seg = 188 * packets.length
  read : (List.range' 0 (188 * packets.length)).map (linear singleTsBytes d.mem) = packets.flatten

theorem linear_write (mem : Memory) {slot : Slot} {packet : Bytes}
    (h : slot.off + packet.length ≤ singleTsBytes) (place : ℕ) :
    linear singleTsBytes (mem.write slot packet) place =
      if slot.chunk * singleTsBytes + slot.off ≤ place ∧
        place < slot.chunk * singleTsBytes + slot.off + packet.length
      then packet.getD (place - (slot.chunk * singleTsBytes + slot.off)) 0
      else linear singleTsBytes mem place := by
  have hpos : 0 < singleTsBytes := by decide
  have hmod := Nat.mod_lt place hpos
  have hdiv := Nat.div_add_mod place singleTsBytes
  unfold linear Memory.write
  by_cases hc : place / singleTsBytes = slot.chunk
  · rw [hc, Nat.mul_comm] at hdiv
    by_cases hin : slot.off ≤ place % singleTsBytes ∧ place % singleTsBytes < slot.off + packet.length
    · rw [if_pos ⟨hc, hin⟩, if_pos (by omega)]
      congr 1
      omega
    · rw [if_neg fun h ↦ hin h.2, if_neg (by omega)]
  · rw [if_neg fun hin ↦ hc hin.1, if_neg fun hin ↦ hc ?_]
    apply Nat.div_eq_of_lt_le
    · omega
    · rw [Nat.succ_mul]
      omega

theorem map_getD_range' (packet : Bytes) (start : ℕ) :
    (List.range' start packet.length).map (fun place ↦ packet.getD (place - start) 0) = packet := by
  apply List.ext_getElem
  · rw [List.length_map, List.length_range']
  · intro i h₁ h₂
    rw [List.getElem_map, List.getElem_range', one_mul, Nat.add_sub_cancel_left, List.getD_eq_getElem _ _ h₂]

theorem flatten_length {packets : List Bytes} (h : ∀ p ∈ packets, p.length = 188) :
    packets.flatten.length = 188 * packets.length := by
  induction packets with
  | nil => rfl
  | cons p ps ih =>
    rw [List.flatten_cons, List.length_append, h p (List.mem_cons_self ..),
      ih fun q hq ↦ h q (List.mem_cons_of_mem p hq), List.length_cons]
    omega

/-- One more packet behind those that the segment holds. -/
theorem Holds.put {d : SegmentData} {packets : List Bytes} (h : Holds d packets) {packet : Bytes}
    (hlen : packet.length = 188) :
    Holds ⟨d.seg.allocTsPacket.2, d.mem.write d.seg.allocTsPacket.1 packet⟩ (packets ++ [packet]) := by
  have hstart : d.seg.allocTsPacket.1.chunk * singleTsBytes + d.seg.allocTsPacket.1.off =
      188 * packets.length := (alloc_start d.seg).trans h.place
  have hfit : d.seg.allocTsPacket.1.off + packet.length ≤ singleTsBytes := by
    rw [hlen]
    exact (alloc_inside d.seg).off_le
  have hcount : (packets ++ [packet]).length = packets.length + 1 := by
    rw [List.length_append, List.length_singleton]
  refine ⟨?_, ?_, ?_⟩
  · intro p hp
    rcases List.mem_append.mp hp with hp | hp
    · exact h.length p hp
    · rw [List.mem_singleton.mp hp, hlen]
  · rw [alloc_place, h.place, hcount, Nat.mul_succ]
  · have hrange : List.range' 0 (188 * (packets ++ [packet]).length) =
        List.range' 0 (188 * packets.length) ++ List.range' (188 * packets.length) packet.length := by
      rw [hcount, Nat.mul_succ, hlen, ← List.range'_append_1, Nat.zero_add]
    rw [hrange, List.map_append, List.flatten_append, List.flatten_singleton, ← h.read]
    congr 1
    · apply List.map_congr_left
      intro place hplace
      have hlt := (List.mem_range'_1.mp hplace).2
      rw [linear_write d.mem hfit, if_neg (by omega)]
    · have hback : (List.range' (188 * packets.length) packet.length).map
          (linear singleTsBytes (d.mem.write d.seg.allocTsPacket.1 packet)) =
          (List.range' (188 * packets.length) packet.length).map
            fun place ↦ packet.getD (place - 188 * packets.length) 0 := by
        apply List.map_congr_left
        intro place hplace
        have hin := List.mem_range'_1.mp hplace
        rw [linear_write d.mem hfit, hstart, if_pos hin]
      rw [hback, map_getD_range']

/-- What the readers find behind `front`. -/
theorem Holds.slice {d : SegmentData} {front mid back : List Bytes} (h : Holds d (front ++ mid ++ back)) :
    (List.range' (188 * front.length) (188 * mid.length)).map (linear singleTsBytes d.mem) = mid.flatten := by
  have hlens : ∀ p ∈ front ++ mid, p.length = 188 := fun p hp ↦ h.length p (List.mem_append_left back hp)
  have hfront := flatten_length fun p hp ↦ hlens p (List.mem_append_left mid hp)
  have hmid := flatten_length fun p hp ↦ hlens p (List.mem_append_right front hp)
  have hcount : 188 * (front ++ mid ++ back).length =
      188 * front.length + (188 * mid.length + 188 * back.length) := by
    rw [List.length_append, List.length_append]
    omega
  have hread := h.read
  rw [hcount, ← List.range'_append_1, ← List.range'_append_1, List.map_append, List.map_append, Nat.zero_add,
    List.flatten_append, List.flatten_append, List.append_assoc] at hread
  have htail := (List.append_inj hread (by rw [List.length_map, List.length_range', hfront])).2
  exact (List.append_inj htail (by rw [List.length_map, List.length_range', hmid])).1

end Memory

section Station

/-- A PES packet of the source, and where its packets are. -/
structure PesPkt where
  pid : ℕ
  pes : Bytes
  tsSeg : ℕ
  tsIndex : ℕ
  tsOff : ℕ
  tsBytes : BitVec 32

def SegmentData.put (d : SegmentData) (packet : Bytes) : SegmentData :=
  ⟨d.seg.allocTsPacket.2, d.mem.write d.seg.allocTsPacket.1 packet⟩

def freshSegment (unset : UInt8) (s : Bridge) : SegmentData :=
  (SegmentData.put ⟨Bridge.newSegment, fun _ _ ↦ 0⟩ createPat).put (createPmt unset s)

def Memory.writeAll (mem : Memory) (writes : List TsWrite) : Memory :=
  writes.foldl (fun mem w ↦ mem.write w.slot w.bytes) mem

/-- The bridge, the segments that it has made in their order, and the PES packets of
the source that it feeds. -/
structure Station where
  bridge : Bridge
  segs : List SegmentData := []
  pkts : List PesPkt := []

/-- The packets go into the memory of the last segment; the PES packet says where this
segment has been before them. -/
def Station.put (t : Station) (bridge : Bridge) (segs : List SegmentData) (pid : ℕ) (e : Emitted) :
    Station :=
  match segs.getLast?, bridge.currSeg with
  | some d, some seg =>
    { bridge := bridge
      segs := segs.dropLast ++ [⟨seg, d.mem.writeAll e.writes⟩]
      pkts := t.pkts ++ e.pes.toList.map fun pes ↦
        ⟨pid, pes, segs.length - 1, d.seg.tsChunkIndex, d.seg.tsChunkOff,
          BitVec.ofNat 32 (188 * e.writes.length)⟩ }
  | _, _ => { t with bridge := bridge, segs := segs }

def Station.take (unset : UInt8) (t : Station) (m : Message) : Outcome Station := do
  let (bridge, _, e) ← t.bridge.process m
  let segs := if e.tables = [] then t.segs else t.segs ++ [freshSegment unset bridge]
  return t.put bridge segs ((Message.pid m).getD 0) e

theorem Station.put_none (t : Station) {bridge : Bridge} (h : bridge.currSeg = none)
    (segs : List SegmentData) (pid : ℕ) (e : Emitted) :
    t.put bridge segs pid e = { t with bridge := bridge, segs := segs } := by
  unfold Station.put
  rw [h]
  split
  · rename_i hnone
    cases hnone
  · rfl

theorem Station.put_last (t : Station) {bridge : Bridge} {seg : TsSegment} (h : bridge.currSeg = some seg)
    (front : List SegmentData) (d : SegmentData) (pid : ℕ) (e : Emitted) :
    t.put bridge (front ++ [d]) pid e =
      { bridge := bridge
        segs := front ++ [⟨seg, d.mem.writeAll e.writes⟩]
        pkts := t.pkts ++ e.pes.toList.map fun pes ↦
          ⟨pid, pes, front.length, d.seg.tsChunkIndex, d.seg.tsChunkOff,
            BitVec.ofNat 32 (188 * e.writes.length)⟩ } := by
  unfold Station.put
  rw [h, List.getLast?_concat]
  simp only [List.dropLast_concat, List.length_append, List.length_singleton, Nat.add_sub_cancel]

end Station

section Contents

theorem Holds.fill {d : SegmentData} {packets : List Bytes} (h : Holds d packets)
    (writes : List TsWrite) (hlen : ∀ w ∈ writes, w.bytes.length = 188) {seg' : TsSegment}
    (hslots : allocTsPackets writes.length d.seg = (writes.map TsWrite.slot, seg')) :
    Holds ⟨seg', d.mem.writeAll writes⟩ (packets ++ writes.map TsWrite.bytes) := by
  induction writes generalizing d packets with
  | nil =>
    cases hslots
    rw [List.map_nil, List.append_nil]
    exact h
  | cons w writes ih =>
    obtain ⟨hw, hrest⟩ := List.forall_mem_cons.mp hlen
    obtain ⟨hhead, htail⟩ : d.seg.allocTsPacket.1 = w.slot ∧
        (allocTsPackets writes.length d.seg.allocTsPacket.2).1 = writes.map TsWrite.slot :=
      List.cons_eq_cons.mp (congrArg Prod.fst hslots)
    have hput := h.put hw
    rw [hhead] at hput
    have hend : (allocTsPackets writes.length d.seg.allocTsPacket.2).2 = seg' :=
      congrArg Prod.snd hslots
    have hfill := ih hput hrest (Prod.ext htail hend)
    rwa [List.append_assoc] at hfill

structure Filled where
  data : SegmentData
  packets : List Bytes
  holds : Holds data packets

theorem freshSegment_holds (unset : UInt8) (s : Bridge) :
    Holds (freshSegment unset s) [createPat, createPmt unset s] := by
  have hempty : Holds ⟨Bridge.newSegment, fun _ _ ↦ 0⟩ [] := ⟨List.forall_mem_nil _, rfl, rfl⟩
  exact (hempty.put (tables_length unset s).1).put (tables_length unset s).2

/-- Segments are added at the end, and each of them grows at its end. -/
def Grows (fs fs' : List Filled) : Prop :=
  ∀ (i : ℕ) (f : Filled), fs[i]? = some f →
    ∃ (f' : Filled) (more : List Bytes), fs'[i]? = some f' ∧ f'.packets = f.packets ++ more ∧
      f.data.seg.tsChunks ≤ f'.data.seg.tsChunks

theorem Grows.refl (fs : List Filled) : Grows fs fs :=
  fun _ f h ↦ ⟨f, [], h, (List.append_nil _).symm, le_rfl⟩

theorem Grows.trans {fs₁ fs₂ fs₃ : List Filled} (h : Grows fs₁ fs₂) (h' : Grows fs₂ fs₃) :
    Grows fs₁ fs₃ := by
  intro i f hf
  obtain ⟨f₂, more, hf₂, hmore, hle⟩ := h i f hf
  obtain ⟨f₃, more', hf₃, hmore', hle'⟩ := h' i f₂ hf₂
  exact ⟨f₃, more ++ more', hf₃, by rw [hmore', hmore, List.append_assoc], hle.trans hle'⟩

theorem grows_last (fs : List Filled) {f f' : Filled} {more : List Bytes}
    (h : f'.packets = f.packets ++ more) (hle : f.data.seg.tsChunks ≤ f'.data.seg.tsChunks) :
    Grows (fs ++ [f]) (fs ++ [f']) := by
  intro i g hg
  rcases Nat.lt_or_ge i fs.length with hi | hi
  · rw [List.getElem?_append_left hi] at hg ⊢
    exact ⟨g, [], hg, (List.append_nil _).symm, le_rfl⟩
  · rw [List.getElem?_append_right hi] at hg ⊢
    obtain ⟨hlt, hget⟩ := List.getElem?_eq_some_iff.mp hg
    obtain hzero : i - fs.length = 0 := Nat.lt_one_iff.mp hlt
    rw [List.getElem_singleton] at hget
    subst hget
    exact ⟨f', more, by rw [hzero]; rfl, h, hle⟩

theorem grows_new (fs : List Filled) (f : Filled) : Grows fs (fs ++ [f]) := by
  intro i g hg
  have hi := (List.getElem?_eq_some_iff.mp hg).1
  exact ⟨g, [], (List.getElem?_append_left hi).trans hg, (List.append_nil _).symm, le_rfl⟩

structure Carried (p : PesPkt) (writes : List TsWrite) : Prop where
  pid : p.pid = 0x100 ∨ p.pid = 0x101
  unit : IsUnit p.pid p.pes writes

/-- The packets of a PES packet are where it says. -/
structure Stored (fs : List Filled) (p : PesPkt) (writes : List TsWrite) : Prop where
  carried : Carried p writes
  off_le : p.tsOff ≤ singleTsBytes
  bytes : p.tsBytes = BitVec.ofNat 32 (188 * writes.length)
  packets : ∃ f front back, fs[p.tsSeg]? = some f ∧
    f.packets = front ++ writes.map TsWrite.bytes ++ back ∧
    p.tsIndex * singleTsBytes + p.tsOff = 188 * front.length

theorem Stored.grow {fs fs' : List Filled} (hg : Grows fs fs') {p : PesPkt} {writes : List TsWrite}
    (h : Stored fs p writes) : Stored fs' p writes := by
  obtain ⟨f, front, back, hf, hpackets, hplace⟩ := h.packets
  obtain ⟨f', more, hf', hmore, -⟩ := hg _ f hf
  refine ⟨h.carried, h.off_le, h.bytes, f', front, back ++ more, hf', ?_, hplace⟩
  rw [hmore, hpackets, List.append_assoc]

theorem Stored.tsSeg_lt {fs : List Filled} {p : PesPkt} {writes : List TsWrite} (h : Stored fs p writes) :
    p.tsSeg < fs.length := by
  obtain ⟨f, front, back, hf, -⟩ := h.packets
  exact (List.getElem?_eq_some_iff.mp hf).1

def pktsOf (i : ℕ) (pkts : List PesPkt) : List PesPkt := pkts.filter fun p ↦ p.tsSeg == i

theorem pktsOf_append_self {i : ℕ} (pkts : List PesPkt) {more : List PesPkt} (h : ∀ p ∈ more, p.tsSeg = i) :
    pktsOf i (pkts ++ more) = pktsOf i pkts ++ more := by
  rw [pktsOf, List.filter_append, List.filter_eq_self.mpr fun p hp ↦ beq_iff_eq.mpr (h p hp)]
  rfl

theorem pktsOf_append_ne {i j : ℕ} (hij : i ≠ j) (pkts : List PesPkt) {more : List PesPkt}
    (h : ∀ p ∈ more, p.tsSeg = j) : pktsOf i (pkts ++ more) = pktsOf i pkts := by
  have hnone : more.filter (fun p ↦ p.tsSeg == i) = [] := by
    apply List.filter_eq_nil_iff.mpr
    intro p hp hpi
    exact hij ((beq_iff_eq.mp hpi).symm.trans (h p hp))
  rw [pktsOf, List.filter_append, hnone, List.append_nil]
  rfl

/-- A segment consists of tables that say what the bridge has announced, and of the
packets of these PES packets. -/
structure Whole (unset : UInt8) (s : Bridge) (pkts : List PesPkt) (f : Filled) : Prop where
  packets : ∃ b units, Announced b ∧ Keeps s b ∧ List.Forall₂ Carried pkts units ∧
    f.packets = [createPat, createPmt unset b] ++ (units.map (List.map TsWrite.bytes)).flatten

theorem Whole.fill {unset : UInt8} {s : Bridge} {pkts more : List PesPkt} {f f' : Filled}
    (h : Whole unset s pkts f) {units : List (List TsWrite)} (hmore : List.Forall₂ Carried more units)
    (hf : f'.packets = f.packets ++ (units.map (List.map TsWrite.bytes)).flatten) :
    Whole unset s (pkts ++ more) f' := by
  obtain ⟨b, units₀, hannounced, hkeeps, hunits, hpackets⟩ := h.packets
  refine ⟨b, units₀ ++ units, hannounced, hkeeps, List.rel_append hunits hmore, ?_⟩
  rw [hf, hpackets, List.map_append, List.flatten_append]
  rfl

/-- The segments that the bridge does not write to any more. -/
def Station.settled (t : Station) : ℕ :=
  if t.bridge.currSeg = none then t.segs.length else t.segs.length - 1

/-- What holds of the segments and the PES packets whatever messages have come since
the bridge was in the state `s`. -/
structure Sound (unset : UInt8) (s : Bridge) (t : Station) (fs : List Filled) : Prop where
  buffered : Buffered t.bridge
  announced : Announced t.bridge
  keeps : Keeps s t.bridge
  segs : t.segs = fs.map Filled.data
  whole : ∀ i f, fs[i]? = some f → Whole unset s (pktsOf i t.pkts) f
  curr : t.bridge.currSeg = none ∨ ∃ front f, fs = front ++ [f] ∧ t.bridge.currSeg = some f.data.seg
  pkts : ∀ p ∈ t.pkts, ∃ writes, Stored fs p writes

structure Advances (t t' : Station) (fs fs' : List Filled) : Prop where
  grows : Grows fs fs'
  settled_le : t.settled ≤ t'.settled
  kept : ∀ i < t.settled, fs'[i]? = fs[i]? ∧ pktsOf i t'.pkts = pktsOf i t.pkts

variable {unset : UInt8} {s : Bridge} {t : Station} {fs : List Filled}

theorem Sound.start {before : List Message} {es : List Emitted} (hbefore : Bridge.run {} before = .ok (s, es))
    (hseg : s.currSeg = none) (ha : Announced s) : Sound unset s ⟨s, [], []⟩ [] :=
  { buffered := run_buffered Buffered.fresh hbefore
    announced := ha
    keeps := .refl s
    segs := rfl
    whole := fun i f hf ↦ absurd hf (by simp)
    curr := .inl hseg
    pkts := List.forall_mem_nil _ }

theorem Sound.length_eq (h : Sound unset s t fs) : t.segs.length = fs.length := by
  rw [h.segs, List.length_map]

/-- The segment that a message writes to is the last one, be it new or not. -/
theorem Sound.opened (h : Sound unset s t fs) {s' : Bridge} (hk : Keeps t.bridge s') {e : Emitted}
    {seg : TsSegment} (hfound : e.tables = [] ∧ t.bridge.currSeg = some seg ∨
      e.tables ≠ [] ∧ seg = Bridge.newSegment.allocTsPacket.2.allocTsPacket.2) :
    ∃ front f, Grows fs (front ++ [f]) ∧
      (∀ i g, (front ++ [f])[i]? = some g → Whole unset s (pktsOf i t.pkts) g) ∧ f.data.seg = seg ∧
      (if e.tables = [] then t.segs else t.segs ++ [freshSegment unset s']) =
        front.map Filled.data ++ [f.data] ∧
      t.settled ≤ front.length ∧ ∀ i < front.length, fs[i]? = front[i]? := by
  have hlen := h.length_eq
  rcases hfound with ⟨ht, hseg⟩ | ⟨ht, rfl⟩
  · rcases h.curr with hcurr | ⟨front, f, rfl, hcurr⟩
    · rw [hseg] at hcurr
      cases hcurr
    · refine ⟨front, f, .refl _, h.whole, Option.some.inj (hcurr.symm.trans hseg), ?_, ?_, ?_⟩
      · rw [if_pos ht, h.segs, List.map_append, List.map_singleton]
      · rw [Station.settled, hseg, if_neg (Option.some_ne_none seg), hlen, List.length_append]
        exact le_rfl
      · intro i hi
        exact List.getElem?_append_left hi
  · obtain ⟨f, hf⟩ : ∃ f : Filled, f = ⟨_, _, freshSegment_holds unset s'⟩ := ⟨_, rfl⟩
    refine ⟨fs, f, grows_new fs f, ?_, by rw [hf]; rfl, by rw [if_neg ht, h.segs, hf], ?_, fun _ _ ↦ rfl⟩
    · intro i g hg
      rcases Nat.lt_or_ge i fs.length with hi | hi
      · exact h.whole i g ((List.getElem?_append_left hi).symm.trans hg)
      · have hnone : pktsOf i t.pkts = [] := by
          apply List.filter_eq_nil_iff.mpr
          intro p hp hpi
          obtain ⟨writes, hstored⟩ := h.pkts p hp
          have hlt := hstored.tsSeg_lt
          rw [beq_iff_eq.mp hpi] at hlt
          omega
        rw [List.getElem?_append_right hi] at hg
        rw [hnone, List.mem_singleton.mp (List.mem_of_getElem? hg), hf]
        exact ⟨s', [], h.announced.keep hk, h.keeps.trans hk, .nil, rfl⟩
    · rw [Station.settled]
      split <;> omega

/-- PES packets go to the last segment, and to no other one. -/
theorem whole_last {front : List Filled} {f f' : Filled} {pkts more : List PesPkt}
    (h : ∀ i g, (front ++ [f])[i]? = some g → Whole unset s (pktsOf i pkts) g)
    (hseg : ∀ p ∈ more, p.tsSeg = front.length)
    (hf : Whole unset s (pktsOf front.length pkts ++ more) f') :
    ∀ i g, (front ++ [f'])[i]? = some g → Whole unset s (pktsOf i (pkts ++ more)) g := by
  intro i g hg
  rcases Nat.lt_or_ge i front.length with hi | hi
  · rw [List.getElem?_append_left hi] at hg
    rw [pktsOf_append_ne (by omega) pkts hseg]
    exact h i g ((List.getElem?_append_left hi).trans hg)
  · rw [List.getElem?_append_right hi] at hg
    have hzero := Nat.lt_one_iff.mp (List.getElem?_eq_some_iff.mp hg).1
    obtain rfl : i = front.length := by omega
    rw [pktsOf_append_self pkts hseg, List.mem_singleton.mp (List.mem_of_getElem? hg)]
    exact hf

/-- What a message adds to the PES packets. -/
theorem sends_carried {pid : ℕ} {s s' : Bridge} {e : Emitted} (h : Sends pid s s' e)
    (hpid : pid = 0x100 ∨ pid = 0x101) {more : List PesPkt} (tsSeg tsIndex tsOff : ℕ)
    (tsBytes : BitVec 32) (hmore : more = e.pes.toList.map fun pes ↦ ⟨pid, pes, tsSeg, tsIndex, tsOff, tsBytes⟩) :
    (∀ p ∈ more, Carried p e.writes) ∧ ∃ units, List.Forall₂ Carried more units ∧
      (units.map (List.map TsWrite.bytes)).flatten = e.writes.map TsWrite.bytes := by
  subst hmore
  rcases h.packets with ⟨hpes, hw⟩ | ⟨pes, hpes, hunit⟩
  · rw [hpes, hw]
    exact ⟨List.forall_mem_nil _, [], .nil, rfl⟩
  · rw [hpes]
    refine ⟨fun p hp ↦ ?_, [e.writes], .cons ⟨hpid, hunit⟩ .nil, List.flatten_singleton⟩
    obtain rfl := List.mem_singleton.mp hp
    exact ⟨hpid, hunit⟩

/-- A message that writes nothing leaves the segments as they are. -/
theorem Sound.take_idle (h : Sound unset s t fs) {pid : ℕ} {s' : Bridge} {e : Emitted}
    (hsends : Sends pid t.bridge s' e) (hwrites : e.writes = [])
    (hseg : s'.currSeg = none ∨ s'.currSeg = t.bridge.currSeg) :
    ∃ fs', Advances t (t.put s' t.segs pid e) fs fs' ∧ Sound unset s (t.put s' t.segs pid e) fs' := by
  have hannounced := h.announced.keep hsends.keeps
  have hkeeps := h.keeps.trans hsends.keeps
  have hpes : e.pes = none := by
    rcases hsends.packets with hpes | ⟨pes, -, hunit⟩
    · exact hpes.1
    · obtain ⟨w, rest, hw, -⟩ := hunit.start
      rw [hwrites] at hw
      cases hw
  refine ⟨fs, ?_⟩
  cases hcurr' : s'.currSeg with
  | none =>
    rw [t.put_none hcurr']
    refine ⟨⟨.refl fs, ?_, fun _ _ ↦ ⟨rfl, rfl⟩⟩,
      hsends.buffered, hannounced, hkeeps, h.segs, h.whole, .inl hcurr', h.pkts⟩
    rw [Station.settled, Station.settled, if_pos hcurr']
    split <;> simp only <;> omega
  | some seg =>
    rcases h.curr with hcurr | ⟨front, f, rfl, hcurr⟩
    · exact absurd hcurr (ne_none_of_kept hseg (by rw [hcurr']; exact Option.some_ne_none seg))
    · have hsame : s'.currSeg = some f.data.seg := by
        rcases hseg with hseg | hseg
        · rw [hcurr'] at hseg
          cases hseg
        · rw [hseg, hcurr]
      have hsegs := h.segs
      rw [List.map_append, List.map_singleton] at hsegs
      have hput := t.put_last hsame (front.map Filled.data) f.data pid e
      rw [hwrites, hpes, Option.toList_none, List.map_nil, List.append_nil] at hput
      rw [hsegs, hput]
      refine ⟨⟨.refl _, ?_, fun _ _ ↦ ⟨rfl, rfl⟩⟩, hsends.buffered, hannounced, hkeeps,
        by rw [List.map_append]; rfl, h.whole, .inr ⟨front, f, rfl, hsame⟩, h.pkts⟩
      rw [Station.settled, Station.settled, hcurr, hsame, hsegs, if_neg (Option.some_ne_none _),
        if_neg (Option.some_ne_none _)]
      rfl

/-- The packets of a message come behind those of the segment that it finds or opens. -/
theorem Sound.take_written (h : Sound unset s t fs) {pid : ℕ} (hpid : pid = 0x100 ∨ pid = 0x101)
    {s' : Bridge} {e : Emitted} (hsends : Sends pid t.bridge s' e) {seg seg' : TsSegment}
    (hfound : e.tables = [] ∧ t.bridge.currSeg = some seg ∨
      e.tables ≠ [] ∧ seg = Bridge.newSegment.allocTsPacket.2.allocTsPacket.2)
    (hslots : allocTsPackets e.writes.length seg = (e.writes.map TsWrite.slot, seg'))
    (hlen : ∀ w ∈ e.writes, w.bytes.length = 188) (hcurr : s'.currSeg = some seg')
    {segs : List SegmentData}
    (hopen : (if e.tables = [] then t.segs else t.segs ++ [freshSegment unset s']) = segs) :
    ∃ fs', Advances t (t.put s' segs pid e) fs fs' ∧ Sound unset s (t.put s' segs pid e) fs' := by
  have hannounced := h.announced.keep hsends.keeps
  have hkeeps := h.keeps.trans hsends.keeps
  obtain ⟨front, f, hgrows, hwhole, hfseg, hsegs, hsettled, hkept⟩ := h.opened hsends.keeps hfound
  rw [← hfseg] at hslots
  have hholds := f.holds.fill e.writes hlen hslots
  obtain ⟨f', hf'⟩ : ∃ f' : Filled, f' = ⟨_, _, hholds⟩ := ⟨_, rfl⟩
  have hpackets : f'.packets = f.packets ++ e.writes.map TsWrite.bytes := by rw [hf']
  have hle : f.data.seg.tsChunks ≤ f'.data.seg.tsChunks := by
    rw [hf']
    simpa only [hslots] using (allocTsPackets_allocated e.writes.length f.data.seg).chunks_le
  have hgrows' := hgrows.trans (grows_last front hpackets hle)
  have hfirst (i : ℕ) (hi : i < t.settled) : (front ++ [f'])[i]? = fs[i]? := by
    rw [List.getElem?_append_left (by omega), hkept i (by omega)]
  have hcurr' : s'.currSeg = none ∨ ∃ front₁ f₁, front ++ [f'] = front₁ ++ [f₁] ∧
      s'.currSeg = some f₁.data.seg := .inr ⟨front, f', rfl, by rw [hcurr, hf']⟩
  have hsegs' : front.map Filled.data ++ [⟨seg', f.data.mem.writeAll e.writes⟩] =
      (front ++ [f']).map Filled.data := by rw [List.map_append, List.map_singleton, hf']
  obtain ⟨more, hmore⟩ : ∃ more, more = e.pes.toList.map fun pes ↦ (⟨pid, pes, front.length,
      f.data.seg.tsChunkIndex, f.data.seg.tsChunkOff, BitVec.ofNat 32 (188 * e.writes.length)⟩ : PesPkt) :=
    ⟨_, rfl⟩
  have hmoreSeg : ∀ p ∈ more, p.tsSeg = front.length := by
    intro p hp
    rw [hmore] at hp
    obtain ⟨pes, -, rfl⟩ := List.mem_map.mp hp
    rfl
  obtain ⟨hcarried, units, hunits, hflat⟩ := sends_carried hsends hpid front.length
    f.data.seg.tsChunkIndex f.data.seg.tsChunkOff (BitVec.ofNat 32 (188 * e.writes.length)) hmore
  rw [← hopen, hsegs, t.put_last hcurr, List.length_map, hsegs', ← hmore]
  refine ⟨front ++ [f'], ⟨hgrows', ?_, ?_⟩, hsends.buffered, hannounced, hkeeps, rfl, ?_, hcurr', ?_⟩
  · change t.settled ≤ if s'.currSeg = none then _ else _
    rw [hcurr, if_neg (Option.some_ne_none seg'), List.length_map, List.length_append]
    exact hsettled
  · intro i hi
    exact ⟨hfirst i hi, pktsOf_append_ne (by omega) t.pkts hmoreSeg⟩
  · apply whole_last hwhole hmoreSeg
    apply (hwhole front.length f List.getElem?_concat_length).fill hunits
    rw [hpackets, hflat]
  · intro p hp
    rcases List.mem_append.mp hp with hp | hp
    · obtain ⟨writes, hstored⟩ := h.pkts p hp
      exact ⟨writes, hstored.grow hgrows'⟩
    · have hp' := hcarried p hp
      rw [hmore] at hp
      obtain ⟨pes, -, rfl⟩ := List.mem_map.mp hp
      exact ⟨e.writes, hp', f.data.seg.off_le, rfl, f', f.packets, [],
        List.getElem?_concat_length, by rw [hpackets, List.append_nil], f.holds.place⟩

/-- One message of a stream. -/
theorem Sound.take (h : Sound unset s t fs) {m : Message} (hfills : FillsPacket t.bridge m) {t' : Station}
    (ht : t.take unset m = .ok t') : ∃ fs', Advances t t' fs fs' ∧ Sound unset s t' fs' := by
  obtain ⟨⟨s', b, e⟩, hstep, ht⟩ := Outcome.bind_eq_ok.mp ht
  obtain ⟨pid, hmpid, hpid, hsends⟩ := process_sends h.buffered hfills hstep
  cases ht
  rw [hmpid, Option.getD_some]
  cases hsends.placed with
  | idle htables hwrites hseg =>
    rw [if_pos htables]
    exact h.take_idle hsends hwrites hseg
  | written seg seg' hfound hslots hlen hcurr =>
    exact h.take_written hpid hsends hfound hslots hlen hcurr rfl

end Contents

section Receive

variable {unset : UInt8} {s : Bridge} {t : Station} {fs : List Filled}

def pesOf (pid : ℕ) (pkts : List PesPkt) : List Bytes :=
  (pkts.filter fun p ↦ p.pid == pid).map PesPkt.pes

theorem pesOf_append (pid : ℕ) (pkts more : List PesPkt) :
    pesOf pid (pkts ++ more) = pesOf pid pkts ++ pesOf pid more := by
  rw [pesOf, List.filter_append, List.map_append]
  rfl

theorem pesOf_singleton (pid : ℕ) (p : PesPkt) : pesOf pid [p] = if pid = p.pid then [p.pes] else [] := by
  by_cases h : p.pid = pid
  · simp [pesOf, h]
  · simp [pesOf, h, Ne.symm h]

/-- A receiver gets these PES packets behind those it has, as far as they are listed. -/
structure Gets (s : Bridge) (d d' : Receiver) (pkts : List PesPkt) : Prop where
  pes : ∀ q, d'.pes q = d.pes q ++ if Listed s q then pesOf q pkts else []

theorem Gets.nothing {d d' : Receiver} (h : d'.pes = d.pes) : Gets s d d' [] := by
  refine ⟨fun q ↦ ?_⟩
  rw [h, pesOf, List.filter_nil, List.map_nil, ite_self, List.append_nil]

theorem Gets.trans {d₁ d₂ d₃ : Receiver} {pkts more : List PesPkt} (h : Gets s d₁ d₂ pkts)
    (h' : Gets s d₂ d₃ more) : Gets s d₁ d₃ (pkts ++ more) := by
  refine ⟨fun q ↦ ?_⟩
  rw [h'.pes q, h.pes q, pesOf_append, List.append_assoc]
  congr 1
  split <;> rfl

theorem Carried.received {p : PesPkt} {writes : List TsWrite} (h : Carried p writes) {d : Receiver}
    (hd : Knows d s) : ∃ d', (writes.map TsWrite.bytes).foldl Receiver.packet d = d' ∧ Knows d' s ∧
      Gets s d d' [p] := by
  obtain ⟨d', hd', hknows, hpes⟩ := unit_received h.pid h.unit hd
  refine ⟨d', hd', hknows, ⟨fun q ↦ ?_⟩⟩
  rw [hpes q]
  rw [pesOf_singleton]
  by_cases hq : q = p.pid
  · simp only [hq, true_and, if_true]
  · simp only [hq, false_and, if_false, ite_self]

theorem units_received {pkts : List PesPkt} {units : List (List TsWrite)}
    (h : List.Forall₂ Carried pkts units) {d : Receiver} (hd : Knows d s) :
    ∃ d', (units.map (List.map TsWrite.bytes)).flatten.foldl Receiver.packet d = d' ∧ Knows d' s ∧
      Gets s d d' pkts := by
  induction h generalizing d with
  | nil => exact ⟨d, rfl, hd, .nothing rfl⟩
  | cons hp _ ih =>
    obtain ⟨d₁, hd₁, hknows₁, hgets₁⟩ := hp.received hd
    obtain ⟨d₂, hd₂, hknows₂, hgets₂⟩ := ih hknows₁
    refine ⟨d₂, ?_, hknows₂, hgets₁.trans hgets₂⟩
    rw [List.map_cons, List.flatten_cons, List.foldl_append, hd₁, hd₂]

/-- The tables of a segment tell a receiver all that it has to know. -/
theorem tables_known {b : Bridge} (ha : Announced b) (hk : Keeps s b) (unset : UInt8) (d : Receiver) :
    ∃ d', [createPat, createPmt unset b].foldl Receiver.packet d = d' ∧ Knows d' s ∧ d'.pes = d.pes := by
  obtain ⟨d', hd', hknows, hpes⟩ := tables_received ha d unset
  exact ⟨d', hd', ⟨hknows.pmtPid_eq, hknows.video.trans hk.hasVideo, hknows.audio.trans hk.hasAudio⟩, hpes⟩

/-- Whatever a receiver has got before, it gets all PES packets of a segment. -/
theorem Whole.received {pkts : List PesPkt} {f : Filled} (h : Whole unset s pkts f) (d : Receiver) :
    Gets s d (f.packets.foldl Receiver.packet d) pkts := by
  obtain ⟨b, units, hannounced, hkeeps, hunits, hpackets⟩ := h.packets
  obtain ⟨d₁, hd₁, hknows, hpes⟩ := tables_known hannounced hkeeps unset d
  obtain ⟨d₂, hd₂, -, hgets⟩ := units_received hunits hknows
  have hfold : f.packets.foldl Receiver.packet d = d₂ := by
    rw [hpackets, List.foldl_append, hd₁, hd₂]
  rw [hfold]
  exact (Gets.nothing hpes).trans hgets

theorem demux_append (packets more : List Bytes) :
    demux (packets ++ more) = more.foldl Receiver.packet (demux packets) := List.foldl_append

end Receive

end MmsServer.Ts.SegmentMemory
