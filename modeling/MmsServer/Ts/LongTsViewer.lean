import MmsServer.Ts.SegmentMemory

namespace MmsServer.Ts.LongTsViewer

open Lib.ByteReader Lib.Checked Lib.ChunkedMemory Rtmp.FlvTag Segment Packetizer SegmentReaders
open RtmpBridge Continuity Tables AacStream Demux SegmentMemory

section Viewer

structure SendBuf where
  tsSeg : ℕ
  bufs : List Extent

/-- What `send_ts_seg` collects before it writes. A segment that is not the one before
is preceded by its first two packets. -/
def collectBufs (segs : List SegmentData) : Option ℕ → List PesPkt → Option (List SendBuf × Option ℕ)
  | prevTsSeg, [] => some ([], prevTsSeg)
  | prevTsSeg, pkt :: pkts => do
    let d ← segs[pkt.tsSeg]?
    let tables := if some pkt.tsSeg = prevTsSeg then [] else [⟨pkt.tsSeg, [⟨0, 0, 188 * 2⟩]⟩]
    let bufs ← getTsSeg d.seg pkt.tsIndex pkt.tsOff pkt.tsBytes
    let (rest, prevTsSeg) ← collectBufs segs (some pkt.tsSeg) pkts
    return (tables ++ ⟨pkt.tsSeg, bufs⟩ :: rest, prevTsSeg)

structure Viewer where
  prevTsSeg : Option ℕ := none
  sendBufs : List SendBuf := []
  sent : List PesPkt := []
  written : Bytes := []

/-- The bridge goes on while the buffers of the viewer wait for the connection, which
reads them one after the other. -/
inductive Step (unset : UInt8) : Station × Viewer → Station × Viewer → Prop
  | message {t t' : Station} (v : Viewer) (m : Message) (fills : FillsPacket t.bridge m)
      (taken : t.take unset m = .ok t') : Step unset (t, v) (t', v)
  | sendTsSeg (t : Station) (v : Viewer) (pkts : List PesPkt) (handed : ∀ p ∈ pkts, p ∈ t.pkts)
      (small : ∀ p ∈ pkts, p.pes.length < 2 ^ 23) (idle : v.sendBufs = []) {bufs : List SendBuf} {prevTsSeg : Option ℕ}
      (collected : collectBufs t.segs v.prevTsSeg pkts = some (bufs, prevTsSeg)) :
      Step unset (t, v)
        (t, { v with prevTsSeg := prevTsSeg, sendBufs := bufs, sent := v.sent ++ pkts })
  | writeData (t : Station) (v : Viewer) {buf : SendBuf} {rest : List SendBuf} {d : SegmentData}
      (next : v.sendBufs = buf :: rest) (seg : t.segs[buf.tsSeg]? = some d) :
      Step unset (t, v)
        (t, { v with sendBufs := rest, written := v.written ++ readAll d.mem buf.bufs })

/-- The buffers are inside of the segment, at the place of these packets. -/
structure Shows (fs : List Filled) (buf : SendBuf) (packets : List Bytes) : Prop where
  found : ∃ f front back, fs[buf.tsSeg]? = some f ∧ f.packets = front ++ packets ++ back ∧
    Covers singleTsBytes (188 * front.length) (188 * packets.length) buf.bufs ∧
    ∀ e ∈ buf.bufs, e.Fits singleTsBytes f.data.seg.tsChunks

theorem Shows.grow {fs fs' : List Filled} (hg : Grows fs fs') {buf : SendBuf} {packets : List Bytes}
    (h : Shows fs buf packets) : Shows fs' buf packets := by
  obtain ⟨f, front, back, hf, hpackets, hcovers, hfits⟩ := h.found
  obtain ⟨f', more, hf', hmore, hle⟩ := hg _ f hf
  refine ⟨f', front, back ++ more, hf', ?_, hcovers, fun e he ↦ (hfits e he).mono hle⟩
  rw [hmore, hpackets, List.append_assoc]

/-- Whenever the connection reads the buffers, it reads these packets. -/
theorem Shows.read {fs : List Filled} {buf : SendBuf} {packets : List Bytes} (h : Shows fs buf packets) :
    ∃ f, fs[buf.tsSeg]? = some f ∧ readAll f.data.mem buf.bufs = packets.flatten ∧
      (∀ p ∈ packets, p.length = 188) ∧ ∀ e ∈ buf.bufs, e.Fits singleTsBytes f.data.seg.tsChunks := by
  obtain ⟨f, front, back, hf, hpackets, hcovers, hfits⟩ := h.found
  have hholds := f.holds
  rw [hpackets] at hholds
  refine ⟨f, hf, ?_, ?_, hfits⟩
  · rw [hcovers UInt8 f.data.mem, hholds.slice]
  · intro p hp
    exact hholds.length p (List.mem_append_left back (List.mem_append_right front hp))

variable {unset : UInt8} {s : Bridge} {fs : List Filled}

/-- The first two packets of a segment are its tables. -/
theorem tables_shown {f : Filled} {i : ℕ} (hf : fs[i]? = some f) {pkts : List PesPkt}
    (h : Whole unset s pkts f) : ∃ b, Announced b ∧ Keeps s b ∧
    Shows fs ⟨i, [⟨0, 0, 188 * 2⟩]⟩ [createPat, createPmt unset b] := by
  obtain ⟨b, units, hannounced, hkeeps, -, hpackets⟩ := h.packets
  have hle : (⟨0, 0, 188 * 2⟩ : Extent).off + (⟨0, 0, 188 * 2⟩ : Extent).size ≤ singleTsBytes := by decide
  refine ⟨b, hannounced, hkeeps, f, [], _, hf, hpackets, ?_, ?_⟩
  · exact covers_single hle rfl
  · intro e he
    obtain rfl := List.mem_singleton.mp he
    have hchunks := f.data.seg.chunks_eq
    exact ⟨by simp only; omega, hle⟩

theorem stored_shown {p : PesPkt} {writes : List TsWrite} (h : Stored fs p writes)
    (hsmall : p.pes.length < 2 ^ 23) :
    ∃ f bufs, fs[p.tsSeg]? = some f ∧
      getTsSeg f.data.seg p.tsIndex p.tsOff p.tsBytes = some bufs ∧
      Shows fs ⟨p.tsSeg, bufs⟩ (writes.map TsWrite.bytes) := by
  obtain ⟨f, front, back, hf, hpackets, hplace⟩ := h.packets
  have hfits : p.tsIndex * singleTsBytes + p.tsOff + 188 * writes.length ≤
      f.data.seg.tsChunks * singleTsBytes := by
    have hle := place_le f.data.seg
    rw [f.holds.place, hpackets, List.length_append, List.length_append, List.length_map] at hle
    rw [hplace]
    omega
  have hcount := h.carried.unit.count
  obtain ⟨bufs, hbufs, hinside, hcovers⟩ :=
    getTsSeg_spec f.data.seg p.tsIndex p.tsOff h.off_le hfits (by omega)
  rw [← h.bytes] at hbufs
  refine ⟨f, bufs, hf, hbufs, f, front, back, hf, hpackets, ?_, hinside⟩
  rwa [hplace, ← List.length_map TsWrite.bytes] at hcovers

/-- A segment that is new to the viewer brings its tables. -/
theorem switch_received {prevTsSeg : Option ℕ} {d : Receiver} (hd : prevTsSeg ≠ none → Knows d s) {f : Filled}
    {i : ℕ} (hf : fs[i]? = some f) {pkts : List PesPkt} (hwhole : Whole unset s pkts f) : ∃ parts d',
      List.Forall₂ (Shows fs) (if some i = prevTsSeg then [] else [⟨i, [⟨0, 0, 188 * 2⟩]⟩]) parts ∧
      parts.flatten.foldl Receiver.packet d = d' ∧ Knows d' s ∧ d'.pes = d.pes := by
  by_cases hprev : some i = prevTsSeg
  · rw [if_pos hprev]
    refine ⟨[], d, .nil, rfl, hd ?_, rfl⟩
    rw [← hprev]
    exact Option.some_ne_none i
  · rw [if_neg hprev]
    obtain ⟨b, hannounced, hkeeps, hshows⟩ := tables_shown hf hwhole
    obtain ⟨d', hd', hknows, hpes⟩ := tables_known hannounced hkeeps unset d
    refine ⟨[[createPat, createPmt unset b]], d', .cons hshows .nil, ?_, hknows, hpes⟩
    rw [List.flatten_singleton, hd']

theorem collectBufs_received {all : List PesPkt}
    (hwhole : ∀ i f, fs[i]? = some f → Whole unset s (pktsOf i all) f) {pkts : List PesPkt}
    (hstored : ∀ p ∈ pkts, ∃ writes, Stored fs p writes) (hsmall : ∀ p ∈ pkts, p.pes.length < 2 ^ 23) {prevTsSeg : Option ℕ} {d : Receiver}
    (hd : prevTsSeg ≠ none → Knows d s) : ∃ bufs prevTsSeg' parts d',
      collectBufs (fs.map Filled.data) prevTsSeg pkts = some (bufs, prevTsSeg') ∧
      List.Forall₂ (Shows fs) bufs parts ∧ parts.flatten.foldl Receiver.packet d = d' ∧
      (prevTsSeg' ≠ none → Knows d' s) ∧ Gets s d d' pkts := by
  induction pkts generalizing prevTsSeg d with
  | nil => exact ⟨[], prevTsSeg, [], d, rfl, .nil, rfl, hd, .nothing rfl⟩
  | cons p pkts ih =>
    obtain ⟨⟨writes, hp⟩, hrest⟩ := List.forall_mem_cons.mp hstored
    obtain ⟨hlt, hsmall⟩ := List.forall_mem_cons.mp hsmall
    obtain ⟨f, bufs, hf, hbufs, hshows⟩ := stored_shown hp hlt
    obtain ⟨tables, d₁, htables, hd₁, hknows₁, hpes⟩ := switch_received hd hf (hwhole p.tsSeg f hf)
    obtain ⟨d₂, hd₂, hknows₂, hgets₂⟩ := hp.carried.received hknows₁
    have hnext : some p.tsSeg ≠ none → Knows d₂ s := fun _ ↦ hknows₂
    obtain ⟨rest, prevTsSeg', parts, d₃, hcollect, hparts, hd₃, hknows₃, hgets₃⟩ := ih hrest hsmall hnext
    refine ⟨_, prevTsSeg', tables ++ writes.map TsWrite.bytes :: parts, d₃, ?_,
      List.rel_append htables (.cons hshows hparts), ?_, hknows₃,
      (Gets.nothing hpes).trans (hgets₂.trans hgets₃)⟩
    · rw [collectBufs, List.getElem?_map, hf]
      simp only [Option.map_some, Option.bind_eq_bind, Option.bind_some, hbufs, hcollect]
      rfl
    · rw [List.flatten_append, List.flatten_cons, List.foldl_append, List.foldl_append, hd₁, hd₂, hd₃]

/-- What holds of a viewer: `done` is written, and the buffers that wait show `parts`. -/
structure Inv (unset : UInt8) (s : Bridge) (t : Station) (v : Viewer) (fs : List Filled)
    (done : List Bytes) (parts : List (List Bytes)) : Prop where
  sound : Sound unset s t fs
  shows : List.Forall₂ (Shows fs) v.sendBufs parts
  written : v.written = done.flatten
  length : ∀ p ∈ done, p.length = 188
  knows : v.prevTsSeg ≠ none → Knows (demux (done ++ parts.flatten)) s
  gets : Gets s {} (demux (done ++ parts.flatten)) v.sent

theorem Inv.step {t t' : Station} {v v' : Viewer} {done : List Bytes} {parts : List (List Bytes)}
    (h : Inv unset s t v fs done parts) (hstep : Step unset (t, v) (t', v')) :
    ∃ fs' done' parts', Inv unset s t' v' fs' done' parts' := by
  cases hstep with
  | message _ m fills taken =>
    obtain ⟨fs', hadvances, hsound⟩ := h.sound.take fills taken
    exact ⟨fs', done, parts, hsound, h.shows.imp fun _ _ hs ↦ hs.grow hadvances.grows, h.written,
      h.length, h.knows, h.gets⟩
  | sendTsSeg _ _ pkts handed small idle collected =>
    have hshows := h.shows
    rw [idle] at hshows
    cases hshows
    obtain ⟨bufs, prevTsSeg, parts, d', hcollect, hparts, hd', hknows, hgets⟩ :=
      collectBufs_received h.sound.whole (fun p hp ↦ h.sound.pkts p (handed p hp)) small h.knows
    rw [← h.sound.segs, collected] at hcollect
    cases hcollect
    rw [List.flatten_nil, List.append_nil, ← demux_append] at hd'
    refine ⟨fs, done, parts, h.sound, hparts, h.written, h.length, ?_, ?_⟩
    · rw [hd']
      exact hknows
    · rw [hd']
      exact h.gets.trans hgets
  | writeData _ _ next seg =>
    have hshows := h.shows
    rw [next] at hshows
    obtain ⟨packets, parts, hbuf, hrest, rfl⟩ : ∃ packets rest, Shows fs _ packets ∧
        List.Forall₂ (Shows fs) _ rest ∧ parts = packets :: rest := by
      cases hshows with
      | cons hbuf hrest => exact ⟨_, _, hbuf, hrest, rfl⟩
    obtain ⟨f, hf, hread, hlen, -⟩ := hbuf.read
    rw [h.sound.segs, List.getElem?_map, hf, Option.map_some] at seg
    cases seg
    have hall : demux (done ++ packets ++ parts.flatten) = demux (done ++ (packets :: parts).flatten) := by
      rw [List.flatten_cons, List.append_assoc]
    refine ⟨fs, done ++ packets, parts, h.sound, hrest, ?_, ?_, hall ▸ h.knows, hall ▸ h.gets⟩
    · simp only [h.written, hread, List.flatten_append]
    · intro p hp
      rcases List.mem_append.mp hp with hp | hp
      · exact h.length p hp
      · exact hlen p hp

theorem inv_run {t t' : Station} {v v' : Viewer} {done : List Bytes} {parts : List (List Bytes)}
    (h : Inv unset s t v fs done parts)
    (hrun : Relation.ReflTransGen (Step unset) (t, v) (t', v')) :
    ∃ fs' done' parts', Inv unset s t' v' fs' done' parts' := by
  obtain ⟨p, hp⟩ : ∃ p, p = (t', v') := ⟨_, rfl⟩
  rw [← hp] at hrun
  induction hrun generalizing t' v' with
  | refl =>
    cases hp
    exact ⟨fs, done, parts, h⟩
  | @tail q _ _ hstep ih =>
    subst hp
    obtain ⟨fs₁, done₁, parts₁, h₁⟩ := ih rfl
    exact h₁.step hstep

/-- Nothing but the connection keeps the buffers from being written. -/
theorem buffers_drain {t : Station} (hsegs : t.segs = fs.map Filled.data) {v : Viewer}
    {parts : List (List Bytes)} (h : List.Forall₂ (Shows fs) v.sendBufs parts) :
    ∃ v', Relation.ReflTransGen (Step unset) (t, v) (t, v') ∧ v'.sendBufs = [] ∧ v'.sent = v.sent := by
  obtain ⟨bufs, hbufs⟩ : ∃ bufs, v.sendBufs = bufs := ⟨_, rfl⟩
  rw [hbufs] at h
  induction h generalizing v with
  | nil => exact ⟨v, .refl, hbufs, rfl⟩
  | @cons buf _ rest _ hbuf _ ih =>
    obtain ⟨f, hf, -⟩ := hbuf.read
    have hseg : t.segs[buf.tsSeg]? = some f.data := by
      rw [hsegs, List.getElem?_map, hf]
      rfl
    obtain ⟨next, hnext⟩ : ∃ next : Viewer, next =
        { v with sendBufs := rest, written := v.written ++ readAll f.data.mem buf.bufs } := ⟨_, rfl⟩
    obtain ⟨v', hrun, hidle, hsent⟩ := ih (by rw [hnext] : next.sendBufs = rest)
    rw [hnext] at hrun hsent
    exact ⟨v', hrun.head (.writeData t v hbufs hseg), hidle, hsent⟩

end Viewer

/-- A viewer of a bridge that has announced its streams gets whole packets which a receiver
turns into the PES packets that it has been handed, each once and in that order, and into
nothing on any other PID, although the bridge goes on writing to the segments while the
buffers wait. No buffer leaves the memory of its segment, all of them can be written, and
a batch that the source can hand to the viewer next is found. -/
theorem viewer_complete (unset : UInt8) (before : List Message) (s : Bridge) (es₀ : List Emitted)
    (hbefore : Bridge.run {} before = .ok (s, es₀)) (hseg : s.currSeg = none) (ha : Announced s)
    (t : Station) (v : Viewer) (hrun : Relation.ReflTransGen (Step unset) (⟨s, [], []⟩, {}) (t, v)) :
    (v.sendBufs = [] → ∃ packets, v.written = packets.flatten ∧ (∀ p ∈ packets, p.length = 188) ∧
      ∀ pid, (demux packets).pes pid = if Listed s pid then pesOf pid v.sent else []) ∧
    (∀ buf ∈ v.sendBufs, ∃ d, t.segs[buf.tsSeg]? = some d ∧
      ∀ e ∈ buf.bufs, e.Fits singleTsBytes d.seg.tsChunks) ∧
    (∃ v', Relation.ReflTransGen (Step unset) (t, v) (t, v') ∧ v'.sendBufs = [] ∧ v'.sent = v.sent) ∧
    ∀ pkts, (∀ p ∈ pkts, p ∈ t.pkts) → (∀ p ∈ pkts, p.pes.length < 2 ^ 23) →
      (collectBufs t.segs v.prevTsSeg pkts).isSome := by
  have hstart : Inv unset s ⟨s, [], []⟩ {} [] [] [] :=
    { sound := .start hbefore hseg ha
      shows := .nil
      written := rfl
      length := List.forall_mem_nil _
      knows := fun h ↦ absurd rfl h
      gets := .nothing rfl }
  obtain ⟨fs, done, parts, h⟩ := inv_run hstart hrun
  refine ⟨?_, ?_, buffers_drain h.sound.segs h.shows, ?_⟩
  · intro hidle
    have hshows := h.shows
    rw [hidle] at hshows
    cases hshows
    have hgets := h.gets
    rw [List.flatten_nil, List.append_nil] at hgets
    exact ⟨done, h.written, h.length, fun pid ↦ (hgets.pes pid).trans (List.nil_append _)⟩
  · intro buf hbuf
    obtain ⟨packets, hshows⟩ : ∃ packets, Shows fs buf packets := by
      obtain ⟨i, hi, rfl⟩ := List.mem_iff_getElem.mp hbuf
      have hlen := h.shows.length_eq
      exact ⟨parts.get ⟨i, hlen ▸ hi⟩, h.shows.get hi (hlen ▸ hi)⟩
    obtain ⟨f, hf, -, -, hfits⟩ := hshows.read
    refine ⟨f.data, ?_, hfits⟩
    rw [h.sound.segs, List.getElem?_map, hf]
    rfl
  · intro pkts hpkts hsmall
    obtain ⟨bufs, prevTsSeg, parts', d', hcollect, -⟩ := collectBufs_received h.sound.whole
      (fun p hp ↦ h.sound.pkts p (hpkts p hp)) hsmall h.knows
    rw [h.sound.segs, hcollect]
    rfl

/-- Two frames in a segment each, which are handed over together. -/
theorem viewer_complete_twoSegments : ∃ t v,
    Relation.ReflTransGen (Step 0)
      (⟨(Bridge.onMetadata {} (some ⟨some .avc, none⟩)).1, [], []⟩, {}) (t, v) ∧
      t.segs.length = 2 ∧ ∃ packets, v.written = packets.flatten ∧
        (demux packets).pes 0x100 = [shortPes.flatten, shortPes.flatten] := by
  have hannounced : Announced (Bridge.onMetadata {} (some ⟨some .avc, none⟩)).1 := ⟨nofun, nofun⟩
  have hfills (canReap : Bool) (s : Bridge) : FillsPacket s (shortVideo canReap) := by
    intro segs hsegs
    cases hsegs
    exact ⟨by decide, nofun⟩
  obtain ⟨t, htwo, hall, hpes, hrun⟩ : ∃ t : Station, t.segs.length = 2 ∧
      t.pkts.map PesPkt.pes = [shortPes.flatten, shortPes.flatten] ∧
      pesOf 0x100 t.pkts = [shortPes.flatten, shortPes.flatten] ∧
      Relation.ReflTransGen (Step 0)
        (⟨(Bridge.onMetadata {} (some ⟨some .avc, none⟩)).1, [], []⟩, {}) (t, {}) :=
    ⟨_, rfl, rfl, rfl,
      (Relation.ReflTransGen.refl.tail (.message {} (shortVideo false) (hfills false _) rfl)).tail
        (.message {} (shortVideo true) (hfills true _) rfl)⟩
  have hsmall : ∀ p ∈ t.pkts, p.pes.length < 2 ^ 23 := by
    intro p hp
    have hmem : p.pes ∈ t.pkts.map PesPkt.pes := List.mem_map_of_mem hp
    rw [hall] at hmem
    have hshort : ∀ pes ∈ [shortPes.flatten, shortPes.flatten], pes.length < 2 ^ 23 := by decide
    exact hshort p.pes hmem
  obtain ⟨-, -, -, hfound⟩ := viewer_complete 0 [videoOnly] _ [{}] rfl rfl hannounced t {} hrun
  obtain ⟨⟨bufs, prevTsSeg⟩, hcollect⟩ := Option.isSome_iff_exists.mp (hfound t.pkts (fun _ ↦ id) hsmall)
  have hsent := hrun.tail (.sendTsSeg t {} t.pkts (fun _ ↦ id) hsmall rfl hcollect)
  obtain ⟨-, -, ⟨v, hdrain, hidle, hv⟩, -⟩ :=
    viewer_complete 0 [videoOnly] _ [{}] rfl rfl hannounced t _ hsent
  obtain ⟨hreceived, -⟩ :=
    viewer_complete 0 [videoOnly] _ [{}] rfl rfl hannounced t v (hsent.trans hdrain)
  obtain ⟨packets, hwritten, -, hdemux⟩ := hreceived hidle
  refine ⟨t, v, hsent.trans hdrain, htwo, packets, hwritten, ?_⟩
  rw [hdemux, if_pos (by decide), hv]
  exact hpes

end MmsServer.Ts.LongTsViewer
