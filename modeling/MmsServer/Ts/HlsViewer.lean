import MmsServer.Core.HlsSource
import MmsServer.Ts.SegmentMemory

namespace MmsServer.Ts.HlsViewer

open Lib.ByteReader Lib.Checked Lib.ChunkedMemory Lib.RecentWindow Segment Packetizer SegmentReaders
open RtmpBridge Continuity Tables AacStream Demux SegmentMemory
open Core.HlsSource hiding TsSegment

section Server

/-- The TS bridge and the HLS source behind it. A segment that the TS bridge has reaped is
known by its place among all segments: it waits for `TsToHls`, or the HLS source has it. -/
structure HlsServer where
  station : Station
  waiting : List ℕ := []
  numbered : List ℕ := []
  hls : HlsLiveMediaSource

/-- `on_ts_segment` hands on the segment that a message makes the bridge let go of. -/
def reaped (t t' : Station) : List ℕ := List.range' t.settled (t'.settled - t.settled)

def HlsServer.serve (v : HlsServer) (tsName : String) : Option Bytes := do
  let tsSeg ← v.hls.getTsSegment tsName
  let i ← v.numbered[tsSeg.seq.toNat - 1]?
  let d ← v.station.segs[i]?
  return readAll d.mem (getTsData d.seg)

/-- A player plays the segments of its playlist one after the other, starting with any
of them; `missed` counts those that have come since it has read the playlist. -/
structure Player where
  playlist : Option M3u8 := none
  missed : ℕ := 0
  first : ℕ := 0
  played : ℕ := 0
  body : Bytes := []

variable (unset : UInt8) (wild : ℤ → BitVec 32)

inductive Step : HlsServer × Player → HlsServer × Player → Prop
  | message (v : HlsServer) (p : Player) (m : Message) {t' : Station}
      (fills : FillsPacket v.station.bridge m) (taken : v.station.take unset m = .ok t') :
      Step (v, p) ({ v with station := t', waiting := v.waiting ++ reaped v.station t' }, p)
  | onTsSegment (v : HlsServer) (p : Player) (minTsCount : ℕ) (ts : Core.HlsSource.TsSegment) {i : ℕ}
      {rest : List ℕ} (next : v.waiting = i :: rest) (seqNo : v.hls.currSeqNo.toNat + 1 < 2 ^ 63)
      (short : ts.getDuration ≤ maxTargetMs) :
      Step (v, p)
        ({ v with
            waiting := rest
            numbered := v.numbered ++ [i]
            hls := v.hls.onTsSegment wild minTsCount ts },
          { p with missed := p.missed + 1 })
  | readPlaylist (v : HlsServer) (p : Player) :
      Step (v, p) (v, { p with playlist := v.hls.m3u8, missed := 0 })
  | fetch (v : HlsServer) (p : Player) (i : ℕ) {q : M3u8} {e : Entry} {body : Bytes}
      (playlist : p.playlist = some q) (entry : q.entries[i]? = some e)
      (order : p.played = 0 ∨ q.mediaSequence.toInt + i = p.first + p.played)
      (served : v.serve e.filename = some body) :
      Step (v, p) (v, { p with
        first := if p.played = 0 then q.mediaSequence.toInt.toNat + i else p.first
        played := p.played + 1
        body := p.body ++ body })

end Server

section Serve

variable {unset : UInt8} {wild : ℤ → BitVec 32} {s : Bridge}

/-- What holds of the server: the segments that are let go of get their numbers in order. -/
structure Numbers (unset : UInt8) (wild : ℤ → BitVec 32) (s : Bridge) (v : HlsServer) (fs : List Filled)
    (log : List Core.HlsSource.TsSegment) : Prop where
  sound : Sound unset s v.station fs
  order : v.numbered ++ v.waiting = List.range v.station.settled
  views : Views wild v.hls log
  length : log.length = v.numbered.length

variable {v : HlsServer} {fs : List Filled} {log : List Core.HlsSource.TsSegment}

theorem Numbers.numbered_eq (h : Numbers unset wild s v fs log) {i : ℕ} (hi : i < v.numbered.length) :
    v.numbered[i]? = some i ∧ i < v.station.settled := by
  have hlen := congrArg List.length h.order
  rw [List.length_append, List.length_range] at hlen
  have hlt : i < v.station.settled := by omega
  refine ⟨?_, hlt⟩
  rw [← List.getElem?_append_left hi, h.order, List.getElem?_range hlt]

theorem settled_le (t : Station) : t.settled ≤ t.segs.length := by
  rw [Station.settled]
  split <;> omega

theorem Numbers.filled (h : Numbers unset wild s v fs log) {i : ℕ} (hi : i < v.numbered.length) :
    ∃ f, fs[i]? = some f ∧ v.station.segs[i]? = some f.data := by
  have hlt := (h.numbered_eq hi).2
  have hle := settled_le v.station
  rw [h.sound.length_eq] at hle
  have hf := List.getElem?_eq_getElem (show i < fs.length by omega)
  refine ⟨_, hf, ?_⟩
  rw [h.sound.segs, List.getElem?_map, hf]
  rfl

theorem readAll_getTsData (f : Filled) : readAll f.data.mem (getTsData f.data.seg) = f.packets.flatten := by
  rw [getTsData_covers f.data.seg UInt8 f.data.mem, f.holds.place]
  exact f.holds.read

/-- A segment that is found is served whole. -/
theorem Numbers.serve_found (h : Numbers unset wild s v fs log) {name : String}
    {tsSeg : Core.HlsSource.TsSegment} (hfound : v.hls.getTsSegment name = some tsSeg) :
    ∃ i f, tsSeg.seq.toNat = i + 1 ∧ name = tsName (i + 1) ∧ i < v.numbered.length ∧ fs[i]? = some f ∧
      v.serve name = some f.packets.flatten := by
  have hname : tsSeg.filename = name := by simpa using List.find?_some hfound
  have hmem := List.mem_reverse.mp (List.mem_of_find?_eq_some hfound)
  rw [h.views.segments] at hmem
  obtain ⟨i, hi⟩ := List.mem_iff_getElem?.mp (List.mem_of_mem_drop hmem)
  have hlt : i < v.numbered.length := by
    rw [← h.length]
    exact (List.getElem?_eq_some_iff.mp hi).1
  have hseq := h.views.numbered.seq i tsSeg hi
  obtain ⟨f, hf, hd⟩ := h.filled hlt
  refine ⟨i, f, hseq, ?_, hlt, hf, ?_⟩
  · rw [← hname, h.views.numbered.filename i tsSeg hi]
  · rw [HlsServer.serve, hfound]
    simp only [Option.bind_eq_bind, Option.bind_some, hseq, Nat.add_sub_cancel, (h.numbered_eq hlt).1, hd,
      readAll_getTsData]
    rfl

theorem Numbers.serve_spec (h : Numbers unset wild s v fs log) {n : ℕ} {body : Bytes}
    (hserve : v.serve (tsName n) = some body) :
    ∃ i f, n = i + 1 ∧ i < v.numbered.length ∧ fs[i]? = some f ∧ body = f.packets.flatten := by
  cases hfound : v.hls.getTsSegment (tsName n) with
  | none =>
    rw [HlsServer.serve, hfound] at hserve
    cases hserve
  | some tsSeg =>
    obtain ⟨i, f, -, hname, hlt, hf, hbody⟩ := h.serve_found hfound
    rw [hserve] at hbody
    exact ⟨i, f, tsName_injective hname, hlt, hf, Option.some.inj hbody⟩

end Serve

def playedPkts (pkts : List PesPkt) (p : Player) : List PesPkt :=
  (List.range' (p.first - 1) p.played).flatMap fun i ↦ pktsOf i pkts

section Play

variable {unset : UInt8} {wild : ℤ → BitVec 32} {s : Bridge} {v : HlsServer} {fs : List Filled}
  {log : List Core.HlsSource.TsSegment}

theorem Numbers.message (h : Numbers unset wild s v fs log) {m : Message} {t' : Station}
    (hfills : FillsPacket v.station.bridge m) (ht : v.station.take unset m = .ok t') :
    ∃ fs', Numbers unset wild s { v with station := t', waiting := v.waiting ++ reaped v.station t' } fs' log ∧
      ∀ i < v.numbered.length, pktsOf i t'.pkts = pktsOf i v.station.pkts := by
  obtain ⟨fs', hadvances, hsound⟩ := h.sound.take hfills ht
  refine ⟨fs', ⟨hsound, ?_, h.views, h.length⟩, fun i hi ↦ (hadvances.kept i (h.numbered_eq hi).2).2⟩
  have hsum := Nat.add_sub_cancel' hadvances.settled_le
  have hrange := List.range'_append_1 (s := 0) (m := v.station.settled) (n := t'.settled - v.station.settled)
  rw [Nat.zero_add, hsum] at hrange
  rw [← List.append_assoc, h.order, reaped, List.range_eq_range', List.range_eq_range', hrange]

theorem ready_onTsSegment {hls : HlsLiveMediaSource} (h : hls.isReady = true) (minTsCount : ℕ)
    (ts : Core.HlsSource.TsSegment) : (hls.onTsSegment wild minTsCount ts).isReady = true := by
  unfold HlsLiveMediaSource.onTsSegment HlsLiveMediaSource.updateM3u8
  simp only [h, Bool.true_or]
  split <;> rfl

/-- What holds of a player: its playlist is that of an earlier state of the source. -/
structure Plays (unset : UInt8) (wild : ℤ → BitVec 32) (s : Bridge) (v : HlsServer) (p : Player)
    (fs : List Filled) (log : List Core.HlsSource.TsSegment) : Prop where
  numbers : Numbers unset wild s v fs log
  playlist : ∀ q, p.playlist = some q → v.hls.isReady = true ∧ ∃ earlier log₀ new,
    Views wild earlier log₀ ∧ earlier.m3u8 = some q ∧ log = log₀ ++ new ∧ new.length = p.missed
  place : p.played ≠ 0 → 0 < p.first ∧ p.first - 1 + p.played ≤ v.numbered.length
  body : ∃ packets, p.body = packets.flatten ∧ (∀ x ∈ packets, x.length = 188) ∧
    Gets s {} (demux packets) (playedPkts v.station.pkts p)

theorem playedPkts_next (pkts : List PesPkt) {p p' : Player} {j : ℕ}
    (hfirst : p'.first = if p.played = 0 then j + 1 else p.first) (hplayed : p'.played = p.played + 1)
    (hj : p.played ≠ 0 → p.first - 1 + p.played = j) :
    playedPkts pkts p' = playedPkts pkts p ++ pktsOf j pkts := by
  have hrange : List.range' (p'.first - 1) p'.played = List.range' (p.first - 1) p.played ++ [j] := by
    rw [hfirst, hplayed]
    by_cases h0 : p.played = 0
    · rw [if_pos h0, h0]
      rfl
    · rw [if_neg h0, ← hj h0, List.range'_concat, Nat.one_mul]
  rw [playedPkts, hrange, List.flatMap_append, List.flatMap_singleton]
  rfl

/-- What is listed is numbered from the first one on. -/
theorem Plays.entry {p : Player} (h : Plays unset wild s v p fs log) {q : M3u8} (hq : p.playlist = some q)
    {i : ℕ} {e : Entry} (he : q.entries[i]? = some e) :
    e.filename = tsName (q.mediaSequence.toInt.toNat + i) ∧ 0 < q.mediaSequence.toInt ∧
      (p.missed ≤ 5 → ∃ tsSeg, v.hls.getTsSegment e.filename = some tsSeg) := by
  obtain ⟨-, earlier, log₀, new, hearlier, hm3u8, hlog, hnew⟩ := h.playlist q hq
  have hviews := h.numbers.views
  rw [hlog] at hviews
  have hfetch := hearlier.fetchable wild hviews
  have hlisted := hfetch.listed q hm3u8
  refine ⟨hlisted.numbered i e he, hlisted.nonneg, fun hfew ↦ ?_⟩
  rw [← hnew] at hfew
  obtain ⟨tsSeg, hfound, -⟩ := hfetch.found hfew q hm3u8 i e he
  exact ⟨tsSeg, hfound⟩

theorem Plays.step {p : Player} (h : Plays unset wild s v p fs log) {v' : HlsServer} {p' : Player}
    (hstep : Step unset wild (v, p) (v', p')) : ∃ fs' log', Plays unset wild s v' p' fs' log' := by
  cases hstep with
  | @message _ _ m t' fills taken =>
    obtain ⟨fs', hnumbers, hkept⟩ := h.numbers.message fills taken
    obtain ⟨packets, hbody, hlen, hgets⟩ := h.body
    refine ⟨fs', log, hnumbers, h.playlist, h.place, packets, hbody, hlen, ?_⟩
    have hsame : playedPkts t'.pkts p = playedPkts v.station.pkts p := by
      apply List.flatMap_congr
      intro i hi
      have hin := List.mem_range'_1.mp hi
      have hplace := h.place (by omega)
      exact hkept i (by omega)
    rw [hsame]
    exact hgets
  | onTsSegment _ _ minTsCount ts next seqNo short =>
    obtain ⟨seg, hviews⟩ := h.numbers.views.onTsSegment wild minTsCount seqNo short
    have horder := h.numbers.order
    rw [next] at horder
    refine ⟨fs, log ++ [seg], ⟨h.numbers.sound, ?_, hviews, ?_⟩, ?_, ?_, h.body⟩
    · rw [List.append_assoc]
      exact horder
    · rw [List.length_append, List.length_append, h.numbers.length]
      rfl
    · intro q hq
      obtain ⟨hready, earlier, log₀, new, hearlier, hm3u8, rfl, hnew⟩ := h.playlist q hq
      refine ⟨ready_onTsSegment hready minTsCount ts, earlier, log₀, new ++ [seg], hearlier, hm3u8, ?_, ?_⟩
      · rw [List.append_assoc]
      · rw [List.length_append, hnew]
        rfl
    · intro hplayed
      obtain ⟨hfirst, hle⟩ := h.place hplayed
      rw [List.length_append]
      exact ⟨hfirst, hle.trans (Nat.le_add_right _ _)⟩
  | readPlaylist =>
    refine ⟨fs, log, h.numbers, ?_, h.place, h.body⟩
    intro q hq
    refine ⟨?_, v.hls, log, [], h.numbers.views, hq, (List.append_nil log).symm, rfl⟩
    have hplaylist := h.numbers.views.playlist
    rw [show v.hls.m3u8 = some q from hq] at hplaylist
    cases hready : v.hls.isReady with
    | true => rfl
    | false =>
      rw [hready] at hplaylist
      cases hplaylist
  | @fetch _ _ i q e _ playlist entry order served =>
    obtain ⟨hname, hpos, -⟩ := h.entry playlist entry
    rw [hname] at served
    obtain ⟨j, f, hj, hlt, hf, rfl⟩ := h.numbers.serve_spec served
    obtain ⟨packets, hbody, hlen, hgets⟩ := h.body
    have hnext (h0 : p.played ≠ 0) : 0 < p.first ∧ p.first - 1 + p.played = j := by
      have hfirst := (h.place h0).1
      rcases order with h0' | order
      · exact absurd h0' h0
      · exact ⟨hfirst, by omega⟩
    refine ⟨fs, log, h.numbers, h.playlist, fun _ ↦ ?_, packets ++ f.packets, ?_, ?_, ?_⟩
    · by_cases h0 : p.played = 0
      · simp only [h0, if_true]
        omega
      · obtain ⟨hfirst, hj'⟩ := hnext h0
        simp only [h0, if_false]
        omega
    · rw [List.flatten_append, ← hbody]
    · intro x hx
      rcases List.mem_append.mp hx with hx | hx
      · exact hlen x hx
      · exact f.holds.length x hx
    · rw [demux_append, playedPkts_next v.station.pkts (p := p) (j := j) (by rw [hj]) rfl fun h0 ↦ (hnext h0).2]
      exact hgets.trans ((h.numbers.sound.whole j f hf).received (demux packets))

/-- What the next playlist lists goes on where a playlist ends that was read not more than
five segments ago. -/
theorem Plays.goes_on {p : Player} (h : Plays unset wild s v p fs log) {q : M3u8} (hq : p.playlist = some q)
    (hfew : p.missed ≤ 5) : ∃ r, v.hls.m3u8 = some r ∧
      r.mediaSequence.toInt ≤ q.mediaSequence.toInt + q.entries.length ∧
      q.mediaSequence.toInt + q.entries.length ≤ r.mediaSequence.toInt + r.entries.length := by
  obtain ⟨hready, earlier, log₀, new, hearlier, hm3u8, hlog, hnew⟩ := h.playlist q hq
  have hviews := h.numbers.views
  have hplay₀ := hearlier.playlist
  have hplay := hviews.playlist
  rw [hready, if_pos rfl] at hplay
  rw [hm3u8] at hplay₀
  split at hplay₀
  · obtain ⟨hseq₀, -, hentries₀⟩ := playlistOf_spec wild hearlier.numbered hplay₀.symm
    have hlen₀ : q.entries.length = min 5 log₀.length := by rw [hentries₀, List.length_map, rtake_length]
    have hne : log₀ ≠ [] := by
      intro hnil
      rw [hnil] at hplay₀
      cases hplay₀
    have hpos := List.length_pos_iff.mpr hne
    have hlen : log.length = log₀.length + new.length := by rw [hlog, List.length_append]
    cases hr : playlistOf wild (log.rtake 5) with
    | none =>
      have hshort : (log.rtake 5).length = 0 := by
        cases hlast : log.rtake 5 with
        | nil => rfl
        | cons first rest =>
          rw [hlast] at hr
          cases hr
      rw [rtake_length] at hshort
      omega
    | some r =>
      obtain ⟨hseq, -, hentries⟩ := playlistOf_spec wild hviews.numbered hr
      have hlen₁ : r.entries.length = min 5 log.length := by rw [hentries, List.length_map, rtake_length]
      refine ⟨r, hplay.trans hr, ?_, ?_⟩
      · omega
      · omega
  · cases hplay₀

theorem plays_run {p : Player} (h : Plays unset wild s v p fs log) {v' : HlsServer} {p' : Player}
    (hrun : Relation.ReflTransGen (Step unset wild) (v, p) (v', p')) :
    ∃ fs' log', Plays unset wild s v' p' fs' log' := by
  obtain ⟨x, hx⟩ : ∃ x, x = (v', p') := ⟨_, rfl⟩
  rw [← hx] at hrun
  induction hrun generalizing v' p' with
  | refl =>
    cases hx
    exact ⟨fs, log, h⟩
  | @tail y _ _ hstep ih =>
    subst hx
    obtain ⟨fs₁, log₁, h₁⟩ := ih rfl
    exact h₁.step hstep

end Play

/-- What a player plays is whole packets which a receiver turns into the PES packets of the
segments from the first one on, each once and in order, whatever the bridge does
meanwhile. While not more than five segments have come since the player has read its
playlist, all segments of it are there, and the next playlist leaves none out. -/
theorem hls_complete (unset : UInt8) (wild : ℤ → BitVec 32) (streamName : String) (before : List Message)
    (s : Bridge) (es₀ : List Emitted) (hbefore : Bridge.run {} before = .ok (s, es₀))
    (hseg : s.currSeg = none) (ha : Announced s) (v : HlsServer) (p : Player)
    (hrun : Relation.ReflTransGen (Step unset wild)
      ({ station := ⟨s, [], []⟩, hls := { streamName := streamName } }, {}) (v, p)) :
    (∃ packets, p.body = packets.flatten ∧ (∀ x ∈ packets, x.length = 188) ∧
      ∀ pid, (demux packets).pes pid = if Listed s pid then pesOf pid (playedPkts v.station.pkts p) else []) ∧
    ∀ q, p.playlist = some q → p.missed ≤ 5 →
      (∀ e ∈ q.entries, (v.serve e.filename).isSome) ∧
      ∃ r, v.hls.m3u8 = some r ∧ r.mediaSequence.toInt ≤ q.mediaSequence.toInt + q.entries.length ∧
        q.mediaSequence.toInt + q.entries.length ≤ r.mediaSequence.toInt + r.entries.length := by
  have hstart : Plays unset wild s { station := ⟨s, [], []⟩, hls := { streamName := streamName } } {} [] [] :=
    { numbers := ⟨.start hbefore hseg ha, by rw [Station.settled, if_pos hseg]; rfl,
        Views.fresh wild streamName, rfl⟩
      playlist := fun q hq ↦ absurd hq (by simp)
      place := fun h ↦ absurd rfl h
      body := ⟨[], rfl, List.forall_mem_nil _, .nothing rfl⟩ }
  obtain ⟨fs, log, h⟩ := plays_run hstart hrun
  refine ⟨?_, ?_⟩
  · obtain ⟨packets, hbody, hlen, hgets⟩ := h.body
    exact ⟨packets, hbody, hlen, fun pid ↦ (hgets.pes pid).trans (List.nil_append _)⟩
  · intro q hq hfew
    refine ⟨?_, h.goes_on hq hfew⟩
    intro e he
    obtain ⟨i, hi⟩ := List.mem_iff_getElem?.mp he
    obtain ⟨tsSeg, hfound⟩ := (h.entry hq hi).2.2 hfew
    obtain ⟨j, f, -, -, -, -, hserve⟩ := h.numbers.serve_found hfound
    rw [hserve]
    rfl

/-- The first of two segments is played as soon as the second one has been opened. -/
theorem hls_complete_firstSegment : ∃ v p packets,
    Relation.ReflTransGen (Step 0 fun _ ↦ 0x80000000)
      ({ station := ⟨(Bridge.onMetadata {} (some ⟨some .avc, none⟩)).1, [], []⟩
         hls := { streamName := "live" } }, {})
      (v, p) ∧ v.station.segs.length = 2 ∧ p.body = packets.flatten ∧
      (demux packets).pes 0x100 = [shortPes.flatten] := by
  have hannounced : Announced (Bridge.onMetadata {} (some ⟨some .avc, none⟩)).1 := ⟨nofun, nofun⟩
  have hfills (canReap : Bool) (s : Bridge) : FillsPacket s (shortVideo canReap) := by
    intro segs hsegs
    cases hsegs
    exact ⟨by decide, nofun⟩
  obtain ⟨v, htwo, hpes, hlist, hrun⟩ : ∃ v : HlsServer, v.station.segs.length = 2 ∧
      pesOf 0x100 (pktsOf 0 v.station.pkts) = [shortPes.flatten] ∧
      v.hls.m3u8.map (fun q ↦ (q.mediaSequence.toInt, q.entries.length)) = some (1, 1) ∧
      Relation.ReflTransGen (Step 0 fun _ ↦ 0x80000000)
        ({ station := ⟨(Bridge.onMetadata {} (some ⟨some .avc, none⟩)).1, [], []⟩
           hls := { streamName := "live" } }, {})
        (v, { missed := 1 }) :=
    ⟨_, rfl, rfl, rfl, ((Relation.ReflTransGen.refl.tail
      (.message _ _ (shortVideo false) (hfills false _) rfl)).tail
      (.message _ _ (shortVideo true) (hfills true _) rfl)).tail
      (.onTsSegment _ _ 1 {} rfl (by decide) (by decide))⟩
  obtain ⟨q, hq, hseq⟩ := Option.map_eq_some_iff.mp hlist
  obtain ⟨hfirst, hcount⟩ := Prod.mk.inj hseq
  obtain ⟨e, he⟩ : ∃ e, q.entries[0]? = some e := ⟨_, List.getElem?_eq_getElem (by omega)⟩
  have hread := hrun.tail (.readPlaylist v { missed := 1 })
  rw [hq] at hread
  obtain ⟨-, hfound⟩ :=
    hls_complete 0 (fun _ ↦ 0x80000000) "live" [videoOnly] _ [{}] rfl rfl hannounced v
      { playlist := some q } hread
  obtain ⟨hserved, -⟩ := hfound q rfl (Nat.zero_le 5)
  obtain ⟨body, hbody⟩ := Option.isSome_iff_exists.mp (hserved e (List.mem_of_getElem? he))
  have hfetch := hread.tail (.fetch v { playlist := some q } 0 rfl he (.inl rfl) hbody)
  obtain ⟨⟨packets, hpackets, -, hdemux⟩, -⟩ :=
    hls_complete 0 (fun _ ↦ 0x80000000) "live" [videoOnly] _ [{}] rfl rfl hannounced v _ hfetch
  refine ⟨v, _, packets, hfetch, htwo, hpackets, ?_⟩
  rw [hdemux, if_pos (by decide), playedPkts]
  simp only [if_true, hfirst]
  rw [show List.range' (Int.toNat 1 + 0 - 1) (0 + 1) = [0] from rfl, List.flatMap_singleton]
  exact hpes

end MmsServer.Ts.HlsViewer
