import MmsServer.Base.KnownTime
import MmsServer.Lib.RecentWindow
import Mathlib.Algebra.Order.Ring.Int
import Mathlib.Tactic.Common

namespace MmsServer.Core.HlsSource

open Base.KnownTime Lib.RecentWindow

structure TsSegment where
  startDtsVideo : ℤ := -1
  endDtsVideo : ℤ := 0
  startPtsAudio : ℤ := -1
  endPtsAudio : ℤ := 0
  durationVideoMs : ℤ := 0
  durationAudioMs : ℤ := 0
  filename : String := ""
  seq : BitVec 64 := 0
deriving DecidableEq

def TsSegment.updateAudioPts (s : TsSegment) (pts : ℤ) : TsSegment :=
  let pts := clampMs pts
  let start := min pts (if s.startPtsAudio = -1 then pts else s.startPtsAudio)
  let last := if s.endPtsAudio < pts then pts else s.endPtsAudio
  { s with startPtsAudio := start, endPtsAudio := last, durationAudioMs := last - start }

def TsSegment.updateVideoDts (s : TsSegment) (dts : ℤ) : TsSegment :=
  let dts := clampMs dts
  let start := min dts (if s.startDtsVideo = -1 then dts else s.startDtsVideo)
  let last := if s.endDtsVideo < dts then dts else s.endDtsVideo
  { s with startDtsVideo := start, endDtsVideo := last, durationVideoMs := last - start }

def TsSegment.getDuration (s : TsSegment) : ℤ :=
  if s.startDtsVideo ≠ -1 ∧ s.startPtsAudio ≠ -1 then min s.durationVideoMs s.durationAudioMs
  else if s.startDtsVideo ≠ -1 then s.durationVideoMs
  else if s.startPtsAudio ≠ -1 then s.durationAudioMs
  else 0

structure Entry where
  duration : ℤ
  filename : String
deriving DecidableEq

/-- The playlist that is written out line by line. -/
structure M3u8 where
  targetDuration : BitVec 32
  mediaSequence : BitVec 64
  entries : List Entry
deriving DecidableEq

/-- Milliseconds as seconds with three decimals. -/
def fixedSeconds (ms : ℤ) : String :=
  (if ms < 0 then "-" else "") ++ toString (ms.natAbs / 1000) ++ "." ++
    toString (ms.natAbs / 100 % 10) ++ toString (ms.natAbs / 10 % 10) ++ toString (ms.natAbs % 10)

def M3u8.text (streamName : String) (p : M3u8) : String :=
  "#EXTM3U\r\n" ++ "#EXT-X-VERSION:3\r\n" ++
    "#EXT-X-TARGETDURATION:" ++ toString p.targetDuration.toInt ++ "\r\n" ++
    "#EXT-X-MEDIA-SEQUENCE:" ++ toString p.mediaSequence.toInt ++ "\r\n" ++
    String.join (p.entries.map fun e ↦
      "#EXTINF:" ++ fixedSeconds e.duration ++ "\r\n" ++ streamName ++ "/" ++ e.filename ++ "\r\n")

structure HlsLiveMediaSource where
  streamName : String
  tsSegments : List TsSegment := []
  currSeqNo : BitVec 64 := 0
  m3u8 : Option M3u8 := none
  isReady : Bool := false

section Source

-- what the conversion of a number outside of `int` gives, which C++ leaves undefined
variable (wild : ℤ → BitVec 32)

def toInt (v : ℤ) : BitVec 32 := if -2 ^ 31 ≤ v ∧ v < 2 ^ 31 then BitVec.ofInt 32 v else wild v

def targetDuration (segs : List TsSegment) : BitVec 32 :=
  toInt wild (((segs.map TsSegment.getDuration).foldl max 0 + 999) / 1000)

def listSegments (first : TsSegment) (rest : List TsSegment) : M3u8 where
  targetDuration := targetDuration wild (first :: rest)
  mediaSequence := first.seq
  entries := (first :: rest).map fun s ↦ ⟨s.getDuration, s.filename⟩

def HlsLiveMediaSource.updateM3u8 (s : HlsLiveMediaSource) (minTsCount : ℕ) :
    HlsLiveMediaSource :=
  let isReady := s.isReady || decide (minTsCount ≤ s.tsSegments.length)
  let firstSegIndex := if 5 ≤ s.tsSegments.length then s.tsSegments.length - 5 else 0
  match isReady, s.tsSegments.drop firstSegIndex with
  | true, first :: rest => { s with isReady := true, m3u8 := some (listSegments wild first rest) }
  | _, _ => { s with isReady := isReady }

def tsName (seqNo : ℕ) : String := toString seqNo ++ ".ts"

def HlsLiveMediaSource.onTsSegment (s : HlsLiveMediaSource) (minTsCount : ℕ) (ts : TsSegment) :
    HlsLiveMediaSource :=
  let seqNo := s.currSeqNo + 1
  let ts := { ts with seq := seqNo, filename := tsName seqNo.toNat }
  HlsLiveMediaSource.updateM3u8 wild
    { s with currSeqNo := seqNo, tsSegments := pushBounded 10 s.tsSegments ts } minTsCount

def HlsLiveMediaSource.getM3u8 (s : HlsLiveMediaSource) : String :=
  (s.m3u8.map (M3u8.text s.streamName)).getD ""

def HlsLiveMediaSource.getTsSegment (s : HlsLiveMediaSource) (name : String) : Option TsSegment :=
  s.tsSegments.reverse.find? fun seg ↦ seg.filename == name

inductive Call
  | onTsSegment (minTsCount : ℕ) (ts : TsSegment)
  | getM3u8
  | getTsSegment (name : String)

def HlsLiveMediaSource.step (s : HlsLiveMediaSource) : Call → HlsLiveMediaSource
  | .onTsSegment minTsCount ts => s.onTsSegment wild minTsCount ts
  | .getM3u8 => s
  | .getTsSegment _ => s

def HlsLiveMediaSource.run (s : HlsLiveMediaSource) (calls : List Call) : HlsLiveMediaSource :=
  calls.foldl (HlsLiveMediaSource.step wild) s

end Source

/-- At most five segments with consecutive numbers, none of them too long. -/
structure M3u8.Listed (p : M3u8) : Prop where
  length_le : p.entries.length ≤ 5
  nonneg : 0 < p.mediaSequence.toInt
  numbered : ∀ (i : ℕ) e, p.entries[i]? = some e → e.filename = tsName (p.mediaSequence.toInt.toNat + i)
  covers : ∀ e ∈ p.entries, e.duration ≤ p.targetDuration.toInt * 1000

/-- What a viewer relies on who has read the playlist of `earlier` and comes
back to `later`, after `pushed` more segments. -/
structure Fetchable (earlier later : HlsLiveMediaSource) (pushed : ℕ) : Prop where
  listed : ∀ p, earlier.m3u8 = some p → p.Listed
  advances : ∀ p q, earlier.m3u8 = some p → later.m3u8 = some q →
    p.mediaSequence.toInt ≤ q.mediaSequence.toInt
  found : pushed ≤ 5 → ∀ p, earlier.m3u8 = some p → ∀ (i : ℕ) e, p.entries[i]? = some e →
    ∃ seg, later.getTsSegment e.filename = some seg ∧
      seg.seq.toInt = p.mediaSequence.toInt + i ∧ seg.getDuration = e.duration

def Call.pushes : Call → Bool
  | .onTsSegment .. => true
  | _ => false

/-- The longest duration that still fits into the target duration. -/
def maxTargetMs : ℤ := 2147483647 * 1000

def Call.Fits (s : HlsLiveMediaSource) : Call → Prop
  | .onTsSegment _ ts => s.currSeqNo.toNat + 1 < 2 ^ 63 ∧ ts.getDuration ≤ maxTargetMs
  | _ => True

section Log

variable (wild : ℤ → BitVec 32)

def FitsAlong (s : HlsLiveMediaSource) : List Call → Prop
  | [] => True
  | c :: cs => c.Fits s ∧ FitsAlong (s.step wild c) cs

def playlistOf : List TsSegment → Option M3u8
  | [] => none
  | first :: rest => some (listSegments wild first rest)

structure Numbered (log : List TsSegment) : Prop where
  small : log.length < 2 ^ 63
  seq : ∀ (i : ℕ) seg, log[i]? = some seg → seg.seq.toNat = i + 1
  filename : ∀ (i : ℕ) seg, log[i]? = some seg → seg.filename = tsName (i + 1)
  duration : ∀ seg ∈ log, seg.getDuration ≤ maxTargetMs

structure Views (s : HlsLiveMediaSource) (log : List TsSegment) : Prop where
  numbered : Numbered log
  segments : s.tsSegments = log.rtake 10
  seqNo : s.currSeqNo.toNat = log.length
  playlist : s.m3u8 = if s.isReady then playlistOf wild (log.rtake 5) else none

theorem tsName_injective {m n : ℕ} (h : tsName m = tsName n) : m = n := by
  have hs : toString m = toString n := (String.append_left_inj ".ts").mp h
  have hd := congrArg String.toList hs
  rw [Nat.toString_eq_ofList_toDigits, Nat.toString_eq_ofList_toDigits, String.toList_ofList,
    String.toList_ofList] at hd
  rw [← Nat.ofDigitChars_ten_toDigits (n := m), hd, Nat.ofDigitChars_ten_toDigits]

theorem foldl_max_spec (l : List ℤ) (a : ℤ) :
    a ≤ l.foldl max a ∧ (∀ x ∈ l, x ≤ l.foldl max a) ∧
      ∀ b, a ≤ b → (∀ x ∈ l, x ≤ b) → l.foldl max a ≤ b := by
  induction l generalizing a with
  | nil => exact ⟨le_rfl, by simp, fun b hb _ ↦ hb⟩
  | cons y l ih =>
    obtain ⟨ha, hall, hleast⟩ := ih (max a y)
    rw [List.foldl_cons]
    refine ⟨(le_max_left a y).trans ha, ?_, ?_⟩
    · intro x hx
      rcases List.mem_cons.mp hx with rfl | hx
      · exact (le_max_right a x).trans ha
      · exact hall x hx
    · intro b hb hl
      apply hleast b (max_le hb (hl y List.mem_cons_self))
      intro x hx
      exact hl x (List.mem_cons_of_mem y hx)

theorem toInt_of_lt {v : ℤ} (h : 0 ≤ v) (hv : v < 2 ^ 31) : (toInt wild v).toInt = v := by
  rw [toInt, if_pos ⟨by omega, hv⟩, BitVec.toInt_ofInt_eq_self (by decide) (by omega) (by omega)]

/-- The target duration covers the listed segments unless one of them lasts
longer than an `int` can say. -/
theorem targetDuration_covers_iff (segs : List TsSegment) :
    (∀ seg ∈ segs, seg.getDuration ≤ (targetDuration wild segs).toInt * 1000) ↔
      ∀ seg ∈ segs, seg.getDuration ≤ maxTargetMs := by
  unfold maxTargetMs
  constructor
  · intro h seg hseg
    have hle := h seg hseg
    have hint := BitVec.toInt_lt (x := targetDuration wild segs)
    omega
  · intro h seg hseg
    obtain ⟨h0, hall, hleast⟩ := foldl_max_spec (segs.map TsSegment.getDuration) 0
    have hmax := hleast (2147483647 * 1000) (by decide) (by
      intro x hx
      obtain ⟨seg', hseg', rfl⟩ := List.mem_map.mp hx
      exact h seg' hseg')
    have hle := hall _ (List.mem_map_of_mem hseg)
    rw [targetDuration, toInt_of_lt wild (by omega) (by omega)]
    omega

theorem updateM3u8_eq (s : HlsLiveMediaSource) (minTsCount : ℕ) (h : s.tsSegments ≠ []) :
    s.updateM3u8 wild minTsCount =
      { s with
        isReady := s.isReady || decide (minTsCount ≤ s.tsSegments.length)
        m3u8 := if s.isReady || decide (minTsCount ≤ s.tsSegments.length) then
          playlistOf wild (s.tsSegments.rtake 5) else s.m3u8 } := by
  have hdrop : s.tsSegments.drop (if 5 ≤ s.tsSegments.length then s.tsSegments.length - 5 else 0) =
      s.tsSegments.rtake 5 := by
    rw [List.rtake]
    congr 1
    split <;> omega
  have hne : s.tsSegments.rtake 5 ≠ [] := by
    intro hnil
    have hlen := congrArg List.length hnil
    rw [rtake_length, List.length_nil] at hlen
    have hpos := List.length_pos_iff.mpr h
    omega
  obtain ⟨first, rest, hsegs⟩ := List.exists_cons_of_ne_nil hne
  simp only [HlsLiveMediaSource.updateM3u8, hdrop, hsegs]
  cases s.isReady || decide (minTsCount ≤ s.tsSegments.length) with
  | true => rfl
  | false => rfl

theorem Numbered.push {log : List TsSegment} (h : Numbered log) (hlen : log.length + 1 < 2 ^ 63)
    {ts : TsSegment} (hseq : ts.seq.toNat = log.length + 1)
    (hname : ts.filename = tsName (log.length + 1)) (hd : ts.getDuration ≤ maxTargetMs) :
    Numbered (log ++ [ts]) := by
  have hcases (i : ℕ) (seg : TsSegment) (hi : (log ++ [ts])[i]? = some seg) :
      log[i]? = some seg ∨ i = log.length ∧ seg = ts := by
    rcases Nat.lt_or_ge i log.length with hlt | hge
    · left
      rwa [List.getElem?_append_left hlt] at hi
    · right
      rw [List.getElem?_append_right hge] at hi
      obtain ⟨hlt, hseg⟩ := List.getElem?_eq_some_iff.mp hi
      rw [List.length_singleton] at hlt
      have hz : i - log.length = 0 := by omega
      simp only [hz, List.getElem_cons_zero] at hseg
      exact ⟨by omega, hseg.symm⟩
  refine ⟨by simpa using hlen, ?_, ?_, ?_⟩
  · intro i seg hi
    rcases hcases i seg hi with hi | ⟨rfl, rfl⟩
    · exact h.seq i seg hi
    · exact hseq
  · intro i seg hi
    rcases hcases i seg hi with hi | ⟨rfl, rfl⟩
    · exact h.filename i seg hi
    · exact hname
  · intro seg hseg
    rcases List.mem_append.mp hseg with hseg | hseg
    · exact h.duration seg hseg
    · rw [List.mem_singleton.mp hseg]
      exact hd

theorem Views.onTsSegment {s : HlsLiveMediaSource} {log : List TsSegment} (h : Views wild s log)
    (minTsCount : ℕ) {ts : TsSegment} (hfits : s.currSeqNo.toNat + 1 < 2 ^ 63)
    (hd : ts.getDuration ≤ maxTargetMs) :
    ∃ seg, Views wild (s.onTsSegment wild minTsCount ts) (log ++ [seg]) := by
  have hseq : (s.currSeqNo + 1).toNat = log.length + 1 := by
    rw [← h.seqNo, BitVec.toNat_add]
    exact Nat.mod_eq_of_lt (by change s.currSeqNo.toNat + 1 < 2 ^ 64; omega)
  have hlen : log.length + 1 < 2 ^ 63 := by
    rw [← h.seqNo]
    exact hfits
  have hqueue := h.segments ▸ pushBounded_rtake log
    { ts with seq := s.currSeqNo + 1, filename := tsName (s.currSeqNo + 1).toNat }
    (show 0 < 10 by decide)
  have hne : (log ++ [{ ts with
      seq := s.currSeqNo + 1, filename := tsName (s.currSeqNo + 1).toNat }]).rtake 10 ≠ [] := by
    rw [List.rtake_concat_succ]
    exact List.concat_ne_nil _ _
  refine ⟨{ ts with seq := s.currSeqNo + 1, filename := tsName (s.currSeqNo + 1).toNat }, ?_⟩
  rw [HlsLiveMediaSource.onTsSegment, updateM3u8_eq]
  · refine ⟨h.numbered.push hlen hseq (by rw [hseq]) hd, hqueue, ?_, ?_⟩
    · rw [List.length_append, List.length_singleton]
      exact hseq
    · simp only [hqueue]
      rw [rtake_rtake _ (by decide)]
      split
      · rfl
      · rename_i hready
        have hold : s.isReady = false := by
          cases hr : s.isReady with
          | false => rfl
          | true => simp [hr] at hready
        rw [h.playlist, hold]
        rfl
  · simp only [hqueue]
    exact hne

/-- A run appends its own segments to what the source views. -/
theorem Views.run {s : HlsLiveMediaSource} {log : List TsSegment} (h : Views wild s log)
    {calls : List Call} (hfits : FitsAlong wild s calls) :
    ∃ new, Views wild (s.run wild calls) (log ++ new) ∧ new.length = calls.countP Call.pushes := by
  induction calls generalizing s log with
  | nil => exact ⟨[], by rwa [List.append_nil], rfl⟩
  | cons c calls ih =>
    obtain ⟨hc, hrest⟩ := hfits
    cases c with
    | onTsSegment minTsCount ts =>
      obtain ⟨seg, hseg⟩ := h.onTsSegment wild minTsCount hc.1 hc.2
      obtain ⟨new, hnew, hlen⟩ := ih hseg hrest
      refine ⟨seg :: new, ?_, ?_⟩
      · rw [List.append_assoc] at hnew
        exact hnew
      · rw [List.length_cons, hlen, List.countP_cons_of_pos rfl]
    | getM3u8 =>
      obtain ⟨new, hnew, hlen⟩ := ih h hrest
      exact ⟨new, hnew, by rw [hlen, List.countP_cons_of_neg (by decide)]⟩
    | getTsSegment name =>
      obtain ⟨new, hnew, hlen⟩ := ih h hrest
      exact ⟨new, hnew, by rw [hlen, List.countP_cons_of_neg (by simp [Call.pushes])]⟩

theorem fitsAlong_append (s : HlsLiveMediaSource) (calls more : List Call) :
    FitsAlong wild s (calls ++ more) ↔
      FitsAlong wild s calls ∧ FitsAlong wild (s.run wild calls) more := by
  induction calls generalizing s with
  | nil => exact (iff_of_eq (true_and _)).symm
  | cons c calls ih =>
    rw [List.cons_append, FitsAlong, FitsAlong, ih, and_assoc]
    rfl

theorem Views.fresh (streamName : String) : Views wild { streamName } [] :=
  ⟨⟨by decide, by simp, by simp, by simp⟩, rfl, rfl, rfl⟩

theorem playlistOf_spec {log : List TsSegment} (hn : Numbered log) {p : M3u8}
    (hp : playlistOf wild (log.rtake 5) = some p) :
    p.mediaSequence.toInt = (log.length - 5 + 1 : ℕ) ∧
      p.targetDuration = targetDuration wild (log.rtake 5) ∧
      p.entries = (log.rtake 5).map fun s ↦ ⟨s.getDuration, s.filename⟩ := by
  cases hsegs : log.rtake 5 with
  | nil =>
    rw [hsegs] at hp
    cases hp
  | cons first rest =>
    rw [hsegs] at hp
    cases hp
    refine ⟨?_, rfl, rfl⟩
    have hfirst : log[log.length - 5]? = some first := by
      rw [← Nat.add_zero (log.length - 5), ← rtake_getElem?, hsegs]
      rfl
    have hseq := hn.seq _ _ hfirst
    have hlt := (List.getElem?_eq_some_iff.mp hfirst).1
    have hsmall := hn.small
    change first.seq.toInt = _
    rw [BitVec.toInt_eq_toNat_of_lt (by omega), hseq]

theorem playlistOf_entry {log : List TsSegment} (hn : Numbered log) {p : M3u8}
    (hp : playlistOf wild (log.rtake 5) = some p) {i : ℕ} {e : Entry} (he : p.entries[i]? = some e) :
    ∃ seg, log[log.length - 5 + i]? = some seg ∧ (log.rtake 5)[i]? = some seg ∧
      e = ⟨seg.getDuration, seg.filename⟩ := by
  rw [(playlistOf_spec wild hn hp).2.2, List.getElem?_map] at he
  obtain ⟨seg, hseg, rfl⟩ := Option.map_eq_some_iff.mp he
  refine ⟨seg, ?_, hseg, rfl⟩
  rwa [rtake_getElem?] at hseg

theorem playlistOf_listed {log : List TsSegment} (hn : Numbered log) {p : M3u8}
    (hp : playlistOf wild (log.rtake 5) = some p) : p.Listed := by
  obtain ⟨hseq, htarget, hentries⟩ := playlistOf_spec wild hn hp
  refine ⟨?_, by omega, ?_, ?_⟩
  · rw [hentries, List.length_map, rtake_length]
    omega
  · intro i e he
    obtain ⟨seg, hlog, -, rfl⟩ := playlistOf_entry wild hn hp he
    simp only [hn.filename _ _ hlog]
    rw [hseq, Int.toNat_natCast]
    congr 1
    omega
  · intro e he
    rw [hentries] at he
    obtain ⟨seg, hseg, rfl⟩ := List.mem_map.mp he
    rw [htarget]
    apply (targetDuration_covers_iff wild (log.rtake 5)).mpr _ seg hseg
    intro seg' hseg'
    exact hn.duration seg' (List.mem_of_mem_drop hseg')

/-- Among numbered segments a name finds the one segment that bears it. -/
theorem find_by_name {log : List TsSegment} (hn : Numbered log) {n i : ℕ} {seg : TsSegment}
    (hi : log[i]? = some seg) (hmem : seg ∈ log.rtake n) :
    (log.rtake n).reverse.find? (fun s ↦ s.filename == seg.filename) = some seg := by
  cases hf : (log.rtake n).reverse.find? (fun s ↦ s.filename == seg.filename) with
  | none =>
    have hno := List.find?_eq_none.mp hf seg (List.mem_reverse.mpr hmem)
    simp at hno
  | some seg' =>
    have hname : seg'.filename = seg.filename := by simpa using List.find?_some hf
    have hmem' := List.mem_of_mem_drop (List.mem_reverse.mp (List.mem_of_find?_eq_some hf))
    obtain ⟨j, hj⟩ := List.mem_iff_getElem?.mp hmem'
    rw [hn.filename _ _ hj, hn.filename _ _ hi] at hname
    have hij := tsName_injective hname
    rw [show j = i by omega, hi] at hj
    exact hj.symm

theorem Views.fetchable {earlier later : HlsLiveMediaSource} {log new : List TsSegment}
    (he : Views wild earlier log) (hl : Views wild later (log ++ new)) :
    Fetchable earlier later new.length := by
  have hplay {s : HlsLiveMediaSource} {log : List TsSegment} (h : Views wild s log) {p : M3u8}
      (hp : s.m3u8 = some p) : playlistOf wild (log.rtake 5) = some p := by
    rw [h.playlist] at hp
    split at hp
    · exact hp
    · cases hp
  refine ⟨?_, ?_, ?_⟩
  · intro p hp
    exact playlistOf_listed wild he.numbered (hplay he hp)
  · intro p q hp hq
    rw [(playlistOf_spec wild he.numbered (hplay he hp)).1,
      (playlistOf_spec wild hl.numbered (hplay hl hq)).1, List.length_append]
    omega
  · intro hfew p hp i e hi
    obtain ⟨seg, hlog, hlast, rfl⟩ := playlistOf_entry wild he.numbered (hplay he hp) hi
    have hlog' : (log ++ new)[log.length - 5 + i]? = some seg := by
      rw [List.getElem?_append_left (List.getElem?_eq_some_iff.mp hlog).1, hlog]
    have hkept := mem_rtake_append (List.mem_of_getElem? hlast) (show 5 + new.length ≤ 10 by omega)
    refine ⟨seg, ?_, ?_, rfl⟩
    · rw [HlsLiveMediaSource.getTsSegment, hl.segments]
      exact find_by_name hl.numbered hlog' hkept
    · have hseq := he.numbered.seq _ _ hlog
      have hlt := (List.getElem?_eq_some_iff.mp hlog).1
      have hsmall := he.numbered.small
      rw [(playlistOf_spec wild he.numbered (hplay he hp)).1,
        BitVec.toInt_eq_toNat_of_lt (by omega), hseq]
      omega

/-- Whatever a viewer reads from a playlist can be fetched, while the segments
are short enough for the target duration and the counter does not overflow. -/
theorem playlists_fetchable (streamName : String) (calls more : List Call)
    (h : FitsAlong wild { streamName } (calls ++ more)) :
    Fetchable (HlsLiveMediaSource.run wild { streamName } calls)
      (HlsLiveMediaSource.run wild { streamName } (calls ++ more))
      (more.countP Call.pushes) := by
  obtain ⟨hcalls, hmore⟩ := (fitsAlong_append wild { streamName } calls more).mp h
  obtain ⟨log, hlog, -⟩ := (Views.fresh wild streamName).run wild hcalls
  obtain ⟨new, hnew, hlen⟩ := hlog.run wild hmore
  have hrun : HlsLiveMediaSource.run wild { streamName } (calls ++ more) =
      (HlsLiveMediaSource.run wild { streamName } calls).run wild more := List.foldl_append
  rw [← hlen, hrun]
  exact hlog.fetchable wild hnew

end Log

def audioSegment (pts : ℤ) : TsSegment := (({} : TsSegment).updateAudioPts 0).updateAudioPts pts

def videoSegment (dts : ℤ) : TsSegment := (({} : TsSegment).updateVideoDts 0).updateVideoDts dts

def twoCalls : List Call := [.onTsSegment 1 (audioSegment 9000), .getM3u8]

theorem playlists_fetchable_nineSeconds :
    FitsAlong (fun _ ↦ 0x80000000) { streamName := "live" }
      (twoCalls ++ [.onTsSegment 1 (videoSegment 500)]) ∧
    Fetchable (HlsLiveMediaSource.run (fun _ ↦ 0x80000000) { streamName := "live" } twoCalls)
      (HlsLiveMediaSource.run (fun _ ↦ 0x80000000) { streamName := "live" }
        (twoCalls ++ [.onTsSegment 1 (videoSegment 500)])) 1 := by
  have h : FitsAlong (fun _ ↦ 0x80000000) { streamName := "live" }
      (twoCalls ++ [.onTsSegment 1 (videoSegment 500)]) :=
    ⟨⟨by decide, by decide⟩, trivial, ⟨by decide, by decide⟩, trivial⟩
  exact ⟨h, playlists_fetchable (fun _ ↦ 0x80000000) "live" twoCalls
    [.onTsSegment 1 (videoSegment 500)] h⟩

/-- A publisher whose audio clock jumps by almost 2 ^ 32 seconds: no `int` is a
target duration for this segment. -/
theorem jump_exceeds_target :
    (audioSegment 4294967295000).getDuration = 4294967295000 ∧
    ¬ ∃ wild, Fetchable
      (HlsLiveMediaSource.run wild { streamName := "live" }
        [.onTsSegment 0 (audioSegment 4294967295000)])
      (HlsLiveMediaSource.run wild { streamName := "live" }
        [.onTsSegment 0 (audioSegment 4294967295000)]) 0 := by
  refine ⟨by decide, ?_⟩
  rintro ⟨wild, h⟩
  have hcovers := (h.listed _ rfl).covers _ List.mem_cons_self
  have hint := BitVec.toInt_lt (x := targetDuration wild
    [{ audioSegment 4294967295000 with seq := 1, filename := tsName 1 }])
  change (4294967295000 : ℤ) ≤ (targetDuration wild
    [{ audioSegment 4294967295000 with seq := 1, filename := tsName 1 }]).toInt * 1000 at hcovers
  omega

end MmsServer.Core.HlsSource
