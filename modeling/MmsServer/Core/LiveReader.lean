import MmsServer.Core.RtmpSource
import Mathlib.Logic.Relation

namespace MmsServer.Core.LiveReader

open Lib.NumberedLog Base.SequenceBuf StartSearch Rtmp.Define Rtmp.FlvTag RtmpSource RtmpMediaSource

/-- The ring holds what has been published since it was cleared, and every
indexed key frame has been published under its index. -/
structure SourceInv (s : RtmpMediaSource) (log : List RtmpMessage) (cleared : ℕ) : Prop where
  holds : Holds s.avPkts log cleared
  latest : s.latestFrameIndex = log.length
  newest : 0 < log.length → cleared < log.length
  sorted : s.keyframeIndexes.Pairwise (· < ·)
  keyframes : ∀ k ∈ s.keyframeIndexes, ∃ m, entry log k = some m ∧ isVideo m ∧ isKeyFrame m

theorem sourceInv_init : SourceInv {} [] 0 where
  holds := holds_init
  latest := rfl
  newest h := by cases h
  sorted := .nil
  keyframes k h := by cases h

theorem entry_le {log : List RtmpMessage} {k : ℕ} {m : RtmpMessage} (h : entry log k = some m) :
    k ≤ log.length := by
  obtain ⟨hpos, hlog⟩ := entry_eq_some h
  obtain ⟨hlt, -⟩ := List.getElem?_eq_some_iff.mp hlog
  omega

theorem sourceInv_change {s t : RtmpMediaSource} {log : List RtmpMessage} {cleared : ℕ}
    {pkt : Option RtmpMessage} (h : SourceInv s log cleared) (hc : RingChange s pkt t) :
    ∃ cleared', SourceInv t (log ++ pkt.toList) cleared' := by
  cases hc with
  | same hs =>
    refine ⟨cleared, ?_⟩
    rw [Option.toList_none, List.append_nil]
    exact ⟨hs.avPkts ▸ h.holds, hs.latest.trans h.latest, h.newest, hs.keyframes ▸ h.sorted,
      hs.keyframes ▸ h.keyframes⟩
  | @add _ buf pkt hbuf hpkts hlatest hkey =>
    obtain ⟨cleared', hb⟩ := h.holds.cleared hbuf
    have hlen : (log ++ [pkt]).length = log.length + 1 := by
      rw [List.length_append, List.length_singleton]
    have hold (k : ℕ) (hk : k ∈ s.keyframeIndexes) :
        ∃ m, entry (log ++ [pkt]) k = some m ∧ isVideo m ∧ isKeyFrame m := by
      obtain ⟨m, hm, hmk⟩ := h.keyframes k hk
      exact ⟨m, by rw [entry_append log [pkt] (entry_le hm), hm], hmk⟩
    have hle := hb.cleared_le
    refine ⟨cleared', ?_, ?_, ?_, ?_, ?_⟩
    · rw [hpkts]
      exact holds_addPkt hb pkt
    · rw [hlatest, hb.indexes_eq, Option.toList_some, hlen]
    · rw [Option.toList_some, hlen]
      omega
    · rcases hkey with hk | ⟨-, -, hk⟩
      · rw [hk]
        exact h.sorted
      · rw [hk, hb.indexes_eq]
        apply pushBack_pairwise h.sorted
        intro k hmem
        obtain ⟨m, hm, -⟩ := h.keyframes k hmem
        exact Nat.lt_succ_of_le (entry_le hm)
    · intro k hmem
      rcases hkey with hk | ⟨hv, hkf, hk⟩
      · exact hold k (hk ▸ hmem)
      · rw [hk] at hmem
        rcases pushBack_subset hmem with hmem | rfl
        · exact hold k hmem
        · exact ⟨pkt, by rw [hb.indexes_eq, Option.toList_some, entry_last], hv, hkf⟩

section Window

variable {s : RtmpMediaSource} {log : List RtmpMessage} {cleared : ℕ}

theorem window_entry (h : SourceInv s log cleared) {start : ℕ}
    (hw : s.latestFrameIndex < start + 1024) (j : ℕ) (hj : start ≤ j)
    (hj' : j < start + (s.latestFrameIndex + 1 - start)) (m : RtmpMessage)
    (hm : s.avPkts.getPkt j = some m) : entry log j = some m := by
  have hl := h.latest
  rw [h.holds.get j (by omega) (by omega)] at hm
  split at hm
  · exact hm
  · cases hm

theorem getPkt_add_size (b : SequencePktBuf RtmpMessage 1024) (i : ℕ) :
    b.getPkt (i + 1024) = b.getPkt i := by
  rw [SequencePktBuf.getPkt, Nat.add_mod_right, ← SequencePktBuf.getPkt]

/-- A source without video starts its readers inside the ring: a full turn
further back the search would see the same slots again. -/
theorem audioStart_window (h : SourceInv s log cleared) (old : RtmpMessage → Bool) {start : ℕ}
    (hs : audioStart s.avPkts.getPkt old s.avPkts.indexes = some start) :
    s.latestFrameIndex < start + 1024 := by
  have hl := h.latest
  have hi := h.holds.indexes_eq
  obtain ⟨hle, hstop, hall⟩ := audioStart_spec hs
  by_contra hout
  apply hall (start + 1024) (by omega) (by omega)
  rw [stops, getPkt_add_size, ← stops, hstop]

/-- The start search of a source with video ends at a key frame that the ring
still has room for, or finds none. -/
def SearchInRing (s : RtmpMediaSource) : Prop :=
  (∃ k ∈ s.keyframeIndexes, stops s.avPkts.getPkt s.oldVideo k = true ∧ s.latestFrameIndex < k + 1024) ∨
    ∀ k ∈ s.keyframeIndexes, ¬ stops s.avPkts.getPkt s.oldVideo k = true

def KeepsUp (s : RtmpMediaSource) (lastPktIndex : Option ℕ) : Prop :=
  match lastPktIndex with
  | none => s.streamReady = true → s.hasVideo = true → SearchInRing s
  | some c => s.latestFrameIndex < c + 1024

theorem startIdx_window (h : SourceInv s log cleared) (hk : s.hasVideo = true → SearchInRing s)
    {start : ℕ} (hs : s.startIdx = some start) : s.latestFrameIndex < start + 1024 := by
  unfold startIdx at hs
  split at hs
  · rename_i hv
    rcases hk hv with ⟨k, hmem, hstop, hw⟩ | hno
    · obtain ⟨-, -, hle⟩ := keyframeStart_spec h.sorted hs
      have hks := hle k hmem hstop
      omega
    · rw [keyframeStart_none hno] at hs
      cases hs
  · exact audioStart_window h s.oldAudio hs

/-- A reader of the RTMP source is never stuck: the newest slot is not empty. -/
theorem rtmp_reader_progress (h : SourceInv s log cleared) {c maxCount : ℕ}
    (hc : c ≤ s.latestFrameIndex) (hlog : 0 < s.latestFrameIndex) (hmax : 0 < maxCount) :
    (s.getPkts (some c) maxCount).av ≠ [] := by
  have hl := h.latest
  have hnew := h.holds.newest (by decide) (h.newest (by omega))
  exact collect_ne_nil s.avPkts.getPkt hmax (by omega) (by omega) hnew

end Window

structure Session where
  source : RtmpMediaSource := {}
  lastPktIndex : Option ℕ := none
  published : List RtmpMessage := []
  delivered : List RtmpMessage := []

def Session.read (t : Session) (maxCount : ℕ) : Session :=
  { t with
    lastPktIndex := (t.source.getPkts t.lastPktIndex maxCount).lastPktIndex
    delivered := t.delivered ++ (t.source.getPkts t.lastPktIndex maxCount).av }

/-- The steps of a run. `Ok` says which reads are allowed. -/
inductive Step (d : Decoders) (Ok : RtmpMediaSource → Option ℕ → Prop) : Session → Session → Prop
  | publish {t : Session} {pkt : Option RtmpMessage} {source : RtmpMediaSource} :
      Publishes d t.source pkt source →
      Step d Ok t { t with source := source, published := t.published ++ pkt.toList }
  | read {t : Session} (maxCount : ℕ) : 0 < maxCount → Ok t.source t.lastPktIndex →
      Step d Ok t (t.read maxCount)

structure SessionInv (t : Session) : Prop where
  source : ∃ cleared, SourceInv t.source t.published cleared
  fresh : t.lastPktIndex = none → t.delivered = []
  inOrder : ∀ c, t.lastPktIndex = some c → t.delivered.Sublist (t.published.take (c - 1))

theorem take_sublist_append (log more : List RtmpMessage) (n : ℕ) :
    (log.take n).Sublist ((log ++ more).take n) := by
  rw [List.take_append]
  exact List.sublist_append_left _ _

theorem read_inv {t : Session} (h : SessionInv t) (hok : KeepsUp t.source t.lastPktIndex)
    (maxCount : ℕ) :
    SessionInv (t.read maxCount) := by
  obtain ⟨cleared, hsource⟩ := h.source
  rcases getPkts_cases t.source t.lastPktIndex maxCount
      with ⟨hnone, hp⟩ | ⟨start, hfrom, hav, hlast⟩
  · refine ⟨h.source, ?_, ?_⟩
    · intro _
      change t.delivered ++ (t.source.getPkts t.lastPktIndex maxCount).av = []
      rw [hp, h.fresh hnone, List.append_nil]
    · intro c hc
      change (t.source.getPkts t.lastPktIndex maxCount).lastPktIndex = some c at hc
      rw [hp] at hc
      cases hc
  · have hw : t.source.latestFrameIndex < start + 1024 ∧
        t.delivered.Sublist (t.published.take (start - 1)) := by
      rcases hfrom with hsome | ⟨hnone, hready, hstart⟩
      · rw [hsome] at hok
        exact ⟨hok, h.inOrder start hsome⟩
      · rw [hnone] at hok
        refine ⟨startIdx_window hsource (hok hready) hstart, ?_⟩
        rw [h.fresh hnone]
        exact List.nil_sublist _
    refine ⟨h.source, ?_, ?_⟩
    · intro hc
      change (t.source.getPkts t.lastPktIndex maxCount).lastPktIndex = none at hc
      rw [hlast] at hc
      cases hc
    · intro c hc
      change (t.source.getPkts t.lastPktIndex maxCount).lastPktIndex = some c at hc
      change (t.delivered ++ (t.source.getPkts t.lastPktIndex maxCount).av).Sublist
        (t.published.take (c - 1))
      rw [hlast, Option.some_inj] at hc
      rw [hav, ← hc]
      exact collect_extends _ t.published _ start maxCount (window_entry hsource hw.1) hw.2

theorem step_inv {d : Decoders} {t t' : Session} (hs : Step d KeepsUp t t') (h : SessionInv t) :
    SessionInv t' := by
  obtain ⟨cleared, hsource⟩ := h.source
  cases hs with
  | publish hp =>
    refine ⟨sourceInv_change hsource hp.ring, h.fresh, ?_⟩
    intro c hc
    exact (h.inOrder c hc).trans (take_sublist_append _ _ _)
  | read maxCount _ hok => exact read_inv h hok maxCount

theorem reachable_inv {d : Decoders} {t : Session} (h : Relation.ReflTransGen (Step d KeepsUp) {} t) :
    SessionInv t := by
  induction h with
  | refl => exact ⟨⟨0, sourceInv_init⟩, fun _ ↦ rfl, fun c hc ↦ by cases hc⟩
  | tail _ hs ih => exact step_inv hs ih

/-- As long as the reader keeps up, it gets a part of what is published, in the
order of publication and nothing twice. -/
theorem reader_gets_subsequence (d : Decoders) (t : Session)
    (h : Relation.ReflTransGen (Step d KeepsUp) {} t) : t.delivered.Sublist t.published := by
  have hinv := reachable_inv h
  cases hc : t.lastPktIndex with
  | none =>
    rw [hinv.fresh hc]
    exact List.nil_sublist _
  | some c => exact (hinv.inOrder c hc).trans (List.take_sublist _ _)

section Lagging

def mp3Metadata : RtmpMessage where
  toPacket := .ofBytes ([0x02, 0x00, 0x0a] ++
    [0x6f, 0x6e, 0x4d, 0x65, 0x74, 0x61, 0x44, 0x61, 0x74, 0x61] ++ [0x03, 0x00, 0x0c] ++
    [0x61, 0x75, 0x64, 0x69, 0x6f, 0x63, 0x6f, 0x64, 0x65, 0x63, 0x69, 0x64] ++
    [0x00, 0x40, 0, 0, 0, 0, 0, 0, 0] ++ [0, 0, 9])
  messageTypeId := 18

def mp3Packet (i : ℕ) : RtmpMessage where
  toPacket := .ofBytes [0x2f, 0xff]
  messageTypeId := 8
  timestamp := BitVec.ofNat 32 (10 * i)

def mp3Decoders : Decoders where
  metadata m :=
    if m = mp3Metadata then (true, ⟨some m, false, true, .other 0, .mp3⟩)
    else (false, ⟨none, false, false, .other 0, .other 0⟩)
  audioSpecificConfig bs := 2 ≤ bs.length
  avcConfigurationRecord bs := 7 ≤ bs.length
  hevcConfigurationRecord bs := 23 ≤ bs.length

def Session.feed (t : Session) (is : List ℕ) : Session :=
  is.foldl (fun t i ↦
    { t with
      source := (t.source.onAudioPacket mp3Decoders (mp3Packet i)).2
      published := t.published ++ [mp3Packet i] }) t

def started : Session := { source := (onMetadata {} mp3Decoders mp3Metadata).2 }

def reading : Session := (started.feed (List.range' 0 2)).read 20

/-- The reader comes back after 1025 more packets, one turn of the ring too late. -/
def lagging : Session := (reading.feed (List.range' 2 1025)).read 2

theorem mp3Packet_accepted (s : RtmpMediaSource) (i : ℕ) :
    (s.onAudioPacket mp3Decoders (mp3Packet i)).1 = true := by
  have hd : AudioTagHeader.decode (mp3Packet i).usingData = .ok (⟨.mp3, 3, 1, 1, 0⟩, 1) := rfl
  rw [onAudioPacket, hd]
  cases s.audioReady <;> rfl

theorem read_published (t : Session) (maxCount : ℕ) : (t.read maxCount).published = t.published :=
  rfl

theorem feed_published (t : Session) (is : List ℕ) :
    (t.feed is).published = t.published ++ is.map mp3Packet := by
  induction is generalizing t with
  | nil => exact (List.append_nil _).symm
  | cons i is ih =>
    rw [List.map_cons, List.append_cons]
    exact ih _

theorem feed_steps {Ok : RtmpMediaSource → Option ℕ → Prop} (t : Session) (is : List ℕ) :
    Relation.ReflTransGen (Step mp3Decoders Ok) t (t.feed is) := by
  induction is generalizing t with
  | nil => exact .refl
  | cons i is ih =>
    have hp := Publishes.audio (d := mp3Decoders) (s := t.source) (mp3Packet i) rfl
    rw [if_pos (mp3Packet_accepted t.source i)] at hp
    exact .head (Step.publish hp) (ih _)

theorem started_step {Ok : RtmpMediaSource → Option ℕ → Prop} : Step mp3Decoders Ok {} started :=
  Step.publish (.metadata mp3Metadata)

def keepingUp : Session := (reading.feed [2]).read 20

theorem reader_keeping_up_gets_subsequence :
    Relation.ReflTransGen (Step mp3Decoders KeepsUp) {} keepingUp ∧
    keepingUp.delivered = [mp3Packet 0, mp3Packet 1, mp3Packet 2] ∧
    keepingUp.delivered.Sublist keepingUp.published := by
  have hfirst : KeepsUp (started.feed (List.range' 0 2)).source
      (started.feed (List.range' 0 2)).lastPktIndex := by
    intro _ hvideo
    cases hvideo
  have hnext : KeepsUp (reading.feed [2]).source (reading.feed [2]).lastPktIndex := by
    change (reading.feed [2]).source.latestFrameIndex < 3 + 1024
    decide
  have hreach : Relation.ReflTransGen (Step mp3Decoders KeepsUp) {} keepingUp :=
    ((((Relation.ReflTransGen.single started_step).trans (feed_steps started (List.range' 0 2))).tail
      (Step.read 20 (by decide) hfirst)).trans (feed_steps reading [2])).tail (Step.read 20 (by decide) hnext)
  exact ⟨hreach, by decide +kernel, reader_gets_subsequence mp3Decoders keepingUp hreach⟩

theorem lagging_published : lagging.published = (List.range' 0 1027).map mp3Packet := by
  have happ : List.range' 0 2 ++ List.range' 2 1025 = List.range' 0 1027 := List.range'_append_1
  rw [lagging, read_published, feed_published, reading, read_published, feed_published,
    List.append_assoc, ← List.map_append, happ]
  rfl

theorem mp3Packets_sorted :
    ((List.range' 0 1027).map mp3Packet).Pairwise fun a b ↦
      a.timestamp.toNat < b.timestamp.toNat := by
  rw [List.pairwise_map]
  apply List.Pairwise.imp_of_mem ?_ List.pairwise_lt_range'
  intro i j hi hj hij
  rw [List.mem_range'_1] at hi hj
  simp only [mp3Packet, BitVec.toNat_ofNat]
  rw [Nat.mod_eq_of_lt (by omega), Nat.mod_eq_of_lt (by omega)]
  omega

set_option maxRecDepth 20000 in
theorem lagging_stamps : lagging.delivered.map RtmpMessage.timestamp = [0, 10, 10260, 30] := by
  decide +kernel

/-- The late reader gets packet 1027 where it expects packet 3, and then packet 4. -/
theorem lagging_reader_out_of_order :
    Relation.ReflTransGen (Step mp3Decoders fun _ _ ↦ True) {} lagging ∧
    lagging.delivered.map RtmpMessage.timestamp = [0, 10, 10260, 30] ∧
    ¬ lagging.delivered.Sublist lagging.published := by
  have hreach : Relation.ReflTransGen (Step mp3Decoders fun _ _ ↦ True) {} lagging :=
    ((((Relation.ReflTransGen.single started_step).trans (feed_steps started (List.range' 0 2))).tail
      (Step.read 20 (by decide) trivial)).trans (feed_steps reading (List.range' 2 1025))).tail
      (Step.read 2 (by decide) trivial)
  refine ⟨hreach, lagging_stamps, ?_⟩
  intro hsub
  rw [lagging_published] at hsub
  have hsorted : (lagging.delivered.map RtmpMessage.timestamp).Pairwise fun a b ↦ a.toNat < b.toNat :=
    List.pairwise_map.mpr (mp3Packets_sorted.sublist hsub)
  rw [lagging_stamps] at hsorted
  exact absurd hsorted (by decide)

end Lagging

end MmsServer.Core.LiveReader
