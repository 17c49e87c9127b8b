import MmsServer.Lib.Batching
import MmsServer.M4s.RtmpToM4s

namespace MmsServer.M4s.Timeline

open Lib.Batching Lib.Checked Mp4.FragmentBoxes InitSegment MediaSegment RtmpToM4s

section Batches

theorem batches_reap_push (t : Track) (s : TrackState) (p : Packet) (hne : s.pkts ≠ []) :
    ((s.reap p.time).push t p).batches = s.batches.push Packet.time True p := by
  obtain ⟨pkts, bytes, seqNo, segments⟩ := s
  cases pkts with
  | nil => exact absurd rfl hne
  | cons first rest =>
    simp [TrackState.reap, TrackState.push, TrackState.batches, Batches.push]

theorem batches_push (t : Track) (s : TrackState) (p : Packet) :
    (s.push t p).batches = s.batches.push Packet.time False p := by
  obtain ⟨pkts, bytes, seqNo, segments⟩ := s
  cases pkts <;> simp [TrackState.push, TrackState.batches, Batches.push]

theorem batches_cut (t : Track) (s : TrackState) (p : Packet) (cut : Bool)
    (hne : cut = true → s.pkts ≠ []) :
    ((if cut = true then s.reap p.time else s).push t p).batches =
      s.batches.push Packet.time (cut = true) p := by
  cases cut with
  | true =>
    rw [if_pos rfl, batches_reap_push t s p (hne rfl)]
    simp only
  | false =>
    rw [if_neg Bool.false_ne_true, batches_push]
    simp only [Bool.false_eq_true]

/-- What a message does to a track: an accepted frame is pushed and may close the
batch, and everything else leaves the track as it is. -/
def Pushes (frame : Option Packet) (ok : Bool) (s s' : TrackState) : Prop :=
  match frame, ok with
  | some p, true => s'.pkts ≠ [] ∧ ∃ cut : Bool, s'.batches = s.batches.push Packet.time (cut = true) p
  | _, _ => s' = s

structure Processed (s : State) (e : Event) (s' : State) (ok : Bool) : Prop where
  video : Pushes (videoFrame s e) ok s.video s'.video
  audio : Pushes (audioFrame s e) ok s.audio s'.audio
  videoOk : ∀ p, videoFrame s e = some p → ok = !(s.video.pkts.isEmpty && !isKeyFrame p)
  audioOk : ∀ p, audioFrame s e = some p → ok = s.audioReady
  config : ∀ p, audioFrame s e = some p → isAudioConfig s e = false
  audioReady : s'.audioReady = (s.audioReady || isAudioConfig s e)
  headers : Headers s → Headers s'

theorem cut_nonempty {s : TrackState} {decision : Bool}
    (h : (decide (2 ≤ s.pkts.length) && decision) = true) : s.pkts ≠ [] := by
  rintro hnil
  simp [hnil] at h

theorem push_pkts_ne_nil (t : Track) (s : TrackState) (p : Packet) : (s.push t p).pkts ≠ [] := by
  simp [TrackState.push]

theorem takeVideo_pushes {s s' : State} {c : VideoCall} {ok : Bool} (h : s.takeVideo c = (s', ok)) :
    ok = !(s.video.pkts.isEmpty && !isKeyFrame c.packet) ∧
      Pushes (some c.packet) ok s.video s'.video ∧
      ∃ video videoReaped, s' = { s with video := video, videoReaped := videoReaped } := by
  obtain ⟨cut, hcut⟩ : ∃ cut, cut = (decide (2 ≤ s.video.pkts.length) &&
      c.canReap (isKeyFrame c.packet) (s.video.duration c.packet) s.video.bytes) := ⟨_, rfl⟩
  have heq : s.takeVideo c =
      if s.video.pkts = [] ∧ isKeyFrame c.packet = false then (s, false)
      else
        ({ s with
            video := (if cut = true then s.video.reap c.packet.time else s.video).push videoTrack c.packet
            videoReaped := cut || s.videoReaped }, true) := by
    grind [State.takeVideo]
  rw [heq] at h
  by_cases hstart : s.video.pkts = [] ∧ isKeyFrame c.packet = false
  · rw [if_pos hstart] at h
    cases h
    exact ⟨by simp [hstart], rfl, s.video, s.videoReaped, rfl⟩
  · rw [if_neg hstart] at h
    cases h
    have hne : cut = true → s.video.pkts ≠ [] := fun hc ↦ cut_nonempty (hcut ▸ hc)
    refine ⟨by grind, ⟨push_pkts_ne_nil _ _ _, cut, ?_⟩, _, _, rfl⟩
    exact batches_cut videoTrack s.video c.packet cut hne

theorem takeAudio_pushes {s s' : State} {c : AudioCall} {ok : Bool} (h : s.takeAudio c = (s', ok)) :
    ok = true ∧ Pushes (some c.packet) ok s.audio s'.audio ∧
      ∃ audio videoReaped, s' = { s with audio := audio, videoReaped := videoReaped } := by
  obtain ⟨cut, hcut⟩ : ∃ cut, cut = (decide (2 ≤ s.audio.pkts.length) &&
      (c.canReap false (s.audio.duration c.packet) s.audio.bytes || s.videoReaped)) := ⟨_, rfl⟩
  have heq : s.takeAudio c =
      ({ s with
          audio := (if cut = true then s.audio.reap c.packet.time else s.audio).push audioTrack c.packet
          videoReaped := !cut && s.videoReaped }, true) := by
    grind [State.takeAudio]
  rw [heq] at h
  cases h
  have hne : cut = true → s.audio.pkts ≠ [] := fun hc ↦ cut_nonempty (hcut ▸ hc)
  refine ⟨rfl, ⟨push_pkts_ne_nil _ _ _, cut, ?_⟩, _, _, rfl⟩
  exact batches_cut audioTrack s.audio c.packet cut hne

theorem quiet_processed {s s' : State} {e : Event} (h : Quiet s e s') (ok : Bool)
    (hvideo : videoFrame s e = none) (haudio : audioFrame s e = none) : Processed s e s' ok := by
  refine ⟨?_, ?_, ?_, ?_, ?_, h.audioReady, h.headers⟩
  · rw [hvideo]
    exact h.video
  · rw [haudio]
    exact h.audio
  · rw [hvideo]
    exact nofun
  · rw [haudio]
    exact nofun
  · rw [haudio]
    exact nofun

theorem process_video {s s' : State} {c : VideoCall} {ok : Bool}
    (h : process s (.video c) = .ok (s', ok)) : Processed s (.video c) s' ok := by
  have hnot : audioFrame s (.video c) = none := rfl
  have hready : s.audioReady = (s.audioReady || isAudioConfig s (.video c)) := (Bool.or_false _).symm
  cases hframe : videoFrame s (.video c) with
  | none =>
    obtain ⟨s₁, ok₁, hs₁, hquiet⟩ := process_video_other hframe
    rw [hs₁] at h
    cases h
    exact quiet_processed hquiet _ hframe hnot
  | some p =>
    obtain ⟨rfl, hprocess⟩ := process_video_frame hframe
    rw [hprocess] at h
    obtain ⟨s₁, hs₁, h⟩ := Outcome.bind_eq_ok.mp h
    obtain ⟨b, rfl⟩ := checkReady_eq_ok hs₁
    obtain ⟨hok, hpushes, video, videoReaped, rfl⟩ := takeVideo_pushes (Outcome.ok.inj h)
    refine ⟨?_, rfl, ?_, nofun, nofun, hready, fun hs ↦ ⟨hs.video, hs.audio, hs.config⟩⟩
    · rw [hframe]
      exact hpushes
    · rintro p hp
      obtain rfl := Option.some.inj (hframe.symm.trans hp)
      exact hok

theorem process_audio {s s' : State} {c : AudioCall} {ok : Bool}
    (h : process s (.audio c) = .ok (s', ok)) : Processed s (.audio c) s' ok := by
  have hnot : videoFrame s (.audio c) = none := rfl
  cases hframe : audioFrame s (.audio c) with
  | none =>
    obtain ⟨s₁, ok₁, hs₁, hquiet⟩ := process_audio_other hframe
    rw [hs₁] at h
    cases h
    exact quiet_processed hquiet _ hnot hframe
  | some p =>
    obtain ⟨rfl, hconfig, hprocess⟩ := process_audio_frame hframe
    have hready : s.audioReady = (s.audioReady || isAudioConfig s (.audio c)) := by
      rw [hconfig, Bool.or_false]
    rw [hprocess] at h
    by_cases hstart : s.audioReady = false
    · rw [if_pos hstart] at h
      cases h
      exact ⟨rfl, by rw [hframe]; rfl, nofun, fun _ _ ↦ hstart.symm, fun _ _ ↦ hconfig, hready, id⟩
    · rw [if_neg hstart] at h
      obtain ⟨s₁, hs₁, h⟩ := Outcome.bind_eq_ok.mp h
      obtain ⟨b, rfl⟩ := checkReady_eq_ok hs₁
      obtain ⟨rfl, hpushes, audio, videoReaped, rfl⟩ := takeAudio_pushes (Outcome.ok.inj h)
      refine ⟨rfl, ?_, nofun, fun _ _ ↦ ((Bool.not_eq_false _).mp hstart).symm, fun _ _ ↦ hconfig, hready,
        fun hs ↦ ⟨hs.video, hs.audio, hs.config⟩⟩
      rw [hframe]
      exact hpushes

theorem process_processed {s s' : State} {e : Event} {ok : Bool} (h : process s e = .ok (s', ok)) :
    Processed s e s' ok := by
  cases e with
  | metadata m =>
    have hs' : s.onMetadata m = (s', ok) := Outcome.ok.inj h
    have hquiet := onMetadata_quiet s m
    rw [hs'] at hquiet
    exact quiet_processed hquiet ok rfl rfl
  | video c => exact process_video h
  | audio c => exact process_audio h

end Batches

section Run

theorem steps_ok {s s' : State} {e : Event} {ok : Bool} (h : process s e = .ok (s', ok)) (es : List Event) :
    steps s (e :: es) = (s, e) :: steps s' es := by
  rw [steps, h]

theorem acceptedIn_ok {s s' : State} {e : Event} {ok : Bool} (h : process s e = .ok (s', ok))
    (frame : State → Event → Option Packet) :
    acceptedIn frame s e = if ok then frame s e else none := by
  rw [acceptedIn, h]
  cases ok <;> rfl

theorem accepted_ok {s s' : State} {e : Event} {ok : Bool} (h : process s e = .ok (s', ok))
    (frame : State → Event → Option Packet) (es : List Event) :
    accepted frame s (e :: es) = (if ok then frame s e else none).toList ++ accepted frame s' es := by
  rw [accepted, steps_ok h, List.filterMap_cons, acceptedIn_ok h]
  cases (if ok then frame s e else none) <;> rfl

/-- A run is survived exactly if each message is that is reached. -/
theorem run_ok_iff {s : State} (h : Headers s) (es : List Event) :
    (∃ s', run s es = .ok s') ↔ ∀ step ∈ steps s es, OpensSoundly step.1 step.2 := by
  induction es generalizing s with
  | nil => simp [run, steps]
  | cons e es ih =>
    rw [run]
    by_cases hsound : OpensSoundly s e
    · obtain ⟨⟨s', ok⟩, hs'⟩ := (process_ok_iff h e).mpr hsound
      rw [hs', steps_ok hs', List.forall_mem_cons, Outcome.ok_bind, ih ((process_processed hs').headers h)]
      exact ⟨fun hrest ↦ ⟨hsound, hrest⟩, And.right⟩
    · constructor
      · rintro ⟨s', hs'⟩
        obtain ⟨r, hr, -⟩ := Outcome.bind_eq_ok.mp hs'
        exact absurd ((process_ok_iff h e).mp ⟨r, hr⟩) hsound
      · intro hall
        exact absurd (hall (s, e) (by rw [steps]; exact List.mem_cons_self ..)) hsound

/-- Over a run a track collects the accepted frames, and its batches stay linked. -/
theorem run_batches {frame : State → Event → Option Packet} {track : State → TrackState}
    (hstep : ∀ {s s' e ok}, process s e = .ok (s', ok) → Pushes (frame s e) ok (track s) (track s'))
    {s s' : State} {es : List Event} (h : run s es = .ok s') :
    (track s').batches.items = (track s).batches.items ++ accepted frame s es ∧
      ((track s).batches.Linked Packet.time → (track s').batches.Linked Packet.time) := by
  induction es generalizing s with
  | nil =>
    cases h
    exact ⟨(List.append_nil _).symm, id⟩
  | cons e es ih =>
    obtain ⟨⟨s₁, ok⟩, hs₁, h⟩ := Outcome.bind_eq_ok.mp h
    obtain ⟨hitems, hlinked⟩ := ih h
    have hpushes := hstep hs₁
    rw [accepted_ok hs₁, hitems]
    cases hframe : frame s e with
    | none =>
      rw [hframe] at hpushes
      rw [show track s₁ = track s from hpushes] at hlinked ⊢
      refine ⟨?_, hlinked⟩
      rw [ite_self]
      rfl
    | some p =>
      rw [hframe] at hpushes
      cases ok with
      | false =>
        rw [show track s₁ = track s from hpushes] at hlinked ⊢
        exact ⟨rfl, hlinked⟩
      | true =>
        obtain ⟨-, cut, hcut⟩ := hpushes
        rw [hcut] at hlinked ⊢
        refine ⟨?_, fun hs ↦ hlinked (hs.push _ p)⟩
        rw [Batches.items_push, if_pos rfl, Option.toList_some, List.append_assoc]

end Run

section Times

theorem time_bounds (p : Packet) : -2 ^ 31 ≤ p.time.toInt ∧ p.time.toInt < 2 ^ 31 := by
  rw [Packet.toInt_time]
  exact ⟨BitVec.le_toInt p.timestamp, BitVec.toInt_lt⟩

/-- The difference of two times in the right order is not cut off by the 32 bits. -/
theorem sub_time {x y : BitVec 64} (hle : y.toInt ≤ x.toInt) (hlt : x.toInt < y.toInt + 2 ^ 32) :
    (((x - y).setWidth 32).toNat : ℤ) = x.toInt - y.toInt := by
  rw [BitVec.toInt_eq_toNat_cond, BitVec.toInt_eq_toNat_cond] at *
  rw [BitVec.toNat_setWidth, BitVec.toNat_sub]
  have hx := x.isLt
  have hy := y.isLt
  split at * <;> split at * <;> omega

theorem sub_timestamp {p q : Packet} (hle : p.time.toInt ≤ q.time.toInt) :
    ((q.timestamp - p.timestamp).toNat : ℤ) = q.time.toInt - p.time.toInt := by
  rw [Packet.toInt_time, Packet.toInt_time] at *
  rw [BitVec.toInt_eq_toNat_cond, BitVec.toInt_eq_toNat_cond] at *
  rw [BitVec.toNat_sub]
  have hp := p.timestamp.isLt
  have hq := q.timestamp.isLt
  split at * <;> split at * <;> omega

theorem sampleDurations_eq (t : Track) {dts : BitVec 64} (hlt : dts.toInt < 2 ^ 31)
    (flags : BitVec 32) (p : Packet) (ps : List Packet)
    (hsorted : (((p :: ps).map Packet.time ++ [dts]).map BitVec.toInt).Pairwise (· ≤ ·)) :
    ((t.trunEntries dts flags (p :: ps)).map fun e ↦ (e.sampleDuration.toNat : ℤ)) =
      gaps p.time.toInt ((ps.map Packet.time ++ [dts]).map BitVec.toInt) := by
  induction ps generalizing p flags with
  | nil =>
    have hle : p.time.toInt ≤ dts.toInt := by simpa using hsorted
    have hp := time_bounds p
    change [(((dts - p.time).setWidth 32).toNat : ℤ)] = [dts.toInt - p.time.toInt]
    rw [sub_time hle (by omega)]
  | cons q ps ih =>
    rw [List.map_cons, List.cons_append, List.map_cons, List.pairwise_cons] at hsorted
    have hle : p.time.toInt ≤ q.time.toInt := hsorted.1 _ (by simp)
    rw [Track.trunEntries, List.map_cons, ih _ q hsorted.2, List.map_cons, List.cons_append,
      List.map_cons, gaps]
    congr 1
    exact sub_timestamp hle

end Times

section Timeline

/-- The decode time of `r'` is that of `r` and the durations of its samples. -/
def Follows (t : Track) (r r' : Reaped) : Prop :=
  ∀ m m', ∃ base base',
    (r.segment t m).baseMediaDecodeTime = some base ∧
    (r'.segment t m').baseMediaDecodeTime = some base' ∧
    base'.toInt = base.toInt +
      ((r.segment t m).sampleDurations.map fun d ↦ (d.toNat : ℤ)).sum

/-- The segments of a track without a gap or an overlap. The durations are the
differences of the times of the samples, none of which is negative. -/
structure Continuous (t : Track) (segments : List Reaped) : Prop where
  follows : segments.IsChain (Follows t)
  durations : ∀ r ∈ segments, ∀ m,
    ((r.segment t m).sampleDurations.map fun d ↦ (d.toNat : ℤ)) =
      gaps r.first.time.toInt r.times
  nonneg : ∀ r ∈ segments, ∀ gap ∈ gaps r.first.time.toInt r.times, 0 ≤ gap

/-- The timestamps do not decrease. -/
def Ordered (pkts : List Packet) : Prop := (pkts.map fun p ↦ p.timestamp.toInt).Pairwise (· ≤ ·)

theorem frames_eq_items (s : TrackState) : s.frames = s.batches.items := by
  simp [TrackState.frames, TrackState.batches, Batches.items, List.flatMap_map, Batch.items]

theorem segment_durations (t : Track) {s : TrackState} (hlinked : s.batches.Linked Packet.time)
    (hordered : Ordered s.frames) {r : Reaped} (hr : r ∈ s.segments) (m : SegmentMemory) :
    ((r.segment t m).sampleDurations.map fun d ↦ (d.toNat : ℤ)) =
      gaps r.first.time.toInt r.times := by
  have hmem : (⟨r.first, r.rest, r.dts⟩ : Batch Packet (BitVec 64)) ∈ s.batches.closed :=
    List.mem_map.mpr ⟨r, hr, rfl⟩
  have hsub : ((r.first :: r.rest).map Packet.time ++ [r.dts]).Sublist (s.frames.map Packet.time) := by
    have hbatch := hlinked.batch_sublist hmem
    rw [List.map_cons, List.cons_append, frames_eq_items]
    exact hbatch
  have htimes : ((s.frames.map Packet.time).map BitVec.toInt).Pairwise (· ≤ ·) := by
    have htimes : BitVec.toInt ∘ Packet.time = fun p ↦ p.timestamp.toInt := funext Packet.toInt_time
    rw [List.map_map, htimes]
    exact hordered
  obtain ⟨q, -, hq⟩ := List.mem_map.mp (hsub.subset (List.mem_append_right _ (List.mem_singleton_self _)))
  have hlt : r.dts.toInt < 2 ^ 31 := hq ▸ (time_bounds q).2
  have hdurations : (r.segment t m).sampleDurations =
      (t.trunEntries r.dts 0x02000000 (r.first :: r.rest)).map TrunEntry.sampleDuration := rfl
  rw [Reaped.times, ← sampleDurations_eq t hlt 0x02000000 r.first r.rest (htimes.sublist (hsub.map _)),
    hdurations, List.map_map]
  rfl

theorem continuous_of_linked (t : Track) {s : TrackState} (hlinked : s.batches.Linked Packet.time)
    (hordered : Ordered s.frames) : Continuous t s.segments := by
  have hdurations {r : Reaped} (hr : r ∈ s.segments) := segment_durations t hlinked hordered hr
  refine ⟨?_, fun r hr ↦ hdurations hr, fun r hr gap hgap ↦ ?_⟩
  · have hclosed := hlinked.closed
    rw [TrackState.batches, List.isChain_map] at hclosed
    refine hclosed.imp_of_mem_imp fun r r' hr _ hstop m m' ↦ ?_
    refine ⟨r.first.time, r'.first.time, rfl, rfl, ?_⟩
    rw [hdurations hr m, Reaped.times, List.map_append, List.map_singleton, sum_gaps]
    rw [show r'.first.time = r.dts from hstop.symm]
    omega
  · rw [← hdurations hr default] at hgap
    obtain ⟨d, -, rfl⟩ := List.mem_map.mp hgap
    exact Int.natCast_nonneg _

theorem headers_fresh : Headers {} := ⟨rfl, rfl, nofun⟩

def frames (frame : State → Event → Option Packet) (steps : List (State × Event)) : List Packet :=
  steps.filterMap fun step ↦ frame step.1 step.2

theorem frames_cons (frame : State → Event → Option Packet) (s : State) (e : Event)
    (steps : List (State × Event)) :
    frames frame ((s, e) :: steps) = (frame s e).toList ++ frames frame steps := by
  rw [frames, List.filterMap_cons]
  cases frame s e <;> rfl

/-- The frames from the first key frame on are accepted. -/
theorem accepted_video {s s' : State} {es : List Event} (h : run s es = .ok s') :
    accepted videoFrame s es =
      if s.video.pkts = [] then (frames videoFrame (steps s es)).dropWhile fun p ↦ !isKeyFrame p
      else frames videoFrame (steps s es) := by
  induction es generalizing s with
  | nil => simp [accepted, steps, frames]
  | cons e es ih =>
    obtain ⟨⟨s₁, ok⟩, hs₁, h⟩ := Outcome.bind_eq_ok.mp h
    have hprocessed := process_processed hs₁
    have hpushes := hprocessed.video
    rw [accepted_ok hs₁, steps_ok hs₁, ih h, frames_cons]
    cases hframe : videoFrame s e with
    | none =>
      rw [hframe] at hpushes
      rw [show s₁.video = s.video from hpushes, ite_self]
      rfl
    | some p =>
      have hok := hprocessed.videoOk p hframe
      rw [hframe] at hpushes
      cases ok with
      | false =>
        rw [show s₁.video = s.video from hpushes]
        obtain ⟨hempty, hkey⟩ : s.video.pkts = [] ∧ isKeyFrame p = false := by simpa using hok
        simp [hempty, hkey]
      | true =>
        rw [if_neg hpushes.1]
        by_cases hempty : s.video.pkts = []
        · have hkey : isKeyFrame p = true := by simpa [hempty] using hok
          simp [hempty, hkey]
        · simp [hempty]

/-- The frames behind the first sequence header are accepted. -/
theorem accepted_audio {s s' : State} {es : List Event} (h : run s es = .ok s') :
    accepted audioFrame s es =
      frames audioFrame
        (if s.audioReady then steps s es
          else (steps s es).dropWhile fun step ↦ !isAudioConfig step.1 step.2) := by
  induction es generalizing s with
  | nil => simp [accepted, steps, frames]
  | cons e es ih =>
    obtain ⟨⟨s₁, ok⟩, hs₁, h⟩ := Outcome.bind_eq_ok.mp h
    have hprocessed := process_processed hs₁
    rw [accepted_ok hs₁, steps_ok hs₁, ih h, hprocessed.audioReady]
    cases hframe : audioFrame s e with
    | none =>
      cases hready : s.audioReady <;> cases hconfig : isAudioConfig s e <;>
        simp [hframe, hconfig, frames_cons]
    | some p =>
      have hconfig := hprocessed.config p hframe
      rw [hprocessed.audioOk p hframe, hconfig]
      cases hready : s.audioReady <;> simp [hframe, hconfig, frames_cons]

/-- The messages are all survived, and what has been made of them is a timeline. -/
structure Seamless (es : List Event) (s : State) : Prop where
  survived : run {} es = .ok s
  video : Continuous videoTrack s.video.segments
  audio : Continuous audioTrack s.audio.segments
  videoFrames : s.video.frames = accepted videoFrame {} es
  audioFrames : s.audio.frames = accepted audioFrame {} es
  acceptedVideo : accepted videoFrame {} es =
    (frames videoFrame (steps {} es)).dropWhile fun p ↦ !isKeyFrame p
  acceptedAudio : accepted audioFrame {} es =
    frames audioFrame ((steps {} es).dropWhile fun step ↦ !isAudioConfig step.1 step.2)

/-- The key frame finds the stream ready, and then there is no codec for the audio. -/
def videoOnly : List Event :=
  [.metadata (some ⟨some .avc, none⟩),
    .video ⟨⟨⟨0, [0x17, 0, 0, 0, 0]⟩, fun _ _ _ ↦ true⟩, true, 0⟩,
    .video ⟨⟨⟨0, [0x17, 1, 0, 0, 0, 0xaa]⟩, fun _ _ _ ↦ true⟩, true, 0⟩]

/-- Metadata and sequence headers for both, a key frame and three frames, with a decision
to cut at each. -/
def fourFrames : List Event :=
  [.metadata (some ⟨some .avc, some .aac⟩),
    .audio ⟨⟨⟨0, [0xaf, 0, 0x12, 0x10]⟩, fun _ _ _ ↦ true⟩, some ⟨2, 4, 44100, 2⟩⟩] ++
  [(0x17, 0, 0), (0x17, 1, 0), (0x27, 1, 40), (0x27, 1, 80), (0x17, 1, 120)].map fun (b, packetType, ms) ↦
    .video ⟨⟨⟨ms, [b, packetType, 0, 0, 0, 0xaa]⟩, fun _ _ _ ↦ true⟩, true, 0⟩

end Timeline

end MmsServer.M4s.Timeline
