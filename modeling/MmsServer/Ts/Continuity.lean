import MmsServer.Lib.CyclicCount
import MmsServer.Ts.RtmpBridge

namespace MmsServer.Ts.Continuity

open Lib.ByteReader Lib.Checked Lib.CyclicCount Rtmp.FlvTag Segment Packetizer RtmpBridge

section Iso13818

/-- The fields that ISO 13818-1 reads from the four header bytes of a packet. -/
def pidOf (header : Bytes) : ℕ := fromBE ((header.drop 1).take 2) % 2 ^ 13

def counterOf (header : Bytes) : ℕ := (header.getD 3 0).toNat % 16

def countersOf (pid : ℕ) (trace : List Bytes) : List ℕ :=
  (trace.filter fun h ↦ pidOf h == pid).map counterOf

/-- Every packet of the bridge carries payload, so that every counter has to go up. -/
def Continuous (trace : List Bytes) : Prop :=
  ∀ pid, (countersOf pid trace).IsChain fun a b ↦ b % 16 = (a + 1) % 16

end Iso13818

section Headers

variable {pid : BitVec 16}

theorem tsHeader_fields (hpid : pid.toNat < 2 ^ 13) (start both : Bool) (counter : UInt8) :
    pidOf (tsHeader pid start both counter) = pid.toNat ∧
      counterOf (tsHeader pid start both counter) = counter.toNat % 16 := by
  have hcode : fromBE (putBE 2 ((if start then 2 ^ 14 else 0) + pid.toNat)) % 2 ^ 13 =
      pid.toNat := by
    rw [fromBE_putBE]
    cases start with
    | false =>
      simp only [Bool.false_eq_true, if_false]
      omega
    | true =>
      simp only [if_true]
      omega
  refine ⟨?_, ?_⟩
  · rw [pidOf, tsHeader, startBit_or hpid]
    exact hcode
  · have hnibble : (UInt8.ofNat ((if both then 3 else 1) * 16 + counter.toNat % 16)).toNat % 16 =
        counter.toNat % 16 := by
      rw [UInt8.toNat_ofNat']
      cases both with
      | false => simp only [Bool.false_eq_true, if_false]; omega
      | true => simp only [if_true]; omega
    exact hnibble

/-- The packets are those of `pid`, and they take the counter on. -/
structure Carries (pid : BitVec 16) (counter : UInt8) (headers : List Bytes) (counter' : UInt8) :
    Prop where
  pid_eq : ∀ h ∈ headers, pidOf h = pid.toNat
  counts : ∀ l, Counts 16 l counter.toNat → Counts 16 (l ++ headers.map counterOf) counter'.toNat

theorem Carries.nil (pid : BitVec 16) (counter : UInt8) : Carries pid counter [] counter :=
  ⟨by simp, fun l hl ↦ by rwa [List.map_nil, List.append_nil]⟩

theorem Carries.cons {counter counter' : UInt8} {headers : List Bytes}
    (hpid : pid.toNat < 2 ^ 13) (start both : Bool)
    (h : Carries pid (counter + 1) headers counter') :
    Carries pid counter (tsHeader pid start both counter :: headers) counter' := by
  obtain ⟨hp, hc⟩ := tsHeader_fields hpid start both counter
  refine ⟨?_, ?_⟩
  · intro hd hmem
    rcases List.mem_cons.mp hmem with rfl | hmem
    · exact hp
    · exact h.pid_eq hd hmem
  · intro l hl
    have hnext : (counter + 1).toNat % 16 = (counter.toNat + 1) % 16 := by
      rw [UInt8.toNat_add]
      change (counter.toNat + 1) % 256 % 16 = _
      omega
    have hpush := h.counts _ (hl.push.congr hnext)
    rw [List.map_cons, hc]
    rwa [List.append_assoc] at hpush

theorem packetLoop_carries (hpid : pid.toNat < 2 ^ 13) {pcr : Option (BitVec 64)} {pesLen fuel left : ℕ}
    {segs : List Bytes} {seg : TsSegment} {counter : UInt8} {r : PacketRun}
    (h : packetLoop pid pcr pesLen fuel left segs seg counter = some r) :
    Carries pid counter (r.writes.map TsWrite.header) r.counter := by
  induction fuel generalizing left segs seg counter r with
  | zero =>
    rw [packetLoop] at h
    split at h
    · cases h
      exact .nil pid counter
    · cases h
  | succ fuel ih =>
    rw [packetLoop] at h
    split at h
    · cases h
      exact .nil pid counter
    · simp only at h
      split at h
      · cases h
      · obtain ⟨r', hr', rfl⟩ := Option.map_eq_some_iff.mp h
        exact (ih hr').cons hpid _ _

theorem countersOf_append (q : ℕ) (trace more : List Bytes) :
    countersOf q (trace ++ more) = countersOf q trace ++ countersOf q more := by
  rw [countersOf, List.filter_append, List.map_append]
  rfl

theorem Carries.countersOf_self {counter counter' : UInt8} {headers : List Bytes}
    (h : Carries pid counter headers counter') :
    countersOf pid.toNat headers = headers.map counterOf := by
  rw [countersOf, List.filter_eq_self.mpr]
  intro hd hmem
  rw [h.pid_eq hd hmem, beq_self_eq_true]

theorem Carries.countersOf_other {counter counter' : UInt8} {headers : List Bytes}
    (h : Carries pid counter headers counter') {q : ℕ} (hq : q ≠ pid.toNat) :
    countersOf q headers = [] := by
  rw [countersOf, List.filter_eq_nil_iff.mpr, List.map_nil]
  intro hd hmem
  rw [h.pid_eq hd hmem, beq_iff_eq]
  exact fun he ↦ hq he.symm

end Headers

section Step

structure Outputs (s s' : Bridge) (e : Emitted) : Prop where
  tables : e.tables = [] ∧ (s'.currSeg = none → s.currSeg = none) ∨
    s.currSeg = none ∧ s'.currSeg ≠ none ∧ e.tables = Bridge.tableHeaders
  packets : ∃ pid, (pid = 0x100 ∨ pid = 0x101) ∧
    Carries pid (s.continuityCounter pid) (e.writes.map TsWrite.header) (s'.continuityCounter pid) ∧
    ∀ q, q ≠ pid → s'.continuityCounter q = s.continuityCounter q
  codec : s'.videoCodec = none →
    s.videoCodec = none ∧ s'.continuityCounter 0x100 = s.continuityCounter 0x100

theorem Outputs.quiet {s s' : Bridge} (hseg : s'.currSeg = s.currSeg)
    (hcount : s'.continuityCounter = s.continuityCounter) (hcodec : s'.videoCodec = s.videoCodec) :
    Outputs s s' {} := by
  refine ⟨.inl ⟨rfl, fun h ↦ hseg ▸ h⟩, ⟨0x100, .inl rfl, ?_, ?_⟩, ?_⟩
  · rw [hcount]
    exact .nil _ _
  · intro q _
    rw [hcount]
  · intro h
    exact ⟨hcodec ▸ h, by rw [hcount]⟩

theorem openSegment_tables (s : Bridge) : s.openSegment.2 = [] ∧ s.currSeg ≠ none ∨
    s.currSeg = none ∧ s.openSegment.2 = Bridge.tableHeaders := by
  unfold Bridge.openSegment
  cases s.currSeg with
  | none => exact .inr ⟨rfl, rfl⟩
  | some seg => exact .inl ⟨rfl, nofun⟩

/-- A message whose packets go to the segment that was opened for it. -/
theorem Outputs.opened {s s' : Bridge} {pid : BitVec 16} (hpid : pid = 0x100 ∨ pid = 0x101)
    {pes : Option Bytes} {writes : List TsWrite} (hseg : s'.currSeg ≠ none)
    (hcarry : Carries pid (s.continuityCounter pid) (writes.map TsWrite.header)
      (s'.continuityCounter pid))
    (hother : ∀ q, q ≠ pid → s'.continuityCounter q = s.continuityCounter q)
    (hcodec : s'.videoCodec = none → s.videoCodec = none ∧ pid ≠ 0x100) :
    Outputs s s' { tables := s.openSegment.2, pes := pes, writes := writes } := by
  refine ⟨?_, ⟨pid, hpid, hcarry, hother⟩, fun h ↦ ⟨(hcodec h).1, hother _ (hcodec h).2.symm⟩⟩
  rcases openSegment_tables s with ⟨ht, -⟩ | ⟨hs, ht⟩
  · exact .inl ⟨ht, fun h ↦ absurd h hseg⟩
  · exact .inr ⟨hs, hseg, ht⟩

theorem processVideoPes_outputs {s s' : Bridge} {codec : VideoCodec} {m : VideoMessage} {b : Bool}
    {e : Emitted} (h : s.processVideoPes codec m = .ok (s', b, e)) (hv : s.videoCodec ≠ none) :
    Outputs s s' e := by
  unfold Bridge.processVideoPes at h
  simp only at h
  split at h
  · cases h
    exact .opened (.inl rfl) nofun (.nil _ _) (fun _ _ ↦ rfl)
      fun h ↦ absurd h hv
  · split at h
    · cases h
    · rename_i r hr
      cases h
      obtain ⟨r', hr', rfl⟩ := Option.map_eq_some_iff.mp hr
      have hpid : codec.pid = 0x100 := by cases codec <;> rfl
      refine .opened (.inl hpid) nofun ?_ ?_ fun h ↦ absurd h hv
      · simp only [Function.update_self]
        exact packetLoop_carries (pid_lt codec) hr'
      · intro q hq
        exact Function.update_of_ne hq _ _

theorem flushAudio_outputs {s s' : Bridge} {t : ℤ} {i : ℕ} {b : Bool} {e : Emitted}
    (h : s.flushAudio t i = .ok (s', b, e)) : Outputs s s' e := by
  unfold Bridge.flushAudio at h
  simp only at h
  split at h
  · cases h
  · rename_i r hr
    cases h
    refine .opened (.inr (rfl : audioPid = 0x101)) nofun ?_ ?_ fun h ↦ ⟨h, by decide⟩
    · simp only [Function.update_self]
      exact packetLoop_carries (by decide) hr
    · intro q hq
      exact Function.update_of_ne hq _ _

theorem reap_eq {s : Bridge} {canReap : Bool} (h : s.currSeg.isSome → canReap = false) :
    s.reap canReap = s := by
  unfold Bridge.reap
  split
  · rename_i hc
    rw [Bool.and_eq_true] at hc
    rw [h hc.1] at hc
    cases hc.2
  · rfl

theorem processVideo_outputs {s s' : Bridge} (codec : VideoCodec) {m : VideoMessage} {b : Bool}
    {e : Emitted} (hreap : s.currSeg.isSome → m.canReap = false) (hv : s.videoCodec ≠ none)
    (h : (match codec with
      | .avc => s.processH264Packet m
      | .hevc => s.processH265Packet m) = .ok (s', b, e)) : Outputs s s' e := by
  have hquiet : Outputs s s {} := .quiet rfl rfl rfl
  cases codec with
  | avc =>
    simp only [Bridge.processH264Packet, reap_eq hreap] at h
    split at h
    · cases h
      exact hquiet
    · split at h
      · cases h
        exact hquiet
      · exact processVideoPes_outputs h hv
  | hevc =>
    simp only [Bridge.processH265Packet, reap_eq hreap] at h
    split at h
    · cases h
      exact hquiet
    · split at h
      · cases h
        exact hquiet
      · split at h
        · cases h
          exact hquiet
        · exact processVideoPes_outputs h hv

theorem setVideoCodec_eq {s : Bridge} (codec : VideoCodec) (h : s.continuityCounter 0x100 = 0) :
    s.setVideoCodec codec = { s with videoCodec := some codec } := by
  have hpid : codec.pid = 0x100 := by cases codec <;> rfl
  rw [Bridge.setVideoCodec, hpid, ← h, Function.update_eq_self]

theorem onVideoPacket_outputs {s s' : Bridge} {m : VideoMessage} {b : Bool} {e : Emitted}
    (hreap : s.currSeg.isSome → m.canReap = false)
    (hunset : s.videoCodec = none → s.continuityCounter 0x100 = 0)
    (h : s.onVideoPacket m = .ok (s', b, e)) : Outputs s s' e := by
  unfold Bridge.onVideoPacket at h
  cases hv : s.videoCodec with
  | some codec =>
    simp only [hv] at h
    apply processVideo_outputs codec hreap (by rw [hv]; exact Option.some_ne_none codec)
    cases codec <;> exact h
  | none =>
    simp only [hv] at h
    cases hc : codecOf m.codecId with
    | none =>
      rw [hc] at h
      cases h
      exact .quiet rfl rfl rfl
    | some codec =>
      rw [hc, Option.map_some, setVideoCodec_eq codec (hunset hv)] at h
      have hout : Outputs { s with videoCodec := some codec } s' e := by
        apply processVideo_outputs codec (s := { s with videoCodec := some codec }) hreap nofun
        cases codec <;> exact h
      exact ⟨hout.tables, hout.packets, fun hn ↦ nomatch (hout.codec hn).1⟩

theorem Outputs.of_buffered {s t s' : Bridge} {e : Emitted} (h : Outputs t s' e)
    (hseg : t.currSeg = s.currSeg) (hcount : t.continuityCounter = s.continuityCounter)
    (hcodec : t.videoCodec = s.videoCodec) : Outputs s s' e := by
  obtain ⟨htables, hpackets, hc⟩ := h
  rw [hseg] at htables
  rw [hcount] at hpackets hc
  rw [hcodec] at hc
  exact ⟨htables, hpackets, hc⟩

theorem processAacFrame_outputs {s s' : Bridge} {config : Option Rtp.AacBridge.AudioSpecificConfig}
    {frame : Bytes} {m : AudioMessage} {b : Bool} {e : Emitted}
    (hreap : s.currSeg.isSome → m.canReap = false)
    (h : s.processAacFrame config frame m = .ok (s', b, e)) : Outputs s s' e := by
  simp only [Bridge.processAacFrame, reap_eq hreap] at h
  split at h
  · cases h
    exact .quiet rfl rfl rfl
  · cases config with
    | none => cases h
    | some config =>
      simp only at h
      split at h
      · cases h
        exact .quiet rfl rfl rfl
      · split at h
        · cases h
        · split at h
          · cases h
            exact .quiet rfl rfl rfl
          · exact (flushAudio_outputs h).of_buffered rfl rfl rfl

theorem onAudioPacket_outputs {s s' : Bridge} {m : AudioMessage} {b : Bool} {e : Emitted}
    (hreap : s.currSeg.isSome → m.canReap = false) (h : s.onAudioPacket m = .ok (s', b, e)) :
    Outputs s s' e := by
  unfold Bridge.onAudioPacket at h
  split at h
  · cases h
    exact .quiet rfl rfl rfl
  · unfold Bridge.processAacPacket at h
    split at h
    · cases h
      exact .quiet rfl rfl rfl
    · split at h
      · simp only at h
        split at h
        · cases h
          exact .quiet rfl rfl rfl
        · cases h
          exact .quiet rfl rfl rfl
        · cases h
      · exact processAacFrame_outputs hreap h
  · simp only [Bridge.processMp3Packet, reap_eq hreap] at h
    split at h
    · cases h
      exact .quiet rfl rfl rfl
    · exact (flushAudio_outputs h).of_buffered rfl rfl rfl

/-- No segment is cut, and a codec is made anew only where its counter is at 0
modulo 16. -/
def Fits (s : Bridge) : Message → Prop
  | .metadata none => True
  | .metadata (some m) =>
    ((m.videoCodecId.bind codecOf).isSome → (s.continuityCounter 0x100).toNat % 16 = 0) ∧
      (m.videoCodecId.map codecOf ≠ some none →
        m.audioCodecId = some .aac ∨ m.audioCodecId = some .mp3 →
        (s.continuityCounter audioPid).toNat % 16 = 0)
  | .video m => s.currSeg.isSome → m.canReap = false
  | .audio m => s.currSeg.isSome → m.canReap = false

/-- The counters in the packets so far, and the counters of the bridge. -/
structure Follows (s : Bridge) (trace : List Bytes) : Prop where
  media : ∀ pid, pid = 0x100 ∨ pid = 0x101 →
    Counts 16 (countersOf pid.toNat trace) (s.continuityCounter pid).toNat
  tables : s.currSeg = none →
    countersOf patPid.toNat trace = [] ∧ countersOf pmtPid.toNat trace = []
  single : (countersOf patPid.toNat trace).length ≤ 1 ∧ (countersOf pmtPid.toNat trace).length ≤ 1
  other : ∀ q, q ≠ patPid.toNat → q ≠ pmtPid.toNat → q ≠ 0x100 → q ≠ 0x101 →
    countersOf q trace = []
  unset : s.videoCodec = none → s.continuityCounter 0x100 = 0

theorem Follows.fresh : Follows {} [] :=
  ⟨fun _ _ ↦ .nil _, fun _ ↦ ⟨rfl, rfl⟩, ⟨Nat.zero_le _, Nat.zero_le _⟩, fun _ _ _ _ _ ↦ rfl,
    fun _ ↦ rfl⟩

theorem chain_of_length_le_one {l : List ℕ} {R : ℕ → ℕ → Prop} (h : l.length ≤ 1) : l.IsChain R := by
  match l, h with
  | [], _ => exact .nil
  | [a], _ => exact .singleton a

theorem Follows.continuous {s : Bridge} {trace : List Bytes} (h : Follows s trace) :
    Continuous trace := by
  intro q
  by_cases hpat : q = patPid.toNat
  · rw [hpat]
    exact chain_of_length_le_one h.single.1
  by_cases hpmt : q = pmtPid.toNat
  · rw [hpmt]
    exact chain_of_length_le_one h.single.2
  by_cases hvideo : q = 0x100
  · rw [hvideo]
    exact (h.media 0x100 (.inl rfl)).chain
  by_cases haudio : q = 0x101
  · rw [haudio]
    exact (h.media 0x101 (.inr rfl)).chain
  · rw [h.other q hpat hpmt hvideo haudio]
    exact .nil

theorem countersOf_tables {q : ℕ} (hpat : q ≠ patPid.toNat) (hpmt : q ≠ pmtPid.toNat) :
    countersOf q Bridge.tableHeaders = [] := by
  rw [countersOf, List.filter_eq_nil_iff.mpr, List.map_nil]
  intro hd hmem
  rw [Bridge.tableHeaders, List.mem_cons, List.mem_singleton] at hmem
  rw [beq_iff_eq]
  rcases hmem with rfl | rfl
  · rw [(tsHeader_fields (by decide) _ _ _).1]
    exact fun he ↦ hpat he.symm
  · rw [(tsHeader_fields (by decide) _ _ _).1]
    exact fun he ↦ hpmt he.symm

theorem Follows.outputs {s s' : Bridge} {trace : List Bytes} {e : Emitted} (h : Follows s trace)
    (ho : Outputs s s' e) : Follows s' (trace ++ e.headers) := by
  obtain ⟨pid, hpid, hcarry, hsame⟩ := ho.packets
  have hpidNat : pid.toNat = 0x100 ∨ pid.toNat = 0x101 := by
    rcases hpid with rfl | rfl
    · exact .inl rfl
    · exact .inr rfl
  have hsplit (q : ℕ) : countersOf q (trace ++ e.headers) =
      countersOf q trace ++ (countersOf q e.tables ++ countersOf q (e.writes.map TsWrite.header)) := by
    rw [countersOf_append, Emitted.headers, countersOf_append]
  have htables (q : ℕ) (hpat : q ≠ patPid.toNat) (hpmt : q ≠ pmtPid.toNat) :
      countersOf q e.tables = [] := by
    rcases ho.tables with ⟨ht, -⟩ | ⟨-, -, ht⟩
    · rw [ht]
      rfl
    · rw [ht, countersOf_tables hpat hpmt]
  have hpat : countersOf patPid.toNat (e.writes.map TsWrite.header) = [] :=
    hcarry.countersOf_other (by change 0 ≠ _; omega)
  have hpmt : countersOf pmtPid.toNat (e.writes.map TsWrite.header) = [] :=
    hcarry.countersOf_other (by change 0x1001 ≠ _; omega)
  refine ⟨?_, ?_, ?_, ?_, ?_⟩
  · intro q hq
    have hqNat : q.toNat = 0x100 ∨ q.toNat = 0x101 := by
      rcases hq with rfl | rfl
      · exact .inl rfl
      · exact .inr rfl
    rw [hsplit, htables q.toNat (by change _ ≠ 0; omega) (by change _ ≠ 0x1001; omega),
      List.nil_append]
    by_cases heq : q = pid
    · rw [heq, hcarry.countersOf_self]
      exact hcarry.counts _ (heq ▸ h.media q hq)
    · have hne : q.toNat ≠ pid.toNat := fun hn ↦ heq (BitVec.eq_of_toNat_eq hn)
      rw [hcarry.countersOf_other hne, List.append_nil, hsame q heq]
      exact h.media q hq
  · intro hnone
    rcases ho.tables with ⟨ht, hs⟩ | ⟨-, hs, -⟩
    · rw [hsplit, hsplit, hpat, hpmt, ht, (h.tables (hs hnone)).1, (h.tables (hs hnone)).2]
      exact ⟨rfl, rfl⟩
    · exact absurd hnone hs
  · rcases ho.tables with ⟨ht, -⟩ | ⟨hs, -, ht⟩
    · rw [hsplit, hsplit, hpat, hpmt, ht]
      simpa [countersOf] using h.single
    · rw [hsplit, hsplit, hpat, hpmt, ht, (h.tables hs).1, (h.tables hs).2]
      exact ⟨by decide, by decide⟩
  · intro q hq₁ hq₂ hq₃ hq₄
    have hne : q ≠ pid.toNat := by omega
    rw [hsplit, h.other q hq₁ hq₂ hq₃ hq₄, htables q hq₁ hq₂, hcarry.countersOf_other hne]
    rfl
  · intro hnone
    obtain ⟨hold, hcount⟩ := ho.codec hnone
    rw [hcount]
    exact h.unset hold

theorem setVideoCodec_pid (s : Bridge) (codec : VideoCodec) : s.setVideoCodec codec =
    { s with
      videoCodec := some codec
      continuityCounter := Function.update s.continuityCounter 0x100 0 } := by
  cases codec <;> rfl

/-- The counters that are reset, modulo 16, and what else a new codec leaves alone. -/
structure Resets (s s' : Bridge) : Prop where
  counter : ∀ pid, pid = 0x100 ∨ pid = 0x101 →
    (s'.continuityCounter pid).toNat % 16 = (s.continuityCounter pid).toNat % 16
  seg : s'.currSeg = s.currSeg
  unset : s'.videoCodec = none →
    s.videoCodec = none ∧ s'.continuityCounter 0x100 = s.continuityCounter 0x100

theorem Resets.same {s s' : Bridge} (hcount : s'.continuityCounter = s.continuityCounter)
    (hseg : s'.currSeg = s.currSeg) (hcodec : s'.videoCodec = s.videoCodec) : Resets s s' :=
  ⟨fun _ _ ↦ by rw [hcount], hseg, fun h ↦ ⟨hcodec ▸ h, by rw [hcount]⟩⟩

theorem Resets.trans {s₁ s₂ s₃ : Bridge} (h₁ : Resets s₁ s₂) (h₂ : Resets s₂ s₃) :
    Resets s₁ s₃ := by
  refine ⟨?_, h₂.seg.trans h₁.seg, ?_⟩
  · intro pid hpid
    exact (h₂.counter pid hpid).trans (h₁.counter pid hpid)
  · intro hnone
    obtain ⟨hnone₂, hcount₂⟩ := h₂.unset hnone
    obtain ⟨hnone₁, hcount₁⟩ := h₁.unset hnone₂
    exact ⟨hnone₁, hcount₂.trans hcount₁⟩

theorem update_counter {f : BitVec 16 → UInt8} {pid : BitVec 16} (h : (f pid).toNat % 16 = 0)
    (q : BitVec 16) : (Function.update f pid 0 q).toNat % 16 = (f q).toNat % 16 := by
  by_cases hq : q = pid
  · rw [hq, Function.update_self, h]
    rfl
  · rw [Function.update_of_ne hq]

theorem setVideoCodec_resets {s : Bridge} (codec : VideoCodec)
    (h : (s.continuityCounter 0x100).toNat % 16 = 0) : Resets s (s.setVideoCodec codec) := by
  rw [setVideoCodec_pid]
  exact ⟨fun q _ ↦ update_counter h q, rfl, nofun⟩

theorem setAudioCodec_resets {s : Bridge} (codec : AudioCodec)
    (h : (s.continuityCounter audioPid).toNat % 16 = 0) : Resets s (s.setAudioCodec codec) := by
  have hne : (0x100 : BitVec 16) ≠ audioPid := by decide
  exact ⟨fun q _ ↦ update_counter h q, rfl, fun hnone ↦ ⟨hnone, Function.update_of_ne hne 0 _⟩⟩

theorem setPcrPid_resets (s : Bridge) : Resets s s.setPcrPid := by
  unfold Bridge.setPcrPid
  split
  · exact .same rfl rfl rfl
  · split
    · exact .same rfl rfl rfl
    · exact .same rfl rfl rfl

theorem setAudio_resets {s : Bridge} {codecId : Option SoundFormat}
    (h : codecId = some .aac ∨ codecId = some .mp3 →
      (s.continuityCounter audioPid).toNat % 16 = 0) :
    Resets s (s.setAudio codecId).1 := by
  unfold Bridge.setAudio
  split
  · exact setPcrPid_resets s
  · exact (setAudioCodec_resets _ (h (.inl rfl))).trans (setPcrPid_resets _)
  · exact (setAudioCodec_resets _ (h (.inr rfl))).trans (setPcrPid_resets _)
  · exact .same rfl rfl rfl

theorem onMetadata_resets {s : Bridge} {m : Option Metadata} (hfits : Fits s (.metadata m)) :
    Resets s (s.onMetadata m).1 := by
  cases m with
  | none => exact .same rfl rfl rfl
  | some m =>
    obtain ⟨hvideo, haudio⟩ := hfits
    have hflags : Resets s
        { s with hasVideo := m.videoCodecId.isSome, hasAudio := m.audioCodecId.isSome } :=
      .same rfl rfl rfl
    simp only [Bridge.onMetadata]
    cases hv : m.videoCodecId with
    | none =>
      rw [hv] at hflags haudio
      exact hflags.trans (setAudio_resets (haudio nofun))
    | some id =>
      rw [hv] at hflags haudio hvideo
      cases hc : codecOf id with
      | none =>
        simp only [Option.map_some, hc]
        exact hflags
      | some codec =>
        simp only [Option.map_some, hc]
        have hcodec := setVideoCodec_resets codec (s :=
          { s with hasVideo := true, hasAudio := m.audioCodecId.isSome })
          (hvideo (by rw [Option.bind_some, hc]; rfl))
        refine (hflags.trans hcodec).trans (setAudio_resets fun ha ↦ ?_)
        rw [hcodec.counter audioPid (.inr rfl)]
        exact haudio (by rw [Option.map_some, hc]; nofun) ha

/-- Metadata sends nothing and leaves the counters alone modulo 16. -/
theorem Follows.metadata {s : Bridge} {trace : List Bytes} (h : Follows s trace)
    {m : Option Metadata} (hfits : Fits s (.metadata m)) : Follows (s.onMetadata m).1 trace := by
  have hr := onMetadata_resets hfits
  refine ⟨?_, ?_, h.single, h.other, ?_⟩
  · intro pid hpid
    exact (h.media pid hpid).congr (hr.counter pid hpid)
  · rw [hr.seg]
    exact h.tables
  · intro hnone
    obtain ⟨hold, hcount⟩ := hr.unset hnone
    rw [hcount]
    exact h.unset hold

theorem Follows.process {s s' : Bridge} {trace : List Bytes} (h : Follows s trace) {m : Message}
    (hfits : Fits s m) {b : Bool} {e : Emitted} (hp : s.process m = .ok (s', b, e)) :
    Follows s' (trace ++ e.headers) := by
  cases m with
  | metadata m =>
    cases hp
    have hm := h.metadata hfits
    rwa [Emitted.headers, List.map_nil, List.append_nil, List.append_nil]
  | video m => exact h.outputs (onVideoPacket_outputs hfits h.unset hp)
  | audio m => exact h.outputs (onAudioPacket_outputs hfits hp)

def FitsAlong (s : Bridge) : List Message → Prop
  | [] => True
  | m :: ms => Fits s m ∧ ∀ s' b e, s.process m = .ok (s', b, e) → FitsAlong s' ms

theorem Follows.run {s s' : Bridge} {trace : List Bytes} (h : Follows s trace) {ms : List Message}
    (hfits : FitsAlong s ms) {es : List Emitted} (hr : s.run ms = .ok (s', es)) :
    Follows s' (trace ++ es.flatMap Emitted.headers) := by
  induction ms generalizing s trace es with
  | nil =>
    cases hr
    rwa [List.flatMap_nil, List.append_nil]
  | cons m ms ih =>
    obtain ⟨⟨s₁, b, e⟩, hp, hrest⟩ := Outcome.bind_eq_ok.mp hr
    obtain ⟨⟨s₂, es'⟩, hrun, hres⟩ := Outcome.bind_eq_ok.mp hrest
    cases hres
    rw [List.flatMap_cons, ← List.append_assoc]
    exact ih (h.process hfits.1 hp) (hfits.2 s₁ b e hp) hrun

end Step

/-- The counters of every PID go up by one, in runs that cut no segment and make
no codec anew in the middle of a cycle. -/
theorem run_continuous (ms : List Message) (hfits : FitsAlong {} ms) (s : Bridge)
    (es : List Emitted) (hr : Bridge.run {} ms = .ok (s, es)) :
    Continuous (es.flatMap Emitted.headers) := by
  have h := Follows.fresh.run hfits hr
  rw [List.nil_append] at h
  exact h.continuous

def shortVideo (canReap : Bool) : Message :=
  .video
    { codecId := .avc
      decodes := true
      isSeqHeader := false
      isKey := false
      configOk := true
      canReap := canReap
      videoPesSegs := some [[0, 0, 1, 0xe0, 0, 8, 0x80, 0x80, 5], [0, 0, 0, 1], [9]]
      dts := 0 }

def videoOnly : Message := .metadata (some ⟨some .avc, none⟩)

theorem run_continuous_twoFrames : ∃ s es,
    Bridge.run {} [videoOnly, shortVideo false, shortVideo false] = .ok (s, es) ∧
      countersOf 0x100 (es.flatMap Emitted.headers) = [0, 1] ∧
      Continuous (es.flatMap Emitted.headers) := by
  have hfits : FitsAlong {} [videoOnly, shortVideo false, shortVideo false] := by
    refine ⟨⟨fun _ ↦ rfl, fun _ _ ↦ rfl⟩, fun _ _ _ _ ↦ ⟨fun _ ↦ rfl, fun _ _ _ _ ↦ ?_⟩⟩
    exact ⟨fun _ ↦ rfl, fun _ _ _ _ ↦ trivial⟩
  refine ⟨_, _, rfl, by decide +kernel, ?_⟩
  exact run_continuous _ hfits _ _ rfl

/-- A second segment starts with the tables at counter 0 again. -/
theorem tables_repeat_zero : ∃ s es,
    Bridge.run {} [videoOnly, shortVideo false, shortVideo true] = .ok (s, es) ∧
      countersOf patPid.toNat (es.flatMap Emitted.headers) = [0, 0] ∧
      ¬ Continuous (es.flatMap Emitted.headers) := by
  refine ⟨_, _, rfl, by decide +kernel, ?_⟩
  intro h
  have hpat := h patPid.toNat
  revert hpat
  decide +kernel

end MmsServer.Ts.Continuity
