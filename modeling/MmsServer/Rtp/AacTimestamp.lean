import MmsServer.Lib.SortedMap
import MmsServer.Rtp.AacBridge

namespace MmsServer.Rtp.AacTimestamp

open Lib.ByteReader Lib.Checked Lib.SortedMap Rtmp.Define Packer Depacketizer Assembler AacBridge

def emitted (r : RtspToRtmp) : List RtpPacket → List (RtpPacket × RtmpMessage)
  | [] => []
  | p :: ps =>
    match r.processAacPacket p with
    | .ok (r', some msg) => (p, msg) :: emitted r' ps
    | .ok (r', none) => emitted r' ps
    | .err _ => []
    | .fault _ => []

/-- How far a packet is from the first one, around 2³². -/
def distance (r : RtspToRtmp) (p : RtpPacket) : ℕ := (p.timestamp - r.firstRtpAudioTs).toNat

/-- Each packet is less than 2³¹ ahead of the one before, and none has gone round. -/
def Advancing (r : RtspToRtmp) (ps : List RtpPacket) : Prop :=
  ps.IsChain fun p q ↦ (q.timestamp - p.timestamp).toNat < 2 ^ 31 ∧
    distance r p + (q.timestamp - p.timestamp).toNat < 2 ^ 32

structure InMilliseconds (r : RtspToRtmp) (f : ℕ) (ps : List RtpPacket) : Prop where
  value : ∀ x ∈ emitted r ps, x.2.timestamp.toNat = distance r x.1 * 1000 / f
  ordered : Advancing r ps → (emitted r ps).Pairwise fun x y ↦
    x.2.timestamp.toNat ≤ y.2.timestamp.toNat

def Keyed (buf : PktsBuf) : Prop := ∀ ts, ∀ p ∈ buf ts, p.timestamp = ts

section Step

variable {r r' : RtspToRtmp} {p : RtpPacket} {msg : Option RtmpMessage}
  {config : AudioSpecificConfig}

theorem keyed_update {buf : PktsBuf} (h : Keyed buf) (ts : BitVec 32) {pkts : List RtpPacket}
    (hp : ∀ p ∈ pkts, p.timestamp = ts) : Keyed (Function.update buf ts pkts) := by
  intro t q hq
  by_cases ht : t = ts
  · subst ht
    rw [Function.update_self] at hq
    exact hp q hq
  · rw [Function.update_of_ne ht] at hq
    exact h t q hq

theorem insertPacket_timestamp (h : Keyed r.pktsBuf) :
    ∀ q ∈ insertPacket p (r.pktsBuf p.timestamp), q.timestamp = p.timestamp := by
  intro q hq
  obtain rfl | hq := mem_insertNew hq
  · rfl
  · exact h _ q hq

theorem getTimestamp_insertPacket (h : Keyed r.pktsBuf) :
    getTimestamp (insertPacket p (r.pktsBuf p.timestamp)) = p.timestamp := by
  have hall := insertPacket_timestamp (p := p) h
  have hne : insertPacket p (r.pktsBuf p.timestamp) ≠ [] := by
    obtain ⟨q, hq, -⟩ : ∃ q ∈ insertPacket p (r.pktsBuf p.timestamp), q.seqnum.toNat = p.seqnum.toNat :=
      exists_key_insertNew p (r.pktsBuf p.timestamp)
    exact List.ne_nil_of_mem hq
  obtain ⟨q, pkts, hcons⟩ := List.exists_cons_of_ne_nil hne
  rw [hcons] at hall ⊢
  exact hall q List.mem_cons_self

theorem generate_timestamp {t : BitVec 32} {pkts : List RtpPacket} {m : RtmpMessage}
    (h : r.generateAacRtmpMessage t pkts = .ok (some m)) : m.timestamp = t := by
  unfold RtspToRtmp.generateAacRtmpMessage at h
  split at h
  · cases h
  · obtain ⟨o, -, h⟩ := Outcome.bind_eq_ok.mp h
    cases o with
    | none => cases h
    | some frame =>
      dsimp only at h
      split at h
      · cases h
      · cases h
        rfl

structure Processed (r r' : RtspToRtmp) (config : AudioSpecificConfig) (p : RtpPacket)
    (msg : Option RtmpMessage) : Prop where
  config_eq : r'.audioSpecificConfig = some config
  first_eq : r'.firstRtpAudioTs = r.firstRtpAudioTs
  keyed : Keyed r'.pktsBuf
  timestamp_eq : ∀ m ∈ msg,
    m.timestamp = (p.timestamp - r.firstRtpAudioTs) * 1000 / config.samplingFrequency

theorem processAacPacket_processed (hc : r.audioSpecificConfig = some config)
    (hk : Keyed r.pktsBuf) (h : r.processAacPacket p = .ok (r', msg)) :
    Processed r r' config p msg := by
  unfold RtspToRtmp.processAacPacket RtpAACDepacketizer.onPacket at h
  by_cases hm : p.marker = true
  · have hempty : Keyed (Function.update r.pktsBuf p.timestamp []) :=
      keyed_update hk p.timestamp fun q hq ↦ by cases hq
    rw [takePacket_marker hm] at h
    simp only [hc] at h
    split at h
    · cases h
      refine ⟨rfl, rfl, hempty, ?_⟩
      intro m hmem
      cases hmem
    · obtain ⟨msg', hg, h⟩ := Outcome.bind_eq_ok.mp h
      cases h
      refine ⟨rfl, rfl, hempty, ?_⟩
      intro m hmem
      obtain rfl := Option.mem_def.mp hmem
      rw [generate_timestamp hg, getTimestamp_insertPacket hk]
  · rw [takePacket_noMarker (Bool.eq_false_iff.mpr hm)] at h
    cases h
    refine ⟨hc, rfl, keyed_update hk p.timestamp (insertPacket_timestamp hk), ?_⟩
    intro m hmem
    cases hmem

end Step

section Run

variable {r : RtspToRtmp} {config : AudioSpecificConfig}

/-- The product is taken modulo 2³² before it is divided. -/
theorem emitted_timestamp (hc : r.audioSpecificConfig = some config) (hk : Keyed r.pktsBuf)
    (ps : List RtpPacket) : ∀ x ∈ emitted r ps,
      x.2.timestamp.toNat = distance r x.1 * 1000 % 2 ^ 32 / config.samplingFrequency.toNat := by
  induction ps generalizing r with
  | nil =>
    intro x hx
    cases hx
  | cons p ps ih =>
    rw [emitted]
    cases hp : r.processAacPacket p with
    | err code =>
      intro x hx
      cases hx
    | fault f =>
      intro x hx
      cases hx
    | ok o =>
      obtain ⟨r', msg⟩ := o
      have hstep := processAacPacket_processed hc hk hp
      have hrest := ih hstep.config_eq hstep.keyed
      have hdist : ∀ q, distance r' q = distance r q := by
        intro q
        rw [distance, distance, hstep.first_eq]
      simp only [hdist] at hrest
      cases msg with
      | none => exact hrest
      | some m =>
        intro x hx
        obtain rfl | hx := List.mem_cons.mp hx
        · rw [hstep.timestamp_eq m rfl, BitVec.toNat_udiv, BitVec.toNat_mul, distance]
          rfl
        · exact hrest x hx

theorem emitted_sublist (r : RtspToRtmp) (ps : List RtpPacket) :
    ((emitted r ps).map Prod.fst).Sublist ps := by
  induction ps generalizing r with
  | nil => exact List.Sublist.refl _
  | cons p ps ih =>
    rw [emitted]
    split
    · exact (ih _).cons_cons p
    · exact (ih _).cons p
    · exact List.nil_sublist _
    · exact List.nil_sublist _

theorem distance_add (r : RtspToRtmp) (p q : RtpPacket)
    (h : distance r p + (q.timestamp - p.timestamp).toNat < 2 ^ 32) :
    distance r p ≤ distance r q := by
  have hsum : q.timestamp - r.firstRtpAudioTs =
      (p.timestamp - r.firstRtpAudioTs) + (q.timestamp - p.timestamp) := by
    bv_omega
  rw [distance] at h
  rw [distance, distance, hsum, BitVec.toNat_add, Nat.mod_eq_of_lt h]
  exact Nat.le_add_right _ _

theorem advancing_pairwise {ps : List RtpPacket} (h : Advancing r ps) :
    ps.Pairwise fun p q ↦ distance r p ≤ distance r q := by
  have hchain : ps.IsChain fun p q ↦ distance r p ≤ distance r q :=
    h.imp fun p q hpq ↦ distance_add r p q hpq.2
  exact List.isChain_iff_pairwise.mp hchain

theorem wrapped_div_iff {f : ℕ} (hpos : 0 < f) (hle : f ≤ 96000) (n : ℕ) :
    n % 2 ^ 32 / f = n / f ↔ n < 2 ^ 32 := by
  constructor
  · intro h
    by_contra hn
    have hge : n % 2 ^ 32 + f ≤ n := by
      have hdiv := Nat.div_add_mod n (2 ^ 32)
      have hq : 1 ≤ n / 2 ^ 32 := (Nat.one_le_div_iff (by decide)).mpr (Nat.not_lt.mp hn)
      omega
    have hlt := Nat.div_le_div_right (c := f) hge
    rw [Nat.add_div_right _ hpos] at hlt
    omega
  · intro h
    rw [Nat.mod_eq_of_lt h]

/-- The timestamps of a run are right just as long as the distance in milliseconds
times the frequency is below 2³², for all frames that are completed. -/
theorem inMilliseconds_iff (first : BitVec 32) (auConfig : Option AUConfig)
    (config : AudioSpecificConfig) (hpos : 0 < config.samplingFrequency.toNat)
    (hle : config.samplingFrequency.toNat ≤ 96000) (ps : List RtpPacket) :
    InMilliseconds ⟨fun _ ↦ [], some config, auConfig, first⟩ config.samplingFrequency.toNat ps ↔
      ∀ x ∈ emitted ⟨fun _ ↦ [], some config, auConfig, first⟩ ps,
        (x.1.timestamp - first).toNat * 1000 < 2 ^ 32 := by
  obtain ⟨r, hr⟩ : ∃ r : RtspToRtmp, r = ⟨fun _ ↦ [], some config, auConfig, first⟩ := ⟨_, rfl⟩
  have hc : r.audioSpecificConfig = some config := by rw [hr]
  have hk : Keyed r.pktsBuf := by
    intro ts p hp
    rw [hr] at hp
    cases hp
  have hdist : ∀ p : RtpPacket, (p.timestamp - first).toNat = distance r p := by
    intro p
    rw [distance, hr]
  have hvalue := emitted_timestamp hc hk ps
  simp only [← hr, hdist]
  constructor
  · intro h x hx
    have hx' := (hvalue x hx).symm.trans (h.value x hx)
    exact (wrapped_div_iff hpos hle _).mp hx'
  · intro h
    have hright : ∀ x ∈ emitted r ps,
        x.2.timestamp.toNat = distance r x.1 * 1000 / config.samplingFrequency.toNat := by
      intro x hx
      rw [hvalue x hx, (wrapped_div_iff hpos hle _).mpr (h x hx)]
    refine ⟨hright, ?_⟩
    intro hadv
    have hsorted := (advancing_pairwise hadv).sublist (emitted_sublist r ps)
    refine (List.pairwise_map.mp hsorted).imp_of_mem ?_
    intro x y hx hy hxy
    rw [hright x hx, hright y hy]
    exact Nat.div_le_div_right (Nat.mul_le_mul_right 1000 hxy)

end Run

section Sample

def monoAac48k : AudioSpecificConfig := ⟨2, 3, 48000, 1⟩

def framePacket (seqnum : BitVec 16) (timestamp : BitVec 32) : RtpPacket where
  pt := 97
  marker := true
  seqnum := seqnum
  timestamp := timestamp
  ssrc := 0
  payload := [0, 16, 0, 24, 0x21, 0x10, 0x04]

theorem aSecond_inMilliseconds :
    InMilliseconds ⟨fun _ ↦ [], some monoAac48k, some ⟨13, 3⟩, 5⟩ 48000
      [framePacket 1 5, framePacket 2 48005] :=
  (inMilliseconds_iff 5 (some ⟨13, 3⟩) monoAac48k (by decide) (by decide) _).mpr
    (by decide +kernel)

/-- At 48 kHz the timestamps jump back after a minute and a half. -/
theorem ninetySeconds_jumpBack :
    (emitted ⟨fun _ ↦ [], some monoAac48k, some ⟨13, 3⟩, 5⟩
      [framePacket 1 4294972, framePacket 2 4294973]).map (fun x ↦ x.2.timestamp) = [89478, 0] ∧
    ¬ InMilliseconds ⟨fun _ ↦ [], some monoAac48k, some ⟨13, 3⟩, 5⟩ 48000
      [framePacket 1 4294972, framePacket 2 4294973] := by
  refine ⟨by decide +kernel, ?_⟩
  intro h
  have hvalue := h.value
  revert hvalue
  decide +kernel

end Sample

end MmsServer.Rtp.AacTimestamp
