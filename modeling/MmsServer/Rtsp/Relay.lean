import MmsServer.Rtp.AacRoundTrip
import MmsServer.Rtp.VideoRoundTrip
import MmsServer.Rtsp.Bridge
import MmsServer.Rtsp.Interleaved

namespace MmsServer.Rtsp.Relay

open Lib.ByteReader Lib.Checked Rtmp.Define Rtmp.FlvTag Rtp.Packer Rtp.PacketSequence Rtp.Depacketizer
  Rtp.Assembler Rtp.Format Rtp.Reassembly Rtp.RoundTrip Interleaved Bridge
open RecvLoop hiding Outcome

section Spec

def received (p : Rtp.Header.RtpPacket) : RtpPacket where
  pt := .ofNat p.header.pt
  marker := p.header.marker == 1
  seqnum := .ofNat 16 p.header.seqnum
  timestamp := .ofNat 32 p.header.timestamp
  ssrc := .ofNat 32 p.header.ssrc
  payload := p.payload

/-- A publisher's session over TCP whose source has a bridge to RTMP. `answers` says behind
which requests it goes on. -/
def session (e : Env) (answers : MessageText.RtspRequest → Bool) (sink : RtspMediaSink) :
    Handlers (Outcome RtspToRtmp) where
  isTcpTransport _ := true
  videoPt _ := sink.videoPt
  audioPt _ := sink.audioPt
  onRtspRequest w req := (answers req, w)
  onRtspResponse w _ := w
  onVideoPackets w pkt := do (← w).onVideoPkts e [received pkt]
  onAudioPackets w pkt := do (← w).onAudioPkts [received pkt]
  sendNotAcceptable w := w
  queueNotAcceptable w := (false, w)

/-- The first timestamp that is not 0 is the base of all later ones. -/
def base (first ts : BitVec 32) : BitVec 32 := if first = 0 then ts else first

/-- A frame that a receiver for its packer can put together: NAL units that keep their bytes,
together no longer than its buffer, in packets with ascending numbers. -/
structure FrameFits (videoCodec : PackerKind) (f : Frame) : Prop where
  packer : f.packer = videoCodec
  nonempty : f.nalus ≠ []
  carried : ∀ nalu ∈ f.nalus, Carried (naluFormat videoCodec) nalu ∧ rebuild (naluFormat videoCodec) nalu = nalu
  length_le : (avcc f.nalus).length ≤ videoFrameCacheBytes
  ascending : (getSequenceNum f.rtpSeqnum).toNat + (payloads (naluFormat videoCodec).fu f.nalus).length ≤ 65535

/-- Audio is no longer than a packet. -/
def Fits (videoCodec : PackerKind) : Batch → Prop
  | .video _ f => FrameFits videoCodec f
  | .audio audioPkt _ => 3 ≤ audioPkt.usingData.length ∧ audioPkt.usingData.length ≤ 1397

structure ShowsFrame (first : BitVec 32) (videoPkt : RtmpMessage) (f : Frame) (msg : RtmpMessage) : Prop where
  messageTypeId : msg.messageTypeId = flvVideoTag
  timestamp : msg.timestamp = (f.stream.pts - first) / 90
  nalus : ∃ header tagSize, VideoTagHeader.decode msg.usingData = .ok (header, tagSize) ∧
    msg.usingData.drop tagSize = avcc f.nalus
  units : ∃ nalus, Units videoPkt nalus ∧ nalus.Sublist f.nalus

structure ShowsAudio (samplingFrequency first ts : BitVec 32) (audioPkt msg : RtmpMessage) : Prop where
  messageTypeId : msg.messageTypeId = Rtp.AacBridge.flvAudioTag
  timestamp : msg.timestamp = (ts - first) * 1000 / samplingFrequency
  frame : ∃ header, AudioTagHeader.decode msg.usingData = .ok (header, 2) ∧ header.soundFormat = .aac ∧
    msg.usingData.drop 2 = audioPkt.usingData.drop 2

/-- One message for each batch, in order, with the times behind the bases of the media. -/
inductive Shows (samplingFrequency : BitVec 32) : BitVec 32 → BitVec 32 → List Batch → List RtmpMessage → Prop
  | nil (v a : BitVec 32) : Shows samplingFrequency v a [] []
  | video {v a : BitVec 32} {videoPkt msg : RtmpMessage} {f : Frame} {batches : List Batch}
      {msgs : List RtmpMessage} (shows : ShowsFrame (base v f.stream.pts) videoPkt f msg)
      (rest : Shows samplingFrequency (base v f.stream.pts) a batches msgs) :
      Shows samplingFrequency v a (.video videoPkt f :: batches) (msg :: msgs)
  | audio {v a ts : BitVec 32} {audioPkt msg : RtmpMessage} {pkts : List RtpPacket} {batches : List Batch}
      {msgs : List RtmpMessage} (ts_eq : getTimestamp pkts = ts)
      (shows : ShowsAudio samplingFrequency (base a ts) ts audioPkt msg)
      (rest : Shows samplingFrequency v (base a ts) batches msgs) :
      Shows samplingFrequency v a (.audio audioPkt pkts :: batches) (msg :: msgs)

structure Ready (config : Rtp.AacBridge.AudioSpecificConfig) (w : RtspToRtmp) : Prop where
  video : ∀ ts, w.video.pktsBuf ts = []
  audio : ∀ ts, w.audio.pktsBuf ts = []
  auConfig : w.audio.auConfig = some ⟨13, 3⟩
  audioSpecificConfig : w.audio.audioSpecificConfig = some config
  samplingFrequency : config.samplingFrequency ≠ 0

end Spec

section Video

variable {F : NaluFormat} {c : BitVec 16} {nalus : List Bytes} {e : Env} {r r' : Receiver} {p : RtpPacket}

theorem generate_result {k : Codec} {t : BitVec 32} {pkts : List RtpPacket} {msg : Option RtmpMessage}
    (h : generateRtmpMessage k e r t pkts = .ok (r', msg)) : r'.pktsBuf = r.pktsBuf ∧
      r'.firstRtpVideoTs = r.firstRtpVideoTs ∧ ∀ m ∈ msg, m.timestamp = t := by
  obtain ⟨s, -, h⟩ := Outcome.bind_eq_ok.mp h
  obtain ⟨b, -, h⟩ := Outcome.bind_eq_ok.mp h
  cases b with
  | false =>
    cases h
    exact ⟨rfl, rfl, fun m hm ↦ nomatch hm⟩
  | true =>
    obtain ⟨bytes, -, h⟩ := Outcome.bind_eq_ok.mp h
    cases h
    exact ⟨rfl, rfl, fun m hm ↦ by cases hm; rfl⟩

theorem processPacket_firstTs {k : Codec} {msg : Option RtmpMessage}
    (h : processPacket k e r p = .ok (r', msg)) : r'.firstRtpVideoTs = r.firstRtpVideoTs := by
  unfold processPacket at h
  split at h
  · cases h
    rfl
  · exact (generate_result h).2.1

theorem getTimestamp_eq {ts : BitVec 32} {pkts : List RtpPacket} (hne : pkts ≠ [])
    (ht : ∀ p ∈ pkts, p.timestamp = ts) : getTimestamp pkts = ts := by
  obtain ⟨p, ps, rfl⟩ := List.exists_cons_of_ne_nil hne
  exact ht p List.mem_cons_self

/-- The packets of a frame give its message, and the receiver keeps none of them. -/
theorem frame_received (e : Env) (st : Stream) (hne : nalus ≠ [])
    (hb : (avcc nalus).length ≤ videoFrameCacheBytes)
    (hc : ∀ nalu ∈ nalus, Carried F nalu ∧ rebuild F nalu = nalu)
    (hr : (getSequenceNum c).toNat + (payloads F.fu nalus).length ≤ 65535) (hbuf : r.pktsBuf st.pts = []) :
    ∃ r' msgs msg header, feed (processPacket F.codec e) r (packNalus F.fu st c nalus) = .ok (r', msgs) ∧
      msgs.reduceOption = [msg] ∧ r'.pktsBuf = r.pktsBuf ∧ r'.firstRtpVideoTs = r.firstRtpVideoTs ∧
      msg.messageTypeId = flvVideoTag ∧ msg.timestamp = (st.pts - r.firstRtpVideoTs) / 90 ∧
      VideoTagHeader.decode msg.usingData = .ok (header, F.tagSize) ∧
      msg.usingData.drop F.tagSize = avcc nalus := by
  obtain ⟨r', msg, header, hfeed, htype, hdecode, hdata⟩ := roundTrips_of_carried hne hb hc hr e r hbuf
  obtain ⟨ps, p, hpack, hm, hp, ht⟩ := packNalus_eq F st c hne
  have hcol := collect_eq st (fun n hn ↦ .inl (hc n hn).1) hr
  have hstamp : getTimestamp (ps ++ [p]) = st.pts := getTimestamp_eq (by simp) ht
  have hlen : (ps ++ [p]).length - 1 = ps.length := by
    rw [List.length_append, List.length_singleton, Nat.add_sub_cancel]
  have hkept : (holding r st.pts []).pktsBuf = r.pktsBuf := by
    rw [holding, ← hbuf]
    exact Function.update_eq_self st.pts r.pktsBuf
  refine ⟨r', _, msg, header, hfeed, ?_, ?_⟩
  · rw [List.reduceOption_append, List.reduceOption_replicate_none]
    rfl
  · rw [hpack] at hfeed hcol
    rw [feed_frame hbuf hm hp ht, hcol, hstamp, hlen] at hfeed
    split at hfeed
    · obtain ⟨⟨r₁, msg₁⟩, hg, heq⟩ := Outcome.bind_eq_ok.mp hfeed
      simp only [Outcome.pure_eq, Outcome.ok.injEq, Prod.mk.injEq, List.append_cancel_left_eq,
        List.cons.injEq, and_true] at heq
      obtain ⟨rfl, rfl⟩ := heq
      obtain ⟨hbuf', hfirst, htime⟩ := generate_result hg
      exact ⟨hbuf'.trans hkept, hfirst, htype, htime msg rfl, hdecode, hdata⟩
    · simp only [Outcome.ok.injEq, Prod.mk.injEq, List.append_cancel_left_eq, List.cons.injEq] at hfeed
      exact absurd hfeed.2.1 (by simp)

theorem base_base (first ts : BitVec 32) : base (base first ts) ts = base first ts := by
  unfold base
  split
  · split
    · rfl
    · rfl
  · rfl

theorem naluFormat_fu (k : PackerKind) : (naluFormat k).fu = k.format := by
  cases k with
  | rtpPacker => rfl
  | h265RtpPacker => rfl

variable {w w' : RtspToRtmp}

theorem processVideoPacket_eq (w : RtspToRtmp) (e : Env) :
    w.processVideoPacket e = processPacket (naluFormat w.videoCodec).codec e := by
  unfold RtspToRtmp.processVideoPacket
  cases w.videoCodec with
  | rtpPacker => rfl
  | h265RtpPacker => rfl

theorem onVideoPkts_eq (w : RtspToRtmp) (e : Env) {pkts : List RtpPacket} {ts : BitVec 32}
    (hne : pkts ≠ []) (ht : ∀ p ∈ pkts, p.timestamp = ts) :
    w.onVideoPkts e pkts = do
      let (video, msgs) ← feed (processPacket (naluFormat w.videoCodec).codec e)
        { w.video with firstRtpVideoTs := base w.video.firstRtpVideoTs ts } pkts
      return { w with video, published := w.published ++ msgs.reduceOption } := by
  obtain ⟨p, ps, rfl⟩ := List.exists_cons_of_ne_nil hne
  have hfirst : firstTs w.video.firstRtpVideoTs (p :: ps) = base w.video.firstRtpVideoTs ts := by
    rw [firstTs, base, ← ht p List.mem_cons_self]
    rfl
  rw [RtspToRtmp.onVideoPkts, hfirst, processVideoPacket_eq]

/-- The packets of a frame may as well come one by one. -/
theorem onVideoPkts_cons {p : RtpPacket} {ps : List RtpPacket} {ts : BitVec 32} (hne : ps ≠ [])
    (ht : ∀ q ∈ p :: ps, q.timestamp = ts) :
    w.onVideoPkts e (p :: ps) = w.onVideoPkts e [p] >>= fun w ↦ w.onVideoPkts e ps := by
  rw [List.forall_mem_cons] at ht
  rw [onVideoPkts_eq w e (List.cons_ne_nil p ps) (List.forall_mem_cons.mpr ht),
    onVideoPkts_eq w e (List.cons_ne_nil p []) (List.forall_mem_singleton.mpr ht.1), feed, feed]
  cases hone : processPacket (naluFormat w.videoCodec).codec e
      { w.video with firstRtpVideoTs := base w.video.firstRtpVideoTs ts } p with
  | err code => rfl
  | fault f => rfl
  | ok x =>
    obtain ⟨video, msg⟩ := x
    have hkept : base video.firstRtpVideoTs ts = video.firstRtpVideoTs := by
      rw [processPacket_firstTs hone]
      exact base_base _ _
    simp only [Outcome.ok_bind, Outcome.pure_eq, feed]
    rw [onVideoPkts_eq _ e hne ht.2]
    dsimp only
    rw [hkept]
    cases feed (processPacket (naluFormat w.videoCodec).codec e) video ps with
    | err code => rfl
    | fault f => rfl
    | ok y =>
      simp only [Outcome.ok_bind, Outcome.pure_eq, List.append_assoc, ← List.reduceOption_append,
        List.singleton_append]

end Video

section Sizes

variable {F : NaluFormat} {st : Stream} {c : BitVec 16}

theorem fragments_length {nalu : Bytes} {last : Bool} {fuel : ℕ} {start : Bool} {data : Bytes} :
    ∀ q ∈ fragments F.fu nalu last fuel start data, q.2.length ≤ 1403 := by
  have hheader := F.fuHeader_eq
  have hle := F.naluHeader_le
  have hsize : nalRtpPacketSize = 1400 := rfl
  induction fuel generalizing start data with
  | zero => exact List.forall_mem_nil _
  | succ fuel ih =>
    rw [fragments]
    split
    · exact List.forall_mem_nil _
    · refine List.forall_mem_cons.mpr ⟨?_, ih⟩
      rw [List.length_append, F.prefix_length, List.length_take]
      omega

theorem payloads_length (nalus : List Bytes) : ∀ q ∈ payloads F.fu nalus, q.2.length ≤ 1403 := by
  have hsize : nalRtpPacketSize = 1400 := rfl
  induction nalus with
  | nil => exact List.forall_mem_nil _
  | cons nalu nalus ih =>
    refine List.forall_mem_append.mpr ⟨?_, ih⟩
    unfold naluPayloads
    split
    · exact fragments_length
    · rw [List.forall_mem_singleton]
      dsimp only
      omega

/-- The audio of a message that is no longer than a packet is one packet. -/
theorem audio_packet (st : Stream) (c : BitVec 16) {frame data : Bytes}
    (hsection : Rtp.AacBridge.auSection frame = .ok data)
    (hle : frame.length ≤ 1395) :
    ∃ hd, Rtp.AacRoundTrip.AuHeader hd frame ∧ data = putBE 2 16 ++ (hd ++ frame) ∧
      packRaw st c data = [packet st (getSequenceNum c) true data] := by
  have hsize : nalRtpPacketSize = 1400 := rfl
  obtain ⟨hd, hsection', hh⟩ := Rtp.AacRoundTrip.auSection_eq (show frame.length ≤ 8187 by omega)
  have hlen := Rtp.AacRoundTrip.section_length hh
  obtain rfl : data = putBE 2 16 ++ (hd ++ frame) := Outcome.ok.inj (hsection.symm.trans hsection')
  exact ⟨hd, hh, rfl, Rtp.AacRoundTrip.packRaw_last (by omega) (by omega)⟩

variable {videoPt audioPt : UInt8} {b : Batch} {videoCodec : PackerKind}

theorem sendable (hpacked : Packed videoPt audioPt b) (hfits : Fits videoCodec b) (hvideo : videoPt.toNat < 128)
    (haudio : audioPt.toNat < 128) : ∀ p ∈ b.pkts, Sendable ⟨videoPt.toNat, audioPt.toNat⟩ p := by
  intro p hp
  cases hpacked with
  | video videoPkt f nalus pt units sublist =>
    have hcarries := carries_number f.stream f.rtpSeqnum _ p hp
    have hmem := (mem_number f.stream f.rtpSeqnum _ hp).2
    rw [← naluFormat_fu] at hmem
    have hlen := payloads_length f.nalus _ hmem
    dsimp only at hlen
    refine ⟨?_, .inl ?_, by omega⟩
    · rw [hcarries.pt, pt]
      exact hvideo
    · rw [hcarries.pt, pt]
  | audio audioPkt st c data pt section_eq =>
    have hdrop : (audioPkt.usingData.drop 2).length = audioPkt.usingData.length - 2 := List.length_drop
    obtain ⟨-, hle⟩ := hfits
    obtain ⟨hd, hh, rfl, hone⟩ := audio_packet st c section_eq (by omega)
    have hlen := Rtp.AacRoundTrip.section_length hh
    change p ∈ packRaw _ _ _ at hp
    rw [hone, List.mem_singleton] at hp
    subst hp
    refine ⟨?_, .inr ?_, ?_⟩
    · change st.pt.toNat < 128
      rw [pt]
      exact haudio
    · change st.pt.toNat = _
      rw [pt]
    · change 12 + (putBE 2 16 ++ (hd ++ audioPkt.usingData.drop 2)).length < _
      omega

end Sizes

section Receive

variable {config : Rtp.AacBridge.AudioSpecificConfig} {e : Env}
  {answers : MessageText.RtspRequest → Bool} {sink : RtspMediaSink} {w : RtspToRtmp}

theorem received_made (p : RtpPacket) : received (made p) = p := by
  have hmarker : (p.marker.toNat == 1) = p.marker := by cases p.marker <;> rfl
  rw [received]
  simp only [made, hmarker, UInt8.ofNat_toNat, BitVec.ofNat_toNat, BitVec.setWidth_eq]

theorem foldl_bind {α β : Type} (f : α → β → Outcome α) (o : Outcome α) (l : List β) :
    l.foldl (fun o b ↦ o >>= fun a ↦ f a b) o =
      o >>= fun a ↦ l.foldl (fun o b ↦ o >>= fun a ↦ f a b) (.ok a) := by
  cases o with
  | ok a => rfl
  | err code =>
    induction l with
    | nil => rfl
    | cons b l ih => exact ih
  | fault g =>
    induction l with
    | nil => rfl
    | cons b l ih => exact ih

/-- One after the other the packets of a frame do what they do together. -/
theorem foldl_onVideoPkts {ts : BitVec 32} {pkts : List RtpPacket} (hne : pkts ≠ [])
    (ht : ∀ p ∈ pkts, p.timestamp = ts) :
    pkts.foldl (fun o p ↦ o >>= fun w ↦ w.onVideoPkts e [p]) (.ok w) = w.onVideoPkts e pkts := by
  induction pkts generalizing w with
  | nil => exact absurd rfl hne
  | cons p pkts ih =>
    rw [List.foldl_cons, Outcome.ok_bind, foldl_bind]
    by_cases hnil : pkts = []
    · subst hnil
      cases w.onVideoPkts e [p] <;> rfl
    · rw [onVideoPkts_cons hnil ht]
      exact congrArg _ (funext fun w ↦ ih hnil fun q hq ↦ ht q (List.mem_cons_of_mem p hq))

theorem receivePkt_video {videoPt audioPt : ℕ} {p : RtpPacket} (hpt : p.pt.toNat = videoPt)
    (o : Outcome RtspToRtmp) : receivePkt (session e answers ⟨videoPt, audioPt⟩) ⟨videoPt, audioPt⟩ o p =
      o >>= fun w ↦ w.onVideoPkts e [p] := by
  rw [receivePkt, if_pos hpt, session]
  dsimp only
  rw [received_made]

theorem receivePkt_audio {videoPt audioPt : ℕ} {p : RtpPacket} (hpt : p.pt.toNat ≠ videoPt)
    (o : Outcome RtspToRtmp) : receivePkt (session e answers ⟨videoPt, audioPt⟩) ⟨videoPt, audioPt⟩ o p =
      o >>= fun w ↦ w.onAudioPkts [p] := by
  rw [receivePkt, if_neg hpt, session]
  dsimp only
  rw [received_made]

structure Relays (config : Rtp.AacBridge.AudioSpecificConfig) (w w' : RtspToRtmp) (b : Batch) : Prop where
  ready : Ready config w'
  videoCodec : w'.videoCodec = w.videoCodec
  published : ∃ msg, w'.published = w.published ++ [msg] ∧ ∀ batches msgs,
    Shows config.samplingFrequency w'.video.firstRtpVideoTs w'.audio.firstRtpAudioTs batches msgs →
      Shows config.samplingFrequency w.video.firstRtpVideoTs w.audio.firstRtpAudioTs (b :: batches)
        (msg :: msgs)

theorem frame_relayed (hw : Ready config w) {videoPkt : RtmpMessage} {f : Frame} {nalus : List Bytes}
    (hunits : Units videoPkt nalus) (hsub : nalus.Sublist f.nalus) (hfits : FrameFits w.videoCodec f) :
    ∃ w', w.onVideoPkts e f.pkts = .ok w' ∧ Relays config w w' (.video videoPkt f) := by
  obtain ⟨hpacker, hne, hcarried, hlen, hascending⟩ := hfits
  have hpkts : f.pkts = packNalus (naluFormat w.videoCodec).fu f.stream f.rtpSeqnum f.nalus := by
    rw [Frame.pkts, naluFormat_fu, hpacker]
  obtain ⟨ps, p, hpack, -, -, ht⟩ := packNalus_eq (naluFormat w.videoCodec) f.stream f.rtpSeqnum hne
  obtain ⟨video, msgs, msg, header, hfeed, hmsgs, hbuf, hfirst, htype, htime, hdecode, hdata⟩ :=
    frame_received e f.stream
      (r := { w.video with firstRtpVideoTs := base w.video.firstRtpVideoTs f.stream.pts })
      hne hlen hcarried hascending (hw.video f.stream.pts)
  refine ⟨{ w with video, published := w.published ++ [msg] }, ?_,
    ⟨fun ts ↦ (congrFun hbuf ts).trans (hw.video ts), hw.audio, hw.auConfig, hw.audioSpecificConfig,
      hw.samplingFrequency⟩, rfl, msg, rfl, fun batches rest hrest ↦ ?_⟩
  · rw [hpkts, hpack, onVideoPkts_eq w e (by simp) ht, ← hpack, hfeed, Outcome.ok_bind]
    dsimp only
    rw [hmsgs]
    rfl
  · dsimp only at hrest
    rw [hfirst] at hrest
    exact .video ⟨htype, htime, ⟨header, _, hdecode, hdata⟩, nalus, hunits, hsub⟩ hrest

theorem processAacPacket_eq {r : Rtp.AacBridge.RtspToRtmp} {st : Stream} {hd frame : Bytes}
    (seqnum : BitVec 16) (hbuf : r.pktsBuf st.pts = []) (hau : r.auConfig = some ⟨13, 3⟩)
    (hconfig : r.audioSpecificConfig = some config) (hfreq : config.samplingFrequency ≠ 0)
    (hh : Rtp.AacRoundTrip.AuHeader hd frame) (hpos : 0 < frame.length)
    (hle : frame.length ≤ Rtp.AacBridge.audioFrameCacheBytes) :
    r.processAacPacket (packet st seqnum true (putBE 2 16 ++ (hd ++ frame))) =
      .ok (r, some (Rtp.AacBridge.audioMessage config
        ((st.pts - r.firstRtpAudioTs) * 1000 / config.samplingFrequency) frame)) := by
  obtain ⟨pktsBuf, _, _, first⟩ := r
  cases hau
  cases hconfig
  set p := packet st seqnum true (putBE 2 16 ++ (hd ++ frame)) with hp
  have hins : insertPacket p (pktsBuf p.timestamp) = [p] := by
    change insertPacket p (pktsBuf st.pts) = _
    rw [show pktsBuf st.pts = [] from hbuf]
    rfl
  have hpkts : Rtp.AacBridge.auPackets ⟨13, 3⟩ [] [p] = .ok (some frame) := by
    change ((Rtp.AacBridge.auPacket ⟨13, 3⟩ [] (putBE 2 16 ++ (hd ++ frame))) >>= _) = _
    rw [Rtp.AacRoundTrip.auPacket_section hh hpos hle]
    rfl
  have hkept : Function.update pktsBuf p.timestamp [] = pktsBuf := by
    change Function.update pktsBuf st.pts [] = _
    rw [← show pktsBuf st.pts = [] from hbuf, Function.update_eq_self]
  unfold Rtp.AacBridge.RtspToRtmp.processAacPacket RtpAACDepacketizer.onPacket
  rw [takePacket_marker rfl, hins, hkept]
  simp only [if_neg hfreq, Rtp.AacBridge.RtspToRtmp.generateAacRtmpMessage, hpkts, Outcome.ok_bind]
  rfl

theorem audio_relayed (hw : Ready config w) {audioPkt : RtmpMessage} {st : Stream} {c : BitVec 16}
    {data : Bytes}
    (hsection : Rtp.AacBridge.auSection (audioPkt.usingData.drop 2) = .ok data)
    (hfits : Fits w.videoCodec (.audio audioPkt (packRaw st c data))) :
    ∃ w', packRaw st c data = [packet st (getSequenceNum c) true data] ∧
      w.onAudioPkts (packRaw st c data) = .ok w' ∧
      Relays config w w' (.audio audioPkt (packRaw st c data)) := by
  obtain ⟨hpos, hle⟩ := hfits
  have hdrop : (audioPkt.usingData.drop 2).length = audioPkt.usingData.length - 2 := List.length_drop
  have hcache : Rtp.AacBridge.audioFrameCacheBytes = 20480 := rfl
  obtain ⟨hd, hh, rfl, hone⟩ := audio_packet st c hsection (by omega)
  have hprocess := processAacPacket_eq (getSequenceNum c)
    (r := { w.audio with firstRtpAudioTs := base w.audio.firstRtpAudioTs st.pts }) (hw.audio st.pts) hw.auConfig
    hw.audioSpecificConfig hw.samplingFrequency hh (by omega) (by omega)
  have hts : getTimestamp (packRaw st c (putBE 2 16 ++ (hd ++ audioPkt.usingData.drop 2))) = st.pts := by
    rw [hone]
    rfl
  set first := base w.audio.firstRtpAudioTs st.pts
  set msg := Rtp.AacBridge.audioMessage config ((st.pts - first) * 1000 / config.samplingFrequency)
    (audioPkt.usingData.drop 2)
  obtain ⟨header, hdecode, hformat⟩ := Rtp.AacRoundTrip.decode_audioMessage config
    ((st.pts - first) * 1000 / config.samplingFrequency) (audioPkt.usingData.drop 2)
  refine ⟨{ w with audio := { w.audio with firstRtpAudioTs := first }, published := w.published ++ [msg] },
    hone,     ?_, ⟨hw.video, hw.audio, hw.auConfig, hw.audioSpecificConfig, hw.samplingFrequency⟩, rfl, msg, rfl,
    fun batches rest hrest ↦ .audio hts ⟨rfl, rfl, header, hdecode, hformat, rfl⟩ hrest⟩
  · rw [hone, RtspToRtmp.onAudioPkts]
    change (feed _ { w.audio with firstRtpAudioTs := first } _ >>= _) = _
    rw [feed, hprocess]
    rfl

variable {videoPt audioPt : UInt8} {b : Batch}

/-- A batch that comes packet by packet. -/
theorem batch_relayed (e : Env) (answers : MessageText.RtspRequest → Bool) (hw : Ready config w)
    (hpacked : Packed videoPt audioPt b) (hfits : Fits w.videoCodec b)
    (hpt : audioPt.toNat ≠ videoPt.toNat) :
    ∃ w', b.pkts.foldl (receivePkt (session e answers ⟨videoPt.toNat, audioPt.toNat⟩)
        ⟨videoPt.toNat, audioPt.toNat⟩) (.ok w) = .ok w' ∧ Relays config w w' b := by
  cases hpacked with
  | video videoPkt f nalus pt units sublist =>
    obtain ⟨w', hframe, hrelays⟩ := frame_relayed (e := e) hw units sublist hfits
    refine ⟨w', ?_, hrelays⟩
    have hpkts : f.pkts = packNalus (naluFormat w.videoCodec).fu f.stream f.rtpSeqnum f.nalus := by
      rw [Frame.pkts, naluFormat_fu, hfits.packer]
    obtain ⟨ps, p, hpack, -, -, ht⟩ := packNalus_eq (naluFormat w.videoCodec) f.stream f.rtpSeqnum
        hfits.nonempty
    rw [← hpack, ← hpkts] at ht
    have hne : f.pkts ≠ [] := by
      rw [hpkts, hpack]
      simp
    change f.pkts.foldl _ _ = _
    rw [List.foldl_ext _ (fun o p ↦ o >>= fun w ↦ w.onVideoPkts e [p]) _ fun o p hp ↦ ?_,
      foldl_onVideoPkts hne ht, hframe]
    refine receivePkt_video ?_ o
    rw [(carries_number f.stream f.rtpSeqnum _ p hp).pt, pt]
  | audio audioPkt st c data pt section_eq =>
    obtain ⟨w', hone, haudio, hrelays⟩ := audio_relayed (c := c) hw section_eq hfits
    refine ⟨w', ?_, hrelays⟩
    rw [hone] at haudio
    change (packRaw st c data).foldl _ _ = _
    rw [hone, List.foldl_cons, List.foldl_nil, receivePkt_audio (by change st.pt.toNat ≠ _; rwa [pt]),
      Outcome.ok_bind, haudio]

def batchesOf : List Traffic → List (List RtpPacket)
  | [] => []
  | .pkts ps :: traffic => ps :: batchesOf traffic
  | .request _ :: traffic => batchesOf traffic

theorem mem_batchesOf {traffic : List Traffic} {ps : List RtpPacket} (h : .pkts ps ∈ traffic) :
    ps ∈ batchesOf traffic := by
  induction traffic with
  | nil => cases h
  | cons t traffic ih =>
    cases h with
    | head => exact List.mem_cons_self
    | tail _ h =>
      cases t with
      | pkts ps' => exact List.mem_cons_of_mem ps' (ih h)
      | request r => exact ih h

/-- All that has been packed becomes messages, whatever requests come in between. -/
theorem traffic_relayed (e : Env) (answers : MessageText.RtspRequest → Bool) {traffic : List Traffic}
    {batches : List Batch} (hw : Ready config w)
    (hbatches : batchesOf traffic = batches.map Batch.pkts) (hpacked : ∀ b ∈ batches, Packed videoPt audioPt b)
    (hfits : ∀ b ∈ batches, Fits w.videoCodec b) (hpt : audioPt.toNat ≠ videoPt.toNat) :
    ∃ w' msgs, traffic.foldl (receive (session e answers ⟨videoPt.toNat, audioPt.toNat⟩)
        ⟨videoPt.toNat, audioPt.toNat⟩) (.ok w) = .ok w' ∧ w'.published = w.published ++ msgs ∧
      Shows config.samplingFrequency w.video.firstRtpVideoTs w.audio.firstRtpAudioTs batches msgs := by
  induction traffic generalizing w batches with
  | nil =>
    obtain rfl : batches = [] := List.map_eq_nil_iff.mp hbatches.symm
    exact ⟨w, [], rfl, (List.append_nil _).symm, .nil _ _⟩
  | cons t traffic ih =>
    cases t with
    | request r => exact ih hw hbatches hpacked hfits
    | pkts ps =>
      cases batches with
      | nil => cases hbatches
      | cons b batches =>
        rw [batchesOf, List.map_cons, List.cons.injEq] at hbatches
        rw [List.forall_mem_cons] at hpacked hfits
        obtain ⟨w₁, hone, hrelays⟩ := batch_relayed e answers hw hpacked.1 hfits.1 hpt
        obtain ⟨msg, hmsg, hshows⟩ := hrelays.published
        obtain ⟨w₂, msgs, hrest, hmsgs, hshown⟩ := ih hrelays.ready hbatches.2 hpacked.2
          (by rw [hrelays.videoCodec]; exact hfits.2)
        refine ⟨w₂, msg :: msgs, ?_, ?_, hshows batches msgs hshown⟩
        · rw [List.foldl_cons, receive, hbatches.1, hone]
          exact hrest
        · rw [hmsgs, hmsg, List.append_assoc, List.singleton_append]

end Receive

/-- What a player over TCP is sent, with requests in between and cut in any way, a publisher's
session takes for the messages that it was made from. -/
theorem relay_complete {behind : ℕ → ℕ → UInt8} {ms : List Message} {s' : RtmpToRtsp} {batches : List Batch}
    (hrun : RtmpToRtsp.run behind {} ms = .ok (s', batches)) {config : Rtp.AacBridge.AudioSpecificConfig}
    {w : RtspToRtmp} (hw : Ready config w) (hfits : ∀ b ∈ batches, Fits w.videoCodec b) {player : Player}
    (hplayer : player.Ready ⟨96, 97⟩) (unset : UInt8) (e : Env) {answers : MessageText.RtspRequest → Bool}
    {traffic : List Traffic} (hbatches : batchesOf traffic = batches.map Batch.pkts)
    (hrequests : ∀ r, Traffic.request r ∈ traffic →
      (Item.request r).Clear ∧ r.wire.length ≤ rtspMaxBuf ∧ answers r.object = true) :
    ∃ bytes w' msgs, player.sendAll unset traffic = .ok bytes ∧ w'.published = w.published ++ msgs ∧
      Shows config.samplingFrequency w.video.firstRtpVideoTs w.audio.firstRtpAudioTs batches msgs ∧
      (batches.map Batch.message).Sublist (ms.filterMap Message.packet?) ∧
      ∀ pieces, pieces.flatten = bytes → ∃ handled,
        startRecvCoroutine (session e answers ⟨96, 97⟩) pieces { world := .ok w } =
          ⟨.ok w', handled, false⟩ := by
  have hpacked := run_packed hrun
  have hsendable : ∀ ps ∈ batchesOf traffic, ∀ p ∈ ps, Sendable ⟨96, 97⟩ p := by
    rw [hbatches]
    intro ps hps
    obtain ⟨b, hb, rfl⟩ := List.mem_map.mp hps
    exact sendable (hpacked b hb) (hfits b hb) (by decide) (by decide)
  have hfine : ∀ t ∈ traffic, t.Fine (session e answers ⟨96, 97⟩) ⟨96, 97⟩ := by
    intro t ht
    cases t with
    | request r =>
      obtain ⟨hclear, hlen, hok⟩ := hrequests r ht
      exact ⟨hclear, hlen, fun _ ↦ hok⟩
    | pkts ps => exact hsendable ps (mem_batchesOf ht)
  obtain ⟨w', msgs, hfold, hpublished, hshows⟩ :=
    traffic_relayed e answers hw hbatches hpacked hfits (by decide)
  obtain ⟨bytes, hsend, hdelivers⟩ := delivered (h := session e answers ⟨96, 97⟩)
    ⟨fun _ ↦ rfl, fun _ ↦ rfl, fun _ ↦ rfl⟩ hfine hplayer unset
  refine ⟨bytes, w', msgs, hsend, hpublished, hshows, run_messages hrun, fun pieces hcut ↦ ?_⟩
  obtain ⟨handled, hrecv⟩ := hdelivers (.ok w) pieces hcut
  exact ⟨handled, hrecv.trans (by rw [← hfold]; rfl)⟩

section Sample

def keyFrame : RtmpMessage :=
  { Packet.ofBytes [0x17, 1, 0, 0, 0, 0, 0, 0, 2, 0x41, 0x9a] with messageTypeId := flvVideoTag }

def audioConfig : RtmpMessage :=
  { Packet.ofBytes [0xaf, 0, 0x12, 0x10] with messageTypeId := Rtp.AacBridge.flvAudioTag }

def audioFrame : RtmpMessage :=
  { Packet.ofBytes [0xaf, 1, 0x21, 0x22] with messageTypeId := Rtp.AacBridge.flvAudioTag }

def keyFramePacked : Frame := ⟨.rtpPacker, ⟨96, 0, 0⟩, 0, [[0x09, 0xf0], [0x41, 0x9a]]⟩

def audioFramePacked : List RtpPacket := packRaw ⟨97, 0, 0⟩ 0 [0, 16, 0, 16, 0x21, 0x22]

def oneOfEach : RtspToRtmp := ⟨.rtpPacker, freshReceiver, Rtp.AacRoundTrip.sampleReceiver, []⟩

def overTcp : Player := ⟨true, some ⟨96, 97⟩, List.replicate rtspMaxBuf 0⟩

def withRequest : List Traffic :=
  [.pkts keyFramePacked.pkts, .request sampleOptions, .pkts audioFramePacked]

def bothPacked : List Batch := [.video keyFrame keyFramePacked, .audio audioFrame audioFramePacked]

/-- A frame and audio, with a request between them. -/
theorem relay_complete_oneOfEach :
    ∃ bytes w' msgs, overTcp.sendAll 0 withRequest = .ok bytes ∧ w'.published = oneOfEach.published ++ msgs ∧
      Shows 44100 0 0 bothPacked msgs ∧ [keyFrame, audioFrame].Sublist [keyFrame, audioConfig, audioFrame] ∧
      ∀ pieces, pieces.flatten = bytes → ∃ handled,
        startRecvCoroutine (session ⟨id, fun _ ↦ (0, 0)⟩ (fun _ ↦ true) ⟨96, 97⟩) pieces
          { world := .ok oneOfEach } = ⟨.ok w', handled, false⟩ := by
  obtain ⟨s', hrun⟩ : ∃ s', RtmpToRtsp.run (fun _ _ ↦ 0) {}
      [.metadata (some (some .avc, some .aac)), .video keyFrame, .audio audioConfig, .audio audioFrame] =
        .ok (s', bothPacked) := ⟨_, rfl⟩
  have hw : Ready Rtp.AacRoundTrip.sampleConfig oneOfEach := ⟨fun _ ↦ rfl, fun _ ↦ rfl, rfl, rfl, by decide⟩
  have hframe : FrameFits .rtpPacker keyFramePacked := ⟨rfl, by decide, by decide, by decide, by decide⟩
  have hfits : ∀ b ∈ bothPacked, Fits oneOfEach.videoCodec b := by
    rw [bothPacked, List.forall_mem_cons, List.forall_mem_singleton]
    exact ⟨hframe, by decide, by decide⟩
  have hbatches : batchesOf withRequest = bothPacked.map Batch.pkts := rfl
  refine relay_complete hrun hw hfits ⟨rfl, rfl, List.length_replicate⟩ 0 _ hbatches fun r hr ↦ ?_
  have hmem : Traffic.request r = .request sampleOptions := by simpa [withRequest] using hr
  cases hmem
  exact ⟨⟨by decide, by decide⟩, by decide, rfl⟩

end Sample

end MmsServer.Rtsp.Relay
