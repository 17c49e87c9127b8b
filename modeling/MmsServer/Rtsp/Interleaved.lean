import MmsServer.Rtp.HeaderBytes
import MmsServer.Rtp.Packer
import MmsServer.Rtsp.RecvLoop

namespace MmsServer.Rtsp.Interleaved

open Lib.ByteReader Lib.Checked Lib.CheckedReading Lib.CheckedWriting Rtp.Header MessageText
open RecvLoop hiding Outcome

def RtpOverTcpPktHeader.encode (h : RtpOverTcpPktHeader) : CheckedWriter Unit := do
  putBytes [36] (-1)
  putBytes [h.channel] (-2)
  putBytes (putBE 2 h.pktLen) (-3)

def RtpPacket.encode (p : RtpPacket) : CheckedWriter Unit := do
  Lib.CheckedWriting.orReturn (-1) (Rtp.HeaderBytes.RtpHeader.encode p.header)
  putBytes p.payload (-2)

def made (p : Rtp.Packer.RtpPacket) : RtpPacket where
  header :=
    { csrc := 0, extension := 0, padding := 0, version := 2
      marker := p.marker.toNat
      pt := p.pt.toNat
      seqnum := p.seqnum.toNat
      timestamp := p.timestamp.toNat
      ssrc := p.ssrc.toNat
      csrcs := []
      rtpHeaderExtention := none }
  payload := p.payload

structure RtspMediaSink where
  videoPt : ℕ
  audioPt : ℕ

structure Player where
  isTcpTransport : Bool
  rtspMediaSink : Option RtspMediaSink
  sendBuf : Bytes

/-- Nothing is assigned to `channel` for a packet of neither type. -/
def RtspMediaSink.channel (sink : RtspMediaSink) (unset : UInt8) (pt : ℕ) : UInt8 :=
  if pt = sink.videoPt then 0 else if pt = sink.audioPt then 2 else unset

namespace Player

/-- What is written to the socket for a packet. A negative size is a huge one there. -/
def sendRtpPkt (s : Player) (sink : RtspMediaSink) (unset : UInt8) (p : RtpPacket) :
    Outcome (Player × Bytes) :=
  match runWriter (RtpPacket.encode p) s.sendBuf with
  | .ok (rtpSize, sendBuf, _) => do
    let header : RtpOverTcpPktHeader :=
      { channel := sink.channel unset p.header.pt, pktLen := rtpSize % 2 ^ 16 }
    let (headerSize, header, _) ← runWriter (RtpOverTcpPktHeader.encode header) (List.replicate 20 0)
    return ({ s with sendBuf }, header.take headerSize ++ sendBuf.take rtpSize)
  | .err _ => .fault .overread
  | .fault f => .fault f

def sendRtpPkts (sink : RtspMediaSink) (unset : UInt8) : Player → List RtpPacket → Outcome (Player × Bytes)
  | s, [] => return (s, [])
  | s, p :: ps => do
    let (s, bytes) ← s.sendRtpPkt sink unset p
    let (s, more) ← sendRtpPkts sink unset s ps
    return (s, bytes ++ more)

/-- The return value says whether the coroutine that sends goes on. -/
def sendRtpOverTcpPkts (s : Player) (unset : UInt8) (rtpPkts : List RtpPacket) :
    Outcome (Player × Bytes × Bool) :=
  match s.isTcpTransport, s.rtspMediaSink with
  | true, some sink => do
    let (s, bytes) ← sendRtpPkts sink unset s rtpPkts
    return (s, bytes, true)
  | _, _ => return (s, [], false)

end Player

section Spec

/-- What comes from a peer that writes its packets as the server does, with requests
in between. -/
inductive Traffic
  | pkts (ps : List Rtp.Packer.RtpPacket)
  | request (r : Request)

def Player.sendAll (unset : UInt8) : Player → List Traffic → Outcome Bytes
  | _, [] => return []
  | s, .pkts pkts :: traffic => do
    let (s, bytes, ok) ← s.sendRtpOverTcpPkts unset (pkts.map made)
    if ok then return bytes ++ (← sendAll unset s traffic) else return bytes
  | s, .request r :: traffic => return r.wire ++ (← sendAll unset s traffic)

variable {σ : Type}

def receivePkt (h : Handlers σ) (sink : RtspMediaSink) (w : σ) (p : Rtp.Packer.RtpPacket) : σ :=
  if p.pt.toNat = sink.videoPt then h.onVideoPackets w (made p) else h.onAudioPackets w (made p)

/-- What is done where the packets are handed over as they were before they were sent. -/
def receive (h : Handlers σ) (sink : RtspMediaSink) (w : σ) : Traffic → σ
  | .pkts ps => ps.foldl (receivePkt h sink) w
  | .request r => (h.onRtspRequest w r.object).2

/-- A packet of one of the two media, with a size that fits into the header in front of it. -/
structure Sendable (sink : RtspMediaSink) (p : Rtp.Packer.RtpPacket) : Prop where
  pt_lt : p.pt.toNat < 128
  pt_eq : p.pt.toNat = sink.videoPt ∨ p.pt.toNat = sink.audioPt
  payload_lt : 12 + p.payload.length < 2 ^ 16

structure Player.Ready (s : Player) (sink : RtspMediaSink) : Prop where
  isTcpTransport : s.isTcpTransport = true
  rtspMediaSink : s.rtspMediaSink = some sink
  sendBuf : s.sendBuf.length = rtspMaxBuf

/-- The receiver of a stream knows the payload types of the sender. -/
structure Agrees (h : Handlers σ) (sink : RtspMediaSink) : Prop where
  tcp : ∀ w, h.isTcpTransport w = true
  videoPt : ∀ w, h.videoPt w = sink.videoPt
  audioPt : ∀ w, h.audioPt w = sink.audioPt

/-- Requests are such that the receiver goes on behind them. -/
def Traffic.Fine (h : Handlers σ) (sink : RtspMediaSink) : Traffic → Prop
  | .pkts ps => ∀ p ∈ ps, Sendable sink p
  | .request r =>
    (Item.request r).Clear ∧ r.wire.length ≤ rtspMaxBuf ∧ ∀ w, (h.onRtspRequest w r.object).1 = true

end Spec

section Packet

variable (p : Rtp.Packer.RtpPacket)

def rtpBytes : Bytes := Rtp.HeaderBytes.headBytes (made p).header ++ p.payload

theorem encode_puts : Puts (RtpPacket.encode (made p)) (rtpBytes p) () :=
  ((Rtp.HeaderBytes.encode_puts rfl).orReturn (-1)).bind (puts_putBytes _ _)

theorem headBytes_made : Rtp.HeaderBytes.headBytes (made p).header =
    putBE 1 128 ++ ([UInt8.ofNat (p.marker.toNat <<< 7 ||| p.pt.toNat)] ++ (putBE 2 p.seqnum.toNat ++
      (putBE 4 p.timestamp.toNat ++ putBE 4 p.ssrc.toNat))) := by
  have hfirst : [Rtp.HeaderBytes.RtpHeader.firstByte (made p).header] = putBE 1 128 := by
    change [UInt8.ofNat (2 <<< 6 ||| 0 <<< 5 ||| 0 <<< 4 ||| 0)] = _
    decide
  rw [Rtp.HeaderBytes.headBytes, hfirst]
  change _ ++ (_ ++ (_ ++ (_ ++ (_ ++ [])))) = _
  rw [List.append_nil]
  rfl

theorem rtpBytes_length : (rtpBytes p).length = 12 + p.payload.length := by
  rw [rtpBytes, headBytes_made]
  simp only [List.length_append, putBE_length, List.length_singleton]

variable {p}

theorem secondByte_eq (hpt : p.pt.toNat < 128) :
    p.marker.toNat <<< 7 ||| p.pt.toNat = 128 * p.marker.toNat + p.pt.toNat := by
  have h := Nat.two_pow_add_eq_or_of_lt (i := 7) hpt p.marker.toNat
  rw [Nat.shiftLeft_eq, Nat.mul_comm, ← h]

theorem decode_made (hpt : p.pt.toNat < 128) (rest : Bytes) :
    Rtp.HeaderBytes.RtpHeader.decode (Rtp.HeaderBytes.headBytes (made p).header ++ rest) =
      .ok ((made p).header, rest) := by
  have hm := p.marker.toNat_le
  have hfirst : (128 : ℕ) < 256 ^ 1 := by decide
  have hsecond : 128 * p.marker.toNat + p.pt.toNat < 256 ^ 1 := by omega
  have hbyte : [UInt8.ofNat (p.marker.toNat <<< 7 ||| p.pt.toNat)] =
      putBE 1 (128 * p.marker.toNat + p.pt.toNat) := by
    rw [secondByte_eq hpt, putBE, Nat.pow_zero, Nat.div_one]
    rfl
  have hmarker : (128 * p.marker.toNat + p.pt.toNat) / 128 % 2 = p.marker.toNat := by omega
  have htype : (128 * p.marker.toNat + p.pt.toNat) % 128 = p.pt.toNat := by omega
  rw [headBytes_made, hbyte]
  simp only [List.append_assoc]
  rw [Rtp.HeaderBytes.RtpHeader.decode, (gives_getBE hfirst (-1)).bind_apply,
    (gives_getBE hsecond (-2)).bind_apply, (gives_getBE p.seqnum.isLt (-3)).bind_apply,
    (gives_getBE p.timestamp.isLt (-4)).bind_apply, (gives_getBE p.ssrc.isLt (-4)).bind_apply,
    hmarker, htype]
  rfl

theorem decodeAndStore_made (hpt : p.pt.toNat < 128) :
    RtpPacket.decodeAndStore (rtpBytes p) = some (made p) := by
  have herase : RtpHeader.decode (rtpBytes p) = some ((made p).header, p.payload) := by
    rw [← Rtp.HeaderBytes.erase_decode, erase, rtpBytes, decode_made hpt]
  rw [RtpPacket.decodeAndStore, herase]
  rfl

theorem rtpBytes_type (hpt : p.pt.toNat < 128) :
    ∃ b, (rtpBytes p)[1]? = some b ∧ b.toNat % 128 = p.pt.toNat := by
  have hm := p.marker.toNat_le
  refine ⟨UInt8.ofNat (128 * p.marker.toNat + p.pt.toNat), ?_, ?_⟩
  · rw [rtpBytes, headBytes_made, secondByte_eq hpt]
    rfl
  · rw [UInt8.toNat_ofNat']
    omega

end Packet

section Send

variable {sink : RtspMediaSink} {p : Rtp.Packer.RtpPacket} {s : Player}

def itemOf (sink : RtspMediaSink) (p : Rtp.Packer.RtpPacket) (hp : Sendable sink p) : Item :=
  .frame (sink.channel 0 p.pt.toNat) (rtpBytes p) (by rw [rtpBytes_length]; exact hp.payload_lt)

theorem channel_eq (hp : Sendable sink p) (unset : UInt8) :
    sink.channel unset p.pt.toNat = sink.channel 0 p.pt.toNat := by
  unfold RtspMediaSink.channel
  split
  · rfl
  · rw [if_pos (hp.pt_eq.resolve_left ‹_›), if_pos (hp.pt_eq.resolve_left ‹_›)]

theorem channel_even (sink : RtspMediaSink) (pt : ℕ) : sink.channel 0 pt % 2 = 0 := by
  unfold RtspMediaSink.channel
  split
  · rfl
  · split
    · rfl
    · rfl

theorem rtspMaxBuf_eq : rtspMaxBuf = 1048576 := rfl

theorem sendRtpPkt_eq (hp : Sendable sink p) (hs : s.Ready sink) (unset : UInt8) :
    ∃ s' : Player, s'.Ready sink ∧
      s.sendRtpPkt sink unset (made p) = .ok (s', (itemOf sink p hp).wire) := by
  have hbuf := hs.sendBuf
  have hlen := rtpBytes_length p
  have hlt := hp.payload_lt
  have hroom : (rtpBytes p).length ≤ s.sendBuf.length := by
    rw [hbuf, rtspMaxBuf_eq]
    omega
  have hheader : Puts (RtpOverTcpPktHeader.encode
      { channel := sink.channel 0 p.pt.toNat, pktLen := (rtpBytes p).length })
      ([36] ++ ([sink.channel 0 p.pt.toNat] ++ putBE 2 (rtpBytes p).length)) () :=
    (puts_putBytes _ _).bind ((puts_putBytes _ _).bind (puts_putBytes _ _))
  have hsize : ([36] ++ ([sink.channel 0 p.pt.toNat] ++ putBE 2 (rtpBytes p).length)).length = 4 := by
    simp only [List.length_append, List.length_singleton, putBE_length]
  refine ⟨{ s with sendBuf := rtpBytes p ++ s.sendBuf.drop (rtpBytes p).length },
    ⟨hs.isTcpTransport, hs.rtspMediaSink, ?_⟩, ?_⟩
  · rw [List.length_append, List.length_drop]
    omega
  · rw [Player.sendRtpPkt, (encode_puts p).run s.sendBuf hroom]
    change (runWriter (RtpOverTcpPktHeader.encode
      { channel := sink.channel unset p.pt.toNat, pktLen := (rtpBytes p).length % 2 ^ 16 }) _ >>= _) = _
    rw [channel_eq hp, Nat.mod_eq_of_lt (by omega),
      hheader.run _ (by rw [hsize, List.length_replicate]; decide),
      Outcome.ok_bind]
    dsimp only
    rw [List.take_left, List.take_left, Outcome.pure_eq, itemOf, Item.wire, List.append_assoc,
      List.append_assoc]
    rfl

/-- What one packet comes to in the receiver. -/
theorem serve_itemOf {σ : Type} {h : Handlers σ} (hh : Agrees h sink) (hp : Sendable sink p) (w : σ) :
    ∃ handled, serve h w (itemOf sink p hp) = ⟨receivePkt h sink w p, handled, false⟩ := by
  obtain ⟨b, hb, hpt⟩ := rtpBytes_type hp.pt_lt
  have heven := channel_even sink p.pt.toNat
  by_cases hvideo : p.pt.toNat = sink.videoPt
  · refine ⟨[.video (made p)], ?_⟩
    rw [itemOf, serve_video h _ (hh.tcp w) heven hb (by rw [hpt, hh.videoPt, hvideo]),
      decodeAndStore_made hp.pt_lt, receivePkt, if_pos hvideo]
  · have haudio := hp.pt_eq.resolve_left hvideo
    refine ⟨[.audio (made p)], ?_⟩
    rw [itemOf, serve_audio h _ (hh.tcp w) heven hb (by rwa [hpt, hh.videoPt])
      (by rw [hpt, hh.audioPt, haudio]), decodeAndStore_made hp.pt_lt, receivePkt, if_neg hvideo]

theorem fine_itemOf (hp : Sendable sink p) :
    (itemOf sink p hp).Clear ∧ (itemOf sink p hp).wire.length ≤ rtspMaxBuf := by
  have hlen := rtpBytes_length p
  have hlt := hp.payload_lt
  constructor
  · intro _
    omega
  · rw [itemOf, frame_length, rtspMaxBuf_eq]
    omega

end Send

section Run

variable {σ : Type} {h : Handlers σ} {sink : RtspMediaSink} {s : Player}

/-- Behind items that do not end the session the next ones are served. -/
theorem serveAll_append {items : List Item} (items' : List Item) {w w' : σ} {handled : List Event}
    (hserve : serveAll h w items = ⟨w', handled, false⟩) :
    serveAll h w (items ++ items') = (serveAll h w' items').after handled := by
  induction items generalizing w handled with
  | nil =>
    cases hserve
    rfl
  | cons item items ih =>
    rcases hone : serve h w item with ⟨w₁, handled₁, ended⟩
    cases ended with
    | true =>
      rw [serveAll_ended hone] at hserve
      cases hserve
    | false =>
      rw [serveAll_took hone] at hserve
      rcases hrest : serveAll h w₁ items with ⟨w₂, handled₂, ended⟩
      rw [hrest] at hserve
      cases hserve
      rw [List.cons_append, serveAll_took hone, ih hrest, after_after]

structure Delivers (h : Handlers σ) (f : σ → σ) (bytes : Bytes) (items : List Item) : Prop where
  bytes_eq : bytes = wires items
  fine : Fine items
  serves : ∀ w, ∃ handled, serveAll h w items = ⟨f w, handled, false⟩

theorem Delivers.nil (h : Handlers σ) : Delivers h id [] [] := ⟨rfl, List.forall_mem_nil _, fun _ ↦ ⟨[], rfl⟩⟩

theorem Delivers.append {f g : σ → σ} {bytes bytes' : Bytes} {items items' : List Item}
    (hf : Delivers h f bytes items) (hg : Delivers h g bytes' items') :
    Delivers h (fun w ↦ g (f w)) (bytes ++ bytes') (items ++ items') := by
  refine ⟨?_, List.forall_mem_append.mpr ⟨hf.fine, hg.fine⟩, fun w ↦ ?_⟩
  · rw [hf.bytes_eq, hg.bytes_eq, wires, wires, wires, List.flatMap_append]
  · obtain ⟨handled, hserve⟩ := hf.serves w
    obtain ⟨handled', hserve'⟩ := hg.serves (f w)
    exact ⟨handled ++ handled', by rw [serveAll_append items' hserve, hserve']; rfl⟩

theorem Delivers.one {f : σ → σ} {item : Item} (hfine : item.Clear ∧ item.wire.length ≤ rtspMaxBuf)
    (hserve : ∀ w, ∃ handled, serve h w item = ⟨f w, handled, false⟩) : Delivers h f item.wire [item] := by
  refine ⟨?_, List.forall_mem_singleton.mpr hfine, fun w ↦ ?_⟩
  · rw [wires, List.flatMap_cons, List.flatMap_nil, List.append_nil]
  · obtain ⟨handled, hone⟩ := hserve w
    exact ⟨handled ++ [], by rw [serveAll_took hone]; rfl⟩

theorem delivers_request {r : Request} (hfine : (Traffic.request r).Fine h sink) :
    Delivers h (receive h sink · (.request r)) r.wire [.request r] := by
  obtain ⟨hclear, hlen, hok⟩ := hfine
  have hserve (w : σ) :
      serve h w (.request r) = ⟨receive h sink w (.request r), [.request r.object], false⟩ := by
    simp only [serve, hok]
    rfl
  exact .one ⟨hclear, hlen⟩ fun w ↦ ⟨_, hserve w⟩

theorem sendRtpPkts_delivers (hh : Agrees h sink) {ps : List Rtp.Packer.RtpPacket}
    (hps : ∀ p ∈ ps, Sendable sink p) (hs : s.Ready sink) (unset : UInt8) :
    ∃ s' bytes items, Player.sendRtpPkts sink unset s (ps.map made) = .ok (s', bytes) ∧ s'.Ready sink ∧
      Delivers h (ps.foldl (receivePkt h sink) ·) bytes items := by
  induction ps generalizing s with
  | nil => exact ⟨s, [], [], rfl, hs, .nil h⟩
  | cons p ps ih =>
    have hp := hps p List.mem_cons_self
    obtain ⟨s₁, hs₁, hone⟩ := sendRtpPkt_eq hp hs unset
    obtain ⟨s₂, bytes, items, hrest, hs₂, hdelivers⟩ := ih (fun q hq ↦ hps q (List.mem_cons_of_mem p hq)) hs₁
    refine ⟨s₂, (itemOf sink p hp).wire ++ bytes, itemOf sink p hp :: items, ?_, hs₂,
      (Delivers.one (fine_itemOf hp) (serve_itemOf hh hp)).append hdelivers⟩
    rw [List.map_cons, Player.sendRtpPkts, hone, Outcome.ok_bind]
    simp only [hrest, Outcome.ok_bind, Outcome.pure_eq]

/-- The player's session writes everything, and what it writes turns the receiver into what
the packets themselves would. -/
theorem sendAll_delivers (hh : Agrees h sink) {traffic : List Traffic} (hfine : ∀ t ∈ traffic, t.Fine h sink)
    (hs : s.Ready sink) (unset : UInt8) : ∃ bytes items, s.sendAll unset traffic = .ok bytes ∧
      Delivers h (traffic.foldl (receive h sink) ·) bytes items := by
  induction traffic generalizing s with
  | nil => exact ⟨[], [], rfl, .nil h⟩
  | cons t traffic ih =>
    rw [List.forall_mem_cons] at hfine
    obtain ⟨ht, hfine⟩ := hfine
    cases t with
    | pkts ps =>
      obtain ⟨s', bytes, items, hsend, hs', hdelivers⟩ := sendRtpPkts_delivers hh ht hs unset
      obtain ⟨more, items', hrest, hdelivers'⟩ := ih hfine hs'
      refine ⟨bytes ++ more, items ++ items', ?_, hdelivers.append hdelivers'⟩
      rw [Player.sendAll, Player.sendRtpOverTcpPkts, hs.isTcpTransport, hs.rtspMediaSink]
      simp only [hsend, Outcome.ok_bind, Outcome.pure_eq, hrest, if_true]
    | request r =>
      obtain ⟨more, items', hrest, hdelivers⟩ := ih hfine hs
      refine ⟨r.wire ++ more, .request r :: items', ?_, (delivers_request ht).append hdelivers⟩
      rw [Player.sendAll, hrest, Outcome.ok_bind, Outcome.pure_eq]

/-- However the bytes are cut, the receiver is given the packets as they were before they
were sent. -/
theorem delivered (hh : Agrees h sink) {traffic : List Traffic} (hfine : ∀ t ∈ traffic, t.Fine h sink)
    (hs : s.Ready sink) (unset : UInt8) : ∃ bytes, s.sendAll unset traffic = .ok bytes ∧
      ∀ w pieces, pieces.flatten = bytes → ∃ handled,
        startRecvCoroutine h pieces { world := w } = ⟨traffic.foldl (receive h sink) w, handled, false⟩ := by
  obtain ⟨bytes, items, hsend, hdelivers⟩ := sendAll_delivers hh hfine hs unset
  refine ⟨bytes, hsend, fun w pieces hcut ↦ ?_⟩
  obtain ⟨handled, hserve⟩ := hdelivers.serves w
  have hwaits : Waits [] items := by
    cases items with
    | nil => rfl
    | cons item items => exact wire_pos item
  refine ⟨handled, ?_⟩
  rw [startRecvCoroutine_serves (s := { world := w }) (clean_of_none rfl) hdelivers.fine
    (hcut.trans hdelivers.bytes_eq) hwaits, hserve]
  rfl

end Run

end MmsServer.Rtsp.Interleaved
