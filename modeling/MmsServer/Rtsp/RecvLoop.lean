import MmsServer.Rtp.Header
import MmsServer.Rtsp.MessageText

namespace MmsServer.Rtsp.RecvLoop

open Lib.ByteReader Lib.Text Rtp.Header MessageText

def rtspMaxBuf : ℕ := 1024 * 1024

structure RtpOverTcpPktHeader where
  channel : UInt8 := 0
  pktLen : ℕ := 0

def RtpOverTcpPktHeader.decode (data : Bytes) : ℤ × RtpOverTcpPktHeader :=
  match data with
  | [] => (0, {})
  | b :: data =>
    if b ≠ 36 then (-1, {})
    else match data with
      | [] => (0, {})
      | channel :: data =>
        if data.length < 2 then (0, { channel })
        else (4, { channel, pktLen := fromBE (data.take 2) })

/-- What lies outside the coroutine: the transport, the media source, and what is done
with the items. -/
structure Handlers (σ : Type) where
  isTcpTransport : σ → Bool
  videoPt : σ → ℕ
  audioPt : σ → ℕ
  onRtspRequest : σ → RtspRequest → Bool × σ
  onRtspResponse : σ → RtspResponse → σ
  onVideoPackets : σ → RtpPacket → σ
  onAudioPackets : σ → RtpPacket → σ
  sendNotAcceptable : σ → σ
  queueNotAcceptable : σ → Bool × σ

inductive Event
  | request (req : RtspRequest)
  | response (resp : RtspResponse)
  | video (pkt : RtpPacket)
  | audio (pkt : RtpPacket)
  | other (channel : UInt8) (data : Bytes)

/-- `behind` is what the receive buffer holds behind the bytes that count. -/
structure Session (σ : Type) where
  world : σ
  rtspRequest : Option RtspRequest := none
  rtspResponse : Option RtspResponse := none
  recvBuf : Bytes := []
  behind : ℕ → UInt8 := fun _ ↦ 0
  handled : List Event := []

variable {σ : Type}

namespace Session

def recv (s : Session σ) (piece : Bytes) : Session σ :=
  { s with recvBuf := s.recvBuf ++ piece, behind := fun i ↦ s.behind (i + piece.length) }

/-- The bytes that remain are moved to the front, and the last ones are still there
behind them. -/
def consume (s : Session σ) (n : ℕ) : Session σ :=
  { s with
    recvBuf := s.recvBuf.drop n
    behind := fun i ↦
      if i < n then s.recvBuf.getD (s.recvBuf.length - n + i) 0 else s.behind (i - n) }

def byteAt (s : Session σ) (i : ℕ) : UInt8 := s.recvBuf.getD i (s.behind (i - s.recvBuf.length))

def handle (s : Session σ) (world : σ) (e : Event) : Session σ :=
  { s with world, handled := s.handled ++ [e] }

end Session

inductive Step (σ : Type)
  | wait (s : Session σ)
  | failed (s : Session σ)
  | took (s : Session σ)
  | ended (s : Session σ)

/-- `parse_pt` takes the second byte behind the header, whatever the length. -/
def stepFrame (h : Handlers σ) (s : Session σ) : Step σ :=
  if !h.isTcpTransport s.world then .ended { s with world := h.sendNotAcceptable s.world }
  else
    let (consumed1, header) := RtpOverTcpPktHeader.decode s.recvBuf
    if consumed1 ≤ 0 then .wait s
    else if s.recvBuf.length - consumed1.toNat < header.pktLen then .wait s
    else
      let pt := (s.byteAt (consumed1.toNat + 1)).toNat % 128
      let data := (s.recvBuf.drop consumed1.toNat).take header.pktLen
      let s' := s.consume (consumed1.toNat + header.pktLen)
      if header.channel % 2 = 0 then
        if pt = h.videoPt s.world then
          match RtpPacket.decodeAndStore data with
          | none => .ended s
          | some pkt => .took (s'.handle (h.onVideoPackets s.world pkt) (.video pkt))
        else if pt = h.audioPt s.world then
          match RtpPacket.decodeAndStore data with
          | none => .ended s
          | some pkt => .took (s'.handle (h.onAudioPackets s.world pkt) (.audio pkt))
        else .took (s'.handle s.world (.other header.channel data))
      else .took (s'.handle s.world (.other header.channel data))

def stepRequest (h : Handlers σ) (s : Session σ) : Step σ :=
  let req := match s.rtspRequest with
    | none => RtspRequest.new
    | some req => RtspRequest.clear req
  let (consumed, req) := RtspRequest.parse req s.recvBuf
  if consumed = 0 then .wait { s with rtspRequest := some req }
  else if consumed < 0 then .failed { s with rtspRequest := some req }
  else
    let s := { s.consume consumed.toNat with rtspRequest := none }
    let (ok, world) := h.onRtspRequest s.world req
    if ok then .took (s.handle world (.request req)) else .ended (s.handle world (.request req))

def stepResponse (h : Handlers σ) (s : Session σ) : Step σ :=
  let (consumed, resp) := RtspResponse.parse (s.rtspResponse.getD RtspResponse.new) s.recvBuf
  if consumed = 0 then .wait { s with rtspResponse := some resp }
  else if consumed < 0 then .failed { s with rtspResponse := some resp }
  else
    let s := { s.consume consumed.toNat with rtspResponse := none }
    .took (s.handle (h.onRtspResponse s.world resp) (.response resp))

def step (h : Handlers σ) (s : Session σ) : Step σ :=
  if (ascii "RTSP").isPrefixOf s.recvBuf then stepResponse h s
  else if (ascii "$").isPrefixOf s.recvBuf then stepFrame h s
  else stepRequest h s

/-- The inner loop. Every round but the last takes at least a byte. -/
def drain (h : Handlers σ) : ℕ → Session σ → Step σ
  | 0, s => .wait s
  | fuel + 1, s =>
    match step h s with
    | .took s => if s.recvBuf = [] then .wait s else drain h fuel s
    | r => r

structure Outcome (σ : Type) where
  world : σ
  handled : List Event
  ended : Bool

def Session.outcome (s : Session σ) (ended : Bool) : Outcome σ := ⟨s.world, s.handled, ended⟩

/-- The coroutine of `start_recv_coroutine`, where `recv_some` returns one piece after
the other. -/
def startRecvCoroutine (h : Handlers σ) : List Bytes → Session σ → Outcome σ
  | [], s => s.outcome false
  | piece :: pieces, s =>
    if s.recvBuf.length = rtspMaxBuf then s.outcome true
    else
      match drain h ((s.recvBuf ++ piece).length + 1) (s.recv piece) with
      | .wait s => startRecvCoroutine h pieces s
      | .took s => startRecvCoroutine h pieces s
      | .failed s =>
        let (ec, world) := h.queueNotAcceptable s.world
        if ec then { s with world }.outcome true
        else startRecvCoroutine h pieces { s with world }
      | .ended s => s.outcome true

section Spec

inductive Item
  | request (r : Request)
  | frame (channel : UInt8) (data : Bytes) (short : data.length < 2 ^ 16)

def Item.wire : Item → Bytes
  | .request r => r.wire
  | .frame channel data _ => 36 :: channel :: (putBE 2 data.length ++ data)

def serve (h : Handlers σ) (w : σ) : Item → Outcome σ
  | .request r =>
    let (ok, w) := h.onRtspRequest w r.object
    ⟨w, [.request r.object], !ok⟩
  | .frame channel data _ =>
    let pt := (data[1]?).map fun b ↦ b.toNat % 128
    if !h.isTcpTransport w then ⟨h.sendNotAcceptable w, [], true⟩
    else if channel % 2 = 0 ∧ pt = some (h.videoPt w) then
      match RtpPacket.decodeAndStore data with
      | none => ⟨w, [], true⟩
      | some pkt => ⟨h.onVideoPackets w pkt, [.video pkt], false⟩
    else if channel % 2 = 0 ∧ pt = some (h.audioPt w) then
      match RtpPacket.decodeAndStore data with
      | none => ⟨w, [], true⟩
      | some pkt => ⟨h.onAudioPackets w pkt, [.audio pkt], false⟩
    else ⟨w, [.other channel data], false⟩

def serveAll (h : Handlers σ) : σ → List Item → Outcome σ
  | w, [] => ⟨w, [], false⟩
  | w, item :: items =>
    let o := serve h w item
    if o.ended then o
    else
      let o' := serveAll h o.world items
      { o' with handled := o.handled ++ o'.handled }

/-- Nothing about the item is left to what lies behind it. -/
def Item.Clear : Item → Prop
  | .request r => ¬ ascii "RTSP" <+: r.method ∧ ¬ ascii "$" <+: r.method
  | .frame channel data _ => channel % 2 = 0 → 2 ≤ data.length

end Spec

section Step

variable {h : Handlers σ} {s : Session σ} {later more : Bytes}

/-- A request that has been parsed in part has no body yet. -/
def Clean (s : Session σ) : Prop := ∀ req ∈ s.rtspRequest, req.body = []

theorem clean_of_none (hnone : s.rtspRequest = none) : Clean s := by
  intro req hreq
  rw [hnone] at hreq
  cases hreq

/-- What the buffer holds of the first item is not all of it. -/
def Waits (buf : Bytes) : List Item → Prop
  | [] => buf = []
  | item :: _ => buf.length < item.wire.length

def nextRequest (s : Session σ) : RtspRequest :=
  match s.rtspRequest with
  | none => RtspRequest.new
  | some req => RtspRequest.clear req

theorem nextRequest_spec (hs : Clean s) :
    (nextRequest s).start.queryParams = (fun _ ↦ none) ∧ (nextRequest s).headers = (fun _ ↦ none) ∧
      (nextRequest s).body = [] := by
  rw [nextRequest]
  cases hreq : s.rtspRequest with
  | none => exact ⟨rfl, rfl, rfl⟩
  | some req => exact ⟨rfl, rfl, hs req hreq⟩

theorem stepRequest_eq (h : Handlers σ) (s : Session σ) :
    stepRequest h s =
      let r := RtspRequest.parse (nextRequest s) s.recvBuf
      if r.1 = 0 then .wait { s with rtspRequest := some r.2 }
      else if r.1 < 0 then .failed { s with rtspRequest := some r.2 }
      else
        let s' := { s.consume r.1.toNat with rtspRequest := none }
        let o := h.onRtspRequest s.world r.2
        if o.1 then .took (s'.handle o.2 (.request r.2)) else .ended (s'.handle o.2 (.request r.2)) :=
  rfl

inductive Takes (h : Handlers σ) (s : Session σ) (item : Item) : Step σ → Prop
  | took (s' : Session σ) (handled : List Event) (le : item.wire.length ≤ s.recvBuf.length)
      (buf : s'.recvBuf = s.recvBuf.drop item.wire.length) (clean : Clean s')
      (serve : serve h s.world item = ⟨s'.world, handled, false⟩)
      (all : s'.handled = s.handled ++ handled) : Takes h s item (.took s')
  | ended (s' : Session σ) (handled : List Event)
      (serve : serve h s.world item = ⟨s'.world, handled, true⟩)
      (all : s'.handled = s.handled ++ handled) : Takes h s item (.ended s')

/-- A round that takes nothing leaves all but the object of the request. -/
def Idle (s s' : Session σ) : Prop :=
  s'.recvBuf = s.recvBuf ∧ s'.world = s.world ∧ s'.handled = s.handled ∧ Clean s'

theorem stepRequest_short {r : Request} (hs : Clean s) (hbody : r.body.length < 2 ^ 31)
    (hbuf : s.recvBuf ++ later = r.wire ++ more) (hshort : s.recvBuf.length < r.wire.length) :
    ∃ s', stepRequest h s = .wait s' ∧ Idle s s' := by
  obtain ⟨hparams, hheaders, hnext⟩ := nextRequest_spec hs
  obtain ⟨req, hparse, hreq⟩ := parse_short hbuf hshort hbody hparams hheaders
  rw [stepRequest_eq, hparse]
  refine ⟨_, rfl, rfl, rfl, rfl, ?_⟩
  rintro _ ⟨⟩
  rw [hreq, hnext]

theorem stepRequest_whole {r : Request} (hs : Clean s) (hbody : r.body.length < 2 ^ 31)
    (hbuf : s.recvBuf ++ later = r.wire ++ more) (hlen : r.wire.length ≤ s.recvBuf.length) :
    Takes h s (.request r) (stepRequest h s) := by
  obtain ⟨hparams, hheaders, hnext⟩ := nextRequest_spec hs
  have hpos : 0 < r.wire.length := by
    have := head_length r
    rw [Request.wire, List.length_append]
    omega
  rw [stepRequest_eq, parse_whole hbuf hlen hbody hparams hheaders hnext]
  simp only
  rw [if_neg (by omega), if_neg (by omega), Int.toNat_natCast]
  cases hok : (h.onRtspRequest s.world r.object).1 with
  | true =>
    rw [if_pos rfl]
    refine .took _ [.request r.object] hlen rfl (clean_of_none rfl) ?_ rfl
    simp only [serve, hok]
    rfl
  | false =>
    rw [if_neg Bool.false_ne_true]
    refine .ended _ [.request r.object] ?_ rfl
    simp only [serve, hok]
    rfl

theorem decode_frame (channel : UInt8) {data : Bytes} (hlen : data.length < 2 ^ 16) (rest : Bytes) :
    RtpOverTcpPktHeader.decode (36 :: channel :: (putBE 2 data.length ++ rest)) =
      (4, ⟨channel, data.length⟩) := by
  have hlength : ¬ (putBE 2 data.length ++ rest).length < 2 := by
    rw [List.length_append, putBE_length]
    omega
  have hvalue : fromBE ((putBE 2 data.length ++ rest).take 2) = data.length := by
    rw [List.take_left' (putBE_length 2 _), fromBE_putBE,
      Nat.mod_eq_of_lt (by omega)]
  rw [RtpOverTcpPktHeader.decode]
  simp only [ne_eq, not_true_eq_false, if_false, if_neg hlength, hvalue]

theorem frame_length (channel : UInt8) {data : Bytes} (hlen : data.length < 2 ^ 16) :
    (Item.frame channel data hlen).wire.length = 4 + data.length := by
  simp only [Item.wire, List.length_cons, List.length_append, putBE_length]
  omega

theorem stepFrame_refuses (channel : UInt8) {data : Bytes} (hdata : data.length < 2 ^ 16)
    (htcp : h.isTcpTransport s.world = false) :
    Takes h s (.frame channel data hdata) (stepFrame h s) := by
  rw [stepFrame, htcp]
  refine .ended _ [] ?_ (List.append_nil _).symm
  simp only [serve, htcp]
  rfl

theorem decode_short {buf : Bytes} (hhead : buf.head? = some 36) (hlen : buf.length < 4) :
    (RtpOverTcpPktHeader.decode buf).1 = 0 := by
  cases buf with
  | nil => rfl
  | cons b buf =>
    obtain rfl : b = 36 := Option.some_inj.mp hhead
    cases buf with
    | nil => rfl
    | cons channel buf =>
      have hlen' : buf.length < 2 := by
        rw [List.length_cons, List.length_cons] at hlen
        omega
      rw [RtpOverTcpPktHeader.decode]
      simp only [ne_eq, not_true_eq_false, if_false, if_pos hlen']

section Serve

variable {w : σ} {channel b : UInt8} {data : Bytes}

theorem serve_video (h : Handlers σ) (hdata : data.length < 2 ^ 16) (htcp : h.isTcpTransport w = true)
    (heven : channel % 2 = 0) (hpt : data[1]? = some b) (hvideo : b.toNat % 128 = h.videoPt w) :
    serve h w (.frame channel data hdata) =
      match RtpPacket.decodeAndStore data with
      | none => ⟨w, [], true⟩
      | some pkt => ⟨h.onVideoPackets w pkt, [.video pkt], false⟩ := by
  rw [serve, htcp, hpt]
  simp only [Bool.not_true, Bool.false_eq_true, if_false, Option.map_some, hvideo, heven, and_self,
    if_true]

theorem serve_audio (h : Handlers σ) (hdata : data.length < 2 ^ 16)
    (htcp : h.isTcpTransport w = true) (heven : channel % 2 = 0)
    (hpt : data[1]? = some b) (hvideo : b.toNat % 128 ≠ h.videoPt w)
    (haudio : b.toNat % 128 = h.audioPt w) :
    serve h w (.frame channel data hdata) =
      match RtpPacket.decodeAndStore data with
      | none => ⟨w, [], true⟩
      | some pkt => ⟨h.onAudioPackets w pkt, [.audio pkt], false⟩ := by
  rw [haudio] at hvideo
  rw [serve, htcp, hpt]
  simp only [Bool.not_true, Bool.false_eq_true, if_false, Option.map_some, haudio, heven,
    Option.some_inj, hvideo, and_false, and_self, if_true]

theorem serve_other (hdata : data.length < 2 ^ 16) (htcp : h.isTcpTransport w = true)
    (hpt : channel % 2 = 0 → (data[1]?).map (fun b ↦ b.toNat % 128) ≠ some (h.videoPt w) ∧
      (data[1]?).map (fun b ↦ b.toNat % 128) ≠ some (h.audioPt w)) :
    serve h w (.frame channel data hdata) = ⟨w, [.other channel data], false⟩ := by
  rw [serve, htcp]
  simp only [Bool.not_true, Bool.false_eq_true, if_false]
  rw [if_neg fun hp ↦ (hpt hp.1).1 hp.2, if_neg fun hp ↦ (hpt hp.1).2 hp.2]

end Serve

/-- A frame of which at least the header has been received. -/
theorem split_frame {channel : UInt8} {data : Bytes} {hdata : data.length < 2 ^ 16} {buf : Bytes}
    (hbuf : buf ++ later = (Item.frame channel data hdata).wire ++ more) (hlen : 4 ≤ buf.length) :
    ∃ rest, buf = 36 :: channel :: (putBE 2 data.length ++ rest) ∧ rest ++ later = data ++ more := by
  have hwire : (Item.frame channel data hdata).wire ++ more =
      (36 :: channel :: putBE 2 data.length) ++ (data ++ more) := by
    simp only [Item.wire, List.cons_append, List.append_assoc]
  rw [hwire] at hbuf
  have hpre : 36 :: channel :: putBE 2 data.length <+: buf ++ later := by
    rw [hbuf]
    exact List.prefix_append _ _
  have hle : (36 :: channel :: putBE 2 data.length).length ≤ buf.length := by
    rw [List.length_cons, List.length_cons, putBE_length]
    exact hlen
  obtain ⟨rest, rfl⟩ := List.prefix_of_prefix_length_le hpre (List.prefix_append buf later) hle
  rw [List.append_assoc, List.append_cancel_left_eq] at hbuf
  exact ⟨rest, rfl, hbuf⟩

/-- Once the header of a frame has arrived, it is decoded. -/
theorem decode_received {channel : UInt8} {data : Bytes} {hdata : data.length < 2 ^ 16} {buf : Bytes}
    (hbuf : buf ++ later = (Item.frame channel data hdata).wire ++ more) (hlen : 4 ≤ buf.length) :
    RtpOverTcpPktHeader.decode buf = (4, ⟨channel, data.length⟩) := by
  obtain ⟨rest, hsplit, -⟩ := split_frame hbuf hlen
  rw [hsplit]
  exact decode_frame channel hdata rest

theorem stepFrame_short {channel : UInt8} {data : Bytes} {hdata : data.length < 2 ^ 16}
    (htcp : h.isTcpTransport s.world = true) (hs : Clean s) (hne : s.recvBuf ≠ [])
    (hbuf : s.recvBuf ++ later = (Item.frame channel data hdata).wire ++ more)
    (hshort : s.recvBuf.length < (Item.frame channel data hdata).wire.length) :
    ∃ s', stepFrame h s = .wait s' ∧ Idle s s' := by
  refine ⟨s, ?_, rfl, rfl, rfl, hs⟩
  rw [frame_length] at hshort
  rw [stepFrame, htcp]
  simp only [Bool.not_true, Bool.false_eq_true, if_false]
  by_cases hheader : s.recvBuf.length < 4
  · obtain ⟨b, buf, hcons⟩ := List.exists_cons_of_ne_nil hne
    have hhead : s.recvBuf.head? = some 36 := by
      rw [hcons, Item.wire, List.cons_append, List.cons_append, List.cons.injEq] at hbuf
      rw [hcons, List.head?_cons, hbuf.1]
    rw [if_pos (decode_short hhead hheader).le]
  · rw [decode_received hbuf (Nat.le_of_not_lt hheader)]
    simp only
    rw [if_neg (by decide), if_pos]
    rw [show (4 : ℤ).toNat = 4 from rfl]
    omega

theorem stepFrame_whole {channel : UInt8} {data : Bytes} {hdata : data.length < 2 ^ 16}
    (htcp : h.isTcpTransport s.world = true) (hs : Clean s)
    (hclear : (Item.frame channel data hdata).Clear)
    (hbuf : s.recvBuf ++ later = (Item.frame channel data hdata).wire ++ more)
    (hlen : (Item.frame channel data hdata).wire.length ≤ s.recvBuf.length) :
    Takes h s (.frame channel data hdata) (stepFrame h s) := by
  have hwire := frame_length channel hdata
  rw [hwire] at hlen
  obtain ⟨rest, hsplit, hrest⟩ := split_frame hbuf (by omega)
  have hlength : s.recvBuf.length = 4 + rest.length := by
    rw [hsplit]
    simp only [List.length_cons, List.length_append, putBE_length]
    omega
  have hdecode := decode_received hbuf (by omega)
  have hdrop : s.recvBuf.drop 4 = rest := by
    rw [hsplit]
    rfl
  have hdata' : data = rest.take data.length := by
    have hpre : data <+: rest ++ later := by
      rw [hrest]
      exact List.prefix_append _ _
    exact List.prefix_iff_eq_take.mp
      (List.prefix_of_prefix_length_le hpre (List.prefix_append rest later) (by omega))
  have hpt : channel % 2 = 0 → data[1]? = some (s.byteAt (4 + 1)) := by
    intro heven
    have htwo : 2 ≤ data.length := hclear heven
    have hfive : 4 + 1 < s.recvBuf.length := by omega
    rw [Session.byteAt, List.getD_eq_getElem?_getD, List.getElem?_eq_getElem hfive, Option.getD_some,
      hdata', List.getElem?_take_of_lt (by omega), ← hdrop, List.getElem?_drop,
      List.getElem?_eq_getElem hfive]
  rw [stepFrame, htcp, hdecode]
  simp only [Bool.not_true, Bool.false_eq_true, if_false]
  rw [if_neg (by decide), show (4 : ℤ).toNat = 4 from rfl, if_neg (by omega), hdrop, ← hdata']
  have htake (w : σ) (e : Event)
      (hserve : serve h s.world (.frame channel data hdata) = ⟨w, [e], false⟩) :
      Takes h s (.frame channel data hdata) (.took ((s.consume (4 + data.length)).handle w e)) :=
    .took _ [e] (by omega) (by rw [hwire]; rfl) hs hserve rfl
  have hend (hserve : serve h s.world (.frame channel data hdata) = ⟨s.world, [], true⟩) :
      Takes h s (.frame channel data hdata) (.ended s) := .ended s [] hserve (List.append_nil _).symm
  by_cases heven : channel % 2 = 0
  · have hpt' := hpt heven
    rw [if_pos heven]
    by_cases hvideo : (s.byteAt (4 + 1)).toNat % 128 = h.videoPt s.world
    · have hserve := serve_video h hdata htcp heven hpt' hvideo
      rw [if_pos hvideo]
      cases hpkt : RtpPacket.decodeAndStore data with
      | none => exact hend (by rw [hserve, hpkt])
      | some pkt => exact htake _ _ (by rw [hserve, hpkt])
    · rw [if_neg hvideo]
      by_cases haudio : (s.byteAt (4 + 1)).toNat % 128 = h.audioPt s.world
      · have hserve := serve_audio h hdata htcp heven hpt' hvideo haudio
        rw [if_pos haudio]
        cases hpkt : RtpPacket.decodeAndStore data with
        | none => exact hend (by rw [hserve, hpkt])
        | some pkt => exact htake _ _ (by rw [hserve, hpkt])
      · rw [if_neg haudio]
        refine htake _ _ (serve_other hdata htcp fun _ ↦ ?_)
        rw [hpt', Option.map_some]
        exact ⟨fun hp ↦ hvideo (Option.some_inj.mp hp), fun hp ↦ haudio (Option.some_inj.mp hp)⟩
  · rw [if_neg heven]
    exact htake _ _ (serve_other hdata htcp fun hp ↦ absurd hp heven)

theorem prefix_word {c : UInt8} {text word rest : Bytes} (h : text <+: word ++ c :: rest)
    (hc : c ∉ text) : text <+: word := by
  rcases List.prefix_or_prefix_of_prefix h (List.prefix_append word (c :: rest)) with hp | ⟨tail, rfl⟩
  · exact hp
  · rw [List.prefix_append_right_inj] at h
    cases tail with
    | nil =>
      simp only [List.append_nil, List.prefix_refl]
    | cons b tail =>
      rw [List.cons_prefix_cons] at h
      rw [h.1] at hc
      exact absurd (List.mem_append_right _ List.mem_cons_self) hc

theorem not_starts_with {r : Request} {text : Bytes} (hspace : 32 ∉ text) (h : ¬ text <+: r.method)
    (hbuf : s.recvBuf ++ later = r.wire ++ more) : ¬ text.isPrefixOf s.recvBuf = true := by
  rw [List.isPrefixOf_iff_prefix]
  intro hp
  have hwire : text <+: r.method ++ 32 :: (Http.RequestText.targetText r.uri r.query ++
      32 :: (ascii "RTSP" ++ 47 :: r.version) ++ crlf ++ Http.RequestText.linesText r.headers ++
        r.body ++ more) := by
    have hfull := hp.trans (List.prefix_append s.recvBuf later)
    rw [hbuf, Request.wire, Request.head, Request.line] at hfull
    simpa only [List.append_assoc, List.cons_append] using hfull
  exact h (prefix_word hwire hspace)

/-- What a round comes to with a buffer that starts with an item. -/
theorem step_item {item : Item} (hs : Clean s) (hne : s.recvBuf ≠ []) (hclear : item.Clear)
    (hlen : item.wire.length ≤ rtspMaxBuf) (hbuf : s.recvBuf ++ later = item.wire ++ more) :
    (s.recvBuf.length < item.wire.length ∧ ∃ s', step h s = .wait s' ∧ Idle s s') ∨
      Takes h s item (step h s) := by
  cases item with
  | request r =>
    have hbody : r.body.length < 2 ^ 31 := by
      rw [Item.wire, Request.wire, List.length_append, rtspMaxBuf] at hlen
      omega
    rw [step, if_neg (not_starts_with (by decide) hclear.1 hbuf),
      if_neg (not_starts_with (by decide) hclear.2 hbuf)]
    by_cases hshort : s.recvBuf.length < r.wire.length
    · exact .inl ⟨hshort, stepRequest_short hs hbody hbuf hshort⟩
    · exact .inr (stepRequest_whole hs hbody hbuf (Nat.le_of_not_lt hshort))
  | frame channel data hdata =>
    obtain ⟨b, buf, hcons⟩ := List.exists_cons_of_ne_nil hne
    have hb : b = 36 := by
      rw [hcons, Item.wire, List.cons_append, List.cons_append, List.cons.injEq] at hbuf
      exact hbuf.1
    have hrtsp : ¬ (ascii "RTSP").isPrefixOf s.recvBuf = true := by
      rw [hcons, hb, List.isPrefixOf_iff_prefix]
      exact fun hp ↦ absurd (List.cons_prefix_cons.mp hp).1 (by decide)
    have hdollar : (ascii "$").isPrefixOf s.recvBuf = true := by
      rw [hcons, hb, List.isPrefixOf_iff_prefix]
      exact List.cons_prefix_cons.mpr ⟨rfl, List.nil_prefix⟩
    rw [step, if_neg hrtsp, if_pos hdollar]
    cases htcp : h.isTcpTransport s.world with
    | false => exact .inr (stepFrame_refuses channel hdata htcp)
    | true =>
      by_cases hshort : s.recvBuf.length < (Item.frame channel data hdata).wire.length
      · exact .inl ⟨hshort, stepFrame_short htcp hs hne hbuf hshort⟩
      · exact .inr (stepFrame_whole htcp hs hclear hbuf (Nat.le_of_not_lt hshort))

end Step

section Run

variable {h : Handlers σ} {s : Session σ} {later : Bytes} {items : List Item}

def wires (items : List Item) : Bytes := items.flatMap Item.wire

def Outcome.after (handled : List Event) (o : Outcome σ) : Outcome σ :=
  { o with handled := handled ++ o.handled }

theorem after_after (handled handled' : List Event) (o : Outcome σ) :
    (o.after handled').after handled = o.after (handled ++ handled') := by
  rw [Outcome.after, Outcome.after, Outcome.after, List.append_assoc]

theorem serveAll_took {item : Item} {w w' : σ} {handled : List Event}
    (hserve : serve h w item = ⟨w', handled, false⟩) (items : List Item) :
    serveAll h w (item :: items) = (serveAll h w' items).after handled := by
  rw [serveAll, hserve]
  rfl

theorem serveAll_ended {item : Item} {w w' : σ} {handled : List Event}
    (hserve : serve h w item = ⟨w', handled, true⟩) (items : List Item) :
    serveAll h w (item :: items) = ⟨w', handled, true⟩ := by
  rw [serveAll, hserve]
  rfl

theorem wire_pos (item : Item) : 0 < item.wire.length := by
  cases item with
  | request r =>
    have := head_length r
    rw [Item.wire, Request.wire, List.length_append]
    omega
  | frame channel data hdata =>
    rw [frame_length]
    omega

/-- Each of the items leaves no room for doubt and fits into the receive buffer. -/
def Fine (items : List Item) : Prop := ∀ item ∈ items, item.Clear ∧ item.wire.length ≤ rtspMaxBuf

inductive Drained (h : Handlers σ) (s : Session σ) (items : List Item) (later : Bytes) : Step σ → Prop
  | wait (s' : Session σ) (items' : List Item) (handled : List Event) (clean : Clean s')
      (fine : Fine items') (rest : s'.recvBuf ++ later = wires items')
      (waits : Waits s'.recvBuf items') (all : s'.handled = s.handled ++ handled)
      (serve : serveAll h s.world items = (serveAll h s'.world items').after handled) :
      Drained h s items later (.wait s')
  | ended (s' : Session σ) (handled : List Event) (all : s'.handled = s.handled ++ handled)
      (serve : serveAll h s.world items = ⟨s'.world, handled, true⟩) :
      Drained h s items later (.ended s')

theorem drain_spec {fuel : ℕ} (hs : Clean s) (hne : s.recvBuf ≠ []) (hfuel : s.recvBuf.length < fuel)
    (hfine : Fine items) (hbuf : s.recvBuf ++ later = wires items) :
    Drained h s items later (drain h fuel s) := by
  induction items generalizing s fuel with
  | nil => exact absurd (List.append_eq_nil_iff.mp hbuf).1 hne
  | cons item items ih =>
    cases fuel with
    | zero => cases hfuel
    | succ fuel =>
      obtain ⟨hclear, hlen⟩ := hfine item List.mem_cons_self
      have hfine' : Fine items := fun i hi ↦ hfine i (List.mem_cons_of_mem _ hi)
      rw [drain]
      rcases step_item hs hne hclear hlen hbuf with ⟨hshort, s', hstep, hidle⟩ | htakes
      · obtain ⟨hbuf', hworld, hhandled, hclean⟩ := hidle
        rw [hstep]
        refine .wait s' (item :: items) [] hclean hfine (hbuf'.symm ▸ hbuf) ?_ ?_ ?_
        · rw [Waits, hbuf']
          exact hshort
        · rw [hhandled, List.append_nil]
        · rw [hworld]
          rfl
      · generalize step h s = r at htakes
        cases htakes with
        | took s' handled le buf clean serve all =>
          have hbuf' : s'.recvBuf ++ later = wires items := by
            have hdrop := congrArg (List.drop item.wire.length) hbuf
            rw [List.drop_append_of_le_length le, wires, List.flatMap_cons, List.drop_left] at hdrop
            rw [buf]
            exact hdrop
          simp only
          split
          · rename_i hnil
            refine .wait s' items handled clean hfine' hbuf' ?_ all (serveAll_took serve items)
            rw [hnil]
            cases items with
            | nil => rfl
            | cons item' items => exact wire_pos item'
          · rename_i hne'
            have hlen' : s'.recvBuf.length < fuel := by
              have := wire_pos item
              rw [buf, List.length_drop]
              omega
            have hdrained : Drained h s' items later (drain h fuel s') := ih clean hne' hlen' hfine' hbuf'
            generalize drain h fuel s' = r at hdrained
            cases hdrained with
            | wait s'' items' handled' clean' fine rest waits all' serve' =>
              refine .wait s'' items' (handled ++ handled') clean' fine rest waits ?_ ?_
              · rw [all', all, List.append_assoc]
              · rw [serveAll_took serve, serve', after_after]
            | ended s'' handled' all' serve' =>
              refine .ended s'' (handled ++ handled') ?_ ?_
              · rw [all', all, List.append_assoc]
              · rw [serveAll_took serve, serve']
                rfl
        | ended s' handled serve all => exact .ended s' handled all (serveAll_ended serve items)

theorem drain_nil (fuel : ℕ) (hs : Clean s) (hbuf : s.recvBuf = []) :
    ∃ s', drain h (fuel + 1) s = .wait s' ∧ Idle s s' := by
  have hstep : step h s = stepRequest h s := by
    rw [step, hbuf]
    rfl
  rw [drain, hstep, stepRequest_eq, hbuf]
  refine ⟨_, rfl, hbuf.symm, rfl, rfl, ?_⟩
  rintro _ ⟨⟩
  exact (nextRequest_spec hs).2.2

/-- From a session that waits for the rest of an item, what is handled does not depend on
the pieces in which the rest is received. -/
theorem startRecvCoroutine_serves {pieces : List Bytes} (hs : Clean s) (hfine : Fine items)
    (hbuf : s.recvBuf ++ pieces.flatten = wires items) (hwaits : Waits s.recvBuf items) :
    startRecvCoroutine h pieces s = (serveAll h s.world items).after s.handled := by
  induction pieces generalizing s items with
  | nil =>
    rw [List.flatten_nil, List.append_nil] at hbuf
    cases items with
    | nil =>
      rw [serveAll, startRecvCoroutine, Outcome.after, List.append_nil]
      rfl
    | cons item items =>
      rw [Waits, hbuf, wires, List.flatMap_cons, List.length_append] at hwaits
      omega
  | cons piece pieces ih =>
    have hroom : s.recvBuf.length ≠ rtspMaxBuf := by
      cases items with
      | nil =>
        rw [show s.recvBuf = [] from hwaits]
        decide
      | cons item items => exact Nat.ne_of_lt (Nat.lt_of_lt_of_le hwaits (hfine item List.mem_cons_self).2)
    rw [startRecvCoroutine, if_neg hroom]
    rw [List.flatten_cons, ← List.append_assoc] at hbuf
    by_cases hnil : s.recvBuf ++ piece = []
    · obtain ⟨s', hdrain, hbuf', hworld, hhandled, hclean⟩ :=
        drain_nil (h := h) (s.recvBuf ++ piece).length (s := s.recv piece) hs hnil
      rw [hdrain]
      simp only
      have hempty : s'.recvBuf = s.recvBuf := by
        rw [hbuf', (List.append_eq_nil_iff.mp hnil).1]
        exact hnil
      rw [ih hclean hfine (by rw [hbuf']; exact hbuf) (by rw [hempty]; exact hwaits), hworld, hhandled]
      rfl
    · have hdrained : Drained h (s.recv piece) items pieces.flatten
          (drain h ((s.recvBuf ++ piece).length + 1) (s.recv piece)) :=
        drain_spec hs hnil (Nat.lt_succ_self _) hfine hbuf
      generalize drain h ((s.recvBuf ++ piece).length + 1) (s.recv piece) = r at hdrained
      cases hdrained with
      | wait s' items' handled clean fine rest waits all serve =>
        simp only
        rw [ih clean fine rest waits, all]
        change _ = (serveAll h (s.recv piece).world items).after s.handled
        rw [serve, after_after]
        rfl
      | ended s' handled all serve =>
        change _ = (serveAll h (s.recv piece).world items).after s.handled
        rw [serve]
        simp only [Session.outcome, all]
        rfl

end Run

/-- However the items are cut, the coroutine does with each what is to be done with it
alone, up to the first that ends the session. -/
theorem startRecvCoroutine_eq (h : Handlers σ) (world : σ) (items : List Item) (pieces : List Bytes)
    (hcut : pieces.flatten = items.flatMap Item.wire)
    (hlen : ∀ item ∈ items, item.wire.length ≤ rtspMaxBuf) (hclear : ∀ item ∈ items, item.Clear) :
    startRecvCoroutine h pieces { world } = serveAll h world items := by
  have hwaits : Waits [] items := by
    cases items with
    | nil => rfl
    | cons item items => exact wire_pos item
  exact startRecvCoroutine_serves (s := { world }) (clean_of_none rfl) (fun item hi ↦ ⟨hclear item hi, hlen item hi⟩)
    hcut hwaits

section Sample

def sampleOptions : Request where
  method := ascii "OPTIONS"
  uri := ascii "rtsp://mms/live/a"
  query := []
  version := ascii "1.0"
  headers := [(ascii "CSeq", ascii "2")]
  body := []
  method_without := by decide
  uri_without := by decide
  query_without := Http.RequestText.noQuery_without
  version_without := by decide
  version_ne := by decide
  headers_without := by decide
  unsized _ := rfl
  sized v hv := by
    have hnone : Http.RequestText.fieldsOf [(ascii "CSeq", ascii "2")] (ascii "Content-Length") = none := by
      decide
    cases hnone.symm.trans hv

/-- A publisher that sends video only, so that the payload type of the audio is still 0. -/
def videoOnly : Handlers Unit where
  isTcpTransport _ := true
  videoPt _ := 96
  audioPt _ := 0
  onRtspRequest w _ := (true, w)
  onRtspResponse w _ := w
  onVideoPackets w _ := w
  onAudioPackets w _ := w
  sendNotAcceptable w := w
  queueNotAcceptable w := (false, w)

/-- A packet that is cut behind its dollar sign, and a request that is cut in the name of
a header. -/
theorem frameAndOptions_eq :
    startRecvCoroutine videoOnly
        [[36], [0, 0, 12, 128, 96, 0, 1, 0, 0, 0, 0, 0, 0, 0, 1] ++ sampleOptions.wire.take 40,
          sampleOptions.wire.drop 40] { world := () } =
      serveAll videoOnly ()
        [.frame 0 [128, 96, 0, 1, 0, 0, 0, 0, 0, 0, 0, 1] (by decide), .request sampleOptions] := by
  refine startRecvCoroutine_eq videoOnly () _ _ (by decide) ?_ ?_
  · rw [List.forall_mem_cons, List.forall_mem_singleton]
    decide
  · rw [List.forall_mem_cons, List.forall_mem_singleton]
    exact ⟨fun _ ↦ by decide, by decide, by decide⟩

/-- The empty frame is taken for audio that cannot be decoded, if it is received alone. -/
theorem emptyFrame_ends :
    ¬ ∀ (h : Handlers Unit) (world : Unit) (items : List Item) (pieces : List Bytes),
      pieces.flatten = items.flatMap Item.wire →
      (∀ item ∈ items, item.wire.length ≤ rtspMaxBuf) →
      startRecvCoroutine h pieces { world } = serveAll h world items := by
  intro h
  have heq := h videoOnly () [.frame 0 [] (by decide), .request sampleOptions]
    [[36, 0, 0, 0], sampleOptions.wire] (by decide)
    (by rw [List.forall_mem_cons, List.forall_mem_singleton]; decide)
  exact absurd (congrArg Outcome.ended heq) (by decide)

end Sample

end MmsServer.Rtsp.RecvLoop
