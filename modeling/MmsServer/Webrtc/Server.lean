import MmsServer.Lib.MirrorMap
import MmsServer.Stun.Msg
import Mathlib.Logic.Relation

namespace MmsServer.Webrtc.Server

open Function Lib.ByteReader Lib.Checked Lib.MirrorMap Stun.Attr Stun.Msg

/-- A peer over IPv4. -/
structure Endpoint where
  address : BitVec 32
  port : BitVec 16
deriving DecidableEq

def getEndpointHash (ep : Endpoint) : BitVec 64 :=
  ep.address.setWidth 64 <<< 32 ||| ep.port.setWidth 64

inductive UdpMsgType
  | unknown
  | stun
  | zrtp
  | dtls
  | turn
  | rtp
deriving DecidableEq

/-- The first byte is read whatever the length is. -/
def detectMsgType : Bytes → Outcome UdpMsgType
  | [] => .fault .overread
  | b :: _ =>
    if b ≤ 3 then .ok .stun
    else if 16 ≤ b ∧ b ≤ 19 then .ok .zrtp
    else if 20 ≤ b ∧ b ≤ 63 then .ok .dtls
    else if 64 ≤ b ∧ b ≤ 79 then .ok .turn
    else if 128 ≤ b ∧ b ≤ 191 then .ok .rtp
    else .ok .unknown

structure WebRtcServerSession where
  localIceUfrag : Bytes
  localIcePwd : Bytes
  remoteIceUfrag : Bytes := []
  closed : Bool := false
deriving DecidableEq

namespace WebRtcServerSession

/-- The fresh bytes of the buffer are taken as zero: they are padding. Whether
the socket has sent the response is `sent`. -/
def processStunBindingReq (D : Digests) (session : WebRtcServerSession) (stunMsg : StunMsg)
    (remoteEp : Endpoint) (sent : Bool) : Outcome ℤ :=
  match stunMsg.usernameAttr with
  | none => .ok (-1)
  | some username =>
    if username.localUserName = [] then .ok (-2)
    else if username.remoteUserName = [] then .ok (-3)
    else if username.remoteUserName ≠ session.remoteIceUfrag then .ok (-4)
    else
      let bindingResp : StunMsg :=
        { header :=
            { type := STUN_BINDING_RESPONSE, transactionId := stunMsg.header.transactionId }
          attrs := [.mappedAddress ⟨1, remoteEp.port, remoteEp.address⟩]
          usernameAttr := some ⟨username.localUserName, username.remoteUserName⟩ }
      let data := List.replicate (bindingResp.size true true) 0
      match bindingResp.encode D data true session.localIcePwd true with
      | .fault f => .fault f
      | .err _ => .ok (-5)
      | .ok _ => .ok (if sent then 0 else -6)

def processStunPacket (D : Digests) (session : WebRtcServerSession) (stunMsg : StunMsg)
    (data : Bytes) (remoteEp : Endpoint) (sent : Bool) : Outcome Bool := do
  let (integrity, data) ← stunMsg.checkMsgIntegrity D data session.localIcePwd
  if integrity = false then return false
  let fingerprint ← stunMsg.checkFingerPrint D data
  if fingerprint = false then return false
  if stunMsg.header.type = STUN_BINDING_REQUEST then
    let ret ← session.processStunBindingReq D stunMsg remoteEp sent
    return ret = 0
  else return false

end WebRtcServerSession

structure Binding where
  remoteEp : Endpoint
  session : ℕ
  localUserName : Bytes
deriving DecidableEq

/-- Sessions are told apart by their address. `accepted` records the requests
that `process_stun_packet` of a session has answered with true. -/
structure WebRtcServer where
  sessions : ℕ → Option WebRtcServerSession := fun _ ↦ none
  ufragSessionMap : Bytes → Option ℕ := fun _ ↦ none
  endpointSessionMap : BitVec 64 → Option ℕ := fun _ ↦ none
  sessionEndpointMap : List (ℕ × BitVec 64) := []
  accepted : List Binding := []

namespace WebRtcServer

/-- The part of `on_whip` and `on_whep` that concerns the maps. The session has
drawn its name and its password. -/
def onWhip (server : WebRtcServer) (s : ℕ) (ufrag pwd : Bytes) : WebRtcServer :=
  { server with
    sessions := update server.sessions s (some { localIceUfrag := ufrag, localIcePwd := pwd })
    ufragSessionMap := insertNew server.ufragSessionMap ufrag s }

def findSession (server : WebRtcServer) (stunMsg : StunMsg) : Option (ℕ × Bytes) :=
  match stunMsg.usernameAttr with
  | none => none
  | some username =>
    if username.localUserName = [] then none
    else (server.ufragSessionMap username.localUserName).map (·, username.localUserName)

def bindEndpoint (server : WebRtcServer) (s : ℕ) (remoteEp : Endpoint) : WebRtcServer :=
  { server with
    endpointSessionMap := insertNew server.endpointSessionMap (getEndpointHash remoteEp) s
    sessionEndpointMap := (s, getEndpointHash remoteEp) :: server.sessionEndpointMap }

def processStunPacket (D : Digests) (server : WebRtcServer) (stunMsg : StunMsg) (data : Bytes)
    (remoteEp : Endpoint) (sent : Bool) : Outcome (WebRtcServer × Bool) :=
  match server.findSession stunMsg with
  | none => .ok (server, false)
  | some (s, localUserName) =>
    match server.sessions s with
    | none => .fault .nullDeref
    | some session => do
      let bound := server.bindEndpoint s remoteEp
      let ret ← session.processStunPacket D stunMsg data remoteEp sent
      if ret then
        return ({ bound with accepted := ⟨remoteEp, s, localUserName⟩ :: bound.accepted }, true)
      else return (bound, false)

/-- A datagram of another type goes to the session of the endpoint and leaves
the maps alone. There is no result while `StunMsg.decode` is running. -/
def onUdpSocketRecv (D : Digests) (server : WebRtcServer) (fuel : ℕ) (data : Bytes)
    (remoteEp : Endpoint) (sent : Bool) : Option (Outcome WebRtcServer) :=
  match detectMsgType data with
  | .ok .stun =>
    (StunMsg.decode fuel data).map fun
      | .ok stunMsg => return (← server.processStunPacket D stunMsg data remoteEp sent).1
      | .err _ => .ok server
      | .fault f => .fault f
  | .ok _ => some (.ok server)
  | .err code => some (.err code)
  | .fault f => some (.fault f)

def setRemoteIceUfrag (server : WebRtcServer) (s : ℕ) (session : WebRtcServerSession)
    (ufrag : Bytes) : WebRtcServer :=
  { server with
    sessions := update server.sessions s (some { session with remoteIceUfrag := ufrag }) }

def onWebrtcSessionClose (server : WebRtcServer) (s : ℕ) (session : WebRtcServerSession) :
    WebRtcServer :=
  { server with
    sessions := update server.sessions s (some { session with closed := true })
    ufragSessionMap := erase server.ufragSessionMap session.localIceUfrag
    endpointSessionMap :=
      eraseAll server.endpointSessionMap (keysOf server.sessionEndpointMap s)
    sessionEndpointMap := server.sessionEndpointMap.filter (·.1 ≠ s) }

end WebRtcServer

inductive Event
  | whip (s : ℕ) (ufrag pwd : Bytes)
  | sdp (s : ℕ) (ufrag : Bytes)
  | recv (fuel : ℕ) (data : Bytes) (remoteEp : Endpoint) (sent : Bool)
  | close (s : ℕ)

/-- An event of a server that goes on running. A session has a new address, and
its `stop` has an effect once. -/
inductive Step (D : Digests) (server : WebRtcServer) : Event → WebRtcServer → Prop
  | whip {s : ℕ} {ufrag pwd : Bytes} (hs : server.sessions s = none) :
      Step D server (.whip s ufrag pwd) (server.onWhip s ufrag pwd)
  | sdp {s : ℕ} {session : WebRtcServerSession} {ufrag : Bytes}
      (hs : server.sessions s = some session) :
      Step D server (.sdp s ufrag) (server.setRemoteIceUfrag s session ufrag)
  | recv {fuel : ℕ} {data : Bytes} {remoteEp : Endpoint} {sent : Bool} {server' : WebRtcServer}
      (h : server.onUdpSocketRecv D fuel data remoteEp sent = some (.ok server')) :
      Step D server (.recv fuel data remoteEp sent) server'
  | close {s : ℕ} {session : WebRtcServerSession} (hs : server.sessions s = some session)
      (hc : session.closed = false) :
      Step D server (.close s) (server.onWebrtcSessionClose s session)

end MmsServer.Webrtc.Server
