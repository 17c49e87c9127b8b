import MmsServer.Lib.Find
import MmsServer.Lib.KeyedList
import MmsServer.Lib.Text

namespace MmsServer.SdpFormat.Attributes

open Lib.ByteReader Lib.Find Lib.KeyedList Lib.Text

def endl : Bytes := [10]

/-- The text up to its last `\r`, and without its last letter where there is none. -/
def chop (s : Bytes) : Bytes :=
  if 13 ∈ s then ((s.reverse.dropWhile (· != 13)).drop 1).reverse else s.dropLast

def validString (pfx line : Bytes) : Bytes := chop (line.drop pfx.length)

def split (sep : UInt8) (s : Bytes) : List Bytes := s.splitOn sep

structure TextAttr where
  pfx : Bytes

def TextAttr.parse (a : TextAttr) (line : Bytes) : Bytes := validString a.pfx line

def TextAttr.toString (a : TextAttr) (v : Bytes) : Bytes := a.pfx ++ v ++ endl

def sessionName : TextAttr := ⟨ascii "s="⟩

def uri : TextAttr := ⟨ascii "u="⟩

def emailAddress : TextAttr := ⟨ascii "e="⟩

def phone : TextAttr := ⟨ascii "p="⟩

def sessionInformation : TextAttr := ⟨ascii "i="⟩

def toolAttr : TextAttr := ⟨ascii "a=tool:"⟩

def iceUfrag : TextAttr := ⟨ascii "a=ice-ufrag:"⟩

def icePwd : TextAttr := ⟨ascii "a=ice-pwd:"⟩

def iceOption : TextAttr := ⟨ascii "a=ice-options:"⟩

def midAttr : TextAttr := ⟨ascii "a=mid:"⟩

def setupAttr : TextAttr := ⟨ascii "a=setup:"⟩

def control : TextAttr := ⟨ascii "a=control:"⟩

namespace ProtocolVersion

def pfx : Bytes := ascii "v="

def parse (line : Bytes) : Option (BitVec 32) :=
  (stoi 10 (validString pfx line)).map (BitVec.ofInt 32)

def toString (version : BitVec 32) : Bytes := pfx ++ decimalInt version.toInt ++ endl

end ProtocolVersion

structure Origin where
  username : Bytes := []
  sessionId : BitVec 64
  sessionVersion : BitVec 32
  nettype : Bytes := []
  addrtype : Bytes := []
  unicastAddress : Bytes := []
deriving DecidableEq

namespace Origin

def pfx : Bytes := ascii "o="

def parse (line : Bytes) : Option Origin :=
  match split 32 (validString pfx line) with
  | [username, sessionId, sessionVersion, nettype, addrtype, unicastAddress] =>
    some {
      username
      sessionId := BitVec.ofInt 64 (atoll sessionId)
      sessionVersion := BitVec.ofInt 32 (atoi sessionVersion)
      nettype
      addrtype
      unicastAddress }
  | _ => none

def toString (o : Origin) : Bytes :=
  pfx ++ o.username ++ ascii " " ++ decimal o.sessionId.toNat ++ ascii " " ++
    decimal o.sessionVersion.toNat ++ ascii " " ++ o.nettype ++ ascii " " ++ o.addrtype ++
    ascii " " ++ o.unicastAddress ++ endl

end Origin

structure Timing where
  startTime : BitVec 64 := 0
  stopTime : BitVec 64 := 0
deriving DecidableEq

namespace Timing

def pfx : Bytes := ascii "t="

def parse (line : Bytes) : Option Timing :=
  match split 32 (validString pfx line) with
  | [start, stop] => some ⟨BitVec.ofInt 64 (atoll start), BitVec.ofInt 64 (atoll stop)⟩
  | _ => none

def toString (t : Timing) : Bytes :=
  pfx ++ decimal t.startTime.toNat ++ ascii " " ++ decimal t.stopTime.toNat ++ endl

end Timing

structure ConnectionInfo where
  nettype : Bytes
  addrtype : Bytes
  connectionAddress : Bytes
  ttl : BitVec 32 := 0
  numOfAddr : BitVec 32 := 1
deriving DecidableEq

namespace ConnectionInfo

def pfx : Bytes := ascii "c="

def parse (line : Bytes) : Option ConnectionInfo :=
  match split 32 (validString pfx line) with
  | [nettype, addrtype, addr] =>
    let vs := split 47 addr
    some {
      nettype
      addrtype
      connectionAddress := vs.headD []
      ttl := (vs[1]?.map fun v ↦ BitVec.ofInt 32 (atoi v)).getD 0
      numOfAddr := (vs[2]?.map fun v ↦ BitVec.ofInt 32 (atoi v)).getD 1 }
  | _ => none

def toString (c : ConnectionInfo) : Bytes :=
  pfx ++ c.nettype ++ ascii " " ++ c.addrtype ++ ascii " " ++ c.connectionAddress ++
    (if 1 < c.numOfAddr.toInt then
      ascii "/" ++ decimalInt c.ttl.toInt ++ ascii "/" ++ decimalInt c.numOfAddr.toInt
    else []) ++ endl

end ConnectionInfo

structure BundleAttr where
  first : Bytes
  second : Bytes
deriving DecidableEq

namespace BundleAttr

def pfx : Bytes := ascii "a=group:BUNDLE "

def parse (line : Bytes) : Option BundleAttr :=
  match split 32 (validString pfx line) with
  | [first, second] => some ⟨first, second⟩
  | _ => none

def toString (b : BundleAttr) : Bytes := pfx ++ b.first ++ ascii " " ++ b.second ++ endl

end BundleAttr

inductive MediaDir
  | sendonly
  | recvonly
  | sendrecv
deriving DecidableEq

namespace DirAttr

def isMyPrefix (line : Bytes) : Bool :=
  startsWith line (ascii "a=recvonly") || startsWith line (ascii "a=sendonly") ||
    startsWith line (ascii "a=sendrecv")

/-- On a line that has passed `isMyPrefix`. -/
def parse (line : Bytes) : MediaDir :=
  if startsWith line (ascii "a=recvonly") then .recvonly
  else if startsWith line (ascii "a=sendonly") then .sendonly
  else .sendrecv

def toString : MediaDir → Bytes
  | .recvonly => ascii "a=recvonly" ++ endl
  | .sendonly => ascii "a=sendonly" ++ endl
  | .sendrecv => ascii "a=sendrecv" ++ endl

end DirAttr

namespace MaxPTimeAttr

def pfx : Bytes := ascii "a=maxptime:"

def parse (line : Bytes) : BitVec 32 := BitVec.ofInt 32 (atoi (validString pfx line))

end MaxPTimeAttr

structure FingerPrint where
  hashName : Bytes
  hashVal : Bytes
deriving DecidableEq

def FingerPrint.toString (f : FingerPrint) : Bytes :=
  ascii "a=fingerprint:" ++ f.hashName ++ ascii " " ++ f.hashVal ++ endl

def RtcpMux.toString : Bytes := ascii "a=rtcp-mux" ++ endl

structure BandWidth where
  bwType : Bytes := []
  bandwidth : BitVec 32 := 0
deriving DecidableEq

namespace BandWidth

def pfx : Bytes := ascii "b="

/-- `view` is what the view of the line shows, after the string behind it is gone. -/
def parse (view : Bytes) : Option BandWidth :=
  (find (ascii ":") view).map fun pos ↦
    ⟨view.take pos, BitVec.ofInt 32 (atoi (view.drop (pos + 1)))⟩

end BandWidth

structure Extmap where
  value : Bytes
  direction : Bytes
  uri : Bytes
deriving DecidableEq

namespace Extmap

def pfx : Bytes := ascii "a=extmap:"

def parse (line : Bytes) : Option Extmap :=
  match split 32 (validString pfx line) with
  | first :: uri :: _ =>
    match split 47 first with
    | [value, direction] => some ⟨value, direction, uri⟩
    | vs => some ⟨vs.headD [], [], uri⟩
  | _ => none

end Extmap

structure Ssrc where
  id : BitVec 32
  cname : Bytes := []
  mslabel : Bytes := []
  label : Bytes := []
deriving DecidableEq

namespace Ssrc

def pfx : Bytes := ascii "a=ssrc:"

/-- The number is kept also where an `msid` lacks its second name. -/
def parse (s : Ssrc) (line : Bytes) : Bool × Ssrc :=
  match split 32 (validString pfx line) with
  | id :: v :: vs =>
    let s := { s with id := BitVec.ofInt 32 (atoi id) }
    if startsWith v (ascii "cname:") then (true, { s with cname := v.drop 6 })
    else if startsWith v (ascii "mslabel:") then (true, { s with mslabel := v.drop 8 })
    else if startsWith v (ascii "label:") then (true, { s with label := v.drop 6 })
    else if startsWith v (ascii "msid:") then
      match vs with
      | [] => (false, s)
      | label :: _ => (true, { s with mslabel := v.drop 5, label })
    else (true, s)
  | _ => (false, s)

def parseIdOnly (line : Bytes) : BitVec 32 :=
  match split 32 (validString pfx line) with
  | id :: _ :: _ => BitVec.ofInt 32 (atoi id)
  | _ => 0

def toString (s : Ssrc) : Bytes :=
  let id := decimal s.id.toNat
  pfx ++ id ++ ascii " cname:" ++ s.cname ++ endl ++
    (pfx ++ id ++ ascii " msid:" ++ s.mslabel ++ ascii " " ++ s.label ++ endl) ++
    (pfx ++ id ++ ascii " mslabel:" ++ s.mslabel ++ endl) ++
    (pfx ++ id ++ ascii " label:" ++ s.label ++ endl)

end Ssrc

/-- The streams of a group are known by their numbers only. -/
structure SsrcGroup where
  semantics : Bytes
  ssrcs : List (BitVec 32)
deriving DecidableEq

namespace SsrcGroup

def pfx : Bytes := ascii "a=ssrc-group:"

def parse (line : Bytes) : Option SsrcGroup :=
  match split 32 (validString pfx line) with
  | semantics :: v :: vs =>
    some ⟨semantics, ((v :: vs).map fun v ↦ BitVec.ofInt 32 (atoi v)).dedup⟩
  | _ => none

def toString (g : SsrcGroup) : Bytes :=
  pfx ++ g.semantics ++ ascii " " ++
    (ascii " ").intercalate (g.ssrcs.map fun id ↦ decimal id.toNat) ++ endl

end SsrcGroup

inductive CandidateType
  | host
  | srflx
  | prflx
  | relay
deriving DecidableEq

structure Candidate where
  foundation : Bytes
  componentId : BitVec 32
  transport : Bytes
  priority : BitVec 32
  address : Bytes
  port : BitVec 16
  candType : CandidateType
  relAddr : Bytes := []
  relPort : BitVec 16 := 0
  exts : List (Bytes × Bytes) := []
deriving DecidableEq

def CandidateType.name : CandidateType → Bytes
  | .host => ascii "host"
  | .srflx => ascii "srflx"
  | .prflx => ascii "prflx"
  | .relay => ascii "relay"

def Candidate.toString (c : Candidate) : Bytes :=
  ascii "a=candidate:" ++ c.foundation ++ ascii " " ++ decimal c.componentId.toNat ++ ascii " " ++
    c.transport ++ ascii " " ++ decimal c.priority.toNat ++ ascii " " ++ c.address ++ ascii " " ++
    decimal c.port.toNat ++ ascii " typ " ++ c.candType.name ++
    (if c.candType = .srflx then ascii " " ++ c.relAddr ++ ascii " " ++ decimal c.relPort.toNat
    else []) ++
    (c.exts.flatMap fun e ↦ ascii " " ++ e.1 ++ ascii " " ++ e.2) ++ endl

/-- A line for all payload types, which the text gives as `*`, has the number -1. -/
structure RtcpFb where
  pt : BitVec 32
  fbVal : Bytes
  fbParam : Bytes := []
deriving DecidableEq

namespace RtcpFb

def pfx : Bytes := ascii "a=rtcp-fb:"

def parse (line : Bytes) : Option RtcpFb :=
  match split 32 (validString pfx line) with
  | pt :: fbVal :: vs =>
    some {
      pt := if pt = ascii "*" then -1 else BitVec.ofInt 32 (atoi pt)
      fbVal
      fbParam := vs.headD [] }
  | _ => none

def toString (f : RtcpFb) : Bytes :=
  pfx ++ (if f.pt = -1 then ascii "*" else decimalInt f.pt.toInt) ++ ascii " " ++ f.fbVal ++
    (if f.fbParam = [] then [] else ascii " " ++ f.fbParam) ++ endl

end RtcpFb

structure Fmtp where
  pt : BitVec 32
  fmtParams : List (Bytes × Bytes) := []
deriving DecidableEq

namespace Fmtp

def pfx : Bytes := ascii "a=fmtp:"

def parseParam (params : List (Bytes × Bytes)) (s : Bytes) : Option (List (Bytes × Bytes)) :=
  (find (ascii "=") (trim s)).map fun pos ↦
    assign ((trim s).take pos) ((trim s).drop (pos + 1)) params

def parse (line : Bytes) : Option Fmtp :=
  let s := validString pfx line
  match find (ascii " ") s with
  | none => none
  | some pos =>
    ((split 59 (s.drop (pos + 1))).foldlM parseParam []).map fun fmtParams ↦
      ⟨BitVec.ofInt 32 (atoi (s.take pos)), fmtParams⟩

def toString (f : Fmtp) : Bytes :=
  pfx ++ decimal f.pt.toNat ++ ascii " " ++
    (ascii "; ").intercalate (f.fmtParams.map fun p ↦ p.1 ++ ascii "=" ++ p.2) ++ endl

end Fmtp

structure Payload where
  payloadType : BitVec 32 := 0
  encodingName : Bytes := []
  clockRate : BitVec 32 := 0
  encodingParams : List Bytes := []
  rtcpFbs : List RtcpFb := []
  fmtps : List (BitVec 32 × Fmtp) := []
deriving DecidableEq

namespace Payload

def pfx : Bytes := ascii "a=rtpmap:"

def parse (line : Bytes) : Option Payload :=
  match split 32 (validString pfx line) with
  | pt :: v :: _ =>
    match split 47 v with
    | name :: rate :: encodingParams =>
      some {
        payloadType := BitVec.ofInt 32 (atoi pt)
        encodingName := toUpper name
        clockRate := BitVec.ofInt 32 (atoi rate)
        encodingParams }
    | _ => none
  | _ => none

def parseRtcpFbAttr (p : Payload) (line : Bytes) : Bool × Payload :=
  match RtcpFb.parse line with
  | none => (false, p)
  | some fb => (true, { p with rtcpFbs := p.rtcpFbs ++ [fb] })

def parseFmtpAttr (p : Payload) (line : Bytes) : Bool × Payload :=
  match Fmtp.parse line with
  | none => (false, p)
  | some fmtp => (true, { p with fmtps := insertNew fmtp.pt fmtp p.fmtps })

def toString (p : Payload) : Bytes :=
  pfx ++ decimal p.payloadType.toNat ++ ascii " " ++ p.encodingName ++ ascii "/" ++
    decimal p.clockRate.toNat ++
    (if p.encodingParams = [] then []
    else ascii "/" ++ (ascii "/").intercalate p.encodingParams) ++ endl ++
    p.rtcpFbs.flatMap RtcpFb.toString ++ p.fmtps.flatMap fun e ↦ e.2.toString

end Payload

end MmsServer.SdpFormat.Attributes
