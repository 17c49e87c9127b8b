import MmsServer.SdpFormat.Attributes

namespace MmsServer.SdpFormat.MediaSection

open Lib.ByteReader Lib.KeyedList Lib.Text Attributes

/-- What the program finds in memory that it has not written or that is no longer its own. -/
structure Garbage where
  portCount : BitVec 16
  currPt : BitVec 32
  ssrcId : BitVec 32
  view : Bytes → Bytes

structure MLine where
  media : Bytes
  port : BitVec 16
  portCount : BitVec 16
  proto : Bytes
  fmts : List (BitVec 16)
deriving DecidableEq

/-- A map from payload types is the list of its entries. The key of a payload is the
type that was current when the entry came up. -/
structure MediaSdp extends MLine where
  iceUfrag : Option Bytes := none
  icePwd : Option Bytes := none
  iceOption : Option Bytes := none
  candidates : List Candidate := []
  rtcpMux : Bool := false
  payloads : List (BitVec 32 × Payload) := []
  fingerprint : Option FingerPrint := none
  currPt : BitVec 32
  dir : Option MediaDir := none
  setup : Option Bytes := none
  maxPtime : Option (BitVec 32) := none
  control : Option Bytes := none
  extMaps : List Extmap := []
  connectionInfo : Option ConnectionInfo := none
  mid : Option Bytes := none
  ssrcGroup : Option SsrcGroup := none
  ssrcs : List (BitVec 32 × Ssrc) := []
  bw : BandWidth := {}

namespace MediaSdp

def pfx : Bytes := ascii "m="

/-- A new section, with the indeterminate members as memory has them. -/
def parse (mem : Garbage) (line : Bytes) : Option MediaSdp :=
  match Attributes.split 32 (validString pfx line) with
  | media :: sport :: proto :: fmts =>
    some {
      media
      port := BitVec.ofInt 16 (atoi ((Attributes.split 47 sport).headD []))
      portCount :=
        ((Attributes.split 47 sport)[1]?.map fun v ↦ BitVec.ofInt 16 (atoi v)).getD mem.portCount
      proto
      fmts := fmts.map fun v ↦ BitVec.ofInt 16 (atoi v)
      currPt := mem.currPt }
  | _ => none

/-- The payload under the current type, which is created where it is missing. -/
def currPayload (m : MediaSdp) : Payload := (m.payloads.lookup m.currPt).getD {}

def setCurrPayload (m : MediaSdp) (p : Payload) : MediaSdp :=
  { m with payloads := assign m.currPt p m.payloads }

def parseRtpmap (m : MediaSdp) (line : Bytes) : Bool × MediaSdp :=
  match Payload.parse line with
  | none => (false, m)
  | some p =>
    (true, { m with currPt := p.payloadType, payloads := insertNew p.payloadType p m.payloads })

/-- `0 != payload.parse(line)` holds where the payload has accepted the line. -/
def attach (m : MediaSdp) (res : Bool × Payload) : Bool × MediaSdp :=
  (!res.1, m.setCurrPayload res.2)

def parseSsrc (mem : Garbage) (m : MediaSdp) (line : Bytes) : Bool × MediaSdp :=
  let id := Ssrc.parseIdOnly line
  let (ok, ssrc) := Ssrc.parse ((m.ssrcs.lookup id).getD { id := mem.ssrcId }) line
  (ok, { m with ssrcs := assign id ssrc m.ssrcs })

def store {α : Type} (m : MediaSdp) (v : Option α) (set : α → MediaSdp) : Bool × MediaSdp :=
  match v with
  | none => (false, m)
  | some a => (true, set a)

def parseAttr (mem : Garbage) (m : MediaSdp) (line : Bytes) : Bool × MediaSdp :=
  if startsWith line Attributes.iceUfrag.pfx then
    (true, { m with iceUfrag := some (Attributes.iceUfrag.parse line) })
  else if startsWith line Attributes.icePwd.pfx then
    (true, { m with icePwd := some (Attributes.icePwd.parse line) })
  else if startsWith line Attributes.iceOption.pfx then
    -- the option is assigned to itself and not to the member
    (true, m)
  else if startsWith line Extmap.pfx then
    m.store (Extmap.parse line) fun e ↦ { m with extMaps := m.extMaps ++ [e] }
  else if DirAttr.isMyPrefix line then (true, { m with dir := some (DirAttr.parse line) })
  else if startsWith line ConnectionInfo.pfx then
    m.store (ConnectionInfo.parse line) fun c ↦ { m with connectionInfo := some c }
  else if startsWith line midAttr.pfx then (true, { m with mid := some (midAttr.parse line) })
  else if startsWith line BandWidth.pfx then
    m.store (BandWidth.parse (mem.view line)) fun b ↦ { m with bw := b }
  else if startsWith line Payload.pfx then m.parseRtpmap line
  else if startsWith line RtcpFb.pfx then m.attach (m.currPayload.parseRtcpFbAttr line)
  else if startsWith line Fmtp.pfx then m.attach (m.currPayload.parseFmtpAttr line)
  else if startsWith line MaxPTimeAttr.pfx then
    (true, { m with maxPtime := some (MaxPTimeAttr.parse line) })
  else if startsWith line Attributes.control.pfx then
    (true, { m with control := some (Attributes.control.parse line) })
  else if startsWith line Ssrc.pfx then m.parseSsrc mem line
  else if startsWith line setupAttr.pfx then (true, { m with setup := some (setupAttr.parse line) })
  else if startsWith line SsrcGroup.pfx then
    m.store (SsrcGroup.parse line) fun g ↦ { m with ssrcGroup := some g }
  else (true, m)

/-- The lines behind the `m=` line, with what memory holds at each of them. -/
def parseAttrs (mem : ℕ → Garbage) : ℕ → MediaSdp → List Bytes → MediaSdp
  | _, m, [] => m
  | i, m, line :: lines => parseAttrs mem (i + 1) (m.parseAttr (mem i) line).2 lines

/-- Every type but the last is followed by a space of its own. -/
def fmtsText : List (BitVec 16) → Bytes
  | [] => []
  | [f] => ascii " " ++ decimal f.toNat
  | f :: fs => ascii " " ++ decimal f.toNat ++ ascii " " ++ fmtsText fs

def printed {α : Type} (v : Option α) (f : α → Bytes) : Bytes := (v.map f).getD []

def toString (m : MediaSdp) : Bytes :=
  pfx ++ m.media ++ ascii " " ++ decimal m.port.toNat ++ ascii " " ++ m.proto ++
    fmtsText m.fmts ++ endl ++
    printed m.connectionInfo ConnectionInfo.toString ++
    printed m.iceUfrag Attributes.iceUfrag.toString ++ printed m.icePwd Attributes.icePwd.toString ++
    printed m.iceOption Attributes.iceOption.toString ++ m.candidates.flatMap Candidate.toString ++
    (if m.rtcpMux then RtcpMux.toString else []) ++
    (m.payloads.flatMap fun e ↦ e.2.toString) ++ printed m.dir DirAttr.toString ++
    printed m.setup setupAttr.toString ++ printed m.mid midAttr.toString ++
    printed m.fingerprint FingerPrint.toString ++ printed m.control Attributes.control.toString ++
    printed m.ssrcGroup SsrcGroup.toString ++ m.ssrcs.flatMap fun e ↦ e.2.toString

section Frame

variable {β : Type} {mem : Garbage} {m : MediaSdp} {line : Bytes}

theorem ite_frame {c : Prop} [Decidable c] {f : MediaSdp → β} {a b : Bool × MediaSdp} {v : β}
    (ha : f a.2 = v) (hb : f b.2 = v) : f (if c then a else b).2 = v := by
  split
  · exact ha
  · exact hb

theorem store_frame {α : Type} {v : Option α} {set : α → MediaSdp} (f : MediaSdp → β)
    (h : ∀ a, f (set a) = f m) : f (m.store v set).2 = f m := by
  cases v with
  | none => rfl
  | some a => exact h a

/-- No attribute changes what the `m=` line has said. -/
theorem parseAttr_toMLine : (m.parseAttr mem line).2.toMLine = m.toMLine := by
  have hmap : (m.parseRtpmap line).2.toMLine = m.toMLine := by
    rw [parseRtpmap]
    split
    · rfl
    · rfl
  rw [parseAttr]
  repeat' apply ite_frame
  all_goals first
    | rfl
    | exact hmap
    | exact store_frame toMLine fun _ ↦ rfl

end Frame

end MediaSdp

end MmsServer.SdpFormat.MediaSection
