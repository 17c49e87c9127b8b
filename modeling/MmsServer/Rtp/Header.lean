import MmsServer.Lib.ByteLayout

namespace MmsServer.Rtp.Header

open Lib.ByteReader Lib.ByteLayout

structure RtpHeaderExtention where
  profile : ℕ
  length : ℕ
  headerExtension : Bytes

structure RtpHeader where
  csrc : ℕ
  extension : ℕ
  padding : ℕ
  version : ℕ
  marker : ℕ
  pt : ℕ
  seqnum : ℕ
  timestamp : ℕ
  ssrc : ℕ
  csrcs : List ℕ
  rtpHeaderExtention : Option RtpHeaderExtention

structure RtpPacket where
  header : RtpHeader
  payload : Bytes

/-- The data of the extension is copied and not consumed. -/
def RtpHeaderExtention.decode : Reader RtpHeaderExtention := do
  let profile ← readBE 2
  let length ← readBE 2
  fun data ↦
    if data.length < length * 4 then none
    else some (⟨profile, length, data.take (length * 4)⟩, data)

def RtpHeader.decode : Reader RtpHeader := do
  let v1 ← readBE 1
  let v2 ← readBE 1
  let seqnum ← readBE 2
  let timestamp ← readBE 4
  let ssrc ← readBE 4
  let csrcs ← Layout.readMany (readBE 4) (v1 % 16)
  let rtpHeaderExtention ←
    if v1 / 16 % 2 = 1 then some <$> RtpHeaderExtention.decode else pure none
  return {
    csrc := v1 % 16, extension := v1 / 16 % 2, padding := v1 / 32 % 2, version := v1 / 64 % 4
    marker := v2 / 128 % 2, pt := v2 % 128, seqnum, timestamp, ssrc, csrcs, rtpHeaderExtention }

def RtpPacket.decodeAndStore (data : Bytes) : Option RtpPacket :=
  (RtpHeader.decode data).map fun (header, payload) ↦ { header, payload }

end MmsServer.Rtp.Header
