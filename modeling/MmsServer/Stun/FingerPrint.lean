import MmsServer.Base.Crc32
import MmsServer.Stun.RoundTrip

namespace MmsServer.Stun.FingerPrint

open Lib.ByteReader Lib.Checked Lib.CheckedLoop Lib.Crc Base.Crc32 Stun.Attr Stun.Msg Stun.AttrSpan
  Stun.DecodeSafety Stun.Integrity Stun.RoundTrip

/-- The checksum is computed by the server itself. -/
def withCrc32 (D : Digests) : Digests := { D with crc32 := getCrc32 }

theorem getCrc32_burst {buf buf' : Bytes} (hb : buf ≠ []) (hb' : buf' ≠ [])
    (h : BurstError 32 (buf.flatMap bitsLsb) (buf'.flatMap bitsLsb)) :
    getCrc32 buf ≠ getCrc32 buf' := by
  intro heq
  apply burst_detected (c := 0xffffffff) generator_low h
  rw [← getCrc32_eq hb, ← getCrc32_eq hb', heq]

/-- What has been decoded behind the MESSAGE-INTEGRITY is decoded from the rest. -/
theorem decode_tail {fuel : ℕ} {data rest : Bytes} {msg : StunMsg}
    (hdec : StunMsg.decode fuel data = some (.ok msg)) (hw : Walk (data.drop 20) rest)
    (hf : Front .messageIntegrity rest) :
    ∃ msg', StunMsg.decodeTail (msg', rest.drop 24) = .ok msg := by
  cases hh : StunMsgHeader.decode data with
  | err code =>
    rw [StunMsg.decode, hh] at hdec
    cases hdec
  | fault f => exact absurd hh (header_decode_ne_fault data f)
  | ok header =>
    obtain ⟨msg', hr, -⟩ := walk_reaches { header } rfl hw
    obtain ⟨fuel', ho⟩ := hr.run_inr (decodeRound_integrity msg' hf)
    rw [decode_eq hh, Option.map_eq_some_iff] at hdec
    obtain ⟨o, hrun, ht⟩ := hdec
    rw [run_unique hrun ho, Outcome.ok_bind] at ht
    exact ⟨_, ht⟩

/-- A message with a FINGERPRINT ends in the checksum of what is in front of it. -/
theorem encode_fingerprint {D : Digests} {msg : StunMsg} {buf pwd bytes : Bytes} {mi : Bool}
    (h : msg.encode D buf mi pwd true = .ok bytes) :
    ∃ written, 20 ≤ written.length ∧ bytes = written ++
      attrBytes .fingerprint (putBE 4 (StunFingerPrintAttr.digest D written).toNat) := by
  obtain ⟨header, hh, h⟩ := Outcome.bind_eq_ok.mp h
  obtain ⟨username, -, h⟩ := Outcome.bind_eq_ok.mp h
  obtain ⟨attrs, -, h⟩ := Outcome.bind_eq_ok.mp h
  obtain ⟨integrity, -, h⟩ := Outcome.bind_eq_ok.mp h
  obtain ⟨fingerprint, hf, h⟩ := Outcome.bind_eq_ok.mp h
  obtain ⟨-, rfl⟩ := header_encode_eq_ok.mp (Outcome.orReturn_eq_ok.mp hh)
  obtain ⟨-, rfl⟩ := encodeValue_eq_ok.mp (Outcome.orReturn_eq_ok.mp hf)
  cases h
  refine ⟨_, ?_, rfl⟩
  simp only [List.length_append, headerBytes_length]
  omega

/-- A message whose bytes in front of the FINGERPRINT are damaged within 32 consecutive
bits, and that still decodes with the FINGERPRINT as its last attribute, is refused. -/
theorem damage_refused (D : Digests) (msg : StunMsg) (buf pwd : Bytes) (mi : Bool) (bytes : Bytes)
    (henc : msg.encode (withCrc32 D) buf mi pwd true = .ok bytes) (damaged : Bytes)
    (hlen : damaged.length = bytes.length)
    (hend : damaged.drop (bytes.length - 8) = bytes.drop (bytes.length - 8))
    (hburst : BurstError 32 ((bytes.take (bytes.length - 8)).flatMap bitsLsb)
      ((damaged.take (bytes.length - 8)).flatMap bitsLsb))
    (fuel : ℕ) (msg' : StunMsg) (hdec : StunMsg.decode fuel damaged = some (.ok msg'))
    (rest : Bytes) (hw : Walk (damaged.drop 20) rest) (hf : Front .messageIntegrity rest)
    (hrest : rest.length = 32) :
    msg'.checkFingerPrint (withCrc32 D) damaged = .ok false := by
  obtain ⟨written, h20, rfl⟩ := encode_fingerprint henc
  set attr := attrBytes .fingerprint
    (putBE 4 (StunFingerPrintAttr.digest (withCrc32 D) written).toNat) with hattr
  have hattrLen : attr.length = 8 := by rw [hattr, attrBytes_length, putBE_length]
  have hl : (written ++ attr).length - 8 = written.length := by
    rw [List.length_append]
    omega
  rw [hl, List.drop_left] at hend
  rw [hl, List.take_left] at hburst
  have hdamaged : damaged.length - 8 = written.length := by rw [hlen, hl]
  have htail : rest.drop 24 = attr := by
    obtain ⟨front, hfront⟩ := (Integrity.walk_suffix hw).trans (List.drop_suffix 20 damaged)
    have hsplit : damaged.drop (damaged.length - 8) = rest.drop 24 := by
      rw [← hfront, List.length_append, hrest, List.drop_append, List.drop_of_length_le (by omega),
        List.nil_append, show front.length + 32 - 8 - front.length = 24 by omega]
    rw [← hsplit, hdamaged, hend]
  obtain ⟨m, ht⟩ := decode_tail hdec hw hf
  rw [htail, hattr, decodeTail_fingerprint] at ht
  cases ht
  have hne := getCrc32_burst (List.ne_nil_of_length_pos (by omega))
    (List.ne_nil_of_length_pos (by rw [List.length_take]; omega)) hburst
  rw [StunMsg.checkFingerPrint]
  simp only
  rw [if_neg (by omega), hdamaged]
  congr 1
  rw [beq_eq_false_iff_ne]
  intro heq
  apply hne
  have hx := congrArg (· ^^^ 0x5354554e#32) heq
  simp only [StunFingerPrintAttr.digest, BitVec.xor_assoc, BitVec.xor_self, BitVec.xor_zero] at hx
  exact hx

def binding : StunMsg := { header := sampleMsg.header }

/-- A binding request whose transaction id begins with `b`, with the digests of the one
that begins with 0. -/
def bindingBytes (b : UInt8) : Bytes :=
  [0, 1, 0, 32, 0x21, 0x12, 0xa4, 0x42] ++ b :: List.replicate 11 0 ++
    attrBytes .messageIntegrity sampleHmac ++ attrBytes .fingerprint [0x27, 0x9b, 0x00, 0x8c]

def damagedMsg : StunMsg :=
  { header := { type := STUN_BINDING_REQUEST, transactionId := BitVec.ofNat 96 (2 ^ 88) }
    msgIntegrityAttr := some sampleHmac
    fingerprintAttr := some 0x279b008c#32 }

theorem damage_refused_oneBit :
    StunMsg.encode (withCrc32 sampleDigests) binding (List.replicate 52 0) true [112, 119, 100]
      true = .ok (bindingBytes 0) ∧
    damagedMsg.checkFingerPrint (withCrc32 sampleDigests) (bindingBytes 1) = .ok false := by
  have henc : StunMsg.encode (withCrc32 sampleDigests) binding (List.replicate 52 0) true
      [112, 119, 100] true = .ok (bindingBytes 0) := by decide +kernel
  refine ⟨henc, damage_refused sampleDigests binding _ _ _ _ henc (bindingBytes 1) (by decide)
    (by decide) ?_ 1 damagedMsg (by decide +kernel) _ .refl ?_ (by decide)⟩
  · exact ⟨((bindingBytes 0).take 8).flatMap bitsLsb, bitsLsb 0, bitsLsb 1,
      (((bindingBytes 0).take 44).drop 9).flatMap bitsLsb, by decide +kernel, by decide +kernel,
      by decide, by decide, by decide⟩
  · exact ⟨by decide, by decide, by decide, by decide⟩

end MmsServer.Stun.FingerPrint
