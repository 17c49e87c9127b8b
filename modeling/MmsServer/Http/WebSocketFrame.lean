import MmsServer.Lib.CheckedReading
import MmsServer.Lib.CheckedWriting
import Mathlib.Data.Int.ModEq

namespace MmsServer.Http.WebSocketFrame

open Lib.ByteReader Lib.Checked Lib.CheckedReading Lib.CheckedWriting

inductive OpCode
  | continuation | text | binary | rsv3 | rsv4 | rsv5 | rsv6 | rsv7
  | close | ping | pong | controlRsvb | controlRsvc | controlRsvd | controlRsve | controlRsvf
deriving DecidableEq

def OpCode.code : OpCode → ℕ
  | .continuation => 0x0
  | .text => 0x1
  | .binary => 0x2
  | .rsv3 => 0x3
  | .rsv4 => 0x4
  | .rsv5 => 0x5
  | .rsv6 => 0x6
  | .rsv7 => 0x7
  | .close => 0x8
  | .ping => 0x9
  | .pong => 0xA
  | .controlRsvb => 0xB
  | .controlRsvc => 0xC
  | .controlRsvd => 0xD
  | .controlRsve => 0xE
  | .controlRsvf => 0xF

def OpCode.ofCode : ℕ → OpCode
  | 0x0 => .continuation
  | 0x1 => .text
  | 0x2 => .binary
  | 0x3 => .rsv3
  | 0x4 => .rsv4
  | 0x5 => .rsv5
  | 0x6 => .rsv6
  | 0x7 => .rsv7
  | 0x8 => .close
  | 0x9 => .ping
  | 0xA => .pong
  | 0xB => .controlRsvb
  | 0xC => .controlRsvc
  | 0xD => .controlRsvd
  | 0xE => .controlRsve
  | _ => .controlRsvf

@[simp] theorem OpCode.ofCode_code (c : OpCode) : ofCode c.code = c := by
  cases c <;> rfl

theorem OpCode.code_lt (c : OpCode) : c.code < 16 := by
  cases c <;> decide

abbrev MaskingKey := Fin 4 → UInt8

def MaskingKey.bytes (k : MaskingKey) : Bytes := List.ofFn k

def MaskingKey.ofBytes (bs : Bytes) : MaskingKey := fun i ↦ bs.getD i 0

def MaskingKey.apply (k : MaskingKey) (data : Bytes) : Bytes :=
  data.mapIdx fun i b ↦ b ^^^ k (Fin.ofNat 4 i)

/-- `mask_` says whether there is a key; `payload_len_` is the length of the payload. -/
structure WebSocketPacket where
  fin : Bool
  opcode : OpCode
  maskingKey : Option MaskingKey
  payload : Bytes

section Decode

/-- The length in the second byte, or in the two or eight bytes behind it. The last of these
is narrowed to an `int32_t`. -/
def payloadLen (len7 : ℕ) : CheckedReader ℤ :=
  if len7 = 126 then do return ((← getBE 2 0 : ℕ) : ℤ)
  else if len7 = 127 then do return ((← getBE 8 0 : ℕ) : ℤ).bmod (2 ^ 32)
  else return (len7 : ℤ)

def maskingKey (mask : Bool) : CheckedReader (Option MaskingKey) :=
  if mask then do return some (.ofBytes (← getBytes 4 0)) else return none

/-- A negative length passes the check, and there is no array of that many elements. -/
def takePayload (len : ℤ) : CheckedReader Bytes :=
  if len < 0 then fun _ ↦ .fault .wrap else getBytes len.toNat 0

def unmask : Option MaskingKey → Bytes → Bytes
  | some k, data => k.apply data
  | none, data => data

def decode : CheckedReader WebSocketPacket := do
  let head ← getBE 2 0
  let len ← payloadLen (head % 2 ^ 7)
  let key ← maskingKey (head / 2 ^ 7 % 2 == 1)
  let data ← takePayload len
  return {
    fin := head / 2 ^ 15 % 2 == 1
    opcode := .ofCode (head / 2 ^ 8 % 16)
    maskingKey := key
    payload := unmask key data }

/-- What `decode` returns to its caller: the number of bytes that it consumed. -/
def decodeReturn (data : Bytes) : Outcome ℤ :=
  match decode data with
  | .ok (_, rest) => .ok (data.length - rest.length)
  | .err code => .ok code
  | .fault f => .fault f

end Decode

section Encode

def headOf (opcode : OpCode) (fin : Bool) (key : Option MaskingKey) (len7 : ℕ) : Bytes :=
  [UInt8.ofNat (fin.toNat * 2 ^ 7 + opcode.code), UInt8.ofNat (key.isSome.toNat * 2 ^ 7 + len7)]

def encodeLength (opcode : OpCode) (fin : Bool) (key : Option MaskingKey) (payloadLen : ℕ) :
    CheckedWriter Unit :=
  if payloadLen ≤ 125 then putBytes (headOf opcode fin key payloadLen) (-1)
  else if payloadLen ≤ 0xFFFF then do
    putBytes (headOf opcode fin key 126) (-1)
    putBytes (putBE 2 payloadLen) (-2)
  else do
    putBytes (headOf opcode fin key 127) (-1)
    putBytes (putBE 8 payloadLen) (-3)

def encodeKey : Option MaskingKey → CheckedWriter Unit
  | some k => putBytes k.bytes (-4)
  | none => pure ()

def encodeHeaderOf (opcode : OpCode) (fin : Bool) (key : Option MaskingKey) (payloadLen : ℕ) :
    CheckedWriter Unit := do
  encodeLength opcode fin key payloadLen
  encodeKey key

variable (p : WebSocketPacket)

def WebSocketPacket.encodeHeader : CheckedWriter Unit :=
  encodeHeaderOf p.opcode p.fin p.maskingKey p.payload.length

/-- The payload is written as it is, also under a key. -/
def WebSocketPacket.encode : CheckedWriter Unit := do
  p.encodeHeader
  putBytes p.payload (-5)

def WebSocketPacket.headerSize (payloadSize : ℕ) : ℕ :=
  2 + (if payloadSize ≤ 125 then 0 else if payloadSize ≤ 0xFFFF then 2 else 8) +
    if p.maskingKey.isSome then 4 else 0

/-- The bytes of a longer length are not counted. -/
def WebSocketPacket.size : ℕ := 2 + (if p.maskingKey.isSome then 4 else 0) + p.payload.length

end Encode

section Header

variable {opcode : OpCode} {fin : Bool} {key : Option MaskingKey}

variable (opcode fin key) in
theorem fromBE_headOf {len7 : ℕ} (h : len7 < 128) : fromBE (headOf opcode fin key len7) =
    fin.toNat * 2 ^ 15 + opcode.code * 2 ^ 8 + key.isSome.toNat * 2 ^ 7 + len7 := by
  have hc := opcode.code_lt
  have hfin := fin.toNat_lt
  have hkey := key.isSome.toNat_lt
  simp only [headOf, fromBE, List.length_cons, List.length_nil, UInt8.toNat_ofNat']
  omega

def lengthBytes (opcode : OpCode) (fin : Bool) (key : Option MaskingKey) (payloadLen : ℕ) : Bytes :=
  if payloadLen ≤ 125 then headOf opcode fin key payloadLen
  else if payloadLen ≤ 0xFFFF then headOf opcode fin key 126 ++ putBE 2 payloadLen
  else headOf opcode fin key 127 ++ putBE 8 payloadLen

def keyBytes : Option MaskingKey → Bytes
  | some k => k.bytes
  | none => []

theorem puts_encodeLength (n : ℕ) :
    Puts (encodeLength opcode fin key n) (lengthBytes opcode fin key n) () := by
  rw [encodeLength, lengthBytes]
  split
  · exact puts_putBytes _ _
  · split
    · exact (puts_putBytes _ _).bind (puts_putBytes _ _)
    · exact (puts_putBytes _ _).bind (puts_putBytes _ _)

theorem puts_encodeKey : Puts (encodeKey key) (keyBytes key) () := by
  cases key with
  | none => exact .pure ()
  | some k => exact puts_putBytes _ _

theorem puts_encode (p : WebSocketPacket) : Puts p.encode
    ((lengthBytes p.opcode p.fin p.maskingKey p.payload.length ++ keyBytes p.maskingKey) ++
      p.payload) () :=
  ((puts_encodeLength _).bind puts_encodeKey).bind (puts_putBytes _ _)

theorem length_lengthBytes (n : ℕ) : (lengthBytes opcode fin key n).length =
    2 + if n ≤ 125 then 0 else if n ≤ 0xFFFF then 2 else 8 := by
  rw [lengthBytes]
  split
  · rfl
  · split
    · rw [List.length_append, putBE_length]
      rfl
    · rw [List.length_append, putBE_length]
      rfl

theorem length_keyBytes : (keyBytes key).length = if key.isSome then 4 else 0 := by
  cases key with
  | none => rfl
  | some k => simp [keyBytes, MaskingKey.bytes]

/-- The header that is written has the size that `header_size` tells. -/
theorem length_header (p : WebSocketPacket) :
    (lengthBytes p.opcode p.fin p.maskingKey p.payload.length ++ keyBytes p.maskingKey).length =
      p.headerSize p.payload.length := by
  rw [List.length_append, length_lengthBytes, length_keyBytes, WebSocketPacket.headerSize]

variable (opcode fin key) in
theorem gives_payloadLen {n : ℕ} (h : n < 2 ^ 31) :
    ∃ len7 ext, len7 < 128 ∧ lengthBytes opcode fin key n = headOf opcode fin key len7 ++ ext ∧
      Gives (payloadLen len7) ext (n : ℤ) := by
  by_cases hs : n ≤ 125
  · refine ⟨n, [], by omega, by rw [lengthBytes, if_pos hs, List.append_nil], ?_⟩
    rw [payloadLen, if_neg (by omega), if_neg (by omega)]
    exact .pure _
  · by_cases hm : n ≤ 0xFFFF
    · refine ⟨126, putBE 2 n, by omega, by rw [lengthBytes, if_neg hs, if_pos hm], ?_⟩
      exact (gives_getBE (by omega) 0).map _
    · refine ⟨127, putBE 8 n, by omega, by rw [lengthBytes, if_neg hs, if_neg hm], ?_⟩
      have hb : (n : ℤ).bmod (2 ^ 32) = n := Int.bmod_eq_of_le (by omega) (by omega)
      have hg := (gives_getBE (k := 8) (v := n) (by omega) 0).map fun v : ℕ ↦ (v : ℤ).bmod (2 ^ 32)
      rwa [hb] at hg

theorem ofBytes_bytes (k : MaskingKey) : MaskingKey.ofBytes k.bytes = k := by
  funext i
  simp only [MaskingKey.ofBytes, MaskingKey.bytes, List.getD_eq_getElem?_getD,
    List.getElem?_ofFn, i.isLt, dif_pos, Option.getD_some]

theorem gives_maskingKey : Gives (maskingKey key.isSome) (keyBytes key) key := by
  cases key with
  | none => exact .pure none
  | some k =>
    have hlen : k.bytes.length = 4 := by simp [MaskingKey.bytes]
    have hg := (gives_getBytes hlen 0).map fun bs ↦ some (MaskingKey.ofBytes bs)
    rwa [ofBytes_bytes] at hg

theorem gives_takePayload (data : Bytes) : Gives (takePayload data.length) data data := by
  rw [takePayload, if_neg (by omega), Int.toNat_natCast]
  exact gives_getBytes rfl 0

theorem toNat_beq_one (b : Bool) : (b.toNat == 1) = b := by
  cases b <;> rfl

/-- What is decoded from an encoded packet: its payload under the exclusive or with the key. -/
theorem gives_decode (p : WebSocketPacket) (h : p.payload.length < 2 ^ 31) : Gives decode
    ((lengthBytes p.opcode p.fin p.maskingKey p.payload.length ++ keyBytes p.maskingKey) ++
      p.payload) { p with payload := unmask p.maskingKey p.payload } := by
  obtain ⟨len7, ext, hlen7, hbytes, hlen⟩ :=
    gives_payloadLen p.opcode p.fin p.maskingKey h
  have hhead := fromBE_headOf p.opcode p.fin p.maskingKey hlen7
  have hc := p.opcode.code_lt
  have hfin := p.fin.toNat_lt
  have hkey := p.maskingKey.isSome.toNat_lt
  rw [hbytes, List.append_assoc, List.append_assoc]
  have hl : fromBE (headOf p.opcode p.fin p.maskingKey len7) % 2 ^ 7 = len7 := by omega
  have hm : fromBE (headOf p.opcode p.fin p.maskingKey len7) / 2 ^ 7 % 2 =
      p.maskingKey.isSome.toNat := by omega
  have ho : fromBE (headOf p.opcode p.fin p.maskingKey len7) / 2 ^ 8 % 16 = p.opcode.code := by
    omega
  have hf : fromBE (headOf p.opcode p.fin p.maskingKey len7) / 2 ^ 15 % 2 = p.fin.toNat := by omega
  unfold decode
  refine (gives_getBE_bytes (k := 2) rfl 0).bind ?_
  rw [hl, hm, ho, hf, OpCode.ofCode_code, toNat_beq_one, toNat_beq_one]
  exact hlen.bind (gives_maskingKey.bind ((gives_takePayload p.payload).map _))

end Header

section RoundTrip

/-- `size` tells what `encode` writes, and `decode` consumes all of it and yields the packet. -/
def RoundTrips (p : WebSocketPacket) : Prop :=
  ∀ buf : Bytes, p.payload.length + 14 ≤ buf.length → ∃ n out q,
    runWriter p.encode buf = .ok (n, out, ()) ∧ p.size = n ∧ decode (out.take n) = .ok (q, []) ∧
      decodeReturn (out.take n) = .ok n ∧ q.fin = p.fin ∧ q.opcode = p.opcode ∧
      q.payload = p.payload

/-- The bytes of the key that meet a byte of the payload are zero. -/
def ClearKey (p : WebSocketPacket) : Prop :=
  ∀ k, p.maskingKey = some k → ∀ i < p.payload.length, k (Fin.ofNat 4 i) = 0

theorem apply_eq_self_iff (k : MaskingKey) (data : Bytes) :
    k.apply data = data ↔ ∀ i < data.length, k (Fin.ofNat 4 i) = 0 := by
  constructor
  · intro h i hi
    have hget := congrArg (·[i]?) h
    simp only [MaskingKey.apply, List.getElem?_mapIdx, List.getElem?_eq_getElem hi,
      Option.map_some, Option.some.injEq] at hget
    exact (UInt8.xor_right_inj _).mp (hget.trans UInt8.xor_zero.symm)
  · intro h
    apply List.ext_getElem
    · rw [MaskingKey.apply, List.length_mapIdx]
    · intro i _ hi
      simp only [MaskingKey.apply, List.getElem_mapIdx, h i hi, UInt8.xor_zero]

theorem unmask_eq_self_iff (p : WebSocketPacket) :
    unmask p.maskingKey p.payload = p.payload ↔ ClearKey p := by
  rw [ClearKey]
  cases p.maskingKey with
  | none => simp [unmask]
  | some k => simp [unmask, apply_eq_self_iff]

/-- The size falls short by the bytes of a longer length. -/
theorem size_eq_iff (p : WebSocketPacket) :
    p.size = p.headerSize p.payload.length + p.payload.length ↔ p.payload.length ≤ 125 := by
  rw [WebSocketPacket.size, WebSocketPacket.headerSize]
  by_cases hs : p.payload.length ≤ 125
  · simp only [hs, if_true, Nat.add_zero]
  · by_cases hm : p.payload.length ≤ 0xFFFF
    · simp only [hs, hm, if_true, if_false, iff_false]
      omega
    · simp only [hs, hm, if_false, iff_false]
      omega

theorem roundTrips_iff_clear {p : WebSocketPacket} (h : p.payload.length ≤ 2 ^ 31 - 15) :
    RoundTrips p ↔ p.payload.length ≤ 125 ∧ ClearKey p := by
  have hlt : p.payload.length < 2 ^ 31 := by omega
  let bs := (lengthBytes p.opcode p.fin p.maskingKey p.payload.length ++ keyBytes p.maskingKey) ++
    p.payload
  have hlen : bs.length = p.headerSize p.payload.length + p.payload.length := by
    rw [List.length_append, length_header]
  have hle : bs.length ≤ p.payload.length + 14 := by
    rw [hlen, WebSocketPacket.headerSize]
    split_ifs <;> omega
  have hdec := gives_decode p hlt []
  rw [List.append_nil] at hdec
  have hrun (buf : Bytes) (hbuf : p.payload.length + 14 ≤ buf.length) :
      runWriter p.encode buf = .ok (bs.length, bs ++ buf.drop bs.length, ()) :=
    (puts_encode p).run buf (hle.trans hbuf)
  constructor
  · intro hrt
    obtain ⟨n, out, q, henc, hsize, hq, -, -, -, hpay⟩ :=
      hrt (List.replicate (p.payload.length + 14) 0) (by rw [List.length_replicate])
    rw [hrun _ (by rw [List.length_replicate])] at henc
    obtain ⟨rfl, rfl, -⟩ : _ = n ∧ _ = out ∧ () = () := by
      simpa only [Outcome.ok.injEq, Prod.mk.injEq] using henc
    rw [List.take_left, hdec] at hq
    obtain ⟨rfl, -⟩ : _ = q ∧ _ := by simpa only [Outcome.ok.injEq, Prod.mk.injEq] using hq
    exact ⟨(size_eq_iff p).mp (hsize.trans hlen), (unmask_eq_self_iff p).mp hpay⟩
  · rintro ⟨hs, hclear⟩ buf hbuf
    have hret : decodeReturn bs = .ok bs.length := by
      rw [decodeReturn, hdec]
      simp only [List.length_nil, Nat.cast_zero, sub_zero, bs]
    refine ⟨bs.length, _, { p with payload := unmask p.maskingKey p.payload }, hrun buf hbuf,
      ((size_eq_iff p).mpr hs).trans hlen.symm, ?_⟩
    rw [List.take_left]
    exact ⟨hdec, hret, rfl, rfl, (unmask_eq_self_iff p).mpr hclear⟩

end RoundTrip

section Bounds

variable {data : Bytes}

/-- What lies in front of the payload is complete, and the length in its eight bytes is negative
as an `int32_t`. -/
def NegativeLength (data : Bytes) : Prop :=
  (data.getD 1 0).toNat % 2 ^ 7 = 127 ∧
    10 + (if 2 ^ 7 ≤ (data.getD 1 0).toNat then 4 else 0) ≤ data.length ∧
    ((fromBE ((data.drop 2).take 8) : ℕ) : ℤ).bmod (2 ^ 32) < 0

theorem framed_decode : Framed 0 decode := by
  refine (framed_getBE 2).bind fun head ↦ .bind ?_ fun len ↦ .bind ?_ fun key ↦ .bind ?_ fun bs ↦
    framed_pure _
  · refine .ite ?_ (.ite ?_ (framed_pure _))
    · exact (framed_getBE 2).bind fun v ↦ framed_pure _
    · exact (framed_getBE 8).bind fun v ↦ framed_pure _
  · exact .ite ((framed_getBytes 4).bind fun bs ↦ framed_pure _) (framed_pure _)
  · exact .ite (framed_of_fault (f := .wrap) fun _ ↦ rfl) (framed_getBytes _)

/-- The bytes that are read lie in the buffer, and the value says how many are consumed, none when
the frame is incomplete. -/
def Safe (data : Bytes) : Prop :=
  ∃ n : ℤ, decodeReturn data = .ok n ∧ 0 ≤ n ∧ n ≤ data.length

theorem safe_iff : Safe data ↔ ¬ ∃ f, decode data = .fault f := by
  rw [Safe, decodeReturn]
  cases hd : decode data with
  | ok p =>
    obtain ⟨hd', hdata, -⟩ := framed_decode.ends data p.1 p.2 hd
    have hlen := congrArg List.length hdata
    rw [List.length_append] at hlen
    have hn : ¬ ∃ f, Outcome.ok p = .fault f := by simp
    exact iff_of_true ⟨_, rfl, by omega, by omega⟩ hn
  | err c =>
    have hn : ¬ ∃ f, (Outcome.err c : Outcome (WebSocketPacket × Bytes)) = .fault f := by simp
    exact iff_of_true ⟨c, rfl, (framed_decode.leaves data c hd).ge, by
      rw [framed_decode.leaves data c hd]
      omega⟩ hn
  | fault f => simp

theorem inBounds_maskingKey (mask : Bool) : InBounds (maskingKey mask) :=
  .ite ((inBounds_getBytes 4 0).bind fun _ ↦ .pure _) (.pure _)

/-- Behind the length there is a fault for a negative one, once the key is complete. -/
theorem tail_fault_iff {mask : Bool} {len : ℤ} {rest : Bytes}
    (g : Option MaskingKey → Bytes → WebSocketPacket) :
    (∃ f, (maskingKey mask >>= fun key ↦ takePayload len >>= fun bs ↦ pure (g key bs)) rest =
      .fault f) ↔ len < 0 ∧ (if mask then 4 else 0) ≤ rest.length := by
  by_cases hneg : len < 0
  · have htake : takePayload len = fun _ ↦ .fault .wrap := if_pos hneg
    cases mask with
    | false => exact iff_of_true ⟨.wrap, by rw [htake]; rfl⟩ ⟨hneg, Nat.zero_le _⟩
    | true =>
      by_cases hkey : rest.length < 4
      · have herr : maskingKey true rest = .err 0 := by
          rw [maskingKey, if_pos rfl, Lib.CheckedReading.bind_apply, getBytes_short hkey,
            Outcome.err_bind]
        rw [Lib.CheckedReading.bind_apply, herr, Outcome.err_bind]
        simp [hkey]
      · have hbs : (rest.take 4).length = 4 := by
          rw [List.length_take]
          omega
        have hgives : Gives (maskingKey true) (rest.take 4) (some (.ofBytes (rest.take 4))) :=
          (gives_getBytes hbs 0).map _
        have hget := hgives.bind_apply (fun key ↦ takePayload len >>= fun bs ↦ pure (g key bs))
          (rest.drop 4)
        rw [List.take_append_drop] at hget
        exact iff_of_true ⟨.wrap, by rw [hget, htake]; rfl⟩ ⟨hneg, Nat.not_lt.mp hkey⟩
  · have hin : InBounds (maskingKey mask >>= fun key ↦ takePayload len >>= fun bs ↦
        pure (g key bs)) := by
      refine (inBounds_maskingKey mask).bind fun key ↦ .bind ?_ fun bs ↦ .pure _
      rw [takePayload, if_neg hneg]
      exact inBounds_getBytes _ 0
    exact iff_of_false (fun ⟨f, hf⟩ ↦ hin rest f hf) fun h ↦ hneg h.1

theorem inBounds_payloadLen (len7 : ℕ) : InBounds (payloadLen len7) :=
  .ite ((inBounds_getBE 2 0).bind fun _ ↦ .pure _)
    (.ite ((inBounds_getBE 8 0).bind fun _ ↦ .pure _) (.pure _))

theorem payloadLen_nonneg {len7 : ℕ} {rest mid : Bytes} {len : ℤ} (h : len7 ≠ 127)
    (hlen : payloadLen len7 rest = .ok (len, mid)) : 0 ≤ len := by
  rw [payloadLen, if_neg h] at hlen
  split at hlen
  · obtain ⟨v, mid', -, hv⟩ := Lib.CheckedReading.bind_eq_ok.mp hlen
    obtain ⟨rfl, -⟩ := pure_eq_ok.mp hv
    exact Int.natCast_nonneg v
  · obtain ⟨rfl, -⟩ := pure_eq_ok.mp hlen
    exact Int.natCast_nonneg len7

theorem decode_cons (b₀ b₁ : UInt8) (rest : Bytes) : decode (b₀ :: b₁ :: rest) =
    (payloadLen (b₁.toNat % 2 ^ 7) >>= fun len ↦ maskingKey (b₁.toNat / 2 ^ 7 == 1) >>= fun key ↦
      takePayload len >>= fun bs ↦ pure {
        fin := fromBE [b₀, b₁] / 2 ^ 15 % 2 == 1
        opcode := .ofCode (fromBE [b₀, b₁] / 2 ^ 8 % 16)
        maskingKey := key
        payload := unmask key bs }) rest := by
  have hb := b₁.toNat_lt
  have hhead : fromBE [b₀, b₁] = b₀.toNat * 2 ^ 8 + b₁.toNat := by simp [fromBE]
  have hl : fromBE [b₀, b₁] % 2 ^ 7 = b₁.toNat % 2 ^ 7 := by omega
  have hm : fromBE [b₀, b₁] / 2 ^ 7 % 2 = b₁.toNat / 2 ^ 7 := by omega
  have hgives : Gives (getBE 2 0) [b₀, b₁] (fromBE [b₀, b₁]) := gives_getBE_bytes rfl 0
  unfold decode
  rw [show b₀ :: b₁ :: rest = [b₀, b₁] ++ rest from rfl, hgives.bind_apply, hl, hm]

theorem fault_iff : (∃ f, decode data = .fault f) ↔ NegativeLength data := by
  rw [NegativeLength]
  match data with
  | [] =>
    refine iff_of_false ?_ fun h ↦ absurd h.1 (by decide)
    rintro ⟨f, hf⟩
    cases hf
  | [b] =>
    refine iff_of_false ?_ fun h ↦ absurd h.1 (by simp)
    rintro ⟨f, hf⟩
    cases hf
  | b₀ :: b₁ :: rest =>
    have hb := b₁.toNat_lt
    have hmask : (if b₁.toNat / 2 ^ 7 == 1 then 4 else 0) = if 2 ^ 7 ≤ b₁.toNat then 4 else 0 := by
      by_cases hm : 2 ^ 7 ≤ b₁.toNat
      · rw [if_pos (by rw [beq_iff_eq]; omega), if_pos hm]
      · rw [if_neg (by rw [beq_iff_eq]; omega), if_neg hm]
    simp only [decode_cons, List.getD_cons_succ, List.getD_cons_zero, List.length_cons,
      List.drop_succ_cons, List.drop_zero]
    by_cases h127 : b₁.toNat % 2 ^ 7 = 127
    · by_cases hshort : rest.length < 8
      · have herr : payloadLen 127 rest = .err 0 := by
          rw [payloadLen, if_neg (by decide), if_pos rfl, Lib.CheckedReading.bind_apply,
            getBE_short hshort, Outcome.err_bind]
        rw [Lib.CheckedReading.bind_apply, h127, herr, Outcome.err_bind]
        exact iff_of_false (by simp) fun h ↦ by omega
      · obtain ⟨ext, rest', rfl, hext⟩ : ∃ ext rest', rest = ext ++ rest' ∧ ext.length = 8 :=
          ⟨rest.take 8, rest.drop 8, (List.take_append_drop 8 rest).symm, by
            rw [List.length_take]
            omega⟩
        have hgives : Gives (payloadLen 127) ext (((fromBE ext : ℕ) : ℤ).bmod (2 ^ 32)) :=
          (gives_getBE_bytes hext 0).map _
        rw [h127, hgives.bind_apply, tail_fault_iff, hmask, List.take_left' hext,
          List.length_append]
        constructor
        · rintro ⟨hneg, hlen⟩
          exact ⟨rfl, by omega, hneg⟩
        · rintro ⟨-, hlen, hneg⟩
          exact ⟨hneg, by omega⟩
    · refine iff_of_false ?_ fun h ↦ h127 h.1
      rintro ⟨f, hf⟩
      rw [Lib.CheckedReading.bind_apply] at hf
      cases hp : payloadLen (b₁.toNat % 2 ^ 7) rest with
      | ok p =>
        rw [hp, Outcome.ok_bind] at hf
        have hneg := (tail_fault_iff _).mp ⟨f, hf⟩
        have hnn := payloadLen_nonneg h127 hp
        omega
      | err c => rw [hp, Outcome.err_bind] at hf; cases hf
      | fault f' => exact inBounds_payloadLen _ rest f' hp

/-- A short packet without a masking key that changes its payload makes the round trip, and
decoding is safe where no negative length is read. -/
theorem frame_roundTrips_iff (p : WebSocketPacket) (h : p.payload.length ≤ 2 ^ 31 - 15)
    (data : Bytes) : (RoundTrips p ↔ p.payload.length ≤ 125 ∧ ClearKey p) ∧
      (Safe data ↔ ¬ NegativeLength data) :=
  ⟨roundTrips_iff_clear h, by rw [safe_iff, fault_iff]⟩

theorem hello_roundTrips : RoundTrips ⟨true, .text, none, [0x68, 0x69]⟩ ∧ Safe [0x81, 2, 0x68] := by
  have hiff := frame_roundTrips_iff ⟨true, .text, none, [0x68, 0x69]⟩ (by decide) [0x81, 2, 0x68]
  have hclear : ClearKey ⟨true, .text, none, [0x68, 0x69]⟩ := by
    intro k hk
    cases hk
  exact ⟨hiff.1.mpr ⟨by decide, hclear⟩, hiff.2.mpr fun hneg ↦ absurd hneg.1 (by decide)⟩

/-- A masked packet, a packet of 126 bytes, and a length of 2³¹. -/
theorem masked_or_long_lost : ¬ RoundTrips ⟨true, .text, some fun _ ↦ 0x5A, [0x68, 0x69]⟩ ∧
    ¬ RoundTrips ⟨true, .binary, none, List.replicate 126 0⟩ ∧
    ¬ Safe [0x82, 127, 0, 0, 0, 0, 0x80, 0, 0, 0] := by
  refine ⟨fun h ↦ ?_, fun h ↦ ?_, fun h ↦ ?_⟩
  · have hclear := ((roundTrips_iff_clear (by decide)).mp h).2 _ rfl 0 (by decide)
    exact absurd hclear (by decide)
  · have hlen := ((roundTrips_iff_clear (by rw [List.length_replicate]; omega)).mp h).1
    rw [List.length_replicate] at hlen
    omega
  · rw [safe_iff, fault_iff] at h
    exact h ⟨by decide, by decide, by decide⟩

end Bounds

end MmsServer.Http.WebSocketFrame
