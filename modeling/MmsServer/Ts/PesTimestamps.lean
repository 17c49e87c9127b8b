import MmsServer.Lib.Checked

namespace MmsServer.Ts.PesTimestamps

open Lib.ByteReader Lib.Checked

structure PESPacketHeader where
  pesPacketLength : ℕ := 0
  ptsDtsFlags : ℕ := 0
  pesHeaderDataLength : ℕ := 0
  pts : ℕ := 0
  dts : ℕ := 0
deriving DecidableEq

section Decode

variable (data : Bytes)

/-- The code returns 0 when it wants more bytes. -/
def need (pos : ℤ) (n : ℕ) : Outcome Unit := if data.length < pos + n then .err 0 else return ()

/-- The position can lie before the buffer. -/
def loadAt (n : ℕ) (pos : ℤ) : Outcome ℕ :=
  if pos < 0 then .fault .overread else load n pos.toNat data

def skipIf (flag : Bool) (n : ℕ) (pos : ℤ) : Outcome ℤ :=
  if flag then do
    need data pos n
    let _ ← loadAt data n pos
    return pos + n
  else return pos

/-- A length that is read as a signed number may lead back, and out of the buffer. -/
def advance (pos length : ℤ) : Outcome ℤ :=
  if data.length - pos < length then .err 0 else return pos + length

def bit (v i : ℕ) : Bool := v / 2 ^ i % 2 == 1

def signedByte (width v : ℕ) : ℤ := (BitVec.ofNat width v).toInt

def skipCounted (flag : Bool) (width : ℕ) (pos : ℤ) : Outcome ℤ :=
  if flag then do
    need data pos 1
    let length ← loadAt data 1 pos
    advance data (pos + 1) (signedByte width length)
  else return pos

def skipExtension (flag : Bool) (pos : ℤ) : Outcome ℤ :=
  if flag then do
    need data pos 1
    let v1 ← loadAt data 1 pos
    let pos ← skipIf data (bit v1 7) 128 (pos + 1)
    let pos ← skipCounted data (bit v1 6) 8 pos
    let pos ← skipIf data (bit v1 5) 2 pos
    let pos ← skipIf data (bit v1 4) 2 pos
    skipCounted data (bit v1 0) 7 pos
  else return pos

def loadTimestamp (pos : ℕ) : Outcome ℕ := do
  let b ← load 1 pos data
  let hi ← load 2 (pos + 1) data
  let lo ← load 2 (pos + 3) data
  return b / 2 % 8 * 2 ^ 30 + hi / 2 % 2 ^ 15 * 2 ^ 15 + lo / 2 % 2 ^ 15

/-- With the flags 2 the DTS is the PTS. -/
def decodeTimestamps (h : PESPacketHeader) (pos : ℕ) : Outcome (PESPacketHeader × ℕ) :=
  if h.ptsDtsFlags = 2 then do
    need data pos 5
    let pts ← loadTimestamp data pos
    return ({ h with pts := pts, dts := pts }, pos + 5)
  else if h.ptsDtsFlags = 3 then do
    need data pos 10
    let pts ← loadTimestamp data pos
    let dts ← loadTimestamp data (pos + 5)
    return ({ h with pts := pts, dts := dts }, pos + 10)
  else return (h, pos)

/-- `v2` holds the flags of the optional fields, which begin at `start`. -/
def skipOptional (v2 pesHeaderDataLength : ℕ) (start pos : ℤ) : Outcome ℤ := do
  let pos ← skipIf data (bit v2 5) 5 pos
  let pos ← skipIf data (bit v2 4) 3 pos
  let pos ← skipIf data (bit v2 3) 1 pos
  let pos ← skipIf data (bit v2 2) 1 pos
  let pos ← skipIf data (bit v2 1) 2 pos
  let pos ← skipExtension data (bit v2 0) pos
  let stuffingBytes : ℤ := pesHeaderDataLength - (pos - start)
  if stuffingBytes < 0 then .err (-2)
  else advance data pos stuffingBytes

/-- The streams whose packets have no such header: program map, padding, private
stream 2, ECM, EMM, program directory, DSM-CC and H.222.1 type E. -/
def headerlessStreams : List ℤ := [0xbc, 0xbe, 0xbf, 0xf0, 0xf1, 0xff, 0xf2, 0xf8]

/-- The header and the number of bytes it takes. The stream id is a `char` and so
a negative number. The source's `len` is what is left behind `pos`; a negative length in
the extension gives back at most 192 bytes, which an `int32_t` holds in buffers of less
than 2^31 - 180 bytes. -/
def PESPacketHeader.decode (h : PESPacketHeader) : Outcome (PESPacketHeader × ℤ) := do
  need data 0 3
  let codePrefix ← slice 0 3 data
  if codePrefix ≠ [0, 0, 1] then .err (-1)
  else
    need data 3 1
    let streamId ← load 1 3 data
    need data 4 2
    let pesPacketLength ← load 2 4 data
    let h := { h with pesPacketLength := pesPacketLength }
    need data 6 pesPacketLength
    if signedByte 8 streamId ∈ headerlessStreams then return (h, 6)
    else
      need data 6 1
      need data 7 1
      let v2 ← load 1 7 data
      need data 8 1
      let pesHeaderDataLength ← load 1 8 data
      let (h, pos) ← decodeTimestamps data
        { h with
          ptsDtsFlags := v2 / 2 ^ 6 % 4
          pesHeaderDataLength := pesHeaderDataLength } 9
      let pos ← skipOptional data v2 pesHeaderDataLength 9 pos
      return (h, pos)

end Decode

section Build

/-- `mark` is 2 or 3. -/
def timestampBytes (mark v : ℕ) : Bytes :=
  UInt8.ofNat (mark * 16 + v / 2 ^ 30 % 8 * 2 + 1) ::
    (putBE 2 (v / 2 ^ 15 % 2 ^ 15 * 2 + 1) ++ putBE 2 (v % 2 ^ 15 * 2 + 1))

/-- The products are formed in 32 bits: for the PTS in `uint32_t`, as
`composition_time` is unsigned, for the DTS in `int32_t`. -/
def ptsOf (timestamp compositionTime : BitVec 32) : BitVec 64 :=
  ((timestamp + compositionTime) * 90).setWidth 64

def dtsOf (timestamp : BitVec 32) : BitVec 64 := (timestamp * 90).signExtend 64

def ptsDtsFlags (compositionTime : BitVec 32) : ℕ := if compositionTime = 0 then 2 else 3

def pesHeaderDataLength (compositionTime : BitVec 32) : ℕ := if compositionTime = 0 then 5 else 10

def videoPesHeader (timestamp compositionTime : BitVec 32) (payloadSize : ℕ) : Bytes :=
  let pesPacketLength := 3 + pesHeaderDataLength compositionTime + payloadSize
  [0x00, 0x00, 0x01, 0xe0] ++ putBE 2 (if 0xffff < pesPacketLength then 0 else pesPacketLength) ++
    [0x80, UInt8.ofNat (ptsDtsFlags compositionTime * 64),
      UInt8.ofNat (pesHeaderDataLength compositionTime)] ++
    timestampBytes 2 (ptsOf timestamp compositionTime).toNat ++
    if compositionTime = 0 then [] else timestampBytes 3 (dtsOf timestamp).toNat

/-- A start code of four bytes in front of the first NAL unit, of three in front of
the others. -/
def annexb : List Bytes → Bytes
  | [] => []
  | nalu :: nalus =>
    [0, 0, 0, 1] ++ nalu ++ (nalus.map fun nalu ↦ [0, 0, 1] ++ nalu).flatten

def payloadSize (nalus : List Bytes) : ℕ :=
  nalus.length * 3 + 1 + (nalus.map List.length).sum

def videoPes (timestamp compositionTime : BitVec 32) (nalus : List Bytes) : Bytes :=
  videoPesHeader timestamp compositionTime (payloadSize nalus) ++ annexb nalus

end Build

section RoundTrip

variable {data pre post : Bytes} {pos n : ℕ}

theorem need_ok {pos : ℤ} (h : pos + n ≤ data.length) : need data pos n = .ok () :=
  if_neg (by omega)

theorem timestampBytes_length (mark v : ℕ) : (timestampBytes mark v).length = 5 := by
  rw [timestampBytes, List.length_cons, List.length_append, putBE_length, putBE_length]

theorem loadTimestamp_append (pre : Bytes) (mark v : ℕ) (hp : pre.length = pos) :
    loadTimestamp (pre ++ (timestampBytes mark v ++ post)) pos = .ok (v % 2 ^ 33) := by
  obtain ⟨b, hb⟩ : ∃ b, b = UInt8.ofNat (mark * 16 + v / 2 ^ 30 % 8 * 2 + 1) := ⟨_, rfl⟩
  obtain ⟨hi, hhi⟩ : ∃ hi, hi = v / 2 ^ 15 % 2 ^ 15 * 2 + 1 := ⟨_, rfl⟩
  obtain ⟨lo, hlo⟩ : ∃ lo, lo = v % 2 ^ 15 * 2 + 1 := ⟨_, rfl⟩
  have hbits : b.toNat / 2 % 8 = v / 2 ^ 30 % 8 := by
    rw [hb, UInt8.toNat_ofNat']
    omega
  have hfirst : load 1 pos (pre ++ (timestampBytes mark v ++ post)) = .ok b.toNat := by
    subst hp
    rw [load_ok (by rw [List.length_append, List.length_append, timestampBytes_length]; omega),
      List.drop_left, timestampBytes, ← hb, List.cons_append, List.take_succ_cons, List.take_zero]
    simp [fromBE]
  have hdata₂ : pre ++ (timestampBytes mark v ++ post) =
      (pre ++ [b]) ++ (putBE 2 hi ++ (putBE 2 lo ++ post)) := by
    simp [timestampBytes, hb, hhi, hlo]
  have hdata₃ : pre ++ (timestampBytes mark v ++ post) =
      (pre ++ [b] ++ putBE 2 hi) ++ (putBE 2 lo ++ post) := by
    rw [hdata₂]
    simp
  have hsecond : load 2 (pos + 1) (pre ++ (timestampBytes mark v ++ post)) = .ok hi := by
    rw [hdata₂]
    exact load_append (by simp [hp]) (by omega)
  have hthird : load 2 (pos + 3) (pre ++ (timestampBytes mark v ++ post)) = .ok lo := by
    rw [hdata₃]
    exact load_append (by simp [hp, putBE_length]) (by omega)
  rw [loadTimestamp, hfirst, hsecond, hthird]
  simp only [Outcome.ok_bind, Outcome.pure_eq, Outcome.ok.injEq, hbits]
  omega

theorem decodeTimestamps_pts {h : PESPacketHeader} {pts : ℕ} (hf : h.ptsDtsFlags = 2)
    (hn : pos + 5 ≤ data.length) (hpts : loadTimestamp data pos = .ok pts) :
    decodeTimestamps data h pos = .ok ({ h with pts := pts, dts := pts }, pos + 5) := by
  rw [decodeTimestamps, if_pos hf, need_ok (by omega), hpts]
  rfl

theorem decodeTimestamps_both {h : PESPacketHeader} {pts dts : ℕ} (hf : h.ptsDtsFlags = 3)
    (hn : pos + 10 ≤ data.length) (hpts : loadTimestamp data pos = .ok pts)
    (hdts : loadTimestamp data (pos + 5) = .ok dts) :
    decodeTimestamps data h pos = .ok ({ h with pts := pts, dts := dts }, pos + 10) := by
  rw [decodeTimestamps, if_neg (by omega), if_pos hf, need_ok (by omega), hpts, hdts]
  rfl

/-- Without optional fields the header ends where its length says. -/
theorem skipOptional_none {v2 length : ℕ} {start pos : ℤ} (hv : v2 % 64 = 0)
    (hp : pos = start + length) (hle : pos ≤ data.length) :
    skipOptional data v2 length start pos = .ok pos := by
  have hbit : ∀ i < 6, bit v2 i = false := by
    intro i hi
    have hdvd : (2 ^ (i + 1)) ∣ v2 :=
      Nat.dvd_trans (Nat.pow_dvd_pow 2 (show i + 1 ≤ 6 by omega)) (Nat.dvd_of_mod_eq_zero hv)
    obtain ⟨q, rfl⟩ := hdvd
    rw [bit, Nat.pow_succ, Nat.mul_assoc, Nat.mul_div_cancel_left _ (Nat.two_pow_pos i)]
    simp
  rw [skipOptional]
  simp only [hbit, Nat.reduceLT, skipIf, skipExtension, Bool.false_eq_true, if_false,
    Outcome.pure_eq, Outcome.ok_bind]
  have hzero : (length : ℤ) - (pos - start) = 0 := by omega
  rw [hzero, if_neg (lt_irrefl 0), advance, if_neg (by omega), Int.add_zero]
  rfl

theorem load_byte (pre : Bytes) {b : UInt8} (hp : pre.length = pos) :
    load 1 pos (pre ++ b :: post) = .ok b.toNat := by
  have hb : putBE 1 b.toNat = [b] := by simp [putBE]
  rw [← List.singleton_append, ← hb]
  exact load_append hp b.toNat_lt

/-- The fixed part of a video PES header, and what is left to read. -/
theorem decode_fixed (h : PESPacketHeader) {len : ℕ} (v2 hdl : UInt8) (hlen : len < 2 ^ 16)
    (hle : len ≤ 3 + post.length)
    (hdata : data = [0, 0, 1, 0xe0] ++ (putBE 2 len ++ ([0x80, v2, hdl] ++ post))) :
    PESPacketHeader.decode data h = (do
      let (h, pos) ← decodeTimestamps data
        { h with
          pesPacketLength := len
          ptsDtsFlags := v2.toNat / 2 ^ 6 % 4
          pesHeaderDataLength := hdl.toNat } 9
      let pos ← skipOptional data v2.toNat hdl.toNat 9 pos
      return (h, pos)) := by
  have htotal : data.length = 9 + post.length := by
    rw [hdata]
    simp only [List.length_append, putBE_length, List.length_cons, List.length_nil]
    omega
  have hstream : load 1 3 data = .ok 0xe0 := by
    rw [hdata]
    exact load_byte [0, 0, 1] rfl
  have hlength : load 2 4 data = .ok len := by
    rw [hdata]
    exact load_append rfl hlen
  have hflags : load 1 7 data = .ok v2.toNat := by
    rw [hdata]
    exact load_byte ([0, 0, 1, 0xe0] ++ (putBE 2 len ++ [0x80])) rfl
  have hheader : load 1 8 data = .ok hdl.toNat := by
    rw [hdata]
    exact load_byte ([0, 0, 1, 0xe0] ++ (putBE 2 len ++ [0x80, v2])) rfl
  have hcode : slice 0 3 data = .ok [0, 0, 1] := by
    rw [hdata]
    exact @slice_append [] [0, 0, 1] _ _ _ rfl rfl
  simp (disch := omega) only [PESPacketHeader.decode, need_ok, hcode, hstream, hlength, hflags,
    hheader, Outcome.ok_bind, ne_eq, not_true_eq_false, if_false]
  rw [if_neg (by decide)]

end RoundTrip

section Main

variable {timestamp compositionTime : BitVec 32}

theorem annexb_length (nalu : Bytes) (nalus : List Bytes) :
    (annexb (nalu :: nalus)).length = payloadSize (nalu :: nalus) := by
  have hrest : (nalus.map fun nalu ↦ ([0, 0, 1] : Bytes) ++ nalu).flatten.length =
      nalus.length * 3 + (nalus.map List.length).sum := by
    induction nalus with
    | nil => rfl
    | cons n ns ih =>
      simp only [List.map_cons, List.flatten_cons, List.length_append, List.length_cons, List.sum_cons,
        List.length_nil, ih]
      omega
  rw [annexb, payloadSize, List.length_append, List.length_append, hrest]
  simp only [List.length_cons, List.length_nil, List.map_cons, List.sum_cons]
  omega

/-- A packet with one timestamp: it is the `dts` as well. -/
theorem decode_onlyPts (h : PESPacketHeader) {len : ℕ} (hlt : len < 2 ^ 16) (pts : ℕ) {body data : Bytes}
    (hle : len ≤ 8 + body.length) (hdata : data =
      [0, 0, 1, 0xe0] ++ (putBE 2 len ++ ([0x80, 0x80, 5] ++ (timestampBytes 2 pts ++ body)))) :
    ∃ h' consumed, PESPacketHeader.decode data h = .ok (h', consumed) ∧ h'.ptsDtsFlags = 2 ∧
      h'.pts = pts % 2 ^ 33 ∧ h'.dts = pts % 2 ^ 33 := by
  have htotal : data.length = 14 + body.length := by
    rw [hdata]
    simp only [List.length_append, putBE_length, timestampBytes_length, List.length_cons,
      List.length_nil]
    omega
  have hload : loadTimestamp data 9 = .ok (pts % 2 ^ 33) := by
    rw [hdata]
    exact loadTimestamp_append ([0, 0, 1, 0xe0] ++ (putBE 2 len ++ [0x80, 0x80, 5])) 2 pts rfl
  have hdec := decode_fixed h 0x80 5 hlt
    (by rw [List.length_append, timestampBytes_length]; omega) hdata
  rw [decodeTimestamps_pts (by rfl) (by omega) hload] at hdec
  simp only [Outcome.ok_bind] at hdec
  rw [skipOptional_none (by rfl) (by rfl) (by omega)] at hdec
  exact ⟨_, _, hdec, rfl, rfl, rfl⟩

theorem decode_ptsDts (h : PESPacketHeader) {len : ℕ} (hlt : len < 2 ^ 16) (pts dts : ℕ)
    {body data : Bytes} (hle : len ≤ 13 + body.length) (hdata : data =
      [0, 0, 1, 0xe0] ++ (putBE 2 len ++ ([0x80, 0xc0, 10] ++
        (timestampBytes 2 pts ++ (timestampBytes 3 dts ++ body))))) :
    ∃ h' consumed, PESPacketHeader.decode data h = .ok (h', consumed) ∧ h'.ptsDtsFlags = 3 ∧
      h'.pts = pts % 2 ^ 33 ∧ h'.dts = dts % 2 ^ 33 := by
  have htotal : data.length = 19 + body.length := by
    rw [hdata]
    simp only [List.length_append, putBE_length, timestampBytes_length, List.length_cons,
      List.length_nil]
    omega
  have hload : loadTimestamp data 9 = .ok (pts % 2 ^ 33) := by
    rw [hdata]
    exact loadTimestamp_append ([0, 0, 1, 0xe0] ++ (putBE 2 len ++ [0x80, 0xc0, 10])) 2 pts rfl
  have hload' : loadTimestamp data 14 = .ok (dts % 2 ^ 33) := by
    have hassoc : data = ([0, 0, 1, 0xe0] ++ (putBE 2 len ++ ([0x80, 0xc0, 10] ++
        timestampBytes 2 pts))) ++ (timestampBytes 3 dts ++ body) := by
      simp only [hdata, List.append_assoc]
    rw [hassoc]
    exact loadTimestamp_append _ 3 dts rfl
  have hdec := decode_fixed h 0xc0 10 hlt
    (by rw [List.length_append, List.length_append, timestampBytes_length, timestampBytes_length]
        omega) hdata
  rw [decodeTimestamps_both (by rfl) (by omega) hload hload'] at hdec
  simp only [Outcome.ok_bind] at hdec
  rw [skipOptional_none (by rfl) (by rfl) (by omega)] at hdec
  exact ⟨_, _, hdec, rfl, rfl, rfl⟩

/-- The header that is read back from the PES packet of an access unit. -/
theorem decode_videoPes (timestamp compositionTime : BitVec 32) (h : PESPacketHeader)
    (nalu : Bytes) (nalus : List Bytes) :
    ∃ h' consumed, PESPacketHeader.decode (videoPes timestamp compositionTime (nalu :: nalus)) h =
        .ok (h', consumed) ∧
      h'.ptsDtsFlags = ptsDtsFlags compositionTime ∧
      h'.pts = (ptsOf timestamp compositionTime).toNat % 2 ^ 33 ∧
      h'.dts = if compositionTime = 0 then (ptsOf timestamp compositionTime).toNat % 2 ^ 33
        else (dtsOf timestamp).toNat % 2 ^ 33 := by
  have hsize := annexb_length nalu nalus
  obtain ⟨len, hlen⟩ : ∃ len, len = (if 0xffff < 3 + pesHeaderDataLength compositionTime +
      payloadSize (nalu :: nalus) then 0
    else 3 + pesHeaderDataLength compositionTime + payloadSize (nalu :: nalus)) := ⟨_, rfl⟩
  have hlt : len < 2 ^ 16 := by
    rw [hlen]
    split <;> omega
  have hle : len ≤ 3 + pesHeaderDataLength compositionTime + (annexb (nalu :: nalus)).length := by
    rw [hlen, hsize]
    split <;> omega
  by_cases hc : compositionTime = 0
  · have hhdl : pesHeaderDataLength compositionTime = 5 := if_pos hc
    have hflags : ptsDtsFlags compositionTime = 2 := if_pos hc
    rw [hflags, if_pos hc]
    refine @decode_onlyPts h _ hlt _ (annexb (nalu :: nalus)) _ (by omega) ?_
    rw [videoPes, videoPesHeader, ← hlen, hhdl, hflags]
    simp [hc]
  · have hhdl : pesHeaderDataLength compositionTime = 10 := if_neg hc
    have hflags : ptsDtsFlags compositionTime = 3 := if_neg hc
    rw [hflags, if_neg hc]
    refine @decode_ptsDts h _ hlt _ _ (annexb (nalu :: nalus)) _ (by omega) ?_
    rw [videoPes, videoPesHeader, ← hlen, hhdl, hflags, if_neg hc]
    simp

/-- The timestamps that are read back are those of the message, modulo 2³³. -/
def TimestampsRight (h : PESPacketHeader) (timestamp compositionTime : BitVec 32)
    (nalus : List Bytes) : Prop :=
  ∃ h' consumed, PESPacketHeader.decode (videoPes timestamp compositionTime nalus) h =
      .ok (h', consumed) ∧
    h'.pts = (timestamp.toNat + compositionTime.toNat) * 90 % 2 ^ 33 ∧
    (h'.ptsDtsFlags = 3 → h'.dts = timestamp.toNat * 90 % 2 ^ 33) ∧
    ((h'.pts : ℤ) - h'.dts) % 2 ^ 33 = compositionTime.toNat * 90

theorem mod_low (x : ℕ) : x % 2 ^ 33 % 2 ^ 32 = x % 2 ^ 32 :=
  Nat.mod_mod_of_dvd x (Nat.pow_dvd_pow 2 (by decide))

theorem ptsOf_iff (ht : timestamp.toNat < 2 ^ 31) (hc : compositionTime.toNat < 2 ^ 23) :
    (ptsOf timestamp compositionTime).toNat % 2 ^ 33 =
        (timestamp.toNat + compositionTime.toNat) * 90 % 2 ^ 33 ↔
      (timestamp.toNat + compositionTime.toNat) * 90 % 2 ^ 33 < 2 ^ 32 := by
  have hsum : (timestamp + compositionTime).toNat = timestamp.toNat + compositionTime.toNat := by
    rw [BitVec.toNat_add, Nat.mod_eq_of_lt (by omega)]
  obtain ⟨x, hx⟩ : ∃ x, x = (timestamp.toNat + compositionTime.toNat) * 90 := ⟨_, rfl⟩
  have hval : (ptsOf timestamp compositionTime).toNat = x % 2 ^ 32 := by
    rw [ptsOf, BitVec.toNat_setWidth, BitVec.toNat_mul, hsum, show (90 : BitVec 32).toNat = 90 from rfl,
      ← hx]
    exact Nat.mod_eq_of_lt (Nat.lt_trans (Nat.mod_lt x (by decide)) (by decide))
  have hlow := mod_low x
  have hlt := Nat.mod_lt x (show 0 < 2 ^ 33 by decide)
  rw [hval, ← hx]
  clear hx hval
  generalize x % 2 ^ 33 = y at hlow hlt ⊢
  rw [← hlow]
  clear hlow
  omega

/-- The sign of the 32-bit product is what the 33rd bit becomes. -/
theorem dtsOf_iff (timestamp : BitVec 32) :
    (dtsOf timestamp).toNat % 2 ^ 33 = timestamp.toNat * 90 % 2 ^ 33 ↔
      timestamp.toNat * 90 % 2 ^ 33 < 2 ^ 31 ∨ 3 * 2 ^ 31 ≤ timestamp.toNat * 90 % 2 ^ 33 := by
  obtain ⟨x, hx⟩ : ∃ x, x = timestamp.toNat * 90 := ⟨_, rfl⟩
  obtain ⟨low, hl⟩ : ∃ low, low = x % 2 ^ 32 := ⟨_, rfl⟩
  have hmul : (timestamp * 90).toNat = low := by
    rw [BitVec.toNat_mul, show (90 : BitVec 32).toNat = 90 from rfl, ← hx, hl]
  have hmsb : (timestamp * 90).msb = decide (2 ^ 31 ≤ low) := by
    rw [BitVec.msb_eq_decide, hmul]
  have hlow := mod_low x
  have hlt : low < 2 ^ 32 := hl ▸ Nat.mod_lt x (by decide)
  have hlt' := Nat.mod_lt x (show 0 < 2 ^ 33 by decide)
  rw [← hl] at hlow
  rw [dtsOf, BitVec.toNat_signExtend, BitVec.toNat_setWidth, hmul, hmsb, ← hx]
  clear hl hmul hmsb hx
  generalize x % 2 ^ 33 = y at hlow hlt' ⊢
  by_cases h : 2 ^ 31 ≤ low
  · rw [if_pos (by simpa using h)]
    omega
  · rw [if_neg (by simpa using h)]
    omega

/-- The timestamps are right just as long as the PTS stays in the lower half of its
33 bits and the DTS, if there is one, in the lowest or the highest quarter. -/
theorem timestampsRight_iff (h : PESPacketHeader) (nalu : Bytes) (nalus : List Bytes)
    (ht : timestamp.toNat < 2 ^ 31) (hc : compositionTime.toNat < 2 ^ 23) :
    TimestampsRight h timestamp compositionTime (nalu :: nalus) ↔
      (timestamp.toNat + compositionTime.toNat) * 90 % 2 ^ 33 < 2 ^ 32 ∧
        (compositionTime ≠ 0 → timestamp.toNat * 90 % 2 ^ 33 < 2 ^ 31 ∨
          3 * 2 ^ 31 ≤ timestamp.toNat * 90 % 2 ^ 33) := by
  obtain ⟨h', consumed, hdec, hflags, hpts, hdts⟩ :=
    decode_videoPes timestamp compositionTime h nalu nalus
  have hp := ptsOf_iff ht hc
  have hd := dtsOf_iff timestamp
  have hright : TimestampsRight h timestamp compositionTime (nalu :: nalus) ↔
      h'.pts = (timestamp.toNat + compositionTime.toNat) * 90 % 2 ^ 33 ∧
      (h'.ptsDtsFlags = 3 → h'.dts = timestamp.toNat * 90 % 2 ^ 33) ∧
      ((h'.pts : ℤ) - h'.dts) % 2 ^ 33 = compositionTime.toNat * 90 := by
    constructor
    · rintro ⟨h'', consumed', hdec', hrest⟩
      rw [hdec] at hdec'
      cases hdec'
      exact hrest
    · exact fun hrest ↦ ⟨h', consumed, hdec, hrest⟩
  rw [hright, hflags, hpts, hdts]
  by_cases hz : compositionTime = 0
  · have hz' : compositionTime.toNat = 0 := by rw [hz]; rfl
    rw [if_pos hz, show ptsDtsFlags compositionTime = 2 from if_pos hz, hp, hz', Int.sub_self]
    constructor
    · rintro ⟨hlow, -, -⟩
      exact ⟨hlow, fun hne ↦ absurd hz hne⟩
    · rintro ⟨hlow, -⟩
      exact ⟨hlow, fun h32 ↦ absurd h32 (by decide), rfl⟩
  · rw [if_neg hz, show ptsDtsFlags compositionTime = 3 from if_neg hz, hp, hd]
    constructor
    · rintro ⟨hlow, hquarter, -⟩
      exact ⟨hlow, fun _ ↦ hquarter rfl⟩
    · rintro ⟨hlow, hquarter⟩
      refine ⟨hlow, fun _ ↦ hquarter hz, ?_⟩
      rw [hp.mpr hlow, hd.mpr (hquarter hz)]
      omega

/-- Ten hours into a stream without composition times. -/
theorem tenHours_right :
    TimestampsRight {} 36000000 0 [[9, 0xf0], [0x65, 1]] :=
  (timestampsRight_iff {} [9, 0xf0] [[0x65, 1]] (by decide) (by decide)).mpr (by decide)

/-- After seven hours the DTS of a message with a composition time is read back as
6562967296 instead of 2268000000. -/
theorem sevenHours_wrong : ¬ TimestampsRight {} 25200000 40 [[9, 0xf0], [0x65, 1]] := by
  rintro ⟨h', consumed, hdec, -, hdts, -⟩
  have hval : PESPacketHeader.decode (videoPes 25200000 40 [[9, 0xf0], [0x65, 1]]) {} =
      .ok (⟨24, 3, 10, 2268003600, 6562967296⟩, 19) := by
    decide +kernel
  rw [hval] at hdec
  cases hdec
  exact absurd (hdts rfl) (by decide)

end Main

end MmsServer.Ts.PesTimestamps
