import MmsServer.Ts.PesHeader

namespace MmsServer.Ts.PesPacket

open Lib.ByteReader Lib.Checked PesTimestamps PesHeader

section Syntax

abbrev Field (n : ℕ) := { bs : Bytes // bs.length = n }

abbrev CountedField (n : ℕ) := { bs : Bytes // bs.length < n }

def Field.bytes {n : ℕ} : Option (Field n) → Bytes
  | none => []
  | some bs => bs.1

def CountedField.bytes (marker : ℕ) {n : ℕ} : Option (CountedField n) → Bytes
  | none => []
  | some bs => UInt8.ofNat (marker + bs.1.length) :: bs.1

inductive Timestamps
  | none
  | pts (pts : Field 5)
  | both (pts dts : Field 5)

def Timestamps.flags : Timestamps → ℕ
  | .none => 0
  | .pts _ => 2
  | .both _ _ => 3

def Timestamps.bytes : Timestamps → Bytes
  | .none => []
  | .pts bs => bs.1
  | .both bs bs' => bs.1 ++ bs'.1

/-- The private data are 128 bits. -/
structure PESExtension where
  reserved : Fin 8
  pesPrivateData : Option (Field 16)
  packHeader : Option (CountedField 256)
  programPacketSequenceCounter : Option (Field 2)
  pStdBuffer : Option (Field 2)
  pesExtensionField : Option (CountedField 128)

def PESExtension.flags (e : PESExtension) : ℕ :=
  2 ^ 7 * e.pesPrivateData.isSome.toNat + 2 ^ 6 * e.packHeader.isSome.toNat +
    2 ^ 5 * e.programPacketSequenceCounter.isSome.toNat + 2 ^ 4 * e.pStdBuffer.isSome.toNat +
    2 * e.reserved + e.pesExtensionField.isSome.toNat

def PESExtension.bytes (e : PESExtension) : Bytes :=
  UInt8.ofNat e.flags :: (Field.bytes e.pesPrivateData ++ (CountedField.bytes 0 e.packHeader ++
    (Field.bytes e.programPacketSequenceCounter ++ (Field.bytes e.pStdBuffer ++
      CountedField.bytes 128 e.pesExtensionField))))

def extensionBytes : Option PESExtension → Bytes
  | none => []
  | some e => e.bytes

/-- The fields that `PES_header_data_length` covers, the stuffing with them. -/
structure HeaderData where
  timestamps : Timestamps
  escr : Option (Field 5)
  esRate : Option (Field 3)
  trickMode : Option (Field 1)
  additionalCopyInfo : Option (Field 1)
  pesCrc : Option (Field 2)
  extension : Option PESExtension
  stuffing : Bytes

def HeaderData.flags (d : HeaderData) : ℕ :=
  2 ^ 6 * d.timestamps.flags + 2 ^ 5 * d.escr.isSome.toNat + 2 ^ 4 * d.esRate.isSome.toNat +
    2 ^ 3 * d.trickMode.isSome.toNat + 2 ^ 2 * d.additionalCopyInfo.isSome.toNat +
    2 * d.pesCrc.isSome.toNat + d.extension.isSome.toNat

def HeaderData.fields (d : HeaderData) : Bytes :=
  d.timestamps.bytes ++ (Field.bytes d.escr ++ (Field.bytes d.esRate ++ (Field.bytes d.trickMode ++
    (Field.bytes d.additionalCopyInfo ++ Field.bytes d.pesCrc))))

def HeaderData.bytes (d : HeaderData) : Bytes :=
  d.fields ++ (extensionBytes d.extension ++ d.stuffing)

/-- A PES packet with a header, and what stands behind it in the buffer. What no
position depends on is left open. -/
structure PESPacket where
  streamId : UInt8
  hasHeader : (streamId.toNat : ℤ) ∉ headerlessStreams
  pesPacketLength : ℕ
  flags : UInt8
  headerData : HeaderData
  payload : Bytes
  length_lt : headerData.bytes.length < 256
  packetLength_lt : pesPacketLength < 2 ^ 16
  whole : pesPacketLength ≤ 3 + headerData.bytes.length + payload.length

def PESPacket.pesHeaderDataLength (p : PESPacket) : ℕ := p.headerData.bytes.length

def PESPacket.encode (p : PESPacket) : Bytes :=
  [0, 0, 1, p.streamId] ++ (putBE 2 p.pesPacketLength ++
    ([p.flags, UInt8.ofNat p.headerData.flags, UInt8.ofNat p.pesHeaderDataLength] ++
      (p.headerData.bytes ++ p.payload)))

variable {p : PESPacket}

theorem Field.bytes_length {n : ℕ} (o : Option (Field n)) :
    (Field.bytes o).length = sizeIf o.isSome n := by
  cases o with
  | none => rfl
  | some bs => exact bs.2

theorem CountedField.bytes_pos (marker : ℕ) {n : ℕ} {o : Option (CountedField n)}
    (h : o.isSome = true) : 1 ≤ (CountedField.bytes marker o).length := by
  obtain ⟨bs, rfl⟩ := Option.isSome_iff_exists.mp h
  exact Nat.le_add_left 1 bs.1.length

theorem Timestamps.bytes_length (t : Timestamps) : t.bytes.length = timestampSize t.flags := by
  cases t with
  | none => rfl
  | pts bs => exact bs.2
  | both bs bs' => rw [Timestamps.bytes, List.length_append, bs.2, bs'.2]; rfl

theorem bit_eq {v i : ℕ} {b : Bool} (h : v / 2 ^ i % 2 = b.toNat) : bit v i = b := by
  rw [bit, h]
  cases b <;> rfl

theorem Timestamps.flags_lt (t : Timestamps) : t.flags < 4 := by
  cases t <;> simp [Timestamps.flags]

theorem HeaderData.bits (d : HeaderData) : d.flags < 256 ∧
    d.flags / 2 ^ 6 % 4 = d.timestamps.flags ∧ bit d.flags 5 = d.escr.isSome ∧
    bit d.flags 4 = d.esRate.isSome ∧ bit d.flags 3 = d.trickMode.isSome ∧
    bit d.flags 2 = d.additionalCopyInfo.isSome ∧ bit d.flags 1 = d.pesCrc.isSome ∧
    bit d.flags 0 = d.extension.isSome := by
  have htime := d.timestamps.flags_lt
  have h5 := d.escr.isSome.toNat_le
  have h4 := d.esRate.isSome.toNat_le
  have h3 := d.trickMode.isSome.toNat_le
  have h2 := d.additionalCopyInfo.isSome.toNat_le
  have h1 := d.pesCrc.isSome.toNat_le
  have h0 := d.extension.isSome.toNat_le
  have hflags : d.flags = 2 ^ 6 * d.timestamps.flags + 2 ^ 5 * d.escr.isSome.toNat +
      2 ^ 4 * d.esRate.isSome.toNat + 2 ^ 3 * d.trickMode.isSome.toNat +
      2 ^ 2 * d.additionalCopyInfo.isSome.toNat + 2 * d.pesCrc.isSome.toNat +
      d.extension.isSome.toNat := rfl
  refine ⟨by omega, by omega, bit_eq (by omega), bit_eq (by omega), bit_eq (by omega),
    bit_eq (by omega), bit_eq (by omega), bit_eq (by omega)⟩

theorem PESExtension.bits (e : PESExtension) : e.flags < 256 ∧
    bit e.flags 7 = e.pesPrivateData.isSome ∧ bit e.flags 6 = e.packHeader.isSome ∧
    bit e.flags 5 = e.programPacketSequenceCounter.isSome ∧
    bit e.flags 4 = e.pStdBuffer.isSome ∧ bit e.flags 0 = e.pesExtensionField.isSome := by
  have hreserved := e.reserved.isLt
  have h7 := e.pesPrivateData.isSome.toNat_le
  have h6 := e.packHeader.isSome.toNat_le
  have h5 := e.programPacketSequenceCounter.isSome.toNat_le
  have h4 := e.pStdBuffer.isSome.toNat_le
  have h0 := e.pesExtensionField.isSome.toNat_le
  have hflags : e.flags = 2 ^ 7 * e.pesPrivateData.isSome.toNat +
      2 ^ 6 * e.packHeader.isSome.toNat + 2 ^ 5 * e.programPacketSequenceCounter.isSome.toNat +
      2 ^ 4 * e.pStdBuffer.isSome.toNat + 2 * e.reserved + e.pesExtensionField.isSome.toNat := rfl
  refine ⟨by omega, bit_eq (by omega), bit_eq (by omega), bit_eq (by omega), bit_eq (by omega),
    bit_eq (by omega)⟩

theorem HeaderData.fields_length (d : HeaderData) :
    d.fields.length = timestampSize d.timestamps.flags + optionalSize d.flags := by
  obtain ⟨-, -, h5, h4, h3, h2, h1, -⟩ := d.bits
  simp only [HeaderData.fields, List.length_append, Timestamps.bytes_length, Field.bytes_length,
    optionalSize, h5, h4, h3, h2, h1, Nat.add_assoc]

theorem PESPacket.encode_length (p : PESPacket) :
    p.encode.length = 9 + p.pesHeaderDataLength + p.payload.length := by
  simp only [encode, pesHeaderDataLength, List.length_append, List.length_cons, List.length_nil,
    putBE_length]
  omega

theorem PESPacket.byteAt_flags (p : PESPacket) : byteAt p.encode 7 = p.headerData.flags := by
  have hsplit : p.encode = ([0, 0, 1, p.streamId] ++ (putBE 2 p.pesPacketLength ++ [p.flags])) ++
      UInt8.ofNat p.headerData.flags ::
        (UInt8.ofNat p.pesHeaderDataLength :: (p.headerData.bytes ++ p.payload)) := by
    simp [encode]
  rw [hsplit, byteAt_append (by simp [putBE_length]), UInt8.toNat_ofNat']
  exact Nat.mod_eq_of_lt p.headerData.bits.1

theorem PESPacket.byteAt_length (p : PESPacket) : byteAt p.encode 8 = p.pesHeaderDataLength := by
  have hsplit : p.encode = ([0, 0, 1, p.streamId] ++ (putBE 2 p.pesPacketLength ++
      [p.flags, UInt8.ofNat p.headerData.flags])) ++
        UInt8.ofNat p.pesHeaderDataLength :: (p.headerData.bytes ++ p.payload) := by
    simp [encode]
  rw [hsplit, byteAt_append (by simp [putBE_length]), UInt8.toNat_ofNat']
  exact Nat.mod_eq_of_lt p.length_lt

theorem PESPacket.fields_le (p : PESPacket) :
    p.headerData.fields.length + (extensionBytes p.headerData.extension).length ≤
      p.pesHeaderDataLength := by
  simp only [pesHeaderDataLength, HeaderData.bytes, List.length_append]
  omega

theorem PESPacket.extensionStart_encode (p : PESPacket) :
    extensionStart p.encode = 9 + p.headerData.fields.length := by
  rw [extensionStart, p.byteAt_flags, p.headerData.fields_length, p.headerData.bits.2.1]
  omega

theorem PESPacket.encode_starts (p : PESPacket) : HeaderStarts p.encode where
  codePrefix := rfl
  whole := by
    have hlength : ((p.encode.drop 4).take 2) = putBE 2 p.pesPacketLength :=
      List.take_left' (putBE_length 2 p.pesPacketLength)
    have hwhole := p.whole
    have hlt := p.packetLength_lt
    rw [hlength, fromBE_putBE, p.encode_length, pesHeaderDataLength]
    omega
  timestamps := by
    have hfields := p.fields_le
    rw [p.byteAt_flags, p.headerData.bits.2.1, p.encode_length]
    rw [p.headerData.fields_length] at hfields
    omega

end Syntax

section Extension

variable {data front rest : Bytes} {e : PESExtension} {pos : ℤ}

theorem signedByte_eq (width v : ℕ) : signedByte width v =
    if 2 * (v % 2 ^ width) < 2 ^ width then ((v % 2 ^ width : ℕ) : ℤ)
    else (v % 2 ^ width : ℕ) - (2 ^ width : ℕ) := by
  rw [signedByte, BitVec.toInt_eq_toNat_cond, BitVec.toNat_ofNat]

theorem PESExtension.bytes_length (e : PESExtension) : e.bytes.length =
    1 + sizeIf e.pesPrivateData.isSome 16 + (CountedField.bytes 0 e.packHeader).length +
      sizeIf e.programPacketSequenceCounter.isSome 2 + sizeIf e.pStdBuffer.isSome 2 +
      (CountedField.bytes 128 e.pesExtensionField).length := by
  simp only [PESExtension.bytes, List.length_cons, List.length_append, Field.bytes_length]
  omega

theorem extension_bits (hdata : data = front ++ (e.bytes ++ rest)) (hp : pos = front.length) :
    bit (byteAt data pos) 7 = e.pesPrivateData.isSome ∧
      bit (byteAt data pos) 6 = e.packHeader.isSome ∧
      bit (byteAt data pos) 5 = e.programPacketSequenceCounter.isSome ∧
      bit (byteAt data pos) 4 = e.pStdBuffer.isSome ∧
      bit (byteAt data pos) 0 = e.pesExtensionField.isSome := by
  have hflags : byteAt data pos = e.flags := by
    rw [hdata, PESExtension.bytes, List.cons_append, byteAt_append hp, UInt8.toNat_ofNat']
    exact Nat.mod_eq_of_lt e.bits.1
  rw [hflags]
  exact e.bits.2

/-- The pack header is left where it ends, or 256 bytes before. -/
theorem packEnd_cases (hdata : data = front ++ (e.bytes ++ rest)) (hp : pos = front.length)
    (hpriv : e.pesPrivateData = none) :
    packEnd data pos = pos + 1 + (CountedField.bytes 0 e.packHeader).length ∨
      packEnd data pos + 256 = pos + 1 + (CountedField.bytes 0 e.packHeader).length := by
  obtain ⟨h7, h6, -⟩ := extension_bits hdata hp
  rw [packEnd, countedEnd, packStart, h6, h7, hpriv]
  cases hpack : e.packHeader with
  | none => exact .inl rfl
  | some bs =>
    have hlt := bs.2
    have hbyte : byteAt data (pos + 1) = bs.1.length := by
      have hsplit : data = (front ++ [UInt8.ofNat e.flags]) ++ UInt8.ofNat (0 + bs.1.length) ::
          (bs.1 ++ (Field.bytes e.programPacketSequenceCounter ++ (Field.bytes e.pStdBuffer ++
            CountedField.bytes 128 e.pesExtensionField)) ++ rest) := by
        simp [hdata, PESExtension.bytes, hpriv, hpack, Field.bytes, CountedField.bytes]
      rw [hsplit, byteAt_append (by simp [hp]), UInt8.toNat_ofNat']
      omega
    have hsigned := signedByte_eq 8 bs.1.length
    have hlen : (CountedField.bytes 0 (some bs)).length = bs.1.length + 1 := rfl
    have hsize : sizeIf (none : Option (Field 16)).isSome 128 = 0 := rfl
    rw [hsize, Int.natCast_zero, Int.add_zero, hbyte, hlen, if_pos (Option.isSome_some)]
    split at hsigned <;> omega

theorem lastStart_eq (hdata : data = front ++ (e.bytes ++ rest)) (hp : pos = front.length) :
    bufferStart data pos = packEnd data pos + sizeIf e.programPacketSequenceCounter.isSome 2 ∧
      lastStart data pos = packEnd data pos + sizeIf e.programPacketSequenceCounter.isSome 2 +
        sizeIf e.pStdBuffer.isSome 2 := by
  obtain ⟨-, -, h5, h4, -⟩ := extension_bits hdata hp
  rw [lastStart, bufferStart, h5, h4]
  exact ⟨rfl, rfl⟩

/-- The length of the extension field is at most what it should be, and at most 63
where another byte is read for it. -/
theorem extensionEnd_le (hdata : data = front ++ (e.bytes ++ rest)) (hp : pos = front.length)
    (hpriv : e.pesPrivateData = none) : extensionEnd data pos ≤ pos + e.bytes.length := by
  have hsize := e.bytes_length
  have hpack := packEnd_cases hdata hp hpriv
  obtain ⟨-, hlast⟩ := lastStart_eq hdata hp
  obtain ⟨-, -, -, -, h0⟩ := extension_bits hdata hp
  rw [extensionEnd, countedEnd, h0]
  rw [hpriv] at hsize
  have hnone : sizeIf (none : Option (Field 16)).isSome 16 = 0 := rfl
  cases hfield : e.pesExtensionField with
  | none =>
    have hfalse : ¬ (none : Option (CountedField 128)).isSome = true := Bool.false_ne_true
    rw [if_neg hfalse]
    omega
  | some bs =>
    have hlt := bs.2
    have hbytes : (CountedField.bytes 128 (some bs)).length = bs.1.length + 1 := rfl
    rw [hfield] at hsize
    rw [if_pos (Option.isSome_some)]
    rcases hpack with hpack | hpack
    · have hbyte : byteAt data (lastStart data pos) = 128 + bs.1.length := by
        have hsplit : data = (front ++ (UInt8.ofNat e.flags :: (CountedField.bytes 0 e.packHeader ++
            (Field.bytes e.programPacketSequenceCounter ++ Field.bytes e.pStdBuffer)))) ++
            UInt8.ofNat (128 + bs.1.length) :: (bs.1 ++ rest) := by
          simp [hdata, PESExtension.bytes, hpriv, hfield, Field.bytes, CountedField.bytes]
        rw [hlast, hpack, hsplit, byteAt_append, UInt8.toNat_ofNat']
        · omega
        · simp only [List.length_append, List.length_cons, Field.bytes_length]
          omega
      have hsigned := signedByte_eq 7 (128 + bs.1.length)
      rw [hbyte]
      split at hsigned <;> omega
    · have hhigh : signedByte 7 (byteAt data (lastStart data pos)) < 64 := (signedByte_bounds 6 _).2
      omega

/-- Without private data the fields are read inside the extension, unless they lead
out of the buffer. -/
theorem extension_fits (hdata : data = front ++ (e.bytes ++ rest)) (hp : pos = front.length)
    (hpriv : e.pesPrivateData = none) (hout : ¬ ExtensionLeadsOut data pos) :
    ExtensionFits data pos := by
  have hlen : data.length = front.length + (e.bytes.length + rest.length) := by
    rw [hdata, List.length_append, List.length_append]
  have hsize := e.bytes_length
  have hpack := packEnd_cases hdata hp hpriv
  obtain ⟨hbuffer, hlast⟩ := lastStart_eq hdata hp
  have hend := extensionEnd_le hdata hp hpriv
  obtain ⟨h7, h6, h5, h4, h0⟩ := extension_bits hdata hp
  rw [hpriv] at h7 hsize
  have hnone : sizeIf (none : Option (Field 16)).isSome 16 = 0 := rfl
  have hstart : packStart data pos = pos + 1 := by
    rw [packStart, h7]
    exact Int.add_zero _
  have hbehind : bit (byteAt data pos) 5 = true ∨ bit (byteAt data pos) 4 = true ∨
      bit (byteAt data pos) 0 = true → 0 ≤ packEnd data pos := by
    intro hbehind
    by_contra hneg
    have hsix := (packEnd_neg (show 0 ≤ pos by omega) (show packEnd data pos < 0 by omega)).1
    have hone := CountedField.bytes_pos 0 (h6 ▸ hsix)
    exact hout ⟨by omega, h7, hsix, by omega, hbehind⟩
  exact
    { privateData := fun h ↦ absurd (h7.symm.trans h) Bool.false_ne_true
      packHeader := by
        intro h
        have hone := CountedField.bytes_pos 0 (h6 ▸ h)
        rw [Inside, hstart]
        omega
      sequenceCounter := by
        intro h
        have hcounter := @sizeIf_of _ 2 (h5 ▸ h)
        have hnonneg := hbehind (.inl h)
        rw [Inside]
        omega
      pStdBuffer := by
        intro h
        have hstd := @sizeIf_of _ 2 (h4 ▸ h)
        have hnonneg := hbehind (.inr (.inl h))
        rw [Inside]
        omega
      extension2 := by
        intro h
        have hone := CountedField.bytes_pos 128 (h0 ▸ h)
        have hnonneg := hbehind (.inr (.inr h))
        rw [Inside]
        omega }

end Extension

section Main

variable {data : Bytes}

def HasPrivateData (data : Bytes) : Prop :=
  bit (byteAt data 7) 0 = true ∧ bit (byteAt data (extensionStart data)) 7 = true

/-- No byte outside the buffer is read, and behind the header of a packet the payload
is found. -/
def DecodesRight (h : PESPacketHeader) (data : Bytes) : Prop :=
  (∀ f, PESPacketHeader.decode data h ≠ .fault f) ∧
    ∀ packet : PESPacket, packet.encode = data →
      ∃ h', PESPacketHeader.decode data h = .ok (h', 9 + packet.pesHeaderDataLength)

/-- With 112 bytes too many for the private data, the fields of the extension still end
inside the header. -/
def PrivateDataFits (data : Bytes) : Prop :=
  HasPrivateData data → ExtensionFits data (extensionStart data) ∧
    extensionEnd data (extensionStart data) ≤ 9 + byteAt data 8

/-- The bytes of the extension, where the decoder looks for them. -/
theorem PESPacket.extension_bytes (p : PESPacket) {e : PESExtension}
    (he : p.headerData.extension = some e) :
    ∃ front rest, p.encode = front ++ (e.bytes ++ rest) ∧ extensionStart p.encode = front.length ∧
      extensionStart p.encode + e.bytes.length ≤ 9 + p.pesHeaderDataLength := by
  refine ⟨[0, 0, 1, p.streamId] ++ (putBE 2 p.pesPacketLength ++ ([p.flags,
    UInt8.ofNat p.headerData.flags, UInt8.ofNat p.pesHeaderDataLength] ++ p.headerData.fields)),
    p.headerData.stuffing ++ p.payload, ?_, ?_, ?_⟩
  · simp [encode, HeaderData.bytes, extensionBytes, he]
  · rw [p.extensionStart_encode]
    simp only [List.length_append, putBE_length, List.length_cons, List.length_nil]
    omega
  · have hle := p.fields_le
    rw [he, extensionBytes] at hle
    rw [p.extensionStart_encode]
    omega

theorem packet_decodes_iff (p : PESPacket) (h : PESPacketHeader) (hout : ¬ LeadsOut p.encode) :
    (∃ h', PESPacketHeader.decode p.encode h = .ok (h', 9 + p.pesHeaderDataLength)) ↔
      PrivateDataFits p.encode := by
  have hlen := p.encode_length
  have hfields := p.fields_le
  have hstart := p.extensionStart_encode
  rw [decode_eq_ok p.encode_starts (by omega) h, PrivateDataFits, HasPrivateData, fieldsEnd,
    p.byteAt_length, p.byteAt_flags]
  obtain ⟨-, -, -, -, -, -, -, hflag⟩ := p.headerData.bits
  cases he : p.headerData.extension with
  | none =>
    rw [hflag, he]
    simp only [Option.isSome_none, Bool.false_eq_true, false_implies, false_and, if_false, true_and,
      iff_true, and_true]
    omega
  | some e =>
    obtain ⟨front, rest, hdata, hp, hle⟩ := p.extension_bytes he
    have hone : 1 ≤ e.bytes.length := Nat.le_add_left 1 _
    rw [hflag, he, if_pos (Option.isSome_some)]
    cases hpriv : e.pesPrivateData with
    | none =>
      have hseven : bit (byteAt p.encode (extensionStart p.encode)) 7 = false := by
        rw [(extension_bits hdata hp).1, hpriv]
        rfl
      have hno : ¬ ExtensionLeadsOut p.encode (extensionStart p.encode) := by
        intro hext
        exact hout ⟨p.encode_starts, by rw [p.byteAt_flags, hflag, he]; rfl, hext⟩
      have hfits := extension_fits hdata hp hpriv hno
      have hend := extensionEnd_le hdata hp hpriv
      rw [hseven]
      simp only [Bool.false_eq_true, and_false, false_implies, iff_true]
      exact ⟨fun _ ↦ ⟨by omega, hfits⟩, by omega, by omega, trivial⟩
    | some bs =>
      have hseven : bit (byteAt p.encode (extensionStart p.encode)) 7 = true := by
        rw [(extension_bits hdata hp).1, hpriv]
        rfl
      rw [hseven]
      constructor
      · rintro ⟨hfits, hend, -⟩ -
        exact ⟨(hfits (Option.isSome_some)).2, hend⟩
      · intro hfits
        obtain ⟨hfits, hend⟩ := hfits ⟨Option.isSome_some, rfl⟩
        exact ⟨fun _ ↦ ⟨by omega, hfits⟩, hend, by omega, rfl⟩

/-- Without a length behind the private data, there have to be 112 bytes of stuffing. -/
theorem privateDataFits_iff (p : PESPacket) {e : PESExtension}
    (he : p.headerData.extension = some e) (hpriv : e.pesPrivateData.isSome = true)
    (hpack : e.packHeader = none) (hfield : e.pesExtensionField = none) :
    PrivateDataFits p.encode ↔
      p.headerData.fields.length + e.bytes.length + 112 ≤ p.pesHeaderDataLength := by
  obtain ⟨front, rest, hdata, hp, -⟩ := p.extension_bytes he
  have hlen := p.encode_length
  have hstart := p.extensionStart_encode
  obtain ⟨hbuffer, hlast⟩ := lastStart_eq hdata hp
  obtain ⟨h7, h6, h5, h4, h0⟩ := extension_bits hdata hp
  rw [hpriv] at h7
  rw [hpack] at h6
  rw [hfield] at h0
  have hpackEnd : packEnd p.encode (extensionStart p.encode) = extensionStart p.encode + 1 + 128 := by
    rw [packEnd, h6, packStart, h7]
    rfl
  have hend : extensionEnd p.encode (extensionStart p.encode) =
      lastStart p.encode (extensionStart p.encode) := by
    rw [extensionEnd, h0]
    rfl
  have hsize := e.bytes_length
  rw [hpriv, hpack, hfield] at hsize
  have hsixteen : sizeIf true 16 = 16 := rfl
  have hnone : ∀ {marker n : ℕ},
      (CountedField.bytes marker (none : Option (CountedField n))).length = 0 := rfl
  rw [hnone, hnone] at hsize
  have hflag : bit (byteAt p.encode 7) 0 = true := by
    rw [p.byteAt_flags, p.headerData.bits.2.2.2.2.2.2.2, he]
    rfl
  rw [PrivateDataFits, p.byteAt_length]
  constructor
  · intro hfits
    obtain ⟨-, hle⟩ := hfits ⟨hflag, h7⟩
    omega
  · rintro hle -
    refine ⟨?_, by omega⟩
    exact
      { privateData := fun _ ↦ ⟨by omega, by omega⟩
        packHeader := fun h ↦ absurd (h6.symm.trans h) Bool.false_ne_true
        sequenceCounter := by
          intro h
          have hcounter := @sizeIf_of _ 2 (h5 ▸ h)
          exact ⟨by omega, by omega⟩
        pStdBuffer := by
          intro h
          have hstd := @sizeIf_of _ 2 (h4 ▸ h)
          exact ⟨by omega, by omega⟩
        extension2 := fun h ↦ absurd (h0.symm.trans h) Bool.false_ne_true }

/-- The decoder is right unless the length of a pack header leads it out of the buffer
to another field, or the private data of a packet are followed by too little. -/
theorem decodesRight_iff (h : PESPacketHeader) (data : Bytes) : DecodesRight h data ↔
    ¬ LeadsOut data ∧ ((∃ packet : PESPacket, packet.encode = data) → PrivateDataFits data) := by
  have hsafe : (∀ f, PESPacketHeader.decode data h ≠ .fault f) ↔ ¬ LeadsOut data := by
    simp only [ne_eq, decode_eq_fault, not_and]
    exact ⟨fun hno ↦ hno _ rfl, fun hno _ _ ↦ hno⟩
  rw [DecodesRight, hsafe]
  refine and_congr_right fun hout ↦ ?_
  constructor
  · rintro hpackets ⟨p, rfl⟩
    exact (packet_decodes_iff p h hout).mp (hpackets p rfl)
  · rintro hfits p rfl
    exact (packet_decodes_iff p h hout).mpr (hfits ⟨p, rfl⟩)

theorem videoStream_hasHeader : ((0xe0 : UInt8).toNat : ℤ) ∉ headerlessStreams := by
  simp [headerlessStreams]

/-- Sixteen bytes of private data, and no stuffing. -/
def privateDataPacket : PESPacket where
  streamId := 0xe0
  hasHeader := videoStream_hasHeader
  pesPacketLength := 0
  flags := 0x80
  headerData :=
    { timestamps := .none
      escr := none
      esRate := none
      trickMode := none
      additionalCopyInfo := none
      pesCrc := none
      extension := some
        { reserved := Fin.last 7
          pesPrivateData := some ⟨List.replicate 16 0, rfl⟩
          packHeader := none
          programPacketSequenceCounter := none
          pStdBuffer := none
          pesExtensionField := none }
      stuffing := [] }
  payload := [0, 0, 0, 1, 9, 0xf0]
  length_lt := by decide +kernel
  packetLength_lt := by decide
  whole := by decide +kernel

/-- The decoder waits for 128 bytes of private data, and a pack header of 128 bytes leads
it to the 117th byte before the buffer, where it reads the P-STD buffer size. -/
theorem privateData_missed : ¬ DecodesRight {} privateDataPacket.encode ∧
    ¬ DecodesRight {} [0, 0, 1, 0xe0, 0, 0, 0x80, 0x01, 5, 0x5e, 0x80, 0x40, 0, 0xff, 0xff] := by
  constructor
  · rintro ⟨-, hpackets⟩
    obtain ⟨h', hdec⟩ := hpackets privateDataPacket rfl
    have hval : PESPacketHeader.decode privateDataPacket.encode {} = .err 0 := by decide +kernel
    rw [hval] at hdec
    cases hdec
  · rintro ⟨hsafe, -⟩
    exact hsafe .overread (by decide +kernel)

end Main

end MmsServer.Ts.PesPacket
