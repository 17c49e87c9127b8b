import MmsServer.Rtmp.ChunkRoundTrip

namespace MmsServer.Rtmp.ChunkFormat

open Function Lib.ByteReader Lib.Incremental Define ChunkReceiver ChunkRoundTrip

variable {σ : Type}

section Wire

/-- The basic headers of one, two and three bytes. An id from 64 to 319 has two of them. -/
inductive ChunkId
  | short (id : Fin 62)
  | medium (id : Fin 256)
  | long (id : Fin 65536)
deriving DecidableEq

def ChunkId.csid : ChunkId → ℕ
  | .short id => id + 2
  | .medium id => id + 64
  | .long id => id + 64

def ChunkId.bytes (fmt : ChunkFmt) : ChunkId → Bytes
  | .short id => [UInt8.ofNat (fmt.code * 64 + (id + 2))]
  | .medium id => [UInt8.ofNat (fmt.code * 64), UInt8.ofNat id]
  | .long id => [UInt8.ofNat (fmt.code * 64 + 1), UInt8.ofNat (id % 256), UInt8.ofNat (id / 256)]

/-- A time in its 24-bit field, or 0xffffff there and the time behind the header. -/
inductive WireTime
  | short (t : Fin 0xffffff)
  | extended (t : BitVec 32)
deriving DecidableEq

def WireTime.field : WireTime → ℕ
  | .short t => t
  | .extended _ => 0xffffff

def WireTime.extension : WireTime → Bytes
  | .short _ => []
  | .extended t => putBE 4 t.toNat

def WireTime.value : WireTime → BitVec 32
  | .short t => BitVec.ofNat 32 t
  | .extended t => t

inductive WireHeader
  | type0 (time : WireTime) (length : Fin (2 ^ 24)) (typeId : UInt8) (streamId : BitVec 32)
  | type1 (delta : WireTime) (length : Fin (2 ^ 24)) (typeId : UInt8)
  | type2 (delta : WireTime)
  | type3
deriving DecidableEq

def WireHeader.fmt : WireHeader → ChunkFmt
  | .type0 .. => .type0
  | .type1 .. => .type1
  | .type2 .. => .type2
  | .type3 => .type3

def WireHeader.bytes : WireHeader → Bytes
  | .type0 time length typeId streamId =>
    putBE 3 time.field ++ putBE 3 length ++ [typeId] ++ putBE 4 streamId.toNat ++ time.extension
  | .type1 delta length typeId => putBE 3 delta.field ++ putBE 3 length ++ [typeId] ++ delta.extension
  | .type2 delta => putBE 3 delta.field ++ delta.extension
  | .type3 => []

structure WireChunk where
  id : ChunkId
  header : WireHeader
  payload : Bytes
deriving DecidableEq

def WireChunk.csid (k : WireChunk) : ℕ := k.id.csid

def WireChunk.bytes (k : WireChunk) : Bytes :=
  k.id.bytes k.header.fmt ++ k.header.bytes ++ k.payload

def wire (ks : List WireChunk) : Bytes := ks.flatMap WireChunk.bytes

theorem wire_cons (k : WireChunk) (ks : List WireChunk) : wire (k :: ks) = k.bytes ++ wire ks :=
  List.flatMap_cons

theorem chunkId_yields (fmt : ChunkFmt) (id : ChunkId) :
    Yields readBasicHeader (id.bytes fmt) (fmt, id.csid) := by
  have hcode := code_lt fmt
  cases id with
  | short id =>
    have hid := id.isLt
    have hy := readBE_byte (b := fmt.code * 64 + (id + 2)) (by omega)
    refine hy.bind (?_ : Yields _ [] _)
    rw [show (fmt.code * 64 + (id + 2)) / 64 = fmt.code by omega,
      show (fmt.code * 64 + (id + 2)) % 64 = id + 2 by omega, ofCode_code, if_neg (by omega),
      if_neg (by omega)]
    exact .pure _
  | medium id =>
    have hy := readBE_byte (b := fmt.code * 64) (by omega)
    have hy' := readBE_byte id.isLt
    refine hy.bind (?_ : Yields _ [UInt8.ofNat id] _)
    rw [show fmt.code * 64 / 64 = fmt.code by omega, ofCode_code, if_pos (by omega)]
    refine hy'.bind (?_ : Yields _ [] _)
    rw [Nat.add_comm]
    exact .pure _
  | long id =>
    have hid := id.isLt
    have hy := readBE_byte (b := fmt.code * 64 + 1) (by omega)
    have hy' := readBE_byte (b := id % 256) (by omega)
    have hy'' := readBE_byte (b := id / 256) (by omega)
    refine hy.bind (?_ : Yields _ [_, _] _)
    rw [show (fmt.code * 64 + 1) / 64 = fmt.code by omega, ofCode_code, if_neg (by omega),
      if_pos (by omega)]
    refine hy'.bind (?_ : Yields _ [_] _)
    refine hy''.bind (?_ : Yields _ [] _)
    rw [show 64 + (id : ℕ) % 256 + id / 256 * 256 = id + 64 by omega]
    exact .pure _

theorem timeField_read (t : WireTime) : Yields (readBE 3) (putBE 3 t.field) t.field := by
  refine readBE_putBE_of_lt ?_
  cases t with
  | short t =>
    have ht := t.isLt
    simp only [WireTime.field]
    omega
  | extended t => simp [WireTime.field]

theorem extension_read (t : WireTime) :
    Yields (readExtended (BitVec.ofNat 32 t.field)) t.extension t.value := by
  cases t with
  | short t =>
    have ht := t.isLt
    have hi : ¬ 0xffffff ≤ (BitVec.ofNat 32 (t : ℕ)).toInt := by
      rw [toInt_ofNat_of_lt (by omega)]
      omega
    show Yields (readExtended (BitVec.ofNat 32 t)) [] (BitVec.ofNat 32 t)
    rw [readExtended, if_neg hi]
    exact .pure _
  | extended t =>
    show Yields (readExtended (BitVec.ofNat 32 0xffffff)) (putBE 4 t.toNat) t
    rw [readExtended, if_pos (by decide), ← List.append_nil (putBE 4 t.toNat)]
    refine (streamField_yields t).bind ?_
    rw [ofNat_toNat]
    exact .pure t

theorem length_read (length : Fin (2 ^ 24)) : Yields (readBE 3) (putBE 3 length) length := by
  have hl := length.isLt
  exact readBE_putBE_of_lt (by omega)

theorem setLow24_length (length : Fin (2 ^ 24)) : (setLow24 0 length).toNat = length := by
  have hl := length.isLt
  rw [setLow24_zero, BitVec.toNat_ofNat, Nat.mod_eq_of_lt (by omega)]

theorem type0_read (time : WireTime) (length : Fin (2 ^ 24)) (typeId : UInt8) (streamId : BitVec 32) :
    Yields (readType0 {}) (WireHeader.type0 time length typeId streamId).bytes
      ⟨0, time.value, setLow24 0 length, typeId, streamId⟩ := by
  simp only [WireHeader.bytes, List.append_assoc]
  refine (timeField_read time).bind ((length_read length).bind
    ((typeField_yields typeId).bind ((streamField_yields streamId).bind ?_)))
  rw [setLow24_zero, ← List.append_nil time.extension]
  refine (extension_read time).bind ?_
  rw [UInt8.ofNat_toNat, ofNat_toNat]
  exact .pure _

theorem type1_read (c : RtmpChunk) (first : Bool) (delta : WireTime) (length : Fin (2 ^ 24))
    (typeId : UInt8) :
    Yields (readType1 c first {}) (WireHeader.type1 delta length typeId).bytes
      ⟨delta.value, advance c first delta.value, setLow24 0 length, typeId,
        c.chunkMessageHeader.messageStreamId⟩ := by
  simp only [WireHeader.bytes, List.append_assoc]
  refine (timeField_read delta).bind ((length_read length).bind ((typeField_yields typeId).bind ?_))
  rw [← List.append_nil delta.extension]
  refine (extension_read delta).bind ?_
  rw [UInt8.ofNat_toNat]
  exact .pure _

theorem type2_read (c : RtmpChunk) (first : Bool) (delta : WireTime) :
    Yields (readType2 c first) (WireHeader.type2 delta).bytes
      ⟨delta.value, advance c first delta.value, c.chunkMessageHeader.messageLength,
        c.chunkMessageHeader.messageTypeId, c.chunkMessageHeader.messageStreamId⟩ := by
  simp only [WireHeader.bytes]
  refine (timeField_read delta).bind ?_
  rw [← List.append_nil delta.extension]
  exact (extension_read delta).bind (.pure _)

end Wire

section Progress

/-- What the chunks of a chunk stream have announced and carried: the length of
the latest message, and how much of it has come if it is not complete. -/
structure Progress where
  length : ℕ
  received : ℕ
deriving DecidableEq

def received (past : Option Progress) : ℕ := past.elim 0 Progress.received

/-- The message length that a header announces, if the stream's past allows it. -/
def WireHeader.announced (past : Option Progress) : WireHeader → Option ℕ
  | .type0 _ length _ _ => some length
  | .type1 _ length _ => past.map fun _ ↦ length
  | .type2 _ => past.map Progress.length
  | .type3 => past.map Progress.length

/-- The chunk `k` may follow: its header can be resolved, it does not change the
length of a message under way, and it carries a full chunk or all that is left. -/
structure Fits (n : BitVec 32) (past : Option Progress) (k : WireChunk) (len : ℕ) : Prop where
  chunkSize : 0 < n.toInt
  announces : k.header.announced past = some len
  continues : ∀ p, past = some p → 0 < p.received → p.length = len
  bounded : len < maxRtmpBufBytes
  payload : (k.payload.length : ℤ) = min n.toInt ((len : ℤ) - received past)

def isLast (past : Option Progress) (k : WireChunk) : Bool :=
  k.header.announced past == some (received past + k.payload.length)

def advanced (past : Option Progress) (k : WireChunk) : Option Progress :=
  (k.header.announced past).map fun len ↦
    ⟨len, if isLast past k then 0 else received past + k.payload.length⟩

def WellFormed (n : BitVec 32) : Option Progress → List WireChunk → Prop
  | _, [] => True
  | past, k :: ks => (∃ len, Fits n past k len) ∧ WellFormed n (advanced past k) ks

inductive Represents : Option Progress → Option RtmpChunk → Prop
  | fresh : Represents none none
  | idle {hdr : ChunkMessageHeader} :
      Represents (some ⟨hdr.messageLength.toNat, 0⟩) (some ⟨hdr, none⟩)
  | underway {hdr : ChunkMessageHeader} {msg : RtmpMessage} : 0 < msg.usingData.length →
      msg.dataBytes = hdr.messageLength.toNat →
      Represents (some ⟨hdr.messageLength.toNat, msg.usingData.length⟩) (some ⟨hdr, some msg⟩)

variable {n : BitVec 32} {past : Option Progress} {e : Option RtmpChunk} {k : WireChunk} {len : ℕ}

theorem Represents.length {p : Progress} {c : RtmpChunk} (hr : Represents (some p) (some c)) :
    c.chunkMessageHeader.messageLength.toNat = p.length := by
  cases hr <;> rfl

theorem header_read (hr : Represents past e) (ha : k.header.announced past = some len) (first : Bool) :
    ∃ hdr, hdr.messageLength.toNat = len ∧ ∀ rest,
      readMessageHeader k.header.fmt e first {} (k.header.bytes ++ rest) = .ok hdr rest := by
  cases hk : k.header with
  | type0 time length typeId streamId =>
    simp only [hk, WireHeader.announced, Option.some_inj] at ha
    refine ⟨_, ?_, fun rest ↦ ofRead_ok.mpr (type0_read time length typeId streamId rest)⟩
    exact (setLow24_length length).trans ha
  | type1 delta length typeId =>
    simp only [hk, WireHeader.announced, Option.map_eq_some_iff] at ha
    obtain ⟨p, rfl, ha⟩ := ha
    cases e with
    | none => cases hr
    | some c =>
      refine ⟨_, ?_, fun rest ↦ ofRead_ok.mpr (type1_read c first delta length typeId rest)⟩
      exact (setLow24_length length).trans ha
  | type2 delta =>
    simp only [hk, WireHeader.announced, Option.map_eq_some_iff] at ha
    obtain ⟨p, rfl, ha⟩ := ha
    cases e with
    | none => cases hr
    | some c =>
      refine ⟨_, ?_, fun rest ↦ ofRead_ok.mpr (type2_read c first delta rest)⟩
      exact hr.length.trans ha
  | type3 =>
    simp only [hk, WireHeader.announced, Option.map_eq_some_iff] at ha
    obtain ⟨p, rfl, ha⟩ := ha
    cases e with
    | none => cases hr
    | some c => exact ⟨_, hr.length.trans ha, fun rest ↦ rfl⟩

/-- The message that a chunk continues, or the one its stream's next message will fill. -/
theorem target_read (hr : Represents past e) (hf : Fits n past k len) {hdr : ChunkMessageHeader}
    (hh : hdr.messageLength.toNat = len) :
    (target hdr (e.bind RtmpChunk.rtmpMessage)).dataBytes = len ∧
      (target hdr (e.bind RtmpChunk.rtmpMessage)).usingData.length = received past := by
  cases hr with
  | fresh => exact ⟨hh, rfl⟩
  | idle => exact ⟨hh, rfl⟩
  | underway hpos hsize => exact ⟨hsize.trans (hf.continues _ rfl hpos), rfl⟩

theorem toInt_of_toNat {w : BitVec 32} (hw : w.toNat = len) (hlen : len < maxRtmpBufBytes) :
    w.toInt = len := by
  rw [maxRtmpBufBytes] at hlen
  rw [BitVec.toInt_eq_toNat_cond, hw, if_pos (by omega)]

/-- The receiver takes the chunk from the front of the buffer and copies its
payload behind what it has of the message. Header and message depend on the
chunk stream's own record only. -/
theorem recvStep_wire (hr : Represents past e) (hf : Fits n past k len) :
    ∃ hdr msg, hdr.messageLength.toNat = len ∧ msg.dataBytes = len ∧
      msg.usingData.length = received past + k.payload.length ∧
      ∀ (h : Handler σ) (s : RecvState) (app : σ) (rest : Bytes), s.inChunkSize = n →
        s.recvChunkStreams k.csid = e →
        recvStep h (s, app) (k.bytes ++ rest) = finishChunk h s app k.csid hdr msg k.bytes.length := by
  obtain ⟨hdr, hh, hread⟩ :=
    header_read hr hf.announces (e.bind RtmpChunk.rtmpMessage).isNone
  obtain ⟨hsize, hused⟩ := target_read hr hf hh
  have hpay := hf.payload
  have hn := hf.chunkSize
  have hint := toInt_of_toNat hh hf.bounded
  have hun : (target hdr (e.bind RtmpChunk.rtmpMessage)).unuse = len - received past := by
    rw [Packet.unuse, hsize, hused]
  have hfit : k.payload.length ≤ (target hdr (e.bind RtmpChunk.rtmpMessage)).unuse := by
    rw [hun]
    omega
  refine ⟨hdr, { target hdr (e.bind RtmpChunk.rtmpMessage) with
    toPacket := (target hdr (e.bind RtmpChunk.rtmpMessage)).append k.payload hfit }, hh, hsize, ?_, ?_⟩
  · exact List.length_append.trans (by rw [hused])
  · intro h s app rest hs he
    rw [WireChunk.csid] at he ⊢
    have hb := chunkId_yields k.header.fmt k.id k.header.bytes
    have hm := hread []
    rw [List.append_nil, ← he] at hm
    have hcps : chunkPayloadSize s hdr (target hdr (e.bind RtmpChunk.rtmpMessage)) = k.payload.length := by
      rw [chunkPayloadSize, hs, hint, hused, hpay]
    have hbig : ¬ (maxRtmpBufBytes : ℤ) ≤ (len : ℤ) := by
      have hlt := hf.bounded
      omega
    rw [WireChunk.bytes, List.append_assoc, recvStep_of_header h (s, app) hb hm]
    simp only [List.nil_append, List.length_nil, Nat.sub_zero, receivePayload, he, hcps, hint,
      Int.toNat_natCast, List.take_left']
    rw [if_neg hbig, if_neg (by rw [List.length_append]; omega), dif_pos ⟨by omega, Int.ofNat_le.mpr hfit⟩]
    simp only [List.length_append]

theorem isLast_iff (hf : Fits n past k len) :
    isLast past k = true ↔ received past + k.payload.length = len := by
  rw [isLast, hf.announces, beq_iff_eq, Option.some_inj]
  exact eq_comm

theorem advanced_eq (hf : Fits n past k len) :
    advanced past k = some ⟨len, if isLast past k then 0 else received past + k.payload.length⟩ := by
  rw [advanced, hf.announces, Option.map_some]

/-- A handler that goes on after the messages of a chunk stream and leaves the
receiver as it is. -/
def GoesOn (h : Handler σ) (csid : ℕ) : Prop :=
  ∀ app s msg, msg.chunkStreamId = csid → ∃ app', h app s msg = (true, app', s)

theorem finishChunk_incomplete_wire (h : Handler σ) (s : RecvState) (app : σ) (csid : ℕ)
    {hdr : ChunkMessageHeader} {msg : RtmpMessage} (hh : hdr.messageLength.toNat = len)
    (hlen : len < maxRtmpBufBytes) (hsize : msg.dataBytes = len) (hne : msg.usingData.length ≠ len)
    (pos : ℕ) :
    finishChunk h s app csid hdr msg pos = .take pos (s.install csid hdr msg, app) [] := by
  have hl : ¬ (msg.usingData.length : ℤ) = hdr.messageLength.toInt := by
    rw [toInt_of_toNat hh hlen]
    omega
  rw [finishChunk, if_neg hl, if_neg (by omega)]

theorem finishChunk_complete_wire {h : Handler σ} {csid : ℕ} (hgo : GoesOn h csid) (s : RecvState)
    (app : σ) {hdr : ChunkMessageHeader} {msg : RtmpMessage} (hh : hdr.messageLength.toNat = len)
    (hlen : len < maxRtmpBufBytes) (hused : msg.usingData.length = len) (pos : ℕ) :
    ∃ app', finishChunk h s app csid hdr msg pos =
      .take pos (settle s csid hdr, app') [msg.fill csid hdr] := by
  have hl : (msg.usingData.length : ℤ) = hdr.messageLength.toInt := by
    rw [toInt_of_toNat hh hlen, hused]
  obtain ⟨app', happ⟩ := hgo app (s.install csid hdr (msg.fill csid hdr)) (msg.fill csid hdr) rfl
  refine ⟨app', ?_⟩
  simp only [finishChunk, hl, if_true, happ, dropMessage_install]

theorem represents_underway (hf : Fits n past k len) {hdr : ChunkMessageHeader} {msg : RtmpMessage}
    (hh : hdr.messageLength.toNat = len) (hsize : msg.dataBytes = len)
    (hused : msg.usingData.length = received past + k.payload.length)
    (hne : msg.usingData.length ≠ len) : Represents (advanced past k) (some ⟨hdr, some msg⟩) := by
  have hpay := hf.payload
  have hn := hf.chunkSize
  rw [advanced_eq hf, if_neg (mt (isLast_iff hf).mp (by omega)), ← hused, ← hh]
  exact .underway (by omega) (hsize.trans hh.symm)

/-- A chunk that fits changes the record of its own chunk stream only, and the
new record and the delivered message depend on nothing else. -/
theorem recvStep_taken (σ : Type) (hr : Represents past e) (hf : Fits n past k len) :
    ∃ e' out, Represents (advanced past k) e' ∧
      out.map RtmpMessage.chunkStreamId = (if isLast past k then [k.csid] else []) ∧
      ∀ (h : Handler σ) (s : RecvState) (app : σ) (rest : Bytes), GoesOn h k.csid →
        s.inChunkSize = n → s.recvChunkStreams k.csid = e →
        ∃ app', recvStep h (s, app) (k.bytes ++ rest) = .take k.bytes.length
          ({ s with recvChunkStreams := update s.recvChunkStreams k.csid e' }, app') out := by
  obtain ⟨hdr, msg, hh, hsize, hused, hstep⟩ := recvStep_wire hr hf
  have hlast := isLast_iff hf
  by_cases hl : isLast past k = true
  · rw [advanced_eq hf, if_pos hl, if_pos hl]
    refine ⟨some ⟨hdr, none⟩, [msg.fill k.csid hdr], hh ▸ .idle, rfl, ?_⟩
    intro h s app rest hgo hs he
    rw [hstep h s app rest hs he]
    exact finishChunk_complete_wire hgo s app hh hf.bounded (hused.trans (hlast.mp hl)) _
  · have hne : msg.usingData.length ≠ len := by
      rw [hused]
      exact mt hlast.mpr hl
    rw [if_neg hl]
    refine ⟨some ⟨hdr, some msg⟩, [], represents_underway hf hh hsize hused hne, rfl, ?_⟩
    intro h s app rest _ hs he
    rw [hstep h s app rest hs he]
    exact ⟨app, finishChunk_incomplete_wire h s app k.csid hh hf.bounded hsize hne _⟩

end Progress

end MmsServer.Rtmp.ChunkFormat
