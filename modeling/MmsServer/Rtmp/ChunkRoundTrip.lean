import MmsServer.Rtmp.ChunkReceiver
import MmsServer.Rtmp.ChunkSender

namespace MmsServer.Rtmp.ChunkRoundTrip

open Function Lib.ByteReader Lib.Incremental Define ChunkReceiver ChunkSender

variable {σ : Type}

section Wire

theorem readBE_byte {b : ℕ} (h : b < 256) : Yields (readBE 1) [UInt8.ofNat b] b := by
  have hy := readBE_of_length (show [UInt8.ofNat b].length = 1 from rfl)
  simpa [fromBE, Nat.mod_eq_of_lt h] using hy

theorem basicHeader_yields (fmt : ChunkFmt) {csid : ℕ} (hlow : 2 ≤ csid) (hhigh : csid ≤ 65599) :
    Yields readBasicHeader (basicHeader fmt csid) (fmt, csid) := by
  have hcode := code_lt fmt
  unfold basicHeader
  split
  · have hy := readBE_byte (b := fmt.code * 64 + csid) (by omega)
    refine hy.bind (?_ : Yields _ [] _)
    rw [show (fmt.code * 64 + csid) / 64 = fmt.code by omega,
      show (fmt.code * 64 + csid) % 64 = csid by omega, ofCode_code, if_neg (by omega),
        if_neg (by omega)]
    exact .pure _
  · split
    · have hy := readBE_byte (b := fmt.code * 64) (by omega)
      have hy' := readBE_byte (b := csid - 64) (by omega)
      refine hy.bind (?_ : Yields _ [UInt8.ofNat (csid - 64)] _)
      rw [show fmt.code * 64 / 64 = fmt.code by omega, ofCode_code, if_pos (by omega)]
      refine hy'.bind (?_ : Yields _ [] _)
      rw [show 64 + (csid - 64) = csid by omega]
      exact .pure _
    · rw [if_pos (by omega)]
      have hy := readBE_byte (b := fmt.code * 64 + 1) (by omega)
      have hy' := readBE_byte (b := (csid - 64) % 256) (by omega)
      have hy'' := readBE_byte (b := (csid - 64) / 256) (by omega)
      refine hy.bind (?_ : Yields _ [_, _] _)
      rw [show (fmt.code * 64 + 1) / 64 = fmt.code by omega, ofCode_code, if_neg (by omega),
        if_pos (by omega)]
      refine hy'.bind (?_ : Yields _ [_] _)
      refine hy''.bind (?_ : Yields _ [] _)
      rw [show 64 + (csid - 64) % 256 + (csid - 64) / 256 * 256 = csid by omega]
      exact .pure _

def wireTime (extended : Prop) [Decidable extended] (t : BitVec 32) : ℕ :=
  if extended then 0xffffff else t.toNat

theorem timeField_yields {extended : Prop} [Decidable extended] {t : BitVec 32}
    (h : extended ↔ 0xffffff ≤ t.toNat) :
    Yields (readBE 3) (timeField extended t) (wireTime extended t) := by
  refine readBE_putBE_of_lt ?_
  split
  · decide
  · rename_i he
    have hlt : t.toNat < 0xffffff := Nat.lt_of_not_le (mt h.mpr he)
    omega

theorem ofNat_toNat (t : BitVec 32) : BitVec.ofNat 32 t.toNat = t := by
  rw [BitVec.ofNat_toNat, BitVec.setWidth_eq]

theorem extension_yields {extended : Prop} [Decidable extended] {t : BitVec 32}
    (h : extended ↔ 0xffffff ≤ t.toNat) :
    Yields (readExtended (BitVec.ofNat 32 (wireTime extended t))) (extension extended t) t := by
  have ht := t.isLt
  unfold readExtended extension wireTime
  by_cases he : extended
  · simp only [he, if_true]
    rw [if_pos (by decide), ← List.append_nil (putBE 4 t.toNat)]
    refine (readBE_putBE_of_lt (by omega)).bind ?_
    rw [ofNat_toNat]
    exact .pure t
  · have hlt : t.toNat < 0xffffff := Nat.lt_of_not_le (mt h.mpr he)
    simp only [he, if_false]
    rw [toInt_ofNat_of_lt (by omega), if_neg (by omega), ofNat_toNat]
    exact .pure t

theorem typeField_yields (b : UInt8) : Yields (readBE 1) [b] b.toNat := by
  simpa [fromBE] using readBE_of_length (show [b].length = 1 from rfl)

theorem streamField_yields (t : BitVec 32) : Yields (readBE 4) (putBE 4 t.toNat) t.toNat :=
  readBE_putBE_of_lt t.isLt

theorem lengthField_yields {m : RtmpMessage} (hlen : m.usingData.length < 2 ^ 21) :
    Yields (readBE 3) (putBE 3 m.usingData.length) m.usingData.length :=
  readBE_putBE_of_lt (by omega)

theorem setLow24_zero (v : ℕ) : setLow24 0 v = BitVec.ofNat 32 v := by simp [setLow24]

structure Describes (hdr : ChunkMessageHeader) (m : RtmpMessage) (clock : BitVec 32) : Prop where
  length : hdr.messageLength = messageLength m
  typeId : hdr.messageTypeId = m.messageTypeId
  streamId : hdr.messageStreamId = m.messageStreamId
  timestamp : hdr.timestamp = clock

theorem type0_yields {m : RtmpMessage} (hlen : m.usingData.length < 2 ^ 21)
    (hts : 0 ≤ m.timestamp.toInt) (prev : Option SendChunk) :
    ∃ hdr, Yields (readType0 {}) (messageHeader .type0 prev m) hdr ∧
      Describes hdr m m.timestamp := by
  have hext : 0xffffff ≤ m.timestamp.toInt ↔ 0xffffff ≤ m.timestamp.toNat := by
    have hlt := m.timestamp.isLt
    rw [BitVec.toInt_eq_toNat_cond] at hts ⊢
    omega
  refine ⟨⟨0, m.timestamp, messageLength m, m.messageTypeId, m.messageStreamId⟩, ?_, rfl, rfl, rfl,
    rfl⟩
  simp only [messageHeader, List.append_assoc]
  refine (timeField_yields hext).bind ((lengthField_yields hlen).bind
    ((typeField_yields m.messageTypeId).bind ((streamField_yields m.messageStreamId).bind ?_)))
  rw [setLow24_zero, ← List.append_nil (extension _ _)]
  refine (extension_yields hext).bind ?_
  rw [setLow24_zero, UInt8.ofNat_toNat, ofNat_toNat]
  exact .pure _

theorem type1_yields {m : RtmpMessage} (hlen : m.usingData.length < 2 ^ 21)
    (prev : Option SendChunk) {c : RtmpChunk}
    (hsid : c.chunkMessageHeader.messageStreamId = m.messageStreamId) (first : Bool) :
    ∃ hdr, Yields (readType1 c first {}) (messageHeader .type1 prev m) hdr ∧
      Describes hdr m (advance c first (wireDelta prev m)) := by
  refine ⟨⟨wireDelta prev m, _, messageLength m, m.messageTypeId, _⟩, ?_, rfl, rfl, hsid, rfl⟩
  simp only [messageHeader, List.append_assoc]
  refine (timeField_yields Iff.rfl).bind ((lengthField_yields hlen).bind
    ((typeField_yields m.messageTypeId).bind ?_))
  rw [← List.append_nil (extension _ _)]
  refine (extension_yields Iff.rfl).bind ?_
  rw [setLow24_zero, UInt8.ofNat_toNat]
  exact .pure _

theorem type2_yields {m p : RtmpMessage} (prev : Option SendChunk) {c : RtmpChunk}
    {clock : BitVec 32} (hc : Describes c.chunkMessageHeader p clock)
    (hlen : messageLength p = messageLength m) (htype : p.messageTypeId = m.messageTypeId)
    (hsid : p.messageStreamId = m.messageStreamId) (first : Bool) :
    ∃ hdr, Yields (readType2 c first) (messageHeader .type2 prev m) hdr ∧
      Describes hdr m (advance c first (wireDelta prev m)) := by
  refine ⟨⟨wireDelta prev m, _, _, _, _⟩, ?_, hc.length.trans hlen, hc.typeId.trans htype,
    hc.streamId.trans hsid, rfl⟩
  simp only [messageHeader]
  refine (timeField_yields Iff.rfl).bind ?_
  rw [← List.append_nil (extension _ _)]
  exact (extension_yields Iff.rfl).bind (.pure _)

end Wire

section Message

def accepting (record : σ → RtmpMessage → σ) : Handler σ :=
  fun app s msg ↦ (true, record app msg, s)

def partialMessage (m : RtmpMessage) (pos : ℕ) : RtmpMessage where
  dataBytes := m.usingData.length
  usingData := m.usingData.take pos
  fits := List.length_take_le' pos m.usingData

def delivered (m : RtmpMessage) (clock : BitVec 32) : RtmpMessage where
  dataBytes := m.usingData.length
  usingData := m.usingData
  fits := le_rfl
  messageTypeId := m.messageTypeId
  timestamp := clock
  messageStreamId := m.messageStreamId
  chunkStreamId := m.chunkStreamId

def settle (s : RecvState) (csid : ℕ) (hdr : ChunkMessageHeader) : RecvState :=
  { s with recvChunkStreams := update s.recvChunkStreams csid (some ⟨hdr, none⟩) }

theorem settle_self (s : RecvState) (csid : ℕ) (hdr : ChunkMessageHeader) :
    (settle s csid hdr).recvChunkStreams csid = some ⟨hdr, none⟩ := update_self ..

/-- The receiver will read the header of the next chunk of `m`, which starts at
`pos`, as a description of `m`. -/
def Ready (send : Option SendChunk) (recv : Option RtmpChunk) (m : RtmpMessage) (pos : ℕ)
    (clock : BitVec 32) : Prop :=
  ∃ hdr, Describes hdr m clock ∧
    (∀ rest, readMessageHeader (chooseFmt send m) recv (recv.bind RtmpChunk.rtmpMessage).isNone {}
      (messageHeader (chooseFmt send m) send m ++ rest) = .ok hdr rest) ∧
    target hdr (recv.bind RtmpChunk.rtmpMessage) = partialMessage m pos

structure Sendable (m : RtmpMessage) : Prop where
  csid_low : 2 ≤ m.chunkStreamId
  csid_high : m.chunkStreamId ≤ 65599
  length_pos : 0 < m.usingData.length
  length_lt : m.usingData.length < 2 ^ 21

variable {m : RtmpMessage}

theorem messageLength_toNat (hm : Sendable m) : (messageLength m).toNat = m.usingData.length := by
  have hl := hm.length_lt
  rw [messageLength, BitVec.toNat_ofNat, Nat.mod_eq_of_lt (by omega)]

theorem messageLength_toInt (hm : Sendable m) : (messageLength m).toInt = m.usingData.length := by
  have hl := hm.length_lt
  exact toInt_ofNat_of_lt (by omega)

theorem partialMessage_length {pos : ℕ} (h : pos ≤ m.usingData.length) :
    (partialMessage m pos).usingData.length = pos := by
  rw [partialMessage, List.length_take, Nat.min_eq_left h]

theorem partialMessage_append {pos size : ℕ} {bs : Bytes}
    (hbs : bs = (m.usingData.drop pos).take size) (hfit : bs.length ≤ (partialMessage m pos).unuse) :
    { partialMessage m pos with toPacket := (partialMessage m pos).append bs hfit } =
      partialMessage m (pos + size) := by
  subst hbs
  have ht : m.usingData.take pos ++ (m.usingData.drop pos).take size =
      m.usingData.take (pos + size) :=
    List.take_add.symm
  simp only [partialMessage, Packet.append, ht]

theorem fill_complete {hdr : ChunkMessageHeader} {clock : BitVec 32} (h : Describes hdr m clock) :
    (partialMessage m m.usingData.length).fill m.chunkStreamId hdr = delivered m clock := by
  obtain ⟨hl, ht, hs, hc⟩ := h
  simp [RtmpMessage.fill, partialMessage, delivered, ht, hs, hc]

theorem dropMessage_install (s : RecvState) (csid : ℕ) (hdr : ChunkMessageHeader)
    (msg : RtmpMessage) :
    { s.install csid hdr msg with
      recvChunkStreams := dropMessage (s.install csid hdr msg).recvChunkStreams csid } =
      settle s csid hdr := by
  simp [RecvState.install, dropMessage, settle]

def chunkBytes (send : Option SendChunk) (m : RtmpMessage) (pos size : ℕ) : Bytes :=
  basicHeader (chooseFmt send m) m.chunkStreamId ++ messageHeader (chooseFmt send m) send m ++
    (m.usingData.drop pos).take size

theorem finishChunk_complete (record : σ → RtmpMessage → σ) (s : RecvState) (app : σ)
    {hdr : ChunkMessageHeader} {clock : BitVec 32} (hm : Sendable m) (h : Describes hdr m clock)
    (n : ℕ) :
    finishChunk (accepting record) s app m.chunkStreamId hdr (partialMessage m m.usingData.length) n =
      .take n (settle s m.chunkStreamId hdr, record app (delivered m clock)) [delivered m clock] := by
  have hl : ((partialMessage m m.usingData.length).usingData.length : ℤ) =
      hdr.messageLength.toInt := by
    rw [h.length, messageLength_toInt hm, partialMessage_length le_rfl]
  simp only [finishChunk, hl, if_true, accepting, fill_complete h, dropMessage_install]

theorem finishChunk_incomplete (record : σ → RtmpMessage → σ) (s : RecvState) (app : σ)
    {hdr : ChunkMessageHeader} {clock : BitVec 32} (hm : Sendable m) (h : Describes hdr m clock)
    (n : ℕ) {pos : ℕ} (hpos : pos < m.usingData.length) :
    finishChunk (accepting record) s app m.chunkStreamId hdr (partialMessage m pos) n =
      .take n (s.install m.chunkStreamId hdr (partialMessage m pos), app) [] := by
  have hlt := hm.length_lt
  have hl : ¬ ((partialMessage m pos).usingData.length : ℤ) = hdr.messageLength.toInt := by
    rw [h.length, messageLength_toInt hm, partialMessage_length hpos.le]
    omega
  have hb : ¬ maxRtmpBufBytes ≤ (partialMessage m pos).dataBytes := by
    simp only [partialMessage, maxRtmpBufBytes]
    omega
  simp only [finishChunk, hl, hb, if_false]

/-- The receiver takes a chunk of `m` from the front of the buffer and copies
its payload behind the bytes it has. -/
theorem recvStep_chunk (record : σ → RtmpMessage → σ) (s : RecvState) (app : σ) (hm : Sendable m)
    (hn : 0 < s.inChunkSize.toInt) {send : Option SendChunk} {pos : ℕ} {clock : BitVec 32}
    (hr : Ready send (s.recvChunkStreams m.chunkStreamId) m pos clock)
    (hpos : pos < m.usingData.length) {size : ℕ}
    (hsize : size = min s.inChunkSize.toInt.toNat (m.usingData.length - pos)) :
    ∃ hdr, Describes hdr m clock ∧ ∀ rest,
      recvStep (accepting record) (s, app) (chunkBytes send m pos size ++ rest) =
        finishChunk (accepting record) s app m.chunkStreamId hdr (partialMessage m (pos + size))
          (chunkBytes send m pos size).length := by
  obtain ⟨hdr, hd, hh, ht⟩ := hr
  have hlt := hm.length_lt
  refine ⟨hdr, hd, fun rest ↦ ?_⟩
  have hb := basicHeader_yields (chooseFmt send m) hm.csid_low hm.csid_high
    (messageHeader (chooseFmt send m) send m)
  have hmh := hh []
  rw [List.append_nil] at hmh
  have hlen : ((m.usingData.drop pos).take size).length = size := by
    rw [List.length_take, List.length_drop]; omega
  have hcps : chunkPayloadSize s hdr (partialMessage m pos) = size := by
    rw [chunkPayloadSize, hd.length, messageLength_toInt hm, partialMessage_length hpos.le]
    omega
  have hun : (partialMessage m pos).unuse = m.usingData.length - pos := by
    rw [Packet.unuse, partialMessage_length hpos.le]
    rfl
  rw [chunkBytes, List.append_assoc, recvStep_of_header (accepting record) (s, app) hb hmh]
  simp only [List.nil_append, List.length_nil, Nat.sub_zero, receivePayload, ht, hcps, hd.length,
    messageLength_toInt hm, hun, Int.toNat_natCast]
  have hbig : ¬ (maxRtmpBufBytes : ℤ) ≤ m.usingData.length := by
    simp only [maxRtmpBufBytes]
    omega
  rw [if_neg hbig, if_neg (by rw [List.length_append]; omega), dif_pos ⟨by omega, by omega⟩]
  have hp : ((m.usingData.drop pos).take size ++ rest).take size =
      (m.usingData.drop pos).take size := by
    rw [List.take_append_of_le_length hlen.ge, List.take_of_length_le hlen.le]
  have hl : (basicHeader (chooseFmt send m) m.chunkStreamId ++ messageHeader (chooseFmt send m) send m ++
      (m.usingData.drop pos).take size).length = (basicHeader (chooseFmt send m) m.chunkStreamId ++
      messageHeader (chooseFmt send m) send m).length + size := by
    rw [List.length_append, hlen]
  rw [partialMessage_append hp, hl]

theorem wireDelta_continue (prev : Option SendChunk) (m : RtmpMessage) :
    wireDelta (some (nextChunk prev m)) m = 0 := BitVec.sub_self m.timestamp

theorem chooseFmt_continue (prev : Option SendChunk) (m : RtmpMessage) :
    chooseFmt (some (nextChunk prev m)) m = .type2 ∨
    chooseFmt (some (nextChunk prev m)) m = .type3 := by
  simp only [chooseFmt, nextChunk, true_and, if_true]
  split <;> simp

theorem header_type3 {send : Option SendChunk} (c : RtmpChunk)
    (h : (wireDelta send m).toNat < 0xffffff) (first : Bool) (rest : Bytes) :
    readMessageHeader .type3 (some c) first {} (messageHeader .type3 send m ++ rest) =
      .ok c.chunkMessageHeader rest := by
  simp only [messageHeader, extension, if_neg (Nat.not_le.mpr h), List.nil_append,
    readMessageHeader]

/-- A chunk that continues `m` has a type-2 or a type-3 header, and neither
moves the clock. -/
theorem ready_continue (prev : Option SendChunk) {hdr : ChunkMessageHeader} {clock : BitVec 32}
    (h : Describes hdr m clock) (pos : ℕ) :
    Ready (some (nextChunk prev m)) (some ⟨hdr, some (partialMessage m pos)⟩) m pos clock := by
  have hw := wireDelta_continue prev m
  rcases chooseFmt_continue prev m with hf | hf
  · obtain ⟨hdr', hy, hd⟩ := type2_yields (some (nextChunk prev m))
      (c := ⟨hdr, some (partialMessage m pos)⟩) h rfl rfl rfl false
    refine ⟨hdr', ?_, fun rest ↦ ?_, rfl⟩
    · rwa [advance, if_neg Bool.false_ne_true, h.timestamp] at hd
    · rw [hf]
      exact ofRead_ok.mpr (hy rest)
  · refine ⟨hdr, h, fun rest ↦ ?_, rfl⟩
    rw [hf]
    exact header_type3 ⟨hdr, _⟩ (by rw [hw]; decide) _ rest

theorem settle_install (s : RecvState) (csid : ℕ) (hdr hdr' : ChunkMessageHeader)
    (msg : RtmpMessage) :
    settle (s.install csid hdr msg) csid hdr' = settle s csid hdr' := by
  simp only [settle, RecvState.install, update_idem]

theorem run_message (record : σ → RtmpMessage → σ) (hm : Sendable m) (free : ℕ) (s : RecvState) (app : σ)
    (hn : 0 < s.inChunkSize.toInt) (streams : SendStreams) {pos : ℕ} {clock : BitVec 32}
    (hpos : pos < m.usingData.length)
    (hr : Ready (streams m.chunkStreamId) (s.recvChunkStreams m.chunkStreamId) m pos clock)
    (hok : (sendMessage s.inChunkSize m free (m.usingData.length - pos : ℕ) pos streams).ok = true) :
    ∃ hdr, Describes hdr m clock ∧ ∀ rest,
      run (recvStep (accepting record)) (s, app)
          ((sendMessage s.inChunkSize m free (m.usingData.length - pos : ℕ) pos streams).bytes ++ rest) =
        (run (recvStep (accepting record))
          (settle s m.chunkStreamId hdr, record app (delivered m clock)) rest).emit [delivered m clock] := by
  have hc := (recvStep_lawful (accepting record)).consumes
  induction free generalizing s streams pos with
  | zero =>
    rw [sendMessage, if_neg (by omega)] at hok
    cases hok
  | succ free ih =>
    obtain ⟨size, hsize⟩ : ∃ size, size =
        min s.inChunkSize.toInt.toNat (m.usingData.length - pos) := ⟨_, rfl⟩
    obtain ⟨hdr, hd, hstep⟩ := recvStep_chunk record s app hm hn hr hpos hsize
    have hmin : min s.inChunkSize.toInt ((m.usingData.length - pos : ℕ) : ℤ) = size := by omega
    have hleft : ((m.usingData.length - pos : ℕ) : ℤ) - size =
        (m.usingData.length - (pos + size) : ℕ) := by
      omega
    rw [sendMessage_step m free pos streams (by omega)] at hok ⊢
    simp only [hmin, Int.toNat_natCast, hleft, List.append_assoc] at hok ⊢
    have hchunk (bs : Bytes) :
        basicHeader (chooseFmt (streams m.chunkStreamId) m) m.chunkStreamId ++
        (messageHeader (chooseFmt (streams m.chunkStreamId) m) (streams m.chunkStreamId) m ++
          ((m.usingData.drop pos).take size ++ bs)) =
        chunkBytes (streams m.chunkStreamId) m pos size ++ bs := by
      simp only [chunkBytes, List.append_assoc]
    simp only [hchunk]
    rcases Nat.lt_or_ge (pos + size) m.usingData.length with hlt | hge
    · obtain ⟨hdr', hd', hrun⟩ :=
        ih (s.install m.chunkStreamId hdr (partialMessage m (pos + size))) hn
        (update streams m.chunkStreamId (some (nextChunk (streams m.chunkStreamId) m))) hlt
        (by rw [update_self, install_self]; exact ready_continue _ hd _) hok
      refine ⟨hdr', hd', fun rest ↦ ?_⟩
      rw [run_item hc ((hstep _).trans (finishChunk_incomplete record s app hm hd _ hlt)), emit_nil]
      have hrest := hrun rest
      rw [settle_install] at hrest
      exact hrest
    · have hend : pos + size = m.usingData.length := by omega
      rw [hend] at hstep
      refine ⟨hdr, hd, fun rest ↦ ?_⟩
      rw [sendMessage_done m free (pos + size) _ (by omega)]
      exact run_item hc ((hstep _).trans (finishChunk_complete record s app hm hd _))

end Message

section Session

/-- The last message of every chunk stream, with its distance in time from the
message before it there. -/
abbrev History := ℕ → Option (RtmpMessage × BitVec 32)

def stepFrom (last : Option (RtmpMessage × BitVec 32)) (m : RtmpMessage) : BitVec 32 :=
  last.elim 0 fun p ↦ m.timestamp - p.1.timestamp

def History.push (past : History) (m : RtmpMessage) : History :=
  update past m.chunkStreamId (some (m, stepFrom (past m.chunkStreamId) m))

def TimestampFollows (last : Option (RtmpMessage × BitVec 32)) (m : RtmpMessage) : Prop :=
  match last with
  | none => m.timestamp.toNat < 0xffffff
  | some (p, _) => p.timestamp.toInt ≤ m.timestamp.toInt ∧
      m.timestamp.toInt - p.timestamp.toInt < 0xffffff

/-- On each chunk stream the timestamps start below 0xffffff, never decrease
and grow by less than 0xffffff from one message to the next. -/
def TimestampsOk : History → List RtmpMessage → Prop
  | _, [] => True
  | past, m :: ms => TimestampFollows (past m.chunkStreamId) m ∧ TimestampsOk (past.push m) ms

/-- `m` looks like the message `p` before it, which fits one chunk, and repeats
its distance in time, which is not zero. -/
def RepeatsStep (n : BitVec 32) (p : RtmpMessage) (step : BitVec 32) (m : RtmpMessage) : Prop :=
  p.messageStreamId = m.messageStreamId ∧ p.messageTypeId = m.messageTypeId ∧
    p.usingData.length = m.usingData.length ∧ (p.usingData.length : ℤ) ≤ n.toInt ∧
    m.timestamp - p.timestamp = step ∧ step ≠ 0

def NoStepRepeats (n : BitVec 32) : History → List RtmpMessage → Prop
  | _, [] => True
  | past, m :: ms =>
    (∀ p step, past m.chunkStreamId = some (p, step) → ¬ RepeatsStep n p step m) ∧
      NoStepRepeats n (past.push m) ms

/-- The sender's record of the last message `p` of a chunk stream. The stored
delta is the step of `p`, unless a further chunk of `p` has reset it. -/
structure Remembers (n : BitVec 32) (q : SendChunk) (p : RtmpMessage) (step : BitVec 32) : Prop where
  message : q.rtmpMessage = p
  header : Describes q.chunkMessageHeader p p.timestamp
  delta : q.chunkMessageHeader.timestampDelta = if (p.usingData.length : ℤ) ≤ n.toInt then step else 0

inductive InStep (n : BitVec 32) :
    Option (RtmpMessage × BitVec 32) → Option SendChunk → Option RtmpChunk → BitVec 32 → Prop
  | idle (clock : BitVec 32) : InStep n none none none clock
  | after {p : RtmpMessage} {step clock : BitVec 32} {q : SendChunk} {hdr : ChunkMessageHeader} :
      Remembers n q p step → Describes hdr p clock → Sendable p → 0 ≤ p.timestamp.toInt →
      InStep n (some (p, step)) (some q) (some ⟨hdr, none⟩) clock

inductive Recorded (n : BitVec 32) : Option (RtmpMessage × BitVec 32) → Option SendChunk → Prop
  | idle : Recorded n none none
  | after {p : RtmpMessage} {step : BitVec 32} {q : SendChunk} :
      Remembers n q p step → Sendable p → Recorded n (some (p, step)) (some q)

theorem InStep.recorded {n : BitVec 32} {last : Option (RtmpMessage × BitVec 32)}
    {send : Option SendChunk} {recv : Option RtmpChunk} {clock : BitVec 32}
    (h : InStep n last send recv clock) : Recorded n last send := by
  cases h with
  | idle => exact .idle
  | after hq hd hp hnn => exact .after hq hp

def heardTimestamp (send : Option SendChunk) (clock : BitVec 32) (m : RtmpMessage) : BitVec 32 :=
  match chooseFmt send m with
  | .type0 => m.timestamp
  | .type1 => clock + wireDelta send m
  | .type2 => clock + wireDelta send m
  | .type3 => clock

variable {n : BitVec 32} {m : RtmpMessage}

theorem toNat_sub_of_toInt {a b : BitVec 32} (hab : a.toInt ≤ b.toInt)
    (hlt : b.toInt - a.toInt < 0xffffff) :
    (b - a).toNat < 0xffffff := by
  have ha := a.isLt
  have hb := b.isLt
  rw [BitVec.toInt_eq_toNat_cond, BitVec.toInt_eq_toNat_cond] at hab hlt
  rw [BitVec.toNat_sub]
  omega

theorem sub_eq_zero_word {a b : BitVec 32} : b - a = 0 ↔ a = b := by
  constructor
  · intro h
    rw [← BitVec.sub_add_cancel b a, h]
    exact (BitVec.zero_add a).symm
  · rintro rfl
    exact BitVec.sub_self a

theorem toInt_nonneg_of_small {t : BitVec 32} (h : t.toNat < 0xffffff) : 0 ≤ t.toInt := by
  rw [BitVec.toInt_eq_toNat_cond]
  omega

theorem timestamp_nonneg {last : Option (RtmpMessage × BitVec 32)} {send : Option SendChunk}
    {recv : Option RtmpChunk} {clock : BitVec 32} (h : InStep n last send recv clock)
    (hts : TimestampFollows last m) : 0 ≤ m.timestamp.toInt := by
  cases h with
  | idle => exact toInt_nonneg_of_small hts
  | after hq hd hp hnn => exact Int.le_trans hnn hts.1

theorem chooseFmt_cases (q : SendChunk) (m : RtmpMessage) :
    (chooseFmt (some q) m = .type0) ∨
    (chooseFmt (some q) m = .type1 ∧ q.chunkMessageHeader.messageStreamId = m.messageStreamId) ∨
    ((chooseFmt (some q) m = .type2 ∨ chooseFmt (some q) m = .type3) ∧
      q.chunkMessageHeader.messageStreamId = m.messageStreamId ∧
      q.chunkMessageHeader.messageTypeId = m.messageTypeId ∧
      q.chunkMessageHeader.messageLength = messageLength m) := by
  simp only [chooseFmt]
  split
  · tauto
  · split
    · tauto
    · split <;> tauto

theorem target_first {hdr : ChunkMessageHeader} {t : BitVec 32} (hm : Sendable m)
    (hd : Describes hdr m t) : target hdr none = partialMessage m 0 := by
  simp [target, hd.length, messageLength_toNat hm, RtmpMessage.alloc, Packet.alloc, partialMessage]

theorem ready_type0 {send : Option SendChunk} {recv : Option RtmpChunk} (hm : Sendable m)
    (hnn : 0 ≤ m.timestamp.toInt) (hrecv : recv.bind RtmpChunk.rtmpMessage = none)
    (hf : chooseFmt send m = .type0) : Ready send recv m 0 m.timestamp := by
  obtain ⟨hdr, hy, hd⟩ := type0_yields hm.length_lt hnn send
  refine ⟨hdr, hd, fun rest ↦ ?_, ?_⟩
  · rw [hf]
    exact ofRead_ok.mpr (hy rest)
  · rw [hrecv]
    exact target_first hm hd

theorem ready_first {last : Option (RtmpMessage × BitVec 32)} {send : Option SendChunk}
    {recv : Option RtmpChunk} {clock : BitVec 32} (hm : Sendable m)
    (h : InStep n last send recv clock) (hts : TimestampFollows last m) :
    Ready send recv m 0 (heardTimestamp send clock m) := by
  have hnn := timestamp_nonneg h hts
  have h0 {recv : Option RtmpChunk} (hrecv : recv.bind RtmpChunk.rtmpMessage = none)
      (hf : chooseFmt send m = .type0) : Ready send recv m 0 (heardTimestamp send clock m) := by
    rw [show heardTimestamp send clock m = m.timestamp by rw [heardTimestamp, hf]]
    exact ready_type0 hm hnn hrecv hf
  cases h with
  | idle => exact h0 rfl rfl
  | @after p step _ q hdr hq hd hp hpn =>
    have hw : wireDelta (some q) m = m.timestamp - p.timestamp := by
      simp only [wireDelta, Option.elim_some, hq.message]
    rcases chooseFmt_cases q m with hf | ⟨hf, hsid⟩ | ⟨hf, hsid, htype, hlen⟩
    · exact h0 rfl hf
    · obtain ⟨hdr', hy, hd'⟩ := type1_yields hm.length_lt (some q) (c := ⟨hdr, none⟩)
        (hd.streamId.trans (hq.header.streamId.symm.trans hsid)) true
      refine ⟨hdr', ?_, fun rest ↦ ?_, target_first hm hd'⟩
      · simpa only [heardTimestamp, hf, advance, if_true, hd.timestamp] using hd'
      · rw [hf]
        exact ofRead_ok.mpr (hy rest)
    · have hsid' := hq.header.streamId.symm.trans hsid
      have htype' := hq.header.typeId.symm.trans htype
      have hlen' := hq.header.length.symm.trans hlen
      rcases hf with hf | hf
      · obtain ⟨hdr', hy, hd'⟩ :=
          type2_yields (some q) (c := ⟨hdr, none⟩) hd hlen' htype' hsid' true
        refine ⟨hdr', ?_, fun rest ↦ ?_, target_first hm hd'⟩
        · simpa only [heardTimestamp, hf, advance, if_true, hd.timestamp] using hd'
        · rw [hf]
          exact ofRead_ok.mpr (hy rest)
      · have hd' : Describes hdr m clock :=
          ⟨hd.length.trans hlen', hd.typeId.trans htype', hd.streamId.trans hsid', hd.timestamp⟩
        refine ⟨hdr, by simpa only [heardTimestamp, hf] using hd', fun rest ↦ ?_, target_first hm hd'⟩
        rw [hf]
        exact header_type3 ⟨hdr, none⟩ (by rw [hw]; exact toNat_sub_of_toInt hts.1 hts.2) _ rest

theorem chooseFmt_type3 (q : SendChunk) (m : RtmpMessage) :
    chooseFmt (some q) m = .type3 ↔ q.chunkMessageHeader.messageStreamId = m.messageStreamId ∧
      q.chunkMessageHeader.messageTypeId = m.messageTypeId ∧
      q.chunkMessageHeader.messageLength = messageLength m ∧
      q.chunkMessageHeader.timestampDelta = m.timestamp - q.chunkMessageHeader.timestamp := by
  simp only [chooseFmt]
  split
  · simpa using ‹_›
  · rename_i h
    refine ⟨fun hf ↦ ?_, fun hq ↦ absurd hq h⟩
    split at hf
    · cases hf
    · split at hf <;> cases hf

theorem messageLength_inj {p : RtmpMessage} (hp : Sendable p) (hm : Sendable m) :
    messageLength p = messageLength m ↔ p.usingData.length = m.usingData.length := by
  rw [BitVec.toNat_eq, messageLength_toNat hp, messageLength_toNat hm]

/-- A type-3 header starts a message exactly when it looks like the one before
it and the stored delta is its distance from it. -/
theorem starts_type3_iff {q : SendChunk} {p : RtmpMessage} {step : BitVec 32}
    (hq : Remembers n q p step) (hp : Sendable p) (hm : Sendable m) :
    chooseFmt (some q) m = .type3 ↔ p.messageStreamId = m.messageStreamId ∧
      p.messageTypeId = m.messageTypeId ∧ p.usingData.length = m.usingData.length ∧
      (if (p.usingData.length : ℤ) ≤ n.toInt then step else 0) = m.timestamp - p.timestamp := by
  rw [chooseFmt_type3, hq.header.streamId, hq.header.typeId, hq.header.length, hq.header.timestamp,
    hq.delta, messageLength_inj hp hm]

/-- The receiver that was right so far goes wrong on `m` exactly if `m` repeats
the step before it. -/
theorem heardTimestamp_eq_iff {last : Option (RtmpMessage × BitVec 32)} {send : Option SendChunk}
    {recv : Option RtmpChunk} {clock : BitVec 32} (hm : Sendable m)
    (h : InStep n last send recv clock)
    (hclock : ∀ p step, last = some (p, step) → clock = p.timestamp) :
    heardTimestamp send clock m = m.timestamp ↔
      ∀ p step, last = some (p, step) → ¬ RepeatsStep n p step m := by
  cases h with
  | idle => simp [heardTimestamp, chooseFmt]
  | @after p step _ q hdr hq hd hp hpn =>
    have hw : wireDelta (some q) m = m.timestamp - p.timestamp := by
      simp only [wireDelta, Option.elim_some, hq.message]
    have hc := hclock p step rfl
    have hall : (∀ p' step', some (p, step) = some (p', step') → ¬ RepeatsStep n p' step' m) ↔
        ¬ RepeatsStep n p step m := by
      refine ⟨fun h ↦ h p step rfl, fun h p' step' he ↦ ?_⟩
      cases he
      exact h
    rw [hall]
    by_cases hf : chooseFmt (some q) m = .type3
    · obtain ⟨hsid, htype, hlen, hdelta⟩ := (starts_type3_iff hq hp hm).mp hf
      rw [hlen] at hdelta
      simp only [heardTimestamp, hf, hc, RepeatsStep, hsid, htype, hlen, true_and]
      split at hdelta
      · rename_i hfit
        rw [hdelta, ← sub_eq_zero_word]
        simp [hfit]
      · rename_i hfit
        simp [hfit, sub_eq_zero_word.mp hdelta.symm]
    · have heard : heardTimestamp (some q) clock m = m.timestamp := by
        rw [heardTimestamp, hw, hc]
        cases hfmt : chooseFmt (some q) m with
        | type0 => rfl
        | type1 => exact (BitVec.add_comm ..).trans (BitVec.sub_add_cancel ..)
        | type2 => exact (BitVec.add_comm ..).trans (BitVec.sub_add_cancel ..)
        | type3 => exact absurd hfmt hf
      refine ⟨fun _ hr ↦ hf ?_, fun _ ↦ heard⟩
      obtain ⟨hsid, htype, hlen, hfit, hstep, -⟩ := hr
      exact (starts_type3_iff hq hp hm).mpr ⟨hsid, htype, hlen, by rw [if_pos hfit, hstep]⟩

def lastChunk (n : BitVec 32) (left : ℤ) (prev : Option SendChunk) (m : RtmpMessage) : SendChunk :=
  if left ≤ n.toInt then nextChunk prev m else nextChunk (some (nextChunk prev m)) m

theorem lastChunk_continue (n : BitVec 32) (left : ℤ) (prev : Option SendChunk) (m : RtmpMessage) :
    lastChunk n left (some (nextChunk prev m)) m = nextChunk (some (nextChunk prev m)) m := by
  unfold lastChunk
  split <;> rfl

theorem sendMessage_streams (m : RtmpMessage) (free : ℕ) {left : ℤ} (pos : ℕ)
    (streams : SendStreams) (hleft : 0 < left)
    (hok : (sendMessage n m free left pos streams).ok = true) :
    (sendMessage n m free left pos streams).streams =
      update streams m.chunkStreamId (some (lastChunk n left (streams m.chunkStreamId) m)) := by
  induction free generalizing left pos streams with
  | zero =>
    rw [sendMessage, if_neg (by omega)] at hok
    cases hok
  | succ free ih =>
    rw [sendMessage_step m free pos streams hleft] at hok ⊢
    simp only at hok ⊢
    by_cases hle : left ≤ n.toInt
    · rw [sendMessage_done m free _ _ (by omega), lastChunk, if_pos hle]
    · rw [ih _ _ (by omega) hok, update_self, update_idem, lastChunk_continue, lastChunk,
        if_neg hle]

theorem stepFrom_nextChunk {last : Option (RtmpMessage × BitVec 32)} {send : Option SendChunk}
    (h : Recorded n last send) (m : RtmpMessage) :
    (nextChunk send m).chunkMessageHeader.timestampDelta = stepFrom last m := by
  cases h with
  | idle => rfl
  | after hq hp => simp only [nextChunk, stepFrom, Option.elim_some, hq.header.timestamp]

theorem lastChunk_remembers {last : Option (RtmpMessage × BitVec 32)} {send : Option SendChunk}
    (h : Recorded n last send) (m : RtmpMessage) :
    Remembers n (lastChunk n m.usingData.length send m) m (stepFrom last m) := by
  unfold lastChunk
  split
  · rename_i hfit
    exact ⟨rfl, ⟨rfl, rfl, rfl, rfl⟩, by rw [if_pos hfit, stepFrom_nextChunk h]⟩
  · rename_i hfit
    exact ⟨rfl, ⟨rfl, rfl, rfl, rfl⟩, by rw [if_neg hfit]; exact BitVec.sub_self m.timestamp⟩

theorem inStep_push {past : History} {streams : SendStreams} {s : RecvState} {clock : ℕ → BitVec 32}
    (h : ∀ c, InStep n (past c) (streams c) (s.recvChunkStreams c) (clock c)) (hm : Sendable m)
    (hts : TimestampFollows (past m.chunkStreamId) m) {hdr : ChunkMessageHeader} {t : BitVec 32}
    (hd : Describes hdr m t) (c : ℕ) :
    InStep n (past.push m c)
      (update streams m.chunkStreamId
        (some (lastChunk n m.usingData.length (streams m.chunkStreamId) m)) c)
      ((settle s m.chunkStreamId hdr).recvChunkStreams c) (update clock m.chunkStreamId t c) := by
  unfold History.push settle
  by_cases hc : c = m.chunkStreamId
  · subst hc
    simp only [update_self]
    exact .after (lastChunk_remembers (h _).recorded m) hd hm (timestamp_nonneg (h _) hts)
  · simp only [update_of_ne hc]
    exact h c

theorem clock_push {past : History} {clock : ℕ → BitVec 32}
    (h : ∀ c p step, past c = some (p, step) → clock c = p.timestamp) (m : RtmpMessage) (c : ℕ)
    (p : RtmpMessage) (step : BitVec 32) (hp : past.push m c = some (p, step)) :
    update clock m.chunkStreamId m.timestamp c = p.timestamp := by
  unfold History.push at hp
  by_cases hc : c = m.chunkStreamId
  · subst hc
    rw [update_self] at hp ⊢
    cases hp
    rfl
  · rw [update_of_ne hc] at hp ⊢
    exact h c p step hp

/-- Everything on the wire is received, message by message. As long as the
clocks were right before, the timestamps are right unless a step repeats. -/
theorem run_session (record : σ → RtmpMessage → σ) (hn : 0 < n.toInt) {streams : SendStreams}
    {msgs : List RtmpMessage} {bytes : Bytes} (hs : Sent n streams msgs bytes) (s : RecvState)
    (app : σ) (past : History) (clock : ℕ → BitVec 32) (hsize : s.inChunkSize = n)
    (h : ∀ c, InStep n (past c) (streams c) (s.recvChunkStreams c) (clock c))
    (hm : ∀ m ∈ msgs, Sendable m) (hts : TimestampsOk past msgs) :
    ∃ s' stamps, run (recvStep (accepting record)) (s, app) bytes =
        .wait s' [] (List.zipWith delivered msgs stamps) ∧ stamps.length = msgs.length ∧
      ((∀ c p step, past c = some (p, step) → clock c = p.timestamp) →
        (stamps = msgs.map RtmpMessage.timestamp ↔ NoStepRepeats n past msgs)) := by
  induction hs generalizing s app past clock with
  | nil streams => exact ⟨(s, app), [], rfl, rfl, fun _ ↦ by simp [NoStepRepeats]⟩
  | @cons streams m ms bs free hok hs ih =>
    subst hsize
    have hmm := hm m (List.mem_cons_self ..)
    have hpos := hmm.length_pos
    obtain ⟨t, ht⟩ : ∃ t, t = heardTimestamp (streams m.chunkStreamId) (clock m.chunkStreamId) m :=
      ⟨_, rfl⟩
    obtain ⟨hdr, hd, hrun⟩ := run_message record hmm free s app hn streams hpos
      (ready_first hmm (h m.chunkStreamId) hts.1) hok
    rw [← ht] at hd hrun
    rw [sendMessage_streams m free 0 streams (by omega) hok] at ih
    obtain ⟨s', stamps, hrest, hlen, hiff⟩ :=
      ih (settle s m.chunkStreamId hdr) (record app (delivered m t))
      (past.push m) (update clock m.chunkStreamId t) rfl (inStep_push h hmm hts.1 hd)
      (fun m' hm' ↦ hm m' (List.mem_cons_of_mem m hm')) hts.2
    refine ⟨s', t :: stamps, ?_, by rw [List.length_cons, List.length_cons, hlen], fun hclock ↦ ?_⟩
    · have hr := hrun bs
      rw [Nat.sub_zero] at hr
      rw [hr, hrest]
      rfl
    · have hhead := heardTimestamp_eq_iff hmm (h m.chunkStreamId) (hclock m.chunkStreamId)
      rw [← ht] at hhead
      rw [List.map_cons, List.cons.injEq, NoStepRepeats, hhead]
      refine and_congr_right fun hno ↦ ?_
      have htm := hhead.mpr hno
      subst htm
      exact hiff (clock_push hclock m)

end Session

section Transfer

/-- The bytes of all calls go to a fresh receiver with the sender's chunk size. -/
def transfer (n : BitVec 32) (record : σ → RtmpMessage → σ) (app : σ)
    (calls : List (List RtmpMessage)) :
    Option (Result (RtmpChunkProtocol × σ) UInt8 RtmpMessage RecvError) :=
  (sendCalls { outChunkSize := n } calls).map fun bytes ↦
    run (processRecvBuffer (accepting record)) ({ inChunkSize := n }, app) bytes

/-- A sequence of messages, in any split into calls, that the sender can frame. -/
structure Transferable (n : BitVec 32) (calls : List (List RtmpMessage)) : Prop where
  chunkSize : 0 < n.toInt
  chunks : ∀ call ∈ calls, callChunks n call ≤ 200
  messages : ∀ m ∈ calls.flatten, Sendable m
  timestamps : TimestampsOk (fun _ ↦ none) calls.flatten

def frame (m : RtmpMessage) : Bytes × UInt8 × BitVec 32 × ℕ :=
  (m.usingData, m.messageTypeId, m.messageStreamId, m.chunkStreamId)

variable {n : BitVec 32} {calls : List (List RtmpMessage)}

theorem transfer_spec (record : σ → RtmpMessage → σ) (app : σ) (h : Transferable n calls) :
    ∃ s stamps, transfer n record app calls =
        some (.wait s [] (List.zipWith delivered calls.flatten stamps)) ∧
      stamps.length = calls.flatten.length ∧
      (stamps = calls.flatten.map RtmpMessage.timestamp ↔
        NoStepRepeats n (fun _ ↦ none) calls.flatten) := by
  obtain ⟨bytes, hb, hsent⟩ := sendCalls_sent h.chunkSize calls (fun _ ↦ none) h.chunks
  obtain ⟨s', stamps, hrun, hlen, hiff⟩ :=
    run_session record h.chunkSize hsent { inChunkSize := n } app
    (fun _ ↦ none) (fun _ ↦ 0) rfl (fun _ ↦ .idle 0) h.messages h.timestamps
  obtain ⟨p, hp⟩ := process_wait (p := ({ inChunkSize := n }, app)) hrun
  exact ⟨p, stamps, by rw [transfer, hb, Option.map_some, hp], hlen, hiff fun _ _ _ hp ↦ by cases hp⟩

theorem frame_delivered (msgs : List RtmpMessage) (stamps : List (BitVec 32))
    (h : stamps.length = msgs.length) :
    (List.zipWith delivered msgs stamps).map frame = msgs.map frame := by
  refine List.ext_getElem (by simp [h]) fun i _ _ ↦ ?_
  simp [frame, delivered]

theorem timestamp_delivered (msgs : List RtmpMessage) (stamps : List (BitVec 32))
    (h : stamps.length = msgs.length) :
    (List.zipWith delivered msgs stamps).map RtmpMessage.timestamp = stamps := by
  refine List.ext_getElem (by simp [h]) fun i _ _ ↦ ?_
  simp [delivered]

/-- The receiver's handler gets every message once, in order and with its
content, and every byte is consumed. -/
theorem chunk_framing_round_trip (record : σ → RtmpMessage → σ) (app : σ) (h : Transferable n calls) :
    ∃ s received, transfer n record app calls = some (.wait s [] received) ∧
      received.map frame = calls.flatten.map frame := by
  obtain ⟨s, stamps, ht, hlen, -⟩ := transfer_spec record app h
  exact ⟨s, _, ht, frame_delivered calls.flatten stamps hlen⟩

def steadyMessage (t : BitVec 32) : RtmpMessage where
  dataBytes := 1
  usingData := [0xaf]
  fits := le_rfl
  messageTypeId := 8
  timestamp := t
  messageStreamId := 1
  chunkStreamId := 4

def steadyCalls : List (List RtmpMessage) :=
  [[steadyMessage 0, steadyMessage 40], [steadyMessage 80]]

theorem steadyCalls_transferable : Transferable 128 steadyCalls where
  chunkSize := by decide
  chunks := by decide
  messages := by
    intro m hm
    rcases (by simpa [steadyCalls] using hm : m = steadyMessage 0 ∨ m = steadyMessage 40 ∨ m = steadyMessage 80)
      with rfl | rfl | rfl <;> exact ⟨by decide, by decide, by decide, by decide⟩
  timestamps := by
    simp [steadyCalls, TimestampsOk, TimestampFollows, History.push, steadyMessage]

theorem chunk_framing_steady : Transferable 128 steadyCalls ∧
    ∃ s received, transfer 128 (fun k _ ↦ k + 1) 0 steadyCalls = some (.wait s [] received) ∧
      received.map frame = steadyCalls.flatten.map frame :=
  ⟨steadyCalls_transferable, chunk_framing_round_trip _ 0 steadyCalls_transferable⟩

/-- The timestamps survive exactly if no single-chunk message is followed by one
of the same shape at the same non-zero distance: such a message starts with a
type-3 header, for which the receiver does not advance its clock. -/
theorem timestamps_round_trip_iff (record : σ → RtmpMessage → σ) (app : σ)
    (h : Transferable n calls) :
    (∃ s received, transfer n record app calls = some (.wait s [] received) ∧
        received.map RtmpMessage.timestamp = calls.flatten.map RtmpMessage.timestamp) ↔
      NoStepRepeats n (fun _ ↦ none) calls.flatten := by
  obtain ⟨s, stamps, ht, hlen, hiff⟩ := transfer_spec record app h
  rw [← hiff, ht]
  constructor
  · rintro ⟨s', received, he, hr⟩
    cases he
    rwa [timestamp_delivered _ _ hlen] at hr
  · intro hs
    exact ⟨s, _, rfl, (timestamp_delivered _ _ hlen).trans hs⟩

theorem timestamps_round_trip_steady : Transferable 128 steadyCalls ∧
    ((∃ s received, transfer 128 (fun k _ ↦ k + 1) 0 steadyCalls = some (.wait s [] received) ∧
        received.map RtmpMessage.timestamp = steadyCalls.flatten.map RtmpMessage.timestamp) ↔
      NoStepRepeats 128 (fun _ ↦ none) steadyCalls.flatten) :=
  ⟨steadyCalls_transferable, timestamps_round_trip_iff _ 0 steadyCalls_transferable⟩

/-- The third message of `steadyCalls` arrives with the timestamp of the second. -/
theorem steady_timestamps_lost : Transferable 128 steadyCalls ∧
    (transfer 128 (fun k _ ↦ k + 1) 0 steadyCalls).map (fun r ↦ r.out.map RtmpMessage.timestamp) =
      some [0, 40, 40] ∧
    ¬ ∃ s received, transfer 128 (fun k _ ↦ k + 1) 0 steadyCalls = some (.wait s [] received) ∧
      received.map RtmpMessage.timestamp = steadyCalls.flatten.map RtmpMessage.timestamp := by
  have hout : (transfer 128 (fun k _ ↦ k + 1) 0 steadyCalls).map
      (fun r ↦ r.out.map RtmpMessage.timestamp) = some [0, 40, 40] := by decide +kernel
  refine ⟨steadyCalls_transferable, hout, ?_⟩
  rintro ⟨s, received, ht, hr⟩
  rw [ht, Option.map_some, Result.out, hr] at hout
  exact absurd hout (by decide)

end Transfer

end MmsServer.Rtmp.ChunkRoundTrip
