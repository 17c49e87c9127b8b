import MmsServer.Lib.Incremental
import MmsServer.Rtmp.Define

namespace MmsServer.Rtmp.ChunkReceiver

open Function Lib.ByteReader Lib.Incremental Define

variable {σ : Type}

/-- The chunks kept for reuse. Only chunks that `clear` has reset get here. -/
structure ChunkCache where
  slot : ℕ → Option RtmpChunk
  cleared : ∀ csid c, slot csid = some c → c = {}

/-- The constructor fills the cache for the first 256 chunk stream ids. -/
def ChunkCache.init : ChunkCache where
  slot cid := if cid < 256 then some {} else none
  cleared csid c h := by
    split at h
    · exact (Option.some_inj.mp h).symm
    · cases h

def ChunkCache.erase (cache : ChunkCache) (csid : ℕ) : ChunkCache where
  slot := update cache.slot csid none
  cleared j c h := by
    by_cases hj : j = csid
    · rw [hj, update_self] at h; cases h
    · rw [update_of_ne hj] at h; exact cache.cleared j c h

def ChunkCache.put (cache : ChunkCache) (csid : ℕ) (prev : RtmpChunk) : ChunkCache where
  slot := update cache.slot csid (some prev.clear)
  cleared j c h := by
    by_cases hj : j = csid
    · rw [hj, update_self] at h; exact (Option.some_inj.mp h).symm
    · rw [update_of_ne hj] at h; exact cache.cleared j c h

def ChunkCache.chunk (cache : ChunkCache) (csid : ℕ) : RtmpChunk := (cache.slot csid).getD {}

theorem cache_chunk (cache : ChunkCache) (csid : ℕ) : cache.chunk csid = {} := by
  unfold ChunkCache.chunk
  cases h : cache.slot csid with
  | none => rfl
  | some c => exact cache.cleared csid c h

/-- The part of the receiver that outlives a call of `processRecvBuffer`, but
for the cache. -/
structure RecvState where
  inChunkSize : BitVec 32 := 128
  inWindowAcknowledgeSize : ℕ := 5 * 1024 * 1024
  recvChunkStreams : ℕ → Option RtmpChunk := fun _ ↦ none

structure RtmpChunkProtocol extends RecvState where
  recvChunkCache : ChunkCache := .init

/-- A receive handler answers whether to go on. It may call back into the
protocol object it was invoked from. -/
abbrev Handler (σ : Type) := σ → RecvState → RtmpMessage → Bool × σ × RecvState

/-- The failures of `processRecvBuffer`: a negative return value, or a copy of
`size` bytes to a message that has room for `unuse`. -/
inductive RecvError
  | code (c : ℤ)
  | overrun (size : ℤ) (unuse : ℕ)
deriving DecidableEq

abbrev RecvStep (S : Type) := Step S RtmpMessage RecvError

def readBasicHeader : Reader (ChunkFmt × ℕ) := do
  let d ← readBE 1
  let fmt := ChunkFmt.ofCode (d / 64)
  if d % 64 = 0 then
    let b ← readBE 1
    return (fmt, 64 + b)
  else if d % 64 = 1 then
    let b ← readBE 1
    let b' ← readBE 1
    return (fmt, 64 + b + b' * 256)
  else
    return (fmt, d % 64)

/-- Overwrite the three low bytes of a word, as the code does through a byte pointer. -/
def setLow24 (old : BitVec 32) (v : ℕ) : BitVec 32 :=
  BitVec.ofNat 32 (old.toNat / 2 ^ 24 * 2 ^ 24 + v)

def readExtended (v : BitVec 32) : Reader (BitVec 32) :=
  if 0xffffff ≤ v.toInt then do
    let t ← readBE 4
    return BitVec.ofNat 32 t
  else
    return v

def readType0 (hdr : ChunkMessageHeader) : Reader ChunkMessageHeader := do
  let timestamp ← readBE 3
  let length ← readBE 3
  let typeId ← readBE 1
  let streamId ← readBE 4
  let timestamp ← readExtended (setLow24 hdr.timestamp timestamp)
  return { timestampDelta := 0
           timestamp := timestamp
           messageLength := setLow24 hdr.messageLength length
           messageTypeId := UInt8.ofNat typeId
           messageStreamId := BitVec.ofNat 32 streamId }

/-- Only the first chunk of a message moves the clock of its chunk stream. -/
def advance (prev : RtmpChunk) (first : Bool) (delta : BitVec 32) : BitVec 32 :=
  if first then prev.chunkMessageHeader.timestamp + delta else prev.chunkMessageHeader.timestamp

def readType1 (prev : RtmpChunk) (first : Bool) (hdr : ChunkMessageHeader) :
    Reader ChunkMessageHeader := do
  let timeDelta ← readBE 3
  let length ← readBE 3
  let typeId ← readBE 1
  let timeDelta ← readExtended (BitVec.ofNat 32 timeDelta)
  return { timestampDelta := timeDelta
           timestamp := advance prev first timeDelta
           messageLength := setLow24 hdr.messageLength length
           messageTypeId := UInt8.ofNat typeId
           messageStreamId := prev.chunkMessageHeader.messageStreamId }

def readType2 (prev : RtmpChunk) (first : Bool) : Reader ChunkMessageHeader := do
  let timeDelta ← readBE 3
  let timeDelta ← readExtended (BitVec.ofNat 32 timeDelta)
  return { timestampDelta := timeDelta
           timestamp := advance prev first timeDelta
           messageLength := prev.chunkMessageHeader.messageLength
           messageTypeId := prev.chunkMessageHeader.messageTypeId
           messageStreamId := prev.chunkMessageHeader.messageStreamId }

inductive HeaderResult
  | more
  | fail (code : ℤ)
  | ok (hdr : ChunkMessageHeader) (rest : Bytes)

def HeaderResult.ofRead : Option (ChunkMessageHeader × Bytes) → HeaderResult
  | none => .more
  | some (hdr, rest) => .ok hdr rest

/-- A type-3 header has no bytes and repeats the previous header as it stands. -/
def readMessageHeader (fmt : ChunkFmt) (prev : Option RtmpChunk) (first : Bool)
    (hdr : ChunkMessageHeader) (bs : Bytes) : HeaderResult :=
  match fmt, prev with
  | .type0, _ => .ofRead (readType0 hdr bs)
  | .type1, none => .fail (-8)
  | .type1, some prev => .ofRead (readType1 prev first hdr bs)
  | .type2, none => .fail (-12)
  | .type2, some prev => .ofRead (readType2 prev first bs)
  | .type3, none => .fail (-13)
  | .type3, some prev => .ok prev.chunkMessageHeader bs

/-- `chunk->rtmp_message_ = nullptr` for the chunk that the map still holds. -/
def dropMessage (streams : ℕ → Option RtmpChunk) (csid : ℕ) : ℕ → Option RtmpChunk :=
  update streams csid ((streams csid).map fun c ↦ { c with rtmpMessage := none })

def RecvState.install (s : RecvState) (csid : ℕ) (hdr : ChunkMessageHeader) (msg : RtmpMessage) :
    RecvState :=
  { s with recvChunkStreams := update s.recvChunkStreams csid (some ⟨hdr, some msg⟩) }

def target (hdr : ChunkMessageHeader) (msg : Option RtmpMessage) : RtmpMessage :=
  msg.getD (.alloc hdr.messageLength.toNat)

/-- `this_chunk_payload_size`, the number of bytes the code is about to copy. -/
def chunkPayloadSize (s : RecvState) (hdr : ChunkMessageHeader) (msg : RtmpMessage) : ℤ :=
  min s.inChunkSize.toInt (hdr.messageLength.toInt - msg.usingData.length)

def finishChunk (h : Handler σ) (s : RecvState) (app : σ) (csid : ℕ) (hdr : ChunkMessageHeader)
    (msg : RtmpMessage) (pos : ℕ) : RecvStep (RecvState × σ) :=
  if (msg.usingData.length : ℤ) = hdr.messageLength.toInt then
    let msg := msg.fill csid hdr
    match h app (s.install csid hdr msg) msg with
    | (false, _, _) => .stop (.code (-20)) [msg]
    | (true, app', s') =>
      .take pos ({ s' with recvChunkStreams := dropMessage s'.recvChunkStreams csid }, app') [msg]
  else if maxRtmpBufBytes ≤ msg.dataBytes then .stop (.code (-21)) []
  else .take pos (s.install csid hdr msg, app) []

/-- The second half of `processRecvBuffer`, from the safety rule on. `pos` bytes
of header have been read and `bs` is what follows them. -/
def receivePayload (h : Handler σ) (s : RecvState) (app : σ) (csid : ℕ) (hdr : ChunkMessageHeader)
    (msg : Option RtmpMessage) (pos : ℕ) (bs : Bytes) : RecvStep (RecvState × σ) :=
  if (maxRtmpBufBytes : ℤ) ≤ hdr.messageLength.toInt then .stop (.code (-14)) []
  else
    let msg := target hdr msg
    let size := chunkPayloadSize s hdr msg
    if (bs.length : ℤ) < size then .more (s.install csid hdr msg, app)
    else if hs : 0 ≤ size ∧ size ≤ msg.unuse then
      have hfit : (bs.take size.toNat).length ≤ msg.unuse :=
        (List.length_take_le _ _).trans (by omega)
      finishChunk h s app csid hdr { msg with toPacket := msg.append (bs.take size.toNat) hfit }
        (pos + size.toNat)
    else .stop (.overrun size msg.unuse) []

def processRecvBuffer (h : Handler σ) (s : RtmpChunkProtocol × σ) (buf : Bytes) :
    RecvStep (RtmpChunkProtocol × σ) :=
  match readBasicHeader buf with
  | none => .more s
  | some ((fmt, csid), bs) =>
    let prev := s.1.recvChunkStreams csid
    let chunk := s.1.recvChunkCache.chunk csid
    let cache := s.1.recvChunkCache.erase csid
    let msg := (prev.bind RtmpChunk.rtmpMessage).or chunk.rtmpMessage
    match readMessageHeader fmt prev msg.isNone chunk.chunkMessageHeader bs with
    | .more => .more ({ s.1 with recvChunkCache := cache }, s.2)
    | .fail code => .stop (.code code) []
    | .ok hdr bs' =>
      let cache := prev.elim cache (cache.put csid)
      (receivePayload h s.1.toRecvState s.2 csid hdr msg (buf.length - bs'.length) bs').mapState
        fun t ↦ ({ t.1 with recvChunkCache := cache }, t.2)

/-- The receiver without its cache of recycled chunks. -/
def recvStep (h : Handler σ) (s : RecvState × σ) (buf : Bytes) : RecvStep (RecvState × σ) :=
  match readBasicHeader buf with
  | none => .more s
  | some ((fmt, csid), bs) =>
    let prev := s.1.recvChunkStreams csid
    let msg := prev.bind RtmpChunk.rtmpMessage
    match readMessageHeader fmt prev msg.isNone {} bs with
    | .more => .more s
    | .fail code => .stop (.code code) []
    | .ok hdr bs' => receivePayload h s.1 s.2 csid hdr msg (buf.length - bs'.length) bs'

def forgetCache (s : RtmpChunkProtocol × σ) : RecvState × σ := (s.1.toRecvState, s.2)

theorem process_forgetCache (h : Handler σ) (s : RtmpChunkProtocol × σ) (buf : Bytes) :
    (processRecvBuffer h s buf).mapState forgetCache = recvStep h (forgetCache s) buf := by
  unfold processRecvBuffer recvStep
  cases hb : readBasicHeader buf with
  | none => rfl
  | some r =>
    obtain ⟨⟨fmt, csid⟩, bs⟩ := r
    simp only [cache_chunk, Option.or_none, forgetCache]
    cases hm : readMessageHeader fmt (s.1.recvChunkStreams csid)
        ((s.1.recvChunkStreams csid).bind RtmpChunk.rtmpMessage).isNone {} bs with
    | more => rfl
    | fail code => rfl
    | ok hdr bs' =>
      simp only
      cases receivePayload h s.1.toRecvState s.2 csid hdr
        ((s.1.recvChunkStreams csid).bind RtmpChunk.rtmpMessage) (buf.length - bs'.length) bs' <;> rfl

/-- A run of the receiver ends as the run without its cache does. -/
theorem process_wait {h : Handler σ} {p : RtmpChunkProtocol × σ} {buf : Bytes} {s : RecvState × σ}
    {rest : Bytes} {out : List RtmpMessage}
    (hr : run (recvStep h) (forgetCache p) buf = .wait s rest out) :
    ∃ p', run (processRecvBuffer h) p buf = .wait p' rest out := by
  rw [← run_mapState forgetCache (process_forgetCache h)] at hr
  cases hp : run (processRecvBuffer h) p buf with
  | halt e o => rw [hp] at hr; cases hr
  | wait p' rest' o =>
    rw [hp] at hr
    cases hr
    exact ⟨p', rfl⟩

theorem readBasicHeader_delimited : Delimited readBasicHeader :=
  .bind (readBE_delimited 1) fun _ ↦
    .ite (.bind (readBE_delimited 1) fun _ ↦ .pure _)
      (.ite (.bind (readBE_delimited 1) fun _ ↦ .bind (readBE_delimited 1) fun _ ↦ .pure _) (.pure _))

theorem readBasicHeader_length {bs rest : Bytes} {r : ChunkFmt × ℕ}
    (h : readBasicHeader bs = some (r, rest)) : rest.length < bs.length := by
  have hl := readBE_bind_length (fun _ ↦
    .ite (.bind (readBE_delimited 1) fun _ ↦ .pure _)
      (.ite (.bind (readBE_delimited 1) fun _ ↦ .bind (readBE_delimited 1) fun _ ↦ .pure _) (.pure _))) h
  omega

theorem readExtended_delimited (v : BitVec 32) : Delimited (readExtended v) :=
  .ite (.bind (readBE_delimited 4) fun _ ↦ .pure _) (.pure _)

theorem readType0_delimited (hdr : ChunkMessageHeader) : Delimited (readType0 hdr) :=
  .bind (readBE_delimited 3) fun _ ↦ .bind (readBE_delimited 3) fun _ ↦
    .bind (readBE_delimited 1) fun _ ↦ .bind (readBE_delimited 4) fun _ ↦
      .bind (readExtended_delimited _) fun _ ↦ .pure _

theorem readType1_delimited (prev : RtmpChunk) (first : Bool) (hdr : ChunkMessageHeader) :
    Delimited (readType1 prev first hdr) :=
  .bind (readBE_delimited 3) fun _ ↦ .bind (readBE_delimited 3) fun _ ↦
    .bind (readBE_delimited 1) fun _ ↦ .bind (readExtended_delimited _) fun _ ↦ .pure _

theorem readType2_delimited (prev : RtmpChunk) (first : Bool) : Delimited (readType2 prev first) :=
  .bind (readBE_delimited 3) fun _ ↦ .bind (readExtended_delimited _) fun _ ↦ .pure _

theorem ofRead_ok {r : Option (ChunkMessageHeader × Bytes)} {hdr : ChunkMessageHeader}
    {rest : Bytes} :
    HeaderResult.ofRead r = .ok hdr rest ↔ r = some (hdr, rest) := by
  cases r with
  | none => simp [HeaderResult.ofRead]
  | some p => simp [HeaderResult.ofRead, Prod.ext_iff]

theorem ofRead_fail (r : Option (ChunkMessageHeader × Bytes)) (code : ℤ) :
    HeaderResult.ofRead r ≠ .fail code := by
  cases r <;> simp [HeaderResult.ofRead]

theorem header_append {fmt : ChunkFmt} {prev : Option RtmpChunk} {first : Bool}
    {hdr hdr' : ChunkMessageHeader} {bs rest : Bytes}
    (h : readMessageHeader fmt prev first hdr bs = .ok hdr' rest) (ext : Bytes) :
    readMessageHeader fmt prev first hdr (bs ++ ext) = .ok hdr' (rest ++ ext) := by
  unfold readMessageHeader at h ⊢
  split at h
  · exact ofRead_ok.mpr ((readType0_delimited hdr).append (ofRead_ok.mp h) ext)
  · cases h
  · exact ofRead_ok.mpr ((readType1_delimited _ first hdr).append (ofRead_ok.mp h) ext)
  · cases h
  · exact ofRead_ok.mpr ((readType2_delimited _ first).append (ofRead_ok.mp h) ext)
  · cases h
  · cases h
    rfl

theorem header_length {fmt : ChunkFmt} {prev : Option RtmpChunk} {first : Bool}
    {hdr hdr' : ChunkMessageHeader} {bs rest : Bytes}
    (h : readMessageHeader fmt prev first hdr bs = .ok hdr' rest) : rest.length ≤ bs.length := by
  unfold readMessageHeader at h
  split at h
  · exact (readType0_delimited hdr).length (ofRead_ok.mp h)
  · cases h
  · exact (readType1_delimited _ first hdr).length (ofRead_ok.mp h)
  · cases h
  · exact (readType2_delimited _ first).length (ofRead_ok.mp h)
  · cases h
  · cases h
    exact le_rfl

theorem header_fail {fmt : ChunkFmt} {prev : Option RtmpChunk} {first : Bool}
    {hdr : ChunkMessageHeader} {bs : Bytes} {code : ℤ}
    (h : readMessageHeader fmt prev first hdr bs = .fail code) (bs' : Bytes) :
    readMessageHeader fmt prev first hdr bs' = .fail code := by
  unfold readMessageHeader at h ⊢
  split at h
  all_goals first | exact absurd h (ofRead_fail _ _) | exact h | cases h

/-- Parsing a header again, after its own chunk has been installed and its
message created, gives the same header: the clock has moved already. -/
theorem header_resume {fmt : ChunkFmt} {prev : Option RtmpChunk} {first : Bool}
    {hdr : ChunkMessageHeader} {bs rest : Bytes}
    (h : readMessageHeader fmt prev first {} bs = .ok hdr rest) (msg : Option RtmpMessage) :
    readMessageHeader fmt (some ⟨hdr, msg⟩) false {} bs = .ok hdr rest := by
  unfold readMessageHeader at h ⊢
  split at h
  · exact h
  · cases h
  · rw [ofRead_ok] at h ⊢
    simp only [readType1, bind_eq_some, pure_eq_some] at h ⊢
    obtain ⟨d, m₁, h₁, l, m₂, h₂, t, m₃, h₃, δ, m₄, h₄, rfl, rfl⟩ := h
    exact ⟨d, m₁, h₁, l, m₂, h₂, t, m₃, h₃, δ, _, h₄, rfl, rfl⟩
  · cases h
  · rw [ofRead_ok] at h ⊢
    simp only [readType2, bind_eq_some, pure_eq_some] at h ⊢
    obtain ⟨d, m₁, h₁, δ, m₂, h₂, rfl, rfl⟩ := h
    exact ⟨d, m₁, h₁, δ, _, h₂, rfl, rfl⟩
  · cases h
  · cases h
    rfl

theorem install_self (s : RecvState) (csid : ℕ) (hdr : ChunkMessageHeader) (msg : RtmpMessage) :
    (s.install csid hdr msg).recvChunkStreams csid = some ⟨hdr, some msg⟩ := update_self ..

theorem install_of_ne (s : RecvState) {csid j : ℕ} (hj : j ≠ csid) (hdr : ChunkMessageHeader)
    (msg : RtmpMessage) : (s.install csid hdr msg).recvChunkStreams j = s.recvChunkStreams j :=
  update_of_ne hj ..

theorem install_install (s : RecvState) (csid : ℕ) (hdr hdr' : ChunkMessageHeader)
    (msg msg' : RtmpMessage) :
    (s.install csid hdr msg).install csid hdr' msg' = s.install csid hdr' msg' := by
  simp only [RecvState.install, update_idem]

theorem finishChunk_install (h : Handler σ) (s : RecvState) (app : σ) (csid : ℕ)
    (hdr : ChunkMessageHeader) (msg msg' : RtmpMessage) (pos : ℕ) :
    finishChunk h (s.install csid hdr msg') app csid hdr msg pos =
      finishChunk h s app csid hdr msg pos := by
  simp only [finishChunk, install_install]

theorem receivePayload_resume (h : Handler σ) (s : RecvState) (app : σ) (csid : ℕ)
    (hdr : ChunkMessageHeader) (msg : Option RtmpMessage) (pos : ℕ) (bs : Bytes) :
    receivePayload h (s.install csid hdr (target hdr msg)) app csid hdr (some (target hdr msg)) pos bs =
      receivePayload h s app csid hdr msg pos bs := by
  have ht : target hdr (some (target hdr msg)) = target hdr msg := rfl
  have hc (m : RtmpMessage) :
      chunkPayloadSize (s.install csid hdr (target hdr msg)) hdr m = chunkPayloadSize s hdr m := rfl
  simp only [receivePayload, ht, hc, finishChunk_install, install_install]

theorem finishChunk_cases (h : Handler σ) (s : RecvState) (app : σ) (csid : ℕ)
    (hdr : ChunkMessageHeader) (msg : RtmpMessage) (pos : ℕ) :
    (∃ t out, finishChunk h s app csid hdr msg pos = .take pos t out) ∨
      ∃ e out, finishChunk h s app csid hdr msg pos = .stop e out := by
  unfold finishChunk
  split
  · dsimp only
    split
    · exact Or.inr ⟨_, _, rfl⟩
    · exact Or.inl ⟨_, _, rfl⟩
  · split
    · exact Or.inr ⟨_, _, rfl⟩
    · exact Or.inl ⟨_, _, rfl⟩

theorem finishChunk_ne_more (h : Handler σ) (s : RecvState) (app : σ) (csid : ℕ)
    (hdr : ChunkMessageHeader) (msg : RtmpMessage) (pos : ℕ) (t : RecvState × σ) :
    finishChunk h s app csid hdr msg pos ≠ .more t := by
  rcases finishChunk_cases h s app csid hdr msg pos with ⟨_, _, he⟩ | ⟨_, _, he⟩ <;> simp [he]

theorem receivePayload_cases (h : Handler σ) (s : RecvState) (app : σ) (csid : ℕ)
    (hdr : ChunkMessageHeader) (msg : Option RtmpMessage) (pos : ℕ) (bs : Bytes) :
    receivePayload h s app csid hdr msg pos bs = .more (s.install csid hdr (target hdr msg), app) ∨
      ((∀ t, receivePayload h s app csid hdr msg pos bs ≠ .more t) ∧
        ∀ ext, receivePayload h s app csid hdr msg pos (bs ++ ext) =
          receivePayload h s app csid hdr msg pos bs) := by
  unfold receivePayload
  by_cases hbig : (maxRtmpBufBytes : ℤ) ≤ hdr.messageLength.toInt
  · simp [hbig]
  · simp only [hbig, if_false]
    by_cases hlen : (bs.length : ℤ) < chunkPayloadSize s hdr (target hdr msg)
    · exact Or.inl (by rw [if_pos hlen])
    · right
      simp only [hlen, if_false]
      by_cases hs : 0 ≤ chunkPayloadSize s hdr (target hdr msg) ∧
          chunkPayloadSize s hdr (target hdr msg) ≤ (target hdr msg).unuse
      · simp only [hs, and_self, dif_pos]
        refine ⟨finishChunk_ne_more h s app csid hdr _ _, fun ext ↦ ?_⟩
        have hl : ¬ ((bs ++ ext).length : ℤ) < chunkPayloadSize s hdr (target hdr msg) := by
          rw [List.length_append]; omega
        have ht : (bs ++ ext).take (chunkPayloadSize s hdr (target hdr msg)).toNat =
            bs.take (chunkPayloadSize s hdr (target hdr msg)).toNat :=
          List.take_append_of_le_length (by omega)
        simp only [hl, if_false, ht]
      · simp only [hs, dif_neg, not_false_eq_true]
        refine ⟨fun t ↦ by simp, fun ext ↦ ?_⟩
        have hl : ¬ ((bs ++ ext).length : ℤ) < chunkPayloadSize s hdr (target hdr msg) := by
          rw [List.length_append]; omega
        simp only [hl, if_false]

theorem receivePayload_bound {h : Handler σ} {s : RecvState} {app : σ} {csid : ℕ}
    {hdr : ChunkMessageHeader} {msg : Option RtmpMessage} {pos n : ℕ} {bs : Bytes}
    {t : RecvState × σ} {out : List RtmpMessage}
    (he : receivePayload h s app csid hdr msg pos bs = .take n t out) :
    pos ≤ n ∧ n ≤ pos + bs.length := by
  unfold receivePayload at he
  dsimp only at he
  split at he
  · cases he
  · split at he
    · cases he
    · rename_i hlen
      split at he
      · rcases finishChunk_cases h s app csid hdr _
          (pos + (chunkPayloadSize s hdr (target hdr msg)).toNat) with ⟨t', o', ht⟩ | ⟨e, o', ht⟩
        · rw [ht] at he
          cases he
          omega
        · rw [ht] at he
          cases he
      · cases he

theorem recvStep_of_header (h : Handler σ) (s : RecvState × σ) {buf bs bs' : Bytes} {fmt : ChunkFmt}
    {csid : ℕ} {hdr : ChunkMessageHeader} (hb : readBasicHeader buf = some ((fmt, csid), bs))
    (hm : readMessageHeader fmt (s.1.recvChunkStreams csid)
      ((s.1.recvChunkStreams csid).bind RtmpChunk.rtmpMessage).isNone {} bs = .ok hdr bs')
    (ext : Bytes) :
    recvStep h s (buf ++ ext) = receivePayload h s.1 s.2 csid hdr
      ((s.1.recvChunkStreams csid).bind RtmpChunk.rtmpMessage) (buf.length - bs'.length) (bs' ++ ext) := by
  have hpos : (buf ++ ext).length - (bs' ++ ext).length = buf.length - bs'.length := by
    rw [List.length_append, List.length_append]; omega
  simp only [recvStep, readBasicHeader_delimited.append hb ext, header_append hm ext, hpos]

/-- The three ways an attempt can go: the header is incomplete, the header is
refused, or the header is complete and only the payload may be missing. In the
last case a repeated attempt finds its own chunk and continues with it. -/
theorem recvStep_cases (h : Handler σ) (s : RecvState × σ) (buf : Bytes) :
    recvStep h s buf = .more s ∨
    (∃ code, ∀ ext, recvStep h s (buf ++ ext) = .stop (.code code) []) ∨
    ∃ csid hdr msg pos bs', 0 < pos ∧ pos + bs'.length = buf.length ∧
      (∀ ext, recvStep h s (buf ++ ext) = receivePayload h s.1 s.2 csid hdr msg pos (bs' ++ ext)) ∧
      ∀ ext, recvStep h (s.1.install csid hdr (target hdr msg), s.2) (buf ++ ext) =
        receivePayload h s.1 s.2 csid hdr msg pos (bs' ++ ext) := by
  cases hb : readBasicHeader buf with
  | none => left; simp only [recvStep, hb]
  | some r =>
    obtain ⟨⟨fmt, csid⟩, bs⟩ := r
    cases hm : readMessageHeader fmt (s.1.recvChunkStreams csid)
        ((s.1.recvChunkStreams csid).bind RtmpChunk.rtmpMessage).isNone {} bs with
    | more => left; simp only [recvStep, hb, hm]
    | fail code =>
      refine Or.inr (Or.inl ⟨code, fun ext ↦ ?_⟩)
      simp only [recvStep, readBasicHeader_delimited.append hb ext, header_fail hm (bs ++ ext)]
    | ok hdr bs' =>
      have hl := readBasicHeader_length hb
      have hl' := header_length hm
      refine Or.inr (Or.inr ⟨csid, hdr, _, buf.length - bs'.length, bs', by omega, by omega,
        recvStep_of_header h s hb hm, fun ext ↦ ?_⟩)
      let msg := target hdr ((s.1.recvChunkStreams csid).bind RtmpChunk.rtmpMessage)
      have hst := install_self s.1 csid hdr msg
      have hr := header_resume hm (some msg)
      have hm' : readMessageHeader fmt ((s.1.install csid hdr msg).recvChunkStreams csid)
          (((s.1.install csid hdr msg).recvChunkStreams csid).bind RtmpChunk.rtmpMessage).isNone {} bs =
          .ok hdr bs' := by
        simpa only [hst, Option.bind_some, Option.isNone_some] using hr
      rw [recvStep_of_header h (s.1.install csid hdr msg, s.2) hb hm' ext]
      simp only [hst, Option.bind_some]
      exact receivePayload_resume h s.1 s.2 csid hdr _ _ _

/-- The receiver's answers depend only on the bytes of the chunk in front, and
an attempt that returns 0 may be repeated from the state it leaves. -/
theorem recvStep_lawful (h : Handler σ) : Lawful (recvStep h) where
  consumes := by
    intro s buf n s' out hs
    rcases recvStep_cases h s buf
        with hc | ⟨code, hc⟩ | ⟨csid, hdr, msg, pos, bs, hpos, hlen, hc, -⟩
    · rw [hc] at hs; cases hs
    · have hc := hc []; rw [List.append_nil, hs] at hc; cases hc
    · have hc := hc []
      rw [List.append_nil, List.append_nil, hs] at hc
      have hb := receivePayload_bound hc.symm
      omega
  settled := by
    intro s buf hne ext
    rcases recvStep_cases h s buf with hc | ⟨code, hc⟩ | ⟨csid, hdr, msg, pos, bs, -, -, hc, -⟩
    · exact absurd hc (hne s)
    · have hb := hc []
      rw [List.append_nil] at hb
      rw [hc, hb]
    · have hb := hc []
      rw [List.append_nil, List.append_nil] at hb
      rcases receivePayload_cases h s.1 s.2 csid hdr msg pos bs with hp | ⟨-, hp⟩
      · exact absurd (hb.trans hp) (hne _)
      · rw [hc, hp, hb]
  more_resume := by
    intro s buf s' hs ext
    rcases recvStep_cases h s buf with hc | ⟨code, hc⟩ | ⟨csid, hdr, msg, pos, bs, -, -, hc, hr⟩
    · rw [hc] at hs; cases hs; rfl
    · have hc := hc []; rw [List.append_nil, hs] at hc; cases hc
    · have hb := hc []
      rw [List.append_nil, List.append_nil, hs] at hb
      rcases receivePayload_cases h s.1 s.2 csid hdr msg pos bs with hp | ⟨hp, -⟩
      · rw [hp] at hb
        cases hb
        rw [hr, hc]
      · exact absurd hb.symm (hp s')

end MmsServer.Rtmp.ChunkReceiver
