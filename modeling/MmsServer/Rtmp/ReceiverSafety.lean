import MmsServer.Rtmp.ControlMessage
import MmsServer.Rtmp.ReceiveLoop
import Mathlib.Logic.Relation

namespace MmsServer.Rtmp.ReceiverSafety

open Function Lib.ByteReader Lib.Incremental Define ChunkReceiver ControlMessage ReceiveLoop

variable {σ : Type}

structure Announces (hdr : ChunkMessageHeader) (msg : RtmpMessage) : Prop where
  used_le : (msg.usingData.length : ℤ) ≤ hdr.messageLength.toInt
  le_size : hdr.messageLength.toInt ≤ msg.dataBytes

/-- The invariant of the receiver: a partial message fits the latest header of
its chunk stream. -/
structure Fits (s : RecvState) : Prop where
  length_nonneg : ∀ csid c, s.recvChunkStreams csid = some c →
      0 ≤ c.chunkMessageHeader.messageLength.toInt
  announces : ∀ csid c msg, s.recvChunkStreams csid = some c → c.rtmpMessage = some msg →
    Announces c.chunkMessageHeader msg

/-- What the receiver relies on without checking it: a chunk size that is not
negative, and no type-0 or type-1 header that changes the length of a message
below what has arrived or beyond what was allocated. A length that the safety
rule refuses does no harm. -/
structure Trusted (s : RecvState) (buf : Bytes) : Prop where
  chunkSize : 0 ≤ s.inChunkSize.toInt
  length : ∀ fmt csid bs c msg hdr rest, readBasicHeader buf = some ((fmt, csid), bs) →
    fmt = .type0 ∨ fmt = .type1 → s.recvChunkStreams csid = some c → c.rtmpMessage = some msg →
    readMessageHeader fmt (some c) false {} bs = .ok hdr rest →
    hdr.messageLength.toInt < maxRtmpBufBytes → Announces hdr msg

theorem fits_init : Fits {} where
  length_nonneg csid c h := by cases h
  announces csid c msg h := by cases h

theorem setLow24_nonneg {v : ℕ} (h : v < 256 ^ 3) : 0 ≤ (setLow24 0 v).toInt := by
  have hv : setLow24 0 v = BitVec.ofNat 32 v := by simp [setLow24]
  rw [hv, toInt_ofNat_of_lt (by omega)]
  omega

theorem header_length_nonneg {fmt : ChunkFmt} {prev : Option RtmpChunk} {first : Bool}
    {bs rest : Bytes} {hdr : ChunkMessageHeader}
    (h : readMessageHeader fmt prev first {} bs = .ok hdr rest)
    (hp : ∀ c, prev = some c → 0 ≤ c.chunkMessageHeader.messageLength.toInt) :
    0 ≤ hdr.messageLength.toInt := by
  unfold readMessageHeader at h
  split at h
  · rw [ofRead_ok] at h
    simp only [readType0, bind_eq_some, pure_eq_some] at h
    obtain ⟨d, m₁, h₁, l, m₂, h₂, t, m₃, h₃, i, m₄, h₄, e, m₅, h₅, rfl, rfl⟩ := h
    exact setLow24_nonneg (readBE_lt h₂)
  · cases h
  · rw [ofRead_ok] at h
    simp only [readType1, bind_eq_some, pure_eq_some] at h
    obtain ⟨d, m₁, h₁, l, m₂, h₂, t, m₃, h₃, δ, m₄, h₄, rfl, rfl⟩ := h
    exact setLow24_nonneg (readBE_lt h₂)
  · cases h
  · rename_i c
    rw [ofRead_ok] at h
    simp only [readType2, bind_eq_some, pure_eq_some] at h
    obtain ⟨d, m₁, h₁, δ, m₂, h₂, rfl, rfl⟩ := h
    exact hp c rfl
  · cases h
  · rename_i c
    cases h
    exact hp c rfl

theorem header_length_eq {fmt : ChunkFmt} {c : RtmpChunk} {first : Bool} {bs rest : Bytes}
    {hdr : ChunkMessageHeader} (h : readMessageHeader fmt (some c) first {} bs = .ok hdr rest)
    (hf : ¬ (fmt = .type0 ∨ fmt = .type1)) :
    hdr.messageLength = c.chunkMessageHeader.messageLength := by
  cases fmt with
  | type0 => exact absurd (Or.inl rfl) hf
  | type1 => exact absurd (Or.inr rfl) hf
  | type2 =>
    simp only [readMessageHeader, ofRead_ok, readType2, bind_eq_some, pure_eq_some] at h
    obtain ⟨d, m₁, h₁, δ, m₂, h₂, rfl, rfl⟩ := h
    rfl
  | type3 => cases h; rfl

theorem alloc_announces {hdr : ChunkMessageHeader} (h : 0 ≤ hdr.messageLength.toInt) :
    Announces hdr (.alloc hdr.messageLength.toNat) where
  used_le := by simpa [RtmpMessage.alloc, Packet.alloc] using h
  le_size := by
    have hn := BitVec.toInt_eq_toNat_cond hdr.messageLength
    simp only [RtmpMessage.alloc, Packet.alloc]
    split at hn <;> omega

theorem target_announces {s : RecvState} {buf bs rest : Bytes} {fmt : ChunkFmt} {csid : ℕ}
    {hdr : ChunkMessageHeader} (hf : Fits s) (ht : Trusted s buf)
    (hb : readBasicHeader buf = some ((fmt, csid), bs))
    (hm : readMessageHeader fmt (s.recvChunkStreams csid)
      ((s.recvChunkStreams csid).bind RtmpChunk.rtmpMessage).isNone {} bs = .ok hdr rest)
    (hlt : hdr.messageLength.toInt < maxRtmpBufBytes) :
    Announces hdr (target hdr ((s.recvChunkStreams csid).bind RtmpChunk.rtmpMessage)) := by
  have hnn := header_length_nonneg hm (fun c hc ↦ hf.length_nonneg csid c hc)
  cases hc : s.recvChunkStreams csid with
  | none => exact alloc_announces hnn
  | some c =>
    cases hmsg : c.rtmpMessage with
    | none =>
      simp only [Option.bind_some, hmsg]
      exact alloc_announces hnn
    | some msg =>
      simp only [hc, Option.bind_some, hmsg, Option.isNone_some] at hm ⊢
      by_cases h01 : fmt = .type0 ∨ fmt = .type1
      · exact ht.length fmt csid bs c msg hdr rest hb h01 hc hmsg hm hlt
      · have ha := hf.announces csid c msg hc hmsg
        have he := header_length_eq hm h01
        exact ⟨he ▸ ha.used_le, he ▸ ha.le_size⟩

theorem payload_size_bound {s : RecvState} {hdr : ChunkMessageHeader} {msg : RtmpMessage}
    (hs : 0 ≤ s.inChunkSize.toInt) (ha : Announces hdr msg) :
    0 ≤ chunkPayloadSize s hdr msg ∧ chunkPayloadSize s hdr msg ≤ msg.unuse := by
  have h₁ := ha.used_le
  have h₂ := ha.le_size
  unfold chunkPayloadSize Packet.unuse
  omega

theorem install_fits {s : RecvState} {hdr : ChunkMessageHeader} {msg : RtmpMessage} (hf : Fits s)
    (ha : Announces hdr msg) (csid : ℕ) : Fits (s.install csid hdr msg) where
  length_nonneg j c h := by
    by_cases hj : j = csid
    · rw [hj, install_self] at h
      cases h
      exact (Int.natCast_nonneg _).trans ha.used_le
    · rw [install_of_ne s hj] at h
      exact hf.length_nonneg j c h
  announces j c m h hm := by
    by_cases hj : j = csid
    · rw [hj, install_self] at h
      cases h
      cases hm
      exact ha
    · rw [install_of_ne s hj] at h
      exact hf.announces j c m h hm

theorem dropMessage_fits {s : RecvState} (hf : Fits s) (csid : ℕ) :
    Fits { s with recvChunkStreams := dropMessage s.recvChunkStreams csid } where
  length_nonneg j c h := by
    by_cases hj : j = csid
    · simp only [dropMessage, hj, update_self, Option.map_eq_some_iff] at h
      obtain ⟨c', hc', rfl⟩ := h
      exact hf.length_nonneg csid c' hc'
    · simp only [dropMessage, update_of_ne hj] at h
      exact hf.length_nonneg j c h
  announces j c m h hm := by
    by_cases hj : j = csid
    · simp only [dropMessage, hj, update_self, Option.map_eq_some_iff] at h
      obtain ⟨c', hc', rfl⟩ := h
      cases hm
    · simp only [dropMessage, update_of_ne hj] at h
      exact hf.announces j c m h hm

variable (sendAck : σ → Bool × σ) (dispatch : σ → RtmpMessage → Bool × σ)

theorem handler_fits {s : RecvState} (hf : Fits s) (app : σ) (msg : RtmpMessage) :
    Fits (onRecvRtmpMessage sendAck dispatch app s msg).2.2 where
  length_nonneg j c h := by
    rcases handler_streams sendAck dispatch app s msg j with hs | hs
    · exact hf.length_nonneg j c (hs.symm.trans h)
    · rw [hs] at h; cases h
  announces j c m h hm := by
    rcases handler_streams sendAck dispatch app s msg j with hs | hs
    · exact hf.announces j c m (hs.symm.trans h) hm
    · rw [hs] at h; cases h

/-- A good end of a call: the copy stayed inside the message, and the invariant
holds in the state that the next call starts from. -/
def Safe : RecvStep (RecvState × σ) → Prop
  | .more t => Fits t.1
  | .take _ t _ => Fits t.1
  | .stop (.code _) _ => True
  | .stop (.overrun _ _) _ => False

theorem finishChunk_safe {s : RecvState} {app : σ} {csid pos : ℕ} {hdr : ChunkMessageHeader}
    {msg : RtmpMessage} (hf : Fits s) (ha : Announces hdr msg) :
    Safe (finishChunk (onRecvRtmpMessage sendAck dispatch) s app csid hdr msg pos) := by
  have hfill : Announces hdr (msg.fill csid hdr) := ⟨ha.used_le, ha.le_size⟩
  have hh := handler_fits sendAck dispatch (install_fits hf hfill csid) app (msg.fill csid hdr)
  unfold finishChunk
  split
  · dsimp only
    cases hr : onRecvRtmpMessage sendAck dispatch app (s.install csid hdr (msg.fill csid hdr))
        (msg.fill csid hdr) with
    | mk ok r =>
      rw [hr] at hh
      cases ok with
      | false => trivial
      | true => exact dropMessage_fits hh csid
  · split
    · trivial
    · exact install_fits hf ha csid

theorem receivePayload_safe {s : RecvState} {app : σ} {csid pos : ℕ} {hdr : ChunkMessageHeader}
    {msg : Option RtmpMessage} {bs : Bytes} (hf : Fits s) (hs : 0 ≤ s.inChunkSize.toInt)
    (ha : hdr.messageLength.toInt < maxRtmpBufBytes → Announces hdr (target hdr msg)) :
    Safe (receivePayload (onRecvRtmpMessage sendAck dispatch) s app csid hdr msg pos bs) := by
  unfold receivePayload
  split
  · trivial
  · rename_i hlt
    have ha := ha (Int.not_le.mp hlt)
    have hb := payload_size_bound hs ha
    dsimp only
    split
    · exact install_fits hf ha csid
    · refine finishChunk_safe sendAck dispatch hf ⟨?_, ha.le_size⟩
      have hc : chunkPayloadSize s hdr (target hdr msg) ≤
          hdr.messageLength.toInt - (target hdr msg).usingData.length := min_le_right _ _
      simp only [Packet.append, List.length_append, List.length_take]
      omega

theorem recvStep_safe {s : RecvState × σ} {buf : Bytes} (hf : Fits s.1) (ht : Trusted s.1 buf) :
    Safe (recvStep (onRecvRtmpMessage sendAck dispatch) s buf) := by
  unfold recvStep
  cases hb : readBasicHeader buf with
  | none => exact hf
  | some r =>
    obtain ⟨⟨fmt, csid⟩, bs⟩ := r
    dsimp only
    cases hm : readMessageHeader fmt (s.1.recvChunkStreams csid)
        ((s.1.recvChunkStreams csid).bind RtmpChunk.rtmpMessage).isNone {} bs with
    | more => exact hf
    | fail code => trivial
    | ok hdr rest =>
      exact receivePayload_safe sendAck dispatch hf ht.chunkSize (target_announces hf ht hb hm)

/-- One call of `processRecvBuffer`, on a buffer that meets the condition, that
leaves the connection open. -/
def Calls (s t : RtmpChunkProtocol × σ) : Prop :=
  ∃ buf, Trusted s.1.toRecvState buf ∧
    (processRecvBuffer (onRecvRtmpMessage sendAck dispatch) s buf = .more t ∨
      ∃ n out, processRecvBuffer (onRecvRtmpMessage sendAck dispatch) s buf = .take n t out)

theorem calls_fits {s t : RtmpChunkProtocol × σ} (hc : Calls sendAck dispatch s t)
    (hf : Fits s.1.toRecvState) : Fits t.1.toRecvState := by
  obtain ⟨buf, ht, hr⟩ := hc
  have hsafe := recvStep_safe (s := forgetCache s) sendAck dispatch hf ht
  rw [← process_forgetCache] at hsafe
  rcases hr with hr | ⟨n, out, hr⟩
  · rw [hr] at hsafe; exact hsafe
  · rw [hr] at hsafe; exact hsafe

theorem reachable_fits {app : σ} {s : RtmpChunkProtocol × σ}
    (h : Relation.ReflTransGen (Calls sendAck dispatch) ({}, app) s) : Fits s.1.toRecvState := by
  induction h with
  | refl => exact fits_init
  | tail _ hc ih => exact calls_fits sendAck dispatch hc ih

/-- In every run whose calls all meet the condition, every copy of payload stays
inside the unused bytes of its message. -/
theorem reassembly_stays_in_buffer (app : σ) (s : RtmpChunkProtocol × σ) (buf : Bytes)
    (h : Relation.ReflTransGen (Calls sendAck dispatch) ({}, app) s)
    (ht : Trusted s.1.toRecvState buf) (size : ℤ) (unuse : ℕ) (out : List RtmpMessage) :
    processRecvBuffer (onRecvRtmpMessage sendAck dispatch) s buf ≠ .stop (.overrun size unuse) out := by
  intro hr
  have hsafe := recvStep_safe (s := forgetCache s) sendAck dispatch
    (reachable_fits sendAck dispatch h) ht
  rw [← process_forgetCache, hr] at hsafe
  exact hsafe

def acceptingSession : Handler Unit := onRecvRtmpMessage (fun _ ↦ (true, ())) (fun _ _ ↦ (true, ()))

def incompleteChunk : Bytes := [3, 0, 0, 0, 0, 0, 2, 9, 1, 0, 0, 0, 7]

def waiting : RtmpChunkProtocol × Unit :=
  match processRecvBuffer acceptingSession ({}, ()) incompleteChunk with
  | .more t => t
  | _ => ({}, ())

theorem incompleteChunk_trusted : Trusted {} incompleteChunk where
  chunkSize := by decide
  length _ _ _ _ _ _ _ _ _ hc := by cases hc

theorem waiting_trusted : Trusted waiting.1.toRecvState (incompleteChunk ++ [8]) where
  chunkSize := by decide
  length fmt csid bs c msg hdr rest hb _ hc hmsg hm _ := by
    rw [show readBasicHeader (incompleteChunk ++ [8]) = some ((.type0, 3), incompleteChunk.tail ++ [8]) from rfl,
      Option.some_inj, Prod.mk.injEq, Prod.mk.injEq] at hb
    obtain ⟨⟨rfl, rfl⟩, rfl⟩ := hb
    rw [show waiting.1.recvChunkStreams 3 = some ⟨⟨0, 0, 2, 9, 0x01000000⟩, some (.alloc 2)⟩ from rfl,
      Option.some_inj] at hc
    subst hc
    cases hmsg
    rw [show readMessageHeader .type0 (some ⟨⟨0, 0, 2, 9, 0x01000000⟩, some (.alloc 2)⟩) false {}
      (incompleteChunk.tail ++ [8]) = .ok ⟨0, 0, 2, 9, 0x01000000⟩ [7, 8] from rfl,
        HeaderResult.ok.injEq] at hm
    obtain ⟨rfl, rfl⟩ := hm
    exact ⟨by decide, by decide⟩

theorem reassembly_resumes_in_buffer :
    Relation.ReflTransGen (Calls (fun _ ↦ (true, ())) (fun _ _ ↦ (true, ()))) ({}, ()) waiting ∧
    Trusted waiting.1.toRecvState (incompleteChunk ++ [8]) ∧
    ∀ size unuse out, processRecvBuffer acceptingSession waiting (incompleteChunk ++ [8]) ≠
      .stop (.overrun size unuse) out := by
  have hreach : Relation.ReflTransGen (Calls (fun _ ↦ (true, ())) (fun _ _ ↦ (true, ())))
      ({}, ()) waiting :=
    .single ⟨incompleteChunk, incompleteChunk_trusted, Or.inl rfl⟩
  exact ⟨hreach, waiting_trusted,
    reassembly_stays_in_buffer _ _ () waiting (incompleteChunk ++ [8]) hreach waiting_trusted⟩

/-- Set Chunk Size 1, then a message of two bytes whose length a second type-0
header changes to five after its first byte. -/
def growingMessage : Bytes :=
  [2, 0, 0, 0, 0, 0, 4, 1, 0, 0, 0, 0, 0, 0, 0, 1] ++
  [3, 0, 0, 0, 0, 0, 2, 9, 0, 0, 0, 0, 7] ++ [3, 0, 0, 0, 0, 0, 5, 9, 0, 0, 0, 0, 7] ++ [0xc3, 7]

def negativeChunkSize : Bytes :=
  [2, 0, 0, 0, 0, 0, 4, 1, 0, 0, 0, 0, 0xff, 0xff, 0xff, 0xff] ++
    [3, 0, 0, 0, 0, 0, 1, 9, 0, 0, 0, 0, 7]

theorem peer_overruns_buffer :
    (cycleRecvRtmpMessage acceptingSession (-1) ({}, ()) [growingMessage]).map Prod.snd =
      some (.overrun 1 0) ∧
    (cycleRecvRtmpMessage acceptingSession (-1) ({}, ()) [negativeChunkSize]).map Prod.snd =
      some (.overrun (-1) 1) := by
  constructor <;> rfl

end MmsServer.Rtmp.ReceiverSafety
