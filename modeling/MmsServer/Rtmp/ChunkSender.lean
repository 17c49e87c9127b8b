import MmsServer.Rtmp.Define

namespace MmsServer.Rtmp.ChunkSender

open Function Lib.ByteReader Define

/-- A chunk as the sender remembers it; its message is always set. -/
structure SendChunk where
  chunkMessageHeader : ChunkMessageHeader
  rtmpMessage : RtmpMessage

abbrev SendStreams := ℕ → Option SendChunk

structure SendState where
  outChunkSize : BitVec 32 := 128
  sendChunkStreams : SendStreams := fun _ ↦ none

def messageLength (m : RtmpMessage) : BitVec 32 := BitVec.ofNat 32 m.usingData.length

/-- The header format of the next chunk of `m`, from the previous chunk of the
same chunk stream. -/
def chooseFmt (prev : Option SendChunk) (m : RtmpMessage) : ChunkFmt :=
  match prev with
  | none => .type0
  | some p =>
    let hdr := p.chunkMessageHeader
    if hdr.messageStreamId = m.messageStreamId ∧ hdr.messageTypeId = m.messageTypeId ∧
        hdr.messageLength = messageLength m ∧
        hdr.timestampDelta = m.timestamp - hdr.timestamp then .type3
    else if hdr.messageStreamId = m.messageStreamId ∧ hdr.messageTypeId = m.messageTypeId ∧
        hdr.messageLength = messageLength m then .type2
    else if hdr.messageStreamId = m.messageStreamId then .type1
    else .type0

def nextChunk (prev : Option SendChunk) (m : RtmpMessage) : SendChunk where
  chunkMessageHeader :=
    { messageStreamId := m.messageStreamId
      messageTypeId := m.messageTypeId
      messageLength := messageLength m
      timestamp := m.timestamp
      timestampDelta := prev.elim 0 fun p ↦ m.timestamp - p.chunkMessageHeader.timestamp }
  rtmpMessage := m

def basicHeader (fmt : ChunkFmt) (csid : ℕ) : Bytes :=
  if 2 ≤ csid ∧ csid ≤ 63 then [UInt8.ofNat (fmt.code * 64 + csid)]
  else if 64 ≤ csid ∧ csid ≤ 319 then [UInt8.ofNat (fmt.code * 64), UInt8.ofNat (csid - 64)]
  else if 64 ≤ csid ∧ csid ≤ 65599 then
    [UInt8.ofNat (fmt.code * 64 + 1), UInt8.ofNat ((csid - 64) % 256),
      UInt8.ofNat ((csid - 64) / 256)]
  else []

def wireDelta (prev : Option SendChunk) (m : RtmpMessage) : BitVec 32 :=
  prev.elim 0 fun p ↦ m.timestamp - p.rtmpMessage.timestamp

/-- The 24-bit time field, and the extension that follows the header when the
time does not fit. -/
def timeField (extended : Prop) [Decidable extended] (t : BitVec 32) : Bytes :=
  putBE 3 (if extended then 0xffffff else t.toNat)

def extension (extended : Prop) [Decidable extended] (t : BitVec 32) : Bytes :=
  if extended then putBE 4 t.toNat else []

def messageHeader (fmt : ChunkFmt) (prev : Option SendChunk) (m : RtmpMessage) : Bytes :=
  let delta := wireDelta prev m
  match fmt with
  | .type0 =>
    timeField (0xffffff ≤ m.timestamp.toInt) m.timestamp ++ putBE 3 m.usingData.length ++
      [m.messageTypeId] ++ putBE 4 m.messageStreamId.toNat ++
      extension (0xffffff ≤ m.timestamp.toInt) m.timestamp
  | .type1 =>
    timeField (0xffffff ≤ delta.toNat) delta ++ putBE 3 m.usingData.length ++ [m.messageTypeId] ++
      extension (0xffffff ≤ delta.toNat) delta
  | .type2 => timeField (0xffffff ≤ delta.toNat) delta ++ extension (0xffffff ≤ delta.toNat) delta
  | .type3 => extension (0xffffff ≤ delta.toNat) delta

structure SendResult where
  ok : Bool
  free : ℕ
  streams : SendStreams
  bytes : Bytes

/-- The chunk loop for one message. There are 200 chunk headers for a call and
`free` of them are left, so the loop ends even if the chunk size is not positive. -/
def sendMessage (outChunkSize : BitVec 32) (m : RtmpMessage) :
    ℕ → ℤ → ℕ → SendStreams → SendResult
  | free, leftSize, curPos, streams =>
    if leftSize ≤ 0 then ⟨true, free, streams, []⟩
    else match free with
      | 0 => ⟨false, 0, streams, []⟩
      | free + 1 =>
        let prev := streams m.chunkStreamId
        let fmt := chooseFmt prev m
        let size := min outChunkSize.toInt leftSize
        let r := sendMessage outChunkSize m free (leftSize - size) (curPos + size.toNat)
          (update streams m.chunkStreamId (some (nextChunk prev m)))
        { r with
          bytes := basicHeader fmt m.chunkStreamId ++ messageHeader fmt prev m ++
            (m.usingData.drop curPos).take size.toNat ++ r.bytes }

def sendMessages (outChunkSize : BitVec 32) : List RtmpMessage → ℕ → SendStreams → SendResult
  | [], free, streams => ⟨true, free, streams, []⟩
  | m :: ms, free, streams =>
    let r := sendMessage outChunkSize m free m.usingData.length 0 streams
    if r.ok then
      let r' := sendMessages outChunkSize ms r.free r.streams
      { r' with bytes := r.bytes ++ r'.bytes }
    else r

/-- The bytes handed to the connection, or `none` when the call gives up before
sending anything. -/
def sendRtmpMessages (s : SendState) (msgs : List RtmpMessage) : SendState × Option Bytes :=
  let r := sendMessages s.outChunkSize msgs 200 s.sendChunkStreams
  ({ s with sendChunkStreams := r.streams }, if r.ok then some r.bytes else none)

def sendCalls : SendState → List (List RtmpMessage) → Option Bytes
  | _, [] => some []
  | s, call :: calls =>
    match sendRtmpMessages s call with
    | (_, none) => none
    | (s, some bytes) => (sendCalls s calls).map fun bytes' ↦ bytes ++ bytes'

def chunkCount (outChunkSize : BitVec 32) (n : ℕ) : ℕ :=
  (n + outChunkSize.toInt.toNat - 1) / outChunkSize.toInt.toNat

def callChunks (outChunkSize : BitVec 32) (msgs : List RtmpMessage) : ℕ :=
  (msgs.map fun m ↦ chunkCount outChunkSize m.usingData.length).sum

variable {outChunkSize : BitVec 32}

theorem sendMessage_done (m : RtmpMessage) (free : ℕ) {left : ℤ} (pos : ℕ) (streams : SendStreams)
    (h : left ≤ 0) :
    sendMessage outChunkSize m free left pos streams = ⟨true, free, streams, []⟩ := by
  unfold sendMessage
  exact if_pos h

theorem sendMessage_step (m : RtmpMessage) (free : ℕ) {left : ℤ} (pos : ℕ) (streams : SendStreams)
    (h : 0 < left) :
    sendMessage outChunkSize m (free + 1) left pos streams =
      let prev := streams m.chunkStreamId
      let size := min outChunkSize.toInt left
      let r := sendMessage outChunkSize m free (left - size) (pos + size.toNat)
        (update streams m.chunkStreamId (some (nextChunk prev m)))
      { r with
        bytes := basicHeader (chooseFmt prev m) m.chunkStreamId ++
          messageHeader (chooseFmt prev m) prev m ++ (m.usingData.drop pos).take size.toNat ++ r.bytes } := by
  rw [sendMessage, if_neg (by omega)]

theorem chunkCount_zero : chunkCount outChunkSize 0 = 0 := by
  unfold chunkCount
  rcases Nat.eq_zero_or_pos outChunkSize.toInt.toNat with h | h
  · rw [h]
  · exact Nat.div_eq_of_lt (by omega)

theorem chunkCount_step (hn : 0 < outChunkSize.toInt) {n : ℕ} (h : 0 < n) :
    chunkCount outChunkSize n =
      chunkCount outChunkSize (n - min outChunkSize.toInt.toNat n) + 1 := by
  unfold chunkCount
  have hp : 0 < outChunkSize.toInt.toNat := by omega
  generalize outChunkSize.toInt.toNat = c at hp ⊢
  rcases Nat.lt_or_ge c n with hc | hc
  · rw [Nat.min_eq_left hc.le, show n + c - 1 = (n - c + c - 1) + c by omega,
      Nat.add_div_right _ hp]
  · rw [Nat.min_eq_right hc, Nat.sub_self, Nat.zero_add, Nat.div_eq_of_lt (by omega : c - 1 < c),
      show n + c - 1 = (n - 1) + c by omega, Nat.add_div_right _ hp, Nat.div_eq_of_lt (by omega)]

theorem sendMessage_ok_iff (hn : 0 < outChunkSize.toInt) (m : RtmpMessage) (free left pos : ℕ)
    (streams : SendStreams) :
    ((sendMessage outChunkSize m free left pos streams).ok = true ↔ chunkCount outChunkSize left ≤ free) ∧
      (sendMessage outChunkSize m free left pos streams).free =
        free - chunkCount outChunkSize left := by
  induction free generalizing left pos streams with
  | zero =>
    rcases Nat.eq_zero_or_pos left with rfl | hl
    · rw [sendMessage_done m 0 pos streams (by omega), chunkCount_zero]
      exact ⟨by simp, rfl⟩
    · rw [sendMessage, if_neg (by omega), chunkCount_step hn hl]
      exact ⟨by simp, by simp⟩
  | succ free ih =>
    rcases Nat.eq_zero_or_pos left with rfl | hl
    · rw [sendMessage_done m (free + 1) pos streams (by omega), chunkCount_zero]
      exact ⟨by simp, rfl⟩
    · have hc := chunkCount_step hn hl
      have hleft : (left : ℤ) - min outChunkSize.toInt left =
          ((left - min outChunkSize.toInt.toNat left : ℕ) : ℤ) := by omega
      obtain ⟨hok, hfree⟩ := ih (left - min outChunkSize.toInt.toNat left)
        (pos + (min outChunkSize.toInt left).toNat)
        (update streams m.chunkStreamId (some (nextChunk (streams m.chunkStreamId) m)))
      rw [sendMessage_step m free pos streams (by omega), hc]
      simp only [hleft]
      refine ⟨hok.trans Nat.add_le_add_iff_right.symm, ?_⟩
      rw [hfree, Nat.add_sub_add_right]

/-- With a positive chunk size a call goes through exactly if there are chunk
headers for all of its chunks. -/
theorem sendMessages_ok_iff (hn : 0 < outChunkSize.toInt) (msgs : List RtmpMessage) (free : ℕ)
    (streams : SendStreams) :
    (sendMessages outChunkSize msgs free streams).ok = true ↔ callChunks outChunkSize msgs ≤ free := by
  induction msgs generalizing free streams with
  | nil => simp [sendMessages, callChunks]
  | cons m ms ih =>
    obtain ⟨hok, hfree⟩ := sendMessage_ok_iff hn m free m.usingData.length 0 streams
    simp only [callChunks, List.map_cons, List.sum_cons] at ih ⊢
    rw [sendMessages]
    cases hm : (sendMessage outChunkSize m free m.usingData.length 0 streams).ok with
    | true =>
      have hle := hok.mp hm
      simp only [if_true, ih, hfree]
      omega
    | false =>
      have hgt : ¬ chunkCount outChunkSize m.usingData.length ≤ free := by
        rw [← hok, hm]
        exact Bool.false_ne_true
      simp only [Bool.false_eq_true, if_false, hm, false_iff]
      omega

/-- Messages on the wire, one after the other, whatever calls they came from. -/
inductive Sent (outChunkSize : BitVec 32) : SendStreams → List RtmpMessage → Bytes → Prop
  | nil (streams : SendStreams) : Sent outChunkSize streams [] []
  | cons {streams : SendStreams} {m : RtmpMessage} {ms : List RtmpMessage} {bs : Bytes} {free : ℕ} :
      (sendMessage outChunkSize m free m.usingData.length 0 streams).ok = true →
      Sent outChunkSize (sendMessage outChunkSize m free m.usingData.length 0 streams).streams ms bs →
      Sent outChunkSize streams (m :: ms)
        ((sendMessage outChunkSize m free m.usingData.length 0 streams).bytes ++ bs)

theorem Sent.prepend {msgs ms : List RtmpMessage} {free : ℕ} {streams : SendStreams} {bs : Bytes}
    (hok : (sendMessages outChunkSize msgs free streams).ok = true)
    (h : Sent outChunkSize (sendMessages outChunkSize msgs free streams).streams ms bs) :
    Sent outChunkSize streams (msgs ++ ms) ((sendMessages outChunkSize msgs free streams).bytes ++ bs) := by
  induction msgs generalizing free streams with
  | nil => exact h
  | cons m msgs ih =>
    cases hm : (sendMessage outChunkSize m free m.usingData.length 0 streams).ok with
    | false => simp [sendMessages, hm] at hok
    | true =>
      simp only [sendMessages, hm, if_true] at hok h ⊢
      rw [List.append_assoc]
      exact .cons hm (ih hok h)

/-- Calls that need at most 200 chunks each succeed, and put their messages on
the wire in order. -/
theorem sendCalls_sent (hn : 0 < outChunkSize.toInt) (calls : List (List RtmpMessage))
    (streams : SendStreams) (h : ∀ call ∈ calls, callChunks outChunkSize call ≤ 200) :
    ∃ bytes, sendCalls ⟨outChunkSize, streams⟩ calls = some bytes ∧
      Sent outChunkSize streams calls.flatten bytes := by
  induction calls generalizing streams with
  | nil => exact ⟨[], rfl, .nil streams⟩
  | cons call calls ih =>
    have hok := (sendMessages_ok_iff hn call 200 streams).mpr (h call (List.mem_cons_self ..))
    obtain ⟨bytes, hb, hs⟩ := ih (sendMessages outChunkSize call 200 streams).streams
      (fun c hc ↦ h c (List.mem_cons_of_mem call hc))
    refine ⟨(sendMessages outChunkSize call 200 streams).bytes ++ bytes, ?_, hs.prepend hok⟩
    simp only [sendCalls, sendRtmpMessages, hok, if_true, hb, Option.map_some]

end MmsServer.Rtmp.ChunkSender
