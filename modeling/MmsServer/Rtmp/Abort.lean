import MmsServer.Rtmp.ChunkFormat
import MmsServer.Rtmp.ReceiverSafety

namespace MmsServer.Rtmp.Abort

open Function Lib.ByteReader Lib.Incremental Define ChunkReceiver ControlMessage ChunkFormat
open ReceiverSafety (acceptingSession)

variable {σ : Type}

/-- What an abort is for: the partial message is gone and the header is not. -/
def withoutPartial (s : RecvState) (c : ℕ) : RecvState :=
  { s with recvChunkStreams := dropMessage s.recvChunkStreams c }

/-- What a sender that has aborted its message may refer to. -/
def remembered (e : Option RtmpChunk) : Option Progress :=
  e.map fun c ↦ ⟨c.chunkMessageHeader.messageLength.toNat, 0⟩

def decoded (h : Handler σ) (p : RtmpChunkProtocol) (app : σ) (ks : List WireChunk) :
    Result σ UInt8 RtmpMessage RecvError :=
  (run (processRecvBuffer h) (p, app) (wire ks)).mapState Prod.snd

def aborted (p : RtmpChunkProtocol) (abort : RtmpMessage) : RtmpChunkProtocol :=
  { p with toRecvState := (handleAbort p.toRecvState abort).2 }

def DiscardsOnlyPartial (h : Handler σ) (app : σ) (p : RtmpChunkProtocol) (abort : RtmpMessage)
    (c : ℕ) (ks : List WireChunk) : Prop :=
  decoded h (aborted p abort) app ks =
      decoded h { p with toRecvState := withoutPartial p.toRecvState c } app ks ∧
    ∀ j, j ≠ c → (aborted p abort).recvChunkStreams j = p.recvChunkStreams j

variable {h : Handler σ} {s : RecvState} {app : σ} {p : RtmpChunkProtocol} {c : ℕ}

def withRecord (s : RecvState) (c : ℕ) (e : Option RtmpChunk) : RecvState :=
  { s with recvChunkStreams := update s.recvChunkStreams c e }

theorem withRecord_self (s : RecvState) (c : ℕ) (e : Option RtmpChunk) :
    (withRecord s c e).recvChunkStreams c = e := update_self ..

theorem handleAbort_eq {abort : RtmpMessage} (ha : decodeAbort abort = some c) :
    handleAbort s abort = (true, withRecord s c none) := by
  simp only [handleAbort, ha]
  rfl

theorem decoded_eq (h : Handler σ) (p : RtmpChunkProtocol) (app : σ) (ks : List WireChunk) :
    decoded h p app ks = (run (recvStep h) (p.toRecvState, app) (wire ks)).mapState Prod.snd := by
  have hr := run_mapState forgetCache (process_forgetCache h) (p, app) (wire ks)
  rw [decoded, show (p.toRecvState, app) = forgetCache (p, app) from rfl, ← hr]
  cases run (processRecvBuffer h) (p, app) (wire ks) <;> rfl

theorem receivePayload_record (e : Option RtmpChunk) (hdr : ChunkMessageHeader)
    (msg : Option RtmpMessage) (pos : ℕ) (bs : Bytes) :
    receivePayload h (withRecord s c e) app c hdr msg pos bs =
      receivePayload h s app c hdr msg pos bs := by
  have hi (m : RtmpMessage) : (withRecord s c e).install c hdr m = s.install c hdr m := by
    simp only [withRecord, RecvState.install, update_idem]
  have hc (m : RtmpMessage) : chunkPayloadSize (withRecord s c e) hdr m = chunkPayloadSize s hdr m := rfl
  simp only [receivePayload, finishChunk, hi, hc]

/-- A type-0 header makes the record irrelevant, but for the message under way. -/
theorem recvStep_type0 {k : WireChunk} (hk : k.header.fmt = .type0) (hc : k.csid = c)
    {e : Option RtmpChunk} (he : e.bind RtmpChunk.rtmpMessage = none) (rest : Bytes) :
    recvStep h (withRecord s c e, app) (k.bytes ++ rest) =
      recvStep h (withRecord s c none, app) (k.bytes ++ rest) := by
  subst hc
  cases hh : k.header with
  | type1 => rw [hh] at hk; cases hk
  | type2 => rw [hh] at hk; cases hk
  | type3 => rw [hh] at hk; cases hk
  | type0 time length typeId streamId =>
    have hb := chunkId_yields k.header.fmt k.id k.header.bytes
    have hread := type0_read time length typeId streamId []
    rw [List.append_nil, ← hh] at hread
    have hstep {e : Option RtmpChunk} (he : e.bind RtmpChunk.rtmpMessage = none) :
        recvStep h (withRecord s k.csid e, app) (k.bytes ++ rest) =
          receivePayload h s app k.csid ⟨0, time.value, setLow24 0 length, typeId, streamId⟩ none
            ((k.id.bytes k.header.fmt ++ k.header.bytes).length - 0) (k.payload ++ rest) := by
      have hrec := withRecord_self s k.csid e
      rw [WireChunk.bytes, List.append_assoc, recvStep_of_header h (withRecord s k.csid e, app) hb
        (by rw [hk]; exact ofRead_ok.mpr hread)]
      have hmsg : ((withRecord s k.csid e).recvChunkStreams k.id.csid).bind RtmpChunk.rtmpMessage =
          none := (congrArg (Option.bind · RtmpChunk.rtmpMessage) hrec).trans he
      simp only [hmsg]
      exact receivePayload_record e _ none _ _
    rw [hstep he, hstep rfl]

theorem header_without_record {fmt : ChunkFmt} (hf : fmt ≠ .type0) :
    ∃ code, ∀ first hdr bs, readMessageHeader fmt none first hdr bs = .fail code := by
  cases fmt with
  | type0 => exact absurd rfl hf
  | type1 => exact ⟨-8, fun _ _ _ ↦ rfl⟩
  | type2 => exact ⟨-12, fun _ _ _ ↦ rfl⟩
  | type3 => exact ⟨-13, fun _ _ _ ↦ rfl⟩

theorem recvStep_compressed {k : WireChunk} (hk : k.header.fmt ≠ .type0) (hc : k.csid = c)
    (rest : Bytes) :
    ∃ code, recvStep h (withRecord s c none, app) (k.bytes ++ rest) = .stop (.code code) [] := by
  subst hc
  obtain ⟨code, hfail⟩ := header_without_record hk
  have hb := chunkId_yields k.header.fmt k.id (k.header.bytes ++ k.payload ++ rest)
  rw [← List.append_assoc, ← List.append_assoc] at hb
  have hrec : (withRecord s k.csid none).recvChunkStreams k.id.csid = none := withRecord_self ..
  exact ⟨code, by simp only [recvStep, WireChunk.bytes, hb, hrec, hfail]⟩

def Quiet (r : Result (RecvState × σ) UInt8 RtmpMessage RecvError) : Prop :=
  ∃ e, r = .halt e []

/-- A stream that remembers a header never stops the receiver before a message
has been delivered. -/
theorem run_not_quiet (ks : List WireChunk) (past : Option Progress) (s : RecvState)
    (hcs : ∀ k ∈ ks, k.csid = c) (hrep : Represents past (s.recvChunkStreams c))
    (hwf : WellFormed s.inChunkSize past ks) : ¬ Quiet (run (recvStep h) (s, app) (wire ks)) := by
  have hcons := (recvStep_lawful h).consumes
  induction ks generalizing past s with
  | nil =>
    rintro ⟨e, he⟩
    cases he
  | cons k ks ih =>
    obtain ⟨⟨len, hf⟩, hwf⟩ := hwf
    have hk := hcs k (List.mem_cons_self ..)
    subst hk
    obtain ⟨hdr, msg, hh, hsize, hused, hstep⟩ := recvStep_wire hrep hf
    have hstep := hstep h s app (wire ks) rfl rfl
    rw [wire_cons]
    by_cases hl : msg.usingData.length = len
    · have hlen : (msg.usingData.length : ℤ) = hdr.messageLength.toInt := by
        rw [toInt_of_toNat hh hf.bounded, hl]
      simp only [finishChunk, hlen, if_true] at hstep
      rintro ⟨e, he⟩
      split at hstep
      · rw [run_stop hstep] at he
        cases he
      · rw [run_item hcons hstep] at he
        cases hr : run (recvStep h) _ (wire ks) with
        | wait t rest out => rw [hr] at he; cases he
        | halt e' out => rw [hr] at he; cases he
    · rw [finishChunk_incomplete_wire h s app k.csid hh hf.bounded hsize hl] at hstep
      rw [run_item hcons hstep, emit_nil]
      refine ih (advanced past k) (s.install k.csid hdr msg)
        (fun k' hk' ↦ hcs k' (List.mem_cons_of_mem k hk')) ?_ hwf
      rw [install_self]
      exact represents_underway hf hh hsize hused hl

theorem withoutPartial_eq (s : RecvState) (c : ℕ) :
    withoutPartial s c =
      withRecord s c ((s.recvChunkStreams c).map fun k ↦ { k with rtmpMessage := none }) := rfl

theorem represents_remembered (s : RecvState) (c : ℕ) :
    Represents (remembered (s.recvChunkStreams c)) ((withoutPartial s c).recvChunkStreams c) := by
  rw [withoutPartial_eq, withRecord_self]
  cases s.recvChunkStreams c with
  | none => exact .fresh
  | some k => exact .idle

/-- A compressed header behind the abort closes the connection. -/
theorem compressed_start_refused {abort : RtmpMessage} {k : WireChunk} {ks : List WireChunk}
    (ha : decodeAbort abort = some c) (hcs : ∀ k' ∈ k :: ks, k'.csid = c)
    (hwf : WellFormed p.inChunkSize (remembered (p.recvChunkStreams c)) (k :: ks))
    (hk : k.header.fmt ≠ .type0) : ¬ DiscardsOnlyPartial h app p abort c (k :: ks) := by
  rintro ⟨hd, -⟩
  obtain ⟨code, hstop⟩ : ∃ code, recvStep h (withRecord p.toRecvState c none, app)
      (k.bytes ++ wire ks) = .stop (.code code) [] :=
    recvStep_compressed hk (hcs k (List.mem_cons_self ..)) (wire ks)
  rw [decoded_eq, decoded_eq, aborted, handleAbort_eq ha, wire_cons, run_stop hstop, ← wire_cons]
    at hd
  have hq : ¬ Quiet (run (recvStep h) (withoutPartial p.toRecvState c, app) (wire (k :: ks))) :=
    run_not_quiet (k :: ks) _ _ hcs (represents_remembered p.toRecvState c) hwf
  cases hr : run (recvStep h) (withoutPartial p.toRecvState c, app) (wire (k :: ks)) with
  | wait t rest out => rw [hr] at hd; cases hd
  | halt e out =>
    rw [hr] at hd
    cases hd
    exact hq ⟨_, hr⟩

/-- The abort drops the whole record of its chunk stream. This does no harm
exactly if the next chunk there has a type-0 header. -/
theorem abort_discards_only_partial_iff (h : Handler σ) (app : σ) (p : RtmpChunkProtocol)
    (abort : RtmpMessage) (c : ℕ) (ks : List WireChunk) (ha : decodeAbort abort = some c)
    (hcs : ∀ k ∈ ks, k.csid = c)
    (hwf : WellFormed p.inChunkSize (remembered (p.recvChunkStreams c)) ks) :
    DiscardsOnlyPartial h app p abort c ks ↔ ∀ k ∈ ks.head?, k.header.fmt = .type0 := by
  have hother : ∀ j, j ≠ c → (aborted p abort).recvChunkStreams j = p.recvChunkStreams j := by
    intro j hj
    rw [aborted, handleAbort_eq ha]
    exact update_of_ne hj ..
  cases ks with
  | nil =>
    refine ⟨fun _ k hk ↦ (by cases hk), fun _ ↦ ⟨?_, hother⟩⟩
    rw [decoded_eq, decoded_eq]
    rfl
  | cons k ks =>
    constructor
    · intro hd k' hk'
      cases hk'
      by_contra hf
      exact compressed_start_refused ha hcs hwf hf hd
    · intro hf
      refine ⟨?_, hother⟩
      rw [decoded_eq, decoded_eq, aborted, handleAbort_eq ha, withoutPartial_eq, wire_cons]
      have he : ((p.recvChunkStreams c).map fun k ↦ { k with rtmpMessage := none }).bind
          RtmpChunk.rtmpMessage = none := by
        cases p.recvChunkStreams c <;> rfl
      rw [run_congr (recvStep_lawful h).consumes (recvStep_type0 (hf k rfl)
        (hcs k (List.mem_cons_self ..)) he (wire ks))]

/-- The first chunk of a message of six bytes on stream 4, for a chunk size of four. -/
def firstHalf : WireChunk := ⟨.short 2, .type0 (.short 0) 6 9 1, [7, 7, 7, 7]⟩

def abortFour : WireChunk := ⟨.short 0, .type0 (.short 0) 4 2 0, [0, 0, 0, 4]⟩

def abortMessage : RtmpMessage :=
  { Packet.ofBytes [0, 0, 0, 4] with messageTypeId := 2, chunkStreamId := 2 }

def holding : RtmpChunkProtocol :=
  match run (processRecvBuffer acceptingSession) ({ inChunkSize := 4 }, ()) (wire [firstHalf]) with
  | .wait p _ _ => p.1
  | .halt _ _ => {}

theorem holding_remembers : remembered (holding.recvChunkStreams 4) = some ⟨6, 0⟩ := by
  decide +kernel

def fullStart : WireChunk := ⟨.short 2, .type0 (.short 40) 2 9 1, [1, 2]⟩

def compressedStart : WireChunk := ⟨.short 2, .type1 (.short 40) 2 9, [1, 2]⟩

theorem start_wellFormed {k : WireChunk} (ha : k.header.announced (some ⟨6, 0⟩) = some 2)
    (hp : k.payload.length = 2) :
    WellFormed holding.inChunkSize (remembered (holding.recvChunkStreams 4)) [k] := by
  have hn : holding.inChunkSize = 4 := by decide +kernel
  rw [hn, holding_remembers]
  refine ⟨⟨2, by decide, ha, ?_, by decide, ?_⟩, trivial⟩
  · rintro p ⟨⟩ h
    cases h
  · rw [hp]
    decide

theorem abort_before_full_start :
    DiscardsOnlyPartial acceptingSession () holding abortMessage 4 [fullStart] ↔
      ∀ k ∈ [fullStart].head?, k.header.fmt = .type0 :=
  abort_discards_only_partial_iff acceptingSession () holding abortMessage 4 [fullStart] rfl
    (by decide) (start_wellFormed rfl rfl)

/-- A sender may describe its next message relative to the one it aborted. The
receiver then closes the connection, with the abort as the last thing it got. -/
theorem abort_forgets_header :
    WellFormed holding.inChunkSize (remembered (holding.recvChunkStreams 4)) [compressedStart] ∧
    ¬ DiscardsOnlyPartial acceptingSession () holding abortMessage 4 [compressedStart] ∧
    run (processRecvBuffer acceptingSession) ({ inChunkSize := 4 }, ())
      (wire [firstHalf, abortFour, compressedStart]) = .halt (.code (-8)) [abortMessage] := by
  have hwf := start_wellFormed (k := compressedStart) rfl rfl
  exact ⟨hwf, compressed_start_refused rfl (by decide) hwf (by decide), rfl⟩

end MmsServer.Rtmp.Abort
