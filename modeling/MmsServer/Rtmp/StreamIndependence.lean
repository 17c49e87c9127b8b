import MmsServer.Lib.Interleaving
import MmsServer.Rtmp.ChunkFormat
import MmsServer.Rtmp.ControlMessage

namespace MmsServer.Rtmp.StreamIndependence

open Function Lib.ByteReader Lib.Incremental Lib.Interleaving Define ChunkReceiver ControlMessage
open ChunkFormat

variable {σ : Type} {n : BitVec 32}

def onStream (c : ℕ) (ks : List WireChunk) : List WireChunk := ks.filter fun k ↦ k.csid = c

def ofStream (c : ℕ) (msgs : List RtmpMessage) : List RtmpMessage :=
  msgs.filter fun m ↦ m.chunkStreamId = c

def lastChunks : (ℕ → Option Progress) → List WireChunk → List WireChunk
  | _, [] => []
  | past, k :: ks =>
    let rest := lastChunks (update past k.csid (advanced (past k.csid) k)) ks
    if isLast (past k.csid) k then k :: rest else rest

theorem onStream_cons_self (k : WireChunk) (ks : List WireChunk) :
    onStream k.csid (k :: ks) = k :: onStream k.csid ks :=
  List.filter_cons_of_pos (by simp)

theorem onStream_cons_of_ne {c : ℕ} {k : WireChunk} (h : c ≠ k.csid) (ks : List WireChunk) :
    onStream c (k :: ks) = onStream c ks :=
  List.filter_cons_of_neg (by simpa using Ne.symm h)

theorem ofStream_self {c : ℕ} {msgs : List RtmpMessage} (h : ∀ m ∈ msgs, m.chunkStreamId = c) :
    ofStream c msgs = msgs :=
  List.filter_eq_self.mpr fun m hm ↦ by simpa using h m hm

theorem ofStream_of_ne {c c' : ℕ} (hc : c ≠ c') {msgs : List RtmpMessage}
    (h : ∀ m ∈ msgs, m.chunkStreamId = c') : ofStream c msgs = [] :=
  List.filter_eq_nil_iff.mpr fun m hm ↦ by simpa [h m hm] using Ne.symm hc

theorem ofStream_append (c : ℕ) (msgs msgs' : List RtmpMessage) :
    ofStream c (msgs ++ msgs') = ofStream c msgs ++ ofStream c msgs' := List.filter_append ..

theorem wellFormed_step {past : ℕ → Option Progress} {k : WireChunk} {w : List WireChunk}
    (h : ∀ c, WellFormed n (past c) (onStream c (k :: w))) (c : ℕ) :
    WellFormed n (update past k.csid (advanced (past k.csid) k) c) (onStream c w) := by
  have hc := h c
  by_cases hk : c = k.csid
  · subst hk
    rw [onStream_cons_self] at hc
    rw [update_self]
    exact hc.2
  · rwa [onStream_cons_of_ne hk, ← update_of_ne hk (advanced (past k.csid) k) past] at hc

/-- The interleaved run and the runs of the single streams go side by side: a
chunk is a step of the former and of its own stream's run. -/
theorem run_interleaved {h : Handler σ} (w : List WireChunk) (past : ℕ → Option Progress)
    (s : RecvState) (app : σ) (hs : s.inChunkSize = n)
    (hrep : ∀ c, Represents (past c) (s.recvChunkStreams c))
    (hgo : ∀ k ∈ w, GoesOn h k.csid) (hwf : ∀ c, WellFormed n (past c) (onStream c w)) :
    ∃ s' out, run (recvStep h) (s, app) (wire w) = .wait s' [] out ∧
      out.map RtmpMessage.chunkStreamId = (lastChunks past w).map WireChunk.csid ∧
      ∀ c t app', t.inChunkSize = n → t.recvChunkStreams c = s.recvChunkStreams c →
        ∃ t', run (recvStep h) (t, app') (wire (onStream c w)) = .wait t' [] (ofStream c out) := by
  have hcons := (recvStep_lawful h).consumes
  induction w generalizing past s app with
  | nil => exact ⟨(s, app), [], rfl, rfl, fun c t app' _ _ ↦ ⟨(t, app'), rfl⟩⟩
  | cons k w ih =>
    have hk := hwf k.csid
    rw [onStream_cons_self] at hk
    obtain ⟨⟨len, hfit⟩, -⟩ := hk
    obtain ⟨e', o, hrep', ho, hstep⟩ := recvStep_taken σ (hrep k.csid) hfit
    have hgok := hgo k (List.mem_cons_self ..)
    have hof : ∀ m ∈ o, m.chunkStreamId = k.csid := by
      intro m hm
      have hmem := List.mem_map_of_mem (f := RtmpMessage.chunkStreamId) hm
      rw [ho] at hmem
      split at hmem
      · exact List.mem_singleton.mp hmem
      · cases hmem
    obtain ⟨app₁, h₁⟩ := hstep h s app (wire w) hgok hs rfl
    obtain ⟨s', out, hrun, horder, halone⟩ :=
      ih (update past k.csid (advanced (past k.csid) k))
        { s with recvChunkStreams := update s.recvChunkStreams k.csid e' } app₁ hs
        (fun c ↦ by
          by_cases hc : c = k.csid
          · subst hc
            simpa only [update_self] using hrep'
          · simpa only [update_of_ne hc] using hrep c)
        (fun k' hk' ↦ hgo k' (List.mem_cons_of_mem k hk')) (wellFormed_step hwf)
    refine ⟨s', o ++ out, ?_, ?_, fun c t app' ht hct ↦ ?_⟩
    · rw [wire_cons, run_item hcons h₁]
      exact congrArg (Result.emit o) hrun
    · rw [List.map_append, ho, horder, lastChunks]
      split <;> rfl
    · by_cases hc : c = k.csid
      · subst hc
        obtain ⟨app₂, h₂⟩ := hstep h t app' (wire (onStream k.csid w)) hgok ht hct
        obtain ⟨t', ht'⟩ := halone k.csid
          { t with recvChunkStreams := update t.recvChunkStreams k.csid e' } app₂ ht
          (by simp only [update_self])
        refine ⟨t', ?_⟩
        rw [onStream_cons_self, wire_cons, run_item hcons h₂, ofStream_append,
          ofStream_self hof]
        exact congrArg (Result.emit o) ht'
      · rw [onStream_cons_of_ne hc, ofStream_append, ofStream_of_ne hc hof, List.nil_append]
        exact halone c t app' ht (by simpa only [update_of_ne hc] using hct)

section Session

variable (sendAck : σ → Bool × σ) (dispatch : σ → RtmpMessage → Bool × σ)

/-- Outside the control stream the session's handler only acknowledges and dispatches. -/
theorem session_goesOn (hack : ∀ app, (sendAck app).1 = true)
    (hdispatch : ∀ app msg, (dispatch app msg).1 = true) {c : ℕ} (hc : c ≠ chunkIdProtocolControlMessage) :
    GoesOn (onRecvRtmpMessage sendAck dispatch) c := by
  intro app s msg hmsg
  have ha := hack app
  have hp : isProtocolControlMessage msg = false := by
    simp [isProtocolControlMessage, hmsg, hc]
  have hd := hdispatch (sendAck app).2 msg
  refine ⟨(dispatch (sendAck app).2 msg).2, ?_⟩
  unfold onRecvRtmpMessage
  rcases hs : sendAck app with ⟨ok, app'⟩
  rw [hs] at ha hd
  subst ha
  simp only [hp, Bool.false_eq_true, if_false]
  exact Prod.ext hd rfl

/-- However the chunks of the streams are interleaved, each stream's messages
are the ones it has alone, and they come in the order of their last chunks. -/
theorem streams_independent (hack : ∀ app, (sendAck app).1 = true)
    (hdispatch : ∀ app msg, (dispatch app msg).1 = true) (app : σ) (F : ℕ → List WireChunk)
    (w : List WireChunk) (hid : ∀ c, ∀ k ∈ F c, k.csid = c ∧ c ≠ chunkIdProtocolControlMessage)
    (hwf : ∀ c, WellFormed n none (F c)) (hw : Interleaves F w) :
    ∃ p out, run (processRecvBuffer (onRecvRtmpMessage sendAck dispatch)) ({ inChunkSize := n }, app)
        (wire w) = .wait p [] out ∧
      (∀ c, ∃ p', run (processRecvBuffer (onRecvRtmpMessage sendAck dispatch))
        ({ inChunkSize := n }, app) (wire (F c)) = .wait p' [] (ofStream c out)) ∧
      out.map RtmpMessage.chunkStreamId = (lastChunks (fun _ ↦ none) w).map WireChunk.csid := by
  have hF : ∀ c, onStream c w = F c := hw.filter fun c k hk ↦ (hid c k hk).1
  have hgo : ∀ k ∈ w, GoesOn (onRecvRtmpMessage sendAck dispatch) k.csid := by
    intro k hk
    have hmem : k ∈ F k.csid := by
      rw [← hF]
      exact List.mem_filter.mpr ⟨hk, by simp⟩
    exact session_goesOn sendAck dispatch hack hdispatch (hid k.csid k hmem).2
  obtain ⟨s, out, hrun, horder, halone⟩ := run_interleaved w (fun _ ↦ none) { inChunkSize := n } app
    rfl (fun _ ↦ .fresh) hgo (fun c ↦ by rw [hF]; exact hwf c)
  obtain ⟨p, hp⟩ := process_wait (p := ({ inChunkSize := n }, app)) hrun
  refine ⟨p, out, hp, fun c ↦ ?_, horder⟩
  obtain ⟨t, ht⟩ := halone c { inChunkSize := n } app rfl rfl
  rw [hF] at ht
  exact process_wait (p := ({ inChunkSize := n }, app)) ht

/-- Two messages of three bytes in chunks of two, on the streams 3 and 300. The
second chunk of stream 300 names its stream in the longer form. -/
def audioChunks : List WireChunk :=
  [⟨.short ⟨1, by decide⟩, .type0 (.short ⟨40, by decide⟩) ⟨3, by decide⟩ 8 1, [10, 11]⟩,
    ⟨.short ⟨1, by decide⟩, .type3, [12]⟩]

def videoChunks : List WireChunk :=
  [⟨.medium 236, .type0 (.extended 0x1000000) ⟨3, by decide⟩ 9 1, [20, 21]⟩, ⟨.long 236, .type3, [22]⟩]

def twoStreams : ℕ → List WireChunk := update (update (fun _ ↦ []) 300 videoChunks) 3 audioChunks

def shuffled : List WireChunk := videoChunks.take 1 ++ audioChunks ++ videoChunks.drop 1

theorem message_wellFormed {a b : WireChunk} {len : Fin (2 ^ 24)} {time : WireTime} {typeId : UInt8}
    {streamId : BitVec 32} (ha : a.header = .type0 time len typeId streamId) (hb : b.header = .type3)
    (hlen : (len : ℕ) = 3) (hpa : a.payload.length = 2) (hpb : b.payload.length = 1) :
    WellFormed 2 none [a, b] := by
  have hann : a.header.announced none = some 3 := by rw [ha, ← hlen]; rfl
  have hadv : advanced none a = some ⟨3, 2⟩ := by
    simp [advanced, isLast, hann, received, hpa]
  refine ⟨⟨3, by decide, hann, by simp, by decide, ?_⟩, ⟨3, by decide, ?_, ?_, by decide, ?_⟩, trivial⟩
  · rw [hpa]
    decide
  · rw [hb, hadv]
    rfl
  · rw [hadv]
    rintro p ⟨⟩ -
    rfl
  · rw [hpb, hadv]
    decide

theorem shuffled_interleaves : Interleaves twoStreams shuffled := by
  have h₀ : Interleaves (fun _ : ℕ ↦ ([] : List WireChunk)) [] := .nil
  have h := (((h₀.cons 300 videoChunks[1]).cons 3 audioChunks[1]).cons 3 audioChunks[0]).cons 300
    videoChunks[0]
  refine (?_ : _ = twoStreams) ▸ h
  funext c
  by_cases h3 : c = 3
  · subst h3
    rfl
  · by_cases h300 : c = 300
    · subst h300
      rfl
    · simp [twoStreams, update_of_ne h3, update_of_ne h300]

theorem twoStreams_cases (c : ℕ) :
    c = 3 ∧ twoStreams c = audioChunks ∨ c = 300 ∧ twoStreams c = videoChunks ∨ twoStreams c = [] := by
  by_cases h3 : c = 3
  · exact Or.inl ⟨h3, by rw [h3]; rfl⟩
  · by_cases h300 : c = 300
    · exact Or.inr (Or.inl ⟨h300, by rw [h300]; rfl⟩)
    · exact Or.inr (Or.inr (by simp [twoStreams, update_of_ne h3, update_of_ne h300]))

theorem streams_independent_shuffled :
    ∃ p out, run (processRecvBuffer (onRecvRtmpMessage (fun k : ℕ ↦ (true, k)) fun k _ ↦ (true, k + 1)))
        ({ inChunkSize := 2 }, 0) (wire shuffled) = .wait p [] out ∧
      (∀ c, ∃ p', run (processRecvBuffer
          (onRecvRtmpMessage (fun k : ℕ ↦ (true, k)) fun k _ ↦ (true, k + 1)))
        ({ inChunkSize := 2 }, 0) (wire (twoStreams c)) = .wait p' [] (ofStream c out)) ∧
      out.map RtmpMessage.chunkStreamId = [3, 300] := by
  refine streams_independent _ _ (fun _ ↦ rfl) (fun _ _ ↦ rfl) 0 twoStreams shuffled ?_ ?_
    shuffled_interleaves
  · intro c k hk
    rcases twoStreams_cases c with ⟨rfl, hc⟩ | ⟨rfl, hc⟩ | hc
    · have hall : ∀ k ∈ audioChunks, k.csid = 3 := by decide
      exact ⟨hall k (hc ▸ hk), by decide⟩
    · have hall : ∀ k ∈ videoChunks, k.csid = 300 := by decide
      exact ⟨hall k (hc ▸ hk), by decide⟩
    · rw [hc] at hk
      cases hk
  · intro c
    rcases twoStreams_cases c with ⟨-, hc⟩ | ⟨-, hc⟩ | hc
    · rw [hc]
      exact message_wellFormed rfl rfl rfl rfl rfl
    · rw [hc]
      exact message_wellFormed rfl rfl rfl rfl rfl
    · rw [hc]
      trivial

end Session

end MmsServer.Rtmp.StreamIndependence
