import MmsServer.Rtmp.ChunkReceiver
import Mathlib.Tactic.NormNum

namespace MmsServer.Rtmp.ReceiveLoop

open Lib.ByteReader Lib.Incremental Define ChunkReceiver

variable {σ : Type}

/-- The peer's bytes in the pieces the network delivers. A read returns what has
arrived, as far as there is space for it. -/
def recvSome (space : ℕ) : List Bytes → Option (Bytes × List Bytes)
  | [] => none
  | seg :: segs =>
    if seg.length ≤ space then some (seg, segs) else some (seg.take space, seg.drop space :: segs)

def growBuffer (maxBufBytes recvLen : ℕ) : Option ℕ :=
  if maxBufBytes ≤ recvLen then
    if maxRtmpBufBytes ≤ maxBufBytes * 2 then none else some (maxBufBytes * 2)
  else some maxBufBytes

def cycleError : RecvError → RecvError
  | .code _ => .code (-2)
  | .overrun size unuse => .overrun size unuse

/-- `eof` is what `recv_some` returns once the peer has sent everything. The
fuel bounds the number of reads. -/
def cycleLoop (h : Handler σ) (eof : ℤ) :
    ℕ → RtmpChunkProtocol × σ → Bytes → ℕ → List Bytes → Option (List RtmpMessage × RecvError)
  | 0, _, _, _, _ => none
  | fuel + 1, s, buf, maxBufBytes, segs =>
    match growBuffer maxBufBytes buf.length with
    | none => some ([], .code (-3))
    | some maxBufBytes =>
      match recvSome (maxBufBytes - buf.length) segs with
      | none => some ([], .code eof)
      | some (seg, segs) =>
        match run (processRecvBuffer h) s (buf ++ seg) with
        | .halt e out => some (out, cycleError e)
        | .wait s rest out =>
          (cycleLoop h eof fuel s rest maxBufBytes segs).map fun r ↦ (out ++ r.1, r.2)

def cycleRecvRtmpMessage (h : Handler σ) (eof : ℤ) (s : RtmpChunkProtocol × σ) (segs : List Bytes) :
    Option (List RtmpMessage × RecvError) :=
  cycleLoop h eof (segs.flatten.length + 1) s [] minRtmpBufBytes segs

def largestBuffer : ℕ := 2 ^ 20

theorem recvSome_spec {space : ℕ} (hspace : 0 < space) {segs : List Bytes}
    (hne : ∀ seg ∈ segs, seg ≠ []) {seg : Bytes} {segs' : List Bytes}
    (h : recvSome space segs = some (seg, segs')) :
    seg ++ segs'.flatten = segs.flatten ∧ 0 < seg.length ∧ seg.length ≤ space ∧
      ∀ seg ∈ segs', seg ≠ [] := by
  cases segs with
  | nil => cases h
  | cons a segs =>
    have ha := List.length_pos_iff.mpr (hne a (List.mem_cons_self ..))
    have hrest : ∀ seg ∈ segs, seg ≠ [] := fun s hs ↦ hne s (List.mem_cons_of_mem a hs)
    rw [recvSome] at h
    split at h
    · cases h
      exact ⟨by simp, ha, ‹_›, hrest⟩
    · cases h
      refine ⟨by simp [← List.append_assoc], by rw [List.length_take]; omega,
        List.length_take_le _ _, ?_⟩
      intro s hs
      rcases List.mem_cons.mp hs with rfl | hs
      · exact List.ne_nil_of_length_pos (by rw [List.length_drop]; omega)
      · exact hrest s hs

def outcome (eof : ℤ) (r : Result (RecvState × σ) UInt8 RtmpMessage RecvError) :
    List RtmpMessage × RecvError :=
  match r with
  | .wait _ _ out => (out, .code eof)
  | .halt e out => (out, e)

def loopStep (h : Handler σ) : RecvState × σ → Bytes → RecvStep (RecvState × σ) :=
  bounded largestBuffer (.code (-3)) fun s buf ↦ (recvStep h s buf).mapError cycleError

theorem outcome_emit (eof : ℤ) (r : Result (RecvState × σ) UInt8 RtmpMessage RecvError)
    (out : List RtmpMessage) :
    outcome eof (r.emit out) = (out ++ (outcome eof r).1, (outcome eof r).2) := by
  cases r <;> rfl

theorem growBuffer_spec {k n : ℕ} (hk : k ≤ 6) (hn : n ≤ minRtmpBufBytes * 2 ^ k) :
    (growBuffer (minRtmpBufBytes * 2 ^ k) n = none ∧ n = largestBuffer) ∨
    ∃ k', k' ≤ 6 ∧ growBuffer (minRtmpBufBytes * 2 ^ k) n = some (minRtmpBufBytes * 2 ^ k') ∧
      n < minRtmpBufBytes * 2 ^ k' := by
  unfold growBuffer
  by_cases hlt : n < minRtmpBufBytes * 2 ^ k
  · exact Or.inr ⟨k, hk, if_neg (by omega), hlt⟩
  · rw [if_pos (by omega)]
    rcases Nat.eq_or_lt_of_le hk with rfl | hk
    · left
      simp only [minRtmpBufBytes, maxRtmpBufBytes, largestBuffer] at hn hlt ⊢
      exact ⟨if_pos (by norm_num), by omega⟩
    · have hpow : 2 ^ k ≤ 2 ^ 5 := Nat.pow_le_pow_right (by omega) (by omega)
      have hsmall : ¬ maxRtmpBufBytes ≤ minRtmpBufBytes * 2 ^ k * 2 := by
        simp only [minRtmpBufBytes, maxRtmpBufBytes]
        omega
      have hdouble : minRtmpBufBytes * 2 ^ k * 2 = minRtmpBufBytes * 2 ^ (k + 1) := by
        rw [Nat.pow_succ, Nat.mul_assoc]
      have hpos : 0 < minRtmpBufBytes * 2 ^ k := Nat.mul_pos (by decide) (Nat.two_pow_pos k)
      exact Or.inr ⟨k + 1, hk, by rw [if_neg hsmall, hdouble], by omega⟩

theorem buffer_le {k : ℕ} (hk : k ≤ 6) : minRtmpBufBytes * 2 ^ k ≤ largestBuffer := by
  have hpow : 2 ^ k ≤ 2 ^ 6 := Nat.pow_le_pow_right (by omega) hk
  simp only [minRtmpBufBytes, largestBuffer]
  omega

theorem loopStep_full (h : Handler σ) {s : RecvState × σ} {buf : Bytes}
    (hp : recvStep h s buf = .more s) (hl : buf.length = largestBuffer) (rest : Bytes) :
    loopStep h s (buf ++ rest) = .stop (.code (-3)) [] := by
  have hs : (recvStep h s ((buf ++ rest).take largestBuffer)).mapError cycleError = .more s := by
    rw [List.take_append_of_le_length (by omega), List.take_of_length_le (by omega), hp]
    rfl
  exact bounded_full (by rw [List.length_append]; omega) hs

theorem loopStep_wait (h : Handler σ) {s : RecvState × σ} {buf : Bytes}
    (hp : recvStep h s buf = .more s) (hl : buf.length < largestBuffer) :
    loopStep h s buf = .more s := by
  rw [loopStep, bounded, if_pos hl, hp]
  rfl

theorem run_loopStep_append (h : Handler σ) (s : RecvState × σ) (x y : Bytes)
    (hx : x.length ≤ largestBuffer) :
    run (loopStep h) s (x ++ y) = ((run (recvStep h) s x).mapError cycleError).andThen
      fun s' rest ↦ run (loopStep h) s' (rest ++ y) := by
  rw [← run_mapError]
  exact run_bounded_append ((recvStep_lawful h).mapError cycleError) s x y hx

/-- The loop is one run over the whole byte string, however it was cut. -/
theorem cycleLoop_eq (h : Handler σ) (eof : ℤ) (fuel k : ℕ) (hk : k ≤ 6) (s : RtmpChunkProtocol × σ)
    (buf : Bytes) (segs : List Bytes) (hne : ∀ seg ∈ segs, seg ≠ [])
    (hf : segs.flatten.length < fuel) (hbuf : buf.length ≤ minRtmpBufBytes * 2 ^ k)
    (hp : recvStep h (forgetCache s) buf = .more (forgetCache s)) :
    cycleLoop h eof fuel s buf (minRtmpBufBytes * 2 ^ k) segs =
      some (outcome eof (run (loopStep h) (forgetCache s) (buf ++ segs.flatten))) := by
  induction fuel generalizing k s buf segs with
  | zero => omega
  | succ fuel ih =>
    rw [cycleLoop]
    rcases growBuffer_spec hk hbuf with ⟨hg, hfull⟩ | ⟨k', hk', hg, hspace⟩
    · simp only [hg, run_stop (loopStep_full h hp hfull segs.flatten), outcome]
    · have hle := buffer_le hk'
      simp only [hg]
      cases hr : recvSome (minRtmpBufBytes * 2 ^ k' - buf.length) segs with
      | none =>
        have hnil : segs = [] := by
          cases segs with
          | nil => rfl
          | cons a segs => rw [recvSome] at hr; split at hr <;> cases hr
        rw [hnil, List.flatten_nil, List.append_nil, run_more (loopStep_wait h hp (by omega))]
        rfl
      | some p =>
        obtain ⟨seg, segs'⟩ := p
        obtain ⟨hflat, hpos, hfit, hne'⟩ := recvSome_spec (by omega) hne hr
        have hx : (buf ++ seg).length ≤ minRtmpBufBytes * 2 ^ k' := by
          rw [List.length_append]; omega
        have hlen := congrArg List.length hflat
        rw [List.length_append] at hlen
        have hsim := run_mapState forgetCache (process_forgetCache h) s (buf ++ seg)
        rw [← hflat, ← List.append_assoc, run_loopStep_append h _ _ _ (by omega), ← hsim]
        cases hd : run (processRecvBuffer h) s (buf ++ seg) with
        | halt e out =>
          simp only [hd, Result.mapState, Result.mapError, Result.andThen, outcome]
        | wait s' rest out =>
          rw [hd] at hsim
          have hrest := run_rest_length (recvStep_lawful h).consumes _ _ hsim.symm
          have hpend := run_pending (recvStep_lawful h) _ _ hsim.symm
          simp only [hd, ih k' hk' s' rest segs' hne' (by omega) (by omega) hpend, Option.map_some,
            Result.mapState, Result.mapError, Result.andThen, outcome_emit]

theorem recvStep_nil (h : Handler σ) (s : RecvState × σ) : recvStep h s [] = .more s := rfl

/-- Every way of cutting the bytes of a peer into non-empty reads leads to the
same handler calls and the same end of the loop, from every receiver state and
for every handler. -/
theorem cycle_segmentation_independent (h : Handler σ) (eof : ℤ) (s : RtmpChunkProtocol × σ)
    (segs segs' : List Bytes) (hne : ∀ seg ∈ segs, seg ≠ []) (hne' : ∀ seg ∈ segs', seg ≠ [])
    (hflat : segs.flatten = segs'.flatten) :
    ∃ r, cycleRecvRtmpMessage h eof s segs = some r ∧
      cycleRecvRtmpMessage h eof s segs' = some r := by
  have key (segs : List Bytes) (hne : ∀ seg ∈ segs, seg ≠ []) :
      cycleRecvRtmpMessage h eof s segs =
        some (outcome eof (run (loopStep h) (forgetCache s) segs.flatten)) :=
    cycleLoop_eq h eof _ 0 (by omega) s [] segs hne (by omega) (Nat.zero_le _)
      (recvStep_nil h (forgetCache s))
  exact ⟨_, key segs hne, by rw [key segs' hne', hflat]⟩

def shortMessage : Bytes := [3, 0, 0, 0, 0, 0, 2, 9, 1, 0, 0, 0, 7, 7]

theorem segmentation_shortMessage :
    [shortMessage].flatten = (shortMessage.map fun b ↦ [b]).flatten ∧
    ∃ r, cycleRecvRtmpMessage (fun k s _ ↦ (true, k + 1, s)) (-1) ({}, 0) [shortMessage] = some r ∧
      cycleRecvRtmpMessage (fun k s _ ↦ (true, k + 1, s)) (-1) ({}, 0) (shortMessage.map fun b ↦ [b]) = some r :=
  ⟨rfl, cycle_segmentation_independent _ (-1) ({}, 0) [shortMessage] (shortMessage.map fun b ↦ [b])
    (by decide) (by decide) rfl⟩

end MmsServer.Rtmp.ReceiveLoop
