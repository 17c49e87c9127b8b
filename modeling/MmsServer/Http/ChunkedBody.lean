import Mathlib.Data.List.Forall2
import MmsServer.Lib.Checked
import MmsServer.Lib.Find
import MmsServer.Lib.Text

namespace MmsServer.Http.ChunkedBody

open Lib.ByteReader Lib.Checked Lib.Find Lib.Text

def sizeT (v : ℤ) : ℕ := (v % 2 ^ 64).toNat

structure Extracted where
  consumed : ℕ
  recvChunkBuf : Bytes
  lastChunk : Bool

/-- `extract_chunks` moves the data of the chunks that lie complete in `buf` to the
chunk buffer. An index below the start of a view reads what lies before it. -/
def extractChunks (bufferSize : ℕ) : ℕ → Bytes → Bytes → Bool → Outcome Extracted
  | 0, _, recvChunkBuf, lastChunk => .ok ⟨0, recvChunkBuf, lastChunk⟩
  | fuel + 1, buf, recvChunkBuf, lastChunk =>
    if buf.length ≤ 2 then .ok ⟨0, recvChunkBuf, lastChunk⟩
    else match find crlf buf with
      | none => .ok ⟨0, recvChunkBuf, lastChunk⟩
      | some pos =>
        match stoi 16 (buf.take pos) with
        | none => .err (-1)
        | some v =>
          let chunkBytes := sizeT v
          let tmp := buf.drop (pos + 2)
          if tmp.length < (chunkBytes + 2) % 2 ^ 64 then .ok ⟨0, recvChunkBuf, lastChunk⟩
          else match buf[(pos + 2 + chunkBytes) % 2 ^ 64]? with
            | none => .fault .overread
            | some b =>
              if b ≠ 13 then .err (-2)
              else match buf[(pos + 2 + chunkBytes + 1) % 2 ^ 64]? with
                | none => .fault .overread
                | some b =>
                  if b ≠ 10 then .err (-2)
                  else if tmp.length < chunkBytes then .fault .overread
                  else if bufferSize < recvChunkBuf.length + chunkBytes then .fault .overrun
                  else do
                    let r ← extractChunks bufferSize fuel (tmp.drop (chunkBytes + 2))
                      (recvChunkBuf ++ tmp.take chunkBytes) (lastChunk || chunkBytes == 0)
                    return { r with consumed := pos + 2 + chunkBytes + 2 + r.consumed }

def extractAll (bufferSize : ℕ) : ℕ → Bytes → Bytes → Bool → Outcome Extracted
  | 0, _, recvChunkBuf, lastChunk => .ok ⟨0, recvChunkBuf, lastChunk⟩
  | fuel + 1, buf, recvChunkBuf, lastChunk =>
    if buf = [] then .ok ⟨0, recvChunkBuf, lastChunk⟩
    else do
      let r ← extractChunks bufferSize buf.length buf recvChunkBuf lastChunk
      if r.consumed = 0 then return r
      else
        let r' ← extractAll bufferSize fuel (buf.drop r.consumed) r.recvChunkBuf r.lastChunk
        return { r' with consumed := r.consumed + r'.consumed }

variable {σ : Type}

/-- A callback consumes some prefix of what it is given, or refuses it. -/
structure Callback (σ : Type) where
  call : σ → Bytes → ℤ × σ
  le_length : ∀ s view, (call s view).1 ≤ view.length

structure Fed (σ : Type) where
  rest : Bytes
  state : σ
  passed : List Bytes
  refused : Bool

/-- The loop that hands a buffer to the callback as long as it consumes some of it. -/
def feed (cb : Callback σ) : ℕ → Bytes → σ → Fed σ
  | 0, view, s => ⟨view, s, [], false⟩
  | fuel + 1, view, s =>
    if view = [] then ⟨view, s, [], false⟩
    else
      let (consumed, s) := cb.call s view
      if consumed < 0 then ⟨view, s, [view], true⟩
      else if consumed = 0 then ⟨view, s, [view], false⟩
      else
        let r := feed cb fuel (view.drop consumed.toNat) s
        { r with passed := view :: r.passed }

inductive Ending
  | lastChunk
  | error (code : ℤ)
  | refused
  | noSpace
  | waiting
  | fault (f : Fault)
deriving DecidableEq

structure Run where
  passed : List Bytes
  ending : Ending

inductive Turn (σ : Type)
  | ended (run : Run)
  | recv (passed : List Bytes) (recvBuf recvChunkBuf : Bytes) (s : σ)

def turn (bufferSize : ℕ) (cb : Callback σ) (recvBuf recvChunkBuf : Bytes) (s : σ) : Turn σ :=
  match extractAll bufferSize recvBuf.length recvBuf recvChunkBuf false with
  | .err code => .ended ⟨[], .error code⟩
  | .fault f => .ended ⟨[], .fault f⟩
  | .ok r =>
    let fed := feed cb r.recvChunkBuf.length r.recvChunkBuf s
    if fed.refused then .ended ⟨fed.passed, .refused⟩
    else if r.lastChunk then .ended ⟨fed.passed, .lastChunk⟩
    else if (recvBuf.drop r.consumed).length = bufferSize then .ended ⟨fed.passed, .noSpace⟩
    else .recv fed.passed (recvBuf.drop r.consumed) fed.rest fed.state

/-- `cycle_recv_body` in chunked mode. A number of `cuts` is how much `recv_some`
takes from the stream at most. -/
def cycleRecvBody (bufferSize : ℕ) (cb : Callback σ) :
    List ℕ → Bytes → Bytes → Bytes → σ → Run
  | cuts, stream, recvBuf, recvChunkBuf, s =>
    match turn bufferSize cb recvBuf recvChunkBuf s with
    | .ended run => run
    | .recv passed recvBuf recvChunkBuf s =>
      match cuts with
      | [] => ⟨passed, .waiting⟩
      | n :: cuts =>
        let n := min n (bufferSize - recvBuf.length)
        let r := cycleRecvBody bufferSize cb cuts (stream.drop n) (recvBuf ++ stream.take n)
          recvChunkBuf s
        { r with passed := passed ++ r.passed }

section Scan

inductive Scan
  | stop
  | bad (code : ℤ)
  | wild
  | chunk (pos n : ℕ)

/-- A size of -2 passes every check of `extract_chunks`: the view is not shorter than
`chunk_bytes + 2`, which is 0, and the two bytes before it are the end of the line. -/
def scan (buf : Bytes) : Scan :=
  if buf.length ≤ 2 then .stop
  else match find crlf buf with
    | none => .stop
    | some pos =>
      match stoi 16 (buf.take pos) with
      | none => .bad (-1)
      | some v =>
        if v = -2 then .wild
        else if v = -1 then if buf.length = pos + 2 then .stop else .bad (-2)
        else if v < 0 then .stop
        else if buf.length < pos + 2 + v.toNat + 2 then .stop
        else if (buf.drop (pos + 2 + v.toNat)).take 2 = crlf then .chunk pos v.toNat
        else .bad (-2)

theorem stoi_bounds {base : ℕ} {text : Bytes} {v : ℤ} (h : stoi base text = some v) :
    -2 ^ 31 ≤ v ∧ v < 2 ^ 31 := by
  rw [stoi, Option.filter_eq_some_iff, decide_eq_true_iff] at h
  exact h.2

theorem crlf_at {buf : Bytes} {pos : ℕ} (h : find crlf buf = some pos) :
    buf[pos]? = some 13 ∧ buf[pos + 1]? = some 10 := by
  obtain ⟨rest, hrest⟩ := find_drop h
  have h0 : (buf.drop pos)[0]? = some 13 := by rw [← hrest]; rfl
  have h1 : (buf.drop pos)[1]? = some 10 := by rw [← hrest]; rfl
  rw [List.getElem?_drop] at h0 h1
  exact ⟨h0, h1⟩

theorem take_two_eq_crlf {buf : Bytes} {pos : ℕ} (h : pos + 1 < buf.length) :
    (buf.drop pos).take 2 = crlf ↔ buf[pos] = 13 ∧ buf[pos + 1] = 10 := by
  rw [List.drop_eq_getElem_cons (by omega), List.drop_eq_getElem_cons (by omega), List.take_succ_cons,
    List.take_succ_cons, List.take_zero, crlf, List.cons.injEq, List.cons.injEq]
  exact ⟨fun h ↦ ⟨h.1, h.2.1⟩, fun h ↦ ⟨h.1, h.2, rfl⟩⟩

variable {bufferSize : ℕ}

/-- One pass of `extract_chunks` in the terms of `scan`. -/
theorem extractChunks_eq {buf : Bytes} (hlen : buf.length < 2 ^ 32) (fuel : ℕ)
    (recvChunkBuf : Bytes) (lastChunk : Bool) :
    extractChunks bufferSize (fuel + 1) buf recvChunkBuf lastChunk =
      match scan buf with
      | .stop => .ok ⟨0, recvChunkBuf, lastChunk⟩
      | .bad code => .err code
      | .wild => .fault .overread
      | .chunk pos n =>
        if bufferSize < recvChunkBuf.length + n then .fault .overrun
        else do
          let r ← extractChunks bufferSize fuel (buf.drop (pos + 2 + n + 2))
            (recvChunkBuf ++ (buf.drop (pos + 2)).take n) (lastChunk || n == 0)
          return { r with consumed := pos + 2 + n + 2 + r.consumed } := by
  rw [extractChunks, scan]
  split
  · rfl
  · cases hfind : find crlf buf with
    | none => rfl
    | some pos =>
      have hpos : pos + 2 ≤ buf.length := find_le hfind
      obtain ⟨hcr, hlf⟩ := crlf_at hfind
      simp only
      cases hv : stoi 16 (buf.take pos) with
      | none => rfl
      | some v =>
        obtain ⟨hlo, hhi⟩ := stoi_bounds hv
        simp only
        rw [List.length_drop]
        by_cases h2 : v = -2
        · have hsize : sizeT v = 2 ^ 64 - 2 := by rw [h2]; rfl
          rw [if_pos h2, hsize, if_neg (by omega),
            show (pos + 2 + (2 ^ 64 - 2)) % 2 ^ 64 = pos by omega, hcr]
          simp only
          rw [show (pos + 2 + (2 ^ 64 - 2) + 1) % 2 ^ 64 = pos + 1 by omega, hlf]
          simp only [ne_eq, not_true_eq_false, if_false]
          rw [if_pos (by omega)]
        · rw [if_neg h2]
          by_cases h1 : v = -1
          · have hsize : sizeT v = 2 ^ 64 - 1 := by rw [h1]; rfl
            rw [if_pos h1, hsize]
            by_cases hend : buf.length = pos + 2
            · rw [if_pos (by omega), if_pos hend]
            · rw [if_neg (by omega), if_neg hend,
                show (pos + 2 + (2 ^ 64 - 1)) % 2 ^ 64 = pos + 1 by omega, hlf]
              rfl
          · rw [if_neg h1]
            by_cases hneg : v < 0
            · have hsize : (sizeT v + 2) % 2 ^ 64 = sizeT v + 2 ∧ 2 ^ 33 < sizeT v := by
                unfold sizeT
                omega
              rw [if_pos hneg, hsize.1, if_pos (by omega)]
            · have hsize : sizeT v = v.toNat := by
                unfold sizeT
                omega
              rw [if_neg hneg, hsize, Nat.mod_eq_of_lt (by omega : v.toNat + 2 < 2 ^ 64)]
              by_cases hshort : buf.length < pos + 2 + v.toNat + 2
              · rw [if_pos (by omega), if_pos hshort]
              · rw [if_neg (by omega), if_neg hshort,
                  Nat.mod_eq_of_lt (by omega : pos + 2 + v.toNat < 2 ^ 64),
                  Nat.mod_eq_of_lt (by omega : pos + 2 + v.toNat + 1 < 2 ^ 64),
                  List.getElem?_eq_getElem (by omega), List.getElem?_eq_getElem (by omega)]
                simp only
                have htwo := take_two_eq_crlf (show pos + 2 + v.toNat + 1 < buf.length by omega)
                by_cases hb : buf[pos + 2 + v.toNat] = 13
                · rw [if_neg (not_not_intro hb)]
                  by_cases hb' : buf[pos + 2 + v.toNat + 1] = 10
                  · rw [if_neg (not_not_intro hb'), if_neg (by omega), if_pos (htwo.mpr ⟨hb, hb'⟩),
                      List.drop_drop]
                    rfl
                  · rw [if_pos hb', if_neg (fun h ↦ hb' (htwo.mp h).2)]
                · rw [if_pos hb, if_neg (fun h ↦ hb (htwo.mp h).1)]

theorem scan_chunk {buf : Bytes} {pos n : ℕ} (h : scan buf = .chunk pos n) :
    pos + 2 + n + 2 ≤ buf.length := by
  unfold scan at h
  split at h
  · cases h
  · split at h
    · cases h
    · split at h
      · cases h
      · rename_i pos' hfind v hv
        split at h
        · cases h
        · split at h
          · split at h
            · cases h
            · cases h
          · split at h
            · cases h
            · split at h
              · cases h
              · split at h
                · cases h
                  omega
                · cases h

theorem extractChunks_zero (fuel : ℕ) (recvChunkBuf : Bytes) (lastChunk : Bool) {buf : Bytes}
    (hlen : buf.length < 2 ^ 32) (hstop : scan buf = .stop) :
    extractChunks bufferSize fuel buf recvChunkBuf lastChunk = .ok ⟨0, recvChunkBuf, lastChunk⟩ := by
  cases fuel with
  | zero => rfl
  | succ fuel => rw [extractChunks_eq hlen, hstop]

/-- Behind what was extracted nothing more can be extracted. -/
theorem extractChunks_again {fuel : ℕ} {buf recvChunkBuf : Bytes} {lastChunk : Bool} {r : Extracted}
    (hlen : buf.length < 2 ^ 32) (hfuel : buf.length ≤ fuel)
    (h : extractChunks bufferSize fuel buf recvChunkBuf lastChunk = .ok r) :
    r.consumed ≤ buf.length ∧ scan (buf.drop r.consumed) = .stop := by
  induction fuel generalizing buf recvChunkBuf lastChunk r with
  | zero =>
    cases h
    obtain rfl : buf = [] := List.eq_nil_of_length_eq_zero (by omega)
    exact ⟨Nat.le_refl 0, rfl⟩
  | succ fuel ih =>
    rw [extractChunks_eq hlen] at h
    cases hscan : scan buf with
    | stop =>
      rw [hscan] at h
      cases h
      exact ⟨Nat.zero_le _, hscan⟩
    | bad code =>
      rw [hscan] at h
      cases h
    | wild =>
      rw [hscan] at h
      cases h
    | chunk pos n =>
      rw [hscan] at h
      have hle := scan_chunk hscan
      simp only at h
      split at h
      · cases h
      · obtain ⟨r', hr', hres⟩ := Outcome.bind_eq_ok.mp h
        cases hres
        have hdrop : (buf.drop (pos + 2 + n + 2)).length = buf.length - (pos + 2 + n + 2) :=
          List.length_drop
        obtain ⟨hc, hs⟩ := ih (by omega) (by omega) hr'
        rw [List.drop_drop] at hs
        exact ⟨by simp only; omega, hs⟩

theorem extractAll_eq (fuel : ℕ) {buf : Bytes} (hlen : buf.length < 2 ^ 32)
    (hfuel : buf.length ≤ fuel) (recvChunkBuf : Bytes) (lastChunk : Bool) :
    extractAll bufferSize fuel buf recvChunkBuf lastChunk =
      extractChunks bufferSize buf.length buf recvChunkBuf lastChunk := by
  cases fuel with
  | zero =>
    obtain rfl : buf = [] := List.eq_nil_of_length_eq_zero (by omega)
    rfl
  | succ fuel =>
    rw [extractAll]
    split
    · rename_i hnil
      rw [hnil]
      rfl
    · cases he : extractChunks bufferSize buf.length buf recvChunkBuf lastChunk with
      | err code => rfl
      | fault f => rfl
      | ok r =>
        obtain ⟨hle, hstop⟩ := extractChunks_again hlen le_rfl he
        rw [Outcome.ok_bind]
        split
        · rfl
        · have hrest : (buf.drop r.consumed).length < 2 ^ 32 := by
            rw [List.length_drop]
            omega
          have hagain : extractAll bufferSize fuel (buf.drop r.consumed) r.recvChunkBuf r.lastChunk =
              .ok ⟨0, r.recvChunkBuf, r.lastChunk⟩ := by
            cases fuel with
            | zero => rfl
            | succ fuel =>
              rw [extractAll]
              split
              · rfl
              · rw [extractChunks_zero _ _ _ hrest hstop]
                rfl
          rw [hagain]
          rfl

end Scan

section Safety

/-- The chunks that lie complete in a buffer fit into `room` bytes, and no size is -2. -/
def Fits (room : ℕ) : ℕ → Bytes → Prop
  | 0, _ => True
  | fuel + 1, buf =>
    match scan buf with
    | .stop => True
    | .bad _ => True
    | .wild => False
    | .chunk pos n => n ≤ room ∧ Fits (room - n) fuel (buf.drop (pos + 2 + n + 2))

variable {bufferSize : ℕ}

theorem extractChunks_safe_iff {fuel : ℕ} {buf recvChunkBuf : Bytes} (lastChunk : Bool)
    (hlen : buf.length < 2 ^ 32) (hroom : recvChunkBuf.length ≤ bufferSize) :
    (∀ f, extractChunks bufferSize fuel buf recvChunkBuf lastChunk ≠ .fault f) ↔
      Fits (bufferSize - recvChunkBuf.length) fuel buf := by
  induction fuel generalizing buf recvChunkBuf lastChunk with
  | zero => exact ⟨fun _ ↦ trivial, fun _ f ↦ nofun⟩
  | succ fuel ih =>
    rw [extractChunks_eq hlen, Fits]
    cases hscan : scan buf with
    | stop => exact ⟨fun _ ↦ trivial, fun _ f ↦ nofun⟩
    | bad code => exact ⟨fun _ ↦ trivial, fun _ f ↦ nofun⟩
    | wild => exact ⟨fun h ↦ absurd rfl (h .overread), False.elim⟩
    | chunk pos n =>
      have hle := scan_chunk hscan
      simp only
      by_cases hover : bufferSize < recvChunkBuf.length + n
      · rw [if_pos hover]
        exact ⟨fun h ↦ absurd rfl (h .overrun), fun h ↦ absurd h.1 (by omega)⟩
      · rw [if_neg hover]
        have hdata : (recvChunkBuf ++ (buf.drop (pos + 2)).take n).length = recvChunkBuf.length + n := by
          rw [List.length_append, List.length_take, List.length_drop]
          omega
        have hrest : (buf.drop (pos + 2 + n + 2)).length < 2 ^ 32 := by
          rw [List.length_drop]
          omega
        have hih := ih (lastChunk || n == 0) hrest (by rw [hdata]; omega)
        rw [hdata, ← Nat.sub_sub] at hih
        rw [and_iff_right (by omega), ← hih]
        cases extractChunks bufferSize fuel (buf.drop (pos + 2 + n + 2))
          (recvChunkBuf ++ (buf.drop (pos + 2)).take n) (lastChunk || n == 0) with
        | ok r => exact ⟨fun _ f ↦ nofun, fun _ f ↦ nofun⟩
        | err code => exact ⟨fun _ f ↦ nofun, fun _ f ↦ nofun⟩
        | fault f => exact ⟨fun h ↦ absurd rfl (h f), fun h ↦ absurd rfl (h f)⟩

theorem extractChunks_room {fuel : ℕ} {buf recvChunkBuf : Bytes} {lastChunk : Bool} {r : Extracted}
    (hlen : buf.length < 2 ^ 32) (hroom : recvChunkBuf.length ≤ bufferSize)
    (h : extractChunks bufferSize fuel buf recvChunkBuf lastChunk = .ok r) :
    r.recvChunkBuf.length ≤ bufferSize := by
  induction fuel generalizing buf recvChunkBuf lastChunk r with
  | zero =>
    cases h
    exact hroom
  | succ fuel ih =>
    rw [extractChunks_eq hlen] at h
    cases hscan : scan buf with
    | stop =>
      rw [hscan] at h
      cases h
      exact hroom
    | bad code => rw [hscan] at h; cases h
    | wild => rw [hscan] at h; cases h
    | chunk pos n =>
      rw [hscan] at h
      simp only at h
      split at h
      · cases h
      · obtain ⟨r', hr', hres⟩ := Outcome.bind_eq_ok.mp h
        cases hres
        have hrest : (buf.drop (pos + 2 + n + 2)).length < 2 ^ 32 := by
          rw [List.length_drop]
          omega
        have hdata : (recvChunkBuf ++ (buf.drop (pos + 2)).take n).length ≤ bufferSize := by
          rw [List.length_append, List.length_take]
          omega
        have hr := ih hrest hdata hr'
        exact hr

variable {σ : Type}

theorem feed_length (cb : Callback σ) (fuel : ℕ) (view : Bytes) (s : σ) :
    (feed cb fuel view s).rest.length ≤ view.length := by
  induction fuel generalizing view s with
  | zero => exact le_rfl
  | succ fuel ih =>
    rw [feed]
    split
    · exact le_rfl
    · simp only
      split
      · exact le_rfl
      · split
        · exact le_rfl
        · refine (ih _ _).trans ?_
          rw [List.length_drop]
          exact Nat.sub_le _ _

variable (bufferSize) in
/-- The chunks of the buffer fit beside what the callback has left, in every turn. -/
def FitsAlong (cb : Callback σ) : List ℕ → Bytes → Bytes → Bytes → σ → Prop
  | cuts, stream, recvBuf, recvChunkBuf, s =>
    Fits (bufferSize - recvChunkBuf.length) recvBuf.length recvBuf ∧
      match turn bufferSize cb recvBuf recvChunkBuf s with
      | .ended _ => True
      | .recv _ recvBuf recvChunkBuf s =>
        match cuts with
        | [] => True
        | n :: cuts =>
          let n := min n (bufferSize - recvBuf.length)
          FitsAlong cb cuts (stream.drop n) (recvBuf ++ stream.take n) recvChunkBuf s

theorem turn_fault_iff (cb : Callback σ) {recvBuf recvChunkBuf : Bytes} (s : σ)
    (hlen : recvBuf.length < 2 ^ 32) (hroom : recvChunkBuf.length ≤ bufferSize) :
    (∀ run, turn bufferSize cb recvBuf recvChunkBuf s = .ended run → ∀ f, run.ending ≠ .fault f) ↔
      Fits (bufferSize - recvChunkBuf.length) recvBuf.length recvBuf := by
  rw [← extractChunks_safe_iff false hlen hroom, turn, extractAll_eq _ hlen le_rfl]
  cases extractChunks bufferSize recvBuf.length recvBuf recvChunkBuf false with
  | err code =>
    refine ⟨fun _ f ↦ nofun, fun _ run hrun f ↦ ?_⟩
    cases hrun
    nofun
  | fault f => exact ⟨fun h ↦ absurd rfl (h _ rfl f), fun h ↦ absurd rfl (h f)⟩
  | ok r =>
    refine ⟨fun _ f ↦ nofun, fun _ run hrun f ↦ ?_⟩
    simp only at hrun
    split at hrun
    · cases hrun
      nofun
    · split at hrun
      · cases hrun
        nofun
      · split at hrun
        · cases hrun
          nofun
        · cases hrun

theorem turn_recv {cb : Callback σ} {recvBuf recvChunkBuf recvBuf' recvChunkBuf' : Bytes} {s s' : σ}
    {passed : List Bytes} (hlen : recvBuf.length < 2 ^ 32) (hbuf : recvBuf.length ≤ bufferSize)
    (hroom : recvChunkBuf.length ≤ bufferSize)
    (h : turn bufferSize cb recvBuf recvChunkBuf s = .recv passed recvBuf' recvChunkBuf' s') :
    recvBuf'.length < bufferSize ∧ recvChunkBuf'.length ≤ bufferSize := by
  rw [turn, extractAll_eq _ hlen le_rfl] at h
  cases hr : extractChunks bufferSize recvBuf.length recvBuf recvChunkBuf false with
  | err code => rw [hr] at h; cases h
  | fault f => rw [hr] at h; cases h
  | ok r =>
    rw [hr] at h
    simp only at h
    split at h
    · cases h
    · split at h
      · cases h
      · split at h
        · cases h
        · rename_i hfull
          cases h
          refine ⟨?_, (feed_length ..).trans (extractChunks_room hlen hroom hr)⟩
          rw [List.length_drop] at hfull ⊢
          omega

theorem run_safe_iff (cb : Callback σ) (hsize : bufferSize < 2 ^ 31) (cuts : List ℕ)
    (stream recvBuf recvChunkBuf : Bytes) (s : σ) (hbuf : recvBuf.length ≤ bufferSize)
    (hroom : recvChunkBuf.length ≤ bufferSize) :
    (∀ f, (cycleRecvBody bufferSize cb cuts stream recvBuf recvChunkBuf s).ending ≠ .fault f) ↔
      FitsAlong bufferSize cb cuts stream recvBuf recvChunkBuf s := by
  induction cuts generalizing stream recvBuf recvChunkBuf s with
  | nil =>
    have hturn := turn_fault_iff cb s (by omega : recvBuf.length < 2 ^ 32) hroom
    rw [cycleRecvBody, FitsAlong, ← hturn]
    cases turn bufferSize cb recvBuf recvChunkBuf s with
    | ended run =>
      refine ⟨fun h ↦ ⟨fun run' he ↦ ?_, trivial⟩, fun h ↦ h.1 run rfl⟩
      cases he
      exact h
    | recv passed recvBuf' recvChunkBuf' s' =>
      exact ⟨fun _ ↦ ⟨nofun, trivial⟩, fun _ f ↦ nofun⟩
  | cons n cuts ih =>
    have hturn := turn_fault_iff cb s (by omega : recvBuf.length < 2 ^ 32) hroom
    rw [cycleRecvBody, FitsAlong, ← hturn]
    cases ht : turn bufferSize cb recvBuf recvChunkBuf s with
    | ended run =>
      refine ⟨fun h ↦ ⟨fun run' he ↦ ?_, trivial⟩, fun h ↦ h.1 run rfl⟩
      cases he
      exact h
    | recv passed recvBuf' recvChunkBuf' s' =>
      obtain ⟨hb, hc⟩ := turn_recv (by omega) hbuf hroom ht
      have hnext := ih (stream.drop (min n (bufferSize - recvBuf'.length)))
        (recvBuf' ++ stream.take (min n (bufferSize - recvBuf'.length))) recvChunkBuf' s'
        (by rw [List.length_append, List.length_take]; omega) hc
      simp only
      rw [← hnext]
      exact ⟨fun h ↦ ⟨nofun, h⟩, fun h ↦ h.2⟩

end Safety

section WellFormed

def hexDigit (d : Fin 16) (upper : Bool) : UInt8 :=
  if d.val < 10 then UInt8.ofNat (48 + d) else if upper then UInt8.ofNat (55 + d) else UInt8.ofNat (87 + d)

/-- A chunk in the form in which it is sent, with its extension. -/
structure WireChunk where
  sizeDigits : List (Fin 16 × Bool)
  ext : Bytes
  data : Bytes

namespace WireChunk

def sizeText (c : WireChunk) : Bytes := c.sizeDigits.map fun d ↦ hexDigit d.1 d.2

def size (c : WireChunk) : ℕ := (c.sizeDigits.map fun d ↦ d.1.val).foldl (fun n d ↦ n * 16 + d) 0

def line (c : WireChunk) : Bytes := c.sizeText ++ c.ext

def encode (c : WireChunk) : Bytes := c.line ++ (crlf ++ (c.data ++ crlf))

structure WellFormed (c : WireChunk) : Prop where
  digits : c.sizeDigits ≠ []
  size_eq : c.size = c.data.length
  ext : ∀ b ∈ c.ext.head?, b = 59
  line_end : 13 ∉ c.ext

theorem encode_length (c : WireChunk) : c.encode.length = c.line.length + 2 + c.data.length + 2 := by
  simp only [encode, List.length_append, crlf, List.length_cons, List.length_nil]
  omega

end WireChunk

open WireChunk

theorem hexDigit_spec (d : Fin 16) (upper : Bool) :
    digitIn 16 (hexDigit d upper) = some d.val ∧ hexDigit d upper ≠ 13 := by
  revert d upper
  decide

variable {c : WireChunk}

theorem sizeText_counts (c : WireChunk) : Counts 16 c.sizeText (c.sizeDigits.map fun d ↦ d.1.val) := by
  unfold Counts WireChunk.sizeText
  rw [List.forall₂_map_left_iff, List.forall₂_map_right_iff, List.forall₂_same]
  intro d _
  exact (hexDigit_spec d.1 d.2).1

theorem stoi_line (h : c.WellFormed) :
    stoi 16 c.line = if c.data.length < 2 ^ 31 then some (c.data.length : ℤ) else none := by
  have hne : c.sizeText ≠ [] := fun hnil ↦ h.digits (List.map_eq_nil_iff.mp hnil)
  have hv : strtol 16 c.line = some (c.size : ℤ) := by
    apply strtol_counts (sizeText_counts c) hne le_rfl
    · intro b hb
      rw [h.ext b hb]
      rfl
    · intro b hb
      rw [h.ext b hb]
      decide
  rw [stoi, hv, h.size_eq, Option.filter_some]
  simp only [decide_eq_true_eq]
  split
  · rw [if_pos (by omega)]
  · rw [if_neg (by omega)]

theorem line_no_cr (h : c.WellFormed) : 13 ∉ c.line := by
  rw [line, List.mem_append, not_or]
  refine ⟨?_, h.line_end⟩
  intro hmem
  obtain ⟨d, -, hd⟩ := List.mem_map.mp hmem
  exact (hexDigit_spec d.1 d.2).2 hd

theorem encode_append (c : WireChunk) (rest : Bytes) :
    c.encode ++ rest = c.line ++ (crlf ++ (c.data ++ (crlf ++ rest))) := by
  simp only [encode, List.append_assoc]

theorem find_line_end (h : c.WellFormed) {buf ext rest : Bytes}
    (heq : buf ++ ext = c.line ++ (crlf ++ rest)) :
    find crlf buf = if c.line.length + 2 ≤ buf.length then some c.line.length else none := by
  have hwhole : find crlf (buf ++ ext) = some c.line.length := by
    rw [heq]
    exact find_line (line_no_cr h) _
  exact find_prefix hwhole

theorem take_line {buf ext rest : Bytes} (heq : buf ++ ext = c.line ++ rest)
    (hline : c.line.length ≤ buf.length) : buf.take c.line.length = c.line := by
  have hfront := congrArg (List.take c.line.length) heq
  rw [List.take_append_of_le_length hline, List.take_left' rfl] at hfront
  exact hfront

theorem take_data {buf ext rest : Bytes} (heq : buf ++ ext = c.encode ++ rest)
    (hall : c.encode.length ≤ buf.length) :
    (buf.drop (c.line.length + 2)).take c.data.length = c.data := by
  have hlen := encode_length c
  have hsplit : c.encode ++ rest = (c.line ++ crlf) ++ (c.data ++ (crlf ++ rest)) := by
    simp only [encode, List.append_assoc]
  have hdrop : buf.drop (c.line.length + 2) ++ ext = c.data ++ (crlf ++ rest) := by
    rw [← List.drop_append_of_le_length (by omega), heq, hsplit,
      List.drop_left' (by rw [List.length_append]; rfl)]
  have hfront := congrArg (List.take c.data.length) hdrop
  rw [List.take_append_of_le_length (by rw [List.length_drop]; omega), List.take_left] at hfront
  exact hfront

theorem take_dataEnd {buf ext rest : Bytes} (heq : buf ++ ext = c.encode ++ rest)
    (hall : c.encode.length ≤ buf.length) :
    (buf.drop (c.line.length + 2 + c.data.length)).take 2 = crlf := by
  have hlen := encode_length c
  have hfront : (c.line ++ crlf ++ c.data).length = c.line.length + 2 + c.data.length := by
    rw [List.length_append, List.length_append]
    rfl
  have hsplit : c.encode ++ rest = (c.line ++ crlf ++ c.data) ++ (crlf ++ rest) := by
    simp only [encode, List.append_assoc]
  have hdrop : buf.drop (c.line.length + 2 + c.data.length) ++ ext = crlf ++ rest := by
    rw [← List.drop_append_of_le_length (by omega), heq, hsplit, List.drop_left' hfront]
  have htwo := congrArg (List.take 2) hdrop
  rw [List.take_append_of_le_length (by rw [List.length_drop]; omega)] at htwo
  exact htwo

/-- What has arrived of a chunk is taken when it is complete. -/
theorem scan_encode (h : c.WellFormed) (hn : c.data.length < 2 ^ 31) {buf ext rest : Bytes}
    (heq : buf ++ ext = c.encode ++ rest) :
    scan buf = if c.encode.length ≤ buf.length then .chunk c.line.length c.data.length else .stop := by
  have hline := heq.trans (encode_append c rest)
  have hfind := find_line_end h hline
  have hlen := encode_length c
  rw [scan]
  by_cases hshort : buf.length ≤ 2
  · rw [if_pos hshort, if_neg (by omega)]
  · rw [if_neg hshort, hfind]
    by_cases hread : c.line.length + 2 ≤ buf.length
    · rw [if_pos hread]
      simp only
      rw [take_line hline (by omega), stoi_line h, if_pos hn]
      simp only
      rw [if_neg (by omega), if_neg (by omega), if_neg (by omega), Int.toNat_natCast]
      by_cases hall : c.encode.length ≤ buf.length
      · rw [if_neg (by omega), if_pos (take_dataEnd heq hall), if_pos hall]
      · rw [if_pos (by omega), if_neg hall]
    · rw [if_neg hread, if_neg (by omega)]

/-- A size that is no `int` throws as soon as its line has arrived. -/
theorem scan_huge (h : c.WellFormed) (hn : 2 ^ 31 ≤ c.data.length) {buf ext rest : Bytes}
    (heq : buf ++ ext = c.encode ++ rest) : scan buf = .stop ∨ scan buf = .bad (-1) := by
  have hline := heq.trans (encode_append c rest)
  rw [scan]
  split
  · exact .inl rfl
  · rw [find_line_end h hline]
    by_cases hread : c.line.length + 2 ≤ buf.length
    · rw [if_pos hread]
      simp only
      rw [take_line hline (by omega), stoi_line h, if_neg (by omega)]
      exact .inr rfl
    · rw [if_neg hread]
      exact .inl rfl

/-- A line with the size 0 is refused when something else than an empty line follows. -/
theorem scan_lastLine (h : c.WellFormed) (hempty : c.data = []) {b : UInt8} (hb : b ≠ 13)
    {buf ext rest : Bytes} (heq : buf ++ ext = c.line ++ (crlf ++ b :: rest)) :
    scan buf = .stop ∨ scan buf = .bad (-2) := by
  have hv : stoi 16 c.line = some 0 := by
    rw [stoi_line h, hempty]
    rfl
  rw [scan]
  split
  · exact .inl rfl
  · rw [find_line_end h heq]
    by_cases hread : c.line.length + 2 ≤ buf.length
    · rw [if_pos hread]
      simp only
      rw [take_line heq (by omega), hv]
      simp only [Int.toNat_zero, Nat.add_zero]
      rw [if_neg (by decide), if_neg (by decide), if_neg (by decide)]
      by_cases hshort : buf.length < c.line.length + 2 + 2
      · rw [if_pos hshort]
        exact .inl rfl
      · rw [if_neg hshort, if_neg, or_iff_right (fun h ↦ by cases h)]
        intro hcrlf
        have hfront : (buf ++ ext)[c.line.length + 2]? = buf[c.line.length + 2]? :=
          List.getElem?_append_left (by omega)
        have hnext : buf[c.line.length + 2]? = some b := by
          rw [← hfront, heq, ← List.append_assoc,
            List.getElem?_append_right (by rw [List.length_append]; rfl), List.length_append]
          simp [crlf]
        have htwo := (take_two_eq_crlf (by omega)).mp hcrlf
        rw [List.getElem?_eq_getElem (by omega), htwo.1, Option.some_inj] at hnext
        exact hb hnext.symm
    · rw [if_neg hread]
      exact .inl rfl

variable {bufferSize : ℕ}

variable {fuel : ℕ} {buf ext waiting : Bytes} {lastChunk : Bool} {cs : List WireChunk}

variable (bufferSize fuel buf waiting lastChunk cs) in
/-- Of a sequence of chunks those are extracted that have arrived; of the next one something
is missing. -/
def ExtractsArrived : Prop :=
  ∃ done rest, cs = done ++ rest ∧
    extractChunks bufferSize fuel buf waiting lastChunk =
      .ok ⟨(done.flatMap encode).length, waiting ++ done.flatMap data,
        lastChunk || done.any fun c ↦ c.data.length == 0⟩ ∧
    (done.flatMap encode).length ≤ buf.length ∧
    ∀ c ∈ rest.head?, buf.length - (done.flatMap encode).length < c.encode.length

theorem extractsArrived_stop (hbuf : buf.length < 2 ^ 32) (hstop : scan buf = .stop)
    (hshort : ∀ c ∈ cs.head?, buf.length < c.encode.length) :
    ExtractsArrived bufferSize fuel buf waiting lastChunk cs := by
  refine ⟨[], cs, rfl, ?_, Nat.zero_le _, hshort⟩
  rw [extractChunks_zero fuel waiting lastChunk hbuf hstop]
  simp only [List.flatMap_nil, List.length_nil, List.append_nil, List.any_nil, Bool.or_false]

/-- A chunk that has arrived goes to the other buffer. -/
theorem extractChunks_arrived (h : c.WellFormed) (hn : c.data.length < 2 ^ 31) {rest : Bytes}
    (heq : buf ++ ext = c.encode ++ rest) (hbuf : buf.length < 2 ^ 32)
    (hall : c.encode.length ≤ buf.length) (hroom : waiting.length + buf.length ≤ bufferSize) :
    extractChunks bufferSize (fuel + 1) buf waiting lastChunk = (do
      let r ← extractChunks bufferSize fuel (buf.drop c.encode.length) (waiting ++ c.data)
        (lastChunk || c.data.length == 0)
      return { r with consumed := c.encode.length + r.consumed }) := by
  have hlen := encode_length c
  have hscan := scan_encode h hn heq
  rw [if_pos hall] at hscan
  rw [extractChunks_eq hbuf, hscan]
  simp only
  rw [if_neg (by omega), ← hlen, take_data heq hall]

theorem ExtractsArrived.cons (hall : c.encode.length ≤ buf.length)
    (hstep : extractChunks bufferSize (fuel + 1) buf waiting lastChunk = (do
      let r ← extractChunks bufferSize fuel (buf.drop c.encode.length) (waiting ++ c.data)
        (lastChunk || c.data.length == 0)
      return { r with consumed := c.encode.length + r.consumed }))
    (h : ExtractsArrived bufferSize fuel (buf.drop c.encode.length) (waiting ++ c.data)
      (lastChunk || c.data.length == 0) cs) :
    ExtractsArrived bufferSize (fuel + 1) buf waiting lastChunk (c :: cs) := by
  obtain ⟨done, rest, rfl, hext, hle, hhead⟩ := h
  rw [List.length_drop] at hle hhead
  refine ⟨c :: done, rest, rfl, ?_, ?_, fun c' hc' ↦ ?_⟩
  · rw [hstep, hext, Outcome.ok_bind, Outcome.pure_eq, List.flatMap_cons, List.flatMap_cons,
      List.length_append, List.append_assoc, List.any_cons, Bool.or_assoc]
  · rw [List.flatMap_cons, List.length_append]
    omega
  · have hshort := hhead c' hc'
    rw [List.flatMap_cons, List.length_append]
    omega

theorem extractChunks_bad (hbuf : buf.length < 2 ^ 32) (hfuel : buf.length ≤ fuel) {code : ℤ}
    (hbad : scan buf = .bad code) : extractChunks bufferSize fuel buf waiting lastChunk = .err code := by
  cases fuel with
  | zero =>
    obtain rfl : buf = [] := List.eq_nil_of_length_eq_zero (by omega)
    cases hbad
  | succ fuel => rw [extractChunks_eq hbuf, hbad]

def NoChunk (tail : Bytes) : Prop :=
  ∀ buf ext, buf ++ ext = tail → scan buf = .stop ∨ ∃ code, scan buf = .bad code

theorem noChunk_nil : NoChunk [] := by
  intro buf ext heq
  rw [(List.append_eq_nil_iff.mp heq).1]
  exact .inl rfl

/-- Of a sequence of chunks those are extracted that have arrived, unless one is huge or
something follows that is no chunk. -/
theorem extractChunks_encoded {tail : Bytes} (htail : NoChunk tail) (hcs : ∀ c ∈ cs, c.WellFormed)
    (heq : buf ++ ext = cs.flatMap encode ++ tail)
    (hbuf : buf.length < 2 ^ 31) (hroom : waiting.length + buf.length ≤ bufferSize)
    (hfuel : buf.length ≤ fuel) :
    ExtractsArrived bufferSize fuel buf waiting lastChunk cs ∨
    (∃ code, extractChunks bufferSize fuel buf waiting lastChunk = .err code) ∧
      ((∃ c ∈ cs, 2 ^ 31 ≤ c.data.length) ∨ tail ≠ []) := by
  induction cs generalizing fuel buf waiting lastChunk with
  | nil =>
    rcases htail buf ext heq with hstop | ⟨code, hbad⟩
    · exact .inl (extractsArrived_stop (by omega) hstop nofun)
    · refine .inr ⟨⟨code, extractChunks_bad (by omega) hfuel hbad⟩, .inr ?_⟩
      rintro rfl
      rw [(List.append_eq_nil_iff.mp heq).1] at hbad
      cases hbad
  | cons c cs ih =>
    have hc := hcs c List.mem_cons_self
    have hlen := encode_length c
    rw [List.flatMap_cons, List.append_assoc] at heq
    have hnone (hstop : scan buf = .stop) (hshort : buf.length < c.encode.length) :
        ExtractsArrived bufferSize fuel buf waiting lastChunk (c :: cs) := by
      refine extractsArrived_stop (by omega) hstop fun c' hc' ↦ ?_
      cases hc'
      exact hshort
    by_cases hn : c.data.length < 2 ^ 31
    · have hscan := scan_encode hc hn heq
      by_cases hall : c.encode.length ≤ buf.length
      · obtain ⟨fuel, rfl⟩ : ∃ fuel', fuel = fuel' + 1 := ⟨fuel - 1, by omega⟩
        have hstep := @extractChunks_arrived c bufferSize fuel buf ext waiting lastChunk hc hn _ heq
          (by omega) hall hroom
        have hrest : buf.drop c.encode.length ++ ext = cs.flatMap encode ++ tail := by
          rw [← List.drop_append_of_le_length hall, heq, List.drop_left]
        have hrestLen : (buf.drop c.encode.length).length = buf.length - c.encode.length :=
          List.length_drop
        have hwait : (waiting ++ c.data).length + (buf.drop c.encode.length).length ≤ bufferSize := by
          rw [List.length_append]
          omega
        have hrestFuel : (buf.drop c.encode.length).length ≤ fuel := by omega
        rcases ih (fun c' hc' ↦ hcs c' (List.mem_cons_of_mem c hc')) hrest (by omega) hwait
          hrestFuel with harrived | ⟨⟨code, hext⟩, hwhy⟩
        · exact .inl (harrived.cons hall hstep)
        · right
          refine ⟨⟨code, ?_⟩, hwhy.imp_left fun ⟨c', hc', hbig⟩ ↦ ⟨c', List.mem_cons_of_mem c hc', hbig⟩⟩
          rw [hstep, hext]
          rfl
      · rw [if_neg hall] at hscan
        exact .inl (hnone hscan (by omega))
    · rcases scan_huge hc (by omega) heq with hscan | hscan
      · exact .inl (hnone hscan (by omega))
      · exact .inr ⟨⟨-1, extractChunks_bad (by omega) hfuel hscan⟩, .inl ⟨c, List.mem_cons_self, by omega⟩⟩

end WellFormed

section Delivery

open WireChunk

variable {σ : Type}

def Callback.Consumes (cb : Callback σ) : Prop := ∀ s view, (cb.call s view).1 = view.length

theorem feed_consumes {cb : Callback σ} (hcb : cb.Consumes) (view : Bytes) (s : σ) :
    (feed cb view.length view s).rest = [] ∧ (feed cb view.length view s).passed.flatten = view ∧
      (feed cb view.length view s).refused = false := by
  have hnil (fuel : ℕ) (s : σ) : feed cb fuel [] s = ⟨[], s, [], false⟩ := by cases fuel <;> rfl
  cases view with
  | nil =>
    rw [hnil]
    exact ⟨rfl, rfl, rfl⟩
  | cons b view =>
    have hcall := hcb s (b :: view)
    rw [List.length_cons, feed, if_neg (List.cons_ne_nil b view)]
    simp only [hcall]
    rw [if_neg (by omega), if_neg (by rw [List.length_cons]; omega), Int.toNat_natCast,
      List.drop_length, hnil]
    exact ⟨rfl, List.append_nil (b :: view), rfl⟩

/-- Chunks with data, and one without. -/
structure WellFormedChunks (cs : List WireChunk) (last : WireChunk) : Prop where
  chunks : ∀ c ∈ cs, c.WellFormed ∧ c.data ≠ []
  last : last.WellFormed ∧ last.data = []

def encodeChunks (cs : List WireChunk) (last : WireChunk) : Bytes := (cs ++ [last]).flatMap encode

structure TrailerField where
  name : Bytes
  value : Bytes

structure TrailerField.WellFormed (t : TrailerField) : Prop where
  name_ne : t.name ≠ []
  name : ∀ b ∈ t.name, b ≠ 13 ∧ b ≠ 10 ∧ b ≠ 58
  value : ∀ b ∈ t.value, b ≠ 13 ∧ b ≠ 10

def TrailerField.encode (t : TrailerField) : Bytes := t.name ++ (58 :: t.value ++ crlf)

/-- A body: its chunks, and the trailer between the line of the last one and the empty line. -/
structure WellFormedBody (cs : List WireChunk) (last : WireChunk) (trailer : List TrailerField) : Prop
    extends WellFormedChunks cs last where
  trailer : ∀ t ∈ trailer, t.WellFormed

def encodeBody (cs : List WireChunk) (last : WireChunk) (trailer : List TrailerField) : Bytes :=
  cs.flatMap WireChunk.encode ++ (last.line ++ (crlf ++ (trailer.flatMap TrailerField.encode ++ crlf)))

theorem encodeBody_nil {cs : List WireChunk} {last : WireChunk} (h : WellFormedChunks cs last) :
    encodeBody cs last [] = encodeChunks cs last := by
  rw [encodeBody, encodeChunks, List.flatMap_append, List.flatMap_singleton, WireChunk.encode, h.last.2]
  rfl

theorem trailer_noChunk {cs : List WireChunk} {last : WireChunk} {trailer : List TrailerField}
    (h : WellFormedBody cs last trailer) (hne : trailer ≠ []) :
    NoChunk (last.line ++ (crlf ++ (trailer.flatMap TrailerField.encode ++ crlf))) := by
  intro buf ext heq
  obtain ⟨t, ts, rfl⟩ := List.exists_cons_of_ne_nil hne
  have ht := h.trailer t (List.mem_cons_self ..)
  obtain ⟨b, name, hname⟩ := List.exists_cons_of_ne_nil ht.name_ne
  have hb : b ≠ 13 := (ht.name b (by rw [hname]; exact List.mem_cons_self ..)).1
  rw [List.flatMap_cons, TrailerField.encode, hname] at heq
  exact (scan_lastLine h.last.1 h.last.2 hb heq).imp_right fun hbad ↦ ⟨_, hbad⟩

theorem body_split {cs : List WireChunk} {last : WireChunk} {done rest : List WireChunk}
    (h : cs ++ [last] = done ++ rest) :
    (done = cs ++ [last] ∧ rest = []) ∨ ∃ rest', cs = done ++ rest' ∧ rest = rest' ++ [last] := by
  rcases List.append_eq_append_iff.mp h with ⟨mid, hdone, hlast⟩ | ⟨mid, hcs, hrest⟩
  · cases mid with
    | nil => exact .inr ⟨[], by rw [hdone, List.append_nil, List.append_nil], hlast.symm⟩
    | cons m mid =>
      rw [List.cons_append, List.cons.injEq] at hlast
      obtain ⟨rfl, hmid⟩ := hlast
      obtain ⟨rfl, rfl⟩ := List.append_eq_nil_iff.mp hmid.symm
      exact .inl ⟨hdone, rfl⟩
  · exact .inr ⟨mid, hcs, hrest⟩

inductive Progress (bufferSize : ℕ) (cs : List WireChunk) (last : WireChunk) (ext : Bytes) :
    Turn σ → Prop
  | finished {passed : List Bytes} (hpassed : passed.flatten = cs.flatMap data)
      (hfit : ∀ c ∈ cs ++ [last], c.encode.length ≤ bufferSize) :
      Progress bufferSize cs last ext (.ended ⟨passed, .lastChunk⟩)
  | waits {done rest : List WireChunk} {passed : List Bytes} {buf : Bytes} {s : σ}
      (hsplit : cs = done ++ rest) (hpassed : passed.flatten = done.flatMap data)
      (hfit : ∀ c ∈ done, c.encode.length ≤ bufferSize)
      (hbuf : buf ++ ext = encodeChunks rest last) (hroom : buf.length < bufferSize)
      (hmore : ext ≠ []) : Progress bufferSize cs last ext (.recv passed buf [] s)
  | stuck {run : Run} {c : WireChunk} (hend : run.ending ≠ .lastChunk) (hc : c ∈ cs ++ [last])
      (hbig : bufferSize < c.encode.length) : Progress bufferSize cs last ext (.ended run)

section Progress

variable {bufferSize : ℕ} {cs done rest : List WireChunk} {last : WireChunk} {ext : Bytes} {run : Run}

theorem Progress.ended_fits (h : Progress bufferSize cs last ext (.ended run : Turn σ))
    (hend : run.ending = .lastChunk) : ∀ c ∈ cs ++ [last], c.encode.length ≤ bufferSize := by
  cases h with
  | finished _ hfit => exact hfit
  | stuck hne _ _ => exact absurd hend hne

theorem Progress.ended_delivers (h : Progress bufferSize cs last ext (.ended run : Turn σ))
    (hfit : ∀ c ∈ cs ++ [last], c.encode.length ≤ bufferSize) :
    run.passed.flatten = cs.flatMap data ∧ run.ending = .lastChunk := by
  cases h with
  | finished hpassed _ => exact ⟨hpassed, rfl⟩
  | stuck _ hc hbig => exact absurd (hfit _ hc) (by omega)

theorem WellFormedChunks.of_split (h : WellFormedChunks cs last) (hsplit : cs = done ++ rest) :
    WellFormedChunks rest last :=
  ⟨fun c hc ↦ h.chunks c (by rw [hsplit]; exact List.mem_append_right done hc), h.last⟩

end Progress

theorem length_le_flatMap {c : WireChunk} {cs : List WireChunk} (hc : c ∈ cs) :
    c.encode.length ≤ (cs.flatMap encode).length := by
  obtain ⟨pre, post, rfl⟩ := List.append_of_mem hc
  rw [List.flatMap_append, List.flatMap_cons, List.length_append, List.length_append]
  omega

theorem WellFormedChunks.wellFormed {cs : List WireChunk} {last : WireChunk}
    (h : WellFormedChunks cs last) : ∀ c ∈ cs ++ [last], c.WellFormed := by
  intro c hc
  rcases List.mem_append.mp hc with hc | hc
  · exact (h.chunks c hc).1
  · rw [List.mem_singleton.mp hc]
    exact h.last.1

theorem WellFormedChunks.any_zero {cs : List WireChunk} {last : WireChunk}
    (h : WellFormedChunks cs last) : ((cs ++ [last]).any fun c ↦ c.data.length == 0) = true := by
  rw [List.any_append]
  simp [h.last.2]

theorem any_zero_eq_false {cs : List WireChunk} (h : ∀ c ∈ cs, c.data ≠ []) :
    (cs.any fun c ↦ c.data.length == 0) = false := by
  rw [List.any_eq_false]
  intro c hc hz
  rw [beq_iff_eq] at hz
  exact h c hc (List.eq_nil_of_length_eq_zero hz)

theorem drop_arrived {done : List WireChunk} {buf ext rest : Bytes}
    (heq : buf ++ ext = done.flatMap encode ++ rest) (hle : (done.flatMap encode).length ≤ buf.length) :
    buf.drop (done.flatMap encode).length ++ ext = rest := by
  rw [← List.drop_append_of_le_length hle, heq, List.drop_left]

theorem turn_progress {bufferSize : ℕ} (hsize : bufferSize < 2 ^ 31) {cb : Callback σ}
    (hcb : cb.Consumes) {cs : List WireChunk} {last : WireChunk} (hbody : WellFormedChunks cs last)
    {buf ext : Bytes} (heq : buf ++ ext = encodeChunks cs last) (hbuf : buf.length ≤ bufferSize)
    (s : σ) : Progress bufferSize cs last ext (turn bufferSize cb buf [] s) := by
  have hroom : ([] : Bytes).length + buf.length ≤ bufferSize := by
    rw [List.length_nil]
    omega
  rw [turn, extractAll_eq _ (by omega) le_rfl]
  rcases extractChunks_encoded noChunk_nil hbody.wellFormed (heq.trans (List.append_nil _).symm) (by omega) hroom
    le_rfl with ⟨done, rest, hsplit, hext, hle, hhead⟩ | ⟨⟨code, hext⟩, ⟨c, hc, hbig⟩ | hnil⟩
  · rw [hext]
    simp only [List.nil_append, Bool.false_or]
    obtain ⟨hrest, hpassed, hrefused⟩ := feed_consumes hcb (done.flatMap data) s
    rw [hrefused, hrest]
    simp only [Bool.false_eq_true, if_false]
    have hfit : ∀ c ∈ done, c.encode.length ≤ bufferSize := fun c hc ↦
      (length_le_flatMap hc).trans (hle.trans hbuf)
    rcases body_split hsplit with ⟨hdone, hnil⟩ | ⟨rest', hcs, hlast⟩
    · have hflag : (done.any fun c ↦ c.data.length == 0) = true := by
        rw [hdone]
        exact hbody.any_zero
      have hdata : done.flatMap data = cs.flatMap data := by
        rw [hdone, List.flatMap_append, List.flatMap_singleton, hbody.last.2, List.append_nil]
      rw [if_pos hflag]
      exact .finished (hpassed.trans hdata) (hdone ▸ hfit)
    · have hflag : (done.any fun c ↦ c.data.length == 0) = false :=
        any_zero_eq_false fun c hc ↦ (hbody.chunks c (hcs ▸ List.mem_append_left rest' hc)).2
      have hdrop : buf.drop (done.flatMap encode).length ++ ext = encodeChunks rest' last := by
        refine drop_arrived ?_ hle
        rw [heq, encodeChunks, hsplit, List.flatMap_append, hlast]
        rfl
      have hlen : (buf.drop (done.flatMap encode).length).length =
          buf.length - (done.flatMap encode).length := List.length_drop
      rw [if_neg (by rw [hflag]; exact Bool.false_ne_true)]
      obtain ⟨c, hc⟩ : ∃ c, c ∈ rest.head? := by
        rw [hlast]
        cases rest' with
        | nil => exact ⟨last, rfl⟩
        | cons c rest' => exact ⟨c, rfl⟩
      have hshort := hhead c hc
      split
      · rename_i hfull
        have hmem : c ∈ cs ++ [last] := by
          rw [hsplit]
          exact List.mem_append_right done (List.mem_of_mem_head? hc)
        exact .stuck nofun hmem (by omega)
      · refine .waits hcs hpassed hfit hdrop (by omega) ?_
        rintro rfl
        have hsub := length_le_flatMap (List.mem_of_mem_head? hc)
        have htotal := congrArg List.length hdrop
        rw [List.append_nil, encodeChunks, ← hlast] at htotal
        omega
  · rw [hext]
    refine .stuck nofun hc ?_
    have := encode_length c
    omega
  · exact absurd rfl hnil

/-- A body that is de-chunked to its end has no chunk that is longer than the buffer. -/
theorem run_fits {bufferSize : ℕ} (hsize : bufferSize < 2 ^ 31) {cb : Callback σ}
    (hcb : cb.Consumes) {cuts : List ℕ} {cs : List WireChunk} {last : WireChunk}
    (hbody : WellFormedChunks cs last) {stream buf : Bytes}
    (heq : buf ++ stream = encodeChunks cs last) (hbuf : buf.length ≤ bufferSize) (s : σ)
    (hend : (cycleRecvBody bufferSize cb cuts stream buf [] s).ending = .lastChunk) :
    ∀ c ∈ cs ++ [last], c.encode.length ≤ bufferSize := by
  induction cuts generalizing cs stream buf s with
  | nil =>
    have ht := turn_progress hsize hcb hbody heq hbuf s
    rw [cycleRecvBody] at hend
    cases ht' : turn bufferSize cb buf [] s with
    | ended run =>
      rw [ht'] at ht hend
      exact ht.ended_fits hend
    | recv passed buf' wait s' =>
      rw [ht'] at hend
      cases hend
  | cons n cuts ih =>
    have ht := turn_progress hsize hcb hbody heq hbuf s
    rw [cycleRecvBody] at hend
    cases ht' : turn bufferSize cb buf [] s with
    | ended run =>
      rw [ht'] at ht hend
      exact ht.ended_fits hend
    | recv passed buf' wait s' =>
      rw [ht'] at ht hend
      cases ht with
      | @waits done rest _ _ _ hsplit _ hfit hbuf' hroom _ =>
        simp only at hend
        have hrest : WellFormedChunks rest last := hbody.of_split hsplit
        have hmore := ih hrest (by rw [List.append_assoc, List.take_append_drop]; exact hbuf')
          (by rw [List.length_append, List.length_take]; omega) s' hend
        intro c hc
        rw [hsplit, List.append_assoc] at hc
        rcases List.mem_append.mp hc with hc | hc
        · exact hfit c hc
        · exact hmore c hc

/-- A body none of whose chunks is longer than the buffer is de-chunked to its end. -/
theorem run_delivers {bufferSize : ℕ} (hsize : bufferSize < 2 ^ 31) {cb : Callback σ}
    (hcb : cb.Consumes) {cuts : List ℕ} (hcuts : ∀ n ∈ cuts, 0 < n) {cs : List WireChunk}
    {last : WireChunk} (hbody : WellFormedChunks cs last)
    (hfit : ∀ c ∈ cs ++ [last], c.encode.length ≤ bufferSize) {stream buf : Bytes}
    (heq : buf ++ stream = encodeChunks cs last) (hbuf : buf.length ≤ bufferSize)
    (henough : stream.length ≤ cuts.length) (s : σ) :
    (cycleRecvBody bufferSize cb cuts stream buf [] s).passed.flatten = cs.flatMap data ∧
      (cycleRecvBody bufferSize cb cuts stream buf [] s).ending = .lastChunk := by
  induction cuts generalizing cs stream buf s with
  | nil =>
    have ht := turn_progress hsize hcb hbody heq hbuf s
    rw [cycleRecvBody]
    cases ht' : turn bufferSize cb buf [] s with
    | ended run =>
      rw [ht'] at ht
      exact ht.ended_delivers hfit
    | recv passed buf' wait s' =>
      rw [ht'] at ht
      cases ht with
      | waits _ _ _ _ _ hmore => exact absurd (List.eq_nil_of_length_eq_zero (by simpa using henough)) hmore
  | cons n cuts ih =>
    have ht := turn_progress hsize hcb hbody heq hbuf s
    rw [cycleRecvBody]
    cases ht' : turn bufferSize cb buf [] s with
    | ended run =>
      rw [ht'] at ht
      exact ht.ended_delivers hfit
    | recv passed buf' wait s' =>
      rw [ht'] at ht
      cases ht with
      | @waits done rest _ _ _ hsplit hpassed _ hbuf' hroom hmore =>
        have hn := hcuts n List.mem_cons_self
        have hpos := List.length_pos_of_ne_nil hmore
        rw [List.length_cons] at henough
        have hrest : WellFormedChunks rest last := hbody.of_split hsplit
        have hrestFit : ∀ c ∈ rest ++ [last], c.encode.length ≤ bufferSize := fun c hc ↦
          hfit c (by rw [hsplit, List.append_assoc]; exact List.mem_append_right done hc)
        obtain ⟨m, hm⟩ : ∃ m, m = min n (bufferSize - buf'.length) := ⟨_, rfl⟩
        have hnext : (buf' ++ stream.take m) ++ stream.drop m = encodeChunks rest last := by
          rw [List.append_assoc, List.take_append_drop, hbuf']
        have hnextBuf : (buf' ++ stream.take m).length ≤ bufferSize := by
          rw [List.length_append, List.length_take]
          omega
        have hnextLen : (stream.drop m).length ≤ cuts.length := by
          rw [List.length_drop]
          omega
        obtain ⟨hp, he⟩ := ih (fun n hn ↦ hcuts n (List.mem_cons_of_mem _ hn)) hrest hrestFit hnext
          hnextBuf hnextLen s'
        simp only
        rw [← hm]
        refine ⟨?_, he⟩
        rw [List.flatten_append, hpassed, hp, hsplit, List.flatMap_append]

inductive TrailerProgress (bufferSize : ℕ) (cs : List WireChunk) (last : WireChunk)
    (trailer : List TrailerField) (ext : Bytes) : Turn σ → Prop
  | stuck {run : Run} (hend : run.ending ≠ .lastChunk) :
      TrailerProgress bufferSize cs last trailer ext (.ended run)
  | waits {done rest : List WireChunk} {passed : List Bytes} {buf : Bytes} {s : σ}
      (hsplit : cs = done ++ rest) (hbuf : buf ++ ext = encodeBody rest last trailer)
      (hroom : buf.length < bufferSize) :
      TrailerProgress bufferSize cs last trailer ext (.recv passed buf [] s)

theorem turn_trailer {bufferSize : ℕ} (hsize : bufferSize < 2 ^ 31) {cb : Callback σ}
    (hcb : cb.Consumes) {cs : List WireChunk} {last : WireChunk} {trailer : List TrailerField}
    (hbody : WellFormedBody cs last trailer) (hne : trailer ≠ []) {buf ext : Bytes}
    (heq : buf ++ ext = encodeBody cs last trailer) (hbuf : buf.length ≤ bufferSize) (s : σ) :
    TrailerProgress bufferSize cs last trailer ext (turn bufferSize cb buf [] s) := by
  have hroom : ([] : Bytes).length + buf.length ≤ bufferSize := by
    rw [List.length_nil]
    omega
  rw [turn, extractAll_eq _ (by omega) le_rfl]
  rcases extractChunks_encoded (trailer_noChunk hbody hne) (fun c hc ↦ (hbody.chunks c hc).1) heq (by omega)
    hroom le_rfl with ⟨done, rest, rfl, hext, hle, -⟩ | ⟨⟨code, hext⟩, -⟩
  · rw [hext]
    simp only [List.nil_append, Bool.false_or]
    obtain ⟨hrest, -, hrefused⟩ := feed_consumes hcb (done.flatMap data) s
    have hflag : (done.any fun c ↦ c.data.length == 0) = false :=
      any_zero_eq_false fun c hc ↦ (hbody.chunks c (List.mem_append_left rest hc)).2
    have hdrop : buf.drop (done.flatMap encode).length ++ ext = encodeBody rest last trailer := by
      refine drop_arrived ?_ hle
      rw [heq, encodeBody, List.flatMap_append, List.append_assoc]
      rfl
    have hlen : (buf.drop (done.flatMap encode).length).length =
        buf.length - (done.flatMap encode).length := List.length_drop
    rw [hrefused, hrest, hflag]
    simp only [Bool.false_eq_true, if_false]
    split
    · exact .stuck nofun
    · exact .waits rfl hdrop (by omega)
  · rw [hext]
    exact .stuck nofun

/-- Before a trailer the zero chunk is not found, whatever has been passed on. -/
theorem run_trailer {bufferSize : ℕ} (hsize : bufferSize < 2 ^ 31) {cb : Callback σ}
    (hcb : cb.Consumes) {cuts : List ℕ} {cs : List WireChunk} {last : WireChunk}
    {trailer : List TrailerField} (hbody : WellFormedBody cs last trailer) (hne : trailer ≠ [])
    {stream buf : Bytes} (heq : buf ++ stream = encodeBody cs last trailer)
    (hbuf : buf.length ≤ bufferSize) (s : σ) :
    (cycleRecvBody bufferSize cb cuts stream buf [] s).ending ≠ .lastChunk := by
  induction cuts generalizing cs stream buf s with
  | nil =>
    have ht := turn_trailer hsize hcb hbody hne heq hbuf s
    rw [cycleRecvBody]
    cases ht' : turn bufferSize cb buf [] s with
    | ended run =>
      rw [ht'] at ht
      cases ht with
      | stuck hend => exact hend
    | recv passed buf' wait s' => exact nofun
  | cons n cuts ih =>
    have ht := turn_trailer hsize hcb hbody hne heq hbuf s
    rw [cycleRecvBody]
    cases ht' : turn bufferSize cb buf [] s with
    | ended run =>
      rw [ht'] at ht
      cases ht with
      | stuck hend => exact hend
    | recv passed buf' wait s' =>
      rw [ht'] at ht
      cases ht with
      | @waits done rest _ _ _ hsplit hbuf' hroom =>
        have hrest : WellFormedBody rest last trailer :=
          ⟨hbody.toWellFormedChunks.of_split hsplit, hbody.trailer⟩
        exact ih hrest (by rw [List.append_assoc, List.take_append_drop]; exact hbuf')
          (by rw [List.length_append, List.length_take]; omega) s'

/-- The de-chunking keeps to its buffers, and it passes a well-formed body on to a
callback that consumes everything. -/
structure Dechunks (bufferSize : ℕ) (cb : Callback σ) (cuts : List ℕ) (stream recvBuf : Bytes)
    (s : σ) : Prop where
  safe : ∀ f, (cycleRecvBody bufferSize cb cuts stream recvBuf [] s).ending ≠ .fault f
  delivers : cb.Consumes → (∀ n ∈ cuts, 0 < n) → stream.length ≤ cuts.length →
    ∀ cs last trailer, WellFormedBody cs last trailer → recvBuf ++ stream = encodeBody cs last trailer →
      (cycleRecvBody bufferSize cb cuts stream recvBuf [] s).passed.flatten = cs.flatMap data ∧
        (cycleRecvBody bufferSize cb cuts stream recvBuf [] s).ending = .lastChunk

/-- In every turn the chunks fit beside what the callback has left and no size is -2;
a well-formed body for a callback that consumes everything has no trailer, and no chunk
that is longer than the buffer. -/
structure WithinBuffers (bufferSize : ℕ) (cb : Callback σ) (cuts : List ℕ) (stream recvBuf : Bytes)
    (s : σ) : Prop where
  fits : FitsAlong bufferSize cb cuts stream recvBuf [] s
  chunks : cb.Consumes → (∀ n ∈ cuts, 0 < n) → stream.length ≤ cuts.length →
    ∀ cs last trailer, WellFormedBody cs last trailer → recvBuf ++ stream = encodeBody cs last trailer →
      trailer = [] ∧ ∀ c ∈ cs ++ [last], c.encode.length ≤ bufferSize

theorem dechunks_iff (bufferSize : ℕ) (hsize : bufferSize < 2 ^ 31) (cb : Callback σ)
    (cuts : List ℕ) (stream recvBuf : Bytes) (hbuf : recvBuf.length ≤ bufferSize) (s : σ) :
    Dechunks bufferSize cb cuts stream recvBuf s ↔
      WithinBuffers bufferSize cb cuts stream recvBuf s := by
  have hsafe := run_safe_iff cb hsize cuts stream recvBuf [] s hbuf (Nat.zero_le _)
  constructor
  · rintro ⟨hfault, hdeliver⟩
    refine ⟨hsafe.mp hfault, ?_⟩
    intro hcb hcuts henough cs last trailer hbody heq
    have hend := (hdeliver hcb hcuts henough cs last trailer hbody heq).2
    have hnil : trailer = [] := by
      by_contra hne
      exact run_trailer hsize hcb hbody hne heq hbuf s hend
    subst hnil
    rw [encodeBody_nil hbody.toWellFormedChunks] at heq
    exact ⟨rfl, run_fits hsize hcb hbody.toWellFormedChunks heq hbuf s hend⟩
  · rintro ⟨hfits, hlong⟩
    refine ⟨hsafe.mpr hfits, ?_⟩
    intro hcb hcuts henough cs last trailer hbody heq
    obtain ⟨rfl, hfit⟩ := hlong hcb hcuts henough cs last trailer hbody heq
    rw [encodeBody_nil hbody.toWellFormedChunks] at heq
    exact run_delivers hsize hcb hcuts hbody.toWellFormedChunks hfit heq hbuf henough s

def consumeAll : Callback Unit := ⟨fun _ view ↦ (view.length, ()), fun _ _ ↦ le_rfl⟩

/-- A trailer in the same buffer keeps the data from being passed on. -/
example : cycleRecvBody 64 consumeAll [64] (ascii "3\r\nabc\r\n0\r\nX: y\r\n\r\n") [] [] () =
    ⟨[], .error (-2)⟩ := rfl

/-- The body with the chunks `abc` and `de`, the second of them with an empty extension. -/
def abcde : Bytes :=
  encodeBody [⟨[(3, false)], [], [97, 98, 99]⟩, ⟨[(2, false)], [59], [100, 101]⟩]
    ⟨[(0, false)], [], []⟩ []

theorem abcde_dechunks_iff : abcde = ascii "3\r\nabc\r\n2;\r\nde\r\n0\r\n\r\n" ∧
    (Dechunks 64 consumeAll (List.replicate 22 7) abcde [] () ↔
      WithinBuffers 64 consumeAll (List.replicate 22 7) abcde [] ()) :=
  ⟨by decide, dechunks_iff 64 (by decide) consumeAll (List.replicate 22 7) abcde [] (by decide) ()⟩

/-- The size -2 leads to a copy of 2^64 - 2 bytes. -/
theorem minus_two_faults :
    (cycleRecvBody 8192 consumeAll [64] (ascii "-2\r\nabc\r\n") [] [] ()).ending =
      .fault .overread ∧
    ¬ Dechunks 8192 consumeAll [64] (ascii "-2\r\nabc\r\n") [] () := by
  have hfault : (cycleRecvBody 8192 consumeAll [64] (ascii "-2\r\nabc\r\n") [] [] ()).ending =
      .fault .overread := by decide
  exact ⟨hfault, fun h ↦ h.safe _ hfault⟩

end Delivery

end MmsServer.Http.ChunkedBody
