import Mathlib.Data.Nat.Find
import MmsServer.Lib.CheckedLoop

namespace MmsServer.Recorder.FlvFile

open Lib.ByteReader Lib.Checked Lib.CheckedLoop

section Writev

/-- The end of one call of `writev`; `failed` is any error but `EINTR`. -/
inductive Answer
  | wrote (n : ℕ)
  | eintr
  | failed
deriving DecidableEq

/-- What `writev` answers at each call, given the number of bytes it is asked to
write. It writes a positive part of them. -/
structure Writev where
  answer : ℕ → ℕ → Answer
  wrote_pos : ∀ {call total n : ℕ}, 0 < total → answer call total = .wrote n → 0 < n
  wrote_le : ∀ {call total n : ℕ}, answer call total = .wrote n → n ≤ total

/-- A byte of memory, as each call of `writev` finds it. -/
abbrev Cell := ℕ → UInt8

def held (bytes : Bytes) : List Cell := bytes.map fun b _ ↦ b

/-- The state of `writev_all`: the vectors that are left, and what the file holds
after so many calls. -/
structure Writing where
  iov : List (List Cell)
  file : Bytes
  calls : ℕ
  totalWritten : ℤ

def skipWritten (written : ℕ) : List (List Cell) → Outcome (List (List Cell))
  | [] => if 0 < written then .fault .overread else .ok []
  | v :: iov =>
    if 0 < written then
      if v.length ≤ written then skipWritten (written - v.length) iov
      else .ok (v.drop written :: iov)
    else .ok (v :: iov)

def writevRound (k : Writev) (s : Writing) : Outcome (Writing ⊕ (ℤ × Writing)) :=
  if s.iov.length > 0 then
    match k.answer s.calls s.iov.flatten.length with
    | .eintr => .ok (.inl { s with calls := s.calls + 1 })
    | .failed => .ok (.inr (-1, { s with calls := s.calls + 1 }))
    | .wrote n => do
      let iov ← skipWritten n s.iov
      return .inl { iov := iov
                    file := s.file ++ (s.iov.flatten.take n).map fun cell ↦ cell s.calls
                    calls := s.calls + 1
                    totalWritten := s.totalWritten + n }
  else .ok (.inr (s.totalWritten, s))

def writevAll (k : Writev) (fuel : ℕ) (s : Writing) : Option (Outcome (ℤ × Writing)) :=
  run (writevRound k) fuel s

/-- From the call `call` on `writev` takes `total` bytes, each at the call that `calls`
names for it, and its next call is `next`. -/
inductive Takes (k : Writev) : ℕ → ℕ → List ℕ → ℕ → Prop
  | done {call : ℕ} : Takes k call 0 [] call
  | eintr {call total next : ℕ} {calls : List ℕ} : 0 < total → k.answer call total = .eintr →
      Takes k (call + 1) total calls next → Takes k call total calls next
  | wrote {call total n next : ℕ} {calls : List ℕ} : 0 < total → k.answer call total = .wrote n →
      Takes k (call + 1) (total - n) calls next →
      Takes k call total (List.replicate n call ++ calls) next

def readAt (cells : List Cell) (calls : List ℕ) : Bytes :=
  List.zipWith (fun cell call ↦ cell call) cells calls

def Writev.Works (k : Writev) : Prop := ∀ call total, k.answer call total ≠ .failed

/-- The calls with which a write is tried again are not all interrupted. -/
def Writev.Resumes (k : Writev) : Prop :=
  ∀ call total, 0 < total → ∃ later, call ≤ later ∧ k.answer later total ≠ .eintr

variable {k : Writev} {s s' : Writing}

theorem Takes.length {call total next : ℕ} {calls : List ℕ} (h : Takes k call total calls next) :
    calls.length = total := by
  induction h with
  | done => rfl
  | eintr _ _ _ ih => exact ih
  | wrote _ ha _ ih =>
    have hle := k.wrote_le ha
    rw [List.length_append, List.length_replicate, ih]
    omega

theorem Takes.unique {call total next next' : ℕ} {calls calls' : List ℕ}
    (h : Takes k call total calls next) (h' : Takes k call total calls' next') :
    calls = calls' ∧ next = next' := by
  induction h generalizing calls' with
  | done =>
    cases h' with
    | done => exact ⟨rfl, rfl⟩
    | eintr hpos _ _ => omega
    | wrote hpos _ _ => omega
  | eintr hpos ha _ ih =>
    cases h' with
    | done => omega
    | eintr _ _ h' => exact ih h'
    | wrote _ ha' _ => cases ha.symm.trans ha'
  | wrote hpos ha _ ih =>
    cases h' with
    | done => omega
    | eintr _ ha' _ => cases ha.symm.trans ha'
    | wrote _ ha' h' =>
      cases ha.symm.trans ha'
      obtain ⟨rfl, rfl⟩ := ih h'
      exact ⟨rfl, rfl⟩

theorem Takes.interrupted {call total next : ℕ} {calls : List ℕ} (hpos : 0 < total) (n : ℕ)
    (hn : ∀ i < n, k.answer (call + i) total = .eintr) (h : Takes k (call + n) total calls next) :
    Takes k call total calls next := by
  induction n with
  | zero => exact h
  | succ n ih => exact ih (fun i hi ↦ hn i (by omega)) (.eintr hpos (hn n (by omega)) h)

/-- Each write makes the rest shorter, and the next write comes after finitely many calls. -/
theorem Writev.Resumes.takes (hk : k.Works) (hres : k.Resumes) (call total : ℕ) :
    ∃ calls next, Takes k call total calls next := by
  induction total using Nat.strong_induction_on generalizing call with
  | _ total ih =>
    rcases Nat.eq_zero_or_pos total with rfl | hpos
    · exact ⟨[], call, .done⟩
    · have hex : ∃ i, k.answer (call + i) total ≠ .eintr := by
        obtain ⟨later, hle, ha⟩ := hres call total hpos
        exact ⟨later - call, by rwa [Nat.add_sub_cancel' hle]⟩
      have hwait (i : ℕ) (hi : i < Nat.find hex) : k.answer (call + i) total = .eintr :=
        not_not.mp (Nat.find_min hex hi)
      cases ha : k.answer (call + Nat.find hex) total with
      | eintr => exact absurd ha (Nat.find_spec hex)
      | failed => exact absurd ha (hk _ _)
      | wrote n =>
        have hn := k.wrote_pos hpos ha
        obtain ⟨calls, next, hrest⟩ := ih (total - n) (by omega) (call + Nat.find hex + 1)
        exact ⟨_, next, .interrupted hpos (Nat.find hex) hwait (.wrote hpos ha hrest)⟩

theorem readAt_append {cells cells' : List Cell} (calls : List ℕ) :
    readAt (cells ++ cells') calls =
      readAt cells calls ++ readAt cells' (calls.drop cells.length) := by
  induction cells generalizing calls with
  | nil => rfl
  | cons cell cells ih =>
    cases calls with
    | nil => cases cells' <;> rfl
    | cons call calls => exact congrArg (cell call :: ·) (ih calls)

theorem readAt_held {bytes : Bytes} {calls : List ℕ} (h : bytes.length ≤ calls.length) :
    readAt (held bytes) calls = bytes := by
  induction bytes generalizing calls with
  | nil => rfl
  | cons b bytes ih =>
    cases calls with
    | nil => cases h
    | cons call calls => exact congrArg (b :: ·) (ih (Nat.le_of_succ_le_succ h))

theorem readAt_replicate {cells : List Cell} {n : ℕ} (h : n ≤ cells.length) (call : ℕ)
    (calls : List ℕ) : readAt cells (List.replicate n call ++ calls) =
      (cells.take n).map (fun cell ↦ cell call) ++ readAt (cells.drop n) calls := by
  induction n generalizing cells with
  | zero => rfl
  | succ n ih =>
    cases cells with
    | nil => cases h
    | cons cell cells => exact congrArg (cell call :: ·) (ih (Nat.le_of_succ_le_succ h))

theorem length_held (bytes : Bytes) : (held bytes).length = bytes.length := List.length_map _

theorem held_append (bytes bytes' : Bytes) : held (bytes ++ bytes') = held bytes ++ held bytes' :=
  List.map_append

theorem skipWritten_ok {iov : List (List Cell)} {written : ℕ} (hne : ∀ v ∈ iov, v ≠ [])
    (hle : written ≤ iov.flatten.length) :
    ∃ rest, skipWritten written iov = .ok rest ∧ rest.flatten = iov.flatten.drop written ∧
      ∀ v ∈ rest, v ≠ [] := by
  induction iov generalizing written with
  | nil =>
    have h0 : written = 0 := by simpa using hle
    subst h0
    exact ⟨[], rfl, rfl, by simp⟩
  | cons v iov ih =>
    rw [List.flatten_cons, List.length_append] at hle
    have hiov : ∀ u ∈ iov, u ≠ [] := fun u hu ↦ hne u (List.mem_cons_of_mem _ hu)
    by_cases hw : 0 < written
    · by_cases hv : v.length ≤ written
      · have hrest : written - v.length ≤ iov.flatten.length := by omega
        obtain ⟨rest, hs, hf, hr⟩ := ih hiov hrest
        refine ⟨rest, ?_, ?_, hr⟩
        · rw [skipWritten, if_pos hw, if_pos hv, hs]
        · rw [hf, List.flatten_cons, List.drop_append, List.drop_eq_nil_of_le hv, List.nil_append]
      · refine ⟨v.drop written :: iov, ?_, ?_, ?_⟩
        · rw [skipWritten, if_pos hw, if_neg hv]
        · rw [List.flatten_cons, List.flatten_cons, List.drop_append_of_le_length (by omega)]
        · intro u hu
          rcases List.mem_cons.mp hu with rfl | hu
          · simpa using hv
          · exact hiov u hu
    · have h0 : written = 0 := by omega
      subst h0
      exact ⟨v :: iov, rfl, rfl, hne⟩

theorem flatten_pos (hne : ∀ v ∈ s.iov, v ≠ []) (hs : s.iov.length > 0) :
    0 < s.iov.flatten.length := by
  obtain ⟨v, iov, hiov⟩ := List.exists_cons_of_length_pos hs
  have hv : 0 < v.length := List.length_pos_iff.mpr (hne v (by simp [hiov]))
  rw [hiov, List.flatten_cons, List.length_append]
  omega

/-- A round takes a front part of what is left, or nothing. -/
theorem writevRound_cases (hne : ∀ v ∈ s.iov, v ≠ []) (hs : s.iov.length > 0) :
    (k.answer s.calls s.iov.flatten.length = .failed ∧
      writevRound k s = .ok (.inr (-1, { s with calls := s.calls + 1 }))) ∨
    (k.answer s.calls s.iov.flatten.length = .eintr ∧
      writevRound k s = .ok (.inl { s with calls := s.calls + 1 })) ∨
    ∃ n rest, k.answer s.calls s.iov.flatten.length = .wrote n ∧ n ≤ s.iov.flatten.length ∧
      rest.flatten = s.iov.flatten.drop n ∧ (∀ v ∈ rest, v ≠ []) ∧
      writevRound k s = .ok (.inl
        ⟨rest, s.file ++ (s.iov.flatten.take n).map (fun cell ↦ cell s.calls), s.calls + 1,
          s.totalWritten + n⟩) := by
  cases ha : k.answer s.calls s.iov.flatten.length with
  | failed => exact .inl ⟨rfl, by simp only [writevRound, if_pos hs, ha]⟩
  | eintr => exact .inr (.inl ⟨rfl, by simp only [writevRound, if_pos hs, ha]⟩)
  | wrote n =>
    have hle := k.wrote_le ha
    obtain ⟨rest, hskip, hrest, hrest'⟩ := skipWritten_ok hne hle
    refine .inr (.inr ⟨n, rest, rfl, hle, hrest, hrest', ?_⟩)
    simp only [writevRound, if_pos hs, ha, hskip, Outcome.ok_bind, Outcome.pure_eq]

theorem writevRound_done (hs : ¬ s.iov.length > 0) :
    writevRound k s = .ok (.inr (s.totalWritten, s)) := if_neg hs

/-- Everything is in the file when `writev_all` comes back, each byte as the call found
it that took it. -/
theorem writevAll_ok {fuel : ℕ} {o : Outcome (ℤ × Writing)} (hk : k.Works)
    (hne : ∀ v ∈ s.iov, v ≠ []) (hrun : writevAll k fuel s = some o) :
    ∃ calls s', o = .ok (s'.totalWritten, s') ∧ s.totalWritten ≤ s'.totalWritten ∧
      Takes k s.calls s.iov.flatten.length calls s'.calls ∧
      s'.file = s.file ++ readAt s.iov.flatten calls := by
  induction fuel generalizing s with
  | zero => cases hrun
  | succ fuel ih =>
    rw [writevAll] at hrun
    by_cases hs : s.iov.length > 0
    · have hpos := flatten_pos hne hs
      rcases writevRound_cases (k := k) hne hs with
        ⟨ha, -⟩ | ⟨ha, he⟩ | ⟨n, rest, ha, hle, hrest, hrest', he⟩
      · exact absurd ha (hk _ _)
      · rw [run_succ_inl he] at hrun
        obtain ⟨calls, s', ho, htotal, htakes, hfile⟩ := ih (s := { s with calls := s.calls + 1 }) hne hrun
        exact ⟨calls, s', ho, htotal, .eintr hpos ha htakes, hfile⟩
      · rw [run_succ_inl he] at hrun
        obtain ⟨calls, s', ho, htotal, htakes, hfile⟩ := ih hrest' hrun
        rw [hrest, List.length_drop] at htakes
        refine ⟨_, s', ho, ?_, .wrote hpos ha htakes, ?_⟩
        · have hle' : s.totalWritten + n ≤ s'.totalWritten := htotal
          omega
        · rw [hfile, hrest, readAt_replicate hle, List.append_assoc]
    · have hnil : s.iov = [] := List.length_eq_zero_iff.mp (by omega)
      simp only [run, writevRound_done hs, Option.some_inj] at hrun
      rw [hnil]
      exact ⟨[], s, hrun.symm, le_rfl, .done, (List.append_nil _).symm⟩

/-- `writev_all` comes back when `writev` takes everything. -/
theorem writevAll_ends {total next : ℕ} {calls : List ℕ} (hk : k.Works)
    (hne : ∀ v ∈ s.iov, v ≠ []) (h : Takes k s.calls total calls next)
    (htotal : s.iov.flatten.length = total) : ∃ fuel o, writevAll k fuel s = some o := by
  obtain ⟨first, hfirst⟩ : ∃ first, first = s.calls := ⟨_, rfl⟩
  rw [← hfirst] at h
  induction h generalizing s with
  | done =>
    have hs : ¬ s.iov.length > 0 := fun hs ↦ by
      have hpos := flatten_pos hne hs
      omega
    exact ⟨1, .ok (s.totalWritten, s), by simp only [writevAll, run, writevRound_done hs]⟩
  | @eintr call total next calls hpos ha h ih =>
    have hs : s.iov.length > 0 := List.length_pos_iff.mpr fun hnil ↦ by
      rw [hnil, List.flatten_nil, List.length_nil] at htotal
      omega
    rw [hfirst, ← htotal] at ha
    rcases writevRound_cases (k := k) hne hs with ⟨ha', -⟩ | ⟨-, he⟩ | ⟨n, rest, ha', -⟩
    · exact absurd ha' (hk _ _)
    · obtain ⟨fuel, o, ho⟩ := ih (s := { s with calls := s.calls + 1 }) hne htotal (by rw [hfirst])
      exact ⟨fuel + 1, o, by rwa [writevAll, run_succ_inl he]⟩
    · cases ha.symm.trans ha'
  | @wrote call total n next calls hpos ha h ih =>
    have hs : s.iov.length > 0 := List.length_pos_iff.mpr fun hnil ↦ by
      rw [hnil, List.flatten_nil, List.length_nil] at htotal
      omega
    rw [hfirst, ← htotal] at ha
    rcases writevRound_cases (k := k) hne hs with
      ⟨ha', -⟩ | ⟨ha', -⟩ | ⟨n', rest, ha', -, hrest, hrest', he⟩
    · exact absurd ha' (hk _ _)
    · cases ha.symm.trans ha'
    · cases ha.symm.trans ha'
      obtain ⟨fuel, o, ho⟩ := ih (s := ⟨rest, _, s.calls + 1, _⟩) hrest'
        (by rw [hrest, List.length_drop, htotal]) (by rw [hfirst])
      exact ⟨fuel + 1, o, by rwa [writevAll, run_succ_inl he]⟩

end Writev

section Recorder

/-- `FlvHeader`. The bits of `flag` that no one sets have whatever value was in
the memory of the header before. -/
structure FlvHeader where
  flag : UInt8
deriving DecidableEq

def FlvHeader.of (memory : UInt8) (audio video : Bool) : FlvHeader where
  flag := (memory &&& 0x5f) ||| (if audio then 0x20 else 0) ||| (if video then 0x80 else 0)

/-- Nothing is written into a buffer that is too short. -/
def FlvHeader.encode (h : FlvHeader) (len : ℕ) : Bytes :=
  if len < 9 then [] else [0x46, 0x4c, 0x56, 0x01, h.flag, 0x00, 0x00, 0x00, 0x09]

/-- What the sink hands over at one call, with what else the callback reads. -/
structure Batch where
  flvTags : List Bytes
  now : ℤ
  hasAudio : Bool
  hasVideo : Bool
  memory : UInt8

def Batch.header (b : Batch) : Bytes := (FlvHeader.of b.memory b.hasAudio b.hasVideo).encode 9

structure FlvRecorder where
  hasWriteFlvHeader : Bool := false
  prevTagSize : BitVec 32 := 0
  recordDuration : ℤ := 0
  recordStartTime : ℤ := 0
  writeBytes : ℤ := 0
  file : Bytes := []
  calls : ℕ := 0

def bufCount : ℕ := 100

/-- How many packets `FlvMediaSink::do_work` asks for. -/
def sinkMax : ℕ := 20

def pushBuf (writeBufs : List (List Cell)) (buf : List Cell) : Outcome (List (List Cell)) :=
  if writeBufs.length < bufCount then .ok (writeBufs ++ [buf]) else .fault .overrun

structure Gathered where
  writeBufs : List (List Cell)
  prevTagSize : BitVec 32
  bytes : ℤ

/-- The loop over the tags; `i` is the next index of `prev_tag_sizes_`. -/
def gather : ℕ → Gathered → List Bytes → Outcome Gathered
  | _, g, [] => .ok g
  | i, g, tag :: tags =>
    if i < bufCount then do
      let writeBufs ← pushBuf g.writeBufs (held (putBE 4 g.prevTagSize.toNat))
      let writeBufs ← pushBuf writeBufs (held tag)
      gather (i + 1)
        { writeBufs := writeBufs
          prevTagSize := BitVec.ofNat 32 tag.length
          bytes := g.bytes + 4 + tag.length } tags
    else .fault .overrun

/-- The nine bytes where `flv_header` was. `stack call` is what they hold at a call of
`writev`. -/
def deadHeader (stack : ℕ → ℕ → UInt8) : List Cell := (List.range 9).map fun i call ↦ stack call i

/-- The array that the header is encoded into is gone at the end of the block, before the
vector that points to it is read. -/
def headerBufs (stack : ℕ → ℕ → UInt8) (r : FlvRecorder) : Outcome (List (List Cell)) :=
  if r.hasWriteFlvHeader then .ok [] else pushBuf [] (deadHeader stack)

/-- The callback that `FlvRecorder::init` registers. -/
def onFlvTag (k : Writev) (stack : ℕ → ℕ → UInt8) (fuel : ℕ) (r : FlvRecorder) (b : Batch) :
    Option (Outcome (Bool × FlvRecorder)) :=
  match headerBufs stack r >>= fun bufs ↦ gather 0 ⟨bufs, r.prevTagSize, 0⟩ b.flvTags with
  | .err code => some (.err code)
  | .fault f => some (.fault f)
  | .ok g =>
    let r := { r with hasWriteFlvHeader := true, prevTagSize := g.prevTagSize }
    if g.writeBufs.length ≤ 0 then some (.ok (true, r))
    else
      match writevAll k fuel ⟨g.writeBufs, r.file, r.calls, 0⟩ with
      | none => none
      | some (.err code) => some (.err code)
      | some (.fault f) => some (.fault f)
      | some (.ok (ret, s)) =>
        let r := { r with file := s.file, calls := s.calls }
        if ret = -1 then some (.ok (false, r))
        else some (.ok (true, { r with
          writeBytes := r.writeBytes + g.bytes
          recordDuration := b.now - r.recordStartTime }))

def record (k : Writev) (stack : ℕ → ℕ → UInt8) (fuel : ℕ) (r : FlvRecorder) :
    List Batch → Option (Outcome (List Bool × FlvRecorder))
  | [] => some (.ok ([], r))
  | b :: bs =>
    match onFlvTag k stack fuel r b with
    | none => none
    | some (.err code) => some (.err code)
    | some (.fault f) => some (.fault f)
    | some (.ok (ret, r')) => (record k stack fuel r' bs).map fun o ↦ do
      let (rets, r'') ← o
      return (ret :: rets, r'')

def tagRecords : ℕ → List Bytes → Bytes
  | _, [] => []
  | prev, tag :: tags => putBE 4 prev ++ tag ++ tagRecords tag.length tags

def lastSize : ℕ → List Bytes → ℕ
  | prev, [] => prev
  | _, tag :: tags => lastSize tag.length tags

structure Batch.Proper (b : Batch) : Prop where
  within : b.flvTags.length ≤ sinkMax
  nonempty : ∀ tag ∈ b.flvTags, tag ≠ []

def recordsSize (tags : List Bytes) : ℕ := (tags.map fun tag ↦ 4 + tag.length).sum

/-- Every batch is written to its end without an access outside of the buffers, and the
file is the header with the records of all tags behind it. -/
def WellFormedFile (k : Writev) (stack : ℕ → ℕ → UInt8) (start : ℤ) (bs : List Batch) : Prop :=
  ∃ fuel r b, record k stack fuel { recordStartTime := start } bs =
      some (.ok (List.replicate bs.length true, r)) ∧
    bs.head? = some b ∧ r.file = b.header ++ tagRecords 0 (bs.flatMap Batch.flvTags)

/-- `writev` takes the bytes of one batch after the other. -/
inductive TakesAll (k : Writev) : ℕ → List ℕ → Prop
  | nil (call : ℕ) : TakesAll k call []
  | cons {call total next : ℕ} {calls totals : List ℕ} : Takes k call total calls next →
      TakesAll k next totals → TakesAll k call (total :: totals)

/-- `writev` takes all bytes of the batches, and when it takes those of the header, the
memory where the array was still holds them. -/
def HeaderSurvives (k : Writev) (stack : ℕ → ℕ → UInt8) (bs : List Batch) : Prop :=
  ∃ b rest calls next, bs = b :: rest ∧ Takes k 0 (9 + recordsSize b.flvTags) calls next ∧
    readAt (deadHeader stack) calls = b.header ∧
    TakesAll k next (rest.map fun b ↦ recordsSize b.flvTags)

def due (stack : ℕ → ℕ → UInt8) (r : FlvRecorder) : List Cell :=
  if r.hasWriteFlvHeader then [] else deadHeader stack

variable {k : Writev} {stack : ℕ → ℕ → UInt8} {r : FlvRecorder} {b : Batch}

theorem length_deadHeader (stack : ℕ → ℕ → UInt8) : (deadHeader stack).length = 9 := rfl

theorem length_tagRecords (prev : ℕ) (tags : List Bytes) :
    (tagRecords prev tags).length = recordsSize tags := by
  induction tags generalizing prev with
  | nil => rfl
  | cons tag tags ih =>
    rw [tagRecords, List.length_append, List.length_append, ih, putBE_length, recordsSize,
      recordsSize, List.map_cons, List.sum_cons]

theorem tagRecords_append (prev : ℕ) (tags tags' : List Bytes) :
    tagRecords prev (tags ++ tags') =
      tagRecords prev tags ++ tagRecords (lastSize prev tags) tags' := by
  induction tags generalizing prev with
  | nil => rfl
  | cons tag tags ih =>
    simp only [List.cons_append, tagRecords, lastSize, ih, List.append_assoc]

theorem pushBuf_ok {bufs : List (List Cell)} {buf : List Cell} (h : bufs.length < bufCount) :
    pushBuf bufs buf = .ok (bufs ++ [buf]) := if_pos h

theorem putBE_ofNat (n : ℕ) : putBE 4 (BitVec.ofNat 32 n).toNat = putBE 4 n := by
  rw [BitVec.toNat_ofNat]
  exact putBE_mod 4 n

theorem held_ne_nil {bytes : Bytes} (h : bytes ≠ []) : held bytes ≠ [] :=
  fun hnil ↦ h (List.map_eq_nil_iff.mp hnil)

theorem gather_ok (tags : List Bytes) (i : ℕ) (g : Gathered) (prev : ℕ)
    (hprev : g.prevTagSize = BitVec.ofNat 32 prev) (hi : i + tags.length ≤ bufCount)
    (hroom : g.writeBufs.length + 2 * tags.length ≤ bufCount)
    (hne : ∀ v ∈ g.writeBufs, v ≠ []) (htags : ∀ tag ∈ tags, tag ≠ []) :
    ∃ g', gather i g tags = .ok g' ∧
      g'.writeBufs.flatten = g.writeBufs.flatten ++ held (tagRecords prev tags) ∧
      g'.prevTagSize = BitVec.ofNat 32 (lastSize prev tags) ∧ ∀ v ∈ g'.writeBufs, v ≠ [] := by
  induction tags generalizing i g prev with
  | nil => exact ⟨g, rfl, (List.append_nil _).symm, hprev, hne⟩
  | cons tag tags ih =>
    rw [List.length_cons] at hi hroom
    have hsize : putBE 4 g.prevTagSize.toNat = putBE 4 prev := by rw [hprev, putBE_ofNat]
    have hgather : gather i g (tag :: tags) = gather (i + 1)
        ⟨g.writeBufs ++ [held (putBE 4 prev)] ++ [held tag], BitVec.ofNat 32 tag.length,
          g.bytes + 4 + tag.length⟩ tags := by
      rw [gather, if_pos (by omega), hsize, pushBuf_ok (by omega), Outcome.ok_bind,
        pushBuf_ok (by rw [List.length_append, List.length_singleton]; omega), Outcome.ok_bind]
    have hbufs : ∀ v ∈ g.writeBufs ++ [held (putBE 4 prev)] ++ [held tag], v ≠ [] := by
      intro v hv
      simp only [List.mem_append, List.mem_singleton] at hv
      rcases hv with (hv | rfl) | rfl
      · exact hne v hv
      · exact held_ne_nil (by simp [putBE])
      · exact held_ne_nil (htags tag (List.mem_cons_self ..))
    obtain ⟨g', hg, hflat, hlast, hne'⟩ := ih (i + 1) ⟨_, _, g.bytes + 4 + tag.length⟩ tag.length rfl
      (by omega) (by simp only [List.length_append, List.length_singleton]; omega) hbufs
      fun t ht ↦ htags t (List.mem_cons_of_mem _ ht)
    refine ⟨g', hgather.trans hg, ?_, hlast, hne'⟩
    rw [hflat, tagRecords, held_append, held_append]
    simp

theorem headerBufs_ok (stack : ℕ → ℕ → UInt8) (r : FlvRecorder) :
    ∃ bufs, headerBufs stack r = .ok bufs ∧ bufs.flatten = due stack r ∧ bufs.length ≤ 1 ∧
      ∀ v ∈ bufs, v ≠ [] := by
  cases hr : r.hasWriteFlvHeader with
  | true => exact ⟨[], by simp [headerBufs, hr], by simp [due, hr], by simp, by simp⟩
  | false =>
    refine ⟨[deadHeader stack], ?_, ?_, ?_, ?_⟩
    · simp only [headerBufs, hr]
      rfl
    · simp [due, hr]
    · simp
    · simp [← List.length_pos_iff, length_deadHeader]

/-- The vectors of a batch: what is due, with the tags behind it. -/
theorem vectors_ok (stack : ℕ → ℕ → UInt8) {prev : ℕ}
    (hprev : r.prevTagSize = BitVec.ofNat 32 prev) (hb : b.Proper) :
    ∃ g, (headerBufs stack r >>= fun bufs ↦ gather 0 ⟨bufs, r.prevTagSize, 0⟩ b.flvTags) = .ok g ∧
      g.writeBufs.flatten = due stack r ++ held (tagRecords prev b.flvTags) ∧
      g.prevTagSize = BitVec.ofNat 32 (lastSize prev b.flvTags) ∧ ∀ v ∈ g.writeBufs, v ≠ [] := by
  obtain ⟨bufs, hbufs, hflat, hlen, hne⟩ := headerBufs_ok stack r
  have hw := hb.within
  simp only [sinkMax] at hw
  obtain ⟨g, hg, hflat', hlast, hne'⟩ := gather_ok b.flvTags 0 ⟨bufs, r.prevTagSize, 0⟩ prev hprev
    (by simp only [bufCount]; omega) (by simp only [bufCount]; omega) hne hb.nonempty
  refine ⟨g, ?_, ?_, hlast, hne'⟩
  · rw [hbufs, Outcome.ok_bind, hg]
  · rw [hflat', hflat]

/-- The recorder has written `content` and the last tag was of size `prev`. -/
structure Recorded (content : Bytes) (prev : ℕ) (r : FlvRecorder) : Prop where
  file : r.file = content
  prevTagSize : r.prevTagSize = BitVec.ofNat 32 prev

/-- A batch that comes back has been taken by `writev`. The tags are in the file as they
are, and in front of them is what the calls found where the header was. -/
theorem onFlvTag_ok {content : Bytes} {prev fuel : ℕ} {o : Outcome (Bool × FlvRecorder)}
    (hk : k.Works) (hr : Recorded content prev r) (hb : b.Proper)
    (ho : onFlvTag k stack fuel r b = some o) :
    ∃ calls r', o = .ok (true, r') ∧ r'.hasWriteFlvHeader = true ∧
      Takes k r.calls ((due stack r).length + recordsSize b.flvTags) calls r'.calls ∧
      Recorded (content ++ readAt (due stack r) calls ++ tagRecords prev b.flvTags)
        (lastSize prev b.flvTags) r' := by
  obtain ⟨g, hg, hflat, hlast, hne⟩ := vectors_ok stack hr.prevTagSize hb
  have hlength : g.writeBufs.flatten.length = (due stack r).length + recordsSize b.flvTags := by
    rw [hflat, List.length_append, length_held, length_tagRecords]
  rw [onFlvTag, hg] at ho
  by_cases hlen : g.writeBufs.length ≤ 0
  · have hnil : g.writeBufs = [] := List.length_eq_zero_iff.mp (by omega)
    rw [hnil, List.flatten_nil] at hflat hlength
    obtain ⟨hdue, hrecords⟩ := List.append_eq_nil_iff.mp hflat.symm
    simp only [if_pos hlen, Option.some_inj] at ho
    refine ⟨[], _, ho.symm, rfl, hlength ▸ .done, ?_, hlast⟩
    rw [hdue, List.map_eq_nil_iff.mp hrecords, List.append_nil]
    exact hr.file.trans (List.append_nil _).symm
  · simp only [if_neg hlen] at ho
    cases hw : writevAll k fuel ⟨g.writeBufs, r.file, r.calls, 0⟩ with
    | none => simp [hw] at ho
    | some o' =>
      obtain ⟨calls, s, rfl, hret, htakes, hfile⟩ := writevAll_ok hk hne hw
      have hret' : ¬ s.totalWritten = -1 := by
        have hpos : 0 ≤ s.totalWritten := hret
        omega
      simp only [hw, if_neg hret', Option.some_inj] at ho
      have hall := htakes.length
      rw [hlength] at htakes hall
      refine ⟨calls, _, ho.symm, rfl, htakes, ?_, hlast⟩
      simp only [hfile, hflat, hr.file]
      rw [readAt_append, readAt_held (by rw [List.length_drop, hall, length_tagRecords]; omega),
        List.append_assoc]

theorem onFlvTag_ends (stack : ℕ → ℕ → UInt8) {content : Bytes} {prev next : ℕ} {calls : List ℕ}
    (hk : k.Works)
    (hr : Recorded content prev r) (hb : b.Proper)
    (h : Takes k r.calls ((due stack r).length + recordsSize b.flvTags) calls next) :
    ∃ fuel o, onFlvTag k stack fuel r b = some o := by
  obtain ⟨g, hg, hflat, hlast, hne⟩ := vectors_ok stack hr.prevTagSize hb
  by_cases hlen : g.writeBufs.length ≤ 0
  · refine ⟨0, ?_⟩
    simp only [onFlvTag, hg, if_pos hlen]
    exact ⟨_, rfl⟩
  · have hlength : g.writeBufs.flatten.length = (due stack r).length + recordsSize b.flvTags := by
      rw [hflat, List.length_append, length_held, length_tagRecords]
    obtain ⟨fuel, o, hw⟩ := writevAll_ends (s := ⟨g.writeBufs, r.file, r.calls, 0⟩) hk hne h hlength
    obtain ⟨calls, s, rfl, -⟩ := writevAll_ok hk hne hw
    refine ⟨fuel, ?_⟩
    simp only [onFlvTag, hg, if_neg hlen, hw]
    split
    · exact ⟨_, rfl⟩
    · exact ⟨_, rfl⟩

theorem onFlvTag_mono {fuel : ℕ} {o : Outcome (Bool × FlvRecorder)}
    (h : onFlvTag k stack fuel r b = some o) (n : ℕ) :
    onFlvTag k stack (fuel + n) r b = some o := by
  unfold onFlvTag at h ⊢
  cases hg : headerBufs stack r >>= fun bufs ↦ gather 0 ⟨bufs, r.prevTagSize, 0⟩ b.flvTags with
  | err code => simpa only [hg] using h
  | fault f => simpa only [hg] using h
  | ok g =>
    simp only [hg] at h ⊢
    split at h
    · rwa [if_pos ‹_›]
    · rw [if_neg ‹_›]
      cases hw : writevAll k fuel ⟨g.writeBufs, r.file, r.calls, 0⟩ with
      | none => simp [hw] at h
      | some o' =>
        have hw' : writevAll k (fuel + n) ⟨g.writeBufs, r.file, r.calls, 0⟩ = some o' := run_mono hw n
        simpa only [hw, hw'] using h

theorem record_mono (bs : List Batch) {fuel : ℕ} {o : Outcome (List Bool × FlvRecorder)}
    (h : record k stack fuel r bs = some o) (n : ℕ) : record k stack (fuel + n) r bs = some o := by
  induction bs generalizing r o with
  | nil => exact h
  | cons b bs ih =>
    cases hb : onFlvTag k stack fuel r b with
    | none => simp [record, hb] at h
    | some o' =>
      simp only [record, hb] at h
      simp only [record, onFlvTag_mono hb n]
      cases o' with
      | err code => exact h
      | fault f => exact h
      | ok p =>
        obtain ⟨o'', ho, rfl⟩ := Option.map_eq_some_iff.mp h
        exact Option.map_eq_some_iff.mpr ⟨o'', ih ho, rfl⟩

theorem due_written (hhead : r.hasWriteFlvHeader = true) : due stack r = [] := if_pos hhead

/-- After the header the file grows by the records of the tags. -/
theorem record_ok (bs : List Batch) {content : Bytes} {prev fuel : ℕ}
    {o : Outcome (List Bool × FlvRecorder)} (hk : k.Works) (hr : Recorded content prev r)
    (hhead : r.hasWriteFlvHeader = true) (hbs : ∀ b ∈ bs, b.Proper)
    (ho : record k stack fuel r bs = some o) :
    ∃ r', o = .ok (List.replicate bs.length true, r') ∧
      r'.file = content ++ tagRecords prev (bs.flatMap Batch.flvTags) ∧
      TakesAll k r.calls (bs.map fun b ↦ recordsSize b.flvTags) := by
  induction bs generalizing r content prev o with
  | nil =>
    cases ho
    refine ⟨r, rfl, ?_, .nil _⟩
    rw [hr.file, List.flatMap_nil, tagRecords, List.append_nil]
  | cons b bs ih =>
    cases hb : onFlvTag k stack fuel r b with
    | none => simp [record, hb] at ho
    | some o' =>
      obtain ⟨calls, r₁, rfl, hhead₁, htakes, hr₁⟩ :=
        onFlvTag_ok hk hr (hbs b (List.mem_cons_self ..)) hb
      simp only [record, hb] at ho
      obtain ⟨o'', ho', rfl⟩ := Option.map_eq_some_iff.mp ho
      rw [due_written hhead, List.length_nil, Nat.zero_add] at htakes
      rw [due_written hhead, readAt, List.zipWith_nil_left, List.append_nil] at hr₁
      obtain ⟨r', rfl, hfile, hall⟩ :=
        ih hr₁ hhead₁ (fun b' hb' ↦ hbs b' (List.mem_cons_of_mem _ hb')) ho'
      refine ⟨r', rfl, ?_, .cons htakes hall⟩
      rw [hfile, List.flatMap_cons, tagRecords_append, List.append_assoc]

theorem record_ends (stack : ℕ → ℕ → UInt8) (bs : List Batch) {content : Bytes} {prev : ℕ}
    (hk : k.Works)
    (hr : Recorded content prev r) (hhead : r.hasWriteFlvHeader = true) (hbs : ∀ b ∈ bs, b.Proper)
    (h : TakesAll k r.calls (bs.map fun b ↦ recordsSize b.flvTags)) :
    ∃ fuel o, record k stack fuel r bs = some o := by
  induction bs generalizing r content prev with
  | nil => exact ⟨0, _, rfl⟩
  | cons b bs ih =>
    have hb := hbs b (List.mem_cons_self ..)
    rw [List.map_cons] at h
    cases h with
    | cons htakes hall =>
      have hdue : (due stack r).length + recordsSize b.flvTags = recordsSize b.flvTags := by
        rw [due_written hhead, List.length_nil, Nat.zero_add]
      rw [← hdue] at htakes
      obtain ⟨fuel, o, ho⟩ := onFlvTag_ends stack hk hr hb htakes
      obtain ⟨calls, r₁, rfl, hhead₁, htakes', hr₁⟩ := onFlvTag_ok hk hr hb ho
      obtain ⟨-, rfl⟩ := htakes.unique htakes'
      obtain ⟨fuel', o', ho'⟩ :=
        ih hr₁ hhead₁ (fun b' hb' ↦ hbs b' (List.mem_cons_of_mem _ hb')) hall
      have hmono := record_mono bs ho' fuel
      rw [Nat.add_comm] at hmono
      refine ⟨fuel + fuel', ?_⟩
      simp only [record, onFlvTag_mono ho fuel', hmono, Option.map_some]
      exact ⟨_, rfl⟩

/-- The file is well formed exactly if `writev` takes all bytes and finds the header where
its array was. What is behind the header is right whatever happens to it. -/
theorem recorded_file_wellFormed_iff (k : Writev) (hk : k.Works) (stack : ℕ → ℕ → UInt8) (start : ℤ)
    (bs : List Batch) (hbs : ∀ b ∈ bs, b.Proper) :
    WellFormedFile k stack start bs ↔ HeaderSurvives k stack bs := by
  have hr : Recorded [] 0 { recordStartTime := start } := ⟨rfl, rfl⟩
  have hfresh : due stack { recordStartTime := start } = deadHeader stack := rfl
  constructor
  · rintro ⟨fuel, r, b, ho, hb, hfile⟩
    obtain ⟨rest, rfl⟩ : ∃ rest, bs = b :: rest := by
      cases bs with
      | nil => cases hb
      | cons b' rest => exact ⟨rest, by rw [Option.some_inj.mp hb]⟩
    cases hfirst : onFlvTag k stack fuel { recordStartTime := start } b with
    | none => simp only [record, hfirst, reduceCtorEq] at ho
    | some o' =>
      obtain ⟨calls, r₁, rfl, hhead, htakes, hr₁⟩ :=
        onFlvTag_ok hk hr (hbs b (List.mem_cons_self ..)) hfirst
      simp only [record, hfirst] at ho
      obtain ⟨o'', ho', hall⟩ := Option.map_eq_some_iff.mp ho
      obtain ⟨r', rfl, hfile', hrest⟩ := record_ok rest hk hr₁ hhead
        (fun b' hb' ↦ hbs b' (List.mem_cons_of_mem _ hb')) ho'
      obtain rfl : r' = r := by
        simp only [Outcome.ok_bind, Outcome.pure_eq, Outcome.ok.injEq, Prod.mk.injEq] at hall
        exact hall.2
      refine ⟨b, rest, calls, r₁.calls, rfl, htakes, ?_, hrest⟩
      rw [hfile', List.nil_append, List.flatMap_cons, tagRecords_append, List.append_assoc] at hfile
      exact List.append_cancel_right hfile
  · rintro ⟨b, rest, calls, next, rfl, htakes, hheader, hall⟩
    have hproper := hbs b (List.mem_cons_self ..)
    have hrest (b' : Batch) (hb' : b' ∈ rest) : b'.Proper := hbs b' (List.mem_cons_of_mem _ hb')
    obtain ⟨fuel, o, ho⟩ := onFlvTag_ends stack hk hr hproper htakes
    obtain ⟨calls', r₁, rfl, hhead, htakes', hr₁⟩ := onFlvTag_ok hk hr hproper ho
    obtain ⟨rfl, rfl⟩ := htakes.unique htakes'
    obtain ⟨fuel', o', ho'⟩ := record_ends stack rest hk hr₁ hhead hrest hall
    obtain ⟨r, rfl, hfile, -⟩ := record_ok rest hk hr₁ hhead hrest ho'
    have hmono := record_mono rest ho' fuel
    rw [Nat.add_comm] at hmono
    refine ⟨fuel + fuel', r, b, ?_, rfl, ?_⟩
    · simp only [record, onFlvTag_mono ho fuel', hmono, Option.map_some]
      rfl
    · rw [hfile, hfresh, hheader, List.nil_append, List.flatMap_cons, tagRecords_append,
        List.append_assoc]

def slowWritev : Writev where
  answer call total := if call % 2 = 0 ∧ 0 < total then .wrote 1 else .eintr
  wrote_pos := by
    intro call total n _ h
    split at h
    · cases h
      omega
    · cases h
  wrote_le := by
    intro call total n h
    split at h
    · cases h
      omega
    · cases h

theorem slowWritev_works : slowWritev.Works := by
  intro call total
  simp only [slowWritev]
  split <;> simp

def twoBatches : List Batch := [⟨[[1, 2], [3]], 0, true, true, 0⟩, ⟨[[4]], 1, true, true, 0⟩]

theorem twoBatches_proper : ∀ b ∈ twoBatches, b.Proper := by
  simp only [twoBatches, List.forall_mem_cons, List.not_mem_nil, false_imp_iff, implies_true, and_true]
  exact ⟨⟨by decide, by decide⟩, ⟨by decide, by decide⟩⟩

theorem slowWritev_resumes : slowWritev.Resumes := by
  intro call total hpos
  refine ⟨call + call % 2, by omega, ?_⟩
  have heven : (call + call % 2) % 2 = 0 := by omega
  simp only [slowWritev, if_pos (And.intro heven hpos)]
  exact nofun

def keptHeader (_ i : ℕ) : UInt8 := [0x46, 0x4c, 0x56, 1, 0xa0, 0, 0, 0, 9].getD i 0

theorem recorded_file_slowly : WellFormedFile slowWritev keptHeader 0 twoBatches := by
  refine (recorded_file_wellFormed_iff slowWritev slowWritev_works keptHeader 0 twoBatches
    twoBatches_proper).mpr ?_
  obtain ⟨calls, next, h⟩ := slowWritev_resumes.takes slowWritev_works 0 (9 + recordsSize [[1, 2], [3]])
  obtain ⟨calls', next', h'⟩ := slowWritev_resumes.takes slowWritev_works next (recordsSize [[4]])
  refine ⟨_, _, calls, next, rfl, h, ?_, .cons h' (.nil next')⟩
  change readAt (held [0x46, 0x4c, 0x56, 1, 0xa0, 0, 0, 0, 9]) calls = _
  exact readAt_held (by rw [h.length]; decide)

/-- Memory that is used again at once: the file begins with what is there now. -/
theorem recorded_header_lost : slowWritev.Works ∧ (∀ b ∈ twoBatches, b.Proper) ∧
    ¬ WellFormedFile slowWritev (fun _ _ ↦ 0) 0 twoBatches := by
  refine ⟨slowWritev_works, twoBatches_proper, ?_⟩
  rintro ⟨fuel, r, b, ho, hb, hfile⟩
  have hrun : record slowWritev (fun _ _ ↦ 0) 100 {} twoBatches =
      some (.ok ([true, true], ⟨true, 1, 1, 0, 16,
        [0, 0, 0, 0, 0, 0, 0, 0, 0, 0, 0, 0, 0, 1, 2, 0, 0, 0, 2, 3, 0, 0, 0, 1, 4], 49⟩)) := rfl
  have hfirst := record_mono twoBatches hrun fuel
  have hsecond := record_mono twoBatches ho 100
  rw [Nat.add_comm, hsecond] at hfirst
  cases hfirst
  cases hb
  cases hfile

end Recorder

end MmsServer.Recorder.FlvFile
