import MmsServer.Ts.PesTimestamps

namespace MmsServer.Ts.PesHeader

open Lib.ByteReader Lib.Checked PesTimestamps

section Positions

variable (data : Bytes)

def byteAt (pos : ℤ) : ℕ := (data.getD pos.toNat 0).toNat

def sizeIf (flag : Bool) (n : ℕ) : ℕ := if flag then n else 0

def timestampSize (flags : ℕ) : ℕ := if flags = 2 then 5 else if flags = 3 then 10 else 0

def optionalSize (v2 : ℕ) : ℕ :=
  sizeIf (bit v2 5) 5 + sizeIf (bit v2 4) 3 + sizeIf (bit v2 3) 1 + sizeIf (bit v2 2) 1 +
    sizeIf (bit v2 1) 2

def extensionStart : ℤ :=
  9 + timestampSize (byteAt data 7 / 2 ^ 6 % 4) + optionalSize (byteAt data 7)

def countedEnd (flag : Bool) (width : ℕ) (pos : ℤ) : ℤ :=
  if flag then pos + 1 + signedByte width (byteAt data pos) else pos

/-- The private data are taken to be 128 bytes. -/
def packStart (pos : ℤ) : ℤ := pos + 1 + sizeIf (bit (byteAt data pos) 7) 128

def packEnd (pos : ℤ) : ℤ := countedEnd data (bit (byteAt data pos) 6) 8 (packStart data pos)

def bufferStart (pos : ℤ) : ℤ := packEnd data pos + sizeIf (bit (byteAt data pos) 5) 2

def lastStart (pos : ℤ) : ℤ := bufferStart data pos + sizeIf (bit (byteAt data pos) 4) 2

def extensionEnd (pos : ℤ) : ℤ :=
  countedEnd data (bit (byteAt data pos) 0) 7 (lastStart data pos)

/-- The `n` bytes at `pos` are in the buffer. -/
def Inside (pos : ℤ) (n : ℕ) : Prop := 0 ≤ pos ∧ pos + n ≤ data.length

/-- Each field of the extension at `pos` that is there is read inside the buffer. -/
structure ExtensionFits (pos : ℤ) : Prop where
  privateData : bit (byteAt data pos) 7 = true → Inside data (pos + 1) 128
  packHeader : bit (byteAt data pos) 6 = true →
    Inside data (packStart data pos) 1 ∧ packEnd data pos ≤ data.length
  sequenceCounter : bit (byteAt data pos) 5 = true → Inside data (packEnd data pos) 2
  pStdBuffer : bit (byteAt data pos) 4 = true → Inside data (bufferStart data pos) 2
  extension2 : bit (byteAt data pos) 0 = true →
    Inside data (lastStart data pos) 1 ∧ extensionEnd data pos ≤ data.length

/-- The length of the pack header leads out of the buffer, and a field is read there. -/
structure ExtensionLeadsOut (pos : ℤ) : Prop where
  lengthRead : pos + 2 ≤ data.length
  noPrivateData : bit (byteAt data pos) 7 = false
  packHeader : bit (byteAt data pos) 6 = true
  outside : packEnd data pos < 0
  fieldBehind : bit (byteAt data pos) 5 = true ∨ bit (byteAt data pos) 4 = true ∨
    bit (byteAt data pos) 0 = true

end Positions

section Fields

variable {data : Bytes} {flag : Bool} {n width : ℕ} {pos p : ℤ} {f : Fault}

theorem sizeIf_of (h : flag = true) : sizeIf flag n = n := if_pos h

theorem byteAt_append {pre post : Bytes} {b : UInt8} (hp : pos = pre.length) :
    byteAt (pre ++ b :: post) pos = b.toNat := by
  subst hp
  simp [byteAt]

theorem load_byteAt {m : ℕ} (h : m + 1 ≤ data.length) : load 1 m data = .ok (byteAt data m) := by
  have htake : (data.drop m).take 1 = [data.get ⟨m, h⟩] := by
    rw [List.drop_eq_getElem_cons h]
    rfl
  rw [load_ok h, htake, byteAt, Int.toNat_natCast]
  simp [fromBE, show m < data.length from h]

theorem loadAt_byte (h0 : 0 ≤ pos) (h : pos + 1 ≤ data.length) :
    loadAt data 1 pos = .ok (byteAt data pos) := by
  obtain ⟨m, rfl⟩ := Int.eq_ofNat_of_zero_le h0
  rw [loadAt, if_neg (by omega), Int.toNat_natCast, load_byteAt (by omega)]

theorem loadAt_inside (h0 : 0 ≤ pos) (h : pos + n ≤ data.length) :
    ∃ v, loadAt data n pos = .ok v := by
  rw [loadAt, if_neg (by omega), load_ok (by omega)]
  exact ⟨_, rfl⟩

theorem loadAt_before (h : pos < 0) : loadAt data n pos = .fault .overread := if_pos h

theorem need_err (h : ¬ pos + n ≤ data.length) : need data pos n = .err 0 := if_pos (by omega)

theorem signedByte_bounds (width v : ℕ) :
    -2 ^ width ≤ signedByte (width + 1) v ∧ signedByte (width + 1) v < 2 ^ width := by
  rw [signedByte]
  exact ⟨BitVec.le_toInt _, BitVec.toInt_lt⟩

theorem skipIf_eq_ok : skipIf data flag n pos = .ok p ↔
    (flag = true → Inside data pos n) ∧ p = pos + sizeIf flag n := by
  cases flag with
  | false => simp [skipIf, sizeIf, eq_comm]
  | true =>
    rw [skipIf, if_pos rfl, sizeIf, if_pos rfl, Inside]
    by_cases hn : pos + n ≤ data.length
    · rw [need_ok hn, Outcome.ok_bind]
      by_cases h0 : 0 ≤ pos
      · obtain ⟨v, hv⟩ := loadAt_inside h0 hn
        simp [hv, h0, hn, eq_comm]
      · simp [loadAt_before (show pos < 0 by omega), h0]
    · simp [need_err hn, hn]

theorem skipIf_eq_fault : skipIf data flag n pos = .fault f ↔
    flag = true ∧ pos < 0 ∧ pos + n ≤ data.length ∧ f = .overread := by
  cases flag with
  | false => simp [skipIf]
  | true =>
    rw [skipIf, if_pos rfl]
    by_cases hn : pos + n ≤ data.length
    · rw [need_ok hn, Outcome.ok_bind]
      by_cases h0 : 0 ≤ pos
      · obtain ⟨v, hv⟩ := loadAt_inside h0 hn
        simp [hv, show ¬ pos < 0 by omega]
      · simp [loadAt_before (show pos < 0 by omega), show pos < 0 by omega, hn, eq_comm]
    · simp [need_err hn, hn]

theorem skipCounted_eq_ok : skipCounted data flag width pos = .ok p ↔
    (flag = true → Inside data pos 1 ∧ countedEnd data flag width pos ≤ data.length) ∧
      p = countedEnd data flag width pos := by
  cases flag with
  | false => simp [skipCounted, countedEnd, eq_comm]
  | true =>
    rw [skipCounted, if_pos rfl, countedEnd, if_pos rfl, Inside]
    by_cases hn : pos + (1 : ℕ) ≤ data.length
    · rw [need_ok hn, Outcome.ok_bind]
      by_cases h0 : 0 ≤ pos
      · rw [loadAt_byte h0 (by omega), Outcome.ok_bind, advance]
        by_cases hl : pos + 1 + signedByte width (byteAt data pos) ≤ data.length
        · rw [if_neg (by omega)]
          simp only [h0, hn, hl, Outcome.pure_eq, Outcome.ok.injEq, and_self, true_and,
            forall_const, eq_comm]
        · rw [if_pos (by omega)]
          simp [hl]
      · simp [loadAt_before (show pos < 0 by omega), h0]
    · simp [need_err hn, show ¬ pos + 1 ≤ data.length by omega]

theorem skipCounted_eq_fault : skipCounted data flag width pos = .fault f ↔
    flag = true ∧ pos < 0 ∧ f = .overread := by
  cases flag with
  | false => simp [skipCounted]
  | true =>
    rw [skipCounted, if_pos rfl]
    by_cases h0 : 0 ≤ pos
    · by_cases hn : pos + (1 : ℕ) ≤ data.length
      · rw [need_ok hn, Outcome.ok_bind, loadAt_byte h0 (by omega), Outcome.ok_bind, advance]
        split <;> simp [show ¬ pos < 0 by omega]
      · simp [need_err hn, show ¬ pos < 0 by omega]
    · rw [need_ok (by omega), Outcome.ok_bind, loadAt_before (by omega)]
      simp [show pos < 0 by omega, eq_comm]

theorem skipExtension_none : skipExtension data false pos = .ok pos := rfl

theorem skipExtension_eq_ok (h0 : 0 ≤ pos) : skipExtension data true pos = .ok p ↔
    pos + 1 ≤ data.length ∧ ExtensionFits data pos ∧ p = extensionEnd data pos := by
  by_cases hn : pos + (1 : ℕ) ≤ data.length
  · rw [skipExtension, if_pos rfl, need_ok hn, Outcome.ok_bind, loadAt_byte h0 hn, Outcome.ok_bind]
    simp only [Outcome.bind_eq_ok, skipIf_eq_ok, skipCounted_eq_ok]
    constructor
    · rintro ⟨-, ⟨hpriv, rfl⟩, -, ⟨hpack, rfl⟩, -, ⟨hseq, rfl⟩, -, ⟨hbuf, rfl⟩, hlast, rfl⟩
      exact ⟨hn, ⟨hpriv, hpack, hseq, hbuf, hlast⟩, rfl⟩
    · rintro ⟨-, hfits, rfl⟩
      exact ⟨_, ⟨hfits.privateData, rfl⟩, _, ⟨hfits.packHeader, rfl⟩, _,
        ⟨hfits.sequenceCounter, rfl⟩, _, ⟨hfits.pStdBuffer, rfl⟩, hfits.extension2, rfl⟩
  · rw [skipExtension, if_pos rfl, need_err hn]
    simp [show ¬ pos + 1 ≤ data.length by omega]

/-- Only the length of a pack header without private data in front of it can lead
before the buffer. -/
theorem packEnd_neg (h0 : 0 ≤ pos) (h : packEnd data pos < 0) :
    bit (byteAt data pos) 6 = true ∧ bit (byteAt data pos) 7 = false := by
  rw [packEnd, countedEnd] at h
  split at h
  · next h6 =>
    refine ⟨h6, Bool.eq_false_iff.mpr fun h7 ↦ ?_⟩
    have hlow : -128 ≤ signedByte 8 (byteAt data (packStart data pos)) :=
      (signedByte_bounds 7 _).1
    rw [packStart, sizeIf, if_pos h7] at *
    omega
  · rw [packStart] at h
    omega

theorem skipExtension_eq_fault (h0 : 0 ≤ pos) : skipExtension data true pos = .fault f ↔
    f = .overread ∧ ExtensionLeadsOut data pos := by
  by_cases hn : pos + (1 : ℕ) ≤ data.length
  · rw [skipExtension, if_pos rfl, need_ok hn, Outcome.ok_bind, loadAt_byte h0 hn, Outcome.ok_bind]
    simp only [Outcome.bind_eq_fault, skipIf_eq_ok, skipIf_eq_fault, skipCounted_eq_ok,
      skipCounted_eq_fault]
    constructor
    · rintro (⟨-, hneg, -⟩ | ⟨-, ⟨hpriv, rfl⟩, ⟨-, hneg, -⟩ | ⟨-, ⟨hpack, rfl⟩, hrest⟩⟩)
      · omega
      · omega
      · have hout : packEnd data pos < 0 → (bit (byteAt data pos) 5 = true ∨
            bit (byteAt data pos) 4 = true ∨ bit (byteAt data pos) 0 = true) →
            ExtensionLeadsOut data pos := by
          intro hneg hbehind
          obtain ⟨h6, h7⟩ := packEnd_neg h0 hneg
          obtain ⟨-, hread⟩ := (hpack h6).1
          rw [h7, sizeIf, if_neg Bool.false_ne_true] at hread
          exact ⟨by omega, h7, h6, hneg, hbehind⟩
        obtain ⟨h5, hneg, -, rfl⟩ | ⟨-, ⟨-, rfl⟩, ⟨h4, hneg, -, rfl⟩ | ⟨-, ⟨-, rfl⟩, hlast, hneg, rfl⟩⟩ :=
          hrest
        · exact ⟨rfl, hout hneg (.inl h5)⟩
        · exact ⟨rfl, hout (by rw [packEnd, packStart]; omega) (.inr (.inl h4))⟩
        · exact ⟨rfl, hout (by rw [packEnd, packStart]; omega) (.inr (.inr hlast))⟩
    · rintro ⟨rfl, hread, h7, h6, hneg, hbehind⟩
      have hstart : packStart data pos = pos + 1 := by
        rw [packStart, h7]
        exact Int.add_zero _
      refine .inr ⟨_, ⟨by simp [h7], rfl⟩, .inr ⟨packEnd data pos, ⟨fun _ ↦ ?_, rfl⟩, ?_⟩⟩
      · exact ⟨⟨by omega, by rw [← packStart, hstart]; omega⟩, by rw [← packStart, ← packEnd]; omega⟩
      · by_cases h5 : bit (byteAt data pos) 5 = true
        · exact .inl ⟨h5, hneg, by omega, rfl⟩
        · refine .inr ⟨packEnd data pos, ⟨fun h ↦ absurd h h5, by simp [sizeIf, h5]⟩, ?_⟩
          by_cases h4 : bit (byteAt data pos) 4 = true
          · exact .inl ⟨h4, hneg, by omega, rfl⟩
          · exact .inr ⟨packEnd data pos, ⟨fun h ↦ absurd h h4, by simp [sizeIf, h4]⟩,
              (hbehind.resolve_left h5).resolve_left h4, hneg, rfl⟩
  · rw [skipExtension, if_pos rfl, need_err hn]
    constructor
    · intro h
      cases h
    · rintro ⟨-, hread, -⟩
      omega

theorem skipIf_bind (h0 : 0 ≤ pos) (hle : pos ≤ data.length) (k : ℤ → Outcome ℤ) :
    (skipIf data flag n pos >>= k) =
      if pos + sizeIf flag n ≤ data.length then k (pos + sizeIf flag n) else .err 0 := by
  by_cases h : pos + sizeIf flag n ≤ data.length
  · have hok : skipIf data flag n pos = .ok (pos + sizeIf flag n) := by
      refine skipIf_eq_ok.mpr ⟨fun hf ↦ ⟨h0, ?_⟩, rfl⟩
      rwa [sizeIf, if_pos hf] at h
    rw [hok, if_pos h, Outcome.ok_bind]
  · rw [if_neg h]
    cases flag with
    | false =>
      simp only [sizeIf, Bool.false_eq_true, if_false, Int.natCast_zero, Int.add_zero] at h
      exact absurd hle h
    | true =>
      have hn : ¬ pos + n ≤ data.length := h
      rw [skipIf, if_pos rfl, need_err hn]
      rfl

/-- Fields in front of each other want together what they want. -/
theorem skipIf_then {rest : ℕ} {k : ℤ → Outcome ℤ} {o : Outcome ℤ} (h0 : 0 ≤ pos)
    (hle : pos ≤ data.length)
    (hk : pos + sizeIf flag n ≤ data.length → k (pos + sizeIf flag n) =
      if pos + sizeIf flag n + rest ≤ data.length then o else .err 0) :
    (skipIf data flag n pos >>= k) =
      if pos + (sizeIf flag n + rest : ℕ) ≤ data.length then o else .err 0 := by
  rw [skipIf_bind h0 hle]
  by_cases h : pos + sizeIf flag n ≤ data.length
  · rw [if_pos h, hk h]
    simp only [Int.natCast_add, Int.add_assoc]
  · rw [if_neg h, if_neg (by omega)]

end Fields

section Header

variable {data : Bytes} {v2 length : ℕ} {start pos p : ℤ} {f : Fault}

/-- The stuffing leads to where the header ends, wherever the fields were left. -/
def skipStuffing (data : Bytes) (length : ℕ) (start pos : ℤ) : Outcome ℤ :=
  if length - (pos - start) < 0 then .err (-2) else advance data pos (length - (pos - start))

theorem skipStuffing_eq_ok : skipStuffing data length start pos = .ok p ↔
    pos ≤ start + length ∧ start + length ≤ data.length ∧ p = start + length := by
  rw [skipStuffing, advance]
  split
  · simp [show ¬ pos ≤ start + length by omega]
  · split
    · simp [show ¬ start + length ≤ data.length by omega]
    · rw [Outcome.pure_eq, Outcome.ok.injEq]
      omega

theorem skipStuffing_ne_fault : skipStuffing data length start pos ≠ .fault f := by
  rw [skipStuffing, advance]
  split
  · simp
  · split <;> simp

theorem skipOptional_eq (h0 : 0 ≤ pos) (hle : pos ≤ data.length) :
    skipOptional data v2 length start pos =
      if pos + optionalSize v2 ≤ data.length then
        skipExtension data (bit v2 0) (pos + optionalSize v2) >>= skipStuffing data length start
      else .err 0 := by
  rw [skipOptional, optionalSize]
  simp only [Nat.add_assoc]
  refine skipIf_then h0 hle fun h5 ↦ skipIf_then (by omega) h5 fun h4 ↦
    skipIf_then (by omega) h4 fun h3 ↦ skipIf_then (by omega) h3 fun h2 ↦ ?_
  rw [skipIf_bind (by omega) h2]
  simp only [Int.natCast_add, Int.add_assoc]
  rfl

def fieldsEnd (data : Bytes) (v2 : ℕ) (pos : ℤ) : ℤ :=
  if bit v2 0 then extensionEnd data pos else pos

theorem skipOptional_eq_ok (h0 : 0 ≤ pos) (hle : pos + optionalSize v2 ≤ data.length) :
    skipOptional data v2 length start pos = .ok p ↔
      (bit v2 0 = true → pos + optionalSize v2 + 1 ≤ data.length ∧
        ExtensionFits data (pos + optionalSize v2)) ∧
      fieldsEnd data v2 (pos + optionalSize v2) ≤ start + length ∧
      start + length ≤ data.length ∧ p = start + length := by
  rw [skipOptional_eq h0 (by omega), if_pos hle, Outcome.bind_eq_ok, fieldsEnd]
  cases bit v2 0 with
  | false => simp [skipExtension_none, skipStuffing_eq_ok]
  | true =>
    simp only [skipExtension_eq_ok (show 0 ≤ pos + optionalSize v2 by omega), skipStuffing_eq_ok]
    constructor
    · rintro ⟨_, ⟨hn, hfits, rfl⟩, hrest⟩
      exact ⟨fun _ ↦ ⟨hn, hfits⟩, hrest⟩
    · rintro ⟨hfits, hrest⟩
      obtain ⟨hn, hfits⟩ := hfits trivial
      exact ⟨_, ⟨hn, hfits, rfl⟩, hrest⟩

theorem skipOptional_eq_fault (h0 : 0 ≤ pos) (hle : pos ≤ data.length) :
    skipOptional data v2 length start pos = .fault f ↔
      f = .overread ∧ bit v2 0 = true ∧ ExtensionLeadsOut data (pos + optionalSize v2) := by
  rw [skipOptional_eq h0 hle]
  split
  · rw [Outcome.bind_eq_fault]
    cases bit v2 0 with
    | false => simp [skipExtension_none, skipStuffing_ne_fault]
    | true =>
      simp [skipExtension_eq_fault (show 0 ≤ pos + optionalSize v2 by omega),
        skipStuffing_ne_fault]
  · constructor
    · intro h
      cases h
    · rintro ⟨-, -, hout⟩
      have hread := hout.lengthRead
      omega

/-- The buffer holds the packet that is announced, and the timestamps. -/
structure HeaderStarts (data : Bytes) : Prop where
  codePrefix : data.take 3 = [0, 0, 1]
  whole : 6 + fromBE ((data.drop 4).take 2) ≤ data.length
  timestamps : 9 + timestampSize (byteAt data 7 / 2 ^ 6 % 4) ≤ data.length

theorem not_headerless {v : ℕ} : signedByte 8 v ∉ headerlessStreams := by
  have hlt : signedByte 8 v < 128 := (signedByte_bounds 7 v).2
  simp only [headerlessStreams, List.mem_cons, List.not_mem_nil, or_false, not_or]
  omega

theorem loadTimestamp_inside {pos : ℕ} (h : pos + 5 ≤ data.length) :
    ∃ v, loadTimestamp data pos = .ok v := by
  rw [loadTimestamp, load_ok (by omega), load_ok (by omega), load_ok (by omega)]
  exact ⟨_, rfl⟩

theorem decodeTimestamps_ok {h : PESPacketHeader} {pos : ℕ}
    (hle : pos + timestampSize h.ptsDtsFlags ≤ data.length) :
    ∃ h', decodeTimestamps data h pos = .ok (h', pos + timestampSize h.ptsDtsFlags) := by
  by_cases h2 : h.ptsDtsFlags = 2
  · have hsize : timestampSize h.ptsDtsFlags = 5 := if_pos h2
    rw [hsize] at hle ⊢
    obtain ⟨pts, hpts⟩ := loadTimestamp_inside hle
    exact ⟨_, decodeTimestamps_pts h2 hle hpts⟩
  · by_cases h3 : h.ptsDtsFlags = 3
    · have hsize : timestampSize h.ptsDtsFlags = 10 := by rw [timestampSize, if_neg h2, if_pos h3]
      rw [hsize] at hle ⊢
      obtain ⟨pts, hpts⟩ := @loadTimestamp_inside data pos (by omega)
      obtain ⟨dts, hdts⟩ := @loadTimestamp_inside data (pos + 5) (by omega)
      exact ⟨_, decodeTimestamps_both h3 hle hpts hdts⟩
    · have hsize : timestampSize h.ptsDtsFlags = 0 := by rw [timestampSize, if_neg h2, if_neg h3]
      rw [hsize, decodeTimestamps, if_neg h2, if_neg h3]
      exact ⟨h, rfl⟩

theorem decodeTimestamps_short {h : PESPacketHeader} {pos : ℕ} (hle : pos ≤ data.length)
    (hlt : data.length < pos + timestampSize h.ptsDtsFlags) :
    decodeTimestamps data h pos = .err 0 := by
  rw [timestampSize] at hlt
  rw [decodeTimestamps]
  split at hlt
  · next h2 =>
    rw [if_pos h2, need_err (by omega)]
    rfl
  · next h2 =>
    split at hlt
    · next h3 =>
      rw [if_neg h2, if_pos h3, need_err (by omega)]
      rfl
    · omega

/-- The decoder gets to the fields behind the timestamps. -/
theorem decode_starts (hs : HeaderStarts data) (h : PESPacketHeader) :
    ∃ h', PESPacketHeader.decode data h =
      skipOptional data (byteAt data 7) (byteAt data 8) 9
        (9 + timestampSize (byteAt data 7 / 2 ^ 6 % 4) : ℕ) >>= fun pos ↦ .ok (h', pos) := by
  have hwhole := hs.whole
  have htime := hs.timestamps
  obtain ⟨h', hh'⟩ := @decodeTimestamps_ok data
    { h with
      pesPacketLength := fromBE ((data.drop 4).take 2)
      ptsDtsFlags := byteAt data 7 / 2 ^ 6 % 4
      pesHeaderDataLength := byteAt data 8 } 9 htime
  have hslice : slice 0 3 data = .ok (data.take 3) := slice_ok (by omega)
  refine ⟨h', ?_⟩
  rw [PESPacketHeader.decode, need_ok (by omega), Outcome.ok_bind, hslice, Outcome.ok_bind,
    if_neg (not_not.mpr hs.codePrefix), need_ok (by omega), Outcome.ok_bind,
    load_byteAt (by omega), Outcome.ok_bind, need_ok (by omega), Outcome.ok_bind,
    load_ok (by omega), Outcome.ok_bind, need_ok (by omega), Outcome.ok_bind,
    if_neg not_headerless, need_ok (by omega), Outcome.ok_bind, need_ok (by omega), Outcome.ok_bind,
    load_byteAt (by omega), Outcome.ok_bind, need_ok (by omega), Outcome.ok_bind,
    load_byteAt (by omega), Outcome.ok_bind]
  exact congrArg (· >>= _) hh'

theorem err_of_need {α : Type} {n : ℕ} {k : Unit → Outcome α}
    (hk : pos + n ≤ data.length → ∃ code, k () = .err code) :
    ∃ code, (need data pos n >>= k) = .err code := by
  by_cases hn : pos + n ≤ data.length
  · rw [need_ok hn, Outcome.ok_bind]
    exact hk hn
  · rw [need_err hn]
    exact ⟨0, rfl⟩

theorem decode_short (hs : ¬ HeaderStarts data) (h : PESPacketHeader) :
    ∃ code, PESPacketHeader.decode data h = .err code := by
  rw [PESPacketHeader.decode]
  refine err_of_need fun h3 ↦ ?_
  have hslice : slice 0 3 data = .ok (data.take 3) := slice_ok (by omega)
  rw [hslice, Outcome.ok_bind]
  by_cases hcode : data.take 3 = [0, 0, 1]
  swap
  · rw [if_pos hcode]
    exact ⟨-1, rfl⟩
  rw [if_neg (not_not.mpr hcode)]
  refine err_of_need fun h4 ↦ ?_
  rw [load_byteAt (by omega), Outcome.ok_bind]
  refine err_of_need fun h6 ↦ ?_
  rw [load_ok (by omega), Outcome.ok_bind]
  refine err_of_need fun hwhole ↦ ?_
  rw [if_neg not_headerless]
  refine err_of_need fun h7 ↦ err_of_need fun h8 ↦ ?_
  rw [load_byteAt (by omega), Outcome.ok_bind]
  refine err_of_need fun h9 ↦ ?_
  rw [load_byteAt (by omega), Outcome.ok_bind]
  have htime : ¬ 9 + timestampSize (byteAt data 7 / 2 ^ 6 % 4) ≤ data.length := by
    intro htime
    exact hs ⟨hcode, by omega, htime⟩
  refine ⟨0, ?_⟩
  rw [decodeTimestamps_short (by omega) (Nat.lt_of_not_le htime)]
  rfl

end Header

section Reads

variable {data : Bytes} {p : ℤ} {f : Fault}

structure LeadsOut (data : Bytes) : Prop where
  starts : HeaderStarts data
  extensionFlag : bit (byteAt data 7) 0 = true
  extension : ExtensionLeadsOut data (extensionStart data)

theorem extensionStart_eq : extensionStart data =
    (9 + timestampSize (byteAt data 7 / 2 ^ 6 % 4) : ℕ) + optionalSize (byteAt data 7) := by
  rw [extensionStart, Int.natCast_add]
  rfl

theorem decode_eq_fault (h : PESPacketHeader) :
    PESPacketHeader.decode data h = .fault f ↔ f = .overread ∧ LeadsOut data := by
  by_cases hs : HeaderStarts data
  · obtain ⟨h', hdec⟩ := decode_starts hs h
    have htime : ((9 + timestampSize (byteAt data 7 / 2 ^ 6 % 4) : ℕ) : ℤ) ≤ data.length :=
      Int.ofNat_le.mpr hs.timestamps
    rw [hdec, Outcome.bind_eq_fault, skipOptional_eq_fault (by omega) htime, ← extensionStart_eq]
    constructor
    · rintro (⟨rfl, hflag, hout⟩ | ⟨p, -, hp⟩)
      · exact ⟨rfl, hs, hflag, hout⟩
      · cases hp
    · rintro ⟨rfl, -, hflag, hout⟩
      exact .inl ⟨rfl, hflag, hout⟩
  · obtain ⟨code, hdec⟩ := decode_short hs h
    rw [hdec]
    constructor
    · intro hf
      cases hf
    · rintro ⟨-, hout⟩
      exact absurd hout.starts hs

theorem decode_eq_ok (hs : HeaderStarts data) (hle : extensionStart data ≤ data.length)
    (h : PESPacketHeader) :
    (∃ h', PESPacketHeader.decode data h = .ok (h', p)) ↔
      (bit (byteAt data 7) 0 = true → extensionStart data + 1 ≤ data.length ∧
        ExtensionFits data (extensionStart data)) ∧
      fieldsEnd data (byteAt data 7) (extensionStart data) ≤ 9 + byteAt data 8 ∧
      (9 + byteAt data 8 : ℤ) ≤ data.length ∧ p = 9 + byteAt data 8 := by
  obtain ⟨h', hdec⟩ := decode_starts hs h
  rw [extensionStart_eq] at hle ⊢
  rw [hdec, ← skipOptional_eq_ok (by omega) hle]
  constructor
  · rintro ⟨h'', hok⟩
    obtain ⟨q, hq, hok⟩ := Outcome.bind_eq_ok.mp hok
    cases hok
    exact hq
  · intro hq
    exact ⟨h', by rw [hq, Outcome.ok_bind]⟩

end Reads

end MmsServer.Ts.PesHeader
