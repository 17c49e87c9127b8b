import MmsServer.Base.BitStream

namespace MmsServer.Base.BitFields

open Lib.ByteReader Lib.Checked BitStream

/-- A number that is written with `width` bits and read back into a variable of
`type` bits. -/
structure BitField where
  width : ℕ
  value : ℕ
  type : ℕ
  width_pos : 0 < width
  width_le : width ≤ 64
  type_le : width ≤ type
  value_lt : value < 2 ^ width

def writeFields (data : Bytes) (pos : ℕ) : List BitField → Outcome Bytes
  | [] => return data
  | f :: fs => do
    let data ← writeBits data f.width pos f.value
    writeFields data (pos + f.width) fs

def readFields (data : Bytes) (pos : ℕ) : List BitField → Outcome (List ℕ)
  | [] => return []
  | f :: fs => do
    let v ← readU f.type data f.width pos 0
    let vs ← readFields data (pos + f.width) fs
    return v :: vs

def totalWidth (fs : List BitField) : ℕ := (fs.map BitField.width).sum

def Fits (data : Bytes) (pos : ℕ) (fs : List BitField) : Prop :=
  fs = [] ∨ pos + totalWidth fs ≤ 8 * data.length

/-- Fields that fit are read back, and the bits around them stay; with others both
routines fail. -/
structure RoundTrips (data : Bytes) (pos : ℕ) (fs : List BitField) : Prop where
  readBack : Fits data pos fs → ∃ data', writeFields data pos fs = .ok data' ∧
    readFields data' pos fs = .ok (fs.map BitField.value) ∧
    ∀ i, i < pos ∨ pos + totalWidth fs ≤ i → bitAt data' i = bitAt data i
  refused : ¬ Fits data pos fs → (∃ code, writeFields data pos fs = .err code) ∧
    ∃ code, readFields data pos fs = .err code

/-- Where a 0 is written there is one already. -/
def NoStaleOnes (data : Bytes) (pos : ℕ) : List BitField → Prop
  | [] => True
  | f :: fs => field data pos f.width ||| f.value = f.value ∧ NoStaleOnes data (pos + f.width) fs

/-- The fields as they are when the values have been written over them. -/
def merged (data : Bytes) (pos : ℕ) : List BitField → List ℕ
  | [] => []
  | f :: fs => (field data pos f.width ||| f.value) :: merged data (pos + f.width) fs

variable {data data' : Bytes} {pos : ℕ} {fs : List BitField}

theorem totalWidth_cons (f : BitField) (fs : List BitField) :
    totalWidth (f :: fs) = f.width + totalWidth fs := by
  rw [totalWidth, List.map_cons, List.sum_cons]
  rfl

section Fit

/-- Bits that no field covers are the same in both buffers. -/
def SameOutside (data data' : Bytes) (pos n : ℕ) : Prop :=
  data'.length = data.length ∧ ∀ q m, q + m ≤ 8 * data.length → q + m ≤ pos ∨ pos + n ≤ q →
    field data' q m = field data q m

theorem bitAt_field {i : ℕ} (h : i < 8 * data.length) :
    bitAt data i = .ok ((field data i 1).testBit 0) := by
  have hsub : 8 * data.length - 1 - i = 8 * data.length - (i + 1) + 0 := by omega
  rw [bitAt_eq h, testBit_field, hsub]
  rfl

theorem SameOutside.bitAt_eq {n i : ℕ} (h : SameOutside data data' pos n)
    (hi : i < pos ∨ pos + n ≤ i) : bitAt data' i = bitAt data i := by
  obtain ⟨hlen, hsame⟩ := h
  by_cases hlt : i < 8 * data.length
  · rw [bitAt_field hlt, bitAt_field (by omega), hsame i 1 (by omega) (by omega)]
  · rw [bitAt, bitAt, List.getElem?_eq_none (by omega), List.getElem?_eq_none (by omega)]

theorem merged_congr (hfit : pos + totalWidth fs ≤ 8 * data.length)
    (hsame : ∀ q m, q + m ≤ 8 * data.length → pos ≤ q → field data' q m = field data q m) :
    merged data' pos fs = merged data pos fs := by
  induction fs generalizing pos with
  | nil => rfl
  | cons f fs ih =>
    rw [totalWidth_cons] at hfit
    have hrest := @ih (pos + f.width) (by omega) fun q m hq hp ↦ hsame q m hq (by omega)
    rw [merged, merged, hrest, hsame pos f.width (by omega) (Nat.le_refl pos)]

theorem merged_eq_iff : merged data pos fs = fs.map BitField.value ↔ NoStaleOnes data pos fs := by
  induction fs generalizing pos with
  | nil => exact iff_of_true rfl trivial
  | cons f fs ih => rw [merged, List.map_cons, List.cons.injEq, ih, NoStaleOnes]

/-- Fields that fit are read back as merged with what was there. -/
theorem writeFields_eq (hfit : pos + totalWidth fs ≤ 8 * data.length) :
    ∃ data', writeFields data pos fs = .ok data' ∧ SameOutside data data' pos (totalWidth fs) ∧
      readFields data' pos fs = .ok (merged data pos fs) := by
  induction fs generalizing data pos with
  | nil => exact ⟨data, rfl, ⟨rfl, fun _ _ _ _ ↦ rfl⟩, rfl⟩
  | cons f fs ih =>
    rw [totalWidth_cons] at hfit ⊢
    obtain ⟨data₁, hwrite, hlen, hfield, hsame⟩ :=
      writeBits_field (show pos + f.width ≤ 8 * data.length by omega) f.value
    obtain ⟨data₂, hwrites, ⟨hlen', hsame'⟩, hreads⟩ :=
      ih (show pos + f.width + totalWidth fs ≤ 8 * data₁.length by omega)
    refine ⟨data₂, by rw [writeFields, hwrite, Outcome.ok_bind, hwrites], ⟨hlen'.trans hlen, ?_⟩, ?_⟩
    · intro q m hq hout
      rw [hsame' q m (by omega) (by omega), hsame q m hq (by omega)]
    · have hfirst : field data₂ pos f.width = field data pos f.width ||| f.value := by
        rw [hsame' pos f.width (by omega) (by omega), hfield, Nat.mod_eq_of_lt f.value_lt]
      have hrest : merged data₁ (pos + f.width) fs = merged data (pos + f.width) fs :=
        merged_congr (by omega) fun q m hq hp ↦ hsame q m hq (.inr hp)
      rw [readFields, readU_field (by omega) f.type_le, Outcome.ok_bind, hreads, Outcome.ok_bind,
        hfirst, hrest, merged]
      rfl

end Fit

section Overrun

theorem ne_nil_of_lt (h : 0 < totalWidth fs) : fs ≠ [] := by
  rintro rfl
  exact absurd h (Nat.lt_irrefl 0)

theorem writeBits_overrun {count v : ℕ} (hc : 0 < count) (h : 8 * data.length < pos + count) :
    writeBits data count pos v = .fault .overrun := by
  induction count generalizing data pos with
  | zero => exact absurd hc (Nat.lt_irrefl 0)
  | succ count ih =>
    by_cases hp : pos < 8 * data.length
    · obtain ⟨data₁, hwrite, hlen, -⟩ := writeOneBit_eq hp (v.testBit count)
      rw [writeBits, hwrite, Outcome.ok_bind, ih (by omega) (by omega)]
    · have hwrite : writeOneBit data pos (v.testBit count) = .fault .overrun := by
        rw [writeOneBit, List.getElem?_eq_none (by omega)]
      rw [writeBits, hwrite, Outcome.fault_bind]

/-- The length of the stream is not looked at. -/
theorem writeFields_overrun (hne : fs ≠ []) (h : 8 * data.length < pos + totalWidth fs) :
    writeFields data pos fs = .fault .overrun := by
  induction fs generalizing data pos with
  | nil => exact absurd rfl hne
  | cons f fs ih =>
    rw [totalWidth_cons] at h
    by_cases hfit : pos + f.width ≤ 8 * data.length
    · obtain ⟨data₁, hwrite, hlen, -⟩ := writeBits_eq hfit f.value
      rw [writeFields, hwrite, Outcome.ok_bind, ih (ne_nil_of_lt (by omega)) (by omega)]
    · rw [writeFields, writeBits_overrun f.width_pos (by omega), Outcome.fault_bind]

end Overrun

/-- A 0 is not written over a 1, and nothing is refused. -/
theorem fields_roundTrip_iff (data : Bytes) (pos : ℕ) (fs : List BitField) :
    RoundTrips data pos fs ↔ Fits data pos fs ∧ NoStaleOnes data pos fs := by
  by_cases hne : fs = []
  · subst hne
    have hsame : RoundTrips data pos [] :=
      ⟨fun _ ↦ ⟨data, rfl, rfl, fun _ _ ↦ rfl⟩, fun h ↦ absurd (.inl rfl) h⟩
    exact iff_of_true hsame ⟨.inl rfl, trivial⟩
  · by_cases hfit : pos + totalWidth fs ≤ 8 * data.length
    · have hfits : Fits data pos fs := .inr hfit
      obtain ⟨data', hwrite, hsame, hread⟩ := writeFields_eq hfit
      constructor
      · intro h
        obtain ⟨data'', hwrite', hread', -⟩ := h.readBack hfits
        rw [hwrite] at hwrite'
        cases hwrite'
        rw [hread] at hread'
        exact ⟨hfits, merged_eq_iff.mp (Outcome.ok.inj hread')⟩
      · rintro ⟨-, hclean⟩
        rw [merged_eq_iff.mpr hclean] at hread
        exact ⟨fun _ ↦ ⟨data', hwrite, hread, fun i hi ↦ hsame.bitAt_eq hi⟩,
          fun h ↦ absurd hfits h⟩
    · have hno : ¬ Fits data pos fs := fun h ↦ h.elim hne hfit
      refine iff_of_false (fun h ↦ ?_) fun h ↦ hno h.1
      obtain ⟨code, hcode⟩ := (h.refused hno).1
      rw [writeFields_overrun hne (by omega)] at hcode
      cases hcode

def zeroBit : BitField := ⟨1, 0, 8, by decide, by decide, by decide, by decide⟩

/-- One bit of 0, written over a 1 and behind the end of the stream. -/
theorem zeroBit_lost : ¬ RoundTrips [0xff] 0 [zeroBit] ∧ ¬ RoundTrips [0xff] 8 [zeroBit] := by
  constructor
  · intro h
    obtain ⟨data', hwrite, hread, -⟩ := h.readBack (.inr (by decide))
    have hval : writeFields [0xff] 0 [zeroBit] = .ok [0xff] := by decide
    rw [hval] at hwrite
    cases hwrite
    have hone : readFields [0xff] 0 [zeroBit] = .ok [1] := by decide
    rw [hone] at hread
    cases hread
  · intro h
    have hno : ¬ Fits [0xff] 8 [zeroBit] := by
      rintro (hnil | hle)
      · cases hnil
      · exact absurd hle (by decide)
    obtain ⟨code, hcode⟩ := (h.refused hno).1
    have hval : writeFields [0xff] 8 [zeroBit] = .fault .overrun := by decide
    rw [hval] at hcode
    cases hcode

end MmsServer.Base.BitFields
