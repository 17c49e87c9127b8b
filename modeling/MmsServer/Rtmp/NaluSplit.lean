import MmsServer.Lib.Checked

namespace MmsServer.Rtmp.NaluSplit

open Lib.ByteReader Lib.Checked

/-- The values of `nalu_length_size_` that the bridges accept. -/
inductive NaluLengthSize
  | one
  | two
  | four
deriving DecidableEq

def NaluLengthSize.bytes : NaluLengthSize → ℕ
  | .one => 1
  | .two => 2
  | .four => 4

/-- `nalu_len`, an `int32_t`, from the front of `data`. -/
def naluLen (size : NaluLengthSize) (data : Bytes) : ℤ :=
  match size with
  | .one => fromBE (data.take 1)
  | .two => fromBE (data.take 2)
  | .four => (BitVec.ofNat 32 (fromBE (data.take 4))).toInt

/-- The loop, and the number of bytes it goes over. A view with a negative length
has most of the address space behind `data`. -/
def splitLoop (size : NaluLengthSize) : ℕ → Bytes → Option (Outcome (ℕ × List Bytes))
  | fuel, data =>
    if data = [] then some (.ok (0, []))
    else match fuel with
      | 0 => none
      | fuel + 1 =>
        if data.length < size.bytes then some (.err (-1))
        else
          let n := naluLen size data
          let data := data.drop size.bytes
          if data.length < n then some (.err (-2))
          else if n < 0 then some (.fault .overread)
          else
            (splitLoop size fuel (data.drop n.toNat)).map fun o ↦ do
              let (consumed, nalus) ← o
              return (size.bytes + n.toNat + consumed, data.take n.toNat :: nalus)

def getNalus (size : NaluLengthSize) (data : Bytes) : Option (Outcome (ℕ × List Bytes)) :=
  splitLoop size data.length data

def frame (size : NaluLengthSize) (nalus : List Bytes) : Bytes :=
  (nalus.map fun nalu ↦ putBE size.bytes nalu.length ++ nalu).flatten

structure Frames (size : NaluLengthSize) (nalus : List Bytes) (data : Bytes) : Prop where
  length_lt : ∀ nalu ∈ nalus, nalu.length < 256 ^ size.bytes
  frame_eq : frame size nalus = data

/-- Behind whole NAL units there is a length field of 2³¹ or more. -/
def HugeField (size : NaluLengthSize) (data : Bytes) : Prop :=
  size = .four ∧ ∃ nalus v rest, (∀ nalu ∈ nalus, nalu.length < 2 ^ 31) ∧ 2 ^ 31 ≤ v ∧
    v < 2 ^ 32 ∧ data = frame size nalus ++ (putBE 4 v ++ rest)

/-- The buffer is split into its NAL units, or refused when it has none. -/
def SplitsExactly (size : NaluLengthSize) (data : Bytes) : Prop :=
  (∃ nalus, getNalus size data = some (.ok (data.length, nalus)) ∧ Frames size nalus data) ∨
    (∃ code < 0, getNalus size data = some (.err code)) ∧ ¬ ∃ nalus, Frames size nalus data

section Step

variable {size : NaluLengthSize} {data : Bytes} {fuel : ℕ}

theorem bytes_pos (size : NaluLengthSize) : 0 < size.bytes := by cases size <;> decide

theorem frames_nil (size : NaluLengthSize) : Frames size [] [] := ⟨List.forall_mem_nil _, rfl⟩

theorem frame_cons (nalu : Bytes) (nalus : List Bytes) :
    frame size (nalu :: nalus) = putBE size.bytes nalu.length ++ (nalu ++ frame size nalus) := by
  rw [frame, List.map_cons, List.flatten_cons, List.append_assoc]
  rfl

/-- A field is the length of what follows, except that four bytes have a sign. -/
theorem naluLen_eq (hle : size.bytes ≤ data.length) :
    naluLen size data = fromBE (data.take size.bytes) ∨
      size = .four ∧ 2 ^ 31 ≤ fromBE (data.take size.bytes) ∧ naluLen size data < 0 := by
  have hlt := fromBE_lt (data.take size.bytes)
  rw [List.length_take, Nat.min_eq_left hle] at hlt
  cases size with
  | one => exact .inl rfl
  | two => exact .inl rfl
  | four =>
    have hval : naluLen .four data = (BitVec.ofNat 32 (fromBE (data.take 4))).toInt := rfl
    have hlt : fromBE (data.take 4) < 2 ^ 32 := hlt
    rw [hval, BitVec.toInt_eq_toNat_cond, BitVec.toNat_ofNat, Nat.mod_eq_of_lt hlt]
    by_cases hsmall : fromBE (data.take 4) < 2 ^ 31
    · left
      rw [if_pos (by omega)]
      rfl
    · right
      refine ⟨rfl, Nat.not_lt.mp hsmall, ?_⟩
      rw [if_neg (by omega)]
      omega

theorem field_split (hle : size.bytes ≤ data.length) :
    data = putBE size.bytes (fromBE (data.take size.bytes)) ++ data.drop size.bytes := by
  have hlen : (data.take size.bytes).length = size.bytes := by
    rw [List.length_take, Nat.min_eq_left hle]
  have hput := putBE_fromBE (data.take size.bytes)
  rw [hlen] at hput
  rw [hput, List.take_append_drop]

/-- The length in front of a buffer. -/
theorem field_front (size : NaluLengthSize) {n : ℕ} (hn : n < 256 ^ size.bytes) (tail : Bytes) :
    size.bytes ≤ (putBE size.bytes n ++ tail).length ∧
      fromBE ((putBE size.bytes n ++ tail).take size.bytes) = n ∧
      (putBE size.bytes n ++ tail).drop size.bytes = tail := by
  have hsize := putBE_length size.bytes n
  refine ⟨?_, ?_, List.drop_left' hsize⟩
  · rw [List.length_append, hsize]
    exact Nat.le_add_right _ _
  · rw [List.take_left' hsize, fromBE_putBE, Nat.mod_eq_of_lt hn]

/-- A buffer that begins with a field is framed only with that length in front. -/
theorem Frames.split {nalus : List Bytes} (h : Frames size nalus data) (hne : data ≠ []) :
    size.bytes ≤ data.length ∧ fromBE (data.take size.bytes) ≤ (data.drop size.bytes).length ∧
      ∃ rest, Frames size rest
        ((data.drop size.bytes).drop (fromBE (data.take size.bytes))) := by
  obtain ⟨hlt, rfl⟩ := h
  cases nalus with
  | nil => exact absurd rfl hne
  | cons nalu nalus =>
    obtain ⟨hle, hfield, hdrop⟩ :=
      field_front size (hlt nalu List.mem_cons_self) (nalu ++ frame size nalus)
    rw [frame_cons, hfield, hdrop, List.drop_left]
    refine ⟨hle, by rw [List.length_append]; omega, nalus, ?_, rfl⟩
    exact fun n hn ↦ hlt n (List.mem_cons_of_mem nalu hn)

theorem Frames.cons {rest : List Bytes} (hle : size.bytes ≤ data.length)
    (hn : fromBE (data.take size.bytes) ≤ (data.drop size.bytes).length)
    (h : Frames size rest ((data.drop size.bytes).drop (fromBE (data.take size.bytes)))) :
    Frames size ((data.drop size.bytes).take (fromBE (data.take size.bytes)) :: rest) data := by
  have hlt := fromBE_lt (data.take size.bytes)
  rw [List.length_take, Nat.min_eq_left hle] at hlt
  have hlen : ((data.drop size.bytes).take (fromBE (data.take size.bytes))).length =
      fromBE (data.take size.bytes) := by
    rw [List.length_take, Nat.min_eq_left hn]
  refine ⟨?_, ?_⟩
  · intro n hmem
    obtain rfl | hmem := List.mem_cons.mp hmem
    · omega
    · exact h.length_lt n hmem
  · rw [frame_cons, hlen, h.frame_eq, List.take_append_drop, ← field_split hle]

end Step

section Loop

variable {size : NaluLengthSize} {data : Bytes}

theorem splitLoop_nil (size : NaluLengthSize) (fuel : ℕ) :
    splitLoop size fuel [] = some (.ok (0, [])) := by
  unfold splitLoop
  exact if_pos rfl

/-- One turn over a NAL unit that lies whole in the buffer. -/
theorem splitLoop_step (fuel : ℕ) (hle : size.bytes ≤ data.length)
    (hval : naluLen size data = fromBE (data.take size.bytes))
    (hn : fromBE (data.take size.bytes) ≤ (data.drop size.bytes).length) :
    splitLoop size (fuel + 1) data =
      (splitLoop size fuel ((data.drop size.bytes).drop (fromBE (data.take size.bytes)))).map
        fun o ↦ do
          let (consumed, nalus) ← o
          return (size.bytes + fromBE (data.take size.bytes) + consumed,
            (data.drop size.bytes).take (fromBE (data.take size.bytes)) :: nalus) := by
  have hpos := bytes_pos size
  have hne : data ≠ [] := by
    rintro rfl
    rw [List.length_nil] at hle
    omega
  rw [splitLoop, if_neg hne]
  simp only
  rw [if_neg (by omega), hval, if_neg (by omega), if_neg (by omega), Int.toNat_natCast]

theorem HugeField.cons (hle : size.bytes ≤ data.length)
    (hval : naluLen size data = fromBE (data.take size.bytes))
    (hn : fromBE (data.take size.bytes) ≤ (data.drop size.bytes).length)
    (h : HugeField size ((data.drop size.bytes).drop (fromBE (data.take size.bytes)))) :
    HugeField size data := by
  obtain ⟨rfl, nalus, v, rest, hlt, hv, hv', hdata⟩ := h
  have hlen : ((data.drop NaluLengthSize.four.bytes).take
      (fromBE (data.take NaluLengthSize.four.bytes))).length =
        fromBE (data.take NaluLengthSize.four.bytes) := by
    rw [List.length_take, Nat.min_eq_left hn]
  have hsmall : fromBE (data.take NaluLengthSize.four.bytes) < 2 ^ 31 := by
    have hint : naluLen .four data < 2 ^ 31 :=
      BitVec.toInt_lt (x := BitVec.ofNat 32 (fromBE (data.take 4)))
    omega
  refine ⟨rfl, (data.drop NaluLengthSize.four.bytes).take
    (fromBE (data.take NaluLengthSize.four.bytes)) :: nalus, v, rest, ?_, hv, hv', ?_⟩
  · intro nalu hmem
    obtain rfl | hmem := List.mem_cons.mp hmem
    · rw [hlen]
      exact hsmall
    · exact hlt nalu hmem
  · rw [frame_cons, hlen, List.append_assoc, List.append_assoc, ← hdata, List.take_append_drop,
      ← field_split hle]

theorem splitLoop_negative (fuel : ℕ) (hle : size.bytes ≤ data.length) (hneg : naluLen size data < 0) :
    splitLoop size (fuel + 1) data = some (.fault .overread) := by
  have hpos := bytes_pos size
  have hne : data ≠ [] := by
    rintro rfl
    rw [List.length_nil] at hle
    omega
  rw [splitLoop, if_neg hne]
  simp only
  rw [if_neg (by omega), if_neg (by omega), if_pos hneg]

theorem HugeField.faults (h : HugeField size data) {fuel : ℕ} (hfuel : data.length ≤ fuel) :
    splitLoop size fuel data = some (.fault .overread) := by
  obtain ⟨rfl, nalus, v, rest, hlt, hv, hv', rfl⟩ := h
  have h256 : 256 ^ NaluLengthSize.four.bytes = 2 ^ 32 := by decide
  have hpos := bytes_pos .four
  induction nalus generalizing fuel with
  | nil =>
    have hdata : frame .four [] ++ (putBE 4 v ++ rest) = putBE NaluLengthSize.four.bytes v ++ rest := rfl
    obtain ⟨hle, hfield, -⟩ := field_front .four (n := v) (by omega) rest
    rw [hdata] at hfuel ⊢
    obtain ⟨fuel, rfl⟩ : ∃ n, fuel = n + 1 := ⟨fuel - 1, by omega⟩
    refine splitLoop_negative fuel hle ?_
    have hint : naluLen .four (putBE NaluLengthSize.four.bytes v ++ rest) < 2 ^ 31 :=
      BitVec.toInt_lt (x := BitVec.ofNat 32 (fromBE ((putBE 4 v ++ rest).take 4)))
    obtain heq | ⟨-, -, hneg⟩ := naluLen_eq hle
    · rw [hfield] at heq
      omega
    · exact hneg
  | cons nalu nalus ih =>
    have hsmall := hlt nalu List.mem_cons_self
    obtain ⟨tail, htail⟩ : ∃ tail, tail = frame .four nalus ++ (putBE 4 v ++ rest) := ⟨_, rfl⟩
    have hdata : frame .four (nalu :: nalus) ++ (putBE 4 v ++ rest) =
        putBE NaluLengthSize.four.bytes nalu.length ++ (nalu ++ tail) := by
      rw [frame_cons, htail, List.append_assoc, List.append_assoc]
    obtain ⟨hle, hfield, hdrop⟩ := field_front .four (n := nalu.length) (by omega) (nalu ++ tail)
    rw [hdata] at hfuel ⊢
    rw [List.length_append, putBE_length, List.length_append] at hfuel
    obtain ⟨fuel, rfl⟩ : ∃ n, fuel = n + 1 := ⟨fuel - 1, by omega⟩
    have hval : naluLen .four (putBE NaluLengthSize.four.bytes nalu.length ++ (nalu ++ tail)) =
        fromBE ((putBE NaluLengthSize.four.bytes nalu.length ++ (nalu ++ tail)).take
          NaluLengthSize.four.bytes) := by
      obtain heq | ⟨-, hbig, -⟩ := naluLen_eq hle
      · exact heq
      · rw [hfield] at hbig
        omega
    rw [splitLoop_step fuel hle hval (by rw [hfield, hdrop, List.length_append]; omega), hfield,
      hdrop, List.drop_left, htail, ih (fun n hn ↦ hlt n (List.mem_cons_of_mem nalu hn))
        (by rw [← htail]; omega)]
    rfl

/-- Without such a field the buffer is split when it is framed and refused when it is not. -/
theorem splitLoop_exact {fuel : ℕ} (hfuel : data.length ≤ fuel) (h : ¬ HugeField size data) :
    (∃ nalus, splitLoop size fuel data = some (.ok (data.length, nalus)) ∧
      Frames size nalus data) ∨
    (∃ code < 0, splitLoop size fuel data = some (.err code)) ∧ ¬ ∃ nalus, Frames size nalus data := by
  induction fuel generalizing data with
  | zero =>
    obtain rfl : data = [] := List.eq_nil_of_length_eq_zero (by omega)
    exact .inl ⟨[], splitLoop_nil size 0, frames_nil size⟩
  | succ fuel ih =>
    by_cases hne : data = []
    · subst hne
      exact .inl ⟨[], splitLoop_nil size _, frames_nil size⟩
    · have hpos := bytes_pos size
      by_cases hle : size.bytes ≤ data.length
      · obtain hval | ⟨rfl, hbig, hneg⟩ := naluLen_eq hle
        · by_cases hn : fromBE (data.take size.bytes) ≤ (data.drop size.bytes).length
          · have hshort : ((data.drop size.bytes).drop (fromBE (data.take size.bytes))).length ≤
                fuel := by
              rw [List.length_drop, List.length_drop]
              omega
            rw [splitLoop_step fuel hle hval hn]
            obtain ⟨nalus, hok, hframes⟩ | ⟨⟨code, hcode, herr⟩, hno⟩ :=
              ih hshort fun hh ↦ h (hh.cons hle hval hn)
            · left
              refine ⟨_, ?_, hframes.cons hle hn⟩
              rw [hok, Option.map_some]
              simp only [Outcome.ok_bind, Outcome.pure_eq]
              rw [List.length_drop] at hn
              rw [List.length_drop, List.length_drop]
              congr 3
              omega
            · right
              refine ⟨⟨code, hcode, by rw [herr]; rfl⟩, ?_⟩
              rintro ⟨nalus, hframes⟩
              exact hno (hframes.split hne).2.2
          · right
            refine ⟨⟨-2, by decide, ?_⟩, ?_⟩
            · rw [splitLoop, if_neg hne]
              simp only
              rw [if_neg (by omega), if_pos (by omega)]
            · rintro ⟨nalus, hframes⟩
              exact hn (hframes.split hne).2.1
        · -- the field that is read here is itself a huge one
          have hlt := fromBE_lt (data.take NaluLengthSize.four.bytes)
          rw [List.length_take, Nat.min_eq_left hle] at hlt
          exact absurd ⟨rfl, [], _, _, List.forall_mem_nil _, hbig, hlt, field_split hle⟩ h
      · right
        refine ⟨⟨-1, by decide, ?_⟩, ?_⟩
        · rw [splitLoop, if_neg hne]
          simp only
          rw [if_pos (by omega)]
        · rintro ⟨nalus, hframes⟩
          exact hle (hframes.split hne).1

end Loop

/-- A buffer is split exactly just when no length field of 2³¹ or more is met. -/
theorem getNalus_exact_iff (size : NaluLengthSize) (data : Bytes) :
    SplitsExactly size data ↔ ¬ HugeField size data := by
  constructor
  · intro h hhuge
    have hfault : getNalus size data = some (.fault .overread) := hhuge.faults (Nat.le_refl _)
    obtain ⟨nalus, hok, -⟩ | ⟨⟨code, -, herr⟩, -⟩ := h
    · rw [hfault] at hok
      cases hok
    · rw [hfault] at herr
      cases herr
  · exact splitLoop_exact (Nat.le_refl _)

/-- The length −4 leads back to its own field. -/
theorem minusFour_not_exact : ¬ SplitsExactly .four [0xff, 0xff, 0xff, 0xfc] := by
  have hfault : getNalus .four [0xff, 0xff, 0xff, 0xfc] = some (.fault .overread) := by
    decide +kernel
  rintro (⟨nalus, hok, -⟩ | ⟨⟨code, -, herr⟩, -⟩)
  · rw [hfault] at hok
    cases hok
  · rw [hfault] at herr
    cases herr

end MmsServer.Rtmp.NaluSplit
