import MmsServer.Amf0.RoundTrip

namespace MmsServer.Amf0.Bounds

open Lib.ByteReader Lib.Checked Data RoundTrip

section Grammar

/-- How many bytes a value without values in it takes. -/
def leafBytes : Amf0Type → Bytes → Option ℕ
  | .number, _ => some 9
  | .boolean, _ => some 2
  | .string, data => some (3 + fromBE ((data.drop 1).take 2))
  | .null, _ => some 1
  | .undefined, _ => some 1
  | .reference, _ => some 3
  | .date, _ => some 11
  | .object, _ => none
  | .ecmaArray, _ => none
  | .strictArray, _ => none

/-- Where in a message a decoder is: at a value, at the properties of an object, or at the
elements of an array with so many of them to come. -/
inductive Place
  | value (type : Amf0Type)
  | properties
  | elements (count : ℕ)

/-- The data begin with what belongs to the place, which takes `n` bytes. Properties and
elements may also end with the data. What a value takes is kept as an `int32_t`. -/
inductive Takes : Place → Bytes → ℕ → Prop
  | leaf {type : Amf0Type} {data : Bytes} {n : ℕ} (h : leafBytes type data = some n)
    (hm : data.head? = some type.marker) (hn : n ≤ data.length) : Takes (.value type) data n
  | object {data : Bytes} {n : ℕ} (h : Takes .properties data n) :
    Takes (.value .object) (Amf0Type.object.marker :: data) (1 + n)
  | strictArray {count : ℕ} {data : Bytes} {n : ℕ} (hc : count < 256 ^ 4)
    (h : Takes (.elements count) data n) :
    Takes (.value .strictArray) (Amf0Type.strictArray.marker :: (putBE 4 count ++ data)) (5 + n)
  | objEnd (rest : Bytes) : Takes .properties (objEnd ++ rest) 3
  | lastProperty : Takes .properties [] 0
  | property {key left : Bytes} {type : Amf0Type} {n m : ℕ} (hkey : key.length < 256 ^ 2)
    (hs : left.head?.bind objectSwitch = some type) (h : Takes (.value type) left n)
    (hn : 0 ≤ (int32 n).toInt) (hrest : Takes .properties (left.drop (int32 n).toNat) m) :
    Takes .properties (putBE 2 key.length ++ (key ++ left))
      (2 + key.length + (int32 n).toNat + m)
  | noElement (data : Bytes) : Takes (.elements 0) data 0
  | lastElement (count : ℕ) : Takes (.elements count) [] 0
  | element {count : ℕ} {data : Bytes} {type : Amf0Type} {n m : ℕ}
    (hs : data.head?.bind strictArraySwitch = some type) (h : Takes (.value type) data n)
    (hn : 0 ≤ (int32 n).toInt) (hrest : Takes (.elements count) (data.drop (int32 n).toNat) m) :
    Takes (.elements (count + 1)) data ((int32 n).toNat + m)

/-- The data end with the key of a property, of an object that is open at their end. -/
inductive CutBehindKey : Place → Bytes → Prop
  | object {data : Bytes} (h : CutBehindKey .properties data) :
    CutBehindKey (.value .object) (Amf0Type.object.marker :: data)
  | strictArray {count : ℕ} {data : Bytes} (hc : count < 256 ^ 4)
    (h : CutBehindKey (.elements count) data) :
    CutBehindKey (.value .strictArray) (Amf0Type.strictArray.marker :: (putBE 4 count ++ data))
  | here {key : Bytes} (hkey : key.length < 256 ^ 2) :
    CutBehindKey .properties (putBE 2 key.length ++ key)
  | inProperty {key left : Bytes} {type : Amf0Type} (hkey : key.length < 256 ^ 2)
    (hs : left.head?.bind objectSwitch = some type) (h : CutBehindKey (.value type) left) :
    CutBehindKey .properties (putBE 2 key.length ++ (key ++ left))
  | behindProperty {key left : Bytes} {type : Amf0Type} {n : ℕ} (hkey : key.length < 256 ^ 2)
    (hs : left.head?.bind objectSwitch = some type) (h : Takes (.value type) left n)
    (hn : 0 ≤ (int32 n).toInt)
    (hrest : CutBehindKey .properties (left.drop (int32 n).toNat)) :
    CutBehindKey .properties (putBE 2 key.length ++ (key ++ left))
  | inElement {count : ℕ} {data : Bytes} {type : Amf0Type}
    (hs : data.head?.bind strictArraySwitch = some type) (h : CutBehindKey (.value type) data) :
    CutBehindKey (.elements (count + 1)) data
  | behindElement {count : ℕ} {data : Bytes} {type : Amf0Type} {n : ℕ}
    (hs : data.head?.bind strictArraySwitch = some type) (h : Takes (.value type) data n)
    (hn : 0 ≤ (int32 n).toInt)
    (hrest : CutBehindKey (.elements count) (data.drop (int32 n).toNat)) :
    CutBehindKey (.elements (count + 1)) data

end Grammar

section Unfold

/-- The classes call each other, and the bound on the nesting is not felt. -/
theorem decode_unfold (type : Amf0Type) (data : Bytes) :
    decode type data = decodeClass decode type data := by
  cases data with
  | nil => cases type <;> rfl
  | cons marker rest =>
    have hagree : Agree (decodeNested (rest.length + 1)) decode rest.length := by
      intro d hd t
      exact (decode_eq_decodeNested (by omega) t).symm
    exact hagree.decodeClass (marker :: rest) le_rfl type

theorem decodeValue_ok {sw : UInt8 → Option Amf0Type} {noClass noValue : ℤ} {left : Bytes}
    {type : Amf0Type} {v : Amf0Data} {r : BitVec 32} (hs : left.head?.bind sw = some type)
    (h : decode type left = .ok (v, r)) (hr : 0 ≤ r.toInt) :
    decodeValue decode sw noClass noValue left = .ok (v, r.toNat) := by
  cases left with
  | nil => cases hs
  | cons marker rest =>
    change sw marker = some type at hs
    simp only [decodeValue, hs, h, Outcome.orReturn_ok, Outcome.ok_bind,
      if_neg (Int.not_lt.mpr hr), Outcome.pure_eq]

theorem decodeValue_fault {sw : UInt8 → Option Amf0Type} {noClass noValue : ℤ} {left : Bytes}
    {type : Amf0Type} (hs : left.head?.bind sw = some type)
    (h : decode type left = .fault .overread) :
    decodeValue decode sw noClass noValue left = .fault .overread := by
  cases left with
  | nil => rfl
  | cons marker rest =>
    change sw marker = some type at hs
    simp only [decodeValue, hs, h, Outcome.orReturn_fault, Outcome.fault_bind]

theorem decodeValue_eq_ok {sw : UInt8 → Option Amf0Type} {noClass noValue : ℤ} {left : Bytes}
    {v : Amf0Data} {c : ℕ} (h : decodeValue decode sw noClass noValue left = .ok (v, c)) :
    ∃ type r, left.head?.bind sw = some type ∧ decode type left = .ok (v, r) ∧ 0 ≤ r.toInt ∧
      c = r.toNat := by
  cases left with
  | nil => cases h
  | cons marker rest =>
    rw [decodeValue] at h
    cases hs : sw marker with
    | none => rw [hs] at h; cases h
    | some type =>
      rw [hs] at h
      obtain ⟨⟨v', r⟩, hv, hres⟩ := Outcome.bind_eq_ok.mp h
      rw [Outcome.orReturn_eq_ok] at hv
      dsimp only at hres
      split at hres
      · cases hres
      · rename_i hr
        cases hres
        exact ⟨type, r, hs, hv, Int.not_lt.mp hr, rfl⟩

theorem decodeValue_eq_fault {sw : UInt8 → Option Amf0Type} {noClass noValue : ℤ} {left : Bytes}
    {f : Fault} (h : decodeValue decode sw noClass noValue left = .fault f) :
    left = [] ∨ ∃ type, left.head?.bind sw = some type ∧ decode type left = .fault f := by
  cases left with
  | nil => exact .inl rfl
  | cons marker rest =>
    rw [decodeValue] at h
    cases hs : sw marker with
    | none => rw [hs] at h; cases h
    | some type =>
      rw [hs] at h
      refine .inr ⟨type, hs, ?_⟩
      dsimp only at h
      cases hd : decode type (marker :: rest) with
      | ok p =>
        rw [hd, Outcome.orReturn_ok, Outcome.ok_bind] at h
        split at h
        · cases h
        · cases h
      | err e => rw [hd] at h; cases h
      | fault f' =>
        rw [hd] at h
        exact congrArg _ (Outcome.fault.inj h)

end Unfold

section Leaves

theorem decodeScalar_leaf (type : Amf0Type) (k : ℕ) (value : Bytes → Amf0Data) (data : Bytes) :
    (data.head? = some type.marker ∧ 1 + k ≤ data.length ∧
      decodeScalar type k value data = .ok (value ((data.drop 1).take k), int32 (1 + k))) ∨
    (¬ (data.head? = some type.marker ∧ 1 + k ≤ data.length) ∧
      ∃ code, decodeScalar type k value data = .err code) := by
  cases data with
  | nil => exact .inr ⟨by simp, -1, rfl⟩
  | cons marker rest =>
    by_cases hm : marker = type.marker
    · by_cases hlen : rest.length < k
      · refine .inr ⟨?_, -3, by rw [decodeScalar, if_neg (not_not.mpr hm), if_pos hlen]⟩
        rw [List.length_cons]
        omega
      · refine .inl ⟨by rw [hm]; rfl, by rw [List.length_cons]; omega, ?_⟩
        rw [decodeScalar, if_neg (not_not.mpr hm), if_neg hlen]
        rfl
    · refine .inr ⟨?_, -2, by rw [decodeScalar, if_pos hm]⟩
      rintro ⟨h, -⟩
      exact hm (Option.some.inj h)

theorem decodeString_leaf {data : Bytes} :
    (data.head? = some Amf0Type.string.marker ∧
      3 + fromBE ((data.drop 1).take 2) ≤ data.length ∧
      ∃ v, decodeString data = .ok (v, int32 (3 + fromBE ((data.drop 1).take 2)))) ∨
    (¬ (data.head? = some Amf0Type.string.marker ∧
        3 + fromBE ((data.drop 1).take 2) ≤ data.length) ∧
      ∃ code, decodeString data = .err code) := by
  cases data with
  | nil => exact .inr ⟨by simp, -1, rfl⟩
  | cons marker rest =>
    rw [List.drop_one, List.tail_cons, List.length_cons]
    by_cases hm : marker = Amf0Type.string.marker
    · by_cases htwo : rest.length < 2
      · exact .inr ⟨by omega, -3, by rw [decodeString, if_neg (not_not.mpr hm), if_pos htwo]⟩
      by_cases hlen : rest.length < 2 + fromBE (rest.take 2)
      · refine .inr ⟨by omega, -4, ?_⟩
        rw [decodeString, if_neg (not_not.mpr hm), if_neg htwo]
        exact if_pos hlen
      · refine .inl ⟨by rw [hm]; rfl, by omega,
          .string ((rest.drop 2).take (fromBE (rest.take 2))), ?_⟩
        rw [decodeString, if_neg (not_not.mpr hm), if_neg htwo]
        exact if_neg hlen
    · refine .inr ⟨?_, -2, by rw [decodeString, if_pos hm]⟩
      rintro ⟨h, -⟩
      exact hm (Option.some.inj h)

theorem decodeDate_leaf {data : Bytes} :
    (data.head? = some Amf0Type.date.marker ∧ 11 ≤ data.length ∧
      ∃ v, decodeDate data = .ok (v, int32 11)) ∨
    (¬ (data.head? = some Amf0Type.date.marker ∧ 11 ≤ data.length) ∧
      ∃ code, decodeDate data = .err code) := by
  cases data with
  | nil => exact .inr ⟨by simp, -1, rfl⟩
  | cons marker rest =>
    rw [List.length_cons]
    by_cases hm : marker = Amf0Type.date.marker
    · by_cases height : rest.length < 8
      · exact .inr ⟨by omega, -3, by rw [decodeDate, if_neg (not_not.mpr hm), if_pos height]⟩
      by_cases hten : rest.length < 10
      · refine .inr ⟨by omega, -4, ?_⟩
        rw [decodeDate, if_neg (not_not.mpr hm), if_neg height, if_pos hten]
      · refine .inl ⟨by rw [hm]; rfl, by omega, .date (BitVec.ofNat 64 (fromBE (rest.take 8)))
          (BitVec.ofNat 16 (fromBE ((rest.drop 8).take 2))), ?_⟩
        rw [decodeDate, if_neg (not_not.mpr hm), if_neg height, if_neg hten]
    · refine .inr ⟨?_, -2, by rw [decodeDate, if_pos hm]⟩
      rintro ⟨h, -⟩
      exact hm (Option.some.inj h)

/-- A value without values in it is read where all of it is there, and refused elsewhere. -/
theorem decode_leaf {type : Amf0Type} {data : Bytes} {n : ℕ} (h : leafBytes type data = some n) :
    (data.head? = some type.marker ∧ n ≤ data.length ∧ ∃ v, decode type data = .ok (v, int32 n)) ∨
    (¬ (data.head? = some type.marker ∧ n ≤ data.length) ∧
      ∃ code, decode type data = .err code) := by
  have hscalar {k : ℕ} {value : Bytes → Amf0Data}
      (hd : decode type data = decodeScalar type k value data) :
      (data.head? = some type.marker ∧ 1 + k ≤ data.length ∧
        ∃ v, decode type data = .ok (v, int32 (1 + k))) ∨
      (¬ (data.head? = some type.marker ∧ 1 + k ≤ data.length) ∧
        ∃ code, decode type data = .err code) := by
    rw [hd]
    rcases decodeScalar_leaf type k value data with
      ⟨hm, hlen, hok⟩ | hno
    · exact .inl ⟨hm, hlen, _, hok⟩
    · exact .inr hno
  have hunfold := decode_unfold type data
  cases type with
  | number =>
    cases h
    rw [decodeClass, decodeNumber] at hunfold
    exact hscalar hunfold
  | boolean =>
    cases h
    rw [decodeClass, decodeBoolean] at hunfold
    exact hscalar hunfold
  | null =>
    cases h
    rw [decodeClass, decodeNull] at hunfold
    exact hscalar hunfold
  | undefined =>
    cases h
    rw [decodeClass, decodeUndefined] at hunfold
    exact hscalar hunfold
  | reference =>
    cases h
    rw [decodeClass, decodeReference] at hunfold
    exact hscalar hunfold
  | string =>
    cases h
    rw [hunfold]
    exact decodeString_leaf
  | date =>
    cases h
    rw [hunfold]
    exact decodeDate_leaf
  | object => cases h
  | ecmaArray => cases h
  | strictArray => cases h

end Leaves

section Key

/-- The bytes of a key and what stands behind them are not the end of an object: no class has
its marker. -/
theorem key_not_objEnd {key left : Bytes} (hkey : key.length < 256 ^ 2)
    (h : key = [] → left.head? ≠ some 9) : (putBE 2 key.length ++ (key ++ left)).take 3 ≠ objEnd := by
  cases key with
  | nil =>
    intro hend
    have hhead := h rfl
    cases left with
    | nil => exact absurd hend (by decide)
    | cons b rest =>
      have hb : b = 9 := by
        have hget := congrArg (fun l : Bytes ↦ l[2]?) hend
        exact Option.some.inj hget
      exact hhead (by rw [hb]; rfl)
  | cons b rest => exact key_not_end (List.cons_ne_nil b rest) (by omega) _

theorem objectSwitch_marker {left : Bytes} {type : Amf0Type}
    (h : left.head?.bind objectSwitch = some type) : left.head? ≠ some 9 := by
  intro hhead
  rw [hhead] at h
  cases h

/-- One turn of the loop, with a key in front of what is left. -/
theorem properties_key {key : Bytes} (left : Bytes) (hkey : key.length < 256 ^ 2)
    (hend : key = [] → left.head? ≠ some 9) (fuel : ℕ) (properties : List (Bytes × Amf0Data))
    (pos : ℕ) :
    decodeProperties decode (fuel + 1) properties (putBE 2 key.length ++ (key ++ left)) pos =
      (decodeValue decode objectSwitch (-5) (-6) left >>= fun p ↦
        decodeProperties decode fuel (insertProperty key p.1 properties) (left.drop p.2)
          (pos + (2 + key.length + p.2))) := by
  have htwo := putBE_length 2 key.length
  have hfrom : fromBE (putBE 2 key.length) = key.length := by
    rw [fromBE_putBE, Nat.mod_eq_of_lt hkey]
  have hleft : (putBE 2 key.length ++ (key ++ left)).drop (2 + key.length) = left := by
    rw [← List.drop_drop, List.drop_left' htwo, List.drop_left]
  have hkeyRead : ((putBE 2 key.length ++ (key ++ left)).drop 2).take key.length = key := by
    rw [List.drop_left' htwo, List.take_left]
  rw [decodeProperties, if_neg (by rw [List.length_append]; omega),
    if_neg (key_not_objEnd hkey hend), if_neg (by rw [List.length_append]; omega)]
  simp only [List.take_left' htwo, hfrom, hleft, hkeyRead]
  rw [if_neg (by simp only [List.length_append]; omega)]

end Key

section Forward

def Decodes : Place → Bytes → ℕ → Prop
  | .value type, data, n => ∃ v, decode type data = .ok (v, int32 n)
  | .properties, data, n => ∀ fuel properties pos, data.length < fuel →
    ∃ ps, decodeProperties decode fuel properties data pos = .ok (ps, pos + n)
  | .elements count, data, n => ∀ datas pos,
    ∃ ds, decodeDatas decode count datas data pos = .ok (ds, pos + n)

/-- What it does with data that end with a key. -/
def Overreads : Place → Bytes → Prop
  | .value type, data => decode type data = .fault .overread
  | .properties, data => ∀ fuel properties pos, data.length < fuel →
    decodeProperties decode fuel properties data pos = .fault .overread
  | .elements count, data => ∀ datas pos,
    decodeDatas decode count datas data pos = .fault .overread

theorem decode_object (data : Bytes) : decode .object (Amf0Type.object.marker :: data) =
    (decodeProperties decode (data.length + 1) [] data 1 >>= fun p ↦
      .ok (.object p.1, int32 p.2)) := by
  rw [decode_unfold, decodeClass, decodeObject, if_neg (by simp)]
  rfl

theorem decode_strictArray {count : ℕ} (hc : count < 256 ^ 4) (data : Bytes) :
    decode .strictArray (Amf0Type.strictArray.marker :: (putBE 4 count ++ data)) =
      (decodeDatas decode count [] data 5 >>= fun p ↦ .ok (.strictArray p.1, int32 p.2)) := by
  have hfour := putBE_length 4 count
  rw [decode_unfold, decodeClass, decodeStrictArray, if_neg (by simp),
    if_neg (by rw [List.length_append]; omega), List.take_left' hfour, List.drop_left' hfour,
    fromBE_putBE, Nat.mod_eq_of_lt hc]
  rfl

theorem key_data_length (key left : Bytes) :
    (putBE 2 key.length ++ (key ++ left)).length = 2 + key.length + left.length := by
  rw [List.length_append, List.length_append, putBE_length, Nat.add_assoc]

theorem Takes.decodes {place : Place} {data : Bytes} {n : ℕ} (h : Takes place data n) :
    Decodes place data n := by
  induction h with
  | leaf h hm hn =>
    rcases decode_leaf h with ⟨-, -, hok⟩ | ⟨hno, -⟩
    · exact hok
    · exact absurd ⟨hm, hn⟩ hno
  | object h ih =>
    obtain ⟨ps, hps⟩ := ih _ [] 1 (Nat.lt_succ_self _)
    exact ⟨.object ps, by rw [decode_object, hps]; rfl⟩
  | strictArray hc h ih =>
    obtain ⟨ds, hds⟩ := ih [] 5
    exact ⟨.strictArray ds, by rw [decode_strictArray hc, hds]; rfl⟩
  | objEnd rest =>
    intro fuel properties pos hfuel
    obtain ⟨fuel, rfl⟩ : ∃ m, fuel = m + 1 := ⟨fuel - 1, by omega⟩
    exact ⟨properties, rfl⟩
  | lastProperty =>
    intro fuel properties pos hfuel
    obtain ⟨fuel, rfl⟩ : ∃ m, fuel = m + 1 := ⟨fuel - 1, by omega⟩
    exact ⟨properties, rfl⟩
  | @property key left type n m hkey hs h hn hrest ih ihrest =>
    intro fuel properties pos hfuel
    rw [key_data_length] at hfuel
    obtain ⟨fuel, rfl⟩ : ∃ m, fuel = m + 1 := ⟨fuel - 1, by omega⟩
    obtain ⟨v, hv⟩ := ih
    have hlen : (left.drop (int32 n).toNat).length ≤ left.length := by
      rw [List.length_drop]
      omega
    obtain ⟨ps, hps⟩ := ihrest fuel (insertProperty key v properties)
      (pos + (2 + key.length + (int32 n).toNat)) (by omega)
    refine ⟨ps, ?_⟩
    rw [properties_key _ hkey (fun _ ↦ objectSwitch_marker hs), decodeValue_ok hs hv hn,
      Outcome.ok_bind, hps, Nat.add_assoc pos]
  | noElement data =>
    intro datas pos
    exact ⟨datas, rfl⟩
  | lastElement count =>
    intro datas pos
    cases count with
    | zero => exact ⟨datas, rfl⟩
    | succ count => exact ⟨datas, rfl⟩
  | @element count data type n m hs h hn hrest ih ihrest =>
    intro datas pos
    obtain ⟨v, hv⟩ := ih
    obtain ⟨ds, hds⟩ := ihrest (datas ++ [v]) (pos + (int32 n).toNat)
    have hne : ¬ data.length = 0 := by
      intro hz
      rw [List.eq_nil_of_length_eq_zero hz] at hs
      cases hs
    refine ⟨ds, ?_⟩
    rw [decodeDatas, if_neg hne, decodeValue_ok hs hv hn, Outcome.ok_bind]
    exact hds.trans (by rw [Nat.add_assoc])

theorem CutBehindKey.overreads {place : Place} {data : Bytes} (h : CutBehindKey place data) :
    Overreads place data := by
  induction h with
  | object h ih =>
    change decode _ _ = _
    rw [decode_object, ih _ [] 1 (Nat.lt_succ_self _)]
    rfl
  | strictArray hc h ih =>
    change decode _ _ = _
    rw [decode_strictArray hc, ih [] 5]
    rfl
  | @here key hkey =>
    intro fuel properties pos hfuel
    obtain ⟨fuel, rfl⟩ : ∃ m, fuel = m + 1 := ⟨fuel - 1, by omega⟩
    have hstep := properties_key [] hkey (fun _ ↦ by simp) fuel properties pos
    rw [List.append_nil] at hstep
    rw [hstep]
    rfl
  | @inProperty key left type hkey hs h ih =>
    intro fuel properties pos hfuel
    obtain ⟨fuel, rfl⟩ : ∃ m, fuel = m + 1 := ⟨fuel - 1, by omega⟩
    rw [properties_key _ hkey (fun _ ↦ objectSwitch_marker hs), decodeValue_fault hs ih,
      Outcome.fault_bind]
  | @behindProperty key left type n hkey hs h hn hrest ih =>
    intro fuel properties pos hfuel
    rw [key_data_length] at hfuel
    obtain ⟨fuel, rfl⟩ : ∃ m, fuel = m + 1 := ⟨fuel - 1, by omega⟩
    obtain ⟨v, hv⟩ := h.decodes
    have hlen : (left.drop (int32 n).toNat).length ≤ left.length := by
      rw [List.length_drop]
      omega
    rw [properties_key _ hkey (fun _ ↦ objectSwitch_marker hs), decodeValue_ok hs hv hn,
      Outcome.ok_bind, ih fuel _ _ (by omega)]
  | @inElement count data type hs h ih =>
    intro datas pos
    have hne : ¬ data.length = 0 := by
      intro hz
      rw [List.eq_nil_of_length_eq_zero hz] at hs
      cases hs
    rw [decodeDatas, if_neg hne, decodeValue_fault hs ih, Outcome.fault_bind]
  | @behindElement count data type n hs h hn hrest ih =>
    intro datas pos
    have hne : ¬ data.length = 0 := by
      intro hz
      rw [List.eq_nil_of_length_eq_zero hz] at hs
      cases hs
    obtain ⟨v, hv⟩ := h.decodes
    rw [decodeDatas, if_neg hne, decodeValue_ok hs hv hn, Outcome.ok_bind]
    exact ih _ _

end Forward

section Backward

/-- What the result of a decoder says about its data. -/
structure Tells {α : Type} (place : Place) (data : Bytes) (o : Outcome (α × ℕ)) (pos : ℕ) :
    Prop where
  takes : ∀ a p, o = .ok (a, p) → ∃ n ≤ data.length, p = pos + n ∧ Takes place data n
  cut : ∀ f, o = .fault f → CutBehindKey place data

structure TellsValue (type : Amf0Type) (data : Bytes) : Prop where
  takes : ∀ v r, decode type data = .ok (v, r) →
    ∃ n ≤ data.length, r = int32 n ∧ Takes (.value type) data n
  cut : ∀ f, decode type data = .fault f → CutBehindKey (.value type) data

theorem Tells.of_err {α : Type} {place : Place} {data : Bytes} {o : Outcome (α × ℕ)} {pos : ℕ}
    {code : ℤ} (h : o = .err code) : Tells place data o pos := by
  subst h
  refine ⟨fun a p h ↦ ?_, fun f h ↦ ?_⟩
  · cases h
  · cases h

theorem TellsValue.of_err {type : Amf0Type} {data : Bytes} {code : ℤ}
    (h : decode type data = .err code) : TellsValue type data := by
  refine ⟨fun v r hd ↦ ?_, fun f hd ↦ ?_⟩
  · rw [h] at hd
    cases hd
  · rw [h] at hd
    cases hd

theorem objectSwitch_ne {b : UInt8} {type : Amf0Type} (h : objectSwitch b = some type) :
    type ≠ .ecmaArray := by
  rintro rfl
  exact absurd (List.mem_of_find?_eq_some h) (by decide)

theorem strictArraySwitch_ne {b : UInt8} {type : Amf0Type} (h : strictArraySwitch b = some type) :
    type ≠ .ecmaArray := by
  rintro rfl
  exact absurd (List.mem_of_find?_eq_some h) (by decide)

theorem switched_ne {sw : UInt8 → Option Amf0Type} {left : Bytes} {type : Amf0Type}
    (hsw : ∀ b t, sw b = some t → t ≠ .ecmaArray) (h : left.head?.bind sw = some type) :
    type ≠ .ecmaArray := by
  obtain ⟨b, -, hb⟩ := Option.bind_eq_some_iff.mp h
  exact hsw b type hb

/-- Data that hold a length and as many bytes are a key and what is left behind it. -/
theorem key_split {data : Bytes} (h : 2 + fromBE (data.take 2) ≤ data.length) :
    ∃ key left, key.length < 256 ^ 2 ∧ key = (data.drop 2).take (fromBE (data.take 2)) ∧
      key.length = fromBE (data.take 2) ∧ left = data.drop (2 + fromBE (data.take 2)) ∧
      data = putBE 2 key.length ++ (key ++ left) := by
  have htwo : (data.take 2).length = 2 := by
    rw [List.length_take]
    omega
  have hlt := fromBE_lt (data.take 2)
  have hput := putBE_fromBE (data.take 2)
  have hkey : ((data.drop 2).take (fromBE (data.take 2))).length = fromBE (data.take 2) := by
    rw [List.length_take, List.length_drop]
    omega
  rw [htwo] at hlt hput
  refine ⟨_, _, by rw [hkey]; exact hlt, rfl, hkey, rfl, ?_⟩
  rw [hkey, hput, ← List.drop_drop, List.take_append_drop, List.take_append_drop]

/-- What the loops know of the values they call. -/
def ValuesTell (N : ℕ) : Prop :=
  ∀ d : Bytes, d.length ≤ N → ∀ type ≠ .ecmaArray, TellsValue type d

theorem properties_tell {N : ℕ} (hN : ValuesTell N) (fuel : ℕ) (properties : List (Bytes × Amf0Data))
    (data : Bytes) (pos : ℕ) (hdata : data.length ≤ N) :
    Tells .properties data (decodeProperties decode fuel properties data pos) pos := by
  induction fuel generalizing properties data pos with
  | zero => exact .of_err rfl
  | succ fuel ih =>
    by_cases hnil : data.length = 0
    · obtain rfl := List.eq_nil_of_length_eq_zero hnil
      refine ⟨fun a p h ↦ ?_, fun f h ↦ ?_⟩
      · cases h
        exact ⟨0, le_rfl, rfl, .lastProperty⟩
      · cases h
    by_cases hend : data.take 3 = objEnd
    · rw [decodeProperties, if_neg hnil, if_pos hend]
      refine ⟨fun a p h ↦ ?_, fun f h ↦ ?_⟩
      · cases h
        have hlen := congrArg List.length hend
        rw [List.length_take] at hlen
        have htakes := Takes.objEnd (data.drop 3)
        rw [← hend, List.take_append_drop] at htakes
        exact ⟨3, by simp only [objEnd, List.length_cons, List.length_nil] at hlen; omega, rfl, htakes⟩
      · cases h
    by_cases htwo : data.length < 2
    · rw [decodeProperties, if_neg hnil, if_neg hend, if_pos htwo]
      exact .of_err rfl
    by_cases hkeyLen : data.length < 2 + fromBE (data.take 2)
    · rw [decodeProperties, if_neg hnil, if_neg hend, if_neg htwo]
      simp only [if_pos hkeyLen]
      exact .of_err rfl
    rw [decodeProperties, if_neg hnil, if_neg hend, if_neg htwo]
    simp only [if_neg hkeyLen]
    obtain ⟨key, left, hkey, hkeyRead, hlen, hleft, hsplit⟩ := key_split (Nat.le_of_not_lt hkeyLen)
    rw [← hkeyRead, ← hlen, hlen, ← hleft, ← hlen]
    have hall := congrArg List.length hsplit
    rw [key_data_length] at hall
    have hrest (c : ℕ) : (left.drop c).length = left.length - c := List.length_drop
    refine ⟨fun a p h ↦ ?_, fun f h ↦ ?_⟩
    · obtain ⟨⟨v, c⟩, hv, h⟩ := Outcome.bind_eq_ok.mp h
      obtain ⟨type, r, hs, hd, hr, rfl⟩ := decodeValue_eq_ok hv
      have htype := switched_ne (fun _ _ ↦ objectSwitch_ne) hs
      obtain ⟨n, hn, rfl, htakes⟩ := (hN left (by omega) type htype).takes v r hd
      obtain ⟨m, hm, rfl, hmore⟩ := (ih _ _ _ (by rw [hrest]; omega)).takes a p h
      have hc : (int32 n).toNat ≤ n := by
        rw [int32, BitVec.toNat_ofNat]
        exact Nat.mod_le n _
      rw [hrest] at hm
      rw [hsplit]
      refine ⟨2 + key.length + (int32 n).toNat + m, ?_, by omega, .property hkey hs htakes hr hmore⟩
      rw [key_data_length]
      omega
    · rw [hsplit]
      rcases Outcome.bind_eq_fault.mp h with hv | ⟨⟨v, c⟩, hv, h⟩
      · rcases decodeValue_eq_fault hv with rfl | ⟨type, hs, hd⟩
        · rw [List.append_nil]
          exact .here hkey
        · have htype := switched_ne (fun _ _ ↦ objectSwitch_ne) hs
          exact .inProperty hkey hs ((hN left (by omega) type htype).cut f hd)
      · obtain ⟨type, r, hs, hd, hr, rfl⟩ := decodeValue_eq_ok hv
        have htype := switched_ne (fun _ _ ↦ objectSwitch_ne) hs
        obtain ⟨n, hn, rfl, htakes⟩ := (hN left (by omega) type htype).takes v r hd
        exact .behindProperty hkey hs htakes hr ((ih _ _ _ (by rw [hrest]; omega)).cut f h)

theorem elements_tell {N : ℕ} (hN : ValuesTell N) (count : ℕ) (datas : List Amf0Data) (data : Bytes) (pos : ℕ)
    (hdata : data.length ≤ N) :
    Tells (.elements count) data (decodeDatas decode count datas data pos) pos := by
  induction count generalizing datas data pos with
  | zero =>
    refine ⟨fun a p h ↦ ?_, fun f h ↦ ?_⟩
    · cases h
      exact ⟨0, Nat.zero_le _, rfl, .noElement data⟩
    · cases h
  | succ count ih =>
    by_cases hnil : data.length = 0
    · obtain rfl := List.eq_nil_of_length_eq_zero hnil
      refine ⟨fun a p h ↦ ?_, fun f h ↦ ?_⟩
      · cases h
        exact ⟨0, le_rfl, rfl, .lastElement _⟩
      · cases h
    rw [decodeDatas, if_neg hnil]
    have hrest (c : ℕ) : (data.drop c).length = data.length - c := List.length_drop
    refine ⟨fun a p h ↦ ?_, fun f h ↦ ?_⟩
    · obtain ⟨⟨v, c⟩, hv, h⟩ := Outcome.bind_eq_ok.mp h
      obtain ⟨type, r, hs, hd, hr, rfl⟩ := decodeValue_eq_ok hv
      have htype := switched_ne (fun _ _ ↦ strictArraySwitch_ne) hs
      obtain ⟨n, hn, rfl, htakes⟩ := (hN data hdata type htype).takes v r hd
      obtain ⟨m, hm, rfl, hmore⟩ := (ih _ _ _ (by rw [hrest]; omega)).takes a p h
      have hc : (int32 n).toNat ≤ n := by
        rw [int32, BitVec.toNat_ofNat]
        exact Nat.mod_le n _
      rw [hrest] at hm
      exact ⟨(int32 n).toNat + m, by omega, by omega, .element hs htakes hr hmore⟩
    · rcases Outcome.bind_eq_fault.mp h with hv | ⟨⟨v, c⟩, hv, h⟩
      · rcases decodeValue_eq_fault hv with rfl | ⟨type, hs, hd⟩
        · exact absurd rfl hnil
        · have htype := switched_ne (fun _ _ ↦ strictArraySwitch_ne) hs
          exact .inElement hs ((hN data hdata type htype).cut f hd)
      · obtain ⟨type, r, hs, hd, hr, rfl⟩ := decodeValue_eq_ok hv
        have htype := switched_ne (fun _ _ ↦ strictArraySwitch_ne) hs
        obtain ⟨n, hn, rfl, htakes⟩ := (hN data hdata type htype).takes v r hd
        exact .behindElement hs htakes hr ((ih _ _ _ (by rw [hrest]; omega)).cut f h)

theorem object_tells {marker : UInt8} {rest : Bytes} (hN : ValuesTell rest.length) :
    TellsValue .object (marker :: rest) := by
  by_cases hm : marker = Amf0Type.object.marker
  · subst hm
    have htell := properties_tell hN (rest.length + 1) [] rest 1 le_rfl
    refine ⟨fun v r h ↦ ?_, fun f h ↦ ?_⟩
    · rw [decode_object] at h
      obtain ⟨⟨ps, p⟩, hps, h⟩ := Outcome.bind_eq_ok.mp h
      cases h
      obtain ⟨n, hn, rfl, htakes⟩ := htell.takes ps p hps
      exact ⟨1 + n, by rw [List.length_cons]; omega, rfl, .object htakes⟩
    · rw [decode_object] at h
      rcases Outcome.bind_eq_fault.mp h with hps | ⟨p, -, h⟩
      · exact .object (htell.cut f hps)
      · cases h
  · have herr : decode .object (marker :: rest) = .err (-2) := by
      rw [decode_unfold, decodeClass, decodeObject, if_pos hm]
    exact .of_err herr

theorem strictArray_tells {marker : UInt8} {rest : Bytes} (hN : ValuesTell rest.length) :
    TellsValue .strictArray (marker :: rest) := by
  by_cases hm : marker = Amf0Type.strictArray.marker
  · subst hm
    by_cases hfour : rest.length < 4
    · have herr : decode .strictArray (Amf0Type.strictArray.marker :: rest) = .err (-3) := by
        rw [decode_unfold, decodeClass, decodeStrictArray, if_neg (by simp), if_pos hfour]
      exact .of_err herr
    have hlen : (rest.take 4).length = 4 := by
      rw [List.length_take]
      omega
    have hc := fromBE_lt (rest.take 4)
    have hput := putBE_fromBE (rest.take 4)
    rw [hlen] at hc hput
    have hrest : rest = putBE 4 (fromBE (rest.take 4)) ++ rest.drop 4 := by
      rw [hput, List.take_append_drop]
    have htell := elements_tell hN (fromBE (rest.take 4)) [] (rest.drop 4) 5
      (by rw [List.length_drop]; omega)
    rw [hrest]
    refine ⟨fun v r h ↦ ?_, fun f h ↦ ?_⟩
    · rw [decode_strictArray hc] at h
      obtain ⟨⟨ds, p⟩, hds, h⟩ := Outcome.bind_eq_ok.mp h
      cases h
      obtain ⟨n, hn, rfl, htakes⟩ := htell.takes ds p hds
      refine ⟨5 + n, ?_, rfl, .strictArray hc htakes⟩
      rw [List.length_cons, List.length_append, putBE_length]
      omega
    · rw [decode_strictArray hc] at h
      rcases Outcome.bind_eq_fault.mp h with hds | ⟨p, -, h⟩
      · exact .strictArray hc (htell.cut f hds)
      · cases h
  · have herr : decode .strictArray (marker :: rest) = .err (-2) := by
      rw [decode_unfold, decodeClass, decodeStrictArray, if_pos hm]
    exact .of_err herr

theorem leaf_tells {type : Amf0Type} {data : Bytes} {n : ℕ} (h : leafBytes type data = some n) :
    TellsValue type data := by
  rcases decode_leaf h with ⟨hm, hn, v', hok⟩ | ⟨-, code, herr⟩
  · refine ⟨fun v r hd ↦ ?_, fun f hd ↦ ?_⟩
    · rw [hok] at hd
      cases hd
      exact ⟨n, hn, rfl, .leaf h hm hn⟩
    · rw [hok] at hd
      cases hd
  · exact .of_err herr

theorem nil_tells (type : Amf0Type) : TellsValue type [] := by
  have herr : decode type [] = .err (-1) := by cases type <;> rfl
  exact .of_err herr

/-- A value calls decoders for shorter values only. -/
theorem valuesTell (N : ℕ) : ValuesTell N := by
  induction N with
  | zero =>
    intro d hd type _
    rw [List.eq_nil_of_length_eq_zero (Nat.le_zero.mp hd)]
    exact nil_tells type
  | succ N ih =>
    intro d hd type ht
    cases d with
    | nil => exact nil_tells type
    | cons marker rest =>
      have hrest : ValuesTell rest.length := by
        intro d' hd'
        exact ih d' (hd'.trans (Nat.le_of_succ_le_succ hd))
      cases type with
      | number => exact leaf_tells (n := 9) rfl
      | boolean => exact leaf_tells (n := 2) rfl
      | string => exact leaf_tells rfl
      | object => exact object_tells hrest
      | null => exact leaf_tells (n := 1) rfl
      | undefined => exact leaf_tells (n := 1) rfl
      | reference => exact leaf_tells (n := 3) rfl
      | ecmaArray => exact absurd rfl ht
      | strictArray => exact strictArray_tells hrest
      | date => exact leaf_tells (n := 11) rfl

end Backward

section Bounds

/-- The object decoder with other bounds on its nesting and on the turns of its loop. -/
def decodeObjectWith (depth fuel : ℕ) : Bytes → Decoded
  | [] => .err (-1)
  | marker :: data =>
    if marker ≠ Amf0Type.object.marker then .err (-2)
    else do
      let (properties, pos) ← decodeProperties (decodeNested depth) fuel [] data 1
      return (.object properties, int32 pos)

/-- Greater bounds change nothing: the decoder comes to its end before them. -/
def Terminates (data : Bytes) : Prop :=
  ∀ depth fuel, data.length ≤ depth → data.length ≤ fuel →
    decodeObjectWith depth fuel data = decode .object data

/-- The decoder ends, reads nothing outside of the buffer, and consumes no more than the
buffer holds. -/
def StaysInside (data : Bytes) : Prop :=
  Terminates data ∧ (∀ f, decode .object data ≠ .fault f) ∧
    ∀ v r, decode .object data = .ok (v, r) → 0 < r.toInt → r.toInt ≤ data.length

/-- A turn of the loop takes two bytes at least. -/
theorem properties_fuel {fuel fuel' : ℕ} {data : Bytes} (h : data.length < fuel)
    (h' : data.length < fuel') (properties : List (Bytes × Amf0Data)) (pos : ℕ) :
    decodeProperties decode fuel properties data pos =
      decodeProperties decode fuel' properties data pos := by
  induction fuel generalizing fuel' properties data pos with
  | zero => exact absurd h (Nat.not_lt_zero _)
  | succ fuel ih =>
    obtain ⟨fuel', rfl⟩ : ∃ m, fuel' = m + 1 := ⟨fuel' - 1, by omega⟩
    rw [decodeProperties, decodeProperties]
    by_cases hnil : data.length = 0
    · rw [if_pos hnil, if_pos hnil]
    have hrest (n c : ℕ) : ((data.drop (2 + n)).drop c).length ≤ data.length - 2 := by
      simp only [List.length_drop]
      omega
    have hturn (n : ℕ) (p : Amf0Data × ℕ) (ps : List (Bytes × Amf0Data)) (pos : ℕ) :
        decodeProperties decode fuel ps ((data.drop (2 + n)).drop p.2) pos =
          decodeProperties decode fuel' ps ((data.drop (2 + n)).drop p.2) pos := by
      have hlen := hrest n p.2
      exact ih (by omega) (by omega) ps pos
    simp only [hturn]

theorem terminates (data : Bytes) : Terminates data := by
  intro depth fuel hdepth hfuel
  cases data with
  | nil => rfl
  | cons marker rest =>
    rw [List.length_cons] at hdepth hfuel
    have hagree : Agree (decodeNested depth) decode rest.length := by
      intro d hd t
      exact (decode_eq_decodeNested (by omega) t).symm
    rw [decode_unfold, decodeClass, decodeObject, decodeObjectWith, hagree.properties,
      properties_fuel (by omega) (Nat.lt_succ_self rest.length)]

theorem toInt_le_toNat (r : BitVec 32) : r.toInt ≤ r.toNat := by
  rw [BitVec.toInt_eq_toNat_cond]
  split
  · exact le_rfl
  · omega

end Bounds

/-- The decoder of an object stays inside a buffer if and only if the buffer does not end with
a key of the object or of an object in it. -/
theorem amf0Object_decode_staysInside_iff (data : Bytes) :
    StaysInside data ↔ ¬ CutBehindKey (.value .object) data := by
  have htell := valuesTell data.length data le_rfl .object (by decide)
  constructor
  · rintro ⟨-, hfault, -⟩ hcut
    exact hfault .overread hcut.overreads
  · intro hcut
    refine ⟨terminates data, fun f hf ↦ hcut (htell.cut f hf), fun v r hok _ ↦ ?_⟩
    obtain ⟨n, hn, rfl, -⟩ := htell.takes v r hok
    have hle := toInt_le_toNat (int32 n)
    have hmod : (int32 n).toNat ≤ n := by
      rw [int32, BitVec.toNat_ofNat]
      exact Nat.mod_le n _
    omega

def lastKey : Bytes := [0x03, 0x00, 0x01, 0x61]

theorem lastKey_leaves : ¬ StaysInside lastKey ∧ decode .object lastKey = .fault .overread := by
  have hfault : decode .object lastKey = .fault .overread := rfl
  exact ⟨fun h ↦ h.2.1 .overread hfault, hfault⟩

end MmsServer.Amf0.Bounds
