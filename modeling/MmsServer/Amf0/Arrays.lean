import MmsServer.Amf0.RoundTrip

namespace MmsServer.Amf0.Arrays

open Lib.ByteReader Lib.Checked Lib.ByteLayout Data RoundTrip

/-- What an array can hold: plain trees and further arrays. -/
inductive Element : Amf0Data → Prop
  | plain {t : Amf0Data} (h : Plain t) : Element t
  | strictArray (datas : List Amf0Data) (h : ∀ d ∈ datas, Element d) : Element (.strictArray datas)
  | ecmaArray (properties : List (Bytes × Amf0Data)) (hkeys : (properties.map Prod.fst).Nodup)
      (hkey : ∀ p ∈ properties, p.1 ≠ [] ∧ p.1.length ≤ 65535)
      (h : ∀ p ∈ properties, Element p.2) : Element (.ecmaArray properties)

mutual

/-- There are strict arrays only, and where `encode` leaves room for the number
of elements, the buffer holds that number already. -/
def CountsHeld : Amf0Data → Bytes → Prop
  | .strictArray datas, buf =>
    (buf.drop 1).take 4 = putBE 4 datas.length ∧ DatasHeld datas (buf.drop 5)
  | .ecmaArray _, _ => False
  | _, _ => True

def DatasHeld : List Amf0Data → Bytes → Prop
  | [], _ => True
  | data :: datas, buf => CountsHeld data buf ∧ DatasHeld datas (buf.drop data.size)

end

theorem Plain.held {t : Amf0Data} (h : Plain t) (buf : Bytes) : CountsHeld t buf := by
  cases h <;> trivial

section Size

theorem size_le_datasSize {ds : List Amf0Data} {d : Amf0Data} (h : d ∈ ds) :
    d.size ≤ datasSize ds := by
  induction ds with
  | nil => cases h
  | cons e ds ih =>
    rw [datasSize]
    rcases List.mem_cons.mp h with rfl | h
    · omega
    · have hle := ih h
      omega

theorem datasLayout_size {ds : List Amf0Data} (h : ∀ d ∈ ds, (layoutOf d).size = d.size) :
    (datasLayout ds).size = datasSize ds := by
  induction ds with
  | nil => rfl
  | cons d ds ih =>
    rw [datasLayout, datasSize, Layout.size_seq, h d List.mem_cons_self,
      ih fun e he ↦ h e (List.mem_cons_of_mem _ he)]

/-- Strict arrays within strict arrays, over anything but arrays. -/
inductive StrictTree : Amf0Data → Prop
  | leaf {t : Amf0Data} (h : t.getType ≠ .strictArray) (h' : t.getType ≠ .ecmaArray) : StrictTree t
  | strictArray {datas : List Amf0Data} (h : ∀ d ∈ datas, StrictTree d) :
    StrictTree (.strictArray datas)

theorem Element.size_eq {t : Amf0Data} (h : Element t) (hs : StrictTree t) :
    (layoutOf t).size = t.size := by
  induction h with
  | plain h => exact h.size_eq
  | strictArray ds _ ih =>
    cases hs with
    | leaf h => exact absurd rfl h
    | strictArray hs =>
      rw [layoutOf, Amf0Data.size, Layout.size_seq, Layout.size_seq,
        datasLayout_size fun d hd ↦ ih d hd (hs d hd)]
      exact (Nat.add_assoc 1 4 _).symm
  | ecmaArray ps _ _ _ _ =>
    cases hs with
    | leaf _ h => exact absurd rfl h

theorem strictTree_of_held {t : Amf0Data} (h : Element t) {buf : Bytes} (hh : CountsHeld t buf) :
    StrictTree t := by
  induction h generalizing buf with
  | plain h => exact .leaf (by cases h <;> simp [Amf0Data.getType]) (by cases h <;> simp [Amf0Data.getType])
  | strictArray ds _ ih =>
    have hds {ds : List Amf0Data} (ih : ∀ d ∈ ds, ∀ {buf : Bytes}, CountsHeld d buf → StrictTree d)
        {buf : Bytes} (hh : DatasHeld ds buf) : ∀ d ∈ ds, StrictTree d := by
      induction ds generalizing buf with
      | nil => simp
      | cons e ds ihd =>
        intro d hd
        rcases List.mem_cons.mp hd with rfl | hd
        · exact ih d List.mem_cons_self hh.1
        · exact ihd (fun d hd ↦ ih d (List.mem_cons_of_mem _ hd)) hh.2 d hd
    exact .strictArray (hds ih hh.2)
  | ecmaArray ps _ _ _ _ => exact hh.elim

theorem StrictTree.size_pos {t : Amf0Data} (h : StrictTree t) : 0 < t.size := by
  cases h with
  | strictArray h =>
    rw [Amf0Data.size]
    omega
  | leaf _ h =>
    cases t with
    | ecmaArray ps => exact absurd rfl h
    | _ => simp only [Amf0Data.size]; omega

theorem length_le_datasSize {ds : List Amf0Data} (h : ∀ d ∈ ds, StrictTree d) :
    ds.length ≤ datasSize ds := by
  induction ds with
  | nil => exact Nat.zero_le _
  | cons d ds ih =>
    have hd := (h d List.mem_cons_self).size_pos
    have hds := ih fun e he ↦ h e (List.mem_cons_of_mem _ he)
    rw [datasSize, List.length_cons]
    omega

end Size

section Decode

theorem decodeDatas_step {depth : ℕ} {t : Amf0Data} {bytes : Bytes} (h : DecodesFrom depth t bytes)
    (hlen : bytes.length < 2 ^ 31) (hswitch : strictArraySwitch t.getType.marker = some t.getType)
    (count : ℕ) (acc : List Amf0Data) (rest : Bytes) (pos : ℕ) :
    decodeDatas (decodeNested depth) (count + 1) acc (bytes ++ rest) pos =
      decodeDatas (decodeNested depth) count (acc ++ [t]) rest (pos + bytes.length) := by
  have hne : bytes ≠ [] := by
    rintro rfl
    cases h.head
  have hpos := List.length_pos_iff.mpr hne
  rw [decodeDatas, if_neg (by rw [List.length_append]; omega),
    decodeValue_append h hlen hswitch (-5) (-6) rest, Outcome.ok_bind]
  simp only [List.drop_left]

theorem decodeDatas_fill {depth : ℕ} {ds : List Amf0Data}
    (hds : ∀ d ∈ ds, ∀ buf, CountsHeld d buf → d.size ≤ buf.length →
      DecodesFrom depth d ((layoutOf d).fill buf))
    (hswitch : ∀ d ∈ ds, strictArraySwitch d.getType.marker = some d.getType)
    (hl : ∀ d ∈ ds, (layoutOf d).size = d.size) (hsize : datasSize ds < 2 ^ 31)
    (acc : List Amf0Data) {buf : Bytes} (hh : DatasHeld ds buf) (hb : datasSize ds ≤ buf.length)
    (rest : Bytes) (pos : ℕ) :
    decodeDatas (decodeNested depth) ds.length acc ((datasLayout ds).fill buf ++ rest) pos =
      .ok (acc ++ ds, pos + datasSize ds) := by
  induction ds generalizing acc buf pos with
  | nil =>
    rw [List.append_nil]
    rfl
  | cons d ds ih =>
    rw [datasSize] at hsize hb
    have hd := hl d List.mem_cons_self
    have hlen : ((layoutOf d).fill buf).length = d.size := by
      rw [Layout.fill_length _ (by omega), hd]
    rw [datasLayout, Layout.fill, List.append_assoc, List.length_cons, hd,
      decodeDatas_step (hds d List.mem_cons_self buf hh.1 (by omega)) (by omega)
        (hswitch d List.mem_cons_self), hlen,
      ih (fun e he ↦ hds e (List.mem_cons_of_mem _ he))
        (fun e he ↦ hswitch e (List.mem_cons_of_mem _ he))
        (fun e he ↦ hl e (List.mem_cons_of_mem _ he)) (by omega) _ hh.2
        (by rw [List.length_drop]; omega), List.append_assoc, datasSize, Nat.add_assoc]
    rfl

theorem Element.switch {t : Amf0Data} (h : Element t) (hs : StrictTree t) :
    strictArraySwitch t.getType.marker = some t.getType := by
  cases h with
  | plain h => exact h.switch.2
  | strictArray ds _ => rfl
  | ecmaArray ps _ _ _ =>
    cases hs with
    | leaf _ h => exact absurd rfl h

/-- With the right counts in the buffer, a strict array is read back. -/
theorem Element.decodesFrom {t : Amf0Data} (h : Element t) {depth : ℕ} {buf : Bytes}
    (hh : CountsHeld t buf) (hd : t.size < depth) (hs : t.size < 2 ^ 31)
    (hb : t.size ≤ buf.length) : DecodesFrom depth t ((layoutOf t).fill buf) := by
  induction h generalizing depth buf with
  | plain h => exact h.decodesFrom hd hs hb
  | strictArray ds hds ih =>
    obtain ⟨depth, rfl⟩ : ∃ m, depth = m + 1 := ⟨depth - 1, by omega⟩
    have htree := strictTree_of_held (.strictArray ds hds) hh
    have hsub : ∀ d ∈ ds, StrictTree d := by
      cases htree with
      | leaf h => exact absurd rfl h
      | strictArray h => exact h
    have hl : ∀ d ∈ ds, (layoutOf d).size = d.size := fun d hd ↦ (hds d hd).size_eq (hsub d hd)
    have hwhole := (Element.strictArray ds hds).size_eq htree
    have hlen : ((layoutOf (.strictArray ds)).fill buf).length = 5 + datasSize ds := by
      rw [Layout.fill_length _ (by rwa [hwhole]), hwhole]
      rfl
    rw [Amf0Data.size] at hd hs hb
    have hcount := length_le_datasSize hsub
    have hmem (d : Amf0Data) (hd' : d ∈ ds) (old : Bytes) (hh : CountsHeld d old)
        (hold : d.size ≤ old.length) : DecodesFrom depth d ((layoutOf d).fill old) := by
      have hle := size_le_datasSize hd'
      exact ih d hd' hh (by omega) (by omega) hold
    refine ⟨rfl, fun rest ↦ ?_⟩
    have hfill : (layoutOf (.strictArray ds)).fill buf ++ rest = Amf0Type.strictArray.marker ::
        (putBE 4 ds.length ++ ((datasLayout ds).fill (buf.drop 5) ++ rest)) := by
      simp only [layoutOf, Layout.fill, Layout.size_put, Layout.size_skip, List.length_singleton,
        List.append_assoc, List.cons_append, List.nil_append, hh.1, List.drop_drop]
    have hfrom : fromBE (putBE 4 ds.length) = ds.length := by
      rw [fromBE_putBE]
      omega
    have hread := decodeDatas_fill hmem (fun d hd ↦ (hds d hd).switch (hsub d hd)) hl (by omega) []
      hh.2 (by rw [List.length_drop]; omega) rest 5
    rw [hlen, hfill, decodeNested, Amf0Data.getType, decodeClass, decodeStrictArray,
      if_neg (by simp), if_neg (by rw [List.length_append, putBE_length]; omega),
      List.take_left' (putBE_length 4 ds.length), List.drop_left' (putBE_length 4 ds.length), hfrom,
      hread, Outcome.ok_bind, List.nil_append]
    rfl
  | ecmaArray ps _ _ _ _ => exact hh.elim

end Decode

section Converse

variable {dec : Amf0Type → Bytes → Decoded}

theorem decodeScalar_type {type : Amf0Type} {n : ℕ} {value : Bytes → Amf0Data} {data : Bytes}
    {t : Amf0Data} {r : BitVec 32} (h : decodeScalar type n value data = .ok (t, r))
    (hv : ∀ v, (value v).getType = type) : t.getType = type := by
  cases data with
  | nil => cases h
  | cons marker data =>
    rw [decodeScalar] at h
    split at h
    · cases h
    · split at h
      · cases h
      · cases h
        exact hv _

theorem decodeObject_type {data : Bytes} {t : Amf0Data} {r : BitVec 32}
    (h : decodeObject dec data = .ok (t, r)) : t.getType = .object := by
  cases data with
  | nil => cases h
  | cons marker data =>
    rw [decodeObject] at h
    split at h
    · cases h
    · obtain ⟨res, -, hres⟩ := Outcome.bind_eq_ok.mp h
      cases hres
      rfl

/-- A strict array that is decoded comes out of the loop over its elements. -/
theorem decodeStrictArray_inv {marker : UInt8} {data : Bytes} {t : Amf0Data} {r : BitVec 32}
    (h : decodeStrictArray dec (marker :: data) = .ok (t, r)) :
    ∃ datas pos, t = .strictArray datas ∧ 4 ≤ data.length ∧
      decodeDatas dec (fromBE (data.take 4)) [] (data.drop 4) 5 = .ok (datas, pos) := by
  rw [decodeStrictArray] at h
  split at h
  · cases h
  · split at h
    · cases h
    · obtain ⟨⟨datas, pos⟩, hdatas, hres⟩ := Outcome.bind_eq_ok.mp h
      cases hres
      exact ⟨datas, pos, rfl, by omega, hdatas⟩

theorem decodeClass_leaf {type : Amf0Type} {data : Bytes} {t : Amf0Data} {r : BitVec 32}
    (h : decodeClass dec type data = .ok (t, r)) (hs : type ≠ .strictArray)
    (he : type ≠ .ecmaArray) : StrictTree t := by
  suffices htype : t.getType = type by
    exact .leaf (by rwa [htype]) (by rwa [htype])
  cases type with
  | number =>
    rw [decodeClass, decodeNumber] at h
    exact decodeScalar_type h fun v ↦ rfl
  | boolean =>
    rw [decodeClass, decodeBoolean] at h
    exact decodeScalar_type h fun v ↦ rfl
  | null =>
    rw [decodeClass, decodeNull] at h
    exact decodeScalar_type h fun v ↦ rfl
  | undefined =>
    rw [decodeClass, decodeUndefined] at h
    exact decodeScalar_type h fun v ↦ rfl
  | reference =>
    rw [decodeClass, decodeReference] at h
    exact decodeScalar_type h fun v ↦ rfl
  | object => exact decodeObject_type h
  | strictArray => exact absurd rfl hs
  | ecmaArray => exact absurd rfl he
  | string =>
    cases data with
    | nil => cases h
    | cons marker data =>
      rw [decodeClass, decodeString] at h
      split at h
      · cases h
      · split at h
        · cases h
        · simp only at h
          split at h
          · cases h
          · cases h
            rfl
  | date =>
    cases data with
    | nil => cases h
    | cons marker data =>
      rw [decodeClass, decodeDate] at h
      split at h
      · cases h
      · split at h
        · cases h
        · split at h
          · cases h
          · cases h
            rfl

theorem decodeValue_inv {switch : UInt8 → Option Amf0Type} {noClass noValue : ℤ} {data : Bytes}
    {t : Amf0Data} {n : ℕ} (h : decodeValue dec switch noClass noValue data = .ok (t, n)) :
    ∃ type consumed, data.head?.bind switch = some type ∧ dec type data = .ok (t, consumed) ∧
      n = consumed.toNat := by
  cases data with
  | nil => cases h
  | cons marker data =>
    rw [decodeValue] at h
    cases hs : switch marker with
    | none => rw [hs] at h; cases h
    | some type =>
      rw [hs] at h
      obtain ⟨⟨v, consumed⟩, hv, hres⟩ := Outcome.bind_eq_ok.mp h
      rw [Outcome.orReturn_eq_ok] at hv
      simp only at hres
      split at hres
      · cases hres
      · cases hres
        exact ⟨type, consumed, hs, hv, rfl⟩

theorem decodeDatas_inv {count : ℕ} {acc res : List Amf0Data} {data : Bytes} {pos pos' : ℕ}
    (h : decodeDatas dec (count + 1) acc data pos = .ok (res, pos')) (hd : data ≠ []) :
    ∃ t n, decodeValue dec strictArraySwitch (-5) (-6) data = .ok (t, n) ∧
      decodeDatas dec count (acc ++ [t]) (data.drop n) (pos + n) = .ok (res, pos') := by
  rw [decodeDatas, if_neg (fun hz ↦ hd (List.eq_nil_of_length_eq_zero hz))] at h
  obtain ⟨⟨t, n⟩, ht, hrest⟩ := Outcome.bind_eq_ok.mp h
  exact ⟨t, n, ht, hrest⟩

/-- The loop only adds elements, each decoded by a class of the switch. -/
theorem decodeDatas_extends {P : Amf0Data → Prop}
    (hP : ∀ {type : Amf0Type} {data : Bytes} {t : Amf0Data} {r : BitVec 32},
      dec type data = .ok (t, r) → type ≠ .ecmaArray → P t)
    {count : ℕ} {acc res : List Amf0Data} {data : Bytes} {pos pos' : ℕ}
    (h : decodeDatas dec count acc data pos = .ok (res, pos')) :
    ∃ more, res = acc ++ more ∧ ∀ t ∈ more, P t := by
  induction count generalizing acc data pos with
  | zero =>
    cases h
    exact ⟨[], (List.append_nil _).symm, by simp⟩
  | succ count ih =>
    by_cases hd : data = []
    · subst hd
      cases h
      exact ⟨[], (List.append_nil _).symm, by simp⟩
    · obtain ⟨t, n, ht, hrest⟩ := decodeDatas_inv h hd
      obtain ⟨type, consumed, hs, hdec, -⟩ := decodeValue_inv ht
      obtain ⟨more, rfl, hmore⟩ := ih hrest
      have hne : type ≠ .ecmaArray := by
        rintro rfl
        obtain ⟨marker, -, hm⟩ := Option.bind_eq_some_iff.mp hs
        have hmem := List.mem_of_find?_eq_some hm
        simp at hmem
      refine ⟨t :: more, by rw [List.append_assoc]; rfl, ?_⟩
      intro u hu
      rcases List.mem_cons.mp hu with rfl | hu
      · exact hP hdec hne
      · exact hmore u hu

/-- No class of an element makes ECMA arrays. -/
theorem decodeNested_strictTree {depth : ℕ} {type : Amf0Type} {data : Bytes} {t : Amf0Data}
    {r : BitVec 32} (h : decodeNested depth type data = .ok (t, r)) (he : type ≠ .ecmaArray) :
    StrictTree t := by
  induction depth generalizing type data t r with
  | zero => cases h
  | succ depth ih =>
    rw [decodeNested] at h
    by_cases hs : type = .strictArray
    · subst hs
      cases data with
      | nil => cases h
      | cons marker data =>
        obtain ⟨datas, pos, rfl, -, hdatas⟩ := decodeStrictArray_inv h
        obtain ⟨more, rfl, hmore⟩ := decodeDatas_extends ih hdatas
        exact .strictArray hmore
    · exact decodeClass_leaf h hs he

/-- That a value with something behind it is read back shows its counts. -/
def ShowsCounts (t : Amf0Data) : Prop :=
  ∀ (depth : ℕ) (buf rest : Bytes) (r : BitVec 32), t.size < 2 ^ 31 → t.size ≤ buf.length →
    rest ≠ [] → t.size + rest.length < depth →
    decodeNested depth t.getType ((layoutOf t).fill buf ++ rest) = .ok (t, r) → CountsHeld t buf

theorem Element.head {t : Amf0Data} (h : Element t) (hs : StrictTree t) (buf : Bytes) :
    ((layoutOf t).fill buf).head? = some t.getType.marker := by
  cases h with
  | plain h => cases h <;> rfl
  | strictArray ds _ => rfl
  | ecmaArray ps _ _ _ =>
    cases hs with
    | leaf _ h => exact absurd rfl h

theorem datasHeld_of_decode {ds : List Amf0Data} (hds : ∀ d ∈ ds, Element d ∧ StrictTree d)
    (hshow : ∀ d ∈ ds, ShowsCounts d) {depth count : ℕ} {acc : List Amf0Data} {buf rest : Bytes}
    {pos pos' : ℕ} (hsize : datasSize ds < 2 ^ 31) (hb : datasSize ds ≤ buf.length)
    (hrest : rest ≠ []) (hd : datasSize ds + rest.length < depth)
    (h : decodeDatas (decodeNested depth) count acc ((datasLayout ds).fill buf ++ rest) pos =
      .ok (acc ++ ds, pos')) : count = ds.length ∧ DatasHeld ds buf := by
  induction ds generalizing count acc buf pos with
  | nil =>
    refine ⟨?_, trivial⟩
    cases count with
    | zero => rfl
    | succ count =>
      obtain ⟨t, n, -, hmore⟩ := decodeDatas_inv h hrest
      obtain ⟨more, heq, -⟩ := decodeDatas_extends (P := fun _ ↦ True) (fun _ _ ↦ trivial) hmore
      have hlen := congrArg List.length heq
      simp only [List.length_append, List.length_nil, List.length_singleton] at hlen
      omega
  | cons d ds ih =>
    rw [datasSize] at hsize hb hd
    obtain ⟨hdd, hsd⟩ := hds d List.mem_cons_self
    have hlds : (datasLayout ds).size = datasSize ds := datasLayout_size fun e he ↦
      (hds e (List.mem_cons_of_mem _ he)).1.size_eq (hds e (List.mem_cons_of_mem _ he)).2
    have hlen : ((layoutOf d).fill buf).length = d.size := by
      rw [Layout.fill_length _ (by rw [hdd.size_eq hsd]; omega), hdd.size_eq hsd]
    have htail : (datasLayout ds).fill (buf.drop d.size) ++ rest ≠ [] :=
      List.append_ne_nil_of_right_ne_nil _ hrest
    have htaillen : ((datasLayout ds).fill (buf.drop d.size) ++ rest).length =
        datasSize ds + rest.length := by
      rw [List.length_append, Layout.fill_length _ (by rw [hlds, List.length_drop]; omega), hlds]
    rw [datasLayout, Layout.fill, hdd.size_eq hsd, List.append_assoc] at h
    cases count with
    | zero =>
      simp only [decodeDatas, Outcome.ok.injEq, Prod.mk.injEq, List.self_eq_append_right] at h
      cases h.1
    | succ count =>
      obtain ⟨t, n, ht, hmore⟩ := decodeDatas_inv h (List.append_ne_nil_of_right_ne_nil _ htail)
      obtain ⟨type, consumed, hs, hdec, rfl⟩ := decodeValue_inv ht
      obtain ⟨more, heq, -⟩ := decodeDatas_extends (P := fun _ ↦ True) (fun _ _ ↦ trivial) hmore
      rw [List.append_assoc, List.append_cancel_left_eq, List.singleton_append,
        List.cons.injEq] at heq
      obtain ⟨rfl, -⟩ := heq
      rw [List.head?_append, hdd.head hsd, Option.some_or, Option.bind_some, hdd.switch hsd] at hs
      obtain rfl := Option.some.inj hs
      have hheld := hshow d List.mem_cons_self depth buf _ consumed (by omega) (by omega) htail
        (by omega) hdec
      have hback : DecodesFrom depth d ((layoutOf d).fill buf) :=
        hdd.decodesFrom hheld (by omega) (by omega) (by omega)
      have hfwd := hback.decode ((datasLayout ds).fill (buf.drop d.size) ++ rest)
      rw [hdec, hlen] at hfwd
      obtain rfl : consumed = int32 d.size := (Prod.mk.inj (Outcome.ok.inj hfwd)).2
      rw [int32_toNat (by omega), List.drop_left' hlen, List.append_cons acc d ds] at hmore
      have hb' : datasSize ds ≤ (buf.drop d.size).length := by
        rw [List.length_drop]
        omega
      obtain ⟨rfl, hrestHeld⟩ := ih (fun e he ↦ hds e (List.mem_cons_of_mem _ he))
        (fun e he ↦ hshow e (List.mem_cons_of_mem _ he)) (by omega) hb' (by omega) hmore
      exact ⟨rfl, hheld, hrestHeld⟩

theorem Element.showsCounts {t : Amf0Data} (h : Element t) (hs : StrictTree t) :
    ShowsCounts t := by
  induction h with
  | plain h => exact fun _ buf _ _ _ _ _ _ _ ↦ Plain.held h buf
  | ecmaArray ps _ _ _ _ =>
    cases hs with
    | leaf _ h => exact absurd rfl h
  | strictArray ds hds ih =>
    cases hs with
    | leaf h => exact absurd rfl h
    | strictArray hsub =>
      intro depth buf rest r hsize hb hrest hd hdec
      rw [Amf0Data.size] at hsize hb hd
      obtain ⟨depth, rfl⟩ : ∃ m, depth = m + 1 := ⟨depth - 1, by omega⟩
      have hfour : ((buf.drop 1).take 4).length = 4 := by
        rw [List.length_take, List.length_drop]
        omega
      have hfill : (layoutOf (.strictArray ds)).fill buf ++ rest = Amf0Type.strictArray.marker ::
          ((buf.drop 1).take 4 ++ ((datasLayout ds).fill (buf.drop 5) ++ rest)) := by
        simp only [layoutOf, Layout.fill, Layout.size_put, Layout.size_skip, List.length_singleton,
          List.append_assoc, List.cons_append, List.nil_append, List.drop_drop]
      rw [hfill, decodeNested, Amf0Data.getType, decodeClass] at hdec
      obtain ⟨datas, pos, heq, -, hloop⟩ := decodeStrictArray_inv hdec
      obtain rfl := Amf0Data.strictArray.inj heq
      rw [List.take_left' hfour, List.drop_left' hfour] at hloop
      obtain ⟨hcount, hheld⟩ := datasHeld_of_decode (fun d hd ↦ ⟨hds d hd, hsub d hd⟩)
        (fun d hd ↦ ih d hd (hsub d hd)) (by omega) (by rw [List.length_drop]; omega) hrest
        (by omega) hloop
      refine ⟨?_, hheld⟩
      have hput := putBE_fromBE ((buf.drop 1).take 4)
      rw [hfour, hcount] at hput
      exact hput.symm

end Converse

/-- A strict array makes the round trip when the buffer holds its counts
already, an ECMA array never does. -/
theorem array_roundTrips_iff (a : Amf0Data) (h : Element a) (buf : Bytes)
    (hb : (layoutOf a).size ≤ buf.length) :
    RoundTrips a buf ↔ CountsHeld a buf ∧ a.size < 2 ^ 31 := by
  constructor
  · intro hr
    have hs := hr.size_lt
    obtain ⟨written, after, hencode, -, hdecode⟩ := hr
    have htree : StrictTree a := by
      obtain ⟨consumed, hdec, -⟩ := hdecode []
      by_cases he : a.getType = .ecmaArray
      · cases a with
        | ecmaArray ps => cases hdec
        | _ => cases he
      · exact decodeNested_strictTree hdec he
    have hl := h.size_eq htree
    have hlen : ((layoutOf a).fill buf).length = a.size := by
      rw [Layout.fill_length _ hb, hl]
    rw [encode_encodes a buf (by omega) hb] at hencode
    obtain ⟨-, rfl⟩ := Prod.mk.inj (Outcome.ok.inj hencode)
    obtain ⟨consumed, hdec, -⟩ := hdecode [0]
    rw [List.take_left' hlen] at hdec
    refine ⟨h.showsCounts htree _ buf [0] consumed hs (by omega) (by simp) ?_ hdec, hs⟩
    rw [List.length_append, hlen]
    exact Nat.lt_succ_self _
  · rintro ⟨hheld, hs⟩
    have hl := h.size_eq (strictTree_of_held h hheld)
    apply roundTrips_of_decodesFrom hl hs (by omega)
    intro depth hd
    exact h.decodesFrom hheld hd hs (by omega)

def keyframeTimes : Amf0Data := .strictArray [.number 0, .strictArray [.boolean true]]

def counted : Bytes := [0, 0, 0, 0, 2] ++ List.replicate 9 0 ++ [0, 0, 0, 0, 1] ++ [0, 0]

theorem keyframeTimes_roundTrips_iff :
    RoundTrips keyframeTimes counted ↔ CountsHeld keyframeTimes counted ∧ keyframeTimes.size < 2 ^ 31 := by
  refine array_roundTrips_iff keyframeTimes ?_ counted (by decide)
  refine .strictArray _ ?_
  intro d hd
  simp only [List.mem_cons, List.not_mem_nil, or_false] at hd
  rcases hd with rfl | rfl
  · exact .plain (.number 0)
  · refine .strictArray _ ?_
    intro e he
    rw [List.mem_singleton.mp he]
    exact .plain (.boolean true)

/-- Neither does an array of one element in a cleared buffer come back, nor an
ECMA array, whose size is 0 and whose marker is that of an object. -/
theorem arrays_get_lost :
    ¬ RoundTrips (.strictArray [.null]) (List.replicate 6 0) ∧
    ¬ RoundTrips (.ecmaArray [([0x61], .null)]) (List.replicate 8 0) := by
  constructor
  · rintro ⟨written, after, hencode, -, hdecode⟩
    have henc : Amf0Data.encode (.strictArray [.null]) (List.replicate 6 0) =
        .ok (6, [0x0a, 0, 0, 0, 0, 5]) := rfl
    rw [henc] at hencode
    obtain ⟨-, rfl⟩ := Prod.mk.inj (Outcome.ok.inj hencode)
    obtain ⟨consumed, hdec, -⟩ := hdecode []
    have hempty : decode .strictArray [0x0a, 0, 0, 0, 0, 5] = .ok (.strictArray [], 5) := by
      simp [decode, decodeNested, decodeClass, decodeStrictArray, decodeDatas, fromBE, int32,
        Amf0Type.marker]
    have heq := (Prod.mk.inj (Outcome.ok.inj (hempty.symm.trans hdec))).1
    cases heq
  · rintro ⟨written, after, hencode, hsize, -⟩
    have henc : Amf0Data.encode (.ecmaArray [([0x61], .null)]) (List.replicate 8 0) =
        .ok (8, [3, 0, 1, 0x61, 5, 0, 0, 9]) := rfl
    rw [henc] at hencode
    obtain ⟨rfl, -⟩ := Prod.mk.inj (Outcome.ok.inj hencode)
    exact absurd hsize (by decide)

end MmsServer.Amf0.Arrays
