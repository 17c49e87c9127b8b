import MmsServer.Amf0.Data

namespace MmsServer.Amf0.RoundTrip

open Lib.ByteReader Lib.Checked Lib.ByteLayout Data

section Layout

open Layout

mutual

/-- What `encode` writes into a buffer that is large enough. -/
def layoutOf : Amf0Data → Layout
  | .number value => put (Amf0Type.number.marker :: putBE 8 value.toNat)
  | .boolean value => put [Amf0Type.boolean.marker, if value then 1 else 0]
  | .string value => put (Amf0Type.string.marker :: (putBE 2 value.length ++ value))
  | .object properties =>
    seq (put [Amf0Type.object.marker]) (seq (propertiesLayout properties) (put objEnd))
  | .null => put [Amf0Type.null.marker]
  | .undefined => put [Amf0Type.undefined.marker]
  | .reference _ => done
  | .ecmaArray properties =>
    seq (put [Amf0Type.object.marker]) (seq (propertiesLayout properties) (put objEnd))
  | .strictArray datas =>
    seq (put [Amf0Type.strictArray.marker]) (seq (skip 4) (datasLayout datas))
  | .date _ _ => done

def propertiesLayout : List (Bytes × Amf0Data) → Layout
  | [] => done
  | (key, value) :: properties =>
    seq (put (putBE 2 key.length ++ key)) (seq (layoutOf value) (propertiesLayout properties))

def datasLayout : List Amf0Data → Layout
  | [] => done
  | data :: datas => seq (layoutOf data) (datasLayout datas)

end

theorem int32_toInt {n : ℕ} (h : n < 2 ^ 31) : (int32 n).toInt = n := by
  rw [int32, BitVec.toInt_ofNat', Int.bmod_eq_of_le (by omega) (by omega)]

theorem int32_toNat {n : ℕ} (h : n < 2 ^ 31) : (int32 n).toNat = n := by
  rw [int32, BitVec.toNat_ofNat, Nat.mod_eq_of_lt (by omega)]

/-- In a buffer with enough room the routine writes `l` and returns its size. -/
def Encodes (encode : Bytes → Outcome (BitVec 32 × Bytes)) (l : Layout) : Prop :=
  ∀ buf, l.size < 2 ^ 31 → l.size ≤ buf.length →
    encode buf = .ok (int32 l.size, l.fill buf ++ buf.drop l.size)

def Fills (encode : Bytes → Outcome (ℕ × Bytes)) (l : Layout) : Prop :=
  ∀ buf, l.size < 2 ^ 31 → l.size ≤ buf.length →
    encode buf = .ok (l.size, l.fill buf ++ buf.drop l.size)

theorem encodeScalar_encodes (b : UInt8) (bs : Bytes) :
    Encodes (encodeScalar (b :: bs)) (put (b :: bs)) := by
  intro buf _ hb
  rw [size_put, List.length_cons] at hb
  rw [encodeScalar, if_neg (by omega), if_neg (by rw [List.length_cons]; omega)]
  rfl

theorem encodeString_encodes (value : Bytes) : Encodes (encodeString value)
    (put (Amf0Type.string.marker :: (putBE 2 value.length ++ value))) := by
  intro buf _ hb
  have hsize : (put (Amf0Type.string.marker :: (putBE 2 value.length ++ value))).size =
      3 + value.length := by
    rw [size_put, List.length_cons, List.length_append, putBE_length]
    omega
  rw [hsize] at hb ⊢
  rw [encodeString, if_neg (by omega), if_neg (by omega), if_neg (by omega)]
  rfl

theorem fills_done : Fills (fun buf ↦ .ok (0, buf)) done := fun _ _ _ ↦ rfl

/-- Behind a value that is written whole the next one follows directly. -/
theorem Encodes.advance {encode : Bytes → Outcome (BitVec 32 × Bytes)}
    {encodeRest : Bytes → Outcome (ℕ × Bytes)} {l l' : Layout} (h : Encodes encode l)
    (h' : Fills encodeRest l') : Fills (advance encode encodeRest) (seq l l') := by
  intro buf hs hb
  rw [size_seq] at hs hb
  have hlen : (l.fill buf).length = l.size := l.fill_length (by omega)
  rw [Data.advance, h buf (by omega) (by omega), Outcome.orReturn_ok, Outcome.ok_bind]
  simp only [int32_toInt (show l.size < 2 ^ 31 by omega), int32_toNat (show l.size < 2 ^ 31 by omega)]
  rw [if_neg (by omega), List.drop_left' hlen,
    h' _ (by omega) (by rw [List.length_drop]; omega), Outcome.ok_bind, List.take_left' hlen]
  simp only [Outcome.pure_eq, size_seq, fill, List.append_assoc, List.drop_drop]

theorem Fills.object {encode : Bytes → Outcome (ℕ × Bytes)} {l : Layout} (h : Fills encode l) :
    Encodes (encodeObject encode) (seq (put [Amf0Type.object.marker]) (seq l (put objEnd))) := by
  intro buf hs hb
  have hend : objEnd.length = 3 := rfl
  simp only [size_seq, size_put, List.length_singleton, hend] at hs hb ⊢
  have hlen : (l.fill (buf.drop 1)).length = l.size :=
    l.fill_length (by rw [List.length_drop]; omega)
  have hdrop : (l.fill (buf.drop 1) ++ (buf.drop 1).drop l.size).drop (l.size + 3) =
      buf.drop (1 + (l.size + 3)) := by
    rw [List.drop_append, List.drop_of_length_le (by omega), List.nil_append, hlen,
      List.drop_drop, List.drop_drop]
    congr 1
    omega
  rw [encodeObject, if_neg (by omega), h _ (by omega) (by rw [List.length_drop]; omega),
    Outcome.ok_bind]
  simp only [List.length_append, List.length_drop, hlen, hend]
  rw [if_neg (by omega), List.take_left' hlen, hdrop, Nat.add_assoc]
  simp [fill]

theorem Fills.strictArray {encode : Bytes → Outcome (ℕ × Bytes)} {l : Layout} (h : Fills encode l) :
    Encodes (encodeStrictArray encode)
      (seq (put [Amf0Type.strictArray.marker]) (seq (skip 4) l)) := by
  intro buf hs hb
  simp only [size_seq, size_put, size_skip, List.length_singleton] at hs hb ⊢
  rw [encodeStrictArray, if_neg (by omega), if_neg (by omega),
    h _ (by omega) (by rw [List.length_drop]; omega), Outcome.ok_bind, ← Nat.add_assoc]
  simp [fill]

theorem Encodes.property {encode : Bytes → Outcome (BitVec 32 × Bytes)}
    {encodeRest : Bytes → Outcome (ℕ × Bytes)} {l l' : Layout} (h : Encodes encode l)
    (h' : Fills encodeRest l') (key : Bytes) :
    Fills (fun buf ↦
      if buf.length < 2 then .err (-3)
      else if buf.length < 2 + key.length then .fault .overrun
      else do
        let (n, left) ← Data.advance encode encodeRest (buf.drop (2 + key.length))
        return (2 + key.length + n, putBE 2 key.length ++ key ++ left))
      (seq (put (putBE 2 key.length ++ key)) (seq l l')) := by
  intro buf hs hb
  have hkey : (putBE 2 key.length ++ key).length = 2 + key.length := by
    rw [List.length_append, putBE_length]
  rw [size_seq, size_put, hkey] at hs hb
  simp only
  rw [if_neg (by omega), if_neg (by omega),
    h.advance h' _ (by omega) (by rw [List.length_drop]; omega), Outcome.ok_bind]
  simp only [Outcome.pure_eq, size_seq, size_put, hkey, fill, List.append_assoc, List.drop_drop]

mutual

theorem encode_encodes : ∀ t : Amf0Data, Encodes t.encode (layoutOf t)
  | .number value => encodeScalar_encodes _ (putBE 8 value.toNat)
  | .boolean value => encodeScalar_encodes _ [if value then 1 else 0]
  | .string value => encodeString_encodes value
  | .object properties => (encodeProperties_fills properties).object
  | .null => encodeScalar_encodes _ []
  | .undefined => encodeScalar_encodes _ []
  | .reference _ => fun _ _ _ ↦ rfl
  | .ecmaArray properties => (encodeProperties_fills properties).object
  | .strictArray datas => (encodeDatas_fills datas).strictArray
  | .date _ _ => fun _ _ _ ↦ rfl

theorem encodeProperties_fills :
    ∀ ps : List (Bytes × Amf0Data), Fills (encodeProperties ps) (propertiesLayout ps)
  | [] => fills_done
  | (key, value) :: ps => (encode_encodes value).property (encodeProperties_fills ps) key

theorem encodeDatas_fills : ∀ ds : List Amf0Data, Fills (encodeDatas ds) (datasLayout ds)
  | [] => fills_done
  | data :: datas => (encode_encodes data).advance (encodeDatas_fills datas)

end

end Layout

/-- Trees without arrays, whose keys and strings have a length that fits into 16 bits. -/
inductive Plain : Amf0Data → Prop
  | number (value : BitVec 64) : Plain (.number value)
  | boolean (value : Bool) : Plain (.boolean value)
  | string (value : Bytes) (h : value.length ≤ 65535) : Plain (.string value)
  | null : Plain .null
  | undefined : Plain .undefined
  | object (properties : List (Bytes × Amf0Data)) (hkeys : (properties.map Prod.fst).Nodup)
      (hkey : ∀ p ∈ properties, p.1 ≠ [] ∧ p.1.length ≤ 65535)
      (h : ∀ p ∈ properties, Plain p.2) : Plain (.object properties)

section Decode

/-- From these bytes and whatever follows, the class reads the value back and
consumes exactly them. -/
structure DecodesFrom (depth : ℕ) (t : Amf0Data) (bytes : Bytes) : Prop where
  head : bytes.head? = some t.getType.marker
  decode : ∀ rest, decodeNested depth t.getType (bytes ++ rest) = .ok (t, int32 bytes.length)

theorem decodeScalar_append {type : Amf0Type} {n : ℕ} {value : Bytes → Amf0Data} {bs : Bytes}
    (h : bs.length = n) (rest : Bytes) :
    decodeScalar type n value (type.marker :: bs ++ rest) = .ok (value bs, int32 (1 + n)) := by
  rw [List.cons_append, decodeScalar, if_neg (by simp),
    if_neg (by rw [List.length_append]; omega), List.take_left' h]

theorem decodeString_append {value : Bytes} (h : value.length ≤ 65535) (rest : Bytes) :
    decodeString (Amf0Type.string.marker :: (putBE 2 value.length ++ value) ++ rest) =
      .ok (.string value, int32 (3 + value.length)) := by
  have hlen : fromBE (putBE 2 value.length) = value.length := by
    rw [fromBE_putBE]
    omega
  rw [List.cons_append, List.append_assoc, decodeString, if_neg (by simp),
    if_neg (by rw [List.length_append, putBE_length]; omega)]
  simp only [List.take_left' (putBE_length 2 value.length), hlen,
    List.drop_left' (putBE_length 2 value.length), List.take_left]
  rw [if_neg]
  simp only [List.length_append, putBE_length]
  omega

theorem decodeValue_append {depth : ℕ} {t : Amf0Data} {bytes : Bytes}
    (h : DecodesFrom depth t bytes) (hlen : bytes.length < 2 ^ 31)
    {switch : UInt8 → Option Amf0Type} (hs : switch t.getType.marker = some t.getType)
    (noClass noValue : ℤ) (rest : Bytes) :
    decodeValue (decodeNested depth) switch noClass noValue (bytes ++ rest) =
      .ok (t, bytes.length) := by
  obtain ⟨bs, rfl⟩ : ∃ bs, bytes = t.getType.marker :: bs := by
    cases hb : bytes with
    | nil =>
      have hhead := h.head
      rw [hb] at hhead
      cases hhead
    | cons b bs =>
      have hhead := h.head
      rw [hb] at hhead
      exact ⟨bs, by rw [← Option.some.inj hhead]⟩
  have hd := h.decode rest
  rw [List.cons_append] at hd ⊢
  rw [decodeValue, hs]
  simp only [hd, Outcome.orReturn_ok, Outcome.ok_bind, int32_toInt hlen, int32_toNat hlen]
  rw [if_neg (by omega)]
  rfl

theorem insertProperty_new {key : Bytes} {properties : List (Bytes × Amf0Data)}
    (h : key ∉ properties.map Prod.fst) (value : Amf0Data) :
    insertProperty key value properties = properties ++ [(key, value)] := by
  induction properties with
  | nil => rfl
  | cons p ps ih =>
    rw [List.map_cons, List.mem_cons, not_or] at h
    rw [insertProperty, if_neg (fun he ↦ h.1 he.symm), ih h.2, List.cons_append]

theorem key_not_end {key : Bytes} (hne : key ≠ []) (hlen : key.length ≤ 65535) (rest : Bytes) :
    (putBE 2 key.length ++ rest).take 3 ≠ objEnd := by
  intro h
  have htwo := congrArg (List.take 2) h
  rw [List.take_take, Nat.min_eq_left (by decide), List.take_left' (putBE_length 2 key.length)]
    at htwo
  have hz := congrArg fromBE htwo
  rw [fromBE_putBE, Nat.mod_eq_of_lt (by omega)] at hz
  exact hne (List.eq_nil_of_length_eq_zero hz)

theorem decodeProperties_step {depth : ℕ} {key bytes : Bytes} {value : Amf0Data}
    (hne : key ≠ []) (hkey : key.length ≤ 65535) (h : DecodesFrom depth value bytes)
    (hlen : bytes.length < 2 ^ 31)
    (hswitch : objectSwitch value.getType.marker = some value.getType) (fuel : ℕ)
    {acc : List (Bytes × Amf0Data)} (hnew : key ∉ acc.map Prod.fst) (rest : Bytes) (pos : ℕ) :
    decodeProperties (decodeNested depth) (fuel + 1) acc
        (putBE 2 key.length ++ (key ++ (bytes ++ rest))) pos =
      decodeProperties (decodeNested depth) fuel (acc ++ [(key, value)]) rest
        (pos + (2 + key.length + bytes.length)) := by
  have htwo := putBE_length 2 key.length
  have hfrom : fromBE (putBE 2 key.length) = key.length := by
    rw [fromBE_putBE]
    omega
  have hleft : (putBE 2 key.length ++ (key ++ (bytes ++ rest))).drop (2 + key.length) =
      bytes ++ rest := by
    rw [← List.drop_drop, List.drop_left' htwo, List.drop_left]
  have hkeyRead : ((putBE 2 key.length ++ (key ++ (bytes ++ rest))).drop 2).take key.length =
      key := by
    rw [List.drop_left' htwo, List.take_left]
  rw [decodeProperties, if_neg (by rw [List.length_append]; omega), if_neg (key_not_end hne hkey _),
    if_neg (by rw [List.length_append]; omega)]
  simp only [List.take_left' htwo, hfrom, hleft, hkeyRead]
  rw [if_neg (by simp only [List.length_append]; omega),
    decodeValue_append h hlen hswitch (-5) (-6) rest, Outcome.ok_bind]
  simp only [List.drop_left, insertProperty_new hnew]

/-- The properties of an object, of which the first ones are read already. -/
theorem decodeProperties_fill {depth : ℕ} {ps : List (Bytes × Amf0Data)}
    (hps : ∀ p ∈ ps, ∀ old, (layoutOf p.2).size ≤ old.length →
      DecodesFrom depth p.2 ((layoutOf p.2).fill old))
    (hswitch : ∀ p ∈ ps, objectSwitch p.2.getType.marker = some p.2.getType)
    (hkey : ∀ p ∈ ps, p.1 ≠ [] ∧ p.1.length ≤ 65535) (hsize : (propertiesLayout ps).size < 2 ^ 31)
    {fuel : ℕ} (hfuel : ps.length < fuel) (acc : List (Bytes × Amf0Data))
    (hkeys : ((acc ++ ps).map Prod.fst).Nodup) {old : Bytes}
    (hold : (propertiesLayout ps).size ≤ old.length) (rest : Bytes) (pos : ℕ) :
    decodeProperties (decodeNested depth) fuel acc
        ((propertiesLayout ps).fill old ++ (objEnd ++ rest)) pos =
      .ok (acc ++ ps, pos + (propertiesLayout ps).size + 3) := by
  induction ps generalizing fuel acc old pos with
  | nil =>
    obtain ⟨fuel, rfl⟩ : ∃ m, fuel = m + 1 := ⟨fuel - 1, by omega⟩
    rw [List.append_nil]
    rfl
  | cons p ps ih =>
    obtain ⟨key, value⟩ := p
    obtain ⟨fuel, rfl⟩ : ∃ m, fuel = m + 1 := ⟨fuel - 1, by omega⟩
    obtain ⟨hne, hkeylen⟩ : key ≠ [] ∧ key.length ≤ 65535 := hkey (key, value) List.mem_cons_self
    have hkl : (putBE 2 key.length ++ key).length = 2 + key.length := by
      rw [List.length_append, putBE_length]
    have hnew : key ∉ acc.map Prod.fst := by
      intro hmem
      rw [List.map_append, List.map_cons, List.nodup_append] at hkeys
      exact hkeys.2.2 key hmem key List.mem_cons_self rfl
    simp only [propertiesLayout, Layout.size_seq, Layout.size_put, hkl] at hsize hold ⊢
    have hold₁ : (layoutOf value).size + (propertiesLayout ps).size ≤
        (old.drop (2 + key.length)).length := by
      rw [List.length_drop]
      omega
    have hvalue : DecodesFrom depth value ((layoutOf value).fill (old.drop (2 + key.length))) :=
      hps (key, value) List.mem_cons_self _ (show (layoutOf value).size ≤ _ by omega)
    have hvlen : ((layoutOf value).fill (old.drop (2 + key.length))).length =
        (layoutOf value).size := Layout.fill_length _ (by omega)
    simp only [Layout.fill, Layout.size_put, hkl, List.append_assoc]
    rw [decodeProperties_step hne hkeylen hvalue (by omega)
      (hswitch (key, value) List.mem_cons_self) fuel hnew,
      ih (fun p hp ↦ hps p (List.mem_cons_of_mem _ hp))
        (fun p hp ↦ hswitch p (List.mem_cons_of_mem _ hp))
        (fun p hp ↦ hkey p (List.mem_cons_of_mem _ hp)) (by omega)
        (by rw [List.length_cons] at hfuel; omega) _ (by rwa [List.append_assoc])
        (by rw [List.length_drop]; omega), hvlen, List.append_assoc]
    congr 2
    omega

theorem propertiesLayout_size {ps : List (Bytes × Amf0Data)}
    (h : ∀ p ∈ ps, (layoutOf p.2).size = p.2.size) :
    (propertiesLayout ps).size = propertiesSize ps := by
  induction ps with
  | nil => rfl
  | cons p ps ih =>
    obtain ⟨key, value⟩ := p
    have hv : (layoutOf value).size = value.size := h (key, value) List.mem_cons_self
    have hps := ih fun p hp ↦ h p (List.mem_cons_of_mem _ hp)
    simp only [propertiesLayout, propertiesSize, Layout.size_seq, Layout.size_put,
      List.length_append, putBE_length, hv, hps]
    omega

theorem size_le_propertiesSize {ps : List (Bytes × Amf0Data)} {p : Bytes × Amf0Data} (h : p ∈ ps) :
    p.2.size ≤ propertiesSize ps := by
  induction ps with
  | nil => cases h
  | cons q ps ih =>
    obtain ⟨key, value⟩ := q
    rw [propertiesSize]
    rcases List.mem_cons.mp h with rfl | h
    · simp only
      omega
    · have hle := ih h
      omega

theorem length_le_propertiesSize (ps : List (Bytes × Amf0Data)) : ps.length ≤ propertiesSize ps := by
  induction ps with
  | nil => exact Nat.zero_le _
  | cons q ps ih =>
    obtain ⟨key, value⟩ := q
    rw [propertiesSize, List.length_cons]
    omega

theorem Plain.size_eq {t : Amf0Data} (h : Plain t) : (layoutOf t).size = t.size := by
  induction h with
  | number value => simp [layoutOf, Amf0Data.size, putBE_length]
  | boolean value => rfl
  | string value _ =>
    simp only [layoutOf, Amf0Data.size, Layout.size_put, List.length_cons,
      List.length_append, putBE_length]
    omega
  | null => rfl
  | undefined => rfl
  | object ps _ _ _ ih =>
    have hps : (propertiesLayout ps).size = propertiesSize ps := propertiesLayout_size ih
    simp only [layoutOf, Amf0Data.size, Layout.size_seq, Layout.size_put, hps]
    rfl

theorem Plain.switch {t : Amf0Data} (h : Plain t) :
    objectSwitch t.getType.marker = some t.getType ∧
      strictArraySwitch t.getType.marker = some t.getType := by
  cases h <;> exact ⟨rfl, rfl⟩

/-- A plain tree is read back from its bytes by enough levels of nesting. -/
theorem Plain.decodesFrom {t : Amf0Data} (h : Plain t) {depth : ℕ} (hd : t.size < depth)
    (hs : t.size < 2 ^ 31) {old : Bytes} (hold : t.size ≤ old.length) :
    DecodesFrom depth t ((layoutOf t).fill old) := by
  obtain ⟨depth, rfl⟩ : ∃ m, depth = m + 1 := ⟨depth - 1, by omega⟩
  induction h generalizing depth old with
  | number value =>
    refine ⟨rfl, fun rest ↦ ?_⟩
    have hval : BitVec.ofNat 64 (fromBE (putBE 8 value.toNat)) = value := by
      rw [fromBE_putBE, show 256 ^ 8 = 2 ^ 64 by decide, Nat.mod_eq_of_lt value.isLt,
        BitVec.ofNat_toNat, BitVec.setWidth_eq]
    have hread : decodeNumber (Amf0Type.number.marker :: putBE 8 value.toNat ++ rest) =
        .ok (.number (BitVec.ofNat 64 (fromBE (putBE 8 value.toNat))), int32 9) :=
      decodeScalar_append (putBE_length 8 value.toNat) rest
    rw [hval] at hread
    exact hread
  | boolean value =>
    refine ⟨rfl, fun rest ↦ ?_⟩
    cases value <;> rfl
  | string value hlen =>
    refine ⟨rfl, fun rest ↦ ?_⟩
    have hread := decodeString_append hlen rest
    have hl : ((layoutOf (.string value)).fill old).length = 3 + value.length := by
      rw [Layout.fill_length _ (by
        simp only [layoutOf, Layout.size_put, List.length_cons, List.length_append,
          putBE_length, Amf0Data.size] at hold ⊢
        omega)]
      simp only [layoutOf, Layout.size_put, List.length_cons, List.length_append, putBE_length]
      omega
    rw [hl]
    exact hread
  | null => exact ⟨rfl, fun rest ↦ rfl⟩
  | undefined => exact ⟨rfl, fun rest ↦ rfl⟩
  | object ps hkeys hkey h ih =>
    have hps : (propertiesLayout ps).size = propertiesSize ps :=
      propertiesLayout_size fun p hp ↦ (h p hp).size_eq
    rw [Amf0Data.size] at hd hs hold
    have hmem (p : Bytes × Amf0Data) (hp : p ∈ ps) (old' : Bytes)
        (hold' : (layoutOf p.2).size ≤ old'.length) :
        DecodesFrom depth p.2 ((layoutOf p.2).fill old') := by
      have hle := size_le_propertiesSize hp
      obtain ⟨m, rfl⟩ : ∃ m, depth = m + 1 := ⟨depth - 1, by omega⟩
      rw [(h p hp).size_eq] at hold'
      exact ih p hp (by omega) hold' m (by omega)
    have hlen : ((layoutOf (.object ps)).fill old).length = 1 + propertiesSize ps + 3 := by
      rw [Layout.fill_length, (Plain.object ps hkeys hkey h).size_eq, Amf0Data.size]
      rwa [(Plain.object ps hkeys hkey h).size_eq, Amf0Data.size]
    have hread (rest : Bytes) {fuel : ℕ} (hfuel : ps.length < fuel) :
        decodeProperties (decodeNested depth) fuel []
            ((propertiesLayout ps).fill (old.drop 1) ++ (objEnd ++ rest)) 1 =
          .ok ([] ++ ps, 1 + (propertiesLayout ps).size + 3) :=
      decodeProperties_fill hmem (fun p hp ↦ (h p hp).switch.1) hkey (by omega) hfuel [] hkeys
        (by rw [List.length_drop]; omega) rest 1
    refine ⟨rfl, fun rest ↦ ?_⟩
    have hfill : (layoutOf (.object ps)).fill old ++ rest = Amf0Type.object.marker ::
        ((propertiesLayout ps).fill (old.drop 1) ++ (objEnd ++ rest)) := by
      simp only [layoutOf, Layout.fill, Layout.size_put, List.length_singleton,
        List.append_assoc, List.cons_append, List.nil_append]
    rw [hlen, hfill, decodeNested, Amf0Data.getType, decodeClass, decodeObject, if_neg (by simp),
      hread rest, Outcome.ok_bind, List.nil_append, hps]
    · rfl
    · have hcount := length_le_propertiesSize ps
      rw [List.length_append, Layout.fill_length _ (by rw [List.length_drop]; omega)]
      omega

end Decode

section Nesting

variable {dec dec' : Amf0Type → Bytes → Decoded}

def Agree (dec dec' : Amf0Type → Bytes → Decoded) (n : ℕ) : Prop :=
  ∀ data : Bytes, data.length ≤ n → ∀ type, dec type data = dec' type data

theorem Agree.mono {m n : ℕ} (h : Agree dec dec' n) (hm : m ≤ n) : Agree dec dec' m :=
  fun data hd ↦ h data (hd.trans hm)

theorem Agree.value {data : Bytes} (h : Agree dec dec' data.length)
    (switch : UInt8 → Option Amf0Type) (noClass noValue : ℤ) :
    decodeValue dec switch noClass noValue data = decodeValue dec' switch noClass noValue data := by
  cases data with
  | nil => rfl
  | cons marker data => simp only [decodeValue, h _ le_rfl]

theorem Agree.properties {data : Bytes} (h : Agree dec dec' data.length) (fuel : ℕ)
    (acc : List (Bytes × Amf0Data)) (pos : ℕ) :
    decodeProperties dec fuel acc data pos = decodeProperties dec' fuel acc data pos := by
  induction fuel generalizing acc data pos with
  | zero => rfl
  | succ fuel ih =>
    have hleft (n : ℕ) : Agree dec dec' (data.drop n).length := h.mono (by rw [List.length_drop]; omega)
    have hrest (n m : ℕ) : Agree dec dec' ((data.drop n).drop m).length :=
      (hleft n).mono (by rw [List.length_drop]; omega)
    simp only [decodeProperties, (hleft _).value, ih (hrest _ _)]

theorem Agree.entries {data : Bytes} (h : Agree dec dec' data.length) (count : ℕ)
    (acc : List (Bytes × Amf0Data)) (pos : ℕ) :
    decodeEntries dec count acc data pos = decodeEntries dec' count acc data pos := by
  induction count generalizing acc data pos with
  | zero => rfl
  | succ count ih =>
    have hleft (n : ℕ) : Agree dec dec' (data.drop n).length := h.mono (by rw [List.length_drop]; omega)
    have hrest (n m : ℕ) : Agree dec dec' ((data.drop n).drop m).length :=
      (hleft n).mono (by rw [List.length_drop]; omega)
    simp only [decodeEntries, (hleft _).value, ih (hrest _ _)]

theorem Agree.datas {data : Bytes} (h : Agree dec dec' data.length) (count : ℕ)
    (acc : List Amf0Data) (pos : ℕ) :
    decodeDatas dec count acc data pos = decodeDatas dec' count acc data pos := by
  induction count generalizing acc data pos with
  | zero => rfl
  | succ count ih =>
    have hrest (n : ℕ) : Agree dec dec' (data.drop n).length := h.mono (by rw [List.length_drop]; omega)
    simp only [decodeDatas, h.value, ih (hrest _)]

/-- A class calls the classes of its values on shorter data only. -/
theorem Agree.decodeClass {n : ℕ} (h : Agree dec dec' n) :
    Agree (decodeClass dec) (decodeClass dec') (n + 1) := by
  intro data hd type
  cases data with
  | nil => cases type <;> rfl
  | cons marker rest =>
    have hr : rest.length ≤ n := Nat.le_of_succ_le_succ hd
    have hdrop : Agree dec dec' (rest.drop 4).length := h.mono (by rw [List.length_drop]; omega)
    cases type with
    | object => simp only [Data.decodeClass, decodeObject, (h.mono hr).properties]
    | ecmaArray => simp only [Data.decodeClass, decodeEcmaArray, hdrop.entries]
    | strictArray => simp only [Data.decodeClass, decodeStrictArray, hdrop.datas]
    | number | boolean | string | null | undefined | reference | date => rfl

/-- More levels than bytes change nothing: the bound of `decode` is never reached. -/
theorem decodeNested_agree {n m m' : ℕ} (hm : n < m) (hm' : n < m') :
    Agree (decodeNested m) (decodeNested m') n := by
  induction n generalizing m m' with
  | zero =>
    obtain ⟨m, rfl⟩ : ∃ k, m = k + 1 := ⟨m - 1, by omega⟩
    obtain ⟨m', rfl⟩ : ∃ k, m' = k + 1 := ⟨m' - 1, by omega⟩
    intro data hd type
    rw [List.eq_nil_of_length_eq_zero (Nat.le_zero.mp hd)]
    cases type <;> rfl
  | succ n ih =>
    obtain ⟨m, rfl⟩ : ∃ k, m = k + 1 := ⟨m - 1, by omega⟩
    obtain ⟨m', rfl⟩ : ∃ k, m' = k + 1 := ⟨m' - 1, by omega⟩
    exact (ih (by omega) (by omega)).decodeClass

theorem decode_eq_decodeNested {data : Bytes} {depth : ℕ} (h : data.length < depth)
    (type : Amf0Type) : decode type data = decodeNested depth type data :=
  decodeNested_agree (Nat.lt_succ_self _) h data le_rfl type

end Nesting

/-- The encoding returns `size()`, and from the bytes it wrote and whatever
follows, the class reads the same value and consumes as many. -/
def RoundTrips (t : Amf0Data) (buf : Bytes) : Prop :=
  ∃ written after, t.encode buf = .ok (written, after) ∧ written.toInt = t.size ∧
    ∀ rest, ∃ consumed, decode t.getType (after.take t.size ++ rest) = .ok (t, consumed) ∧
      consumed.toInt = t.size

theorem RoundTrips.size_lt {t : Amf0Data} {buf : Bytes} (h : RoundTrips t buf) :
    t.size < 2 ^ 31 := by
  obtain ⟨written, after, -, hw, -⟩ := h
  have hlt := BitVec.toInt_lt (x := written)
  omega

/-- A value that its class reads back from what was written makes the round trip. -/
theorem roundTrips_of_decodesFrom {t : Amf0Data} {buf : Bytes}
    (hl : (layoutOf t).size = t.size) (hs : t.size < 2 ^ 31) (hb : t.size ≤ buf.length)
    (h : ∀ depth, t.size < depth → DecodesFrom depth t ((layoutOf t).fill buf)) :
    RoundTrips t buf := by
  have hlen : ((layoutOf t).fill buf).length = t.size := by
    rw [Layout.fill_length _ (by omega), hl]
  refine ⟨_, _, encode_encodes t buf (by omega) (by omega), by rw [int32_toInt (by omega), hl], ?_⟩
  intro rest
  refine ⟨int32 t.size, ?_, int32_toInt hs⟩
  rw [List.take_left' hlen, Data.decode, (h _ _).decode, hlen]
  rw [List.length_append]
  omega

/-- Object trees make the round trip as long as their size is an `int32_t`. -/
theorem plain_roundTrips_iff (t : Amf0Data) (h : Plain t) (buf : Bytes)
    (hb : buf.length = t.size) : RoundTrips t buf ↔ t.size < 2 ^ 31 := by
  constructor
  · intro hr
    exact hr.size_lt
  · intro hs
    apply roundTrips_of_decodesFrom h.size_eq hs (by omega)
    intro depth hd
    exact h.decodesFrom hd hs (by omega)

def publishInfo : Amf0Data :=
  .object [([0x61], .number 0x4000000000000000), ([0x62], .object [([0x63], .string [0xff]), ([0x64], .null)])]

theorem publishInfo_plain : Plain publishInfo := by
  refine .object _ (by decide) (by decide) ?_
  intro p hp
  simp only [List.mem_cons, List.not_mem_nil, or_false] at hp
  rcases hp with rfl | rfl
  · exact .number _
  · refine .object _ (by decide) (by decide) ?_
    intro q hq
    simp only [List.mem_cons, List.not_mem_nil, or_false] at hq
    rcases hq with rfl | rfl
    · exact .string _ (by decide)
    · exact .null

theorem publishInfo_roundTrips_iff : (List.replicate 34 (0 : UInt8)).length = publishInfo.size ∧
    (RoundTrips publishInfo (List.replicate 34 0) ↔ publishInfo.size < 2 ^ 31) :=
  ⟨by decide, plain_roundTrips_iff publishInfo publishInfo_plain (List.replicate 34 0) (by decide)⟩

def doubled : ℕ → Amf0Data
  | 0 => .string (List.replicate 65535 0)
  | n + 1 => .object [([0x61], doubled n), ([0x62], doubled n)]

theorem doubled_plain (n : ℕ) : Plain (doubled n) := by
  induction n with
  | zero => exact .string _ (by rw [List.length_replicate])
  | succ n ih =>
    refine .object _ (by simp) (by simp) ?_
    intro p hp
    simp only [List.mem_cons, List.not_mem_nil, or_false] at hp
    rcases hp with rfl | rfl
    · exact ih
    · exact ih

theorem doubled_size (n : ℕ) : 65535 * 2 ^ n ≤ (doubled n).size := by
  induction n with
  | zero =>
    rw [doubled, Amf0Data.size, List.length_replicate]
    omega
  | succ n ih =>
    simp only [doubled, Amf0Data.size, propertiesSize, Nat.pow_succ]
    omega

theorem doubled_overflows : Plain (doubled 16) ∧
    ¬ RoundTrips (doubled 16) (List.replicate (doubled 16).size 0) := by
  refine ⟨doubled_plain 16, ?_⟩
  intro h
  have hlt := h.size_lt
  have hge := doubled_size 16
  omega

end MmsServer.Amf0.RoundTrip
