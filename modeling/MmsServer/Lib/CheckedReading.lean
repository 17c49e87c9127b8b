import MmsServer.Lib.Checked
import Mathlib.Data.List.Basic

namespace MmsServer.Lib.CheckedReading

open ByteReader Checked

/-- A reader takes a value from the front of what is left of a buffer. It can leave with
a code, and faults when it touches bytes behind the end. -/
abbrev CheckedReader (α : Type) := StateT Bytes Outcome α

variable {α β γ : Type}

def need (n : ℕ) (code : ℤ) : CheckedReader Unit := fun data ↦
  if data.length < n then .err code else .ok ((), data)

def loadBytes (n : ℕ) : CheckedReader Bytes := fun data ↦
  if data.length < n then .fault .overread else .ok (data.take n, data.drop n)

def loadBE (k : ℕ) : CheckedReader ℕ := do return fromBE (← loadBytes k)

def peekBytes (n : ℕ) (code : ℤ) : CheckedReader Bytes := do
  need n code
  fun data ↦ if data.length < n then .fault .overread else .ok (data.take n, data)

def getBytes (n : ℕ) (code : ℤ) : CheckedReader Bytes := do
  need n code
  loadBytes n

def getBE (k : ℕ) (code : ℤ) : CheckedReader ℕ := do
  need k code
  loadBE k

def getByte (code : ℤ) : CheckedReader UInt8 := fun data ↦
  match data with
  | [] => .err code
  | b :: rest => .ok (b, rest)

def many (r : CheckedReader α) : ℕ → CheckedReader (List α)
  | 0 => pure []
  | n + 1 => do
    let a ← r
    let as ← many r n
    return a :: as

def orReturn (code : ℤ) (r : CheckedReader α) : CheckedReader α := fun data ↦
  (r data).orReturn code

/-- The reader without its codes and faults. -/
def erase (r : CheckedReader α) : Reader α := fun data ↦
  match r data with
  | .ok p => some p
  | _ => none

/-- On a buffer that starts with `hd` the reader returns `a` and consumes `hd`. -/
def Gives (r : CheckedReader α) (hd : Bytes) (a : α) : Prop :=
  ∀ rest, r (hd ++ rest) = .ok (a, rest)

def InBounds (r : CheckedReader α) : Prop := ∀ data f, r data ≠ .fault f

/-- What is read ends with its last byte, and with fewer bytes the reader leaves with its only
code. -/
structure Framed (code : ℤ) (r : CheckedReader α) : Prop where
  ends : ∀ data a rest, r data = .ok (a, rest) →
    ∃ hd, data = hd ++ rest ∧ Gives r hd a ∧ ∀ n < hd.length, r (hd.take n) = .err code
  leaves : ∀ data c, r data = .err c → c = code

/-- What has been read can be written again. -/
def Inverts (r : CheckedReader α) (encode : α → Bytes) : Prop :=
  ∀ data a rest, r data = .ok (a, rest) → data = encode a ++ rest

theorem bind_apply (r : CheckedReader α) (k : α → CheckedReader β) (data : Bytes) :
    (r >>= k) data = (r data >>= fun p ↦ k p.1 p.2) := rfl

theorem bind_eq_ok {r : CheckedReader α} {k : α → CheckedReader β} {data rest : Bytes} {b : β} :
    (r >>= k) data = .ok (b, rest) ↔ ∃ a mid, r data = .ok (a, mid) ∧ k a mid = .ok (b, rest) := by
  simp only [bind_apply, Outcome.bind_eq_ok, Prod.exists]

theorem pure_eq_ok {a b : α} {data rest : Bytes} :
    (Pure.pure a : CheckedReader α) data = .ok (b, rest) ↔ a = b ∧ data = rest := by
  change Outcome.ok (a, data) = .ok (b, rest) ↔ _
  simp only [Outcome.ok.injEq, Prod.mk.injEq]

section Gives

theorem Gives.pure (a : α) : Gives (Pure.pure a) [] a := fun _ ↦ rfl

theorem Gives.bind {r : CheckedReader α} {k : α → CheckedReader β} {hd hd' : Bytes} {a : α} {b : β}
    (h : Gives r hd a) (h' : Gives (k a) hd' b) : Gives (r >>= k) (hd ++ hd') b := by
  intro rest
  simp only [bind_apply, List.append_assoc, h (hd' ++ rest), Outcome.ok_bind, h' rest]

theorem Gives.map {r : CheckedReader α} {hd : Bytes} {a : α} (h : Gives r hd a) (g : α → β) :
    Gives (r >>= fun a ↦ Pure.pure (g a)) hd (g a) := by
  have hb := h.bind (k := fun a ↦ Pure.pure (g a)) (.pure (g a))
  rwa [List.append_nil] at hb

theorem Gives.orReturn {r : CheckedReader α} {hd : Bytes} {a : α} (h : Gives r hd a) (code : ℤ) :
    Gives (orReturn code r) hd a := by
  intro rest
  rw [CheckedReading.orReturn, h rest, Outcome.orReturn_ok]

/-- A check that leaves when bytes are missing that are read behind it anyway. -/
theorem Gives.behind_need {k : Unit → CheckedReader α} {hd : Bytes} {a : α} (h : Gives (k ()) hd a)
    {n : ℕ} (hn : n ≤ hd.length) (code : ℤ) : Gives (need n code >>= k) hd a := by
  intro rest
  have hlen : ¬ (hd ++ rest).length < n := by
    rw [List.length_append]
    omega
  simp only [bind_apply, need, hlen, if_false, Outcome.ok_bind, h rest]

theorem Gives.bind_apply {r : CheckedReader α} {hd : Bytes} {a : α} (h : Gives r hd a)
    (k : α → CheckedReader β) (rest : Bytes) : (r >>= k) (hd ++ rest) = k a rest := by
  rw [CheckedReading.bind_apply, h rest, Outcome.ok_bind]

theorem gives_loadBE {k v : ℕ} (h : v < 256 ^ k) : Gives (loadBE k) (putBE k v) v := by
  intro rest
  have hlen : ¬ (putBE k v ++ rest).length < k := by
    rw [List.length_append, putBE_length]
    omega
  simp only [loadBE, bind_apply, loadBytes, hlen, if_false, Outcome.ok_bind,
    List.take_left' (putBE_length k v), List.drop_left' (putBE_length k v), fromBE_putBE,
    Nat.mod_eq_of_lt h]
  rfl

theorem gives_getBytes {bs : Bytes} {n : ℕ} (h : bs.length = n) (code : ℤ) :
    Gives (getBytes n code) bs bs := by
  intro rest
  have hlen : ¬ (bs ++ rest).length < n := by
    rw [List.length_append]
    omega
  simp only [getBytes, bind_apply, need, loadBytes, hlen, if_false, Outcome.ok_bind,
    List.take_left' h, List.drop_left' h]

theorem gives_getBE_bytes {bs : Bytes} {k : ℕ} (h : bs.length = k) (code : ℤ) :
    Gives (getBE k code) bs (fromBE bs) := by
  intro rest
  have hlen : ¬ (bs ++ rest).length < k := by
    rw [List.length_append]
    omega
  simp only [getBE, loadBE, bind_apply, need, loadBytes, hlen, if_false, Outcome.ok_bind,
    List.take_left' h, List.drop_left' h]
  rfl

theorem gives_getBE {k v : ℕ} (h : v < 256 ^ k) (code : ℤ) :
    Gives (getBE k code) (putBE k v) v := by
  have hg := gives_getBE_bytes (putBE_length k v) code
  rwa [fromBE_putBE, Nat.mod_eq_of_lt h] at hg

theorem gives_getByte (b : UInt8) (code : ℤ) : Gives (getByte code) [b] b := fun _ ↦ rfl

theorem Gives.many {r : CheckedReader β} {f : α → Bytes} {g : α → β} {as : List α}
    (h : ∀ a ∈ as, Gives r (f a) (g a)) :
    Gives (many r as.length) (as.flatMap f) (as.map g) := by
  induction as with
  | nil => exact .pure []
  | cons a as ih =>
    have hrest := ih fun b hb ↦ h b (List.mem_cons_of_mem a hb)
    exact (h a List.mem_cons_self).bind (hrest.map fun bs ↦ g a :: bs)

end Gives

section InBounds

theorem InBounds.pure (a : α) : InBounds (Pure.pure a : CheckedReader α) := by
  intro data f h
  cases h

theorem InBounds.bind {r : CheckedReader α} {k : α → CheckedReader β} (h : InBounds r)
    (h' : ∀ a, InBounds (k a)) : InBounds (r >>= k) := by
  intro data f hf
  rw [bind_apply] at hf
  cases hr : r data with
  | ok p =>
    rw [hr, Outcome.ok_bind] at hf
    exact h' p.1 p.2 f hf
  | err code => rw [hr, Outcome.err_bind] at hf; cases hf
  | fault f' => exact h data f' hr

theorem InBounds.ite {p : Prop} [Decidable p] {r r' : CheckedReader α} (h : InBounds r)
    (h' : InBounds r') : InBounds (if p then r else r') := by
  split
  · exact h
  · exact h'

theorem inBounds_getBytes (n : ℕ) (code : ℤ) : InBounds (getBytes n code) := by
  intro data f h
  by_cases hlen : data.length < n
  · simp [getBytes, bind_apply, need, hlen] at h
  · simp [getBytes, bind_apply, need, loadBytes, hlen] at h

theorem inBounds_getBE (k : ℕ) (code : ℤ) : InBounds (getBE k code) := by
  intro data f h
  by_cases hlen : data.length < k
  · simp [getBE, bind_apply, need, hlen] at h
  · simp only [getBE, loadBE, bind_apply, need, loadBytes, hlen, if_false, Outcome.ok_bind] at h
    cases h

theorem inBounds_getByte (code : ℤ) : InBounds (getByte code) := by
  intro data f h
  cases data with
  | nil => cases h
  | cons b rest => cases h

theorem InBounds.map {r : CheckedReader α} (h : InBounds r) (g : α → β) : InBounds (g <$> r) := by
  intro data f hf
  simp only [Functor.map, StateT.map] at hf
  cases hr : r data with
  | ok p => rw [hr] at hf; cases hf
  | err e => rw [hr] at hf; cases hf
  | fault f' => exact h data f' hr

theorem InBounds.orReturn {r : CheckedReader α} (h : InBounds r) (code : ℤ) :
    InBounds (orReturn code r) := by
  intro data f hf
  rw [CheckedReading.orReturn] at hf
  cases hr : r data with
  | ok p => rw [hr] at hf; cases hf
  | err e => rw [hr] at hf; cases hf
  | fault f' => exact h data f' hr

theorem inBounds_peekBytes (n : ℕ) (code : ℤ) : InBounds (peekBytes n code) := by
  intro data f h
  by_cases hlen : data.length < n
  · simp [peekBytes, bind_apply, need, hlen] at h
  · simp [peekBytes, bind_apply, need, hlen] at h

theorem InBounds.many {r : CheckedReader α} (h : InBounds r) (n : ℕ) : InBounds (many r n) := by
  induction n with
  | zero => exact .pure []
  | succ n ih => exact h.bind fun a ↦ ih.bind fun as ↦ .pure (a :: as)

end InBounds

section Inverts

theorem getBytes_eq_ok {n : ℕ} {code : ℤ} {data bs rest : Bytes}
    (h : getBytes n code data = .ok (bs, rest)) : data = bs ++ rest ∧ bs.length = n := by
  by_cases hlen : data.length < n
  · simp [getBytes, bind_apply, need, hlen] at h
  · simp only [getBytes, bind_apply, need, loadBytes, hlen, if_false, Outcome.ok_bind,
      Outcome.ok.injEq, Prod.mk.injEq] at h
    obtain ⟨rfl, rfl⟩ := h
    exact ⟨(List.take_append_drop n data).symm, by rw [List.length_take]; omega⟩

theorem getBE_eq_bytes {k : ℕ} {code : ℤ} {data rest : Bytes} {v : ℕ}
    (h : getBE k code data = .ok (v, rest)) :
    ∃ bs, data = bs ++ rest ∧ bs.length = k ∧ v = fromBE bs := by
  by_cases hlen : data.length < k
  · simp [getBE, bind_apply, need, hlen] at h
  · simp only [getBE, loadBE, bind_apply, need, loadBytes, hlen, if_false, Outcome.ok_bind] at h
    obtain ⟨hv, hrest⟩ := pure_eq_ok.mp h
    exact ⟨data.take k, by rw [← hrest, List.take_append_drop], by rw [List.length_take]; omega,
      hv.symm⟩

theorem getBE_eq_ok {k : ℕ} {code : ℤ} {data rest : Bytes} {v : ℕ}
    (h : getBE k code data = .ok (v, rest)) : data = putBE k v ++ rest ∧ v < 256 ^ k := by
  obtain ⟨bs, rfl, rfl, rfl⟩ := getBE_eq_bytes h
  exact ⟨by rw [putBE_fromBE], fromBE_lt bs⟩

theorem getByte_eq_ok {code : ℤ} {data rest : Bytes} {b : UInt8}
    (h : getByte code data = .ok (b, rest)) : data = b :: rest := by
  cases data with
  | nil => cases h
  | cons b' rest' =>
    cases h
    rfl

theorem Inverts.many {r : CheckedReader α} {encode : α → Bytes} (h : Inverts r encode) (n : ℕ) :
    Inverts (many r n) (List.flatMap encode) := by
  induction n with
  | zero =>
    intro data as rest hm
    obtain ⟨rfl, rfl⟩ := pure_eq_ok.mp hm
    rfl
  | succ n ih =>
    intro data as rest hm
    obtain ⟨a, mid, ha, hm⟩ := bind_eq_ok.mp hm
    obtain ⟨as', last, has, hm⟩ := bind_eq_ok.mp hm
    obtain ⟨rfl, rfl⟩ := pure_eq_ok.mp hm
    rw [h data a mid ha, ih mid as' last has, List.flatMap_cons, List.append_assoc]

theorem many_length {r : CheckedReader α} {n : ℕ} {data rest : Bytes} {as : List α}
    (h : many r n data = .ok (as, rest)) : as.length = n := by
  induction n generalizing data rest as with
  | zero =>
    obtain ⟨rfl, -⟩ := pure_eq_ok.mp h
    rfl
  | succ n ih =>
    obtain ⟨a, mid, -, h⟩ := bind_eq_ok.mp h
    obtain ⟨as', last, has, h⟩ := bind_eq_ok.mp h
    obtain ⟨rfl, -⟩ := pure_eq_ok.mp h
    rw [List.length_cons, ih has]

/-- What holds of each item that is read holds of all. -/
theorem many_forall {r : CheckedReader α} {P : α → Prop}
    (hP : ∀ data a rest, r data = .ok (a, rest) → P a) {n : ℕ} {data rest : Bytes} {as : List α}
    (h : many r n data = .ok (as, rest)) : ∀ a ∈ as, P a := by
  induction n generalizing data rest as with
  | zero =>
    obtain ⟨rfl, -⟩ := pure_eq_ok.mp h
    simp
  | succ n ih =>
    obtain ⟨a, mid, ha, h⟩ := bind_eq_ok.mp h
    obtain ⟨as', last, has, h⟩ := bind_eq_ok.mp h
    obtain ⟨rfl, -⟩ := pure_eq_ok.mp h
    exact List.forall_mem_cons.mpr ⟨hP data a mid ha, ih has⟩

end Inverts

section Framed

variable {code : ℤ}

theorem getBytes_short {n : ℕ} {data : Bytes} (h : data.length < n) :
    getBytes n code data = .err code := by
  simp only [getBytes, bind_apply, need, h, if_true, Outcome.err_bind]

theorem getBE_short {k : ℕ} {data : Bytes} (h : data.length < k) :
    getBE k code data = .err code := by
  simp only [getBE, bind_apply, need, h, if_true, Outcome.err_bind]

theorem framed_pure (a : α) : Framed code (Pure.pure a) where
  ends := by
    intro data b rest h
    obtain ⟨rfl, rfl⟩ := pure_eq_ok.mp h
    exact ⟨[], rfl, .pure a, by simp⟩
  leaves := by
    intro data c h
    cases h

theorem framed_getBytes (n : ℕ) : Framed code (getBytes n code) where
  ends := by
    intro data bs rest h
    obtain ⟨rfl, hlen⟩ := getBytes_eq_ok h
    refine ⟨bs, rfl, gives_getBytes hlen code, fun m hm ↦ getBytes_short ?_⟩
    rw [List.length_take]
    omega
  leaves := by
    intro data c h
    by_cases hlen : data.length < n
    · rw [getBytes_short hlen] at h
      exact (Outcome.err.inj h).symm
    · simp [getBytes, bind_apply, need, loadBytes, hlen] at h

theorem framed_getBE (k : ℕ) : Framed code (getBE k code) where
  ends := by
    intro data v rest h
    obtain ⟨bs, rfl, hlen, rfl⟩ := getBE_eq_bytes h
    refine ⟨bs, rfl, gives_getBE_bytes hlen code, fun m hm ↦ getBE_short ?_⟩
    rw [List.length_take]
    omega
  leaves := by
    intro data c h
    by_cases hlen : data.length < k
    · rw [getBE_short hlen] at h
      exact (Outcome.err.inj h).symm
    · simp only [getBE, loadBE, bind_apply, need, loadBytes, hlen, if_false, Outcome.ok_bind] at h
      cases h

theorem Framed.bind {r : CheckedReader α} {k : α → CheckedReader β} (h : Framed code r)
    (h' : ∀ a, Framed code (k a)) : Framed code (r >>= k) where
  ends := by
    intro data b rest hd
    obtain ⟨a, mid, ha, hb⟩ := bind_eq_ok.mp hd
    obtain ⟨hd₁, rfl, hg₁, hs₁⟩ := h.ends data a mid ha
    obtain ⟨hd₂, rfl, hg₂, hs₂⟩ := (h' a).ends mid b rest hb
    refine ⟨hd₁ ++ hd₂, (List.append_assoc _ _ _).symm, hg₁.bind hg₂, fun n hn ↦ ?_⟩
    rw [List.length_append] at hn
    by_cases hn₁ : n < hd₁.length
    · rw [List.take_append_of_le_length hn₁.le, bind_apply, hs₁ n hn₁, Outcome.err_bind]
    · have htake : (hd₁ ++ hd₂).take n = hd₁ ++ hd₂.take (n - hd₁.length) := by
        rw [List.take_append, List.take_of_length_le (by omega)]
      rw [htake, hg₁.bind_apply, hs₂ _ (by omega)]
  leaves := by
    intro data c hc
    rw [bind_apply] at hc
    cases hr : r data with
    | ok p =>
      rw [hr, Outcome.ok_bind] at hc
      exact (h' p.1).leaves p.2 c hc
    | err e =>
      rw [hr, Outcome.err_bind] at hc
      exact (Outcome.err.inj hc).symm ▸ h.leaves data e hr
    | fault f => rw [hr, Outcome.fault_bind] at hc; cases hc

theorem Framed.ite {p : Prop} [Decidable p] {r r' : CheckedReader α} (h : Framed code r)
    (h' : Framed code r') : Framed code (if p then r else r') := by
  split
  · exact h
  · exact h'

/-- A reader that never returns. -/
theorem framed_of_fault {r : CheckedReader α} {f : Fault} (h : ∀ data, r data = .fault f) :
    Framed code r where
  ends := by
    intro data a rest ha
    rw [h data] at ha
    cases ha
  leaves := by
    intro data c hc
    rw [h data] at hc
    cases hc

end Framed

section Erase

theorem erase_apply (r : CheckedReader α) (data : Bytes) :
    erase r data = match r data with | .ok p => some p | _ => none := rfl

theorem erase_bind (r : CheckedReader α) (k : α → CheckedReader β) :
    erase (r >>= k) = (erase r >>= fun a ↦ erase (k a)) := by
  funext data
  change _ = (erase r data).bind fun p ↦ erase (k p.1) p.2
  rw [erase_apply, erase_apply, bind_apply]
  cases r data with
  | ok p => rfl
  | err code => rfl
  | fault f => rfl

theorem erase_pure (a : α) : erase (pure a) = (pure a : Reader α) := rfl

theorem erase_map (g : α → β) (r : CheckedReader α) : erase (g <$> r) = g <$> erase r := by
  funext data
  simp only [Functor.map, StateT.map, erase_apply]
  cases r data with
  | ok p => rfl
  | err code => rfl
  | fault f => rfl

theorem erase_ite (p : Prop) [Decidable p] (r r' : CheckedReader α) :
    erase (if p then r else r') = if p then erase r else erase r' := apply_ite erase p r r'

theorem erase_getBE (k : ℕ) (code : ℤ) : erase (getBE k code) = readBE k := by
  funext data
  by_cases hlen : data.length < k
  · simp [erase_apply, getBE, bind_apply, need, readBE, hlen]
  · simp only [erase_apply, getBE, loadBE, bind_apply, need, loadBytes, readBE, hlen, if_false,
      Outcome.ok_bind]
    rfl

theorem erase_orReturn (r : CheckedReader α) (code : ℤ) : erase (orReturn code r) = erase r := by
  funext data
  rw [erase_apply, erase_apply, orReturn]
  cases r data with
  | ok p => rfl
  | err e => rfl
  | fault f => rfl

end Erase

end MmsServer.Lib.CheckedReading
