import Mathlib.Algebra.Order.Ring.Nat
import Mathlib.Tactic.Common

namespace MmsServer.Lib.ByteReader

abbrev Bytes := List UInt8

/-- A reader takes a value from the front of a buffer and leaves the bytes
behind it. It fails when the buffer ends too early. -/
abbrev Reader (α : Type) := StateT Bytes Option α

variable {α β : Type}

/-- On a buffer that starts with `hd` the reader returns `a` and consumes `hd`. -/
def Yields (r : Reader α) (hd : Bytes) (a : α) : Prop := ∀ rest, r (hd ++ rest) = some (a, rest)

/-- What a reader returns is determined by the bytes it consumes. -/
def Delimited (r : Reader α) : Prop :=
  ∀ bs a rest, r bs = some (a, rest) → ∃ hd, bs = hd ++ rest ∧ Yields r hd a

theorem bind_some {r : Reader α} {k : α → Reader β} {bs rest : Bytes} {a : α}
    (h : r bs = some (a, rest)) : (r >>= k) bs = k a rest := by
  change (r bs).bind _ = _
  rw [h]
  rfl

theorem bind_none {r : Reader α} {k : α → Reader β} {bs : Bytes} (h : r bs = none) :
    (r >>= k) bs = none := by
  change (r bs).bind _ = _
  rw [h]
  rfl

theorem bind_eq_some {r : Reader α} {k : α → Reader β} {bs rest : Bytes} {b : β} :
    (r >>= k) bs = some (b, rest) ↔ ∃ a mid, r bs = some (a, mid) ∧ k a mid = some (b, rest) := by
  constructor
  · intro h
    cases hr : r bs with
    | none => rw [bind_none hr] at h; cases h
    | some p => exact ⟨p.1, p.2, rfl, by rwa [bind_some hr] at h⟩
  · rintro ⟨a, mid, hr, hk⟩
    rw [bind_some hr, hk]

theorem pure_eq_some {a b : α} {bs rest : Bytes} :
    (Pure.pure a : Reader α) bs = some (b, rest) ↔ a = b ∧ bs = rest := by
  change some (a, bs) = some (b, rest) ↔ _
  rw [Option.some_inj, Prod.mk.injEq]

theorem Yields.pure (a : α) : Yields (Pure.pure a) [] a := fun _ ↦ rfl

theorem Yields.bind {r : Reader α} {k : α → Reader β} {hd hd' : Bytes} {a : α} {b : β}
    (h : Yields r hd a) (h' : Yields (k a) hd' b) : Yields (r >>= k) (hd ++ hd') b := by
  intro rest
  rw [List.append_assoc, bind_some (h _), h']

theorem Delimited.pure (a : α) : Delimited (Pure.pure a : Reader α) := by
  intro bs b rest h
  obtain ⟨rfl, rfl⟩ := pure_eq_some.mp h
  exact ⟨[], rfl, .pure a⟩

theorem Delimited.bind {r : Reader α} {k : α → Reader β} (h : Delimited r)
    (h' : ∀ a, Delimited (k a)) : Delimited (r >>= k) := by
  intro bs b rest hb
  obtain ⟨a, mid, hr, hk⟩ := bind_eq_some.mp hb
  obtain ⟨hd, rfl, hy⟩ := h bs a mid hr
  obtain ⟨hd', rfl, hy'⟩ := h' a mid b rest hk
  exact ⟨hd ++ hd', (List.append_assoc ..).symm, hy.bind hy'⟩

theorem Delimited.ite {p : Prop} [Decidable p] {r r' : Reader α} (h : Delimited r)
    (h' : Delimited r') : Delimited (if p then r else r') := by
  split
  · exact h
  · exact h'

theorem Delimited.append {r : Reader α} (h : Delimited r) {bs rest : Bytes} {a : α}
    (hr : r bs = some (a, rest)) (ext : Bytes) : r (bs ++ ext) = some (a, rest ++ ext) := by
  obtain ⟨hd, rfl, hy⟩ := h bs a rest hr
  rw [List.append_assoc, hy]

theorem Delimited.length {r : Reader α} (h : Delimited r) {bs rest : Bytes} {a : α}
    (hr : r bs = some (a, rest)) : rest.length ≤ bs.length := by
  obtain ⟨hd, rfl, -⟩ := h bs a rest hr
  rw [List.length_append]
  omega

def fromBE : Bytes → ℕ
  | [] => 0
  | b :: bs => b.toNat * 256 ^ bs.length + fromBE bs

def putBE : ℕ → ℕ → Bytes
  | 0, _ => []
  | k + 1, v => UInt8.ofNat (v / 256 ^ k) :: putBE k v

def readBE (k : ℕ) : Reader ℕ := fun bs ↦
  if bs.length < k then none else some (fromBE (bs.take k), bs.drop k)

theorem putBE_length (k v : ℕ) : (putBE k v).length = k := by
  induction k with
  | zero => rfl
  | succ k ih => simp only [putBE, List.length_cons, ih]

theorem fromBE_putBE (k v : ℕ) : fromBE (putBE k v) = v % 256 ^ k := by
  induction k with
  | zero => simp [putBE, fromBE, Nat.mod_one]
  | succ k ih =>
    have hb : (UInt8.ofNat (v / 256 ^ k)).toNat = v / 256 ^ k % 256 := by simp
    have hm : v % 256 ^ (k + 1) = v % 256 ^ k + 256 ^ k * (v / 256 ^ k % 256) := by
      rw [Nat.pow_succ, Nat.mod_mul]
    rw [putBE, fromBE, ih, putBE_length, hb, hm, Nat.mul_comm, Nat.add_comm]

theorem fromBE_lt (bs : Bytes) : fromBE bs < 256 ^ bs.length := by
  induction bs with
  | nil => simp [fromBE]
  | cons b bs ih =>
    have hb : b.toNat < 256 := b.toNat_lt
    rw [fromBE, List.length_cons, Nat.pow_succ]
    calc b.toNat * 256 ^ bs.length + fromBE bs
        < b.toNat * 256 ^ bs.length + 256 ^ bs.length := Nat.add_lt_add_left ih _
      _ = (b.toNat + 1) * 256 ^ bs.length := by rw [Nat.add_mul, Nat.one_mul]
      _ ≤ 256 * 256 ^ bs.length := Nat.mul_le_mul_right _ (by omega)
      _ = 256 ^ bs.length * 256 := Nat.mul_comm _ _

theorem fromBE_inj {bs bs' : Bytes} (hl : bs.length = bs'.length) (h : fromBE bs = fromBE bs') :
    bs = bs' := by
  induction bs generalizing bs' with
  | nil => exact (List.length_eq_zero_iff.mp hl.symm).symm
  | cons b bs ih =>
    cases bs' with
    | nil => cases hl
    | cons b' bs' =>
      have hl : bs.length = bs'.length := Nat.succ.inj hl
      have hx := fromBE_lt bs
      have hy := fromBE_lt bs'
      rw [← hl] at hy
      rw [fromBE, fromBE, ← hl] at h
      have hb : b.toNat = b'.toNat := by
        have hd := congrArg (· / 256 ^ bs.length) h
        simpa only [Nat.mul_comm _ (256 ^ bs.length), Nat.mul_add_div (Nat.pow_pos (by decide : 0 < 256)),
          Nat.div_eq_of_lt hx, Nat.div_eq_of_lt hy, Nat.add_zero] using hd
      rw [hb, Nat.add_left_cancel_iff] at h
      rw [UInt8.toNat_inj.mp hb, ih hl h]

theorem putBE_fromBE (bs : Bytes) : putBE bs.length (fromBE bs) = bs := by
  apply fromBE_inj
  · rw [putBE_length]
  · rw [fromBE_putBE, Nat.mod_eq_of_lt (fromBE_lt bs)]

theorem putBE_mod (k v : ℕ) : putBE k (v % 256 ^ k) = putBE k v := by
  apply fromBE_inj
  · rw [putBE_length, putBE_length]
  · rw [fromBE_putBE, fromBE_putBE, Nat.mod_mod]

theorem readBE_of_length {k : ℕ} {hd : Bytes} (h : hd.length = k) :
    Yields (readBE k) hd (fromBE hd) := by
  intro rest
  have hl : ¬ (hd ++ rest).length < k := by rw [List.length_append]; omega
  rw [readBE, if_neg hl, List.take_append_of_le_length (by omega),
    List.take_of_length_le (by omega), List.drop_append_of_le_length (by omega),
    List.drop_of_length_le (by omega), List.nil_append]

theorem readBE_eq_some {k : ℕ} {bs rest : Bytes} {v : ℕ} (h : readBE k bs = some (v, rest)) :
    ∃ hd, hd.length = k ∧ bs = hd ++ rest ∧ v = fromBE hd := by
  unfold readBE at h
  split at h
  · cases h
  · cases h
    exact ⟨bs.take k, by rw [List.length_take]; omega, (List.take_append_drop k bs).symm, rfl⟩

/-- What has been read can be written again. -/
theorem readBE_inv {k : ℕ} {bs rest : Bytes} {v : ℕ} (h : readBE k bs = some (v, rest)) :
    bs = putBE k v ++ rest := by
  obtain ⟨hd, rfl, rfl, rfl⟩ := readBE_eq_some h
  rw [putBE_fromBE]

theorem readBE_delimited (k : ℕ) : Delimited (readBE k) := by
  intro bs v rest h
  obtain ⟨hd, hl, rfl, rfl⟩ := readBE_eq_some h
  exact ⟨hd, rfl, readBE_of_length hl⟩

theorem readBE_length {k : ℕ} {bs rest : Bytes} {v : ℕ} (h : readBE k bs = some (v, rest)) :
    bs.length = k + rest.length := by
  obtain ⟨hd, hl, rfl, -⟩ := readBE_eq_some h
  rw [List.length_append, hl]

theorem readBE_lt {k : ℕ} {bs rest : Bytes} {v : ℕ} (h : readBE k bs = some (v, rest)) :
    v < 256 ^ k := by
  obtain ⟨hd, rfl, -, rfl⟩ := readBE_eq_some h
  exact fromBE_lt hd

theorem readBE_bind_length {k : ℕ} {f : ℕ → Reader β} (hf : ∀ v, Delimited (f v)) {bs rest : Bytes}
    {b : β} (h : (readBE k >>= f) bs = some (b, rest)) : k + rest.length ≤ bs.length := by
  obtain ⟨v, mid, hv, hb⟩ := bind_eq_some.mp h
  have hl := readBE_length hv
  have hm := (hf v).length hb
  omega

theorem readBE_putBE (k v : ℕ) : Yields (readBE k) (putBE k v) (v % 256 ^ k) := by
  have h := readBE_of_length (putBE_length k v)
  rwa [fromBE_putBE] at h

theorem readBE_putBE_of_lt {k v : ℕ} (h : v < 256 ^ k) : Yields (readBE k) (putBE k v) v := by
  have hr := readBE_putBE k v
  rwa [Nat.mod_eq_of_lt h] at hr

end MmsServer.Lib.ByteReader
