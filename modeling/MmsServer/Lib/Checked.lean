import MmsServer.Lib.ByteReader

namespace MmsServer.Lib.Checked

open Lib.ByteReader

/-- What a program must not do with its buffers, counters and pointers. -/
inductive Fault
  | overread
  | overrun
  | wrap
  | pastEnd
  | nullDeref
deriving DecidableEq

/-- The end of a routine that can return an error code. Behind a fault nothing
is known about its behaviour. -/
inductive Outcome (α : Type)
  | ok (a : α)
  | err (code : ℤ)
  | fault (f : Fault)
deriving DecidableEq

namespace Outcome

variable {α β : Type}

def bind : Outcome α → (α → Outcome β) → Outcome β
  | .ok a, k => k a
  | .err code, _ => .err code
  | .fault f, _ => .fault f

instance : Monad Outcome where
  pure := .ok
  bind := bind

/-- A caller that answers every error of the routine with its own code. -/
def orReturn (code : ℤ) : Outcome α → Outcome α
  | .err _ => .err code
  | o => o

@[simp] theorem ok_bind (a : α) (k : α → Outcome β) : (ok a >>= k) = k a := rfl

@[simp] theorem err_bind (code : ℤ) (k : α → Outcome β) : (err code >>= k) = err code := rfl

@[simp] theorem fault_bind (f : Fault) (k : α → Outcome β) : (fault f >>= k) = fault f := rfl

@[simp] theorem pure_eq (a : α) : (pure a : Outcome α) = ok a := rfl

@[simp] theorem orReturn_ok (code : ℤ) (a : α) : orReturn code (ok a) = ok a := rfl

@[simp] theorem orReturn_err (code e : ℤ) : orReturn code (err e : Outcome α) = err code := rfl

@[simp] theorem orReturn_fault (code : ℤ) (f : Fault) :
    orReturn code (fault f : Outcome α) = fault f := rfl

theorem bind_eq_ok {o : Outcome α} {k : α → Outcome β} {b : β} :
    (o >>= k) = ok b ↔ ∃ a, o = ok a ∧ k a = ok b := by
  cases o with
  | ok a => simp
  | err code => simp
  | fault f => simp

theorem bind_eq_fault {o : Outcome α} {k : α → Outcome β} {f : Fault} :
    (o >>= k) = fault f ↔ o = fault f ∨ ∃ a, o = ok a ∧ k a = fault f := by
  cases o with
  | ok a => simp
  | err code => simp
  | fault f => simp

theorem orReturn_eq_ok {code : ℤ} {o : Outcome α} {a : α} :
    orReturn code o = ok a ↔ o = ok a := by
  cases o with
  | ok b => simp
  | err e => simp
  | fault f => simp

end Outcome

def slice (pos n : ℕ) (data : Bytes) : Outcome Bytes :=
  if pos + n ≤ data.length then .ok ((data.drop pos).take n) else .fault .overread

def load (k pos : ℕ) (data : Bytes) : Outcome ℕ := return fromBE (← slice pos k data)

theorem slice_ok {pos n : ℕ} {data : Bytes} (h : pos + n ≤ data.length) :
    slice pos n data = .ok ((data.drop pos).take n) := if_pos h

theorem slice_overread {pos n : ℕ} {data : Bytes} (h : data.length < pos + n) :
    slice pos n data = .fault .overread := if_neg (by omega)

theorem load_ok {k pos : ℕ} {data : Bytes} (h : pos + k ≤ data.length) :
    load k pos data = .ok (fromBE ((data.drop pos).take k)) := by
  rw [load, slice_ok h]
  rfl

theorem load_overread {k pos : ℕ} {data : Bytes} (h : data.length < pos + k) :
    load k pos data = .fault .overread := by
  rw [load, slice_overread h]
  rfl

theorem slice_append {pre mid post : Bytes} {pos n : ℕ} (hp : pre.length = pos)
    (hn : mid.length = n) :
    slice pos n (pre ++ (mid ++ post)) = .ok mid := by
  subst hp hn
  rw [slice_ok (by simp), List.drop_left, List.take_left]

theorem load_front {post : Bytes} {k v : ℕ} (hv : v < 256 ^ k) :
    load k 0 (putBE k v ++ post) = .ok v := by
  have hs : slice 0 k ([] ++ (putBE k v ++ post)) = .ok (putBE k v) :=
    slice_append rfl (putBE_length k v)
  rw [List.nil_append] at hs
  rw [load, hs]
  change Outcome.ok (fromBE (putBE k v)) = _
  rw [fromBE_putBE, Nat.mod_eq_of_lt hv]

theorem load_append {pre post : Bytes} {pos k v : ℕ} (hp : pre.length = pos) (hv : v < 256 ^ k) :
    load k pos (pre ++ (putBE k v ++ post)) = .ok v := by
  rw [load, slice_append hp (putBE_length k v)]
  change Outcome.ok (fromBE (putBE k v)) = _
  rw [fromBE_putBE, Nat.mod_eq_of_lt hv]

end MmsServer.Lib.Checked
