import Mathlib.Algebra.Order.Ring.Nat
import Mathlib.Tactic.Common

namespace MmsServer.Lib.ChunkedMemory

/-- A range of one chunk of a memory that is cut into chunks. -/
structure Extent where
  chunk : ℕ
  off : ℕ
  size : ℕ
deriving DecidableEq

variable {α : Type} {cap : ℕ}

namespace Extent

def read (mem : ℕ → ℕ → α) (e : Extent) : List α :=
  (List.range e.size).map fun i ↦ mem e.chunk (e.off + i)

def start (cap : ℕ) (e : Extent) : ℕ := e.chunk * cap + e.off

structure Fits (cap chunks : ℕ) (e : Extent) : Prop where
  chunk_lt : e.chunk < chunks
  off_le : e.off + e.size ≤ cap

def Apart (e f : Extent) : Prop :=
  e.chunk ≠ f.chunk ∨ e.off + e.size ≤ f.off ∨ f.off + f.size ≤ e.off

end Extent

def readAll (mem : ℕ → ℕ → α) (es : List Extent) : List α := (es.map (Extent.read mem)).flatten

def linear (cap : ℕ) (mem : ℕ → ℕ → α) (place : ℕ) : α := mem (place / cap) (place % cap)

/-- The extents are the `size` places from `start` on, in their order. -/
def Covers (cap start size : ℕ) (es : List Extent) : Prop :=
  ∀ (α : Type) (mem : ℕ → ℕ → α),
    readAll mem es = (List.range' start size).map (linear cap mem)

theorem Extent.Fits.mono {chunks chunks' : ℕ} {e : Extent} (h : e.Fits cap chunks)
    (hle : chunks ≤ chunks') : e.Fits cap chunks' :=
  ⟨Nat.lt_of_lt_of_le h.chunk_lt hle, h.off_le⟩

theorem linear_place (mem : ℕ → ℕ → α) (chunk : ℕ) {off : ℕ} (h : off < cap) :
    linear cap mem (chunk * cap + off) = mem chunk off := by
  have hpos : 0 < cap := by omega
  rw [linear, Nat.mul_comm, Nat.mul_add_div hpos, Nat.mul_add_mod, Nat.div_eq_of_lt h,
    Nat.mod_eq_of_lt h, Nat.add_zero]

theorem Extent.read_eq (mem : ℕ → ℕ → α) {e : Extent} (h : e.off + e.size ≤ cap) :
    e.read mem = (List.range' (e.start cap) e.size).map (linear cap mem) := by
  rw [Extent.read, List.range'_eq_map_range, List.map_map]
  apply List.map_congr_left
  intro i hi
  have hlt := List.mem_range.mp hi
  rw [Function.comp_apply, Extent.start, Nat.add_assoc, linear_place mem _ (by omega)]

theorem covers_nil (cap start : ℕ) : Covers cap start 0 [] := fun _ _ ↦ rfl

theorem covers_cons {start size : ℕ} {e : Extent} {es : List Extent} (he : e.off + e.size ≤ cap)
    (hstart : e.start cap = start) (hes : Covers cap (start + e.size) size es) :
    Covers cap start (e.size + size) (e :: es) := by
  intro α mem
  have htail := hes α mem
  rw [readAll] at htail ⊢
  rw [List.map_cons, List.flatten_cons, htail, e.read_eq mem he, hstart, ← List.map_append,
    List.range'_append_1]

theorem covers_single {start : ℕ} {e : Extent} (he : e.off + e.size ≤ cap) (hstart : e.start cap = start) :
    Covers cap start e.size [e] := covers_cons he hstart (covers_nil cap _)

theorem covers_append {start size size' : ℕ} {es fs : List Extent} (hes : Covers cap start size es)
    (hfs : Covers cap (start + size) size' fs) : Covers cap start (size + size') (es ++ fs) := by
  intro α mem
  have h₁ := hes α mem
  have h₂ := hfs α mem
  rw [readAll] at h₁ h₂ ⊢
  rw [List.map_append, List.flatten_append, h₁, h₂, ← List.map_append, List.range'_append_1]

/-- Two covers of one range read the same. -/
theorem Covers.readAll_eq {start size : ℕ} {es fs : List Extent} (hes : Covers cap start size es)
    (hfs : Covers cap start size fs) (mem : ℕ → ℕ → α) : readAll mem es = readAll mem fs :=
  (hes α mem).trans (hfs α mem).symm

theorem apart_of_start_le {e f : Extent} (h : e.start cap + e.size ≤ f.start cap) : e.Apart f := by
  by_cases hc : e.chunk = f.chunk
  · right
    left
    rw [Extent.start, Extent.start, hc] at h
    omega
  · exact .inl hc

end MmsServer.Lib.ChunkedMemory
