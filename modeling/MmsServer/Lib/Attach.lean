import Mathlib.Data.List.Basic
import Mathlib.Logic.Nontrivial.Basic
import Mathlib.Tactic.Common

namespace MmsServer.Lib.Attach

variable {κ ι : Type}

/-- A text of heads and items, in which an item goes to the key of the last head. -/
inductive Line (κ ι : Type)
  | head (k : κ)
  | item (x : ι)

def owned : κ → List (Line κ ι) → List (κ × ι)
  | _, [] => []
  | _, .head k :: ls => owned k ls
  | c, .item x :: ls => (c, x) :: owned c ls

def heads : List (Line κ ι) → List κ
  | [] => []
  | .head k :: ls => k :: heads ls
  | .item _ :: ls => heads ls

def items : List (Line κ ι) → List ι
  | [] => []
  | .head _ :: ls => items ls
  | .item x :: ls => x :: items ls

/-- Every item stands behind a head of its own key, with no other head between them. -/
def Follows (own : ι → κ) : Option κ → List (Line κ ι) → Prop
  | _, [] => True
  | _, .head k :: ls => Follows own (some k) ls
  | c, .item x :: ls => c = some (own x) ∧ Follows own c ls

instance decidableFollows [DecidableEq κ] (own : ι → κ) :
    (c : Option κ) → (ls : List (Line κ ι)) → Decidable (Follows own c ls)
  | _, [] => .isTrue trivial
  | _, .head k :: ls => decidableFollows own (some k) ls
  | c, .item x :: ls =>
    have := decidableFollows own c ls
    inferInstanceAs (Decidable (c = some (own x) ∧ Follows own c ls))

section Kinds

variable {α : Type} [DecidableEq κ]

def sent (kind : ι → Option α) (p c : κ) (ls : List (Line κ ι)) : List α :=
  (owned c ls).filterMap fun e ↦ if e.1 = p then kind e.2 else none

def named (kind : ι → Option α) (own : α → κ) (p : κ) (ls : List (Line κ ι)) : List α :=
  (items ls).filterMap fun x ↦ (kind x).filter (own · = p)

end Kinds

variable {own : ι → κ} {c k p : κ} {x : ι} {e : κ × ι} {ls : List (Line κ ι)}

theorem map_snd_owned (c : κ) (ls : List (Line κ ι)) : (owned c ls).map Prod.snd = items ls := by
  induction ls generalizing c with
  | nil => rfl
  | cons l ls ih =>
    cases l with
    | head k => exact ih k
    | item x => exact congrArg (x :: ·) (ih c)

theorem fst_mem_heads (h : e ∈ owned c ls) : e.1 = c ∨ e.1 ∈ heads ls := by
  induction ls generalizing c with
  | nil => cases h
  | cons l ls ih =>
    cases l with
    | head k =>
      rw [heads, List.mem_cons]
      exact .inr (ih h)
    | item x =>
      obtain rfl | h := List.mem_cons.mp h
      · exact .inl rfl
      · exact ih h

theorem own_of_follows {o : Option κ} (h : Follows own o ls) (ho : ∀ k ∈ o, k = c)
    (he : e ∈ owned c ls) : own e.2 = e.1 := by
  induction ls generalizing o c with
  | nil => cases he
  | cons l ls ih =>
    cases l with
    | head k => exact ih h (fun _ hk ↦ (Option.some_inj.mp hk).symm) he
    | item x =>
      obtain ⟨hx, h⟩ := h
      obtain rfl | he := List.mem_cons.mp he
      · exact ho _ hx
      · exact ih h ho he

theorem follows_of_own (h : ∀ e ∈ owned c ls, own e.2 = e.1) : Follows own (some c) ls := by
  induction ls generalizing c with
  | nil => trivial
  | cons l ls ih =>
    cases l with
    | head k => exact ih h
    | item x =>
      refine ⟨congrArg some (h _ List.mem_cons_self).symm, ih fun e he ↦ ?_⟩
      exact h e (List.mem_cons_of_mem _ he)

/-- Where no item can tell which key is current before the first head, items that go
to their own keys in every case follow their heads. -/
theorem follows_of_owned [Nontrivial κ] (hne : heads ls ≠ [])
    (h : ∀ c, ∀ p ∈ heads ls, ∀ e ∈ owned c ls, e.1 = p ↔ own e.2 = p) : Follows own none ls := by
  cases ls with
  | nil => trivial
  | cons l ls =>
    cases l with
    | head k =>
      refine follows_of_own fun e he ↦ ?_
      have hp : e.1 ∈ heads (.head k :: ls) := List.mem_cons.mpr (fst_mem_heads he)
      exact (h k e.1 hp e he).mp rfl
    | item x =>
      obtain ⟨p, hp⟩ := List.exists_mem_of_ne_nil _ hne
      obtain ⟨c, hc⟩ := exists_ne p
      have hown : own x = p := (h p p hp (p, x) List.mem_cons_self).mp rfl
      exact absurd ((h c p hp (c, x) List.mem_cons_self).mpr hown) hc

section Kinds

variable {α : Type} [DecidableEq κ] {kind : ι → Option α} {own : α → κ}

theorem named_eq_owned (c : κ) : named kind own p ls =
    (owned c ls).filterMap fun e ↦ (kind e.2).filter (own · = p) := by
  rw [named, ← map_snd_owned c, List.filterMap_map]
  rfl

theorem length_filterMap_le {f g : ι → Option α} {l : List ι} (h : ∀ x ∈ l, f x = none ∨ f x = g x) :
    (l.filterMap f).length ≤ (l.filterMap g).length := by
  induction l with
  | nil => exact Nat.le_refl _
  | cons x l ih =>
    obtain ⟨hx, h⟩ := List.forall_mem_cons.mp h
    have hle := ih h
    rw [List.filterMap_cons, List.filterMap_cons]
    obtain hx | hx := hx
    · rw [hx]
      cases g x with
      | none => exact hle
      | some a => exact Nat.le_succ_of_le hle
    · rw [hx]
      cases g x with
      | none => exact hle
      | some a => exact Nat.succ_le_succ hle

theorem eq_of_length_filterMap {f g : ι → Option α} {l : List ι}
    (h : ∀ x ∈ l, f x = none ∨ f x = g x)
    (hlen : (l.filterMap f).length = (l.filterMap g).length) : ∀ x ∈ l, f x = g x := by
  induction l with
  | nil => exact fun x hx ↦ by cases hx
  | cons x l ih =>
    obtain ⟨hx, h⟩ := List.forall_mem_cons.mp h
    have hle := length_filterMap_le h
    rw [List.filterMap_cons, List.filterMap_cons] at hlen
    rw [List.forall_mem_cons]
    obtain hx | hx := hx
    · rw [hx] at hlen
      cases hg : g x with
      | none =>
        rw [hg] at hlen
        exact ⟨hx, ih h hlen⟩
      | some a =>
        rw [hg] at hlen
        simp only [List.length_cons] at hlen
        omega
    · refine ⟨hx, ih h ?_⟩
      rw [hx] at hlen
      cases hg : g x with
      | none =>
        rw [hg] at hlen
        exact hlen
      | some a =>
        rw [hg] at hlen
        exact Nat.succ.inj hlen

theorem sent_of_own (hown : ∀ a ∈ sent kind p c ls, own a = p) (he : e ∈ owned c ls) :
    (if e.1 = p then kind e.2 else none) = none ∨
      (if e.1 = p then kind e.2 else none) = (kind e.2).filter (own · = p) := by
  split
  · rename_i hp
    cases hk : kind e.2 with
    | none => exact .inl rfl
    | some a =>
      have hmem : a ∈ sent kind p c ls := List.mem_filterMap.mpr ⟨e, he, by rw [if_pos hp, hk]⟩
      exact .inr (by rw [Option.filter_some, if_pos (decide_eq_true (hown a hmem))])
  · exact .inl rfl

theorem length_sent_le (own : α → κ) (hown : ∀ a ∈ sent kind p c ls, own a = p) :
    (sent kind p c ls).length ≤ (named kind own p ls).length := by
  rw [named_eq_owned c]
  exact length_filterMap_le fun e he ↦ sent_of_own hown he

/-- As many items as there are with the key `p` have gone to it, and only such. -/
theorem sent_exact (kind : ι → Option α) (own : α → κ) (hown : ∀ a ∈ sent kind p c ls, own a = p)
    (hlen : (sent kind p c ls).length = (named kind own p ls).length) (he : e ∈ owned c ls) {a : α}
    (ha : kind e.2 = some a) : e.1 = p ↔ own a = p := by
  rw [named_eq_owned c] at hlen
  have heq := eq_of_length_filterMap (fun e he ↦ sent_of_own hown he) hlen e he
  rw [ha, Option.filter_some] at heq
  by_cases hp : e.1 = p
  · refine iff_of_true hp (hown a (List.mem_filterMap.mpr ⟨e, he, by rw [if_pos hp, ha]⟩))
  · refine iff_of_false hp fun hq ↦ ?_
    rw [if_neg hp, if_pos (decide_eq_true hq)] at heq
    cases heq

theorem sent_eq_named {own' : ι → κ} (hkind : ∀ x a, kind x = some a → own a = own' x)
    (h : ∀ e ∈ owned c ls, own' e.2 = e.1) : sent kind p c ls = named kind own p ls := by
  rw [named_eq_owned c]
  refine List.filterMap_congr fun e he ↦ ?_
  cases hk : kind e.2 with
  | none => rw [Option.filter_none, ite_self]
  | some a =>
    rw [Option.filter_some, hkind e.2 a hk, h e he]
    simp only [decide_eq_true_eq]

end Kinds

end MmsServer.Lib.Attach
