import Mathlib.Algebra.Group.Basic
import Mathlib.Algebra.BigOperators.Group.List.Defs
import Mathlib.Data.List.Chain
import Mathlib.Tactic.Abel

namespace MmsServer.Lib.Batching

variable {α β G : Type}

/-- Items that were closed together when the next one came, of which `stop` is a mark. -/
structure Batch (α β : Type) where
  first : α
  rest : List α
  stop : β

def Batch.items (b : Batch α β) : List α := b.first :: b.rest

structure Batches (α β : Type) where
  closed : List (Batch α β)
  pending : List α

namespace Batches

variable (mark : α → β)

def empty : Batches α β := ⟨[], []⟩

def items (bs : Batches α β) : List α := bs.closed.flatMap Batch.items ++ bs.pending

/-- An item joins the pending ones, or closes them and is the first of the next batch. -/
def push (cut : Prop) [Decidable cut] (bs : Batches α β) (a : α) : Batches α β :=
  match bs.pending with
  | [] => ⟨bs.closed, [a]⟩
  | first :: rest =>
    if cut then ⟨bs.closed ++ [⟨first, rest, mark a⟩], [a]⟩ else ⟨bs.closed, first :: rest ++ [a]⟩

/-- Each batch was closed by the first item behind it. -/
structure Linked (bs : Batches α β) : Prop where
  closed : bs.closed.IsChain fun b b' ↦ b.stop = mark b'.first
  pending : ∀ b ∈ bs.closed.getLast?, bs.pending.head?.map mark = some b.stop

theorem items_push (cut : Prop) [Decidable cut] (bs : Batches α β) (a : α) :
    (bs.push mark cut a).items = bs.items ++ [a] := by
  obtain ⟨closed, pending⟩ := bs
  cases pending with
  | nil => simp [push, items]
  | cons first rest =>
    by_cases hcut : cut
    · simp [push, items, hcut, Batch.items]
    · simp [push, items, hcut]

theorem linked_empty : (empty : Batches α β).Linked mark := ⟨.nil, by simp [empty]⟩

variable {mark}

theorem Linked.push {bs : Batches α β} (h : bs.Linked mark) (cut : Prop) [Decidable cut] (a : α) :
    (bs.push mark cut a).Linked mark := by
  obtain ⟨closed, pending⟩ := bs
  cases pending with
  | nil =>
    refine ⟨h.closed, fun b hb ↦ ?_⟩
    cases h.pending b hb
  | cons first rest =>
    by_cases hcut : cut
    · simp only [Batches.push, if_pos hcut]
      refine ⟨?_, by simp⟩
      rw [List.isChain_append]
      refine ⟨h.closed, .singleton _, fun b hb b' hb' ↦ ?_⟩
      cases hb'
      exact (Option.some.inj (h.pending b hb)).symm
    · simp only [Batches.push, if_neg hcut]
      exact ⟨h.closed, h.pending⟩

/-- The marks of a batch and its stop stand together in the marks of the items. -/
theorem Linked.batch_sublist {bs : Batches α β} (h : bs.Linked mark) {b : Batch α β}
    (hb : b ∈ bs.closed) : (b.items.map mark ++ [b.stop]).Sublist (bs.items.map mark) := by
  obtain ⟨closed, pending⟩ := bs
  obtain ⟨before, behind, hsplit⟩ := List.append_of_mem hb
  dsimp only at hsplit
  subst hsplit
  have hstop : [b.stop].Sublist ((behind.flatMap Batch.items ++ pending).map mark) := by
    cases behind with
    | nil =>
      have hhead := h.pending b (by simp)
      cases pending with
      | nil => cases hhead
      | cons a rest =>
        rw [← Option.some.inj hhead]
        simp
    | cons b' behind =>
      have hclosed := (List.isChain_append.mp h.closed).2.1
      rw [(List.isChain_cons_cons.mp hclosed).1]
      simp [Batch.items]
  have hitems : items ⟨before ++ b :: behind, pending⟩ =
      before.flatMap Batch.items ++ (b.items ++ (behind.flatMap Batch.items ++ pending)) := by
    simp [items]
  rw [hitems, List.map_append, List.map_append]
  exact ((List.Sublist.refl _).append hstop).trans (List.sublist_append_right ..)

end Batches

def gaps [Sub G] : G → List G → List G
  | _, [] => []
  | x, y :: ys => (y - x) :: gaps y ys

theorem sum_gaps [AddCommGroup G] (x y : G) (xs : List G) : (gaps x (xs ++ [y])).sum = y - x := by
  induction xs generalizing x with
  | nil => simp [gaps]
  | cons z xs ih =>
    rw [List.cons_append, gaps, List.sum_cons, ih]
    abel

end MmsServer.Lib.Batching
