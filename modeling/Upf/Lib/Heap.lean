import Mathlib.Data.List.Perm.Basic
import Mathlib.Order.Basic

/-!
# Vectors kept as heaps

The operations of a priority queue on the vector behind it. How the standard library
arranges a heap is left open: its functions are given with what they promise about the
elements.
-/

namespace Lib

open List

/-- The standard library's heap functions. -/
structure StdHeap where
  push : {α : Type} → (α → α → Bool) → List α → α → List α
  pop : {α : Type} → (α → α → Bool) → List α → List α
  makeHeap : {α : Type} → (α → α → Bool) → List α → List α
  push_perm : ∀ {α : Type} (less : α → α → Bool) (v : List α) (x : α),
    (push less v x).Perm (x :: v)
  pop_perm : ∀ {α : Type} (less : α → α → Bool) (v : List α), (pop less v).Perm v.tail
  makeHeap_perm : ∀ {α : Type} (less : α → α → Bool) (v : List α), (makeHeap less v).Perm v

def plainHeap : StdHeap where
  push _ v x := x :: v
  pop _ v := v.tail
  makeHeap _ v := v
  push_perm _ _ _ := .refl _
  pop_perm _ _ := .refl _
  makeHeap_perm _ _ := .refl _

variable {α : Type}

/-- Push elements one after another onto an empty queue. -/
def fill (heap : StdHeap) (less : α → α → Bool) (xs : List α) : List α :=
  xs.foldl (heap.push less) []

/-- Take off the front element until the queue is empty, at most so many times. -/
def drain (heap : StdHeap) (less : α → α → Bool) : Nat → List α → List α
  | 0, _ => []
  | _ + 1, [] => []
  | n + 1, top :: rest => top :: drain heap less n (heap.pop less (top :: rest))

theorem fill_perm (heap : StdHeap) (less : α → α → Bool) (xs : List α) :
    (fill heap less xs).Perm xs := by
  have hpush : ∀ (xs v : List α), (xs.foldl (heap.push less) v).Perm (xs ++ v) := by
    intro xs
    induction xs with
    | nil => exact fun v => .refl v
    | cons x xs ih =>
      intro v
      exact ((ih _).trans ((heap.push_perm less v x).append_left xs)).trans perm_middle
  exact (hpush xs []).trans (by rw [append_nil])

theorem drain_perm (heap : StdHeap) (less : α → α → Bool) (n : Nat) :
    ∀ v : List α, v.length ≤ n → (drain heap less n v).Perm v := by
  induction n with
  | zero =>
    intro v hv
    rw [length_eq_zero_iff.mp (Nat.le_zero.mp hv)]
    exact .refl _
  | succ n ih =>
    intro v hv
    rcases v with - | ⟨top, rest⟩
    · exact .refl _
    · have hpop := heap.pop_perm less (top :: rest)
      rw [length_cons] at hv
      have hlength : (heap.pop less (top :: rest)).length ≤ n := by
        rw [hpop.length_eq, tail_cons]
        omega
      exact ((ih _ hlength).trans hpop).cons top

end Lib
