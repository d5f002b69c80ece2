import Mathlib.Algebra.Order.Ring.Nat
import Mathlib.Data.List.Nodup
import Mathlib.Algebra.BigOperators.Group.List.Basic

/-!
# Tallies

What items of a list weigh together, those of one key, and what is left of it when
tallies of parts are kept modulo some number.
-/

namespace Lib

open List Nat

section Total

variable {P K : Type} [DecidableEq K] (key : P → K) (weight : P → Nat) (k : K)

def total (items : List P) : Nat := ((items.filter fun p => key p = k).map weight).sum

@[simp] theorem total_nil : total key weight k [] = 0 := rfl

theorem total_append (items items' : List P) :
    total key weight k (items ++ items') =
      total key weight k items + total key weight k items' := by
  unfold total
  rw [filter_append, map_append, sum_append_nat]

theorem total_singleton (p : P) :
    total key weight k [p] = if key p = k then weight p else 0 := by
  unfold total
  by_cases hp : key p = k
  · simp [hp]
  · simp [hp]

theorem total_flatten (parts : List (List P)) :
    total key weight k parts.flatten = (parts.map (total key weight k)).sum := by
  induction parts with
  | nil => rfl
  | cons part parts ih =>
    rw [flatten_cons, total_append, ih, map_cons, sum_cons]

theorem total_perm {items items' : List P} (h : items.Perm items') :
    total key weight k items = total key weight k items' :=
  ((h.filter _).map weight).sum_eq

end Total

theorem sum_residues_mod (m : Nat) (ns : List Nat) : (ns.map (· % m)).sum % m = ns.sum % m := by
  induction ns with
  | nil => rfl
  | cons n ns ih =>
    rw [map_cons, sum_cons, sum_cons, add_mod, ih, mod_mod, ← add_mod]

theorem sum_residues {m : Nat} {ns : List Nat} (h : ns.sum < m) :
    (ns.map (· % m)).sum = ns.sum := by
  induction ns with
  | nil => rfl
  | cons n ns ih =>
    rw [sum_cons] at h
    rw [map_cons, sum_cons, sum_cons, ih (by omega), mod_eq_of_lt (by omega)]

theorem total_parts {P K : Type} [DecidableEq K] (key : P → K) (weight : P → Nat) (k : K) (m : Nat)
    {whole : List P} {parts : List (List P)} (h : whole.Perm parts.flatten) :
    total key weight k whole % m = (parts.map fun part => total key weight k part % m).sum % m ∧
      (total key weight k whole < m →
        total key weight k whole = (parts.map fun part => total key weight k part % m).sum) := by
  have hsum : total key weight k whole = (parts.map (total key weight k)).sum := by
    rw [total_perm key weight k h, total_flatten]
  have hmap : (parts.map fun part => total key weight k part % m) =
      (parts.map (total key weight k)).map (· % m) := by
    rw [map_map]
    rfl
  rw [hsum, hmap]
  exact ⟨(sum_residues_mod m _).symm, fun hlt => (sum_residues hlt).symm⟩

theorem countP_change {P : Type} [DecidableEq P] {items : List P} {p q : P → Bool} {x : P}
    (hnodup : items.Nodup) (hx : x ∈ items) (hsame : ∀ y, y ≠ x → p y = q y) :
    items.countP p + (if q x then 1 else 0) = items.countP q + (if p x then 1 else 0) := by
  have hrest : (items.erase x).countP p = (items.erase x).countP q := by
    apply countP_congr
    intro y hy
    rw [hsame y (hnodup.mem_erase_iff.mp hy).1]
  rw [(perm_cons_erase hx).countP_eq, (perm_cons_erase hx).countP_eq, countP_cons,
    countP_cons, hrest]
  omega

end Lib
