import Mathlib.Data.Set.Card
import Upf.Lib.Tally

/-!
# Maps kept in slots

A map is kept in numbered slots, each of which is free or holds a key with its value.
No key is held twice.  Putting a new key in a free slot, clearing a slot and moving an
entry to a free slot do to the map what they should, wherever the slots are.
-/

namespace Lib

open Function Option List

variable {K V : Type}

abbrev SlotMap (K V : Type) := Nat → Option (K × V)

namespace SlotMap

variable {slots : SlotMap K V} {i j n : Nat} {k : K} {v : V}

def Holds (slots : SlotMap K V) (k : K) (v : V) : Prop := ∃ i, slots i = some (k, v)

def Keyed (slots : SlotMap K V) : Prop :=
  ∀ ⦃i j k v v'⦄, slots i = some (k, v) → slots j = some (k, v') → i = j

theorem Keyed.unique (h : Keyed slots) {v' : V} (hv : Holds slots k v) (hv' : Holds slots k v') :
    v = v' := by
  obtain ⟨i, hi⟩ := hv
  obtain ⟨j, hj⟩ := hv'
  cases h hi hj
  rw [hi, some.injEq, Prod.mk.injEq] at hj
  exact hj.2

theorem holds_put (hfree : slots i = none) {k' : K} {v' : V} :
    Holds (update slots i (some (k, v))) k' v' ↔
      (k' = k ∧ v' = v) ∨ Holds slots k' v' := by
  constructor
  · rintro ⟨j, hj⟩
    by_cases hji : j = i
    · rw [hji, update_self, some.injEq, Prod.mk.injEq] at hj
      exact .inl ⟨hj.1.symm, hj.2.symm⟩
    · rw [update_of_ne hji] at hj
      exact .inr ⟨j, hj⟩
  · rintro (⟨rfl, rfl⟩ | ⟨j, hj⟩)
    · exact ⟨i, update_self i _ _⟩
    · have hji : j ≠ i := by
        rintro rfl
        rw [hfree] at hj
        cases hj
      exact ⟨j, by rw [update_of_ne hji, hj]⟩

theorem Keyed.put (h : Keyed slots) (hnew : ∀ v', ¬ Holds slots k v') :
    Keyed (update slots i (some (k, v))) := by
  intro a b k' w w' ha hb
  by_cases hai : a = i <;> by_cases hbi : b = i
  · rw [hai, hbi]
  · rw [hai, update_self, some.injEq, Prod.mk.injEq] at ha
    rw [update_of_ne hbi, ← ha.1] at hb
    exact absurd ⟨b, hb⟩ (hnew w')
  · rw [hbi, update_self, some.injEq, Prod.mk.injEq] at hb
    rw [update_of_ne hai, ← hb.1] at ha
    exact absurd ⟨a, ha⟩ (hnew w)
  · rw [update_of_ne hai] at ha
    rw [update_of_ne hbi] at hb
    exact h ha hb

theorem Keyed.clear (h : Keyed slots) : Keyed (update slots i none) := by
  have hold : ∀ {a k v}, update slots i none a = some (k, v) → slots a = some (k, v) := by
    intro a k v ha
    by_cases hai : a = i
    · rw [hai, update_self] at ha
      cases ha
    · rwa [update_of_ne hai] at ha
  intro a b k v v' ha hb
  exact h (hold ha) (hold hb)

theorem Keyed.holds_clear (h : Keyed slots) (hi : slots i = some (k, v)) {k' : K} {v' : V} :
    Holds (update slots i none) k' v' ↔ k' ≠ k ∧ Holds slots k' v' := by
  constructor
  · rintro ⟨j, hj⟩
    have hji : j ≠ i := by
      rintro rfl
      rw [update_self] at hj
      cases hj
    rw [update_of_ne hji] at hj
    refine ⟨?_, j, hj⟩
    rintro rfl
    exact hji (h hj hi)
  · rintro ⟨hne, j, hj⟩
    have hji : j ≠ i := by
      rintro rfl
      rw [hi, some.injEq, Prod.mk.injEq] at hj
      exact hne hj.1.symm
    exact ⟨j, by rw [update_of_ne hji, hj]⟩

def move (slots : SlotMap K V) (i j : Nat) : SlotMap K V :=
  update (update slots j (slots i)) i none

theorem move_eq_some {a : Nat} {k : K} {v : V} (ha : move slots i j a = some (k, v)) :
    (a = j ∧ slots i = some (k, v)) ∨ (a ≠ i ∧ a ≠ j ∧ slots a = some (k, v)) := by
  have hai : a ≠ i := by
    rintro rfl
    rw [move, update_self] at ha
    cases ha
  rw [move, update_of_ne hai] at ha
  by_cases haj : a = j
  · rw [haj, update_self] at ha
    exact .inl ⟨haj, ha⟩
  · rw [update_of_ne haj] at ha
    exact .inr ⟨hai, haj, ha⟩

theorem holds_move (hi : slots i = some (k, v)) (hj : slots j = none) {k' : K} {v' : V} :
    Holds (move slots i j) k' v' ↔ Holds slots k' v' := by
  have hij : j ≠ i := by
    rintro rfl
    rw [hi] at hj
    cases hj
  constructor
  · rintro ⟨a, ha⟩
    rcases move_eq_some ha with ⟨-, hold⟩ | ⟨-, -, hold⟩
    · exact ⟨i, hold⟩
    · exact ⟨a, hold⟩
  · rintro ⟨a, ha⟩
    by_cases hai : a = i
    · refine ⟨j, ?_⟩
      rw [move, update_of_ne hij, update_self, ← hai, ha]
    · have haj : a ≠ j := by
        rintro rfl
        rw [hj] at ha
        cases ha
      exact ⟨a, by rw [move, update_of_ne hai, update_of_ne haj, ha]⟩

theorem Keyed.move (h : Keyed slots) : Keyed (move slots i j) := by
  intro a b k v v' ha hb
  rcases move_eq_some ha with ⟨rfl, hold⟩ | ⟨hai, haj, hold⟩ <;>
    rcases move_eq_some hb with ⟨rfl, hold'⟩ | ⟨hbi, hbj, hold'⟩
  · rfl
  · exact absurd (h hold hold') (Ne.symm hbi)
  · exact absurd (h hold hold') hai
  · exact h hold hold'

def filled (slots : SlotMap K V) (n : Nat) : Nat :=
  (List.range n).countP fun i => (slots i).isSome

theorem filled_update (slots : SlotMap K V) (hi : i < n) (e : Option (K × V)) :
    filled (update slots i e) n + (if (slots i).isSome then 1 else 0) =
      filled slots n + (if e.isSome then 1 else 0) := by
  have hcount := countP_change (p := fun j => (update slots i e j).isSome)
    (q := fun j => (slots j).isSome) (nodup_range (n := n)) (List.mem_range.mpr hi)
    fun j hj => by rw [update_of_ne hj]
  rw [update_self] at hcount
  exact hcount

theorem Keyed.ncard_keys (h : Keyed slots) (hbound : ∀ i, (slots i).isSome → i < n) :
    {k | ∃ v, Holds slots k v}.ncard = filled slots n := by
  classical
  let keys := (List.range n).filterMap fun i => (slots i).map Prod.fst
  have hnodup : keys.Nodup := by
    apply List.Pairwise.filterMap _ ?_ (nodup_range (n := n))
    intro a b hab k ha k' hb heq
    obtain ⟨⟨k₁, v⟩, hka, rfl⟩ := map_eq_some_iff.mp ha
    obtain ⟨⟨k₂, v'⟩, hkb, rfl⟩ := map_eq_some_iff.mp hb
    cases heq
    exact hab (h hka hkb)
  have hmem : ∀ k, k ∈ keys ↔ ∃ v, Holds slots k v := by
    intro k
    rw [mem_filterMap]
    constructor
    · rintro ⟨a, -, ha⟩
      obtain ⟨⟨k', v⟩, hka, rfl⟩ := map_eq_some_iff.mp ha
      exact ⟨v, a, hka⟩
    · rintro ⟨v, a, ha⟩
      exact ⟨a, List.mem_range.mpr (hbound a (by rw [ha]; rfl)), by rw [ha, map_some]⟩
  have hset : {k | ∃ v, Holds slots k v} = (keys.toFinset : Set K) := by
    ext k
    simp [hmem]
  rw [hset, Set.ncard_coe_finset, toFinset_card_of_nodup hnodup,
    length_filterMap_eq_countP, filled]
  simp only [isSome_map]

end SlotMap

end Lib
