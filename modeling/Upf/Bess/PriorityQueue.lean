import Mathlib.Data.List.Sort
import Mathlib.Order.RelClasses

/-!
# The priority queue with a key that can be lowered

The queues of the scheduler are heaps in a vector.  After the key of the top element was
lowered the element is sifted down; an element that is deleted leaves a vector that is made
a heap again.

Main result: `heap_operations`.
-/

namespace Upf.Bess

open List

variable {T : Type} {cmp : T → T → Bool} {v : Array T} {node : Nat}

/-- No element is smaller than a child of it. -/
def IsHeap (cmp : T → T → Bool) (v : Array T) : Prop :=
  ∀ i (hi : i < v.size), 0 < i → ¬cmp v[(i - 1) / 2] v[i]

/-- What `std::make_heap` promises. -/
structure MakeHeap (cmp : T → T → Bool) where
  run : Array T → Array T
  perm : ∀ v, (run v).toList.Perm v.toList
  isHeap : ∀ v, IsHeap cmp (run v)

namespace ExtendedPriorityQueue

/-- The right child, unless there is none or the left one is larger. -/
def largerChild (cmp : T → T → Bool) (v : Array T) (node : Nat) (hleft : 2 * node + 1 < v.size) :
    { child : Nat // node < child ∧ child < v.size } :=
  if hright : 2 * node + 2 < v.size then
    if cmp v[2 * node + 2] v[2 * node + 1] then ⟨2 * node + 1, by omega⟩
    else ⟨2 * node + 2, by omega⟩
  else ⟨2 * node + 1, by omega⟩

def siftDown (cmp : T → T → Bool) (node : Nat) (v : Array T) : Array T :=
  if hleft : 2 * node + 1 < v.size then
    match largerChild cmp v node hleft with
    | ⟨child, _⟩ =>
      if cmp v[node] v[child] then siftDown cmp child (v.swap node child) else v
  else v
termination_by v.size - node
decreasing_by
  rw [Array.size_swap]
  omega

def decreaseKeyTop (cmp : T → T → Bool) (v : Array T) : Array T := siftDown cmp 0 v

def deleteSingleElement (heap : MakeHeap cmp) (func : T → Bool) (v : Array T) : Bool × Array T :=
  if v.any func then (true, heap.run (v.eraseP func)) else (false, v)

/-- A heap but for one node, which may be smaller than its children; its parent is not. -/
structure HeapExcept (cmp : T → T → Bool) (v : Array T) (node : Nat) : Prop where
  off : ∀ i (hi : i < v.size), 0 < i → (i - 1) / 2 ≠ node → ¬cmp v[(i - 1) / 2] v[i]
  above : ∀ i (hi : i < v.size), 0 < node → (i - 1) / 2 = node →
    ¬cmp v[((i - 1) / 2 - 1) / 2] v[i]

theorem not_cmp_trans [hcmp : IsStrictWeakOrder T (cmp · ·)] {a b c : T} (hab : ¬cmp a b)
    (hbc : ¬cmp b c) : ¬cmp a c := by
  intro hac
  have htrans {x y z : T} (hxy : cmp x y) (hyz : cmp y z) : cmp x z :=
    hcmp.trans x y z hxy hyz
  have hba : ¬cmp b a := fun hba => hbc (htrans hba hac)
  have hcb : ¬cmp c b := fun hcb => hab (htrans hac hcb)
  exact (hcmp.incomp_trans a b c ⟨hab, hba⟩ ⟨hbc, hcb⟩).1 hac

section

variable {hleft : 2 * node + 1 < v.size}

theorem not_cmp_largerChild [IsStrictWeakOrder T (cmp · ·)] {child i : Nat}
    {hchild : node < child ∧ child < v.size} (h : largerChild cmp v node hleft = ⟨child, hchild⟩)
    (hi : i < v.size) (hpos : 0 < i) (hparent : (i - 1) / 2 = node) :
    (child - 1) / 2 = node ∧ ¬cmp v[child] v[i] := by
  have hirrefl (x : T) : ¬cmp x x := irrefl_of (cmp · ·) x
  have hasymm {x y : T} (hxy : cmp x y) : ¬cmp y x := asymm_of (cmp · ·) hxy
  have hcases : i = 2 * node + 1 ∨ i = 2 * node + 2 := by omega
  unfold largerChild at h
  split_ifs at h with hright hlarger
  · cases h
    refine ⟨by omega, ?_⟩
    rcases hcases with rfl | rfl
    · exact hirrefl _
    · exact hasymm hlarger
  · cases h
    refine ⟨by omega, ?_⟩
    rcases hcases with rfl | rfl
    · exact hlarger
    · exact hirrefl _
  · cases h
    obtain rfl : i = 2 * node + 1 := by omega
    exact ⟨by omega, hirrefl _⟩

end

theorem HeapExcept.swap [IsStrictWeakOrder T (cmp · ·)] (h : HeapExcept cmp v node) {child : Nat}
    (hchild : node < child ∧ child < v.size) (hparent : (child - 1) / 2 = node)
    (hlarger : ∀ i (hi : i < v.size), 0 < i → (i - 1) / 2 = node → ¬cmp v[child] v[i])
    (hless : cmp v[node] v[child]) : HeapExcept cmp (v.swap node child) child := by
  have hasymm {x y : T} (hxy : cmp x y) : ¬cmp y x := asymm_of (cmp · ·) hxy
  constructor
  · intro i hi hpos hne
    rw [Array.size_swap] at hi
    simp only [Array.getElem_swap, if_neg hne]
    by_cases hup : (i - 1) / 2 = node
    · rw [if_pos hup, if_neg (by omega)]
      split
      · exact hasymm hless
      · exact hlarger i hi hpos hup
    · rw [if_neg hup]
      split
      · subst hparent
        have habove := h.above child hchild.2 (by omega) rfl
        simpa only [‹i = _›] using habove
      · rw [if_neg (by omega)]
        exact h.off i hi hpos hup
  · intro i hi hpos heq
    rw [Array.size_swap] at hi
    have hoff := h.off i hi (by omega) (by omega)
    simp only [Array.getElem_swap, heq, hparent, if_true, if_neg (show i ≠ node by omega),
      if_neg (show i ≠ child by omega)] at hoff ⊢
    exact hoff

theorem siftDown_isHeap [IsStrictWeakOrder T (cmp · ·)] (h : HeapExcept cmp v node) :
    IsHeap cmp (siftDown cmp node v) := by
  induction node, v using siftDown.induct cmp with
  | case1 node v hleft child hchild hlarger hless ih =>
    rw [siftDown, dif_pos hleft, hlarger]
    dsimp only
    rw [if_pos hless]
    obtain ⟨hparent, -⟩ := not_cmp_largerChild hlarger hleft (by omega) (by omega)
    refine ih (h.swap hchild hparent (fun i hi hpos hup => ?_) hless)
    exact (not_cmp_largerChild hlarger hi hpos hup).2
  | case2 node v hleft child hchild hlarger hless =>
    rw [siftDown, dif_pos hleft, hlarger]
    dsimp only
    rw [if_neg hless]
    intro i hi hpos
    by_cases hup : (i - 1) / 2 = node
    · subst hup
      exact not_cmp_trans hless (not_cmp_largerChild hlarger hi hpos rfl).2
    · exact h.off i hi hpos hup
  | case3 node v hleft =>
    rw [siftDown, dif_neg hleft]
    exact fun i hi hpos => h.off i hi hpos (by omega)

theorem siftDown_perm (cmp : T → T → Bool) (node : Nat) (v : Array T) :
    (siftDown cmp node v).Perm v := by
  induction node, v using siftDown.induct cmp with
  | case1 node v hleft child hchild hlarger hless ih =>
    rw [siftDown, dif_pos hleft, hlarger]
    dsimp only
    rw [if_pos hless]
    exact ih.trans (Array.swap_perm _ _)
  | case2 node v hleft child hchild hlarger hless =>
    rw [siftDown, dif_pos hleft, hlarger]
    dsimp only
    rw [if_neg hless]
  | case3 node v hleft => rw [siftDown, dif_neg hleft]

theorem heapExcept_top (h : IsHeap cmp v) (top : T) :
    HeapExcept cmp (v.setIfInBounds 0 top) 0 := by
  refine ⟨fun i hi hpos hne => ?_, fun i hi hpos => absurd hpos (Nat.lt_irrefl 0)⟩
  rw [Array.size_setIfInBounds] at hi
  rw [Array.getElem_setIfInBounds_ne _ (Ne.symm hne), Array.getElem_setIfInBounds_ne _ hpos.ne]
  exact h i hi hpos

/-- A heap whose top element alone has changed is made a heap of the same elements, and a
deletion takes out one element with the property, if there is one. -/
theorem heap_operations (T : Type) (cmp : T → T → Bool) [IsStrictWeakOrder T (cmp · ·)]
    (heap : MakeHeap cmp) (v : Array T) (hheap : IsHeap cmp v) :
    (∀ top, ¬cmp (v.getD 0 top) top →
      IsHeap cmp (decreaseKeyTop cmp (v.setIfInBounds 0 top)) ∧
      (decreaseKeyTop cmp (v.setIfInBounds 0 top)).Perm (v.setIfInBounds 0 top)) ∧
    ∀ func deleted rest, deleteSingleElement heap func v = (deleted, rest) →
      IsHeap cmp rest ∧ (deleted = true ↔ ∃ x ∈ v, func x) ∧
      if deleted then ∃ x, func x ∧ v.toList.Perm (x :: rest.toList) else rest = v := by
  refine ⟨fun top _ => ⟨siftDown_isHeap (heapExcept_top hheap top), siftDown_perm _ _ _⟩, ?_⟩
  rintro func deleted rest hdelete
  unfold deleteSingleElement at hdelete
  split_ifs at hdelete with hany
  · cases hdelete
    obtain ⟨x, hx, hfunc⟩ := Array.any_eq_true'.mp hany
    obtain ⟨found, before, after, -, hfound, hv, herase⟩ :=
      exists_of_eraseP (Array.mem_toList_iff.mpr hx) hfunc
    refine ⟨heap.isHeap _, iff_of_true rfl ⟨x, hx, hfunc⟩, found, hfound, ?_⟩
    have herased : (v.eraseP func).toList = before ++ after := by
      rw [← herase]
      exact congrArg Array.toList eraseP_toArray
    have hrest := heap.perm (v.eraseP func)
    rw [herased] at hrest
    rw [hv]
    exact perm_middle.trans (hrest.symm.cons found)
  · cases hdelete
    exact ⟨hheap, iff_of_false (by simp) (hany ∘ Array.any_eq_true'.mpr), rfl⟩

def lessNat (a b : Nat) : Bool := a < b

instance : IsStrictWeakOrder Nat (lessNat · ·) := by
  simp only [lessNat, decide_eq_true_eq]
  exact isStrictWeakOrder_of_isOrderConnected

/-- Sorting makes a heap. -/
def sortedHeap : MakeHeap lessNat where
  run v := (v.toList.mergeSort (· ≥ ·)).toArray
  perm v := mergeSort_perm _ _
  isHeap v := by
    intro i hi hpos
    rw [List.size_toArray] at hi
    have hsorted := pairwise_iff_getElem.mp
      (sortedGE_mergeSort (l := v.toList)).pairwise ((i - 1) / 2) i (by omega) hi (by omega)
    simpa [lessNat] using hsorted

theorem heap_operations_four :
    IsHeap lessNat (decreaseKeyTop lessNat #[1, 7, 8, 3]) ∧
      IsHeap lessNat (deleteSingleElement sortedHeap (· == 7) #[9, 7, 8, 3]).2 := by
  have hops := heap_operations Nat lessNat sortedHeap #[9, 7, 8, 3] (by unfold IsHeap; decide)
  exact ⟨(hops.1 1 (by decide)).1, (hops.2 (· == 7) _ _ rfl).1⟩

end ExtendedPriorityQueue

end Upf.Bess
