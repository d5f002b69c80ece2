import Mathlib.Algebra.Order.Group.Multiset

/-!
# Loads of labelled containers

Items lie in containers, and containers stand in a list, each under a label.  The
load of the list is what its containers hold, every item under the label of its
container.  Containers are shared by name: an item put into one shows up wherever
the name stands, so conservation needs the names in the list to be distinct.
-/

namespace Lib

open List Function

variable {X B P : Type}

def load (contents : B → List P) (es : List (X × B)) : Multiset (X × P) :=
  (es.flatMap fun e => (contents e.2).map fun p => (e.1, p) : List (X × P))

variable {contents : B → List P}

@[simp] theorem load_nil : load contents ([] : List (X × B)) = 0 := rfl

theorem load_cons (e : X × B) (es : List (X × B)) :
    load contents (e :: es) =
      ((contents e.2).map fun p => (e.1, p) : List (X × P)) + load contents es := by
  simp [load]

theorem load_perm {es es' : List (X × B)} (h : es.Perm es') :
    load contents es = load contents es' :=
  Multiset.coe_eq_coe.mpr (h.flatMap_right _)

theorem load_congr {contents' : B → List P} {es : List (X × B)}
    (h : ∀ e ∈ es, contents e.2 = contents' e.2) : load contents es = load contents' es := by
  induction es with
  | nil => rfl
  | cons e es ih =>
    rw [load_cons, load_cons, h e mem_cons_self,
      ih fun e' he' => h e' (mem_cons_of_mem _ he')]

variable [DecidableEq B]

theorem load_update_of_not_mem {b : B} {items : List P} {es : List (X × B)}
    (h : b ∉ es.map Prod.snd) : load (Function.update contents b items) es = load contents es := by
  apply load_congr
  intro e he
  rw [update_of_ne]
  rintro rfl
  exact h (mem_map_of_mem he)

theorem load_put {x : X} {b : B} {items : List P} {es : List (X × B)}
    (hnodup : (es.map Prod.snd).Nodup) (hmem : (x, b) ∈ es) :
    load (Function.update contents b (contents b ++ items)) es =
      load contents es + (items.map fun p => (x, p) : List (X × P)) := by
  induction es with
  | nil => exact absurd hmem not_mem_nil
  | cons e es ih =>
    rw [map_cons, nodup_cons] at hnodup
    rcases mem_cons.mp hmem with rfl | hmem
    · rw [load_cons, load_cons, load_update_of_not_mem hnodup.1, update_self,
        map_append, ← Multiset.coe_add, add_assoc, add_assoc, add_comm (load contents es)]
    · have hne : e.2 ≠ b := by
        rintro rfl
        exact hnodup.1 (mem_map.mpr ⟨_, hmem, rfl⟩)
      rw [load_cons, load_cons, ih hnodup.2 hmem, update_of_ne hne, add_assoc]

end Lib
