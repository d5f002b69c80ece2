import Mathlib.Data.List.Nodup
import Mathlib.Data.List.Perm.Subperm

/-!
# Depth-first search

The search goes on to every node it has not visited and remembers all it has.  It
ends with the nodes that can be reached, which the depth of its recursion bounds
by the number of nodes.
-/

namespace Lib

open List

variable {V : Type} (next : V → List V)

def visitAll [DecidableEq V] : (fuel : Nat) → List V → (visited : List V) → List V
  | 0, _, visited => visited
  | fuel + 1, ws, visited =>
    ws.foldl (fun visited w =>
      if w ∈ visited then visited else visitAll fuel (next w) (w :: visited)) visited

@[simp] theorem visitAll_nil [DecidableEq V] (fuel : Nat) (visited : List V) :
    visitAll next fuel [] visited = visited := by
  cases fuel <;> rfl

/-- All nodes of the list are visited, with all that is behind nodes visited on the way,
and nothing else. -/
structure Explored (ws visited visited' : List V) : Prop where
  grows : visited ⊆ visited'
  all : ws ⊆ visited'
  closed : ∀ x ∈ visited', x ∉ visited → next x ⊆ visited'
  reached : ∀ x ∈ visited', x ∈ visited ∨
    ∃ w ∈ ws, Relation.ReflTransGen (fun a b => b ∈ next a) w x
  nodup : visited.Nodup → visited'.Nodup

variable {next} {visited visited₁ visited' nodes : List V}

theorem Explored.of_subset {ws : List V} (h : ws ⊆ visited) :
    Explored next ws visited visited where
  grows := fun _ hx => hx
  all := h
  closed := fun _ hx hnew => absurd hx hnew
  reached := fun _ hx => .inl hx
  nodup := id

theorem Explored.append {xs ys : List V} (h₁ : Explored next xs visited visited₁)
    (h₂ : Explored next ys visited₁ visited') : Explored next (xs ++ ys) visited visited' where
  grows := fun _ hx => h₂.grows (h₁.grows hx)
  all := append_subset.mpr ⟨fun _ hx => h₂.grows (h₁.all hx), h₂.all⟩
  closed := by
    intro x hx hnew
    by_cases hx₁ : x ∈ visited₁
    · exact fun _ hy => h₂.grows (h₁.closed x hx₁ hnew hy)
    · exact h₂.closed x hx hx₁
  reached := by
    intro x hx
    rcases h₂.reached x hx with hx₁ | ⟨w, hw, hway⟩
    · rcases h₁.reached x hx₁ with hold | ⟨w, hw, hway⟩
      · exact .inl hold
      · exact .inr ⟨w, mem_append_left _ hw, hway⟩
    · exact .inr ⟨w, mem_append_right _ hw, hway⟩
  nodup := h₂.nodup ∘ h₁.nodup

theorem Explored.enter {w : V} (hw : w ∉ visited)
    (h : Explored next (next w) (w :: visited) visited') : Explored next [w] visited visited' where
  grows := fun _ hx => h.grows (mem_cons_of_mem w hx)
  all := by simpa using h.grows mem_cons_self
  closed := by
    intro x hx hnew
    by_cases hxw : x = w
    · rw [hxw]
      exact h.all
    · exact h.closed x hx (by simp [hxw, hnew])
  reached := by
    intro x hx
    rcases h.reached x hx with hold | ⟨u, hu, hway⟩
    · rcases mem_cons.mp hold with rfl | hold
      · exact .inr ⟨x, mem_singleton.mpr rfl, .refl⟩
      · exact .inl hold
    · exact .inr ⟨w, mem_singleton.mpr rfl, .head hu hway⟩
  nodup := fun hnodup => h.nodup (nodup_cons.mpr ⟨hw, hnodup⟩)

theorem Explored.subset {ws : List V} (h : Explored next ws visited visited')
    (hclosed : ∀ x ∈ nodes, next x ⊆ nodes) (hws : ws ⊆ nodes) (hvisited : visited ⊆ nodes) :
    visited' ⊆ nodes := by
  intro x hx
  rcases h.reached x hx with hold | ⟨w, hw, hway⟩
  · exact hvisited hold
  · clear hx
    induction hway with
    | refl => exact hws hw
    | tail _ hedge ih => exact hclosed _ ih hedge

/-- A search among some nodes, with as much fuel as there are nodes left to visit. -/
theorem visitAll_explored [DecidableEq V] (hclosed : ∀ x ∈ nodes, next x ⊆ nodes) (fuel : Nat) :
    ∀ (ws visited : List V), ws ⊆ nodes → visited ⊆ nodes → visited.Nodup →
      nodes.length ≤ fuel + visited.length →
      Explored next ws visited (visitAll next fuel ws visited) := by
  induction fuel with
  | zero =>
    intro ws visited hws hvisited hnodup hfuel
    have hall : nodes ⊆ visited :=
      ((hnodup.subperm hvisited).perm_of_length_le (by omega)).symm.subset
    exact .of_subset fun _ hx => hall (hws hx)
  | succ fuel ih =>
    intro ws
    induction ws with
    | nil => exact fun visited _ _ _ _ => .of_subset (nil_subset _)
    | cons w ws ihws =>
      intro visited hws hvisited hnodup hfuel
      obtain ⟨hw, hws⟩ := cons_subset.mp hws
      rw [visitAll, foldl_cons, ← singleton_append]
      by_cases hold : w ∈ visited
      · rw [if_pos hold]
        exact (Explored.of_subset (by simpa using hold)).append
          (ihws visited hws hvisited hnodup hfuel)
      · rw [if_neg hold]
        have hfirst := (ih (next w) (w :: visited) (hclosed w hw)
          (cons_subset.mpr ⟨hw, hvisited⟩) (nodup_cons.mpr ⟨hold, hnodup⟩)
          (by rw [length_cons]; omega)).enter hold
        have hlength := (hnodup.subperm hfirst.grows).length_le
        exact hfirst.append (ihws _ hws
          (hfirst.subset hclosed (by simpa using hw) hvisited) (hfirst.nodup hnodup) (by omega))

theorem Explored.mem_iff {t : V} {ws : List V} (h : Explored next ws [t] visited')
    (ht : next t = []) (x : V) : x ∈ visited' ↔
      x = t ∨ ∃ w ∈ ws, Relation.ReflTransGen (fun a b => b ∈ next a) w x := by
  constructor
  · intro hx
    rcases h.reached x hx with hold | hway
    · exact .inl (mem_singleton.mp hold)
    · exact .inr hway
  · rintro (rfl | ⟨w, hw, hway⟩)
    · exact h.grows mem_cons_self
    · induction hway with
      | refl => exact h.all hw
      | @tail y z _ hedge ih =>
        have hy : y ∉ [t] := by
          rintro hy
          rw [mem_singleton.mp hy, ht] at hedge
          cases hedge
        exact h.closed y ih hy hedge

end Lib
