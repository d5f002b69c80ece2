import Mathlib.Data.List.Nodup
import Upf.Lib.Table

/-!
# Tables programmed from rules with an ID

Rules are kept in a list, each under an ID, and each rule compiles to entries of
a table.  A message replaces the list by another one, writes some of the new
rules, and then takes some of them out.  The lemmas below say when the entries
the list stands for follow: rules of different IDs must not share keys, and what
is not written must have had its entries before.
-/

namespace Lib

open List

universe u v w x

/-- Rules with an ID that compile to entries of a table. -/
structure Family (R : Type u) (I : Type v) (K : Type w) (V : Type x) where
  id : R → I
  entries : R → List (K × V)
  /-- A rule has one entry a key. -/
  single : ∀ r k v v', (k, v) ∈ entries r → (k, v') ∈ entries r → v' = v

namespace Family

variable {R : Type u} {I : Type v} {K : Type w} {V : Type x} (F : Family R I K V)

def all (rs : List R) : List (K × V) := rs.flatMap F.entries

def Disjoint (r r' : R) : Prop := ∀ k v v', (k, v) ∈ F.entries r → (k, v') ∉ F.entries r'

/-- IDs are unique, and rules of different IDs have no key in common. -/
structure Apart (rs : List R) : Prop where
  nodup : (rs.map F.id).Nodup
  disjoint : ∀ r ∈ rs, ∀ r' ∈ rs, F.id r ≠ F.id r' → F.Disjoint r r'

variable {F}

theorem mem_all {rs : List R} {k : K} {v : V} :
    (k, v) ∈ F.all rs ↔ ∃ r ∈ rs, (k, v) ∈ F.entries r := by
  simp [all]

namespace Apart

variable {rs : List R}

theorem eq_of_mem (h : F.Apart rs) {r r' : R} {k : K} {v v' : V} (hr : r ∈ rs) (hr' : r' ∈ rs)
    (hv : (k, v) ∈ F.entries r) (hv' : (k, v') ∈ F.entries r') : r = r' := by
  by_cases hid : F.id r = F.id r'
  · exact inj_on_of_nodup_map h.nodup hr hr' hid
  · exact absurd hv' (h.disjoint r hr r' hr' hid k v v' hv)

theorem unique (h : F.Apart rs) {k : K} {v v' : V} (hv : (k, v) ∈ F.all rs)
    (hv' : (k, v') ∈ F.all rs) : v' = v := by
  rcases mem_all.mp hv with ⟨r, hr, hrv⟩
  rcases mem_all.mp hv' with ⟨r', hr', hrv'⟩
  rw [← h.eq_of_mem hr hr' hrv hrv'] at hrv'
  exact F.single r k v v' hrv hrv'

theorem of_perm (h : F.Apart rs) {removed rest : List R} (hperm : rs.Perm (removed ++ rest)) :
    F.Apart rest := by
  have hmem : ∀ r ∈ rest, r ∈ rs := fun r hr =>
    hperm.mem_iff.mpr (mem_append_right _ hr)
  constructor
  · have hnodup := (hperm.map F.id).nodup_iff.mp h.nodup
    rw [map_append] at hnodup
    exact hnodup.of_append_right
  · intro r hr r' hr'
    exact h.disjoint r (hmem r hr) r' (hmem r' hr')

theorem nil : F.Apart [] := ⟨by simp, by simp⟩

end Apart

/-- A change of rules that writing `written` carries over to the entries:
what is not written had its entries before, and no old entry outlives its rule
at a key nothing was written to. -/
structure Writes (F : Family R I K V) (old new written : List R) : Prop where
  apart : F.Apart new
  sub : ∀ r ∈ written, r ∈ new
  kept : ∀ r ∈ new, r ∉ written → ∀ x ∈ F.entries r, x ∈ F.all old
  covered : ∀ k v, (k, v) ∈ F.all old → (∀ v', (k, v') ∉ F.all written) → (k, v) ∈ F.all new

theorem Apart.writes {rs : List R} (h : F.Apart rs) : F.Writes [] rs rs where
  apart := h
  sub _ hr := hr
  kept _ hr hnot := absurd hr hnot
  covered k v hold := by simp [all] at hold

theorem mem_write_iff {old new written : List R} (h : F.Writes old new written) (k : K) (v : V) :
    (k, v) ∈ F.all new ↔
      (k, v) ∈ F.all written ∨ ((k, v) ∈ F.all old ∧ ∀ v', (k, v') ∉ F.all written) := by
  constructor
  · intro hnew
    rcases mem_all.mp hnew with ⟨r, hr, hv⟩
    by_cases hwritten : r ∈ written
    · exact .inl (mem_all.mpr ⟨r, hwritten, hv⟩)
    · refine .inr ⟨h.kept r hr hwritten (k, v) hv, ?_⟩
      intro v' hv'
      rcases mem_all.mp hv' with ⟨r', hr', hrv'⟩
      rw [h.apart.eq_of_mem hr (h.sub r' hr') hv hrv'] at hwritten
      exact hwritten hr'
  · rintro (hv | ⟨hold, hnone⟩)
    · rcases mem_all.mp hv with ⟨r, hr, hrv⟩
      exact mem_all.mpr ⟨r, h.sub r hr, hrv⟩
    · exact h.covered k v hold hnone

theorem mem_remaining_iff {rs removed rest : List R} (h : F.Apart rs)
    (hperm : rs.Perm (removed ++ rest)) (k : K) (v : V) :
    (k, v) ∈ F.all rest ↔ (k, v) ∈ F.all rs ∧ k ∉ (F.all removed).map Prod.fst := by
  have hnodup : ((removed ++ rest).map F.id).Nodup := (hperm.map F.id).nodup_iff.mp h.nodup
  rw [map_append, nodup_append] at hnodup
  constructor
  · intro hrest
    rcases mem_all.mp hrest with ⟨r, hr, hv⟩
    have hrs : r ∈ rs := hperm.mem_iff.mpr (mem_append_right _ hr)
    refine ⟨mem_all.mpr ⟨r, hrs, hv⟩, ?_⟩
    intro hgone
    rcases mem_map.mp hgone with ⟨⟨k', v'⟩, hv', rfl⟩
    rcases mem_all.mp hv' with ⟨r', hr', hrv'⟩
    have hrs' : r' ∈ rs := hperm.mem_iff.mpr (mem_append_left _ hr')
    have heq := h.eq_of_mem hrs hrs' hv hrv'
    exact hnodup.2.2 _ (mem_map_of_mem hr') _ (mem_map_of_mem hr) (by rw [heq])
  · rintro ⟨hall, hkept⟩
    rcases mem_all.mp hall with ⟨r, hr, hv⟩
    rcases mem_append.mp (hperm.mem_iff.mp hr) with hgone | hrest
    · exact absurd (mem_map_of_mem (mem_all.mpr ⟨r, hgone, hv⟩)) hkept
    · exact mem_all.mpr ⟨r, hrest, hv⟩

end Family

end Lib
