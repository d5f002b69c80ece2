import Mathlib.Data.List.Nodup
import Mathlib.Data.List.Perm.Basic
import Mathlib.Data.Set.Basic

/-!
# Identifiers and their owners

A source of identifiers records which of them are in use; owners hold them, any
number each.  The record is right when every identifier in use is held once, and
by one owner.
-/

namespace Lib

variable {κ A : Type}

/-- What is in use is held, each identifier once and by one owner. -/
structure Accounted (used : Set A) (own : κ → List A) : Prop where
  nodup : ∀ k, (own k).Nodup
  owner : ∀ k k' a, a ∈ own k → a ∈ own k' → k = k'
  used_iff : ∀ a, a ∈ used ↔ ∃ k, a ∈ own k

namespace Accounted

variable {used used' : Set A} {own own' : κ → List A}

theorem empty (hused : ∀ a, a ∉ used) (hown : ∀ k, own k = []) : Accounted used own where
  nodup k := by simp [hown]
  owner k k' a ha := by simp [hown] at ha
  used_iff a := by simp [hused, hown]

theorem perm (h : Accounted used own) (hperm : ∀ k, (own' k).Perm (own k))
    (hused : ∀ a, a ∈ used' ↔ a ∈ used) : Accounted used' own' where
  nodup k := (hperm k).nodup_iff.mpr (h.nodup k)
  owner k k' a ha ha' := h.owner k k' a ((hperm k).mem_iff.mp ha) ((hperm k').mem_iff.mp ha')
  used_iff a := by
    rw [hused, h.used_iff]
    exact exists_congr fun k => (hperm k).mem_iff.symm

theorem give (h : Accounted used own) {k : κ} {l : List A} (hnone : own k = [])
    (hself : own' k = l) (hothers : ∀ k', k' ≠ k → own' k' = own k') (hnodup : l.Nodup)
    (hfresh : ∀ a ∈ l, a ∉ used) (hused : ∀ a, a ∈ used' ↔ a ∈ used ∨ a ∈ l) :
    Accounted used' own' where
  nodup k' := by
    by_cases hk : k' = k
    · rw [hk, hself]
      exact hnodup
    · rw [hothers k' hk]
      exact h.nodup k'
  owner k₁ k₂ a h₁ h₂ := by
    -- An identifier that was held before was in use, and is not among the new.
    have hold : ∀ k', k' ≠ k → a ∈ own' k' → a ∉ l := by
      intro k' hk ha hl
      rw [hothers k' hk] at ha
      exact hfresh a hl ((h.used_iff a).mpr ⟨k', ha⟩)
    by_cases hk₁ : k₁ = k
    · by_cases hk₂ : k₂ = k
      · rw [hk₁, hk₂]
      · rw [hk₁, hself] at h₁
        exact absurd h₁ (hold k₂ hk₂ h₂)
    · by_cases hk₂ : k₂ = k
      · rw [hk₂, hself] at h₂
        exact absurd h₂ (hold k₁ hk₁ h₁)
      · rw [hothers k₁ hk₁] at h₁
        rw [hothers k₂ hk₂] at h₂
        exact h.owner k₁ k₂ a h₁ h₂
  used_iff a := by
    rw [hused, h.used_iff]
    constructor
    · rintro (⟨k', ha⟩ | ha)
      · have hk : k' ≠ k := by
          rintro rfl
          simp [hnone] at ha
        exact ⟨k', by rwa [hothers k' hk]⟩
      · exact ⟨k, by rwa [hself]⟩
    · rintro ⟨k', ha⟩
      by_cases hk : k' = k
      · right
        rwa [hk, hself] at ha
      · left
        exact ⟨k', by rwa [hothers k' hk] at ha⟩

end Accounted

end Lib
