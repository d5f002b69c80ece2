import Mathlib.Data.List.Basic

/-!
# Runs of commands that can be refused

A machine carries out one command after another and stops at the first it
refuses.
-/

namespace Lib

open Option List

variable {C S : Type} {step : C → S → Option S}

/-- Carry out commands in order, unless one is refused. -/
def runAll (step : C → S → Option S) : List C → S → Option S
  | [], s => some s
  | c :: cs, s => (step c s).bind (runAll step cs)

theorem runAll_invariant {P : S → Prop} {cs : List C} {s s' : S}
    (hkeep : ∀ c ∈ cs, ∀ s s', step c s = some s' → P s → P s')
    (h : runAll step cs s = some s') (hs : P s) : P s' := by
  induction cs generalizing s with
  | nil =>
    rw [runAll, Option.some.injEq] at h
    rwa [← h]
  | cons c cs ih =>
    rcases bind_eq_some_iff.mp h with ⟨s₁, hstep, hrest⟩
    apply ih (fun c' hc' => hkeep c' (mem_cons_of_mem _ hc')) hrest
    exact hkeep c mem_cons_self s s₁ hstep hs

theorem runAll_established {I P : S → Prop} {cs : List C} {c₀ : C} {s s' : S}
    (hinv : ∀ c ∈ cs, ∀ s s', step c s = some s' → I s → I s')
    (hkeep : ∀ c ∈ cs, ∀ s s', step c s = some s' → I s → P s → P s')
    (hset : ∀ s s', step c₀ s = some s' → I s → P s') (hmem : c₀ ∈ cs)
    (h : runAll step cs s = some s') (hs : I s) : P s' := by
  rcases append_of_mem hmem with ⟨before, after, rfl⟩
  clear hmem
  induction before generalizing s with
  | nil =>
    rcases bind_eq_some_iff.mp h with ⟨s₁, hstep, hrest⟩
    have hboth : I s' ∧ P s' := by
      apply runAll_invariant (P := fun s => I s ∧ P s) ?_ hrest
      · exact ⟨hinv c₀ (by simp) s s₁ hstep hs, hset s s₁ hstep hs⟩
      · rintro c hc s s' hstep ⟨hi, hp⟩
        exact ⟨hinv c (by simp [hc]) s s' hstep hi, hkeep c (by simp [hc]) s s' hstep hi hp⟩
    exact hboth.2
  | cons c before ih =>
    rcases bind_eq_some_iff.mp h with ⟨s₁, hstep, hrest⟩
    have hmem : c ∈ c :: before ++ c₀ :: after := by simp
    exact ih (hinv c hmem s s₁ hstep hs) (fun c' hc' => hinv c' (mem_cons_of_mem _ hc'))
      (fun c' hc' => hkeep c' (mem_cons_of_mem _ hc')) hrest

section Conditions

variable {run : S → C → S} {meets : S → C → Prop}

def eachStep (run : S → C → S) (meets : S → C → Prop) : S → List C → Prop
  | _, [] => True
  | s, c :: cs => meets s c ∧ eachStep run meets (run s c) cs

theorem foldl_invariant_of_eachStep {P : S → Prop} {cs : List C} {s : S}
    (hkeep : ∀ s c, meets s c → P s → P (run s c))
    (h : eachStep run meets s cs) (hs : P s) : P (cs.foldl run s) := by
  induction cs generalizing s with
  | nil => exact hs
  | cons c cs ih => exact ih h.2 (hkeep s c h.1 hs)

end Conditions

end Lib
