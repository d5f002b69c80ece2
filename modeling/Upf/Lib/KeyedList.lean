import Mathlib.Data.List.Nodup

/-!
# Lists searched by key

Rules kept in a slice are found by walking it until a key matches: an update
replaces the first element with that key, a removal takes the first one out.
Nothing here assumes that keys are unique.
-/

namespace Lib

open List Option

universe u v

namespace KeyedList

variable {R : Type u} {K : Type v} [DecidableEq K]

def replaceFirst (key : R → K) (r : R) : List R → Option (List R)
  | [] => none
  | v :: vs => if key v = key r then some (r :: vs) else (replaceFirst key r vs).map (v :: ·)

def takeFirst (key : R → K) (k : K) : List R → Option (R × List R)
  | [] => none
  | v :: vs =>
    if key v = k then some (v, vs)
    else (takeFirst key k vs).map fun found => (found.1, v :: found.2)

variable {key : R → K}

theorem replaceFirst_eq_none {r : R} {l : List R} :
    replaceFirst key r l = none ↔ key r ∉ l.map key := by
  induction l with
  | nil => simp [replaceFirst]
  | cons v vs ih =>
    by_cases hv : key v = key r
    · simp [replaceFirst, hv]
    · simp [replaceFirst, hv, ih, Ne.symm hv]

theorem replaceFirst_eq_some {r : R} {l l' : List R} (h : replaceFirst key r l = some l') :
    ∃ front v back, l = front ++ v :: back ∧ l' = front ++ r :: back ∧ key v = key r := by
  induction l generalizing l' with
  | nil => cases h
  | cons v vs ih =>
    by_cases hv : key v = key r
    · simp only [replaceFirst, hv, if_true, some.injEq] at h
      exact ⟨[], v, vs, rfl, h.symm, hv⟩
    · simp only [replaceFirst, hv, if_false, map_eq_some_iff] at h
      rcases h with ⟨vs', hvs, rfl⟩
      rcases ih hvs with ⟨front, x, back, rfl, rfl, hkey⟩
      exact ⟨v :: front, x, back, rfl, rfl, hkey⟩

theorem find?_replaceFirst {r : R} {l l' : List R} (h : replaceFirst key r l = some l') (k : K) :
    (l'.find? fun v => key v == k) =
      (l.find? fun v => key v == k).map fun v => if key r = k then r else v := by
  induction l generalizing l' with
  | nil => cases h
  | cons v vs ih =>
    by_cases hv : key v = key r
    · simp only [replaceFirst, hv, if_true, some.injEq] at h
      subst h
      by_cases hk : key r = k <;> simp [hv, hk]
    · simp only [replaceFirst, hv, if_false, map_eq_some_iff] at h
      rcases h with ⟨vs', hvs, rfl⟩
      by_cases hk : key v = k
      · have hne : key r ≠ k := fun hr => hv (hk.trans hr.symm)
        simp [hk, hne]
      · simp [hk, ih hvs]

theorem replaceFirst_map_key {r : R} {l l' : List R} (h : replaceFirst key r l = some l') :
    l'.map key = l.map key := by
  rcases replaceFirst_eq_some h with ⟨front, v, back, rfl, rfl, hkey⟩
  simp [hkey]

theorem mem_of_replaceFirst {r x : R} {l l' : List R} (h : replaceFirst key r l = some l')
    (hx : x ∈ l') : x = r ∨ x ∈ l := by
  rcases replaceFirst_eq_some h with ⟨front, v, back, rfl, rfl, -⟩
  grind

theorem replaceFirst_filterMap {B : Type} {f : R → Option B} {r : R} {l l' : List R}
    (h : replaceFirst key r l = some l') (hr : f r = none)
    (hl : ∀ x ∈ l, key x = key r → f x = none) : l'.filterMap f = l.filterMap f := by
  rcases replaceFirst_eq_some h with ⟨front, v, back, rfl, rfl, hkey⟩
  simp [hr, hl v (by simp) hkey]

theorem replaceFirst_append (r : R) (l c : List R) :
    replaceFirst key r (l ++ c) =
      match replaceFirst key r l with
      | some l' => some (l' ++ c)
      | none => (replaceFirst key r c).map (l ++ ·) := by
  induction l with
  | nil => cases hc : replaceFirst key r c <;> simp [replaceFirst, hc]
  | cons v vs ih =>
    by_cases hv : key v = key r
    · simp [replaceFirst, hv]
    · rw [cons_append, replaceFirst, if_neg hv, ih, replaceFirst, if_neg hv]
      cases replaceFirst key r vs <;> cases replaceFirst key r c <;> rfl

theorem takeFirst_eq_some {k : K} {l rest : List R} {x : R}
    (h : takeFirst key k l = some (x, rest)) :
    ∃ front back, l = front ++ x :: back ∧ rest = front ++ back ∧ key x = k := by
  induction l generalizing rest with
  | nil => simp [takeFirst] at h
  | cons v vs ih =>
    by_cases hv : key v = k
    · simp only [takeFirst, hv, if_true, some.injEq, Prod.mk.injEq] at h
      rcases h with ⟨rfl, rfl⟩
      exact ⟨[], vs, rfl, rfl, hv⟩
    · simp only [takeFirst, hv, if_false, map_eq_some_iff, Prod.mk.injEq] at h
      rcases h with ⟨⟨y, ys⟩, hys, rfl, rfl⟩
      rcases ih hys with ⟨front, back, rfl, rfl, hkey⟩
      exact ⟨v :: front, back, rfl, rfl, hkey⟩

/-! ## Lists after any number of updates -/

/-- `Revised key touched seen old new`: element by element, `new` has
the keys of `old`, and differs from it only at the first element of a key
in `touched`.  The keys in `seen` stand further to the front. -/
inductive Revised (key : R → K) (touched : List K) : List K → List R → List R → Prop where
  | nil (seen : List K) : Revised key touched seen [] []
  | cons {seen : List K} {b h : R} {bs hs : List R} (hkey : key h = key b)
      (hval : h = b ∨ (key b ∈ touched ∧ key b ∉ seen))
      (tail : Revised key touched (key b :: seen) bs hs) :
      Revised key touched seen (b :: bs) (h :: hs)

namespace Revised

variable {touched touched' seen : List K} {old new new' : List R}

omit [DecidableEq K] in
theorem refl (touched seen : List K) (l : List R) : Revised key touched seen l l := by
  induction l generalizing seen with
  | nil => exact .nil seen
  | cons b bs ih => exact .cons rfl (.inl rfl) (ih _)

omit [DecidableEq K] in
theorem mono (hsub : touched ⊆ touched') (h : Revised key touched seen old new) :
    Revised key touched' seen old new := by
  induction h with
  | nil seen => exact .nil seen
  | cons hkey hval _ ih => exact .cons hkey (hval.imp_right fun hb => ⟨hsub hb.1, hb.2⟩) ih

omit [DecidableEq K] in
theorem map_key (h : Revised key touched seen old new) : new.map key = old.map key := by
  induction h with
  | nil => rfl
  | cons hkey _ _ ih => simp [hkey, ih]

omit [DecidableEq K] in
theorem length_eq (h : Revised key touched seen old new) : new.length = old.length := by
  simpa using congrArg List.length h.map_key

theorem replaceFirst {r : R} (hr : key r ∈ touched) (hseen : key r ∉ seen)
    (h : Revised key touched seen old new)
    (hnew : KeyedList.replaceFirst key r new = some new') :
    Revised key touched seen old new' := by
  induction h generalizing new' with
  | nil => simp [KeyedList.replaceFirst] at hnew
  | @cons seen b c bs cs hkey hval tail ih =>
    by_cases hc : key c = key r
    · simp only [KeyedList.replaceFirst, hc, if_true, some.injEq] at hnew
      subst hnew
      have hbr : key r = key b := by rw [← hc, hkey]
      exact .cons hbr (.inr ⟨hbr ▸ hr, hbr ▸ hseen⟩) tail
    · simp only [KeyedList.replaceFirst, hc, if_false, map_eq_some_iff] at hnew
      rcases hnew with ⟨cs', hcs, rfl⟩
      have hseen' : key r ∉ key b :: seen := by
        intro hmem
        rcases mem_cons.mp hmem with heq | hmem
        · exact hc (hkey.trans heq.symm)
        · exact hseen hmem
      exact .cons hkey hval (ih hseen' hcs)

omit [DecidableEq K] in
theorem exists_old {x : R} (h : Revised key touched seen old new) (hx : x ∈ new) :
    ∃ b ∈ old, key x = key b ∧ (x = b ∨ key b ∈ touched) := by
  induction h with
  | nil => simp at hx
  | @cons seen b c bs cs hkey hval tail ih =>
    rcases mem_cons.mp hx with rfl | hx
    · exact ⟨b, mem_cons_self, hkey, hval.imp id And.left⟩
    · rcases ih hx with ⟨b', hb', hrest⟩
      exact ⟨b', mem_cons_of_mem _ hb', hrest⟩

omit [DecidableEq K] in
theorem exists_new {b : R} (h : Revised key touched seen old new) (hb : b ∈ old) :
    ∃ x ∈ new, key x = key b ∧ (x = b ∨ key b ∈ touched) := by
  induction h with
  | nil => simp at hb
  | @cons seen b' c bs cs hkey hval tail ih =>
    rcases mem_cons.mp hb with rfl | hb
    · exact ⟨c, mem_cons_self, hkey, hval.imp id And.left⟩
    · rcases ih hb with ⟨x, hx, hrest⟩
      exact ⟨x, mem_cons_of_mem _ hx, hrest⟩

/-- Apply one update, if it finds its key, and record it. -/
def step (key : R → K) (acc : List R × List R) (r : R) : List R × List R :=
  match KeyedList.replaceFirst key r acc.1 with
  | none => acc
  | some held => (held, acc.2 ++ [r])

theorem foldl_step_append (key : R → K) (us l found : List R) :
    us.foldl (step key) (l, found) =
      ((us.foldl (step key) (l, [])).1, found ++ (us.foldl (step key) (l, [])).2) := by
  induction us generalizing l found with
  | nil => simp
  | cons u us ih =>
    simp only [foldl_cons]
    cases hu : KeyedList.replaceFirst key u l with
    | none =>
      have hstep : ∀ found, step key (l, found) u = (l, found) := by simp [step, hu]
      rw [hstep, hstep]
      exact ih l found
    | some held =>
      have hstep : ∀ found, step key (l, found) u = (held, found ++ [u]) := by simp [step, hu]
      rw [hstep, hstep, ih held (found ++ [u]), ih held ([] ++ [u])]
      simp

theorem foldl_step_found (key : R → K) (us l : List R) :
    (us.foldl (step key) (l, [])).2 = us.filter fun u => decide (key u ∈ l.map key) := by
  induction us generalizing l with
  | nil => rfl
  | cons u us ih =>
    rw [foldl_cons, filter_cons]
    cases hu : KeyedList.replaceFirst key u l with
    | none =>
      have hstep : step key (l, []) u = (l, []) := by simp [step, hu]
      have hnot : key u ∉ l.map key := replaceFirst_eq_none.mp hu
      simp only [hstep, hnot, decide_false, Bool.false_eq_true, if_false, ih l]
    | some held =>
      have hstep : step key (l, []) u = (held, [u]) := by simp [step, hu]
      have hmem : key u ∈ l.map key := by
        by_contra hnot
        rw [replaceFirst_eq_none.mpr hnot] at hu
        cases hu
      rw [hstep, foldl_step_append]
      simp only [hmem, decide_true, if_true, singleton_append, ih held,
        replaceFirst_map_key hu]

theorem foldl_step_filterMap {B : Type} {f : R → Option B} {us l found : List R}
    (hus : ∀ u ∈ us, f u = none) (hl : ∀ x ∈ l, key x ∈ us.map key → f x = none) :
    (us.foldl (step key) (l, found)).1.filterMap f = l.filterMap f := by
  induction us generalizing l found with
  | nil => rfl
  | cons u us ih =>
    rw [foldl_cons]
    have hus' : ∀ u' ∈ us, f u' = none := fun u' hu' => hus u' (mem_cons_of_mem _ hu')
    have hl' : ∀ x ∈ l, key x ∈ us.map key → f x = none :=
      fun x hx hkey => hl x hx (mem_cons_of_mem _ hkey)
    cases hu : KeyedList.replaceFirst key u l with
    | none =>
      rw [show step key (l, found) u = (l, found) by simp [step, hu]]
      exact ih hus' hl'
    | some held =>
      rw [show step key (l, found) u = (held, found ++ [u]) by simp [step, hu], ih hus']
      · refine replaceFirst_filterMap hu (hus u mem_cons_self) ?_
        intro x hx hkey
        exact hl x hx (hkey ▸ mem_cons_self)
      · intro x hx hkey
        rcases mem_of_replaceFirst hu hx with rfl | hx
        · exact hus x mem_cons_self
        · exact hl' x hx hkey

theorem foldl_step (key : R → K) (us c found : List R) {old l : List R}
    (h : Revised key (found.map key) [] old l) :
    ∃ l' c' more, us.foldl (step key) (l ++ c, found) = (l' ++ c', found ++ more) ∧
      Revised key ((found ++ more).map key) [] old l' ∧ c'.map key = c.map key ∧
      ∀ x ∈ l' ++ c', x ∈ l ++ c ∨ x ∈ us := by
  induction us generalizing l c found with
  | nil => exact ⟨l, c, [], by simp, by simpa using h, rfl, by simp⟩
  | cons u us ih =>
    rw [foldl_cons]
    cases hu : KeyedList.replaceFirst key u (l ++ c) with
    | none =>
      rw [show step key (l ++ c, found) u = (l ++ c, found) by simp [step, hu]]
      rcases ih c found h with ⟨l', c', more, hfold, hrev, hkeys, hmem⟩
      exact ⟨l', c', more, hfold, hrev, hkeys,
        fun x hx => (hmem x hx).imp_right (mem_cons_of_mem _)⟩
    | some held =>
      rw [show step key (l ++ c, found) u = (held, found ++ [u]) by simp [step, hu]]
      have hheld := hu
      rw [replaceFirst_append] at hheld
      -- The update lands in the old part or in the appended part.
      obtain ⟨l₁, c₁, hsplit, hrev₁, hkeys₁⟩ : ∃ l₁ c₁, held = l₁ ++ c₁ ∧
          Revised key ((found ++ [u]).map key) [] old l₁ ∧ c₁.map key = c.map key := by
        have hmono : Revised key ((found ++ [u]).map key) [] old l := h.mono (by simp)
        cases hl : KeyedList.replaceFirst key u l with
        | some l₁ =>
          simp only [hl, some.injEq] at hheld
          exact ⟨l₁, c, hheld.symm, hmono.replaceFirst (by simp) (by simp) hl, rfl⟩
        | none =>
          simp only [hl, map_eq_some_iff] at hheld
          rcases hheld with ⟨c₁, hc₁, rfl⟩
          exact ⟨l, c₁, rfl, hmono, replaceFirst_map_key hc₁⟩
      subst hsplit
      rcases ih c₁ (found ++ [u]) hrev₁ with ⟨l', c', more, hfold, hrev, hkeys, hmem⟩
      refine ⟨l', c', u :: more, by simpa using hfold, by simpa using hrev,
        hkeys.trans hkeys₁, fun x hx => ?_⟩
      rcases hmem x hx with hx | hx
      · rcases mem_of_replaceFirst hu hx with rfl | hx
        · exact .inr mem_cons_self
        · exact .inl hx
      · exact .inr (mem_cons_of_mem _ hx)

end Revised

end KeyedList

end Lib
