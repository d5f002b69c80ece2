import Mathlib.Data.List.AList

/-!
# Two-way tables

A table that holds both directions of a mapping: every entry names a key, its peer,
whose entry names the first key in turn.  Entries are added and removed in pairs.
-/

namespace Lib

open AList

variable {K V : Type} [DecidableEq K] {peer : V → K} {t : AList fun _ : K => V} {x y : K} {v w : V}

theorem lookup_insert_cases (h : (t.insert y w).lookup x = some v) :
    x = y ∧ v = w ∨ x ≠ y ∧ t.lookup x = some v := by
  by_cases hxy : x = y
  · subst hxy
    rw [lookup_insert, Option.some.injEq] at h
    exact .inl ⟨rfl, h.symm⟩
  · rw [lookup_insert_ne hxy] at h
    exact .inr ⟨hxy, h⟩

def Paired (peer : V → K) (t : AList fun _ : K => V) : Prop :=
  ∀ x v, t.lookup x = some v → ∃ w, t.lookup (peer v) = some w ∧ peer w = x

namespace Paired

theorem empty : Paired peer (∅ : AList fun _ : K => V) := by
  intro x v hx
  rw [lookup_empty] at hx
  cases hx

theorem inj (h : Paired peer t) (hx : t.lookup x = some v) (hy : t.lookup y = some w)
    (hpeer : peer v = peer w) : x = y := by
  rcases h x v hx with ⟨v', hv', rfl⟩
  rcases h y w hy with ⟨w', hw', rfl⟩
  rw [hpeer, hw', Option.some.injEq] at hv'
  rw [hv']

theorem eq_peer (h : Paired peer t) (hx : t.lookup x = some v) (hy : t.lookup y = some w)
    (hpeer : peer w = x) : y = peer v := by
  rcases h y w hy with ⟨w', hw', rfl⟩
  rw [hpeer, hx, Option.some.injEq] at hw'
  rw [hw']

theorem erase_pair (h : Paired peer t) (hx : t.lookup x = some v) :
    Paired peer ((t.erase (peer v)).erase x) := by
  intro z u hz
  have hzx : z ≠ x := by
    rintro rfl
    rw [lookup_erase] at hz
    cases hz
  rw [lookup_erase_ne hzx] at hz
  have hzv : z ≠ peer v := by
    rintro rfl
    rw [lookup_erase] at hz
    cases hz
  rw [lookup_erase_ne hzv] at hz
  -- Neither of the two is the peer of another key.
  have hux : peer u ≠ x := fun hux => hzv (h.eq_peer hx hz hux)
  have huv : peer u ≠ peer v := fun huv => hzx (h.inj hz hx huv)
  rw [lookup_erase_ne hux, lookup_erase_ne huv]
  exact h z u hz

theorem insert_pair (h : Paired peer t) (hx : t.lookup x = none) (hy : t.lookup y = none)
    (hv : peer v = y) (hw : peer w = x) : Paired peer ((t.insert y w).insert x v) := by
  intro z u hz
  rcases lookup_insert_cases hz with ⟨rfl, rfl⟩ | ⟨-, hz⟩
  · by_cases hzy : z = y
    · subst hzy
      rw [hv, lookup_insert]
      exact ⟨u, rfl, hv⟩
    · rw [hv, lookup_insert_ne (Ne.symm hzy), lookup_insert]
      exact ⟨w, rfl, hw⟩
  · rcases lookup_insert_cases hz with ⟨rfl, rfl⟩ | ⟨-, hz⟩
    · rw [hw, lookup_insert]
      exact ⟨v, rfl, hv⟩
    · rcases h z u hz with ⟨u', hu', hback⟩
      -- The new keys were nobody's peers.
      have hux : peer u ≠ x := by
        rintro rfl
        cases hx.symm.trans hu'
      have huy : peer u ≠ y := by
        rintro rfl
        cases hy.symm.trans hu'
      rw [lookup_insert_ne hux, lookup_insert_ne huy]
      exact ⟨u', hu', hback⟩

theorem update (h : Paired peer t) (hx : t.lookup x = some v) (hpeer : peer w = peer v) :
    Paired peer (t.insert x w) := by
  have hlook : ∀ z u, (t.insert x w).lookup z = some u →
      ∃ u', t.lookup z = some u' ∧ peer u' = peer u := by
    intro z u hz
    rcases lookup_insert_cases hz with ⟨rfl, rfl⟩ | ⟨-, hz⟩
    · exact ⟨v, hx, hpeer.symm⟩
    · exact ⟨u, hz, rfl⟩
  intro z u hz
  rcases hlook z u hz with ⟨u', hz, hsame⟩
  rcases h z u' hz with ⟨u'', hu'', hback⟩
  rw [hsame] at hu''
  by_cases hux : peer u = x
  · rw [hux, lookup_insert]
    rw [hux, hx, Option.some.injEq] at hu''
    subst hu''
    exact ⟨w, rfl, hpeer.trans hback⟩
  · rw [lookup_insert_ne hux]
    exact ⟨u'', hu'', hback⟩

end Paired

end Lib
