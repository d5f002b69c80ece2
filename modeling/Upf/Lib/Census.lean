import Mathlib.Data.List.AList

/-!
# Counting the entries of a table

How many entries of a table satisfy a predicate, as entries come and go.
-/

namespace Lib

open List AList

variable {K V : Type} [DecidableEq K]

def census (p : V → Bool) (t : AList fun _ : K => V) : Nat := t.entries.countP fun e => p e.2

def share (p : V → Bool) : Option V → Nat
  | some v => if p v then 1 else 0
  | none => 0

theorem countP_kerase (p : V → Bool) (k : K) {entries : List (Sigma fun _ : K => V)}
    (h : entries.NodupKeys) :
    entries.countP (fun e => p e.2) =
      (entries.kerase k).countP (fun e => p e.2) + share p (entries.dlookup k) := by
  induction entries with
  | nil => rfl
  | cons e entries ih =>
    rcases nodupKeys_cons.mp h with ⟨-, hrest⟩
    by_cases hk : k = e.1
    · subst hk
      rw [kerase_cons_eq rfl, dlookup_cons_eq, countP_cons]
      rfl
    · rw [kerase_cons_ne hk, dlookup_cons_ne _ _ hk, countP_cons,
        countP_cons, ih hrest]
      omega

variable (p : V → Bool) (k : K) (v : V) (t : AList fun _ : K => V)

theorem census_erase : census p t = census p (t.erase k) + share p (t.lookup k) :=
  countP_kerase p k t.nodupKeys

theorem census_insert : census p (t.insert k v) = census p (t.erase k) + share p (some v) := by
  unfold census
  rw [entries_insert, countP_cons]
  rfl

theorem census_pos {p : V → Bool} {k : K} {v : V} {t : AList fun _ : K => V}
    (h : t.lookup k = some v) (hv : p v = true) : 0 < census p t := by
  have hcensus := census_erase p k t
  rw [h, share, if_pos hv] at hcensus
  omega

theorem exists_of_census_pos {p : V → Bool} {t : AList fun _ : K => V} (h : 0 < census p t) :
    ∃ k v, t.lookup k = some v ∧ p v = true := by
  rcases countP_pos_iff.mp h with ⟨⟨k, v⟩, hmem, hv⟩
  exact ⟨k, v, mem_lookup_iff.mpr hmem, hv⟩

end Lib
