import Mathlib.Data.Set.Basic

/-!
# Leases and what their holders may have left installed

A general account of a resource that holders lease, use to install entries
somewhere, and give back.  An entry may outlive its holder, so a lease may end
only when nothing of the holder is installed any more.  Each live holder has one
agent that keeps track of an upper bound of its entries.

The account is kept apart from any particular pool: `Ledger` records who
holds what and what may be installed, `Ledger.Covered` is the invariant, and
`Ledger.Covered.step` reduces its preservation to the one holder a step is
about.
-/

namespace Lib

open Set

/-- Agents `ι` look after holders `S`, which lease addresses `A`
and install entries under keys `K`. -/
structure Ledger (ι S A K : Type*) where
  lease : S → Option A
  /-- The addresses a holder was ever given. -/
  given : S → Set A
  /-- The keys under which something of a holder may be installed. -/
  held : S → Set K
  /-- The keys an agent knows of for a holder it looks after. -/
  known : ι → S → Option (Set K)
  /-- The holders that are, or were, looked after by some agent. -/
  used : Set S
  /-- The holders that are no longer accounted for. -/
  waived : Set S

namespace Ledger

variable {ι S A K : Type*}

def Leased (l : Ledger ι S A K) (s : S) : Prop :=
  ∀ a ∈ l.given s, l.lease s = some a

structure Covered (l : Ledger ι S A K) : Prop where
  /-- A holder has one agent. -/
  owner : ∀ i j s, l.known i s ≠ none → l.known j s ≠ none → i = j
  used_of_known : ∀ i s, l.known i s ≠ none → s ∈ l.used
  fresh : ∀ s ∉ l.used, l.held s = ∅ ∧ l.given s = ∅
  /-- The agent's bound is right while the holder lives. -/
  bound : ∀ i s N, l.known i s = some N → s ∉ l.waived → l.held s ⊆ N ∧ l.Leased s
  /-- Later, either nothing is left or nothing was given back. -/
  settled : ∀ s ∉ l.waived, l.held s = ∅ ∨ l.Leased s

/-- What a step about the holder `s` of the agent `i` leaves alone. -/
structure Others (l l' : Ledger ι S A K) (i : ι) (s : S) : Prop where
  lease : ∀ t ≠ s, l'.lease t = l.lease t
  given : ∀ t ≠ s, l'.given t = l.given t
  held : ∀ t ≠ s, l'.held t ⊆ l.held t
  known : ∀ j t, j ≠ i ∨ t ≠ s → l'.known j t = l.known j t
  used : ∀ t ≠ s, t ∈ l'.used ↔ t ∈ l.used
  waived : ∀ t ≠ s, t ∈ l'.waived ↔ t ∈ l.waived

/-- What a step has to establish for its own holder. -/
structure Own (l : Ledger ι S A K) (i : ι) (s : S) : Prop where
  used : s ∈ l.used
  bound : ∀ N, l.known i s = some N → s ∉ l.waived → l.held s ⊆ N ∧ l.Leased s
  settled : s ∉ l.waived → l.held s = ∅ ∨ l.Leased s

variable {l l' : Ledger ι S A K} {i : ι} {s : S}

namespace Others

theorem leased (h : l.Others l' i s) {t : S} (hne : t ≠ s) : l'.Leased t ↔ l.Leased t := by
  simp only [Leased, h.given t hne, h.lease t hne]

theorem held_eq_empty (h : l.Others l' i s) {t : S} (hne : t ≠ s) (hheld : l.held t = ∅) :
    l'.held t = ∅ :=
  subset_eq_empty (h.held t hne) hheld

end Others

namespace Covered

/-- A step about one holder keeps the account, if it keeps it for that holder and
no other agent looks after it. -/
theorem step (h : l.Covered) (hothers : l.Others l' i s) (hown : l'.Own i s)
    (hnone : ∀ j ≠ i, l.known j s = none) : l'.Covered where
  owner j j' t hj hj' := by
    -- Only the agent of the step can know its holder afterwards.
    have own : ∀ j, l'.known j s ≠ none → j = i := by
      intro j hj
      by_contra hne
      rw [hothers.known j s (.inl hne)] at hj
      exact hj (hnone j hne)
    by_cases ht : t = s
    · subst ht
      rw [own j hj, own j' hj']
    · rw [hothers.known _ t (.inr ht)] at hj hj'
      exact h.owner j j' t hj hj'
  used_of_known j t hj := by
    by_cases ht : t = s
    · exact ht ▸ hown.used
    · rw [hothers.known j t (.inr ht)] at hj
      exact (hothers.used t ht).mpr (h.used_of_known j t hj)
  fresh t ht := by
    have hne : t ≠ s := fun heq => ht (heq ▸ hown.used)
    rcases h.fresh t (fun hused => ht ((hothers.used t hne).mpr hused)) with ⟨hheld, hgiven⟩
    exact ⟨hothers.held_eq_empty hne hheld, (hothers.given t hne).trans hgiven⟩
  bound j t N hN hw := by
    by_cases ht : t = s
    · subst ht
      by_cases hj : j = i
      · exact hown.bound N (hj ▸ hN) hw
      · rw [hothers.known j t (.inl hj), hnone j hj] at hN
        cases hN
    · rw [hothers.known j t (.inr ht)] at hN
      rcases h.bound j t N hN (fun hw' => hw ((hothers.waived t ht).mpr hw')) with ⟨hheld, hleased⟩
      exact ⟨(hothers.held t ht).trans hheld, (hothers.leased ht).mpr hleased⟩
  settled t hw := by
    by_cases ht : t = s
    · subst ht
      exact hown.settled hw
    · rcases h.settled t (fun hw' => hw ((hothers.waived t ht).mpr hw')) with hheld | hleased
      · exact .inl (hothers.held_eq_empty ht hheld)
      · exact .inr ((hothers.leased ht).mpr hleased)

theorem shrink (h : l.Covered) (hlease : l'.lease = l.lease) (hgiven : l'.given = l.given)
    (hheld : ∀ t, l'.held t ⊆ l.held t) (hknown : l'.known = l.known) (hused : l'.used = l.used)
    (hwaived : l'.waived = l.waived) : l'.Covered where
  owner j j' t := by
    rw [hknown]
    exact h.owner j j' t
  used_of_known j t := by
    rw [hknown, hused]
    exact h.used_of_known j t
  fresh t := by
    rw [hused, hgiven]
    exact fun ht => (h.fresh t ht).imp_left (subset_eq_empty (hheld t))
  bound j t N := by
    rw [hknown, hwaived, Leased, hgiven, hlease]
    exact fun hN hw => (h.bound j t N hN hw).imp_left (hheld t).trans
  settled t := by
    rw [hwaived, Leased, hgiven, hlease]
    exact fun hw => (h.settled t hw).imp_left (subset_eq_empty (hheld t))

theorem known_eq_none (h : l.Covered) (hknown : l.known i s ≠ none) {j : ι} (hne : j ≠ i) :
    l.known j s = none := by
  by_contra hj
  exact hne (h.owner j i s hj hknown)

theorem known_of_fresh (h : l.Covered) (hfresh : s ∉ l.used) (j : ι) : l.known j s = none := by
  by_contra hj
  exact hfresh (h.used_of_known j s hj)

end Covered

end Ledger

end Lib
