import Mathlib.Data.List.Nodup
import Upf.Bess.GateGraph

/-!
# The gates stay joined

The two directions of every connection are stored apart, and four operations edit
them.  Each of these keeps them inverse to each other, also for a loop from a module
to itself and for several connections to one gate.
-/

namespace Upf.Bess

open Function Lib List

namespace ModuleGraph

/-! ## The two directions -/

/-- The input gates in the vectors are the ones at the addresses, each at its own
place. -/
def IgatesPlaced (s : ModuleGraph) : Prop :=
  ∀ x j i, s.igateAt x j = some i ↔ ∃ ig, s.igates i = some ig ∧ ig.module = x ∧ ig.gateIdx = j

/-- Every output gate is listed by the gate it points to, every listed gate points
back, and only modules that are there have gates. -/
structure Consistent (s : ModuleGraph) : Prop where
  ogates : s.OgatesPlaced
  igates : s.IgatesPlaced
  target : ∀ {o og}, s.ogates o = some og → ∃ ig, s.igates og.igate = some ig ∧
    o ∈ ig.ogatesUpstream ∧ og.next = ig.module ∧ og.igateIdx = ig.gateIdx
  upstream : ∀ {i ig}, s.igates i = some ig → ∀ o ∈ ig.ogatesUpstream,
    ∃ og, s.ogates o = some og ∧ og.igate = i
  nodup : ∀ {i ig}, s.igates i = some ig → ig.ogatesUpstream.Nodup
  nonempty : ∀ {i ig}, s.igates i = some ig → ig.ogatesUpstream ≠ []
  dead : ∀ {m}, s.modules m = none → (∀ j, s.ogateAt m j = none) ∧ ∀ j, s.igateAt m j = none

variable {s s' : ModuleGraph}

theorem IgatesPlaced.place (h : s.IgatesPlaced) {i : Addr} {ig : IGate}
    (hig : s.igates i = some ig) : s.igateAt ig.module ig.gateIdx = some i :=
  (h ig.module ig.gateIdx i).mpr ⟨ig, hig, rfl, rfl⟩

section Placed

variable {G : Type} {module : G → Addr} {gateIdx : G → Nat} {gates gates' : Addr → Option G}
  {place place' : Addr → Nat → Option Addr} {a : Addr} {g : G}

/-- A gate is put at its address and at its place, where no other gate was. -/
theorem placed_put
    (h : ∀ x j a, place x j = some a ↔ ∃ g, gates a = some g ∧ module g = x ∧ gateIdx g = j)
    (hfree : ∀ a' ≠ a, place (module g) (gateIdx g) ≠ some a')
    (hown : ∀ g', gates a = some g' → module g' = module g ∧ gateIdx g' = gateIdx g)
    (hplace : ∀ x j, place' x j = if x = module g ∧ j = gateIdx g then some a else place x j)
    (hgates : gates' = update gates a (some g)) (x : Addr) (j : Nat) (a' : Addr) :
    place' x j = some a' ↔ ∃ g, gates' a' = some g ∧ module g = x ∧ gateIdx g = j := by
  rw [hplace, hgates]
  by_cases ha : a' = a
  · subst ha
    rw [update_self]
    split
    case isTrue hat => simp [hat]
    case isFalse hat =>
      constructor
      · intro hsome
        obtain ⟨g', hg', rfl, rfl⟩ := (h x j a').mp hsome
        exact absurd (hown g' hg') hat
      · rintro ⟨g', ⟨rfl⟩, rfl, rfl⟩
        exact absurd ⟨rfl, rfl⟩ hat
  · rw [update_of_ne ha]
    split
    case isTrue hat =>
      obtain ⟨rfl, rfl⟩ := hat
      rw [← h]
      simp [Ne.symm ha, hfree a' ha]
    case isFalse => exact h x j a'

theorem placed_without
    (h : ∀ x j a, place x j = some a ↔ ∃ g, gates a = some g ∧ module g = x ∧ gateIdx g = j)
    (hg : gates a = some g)
    (hplace : ∀ x j, place' x j = if x = module g ∧ j = gateIdx g then none else place x j)
    (hgates : gates' = update gates a none) (x : Addr) (j : Nat) (a' : Addr) :
    place' x j = some a' ↔ ∃ g, gates' a' = some g ∧ module g = x ∧ gateIdx g = j := by
  rw [hplace, hgates]
  by_cases ha : a' = a
  · subst ha
    rw [update_self]
    split
    case isTrue => simp
    case isFalse hat =>
      simp only [reduceCtorEq, false_and, exists_false, iff_false]
      intro hsome
      obtain ⟨g', hg', rfl, rfl⟩ := (h x j a').mp hsome
      cases hg.symm.trans hg'
      exact hat ⟨rfl, rfl⟩
  · rw [update_of_ne ha]
    split
    case isTrue hat =>
      obtain ⟨rfl, rfl⟩ := hat
      rw [← h, (h _ _ a).mpr ⟨g, hg, rfl, rfl⟩]
      simp [Ne.symm ha]
    case isFalse => exact h x j a'

end Placed

theorem consistent_empty : Consistent {} where
  ogates := fun _ _ _ => by simp [ogateAt]
  igates := fun _ _ _ => by simp [igateAt]
  target := fun h => (nomatch h)
  upstream := fun h => (nomatch h)
  nodup := fun h => (nomatch h)
  nonempty := fun h => (nomatch h)
  dead := fun _ => ⟨fun _ => rfl, fun _ => rfl⟩

/-! ## Connecting -/

/-- The gates of a connection that is about to be made: a free place and address
for the output gate, and an input gate that is at its place or has a free one. -/
structure Connectable (s : ModuleGraph) (o : Addr) (og : OGate) (ig : IGate) : Prop where
  address : s.ogates o = none
  place : s.ogateAt og.module og.gateIdx = none
  next : ig.module = og.next
  idx : ig.gateIdx = og.igateIdx
  igate : s.igates og.igate = some ig ∨
    (s.igates og.igate = none ∧ s.igateAt og.next og.igateIdx = none ∧ ig.ogatesUpstream = [])
  alive : s.modules og.module ≠ none
  alive_next : s.modules og.next ≠ none

section Connecting

variable {o : Addr} {og : OGate} {ig : IGate}

theorem Connected.ogatesPlaced (h : Connected s s' o og ig) (hs : s.Consistent)
    (hc : Connectable s o og ig) : s'.OgatesPlaced := by
  refine placed_put hs.ogates (fun o' _ hsome => ?_) (fun og' hog' => ?_) h.ogateAt h.ogates
  · rw [hc.place] at hsome
    cases hsome
  · rw [hc.address] at hog'
    cases hog'

theorem Connected.igatesPlaced (h : Connected s s' o og ig) (hs : s.Consistent)
    (hc : Connectable s o og ig) : s'.IgatesPlaced := by
  refine placed_put hs.igates (fun i' hne hsome => ?_) (fun ig' hig' => ?_) ?_ h.igates
  · rw [hc.next, hc.idx] at hsome
    rcases hc.igate with hig | ⟨-, hfree, -⟩
    · have hplace := hs.igates.place hig
      rw [hc.next, hc.idx, hsome] at hplace
      exact hne (Option.some.inj hplace)
    · rw [hfree] at hsome
      cases hsome
  · rcases hc.igate with hig | ⟨hnone, -⟩
    · cases hig.symm.trans hig'
      exact ⟨rfl, rfl⟩
    · rw [hnone] at hig'
      cases hig'
  · intro x j
    rw [h.igateAt, hc.next, hc.idx]

theorem Consistent.listed_ne (hs : s.Consistent) (haddr : s.ogates o = none) {i : Addr}
    {ig' : IGate} (hig : s.igates i = some ig') {o' : Addr} (ho' : o' ∈ ig'.ogatesUpstream) :
    o' ≠ o := by
  rintro rfl
  obtain ⟨og', hog', -⟩ := hs.upstream hig o' ho'
  rw [haddr] at hog'
  exact (nomatch hog')

theorem Consistent.connected (hs : s.Consistent) (hc : Connectable s o og ig)
    (h : Connected s s' o og ig) : s'.Consistent where
  ogates := h.ogatesPlaced hs hc
  igates := h.igatesPlaced hs hc
  target := by
    intro o' og' hog'
    rw [h.ogates] at hog'
    by_cases ho : o' = o
    · subst ho
      rw [update_self] at hog'
      cases hog'
      rw [h.igates, update_self]
      exact ⟨_, rfl, mem_append_right _ mem_cons_self, hc.next.symm, hc.idx.symm⟩
    · rw [update_of_ne ho] at hog'
      obtain ⟨ig', hig', hmem, hnext, hidx⟩ := hs.target hog'
      rw [h.igates]
      by_cases hi : og'.igate = og.igate
      · rw [hi, update_self]
        rw [hi] at hig'
        rcases hc.igate with hig | ⟨hnone, -⟩
        · cases hig.symm.trans hig'
          exact ⟨_, rfl, mem_append_left _ hmem, hnext, hidx⟩
        · rw [hnone] at hig'
          exact (nomatch hig')
      · rw [update_of_ne hi]
        exact ⟨ig', hig', hmem, hnext, hidx⟩
  upstream := by
    intro i' ig' hig' o' ho'
    rw [h.igates] at hig'
    rw [h.ogates]
    by_cases hi : i' = og.igate
    · subst hi
      rw [update_self] at hig'
      cases hig'
      rcases mem_append.mp ho' with hold | hnew
      · rcases hc.igate with hig | ⟨-, -, hnil⟩
        · rw [update_of_ne (hs.listed_ne hc.address hig hold)]
          exact hs.upstream hig o' hold
        · rw [hnil] at hold
          cases hold
      · rw [mem_singleton.mp hnew, update_self]
        exact ⟨og, rfl, rfl⟩
    · rw [update_of_ne hi] at hig'
      rw [update_of_ne (hs.listed_ne hc.address hig' ho')]
      exact hs.upstream hig' o' ho'
  nodup := by
    intro i' ig' hig'
    rw [h.igates] at hig'
    by_cases hi : i' = og.igate
    · subst hi
      rw [update_self] at hig'
      cases hig'
      rcases hc.igate with hig | ⟨-, -, hnil⟩
      · rw [nodup_append]
        refine ⟨hs.nodup hig, nodup_singleton o, fun a ha b hb => ?_⟩
        rw [mem_singleton.mp hb]
        exact hs.listed_ne hc.address hig ha
      · simp [hnil]
    · rw [update_of_ne hi] at hig'
      exact hs.nodup hig'
  nonempty := by
    intro i' ig' hig'
    rw [h.igates] at hig'
    by_cases hi : i' = og.igate
    · subst hi
      rw [update_self] at hig'
      cases hig'
      simp
    · rw [update_of_ne hi] at hig'
      exact hs.nonempty hig'
  dead := by
    intro m hm
    rw [h.same.modules] at hm
    obtain ⟨hog, hig⟩ := hs.dead hm
    have hmodule : m ≠ og.module := fun heq => hc.alive (heq ▸ hm)
    have hnext : m ≠ og.next := fun heq => hc.alive_next (heq ▸ hm)
    refine ⟨fun j => ?_, fun j => ?_⟩
    · rw [h.ogateAt, if_neg fun hplace => hmodule hplace.1]
      exact hog j
    · rw [h.igateAt, if_neg fun hplace => hnext hplace.1]
      exact hig j

end Connecting

/-! ## Disconnecting -/

section Disconnecting

variable {o i : Addr} {og : OGate} {ig : IGate}

theorem IgatesPlaced.changed (h : s.IgatesPlaced) (hig : s.igates i = some ig) (ig' : IGate)
    (hmodule : ig'.module = ig.module) (hidx : ig'.gateIdx = ig.gateIdx)
    (hat : ∀ x j, s'.igateAt x j = s.igateAt x j)
    (haddr : s'.igates = update s.igates i (some ig')) : s'.IgatesPlaced := by
  intro x j i'
  rw [hat, haddr, h x j i']
  by_cases hi : i' = i
  · subst hi
    rw [update_self, hig]
    simp [hmodule, hidx]
  · rw [update_of_ne hi]

theorem Detached.igatesPlaced (h : Detached s s' o og ig) (hs : s.Consistent)
    (hig : s.igates og.igate = some ig) : s'.IgatesPlaced := by
  by_cases hempty : ig.ogatesUpstream.erase o = []
  · apply placed_without hs.igates hig
    · intro x j
      rw [h.igateAt]
      simp [hempty]
    · rw [h.igates, if_pos hempty]
  · apply hs.igates.changed hig { ig with ogatesUpstream := ig.ogatesUpstream.erase o } rfl rfl
    · intro x j
      rw [h.igateAt, if_neg fun hplace => hempty hplace.1]
    · rw [h.igates, if_neg hempty]

/-- The input gates after one output gate is gone: the one it pointed to lists it
no longer, the others are as before. -/
theorem Detached.igate_cases (h : Detached s s' o og ig) {i : Addr} {ig' : IGate}
    (hig' : s'.igates i = some ig') :
    (i = og.igate ∧ ig.ogatesUpstream.erase o ≠ [] ∧
      ig' = { ig with ogatesUpstream := ig.ogatesUpstream.erase o }) ∨
    (i ≠ og.igate ∧ s.igates i = some ig') := by
  rw [h.igates] at hig'
  by_cases hi : i = og.igate
  · subst hi
    rw [update_self] at hig'
    split at hig'
    case isTrue => exact (nomatch hig')
    case isFalse hne => exact .inl ⟨rfl, hne, (Option.some.inj hig').symm⟩
  · rw [update_of_ne hi] at hig'
    exact .inr ⟨hi, hig'⟩

theorem Consistent.detached (hs : s.Consistent) (hog : s.ogates o = some og)
    (hig : s.igates og.igate = some ig) (h : Detached s s' o og ig) : s'.Consistent where
  ogates := placed_without hs.ogates hog h.ogateAt h.ogates
  igates := h.igatesPlaced hs hig
  target := by
    intro o' og' hog'
    have ho : o' ≠ o := by
      rintro rfl
      rw [h.ogates, update_self] at hog'
      exact (nomatch hog')
    rw [h.ogates, update_of_ne ho] at hog'
    obtain ⟨ig', hig', hmem, hnext, hidx⟩ := hs.target hog'
    rw [h.igates]
    by_cases hi : og'.igate = og.igate
    · rw [hi] at hig'
      cases hig.symm.trans hig'
      have hmem' : o' ∈ ig.ogatesUpstream.erase o := (mem_erase_of_ne ho).mpr hmem
      rw [hi, update_self, if_neg (ne_nil_of_mem hmem')]
      exact ⟨_, rfl, hmem', hnext, hidx⟩
    · rw [update_of_ne hi]
      exact ⟨ig', hig', hmem, hnext, hidx⟩
  upstream := by
    intro i' ig' hig' o' ho'
    have hstays : o' ≠ o → (∃ og', s.ogates o' = some og' ∧ og'.igate = i') →
        ∃ og', s'.ogates o' = some og' ∧ og'.igate = i' := fun hne hold => by
      rw [h.ogates, update_of_ne hne]
      exact hold
    rcases h.igate_cases hig' with ⟨rfl, -, rfl⟩ | ⟨hi, hig'⟩
    · have hmem := (hs.nodup hig).mem_erase_iff.mp ho'
      exact hstays hmem.1 (hs.upstream hig o' hmem.2)
    · apply hstays _ (hs.upstream hig' o' ho')
      rintro rfl
      obtain ⟨og', hog', rfl⟩ := hs.upstream hig' o' ho'
      cases hog.symm.trans hog'
      exact hi rfl
  nodup := by
    intro i' ig' hig'
    rcases h.igate_cases hig' with ⟨rfl, -, rfl⟩ | ⟨-, hig'⟩
    · exact (hs.nodup hig).erase o
    · exact hs.nodup hig'
  nonempty := by
    intro i' ig' hig'
    rcases h.igate_cases hig' with ⟨rfl, hne, rfl⟩ | ⟨-, hig'⟩
    · exact hne
    · exact hs.nonempty hig'
  dead := by
    intro m hm
    rw [h.same.modules] at hm
    obtain ⟨hog, hig⟩ := hs.dead hm
    refine ⟨fun j => ?_, fun j => ?_⟩
    · rw [h.ogateAt, hog j, ite_self]
    · rw [h.igateAt, hig j, ite_self]

theorem Consistent.disconnectGate (hs : s.Consistent) (m : Addr) (k : Nat) :
    (s.disconnectGate m k).Consistent := by
  cases ho : s.ogateAt m k with
  | none =>
    rw [ModuleGraph.disconnectGate, ho]
    exact hs
  | some o =>
    obtain ⟨og, hog, rfl, rfl⟩ := (hs.ogates m k o).mp ho
    obtain ⟨ig, hig, hmem, -⟩ := hs.target hog
    exact hs.detached hog hig (disconnectGate_detached ho hog hig hmem)

theorem CutUpstream.igate_old (h : CutUpstream s s' i ig) {i' : Addr} {ig' : IGate}
    (hig' : s'.igates i' = some ig') : i' ≠ i ∧ s.igates i' = some ig' := by
  rw [h.igates] at hig'
  by_cases hi : i' = i
  · rw [hi, update_self] at hig'
    exact (nomatch hig')
  · exact ⟨hi, (update_of_ne hi _ _).symm.trans hig'⟩

theorem Consistent.cutUpstream (hs : s.Consistent) (hig : s.igates i = some ig)
    (h : CutUpstream s s' i ig) : s'.Consistent where
  ogates := by
    intro x j o
    rw [h.ogateAt, h.ogates, Option.filter_eq_some_iff, hs.ogates x j o]
    by_cases ho : o ∈ ig.ogatesUpstream
    · simp [ho]
    · simp [ho]
  igates := placed_without hs.igates hig h.igateAt h.igates
  target := by
    intro o og hog
    rw [h.ogates] at hog
    split at hog
    case isTrue => cases hog
    case isFalse ho =>
      obtain ⟨ig', hig', hmem, hnext, hidx⟩ := hs.target hog
      have hi : og.igate ≠ i := by
        intro heq
        rw [heq] at hig'
        cases hig.symm.trans hig'
        exact ho hmem
      rw [h.igates, update_of_ne hi]
      exact ⟨ig', hig', hmem, hnext, hidx⟩
  upstream := by
    intro i' ig' hig' o ho
    obtain ⟨hi, hig'⟩ := h.igate_old hig'
    obtain ⟨og, hog, rfl⟩ := hs.upstream hig' o ho
    have hcut : o ∉ ig.ogatesUpstream := by
      intro hmem
      obtain ⟨og', hog', hi'⟩ := hs.upstream hig o hmem
      cases hog.symm.trans hog'
      exact hi hi'
    rw [h.ogates, if_neg hcut]
    exact ⟨og, hog, rfl⟩
  nodup hig' := hs.nodup (h.igate_old hig').2
  nonempty hig' := hs.nonempty (h.igate_old hig').2
  dead := by
    intro m hm
    rw [h.same.modules] at hm
    obtain ⟨hog, hig⟩ := hs.dead hm
    refine ⟨fun j => ?_, fun j => ?_⟩
    · rw [h.ogateAt, hog j]
      rfl
    · rw [h.igateAt, hig j, ite_self]

theorem Consistent.disconnectModulesUpstream (hs : s.Consistent) (m : Addr) (k : Nat) :
    (s.disconnectModulesUpstream m k).Consistent := by
  cases hi : s.igateAt m k with
  | none =>
    rw [ModuleGraph.disconnectModulesUpstream, hi]
    exact hs
  | some i =>
    obtain ⟨ig, hig, rfl, rfl⟩ := (hs.igates m k i).mp hi
    exact hs.cutUpstream hig (disconnectModulesUpstream_cut hs.ogates hi hig)

end Disconnecting

end ModuleGraph

end Upf.Bess
