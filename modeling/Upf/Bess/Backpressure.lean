import Mathlib.Data.Set.Card
import Upf.Bess.Parents
import Upf.Lib.Tally

/-!
# Backpressure

A task counts its overloaded children.  The count is kept by signals alone: a child that
becomes overloaded, or stops to be, tells the parents it has at that time.  The lists of
parents are built again by every update, and modules are destroyed, without a look at the
counts.  So the counts are right as long as no overloaded module is destroyed with parents
in its list, and every update finds as many overloaded tasks behind each task as listed
it before.

Main result: `backpressure_exact`.
-/

namespace Upf.Bess

open Function Lib List Option Bool

namespace ModuleGraph

variable {s s' : ModuleGraph}

def lists (s : ModuleGraph) (t q : Addr) : Bool :=
  (s.modules q).any fun md => md.overload && decide (t ∈ md.parentTasks)

/-- The number of overloaded modules that list the task among their parents. -/
def listedBy (s : ModuleGraph) (t : Addr) : Nat := s.allModules.countP (s.lists t)

theorem lists_eq_true {t q : Addr} : s.lists t q = true ↔
    ∃ md, s.modules q = some md ∧ md.overload = true ∧ t ∈ md.parentTasks := by
  simp [lists, Option.any_eq_true]

/-- The lists of parents and the counts.  As long as nothing has changed since the last
update, the lists are those of the graph. -/
structure Counted (s : ModuleGraph) : Prop where
  nodup : ∀ {x md}, s.modules x = some md → md.parentTasks.Nodup
  plain : ∀ x md, s.modules x = some md → md.isTask = false → md.parentTasks = []
  exact : ∀ {t md}, s.modules t = some md → md.isTask = true →
    md.childrenOverload = s.listedBy t
  current : s.changesMade = false → ∀ {x md}, s.modules x = some md →
    ∀ t, t ∈ md.parentTasks ↔ s.Parent t x

theorem counted_empty : Counted {} :=
  ⟨fun h => (nomatch h), fun _ _ h => (nomatch h), fun h => (nomatch h), fun _ _ _ h => (nomatch h)⟩

/-- The operation keeps the counts: a new module has no address that an overloaded one
lists, a destroyed module that is overloaded lists no module that is there, and an update
finds as many overloaded modules behind each task as list it, as it does where no overloaded
module gains or loses a parent (`Sound.countsKept_of_sameParents`). -/
def CountsKept (s : ModuleGraph) : GraphOp → Prop
  | .createModule m _ _ _ => ∀ q, s.lists m q = false
  | .destroyModule m => ∀ t, s.lists t m = true → s.modules t = none
  | .updateTaskGraph _ _ => s.changesMade = true → ∀ t, s.isTask t = true →
      {x | s.overloaded x = true ∧ s.Parent t x}.ncard = s.listedBy t
  | _ => True

theorem Counted.sameModules (h : s.Counted) (hmodules : s'.modules = s.modules)
    (hall : s'.allModules = s.allModules) (hchanged : s'.changesMade = true) : s'.Counted := by
  have hlisted : s'.listedBy = s.listedBy := by
    funext t
    unfold listedBy lists
    rw [hall, hmodules]
  refine ⟨fun {x md} hmd => ?_, fun x md hmd => ?_, fun {t md} hmd => ?_, fun hfalse => ?_⟩
  · rw [hmodules] at hmd
    exact h.nodup hmd
  · rw [hmodules] at hmd
    exact h.plain x md hmd
  · rw [hmodules] at hmd
    rw [hlisted]
    exact h.exact hmd
  · rw [hchanged] at hfalse
    cases hfalse

theorem Sound.behind_live (hs : s.Sound) {t x : Addr} (h : s.Behind t x) :
    s.modules t ≠ none ∧ s.modules x ≠ none := by
  obtain ⟨c, hc, hway⟩ := h
  refine ⟨fun hnone => ?_, ?_⟩
  · rw [hs.consistent.children_dead hnone] at hc
    cases hc
  · rw [← hs.registered.allModules]
    induction hway with
    | refl => exact hs.children_subset t hc
    | tail _ hedge _ => exact hs.nextModules_subset _ hedge

section Creating

variable (hs : s.Sound) {m : Addr} (hm : s.modules m = none) (isTask : Bool)
  (numIGates numOGates : Nat)

include hs hm

theorem Sound.parent_createModule :
    (s.createModule m isTask numIGates numOGates).Parent = s.Parent := by
  have hchildren := hs.consistent.children_createModule hm isTask numIGates numOGates
  have hnext : (s.createModule m isTask numIGates numOGates).nextModules = s.nextModules := by
    funext a
    rw [nextModules, nextModules, hchildren, isTask_createModule]
    by_cases ha : a = m
    · rw [ha, hs.consistent.children_dead hm, ite_self, ite_self]
    · rw [if_neg ha]
  have hold : ∀ {t x}, s.Behind t x → t ≠ m ∧ x ≠ m := by
    intro t x hbehind
    obtain ⟨htlive, hxlive⟩ := hs.behind_live hbehind
    exact ⟨fun heq => htlive (heq ▸ hm), fun heq => hxlive (heq ▸ hm)⟩
  funext t x
  rw [Parent, Parent, Behind, hchildren, hnext, isTask_createModule, isTask_createModule]
  apply propext
  constructor
  · rintro ⟨ht, hx, hne, hbehind⟩
    obtain ⟨htm, hxm⟩ := hold hbehind
    rw [if_neg htm] at ht
    rw [if_neg hxm] at hx
    exact ⟨ht, hx, hne, hbehind⟩
  · rintro ⟨ht, hx, hne, hbehind⟩
    obtain ⟨htm, hxm⟩ := hold hbehind
    rw [if_neg htm, if_neg hxm]
    exact ⟨ht, hx, hne, hbehind⟩

theorem Sound.listedBy_createModule (t : Addr) :
    (s.createModule m isTask numIGates numOGates).listedBy t = s.listedBy t := by
  have hnew : m ∉ s.allModules := fun hmem => (hs.registered.allModules m).mp hmem hm
  have hself : (s.createModule m isTask numIGates numOGates).lists t m = false := by
    simp [lists, createModule]
  have hothers : s.allModules.countP ((s.createModule m isTask numIGates numOGates).lists t) =
      s.allModules.countP (s.lists t) := by
    apply countP_congr
    intro q hq
    have hne : q ≠ m := fun heq => hnew (heq ▸ hq)
    simp [lists, createModule, hne]
  calc (s.createModule m isTask numIGates numOGates).listedBy t
      = s.allModules.countP ((s.createModule m isTask numIGates numOGates).lists t) :=
        countP_cons_of_neg (by rw [hself]; simp)
    _ = s.listedBy t := hothers

theorem Counted.createModule (h : s.Counted) (hkept : ∀ q, s.lists m q = false) :
    (s.createModule m isTask numIGates numOGates).Counted := by
  have hmodules : ∀ {x md}, (s.createModule m isTask numIGates numOGates).modules x = some md →
      (x = m ∧ md = { isTask, numIGates, numOGates }) ∨ s.modules x = some md := by
    intro x md hmd
    by_cases hx : x = m
    · subst hx
      simp only [ModuleGraph.createModule, update_self, some.injEq] at hmd
      exact .inl ⟨rfl, hmd.symm⟩
    · simp only [ModuleGraph.createModule, update_of_ne hx] at hmd
      exact .inr hmd
  refine ⟨fun {x md} hmd => ?_, fun x md hmd hplain => ?_, fun {t md} hmd htask => ?_,
    fun hunchanged {x md} hmd t => ?_⟩
  · rcases hmodules hmd with ⟨-, rfl⟩ | hold
    · exact nodup_nil
    · exact h.nodup hold
  · rcases hmodules hmd with ⟨-, rfl⟩ | hold
    · rfl
    · exact h.plain x md hold hplain
  · rw [hs.listedBy_createModule hm]
    rcases hmodules hmd with ⟨rfl, rfl⟩ | hold
    · have hnone : s.listedBy t = 0 := countP_eq_zero.mpr fun q _ => by simp [hkept q]
      rw [hnone]
      rfl
    · exact h.exact hold htask
  · rw [hs.parent_createModule hm]
    rcases hmodules hmd with ⟨rfl, rfl⟩ | hold
    · have hnot : ¬ s.Parent t x := fun hparent => (hs.behind_live hparent.2.2.2).2 hm
      simp [hnot]
    · exact h.current hunchanged hold t

end Creating

theorem Counted.destroyModule (h : s.Counted) (hs : s.Sound) {m : Addr}
    (hkept : ∀ t, s.lists t m = true → s.modules t = none) : (s.destroyModule m).Counted := by
  have hsame := (hs.changed.consistent.destroy m).2.1.same
  have hmodules : (s.destroyModule m).modules = update s.modules m none := by
    simp only [ModuleGraph.destroyModule, hsame.modules]
  have hall : (s.destroyModule m).allModules = s.allModules.erase m := by
    simp only [ModuleGraph.destroyModule, hsame.allModules]
  have hold : ∀ {x md}, (s.destroyModule m).modules x = some md → s.modules x = some md := by
    intro x md hmd
    rw [hmodules] at hmd
    by_cases hx : x = m
    · rw [hx, update_self] at hmd
      cases hmd
    · rwa [update_of_ne hx] at hmd
  have hlisted : ∀ {t md}, s.modules t = some md →
      (s.destroyModule m).listedBy t = s.listedBy t := by
    intro t md hmd
    have hnot : s.lists t m = false := by
      rw [← not_eq_true]
      intro hlists
      rw [hkept t hlists] at hmd
      cases hmd
    have hothers : (s.allModules.erase m).countP ((s.destroyModule m).lists t) =
        (s.allModules.erase m).countP (s.lists t) := by
      apply countP_congr
      intro q hq
      have hne := (hs.registered.allModules_nodup.mem_erase_iff.mp hq).1
      rw [lists, lists, hmodules, update_of_ne hne]
    rw [listedBy, hall, hothers, countP_erase, hnot, listedBy]
    simp
  refine ⟨fun {x md} hmd => ?_, fun x md hmd => ?_, fun {t md} hmd htask => ?_, fun hfalse => ?_⟩
  · exact h.nodup (hold hmd)
  · exact h.plain x md (hold hmd)
  · rw [hlisted (hold hmd)]
    exact h.exact (hold hmd) htask
  · have hchanged : (s.destroyModule m).changesMade = true := hsame.changesMade
    rw [hchanged] at hfalse
    cases hfalse

def delta (overload : Bool) : Int := if overload then 1 else -1

def signal (s : ModuleGraph) (m : Addr) (overload : Bool) : ModuleGraph :=
  (s.signalParents m (delta overload)).modifyModule m fun md => { md with overload }

def signalled (ps : List Addr) (m : Addr) (overload : Bool) (x : Addr) (md : Module) : Module :=
  { md with
    childrenOverload := md.childrenOverload + if x ∈ ps then delta overload else 0
    overload := if x = m then overload else md.overload }

theorem signal_modules {m : Addr} {md : Module} (hmd : s.modules m = some md)
    (hnodup : md.parentTasks.Nodup) (overload : Bool) (x : Addr) :
    (s.signal m overload).modules x =
      (s.modules x).map (signalled md.parentTasks m overload x) := by
  have hparents : ∀ x, (s.signalParents m (delta overload)).modules x =
      if x ∈ md.parentTasks then (s.modules x).map fun md =>
        { md with childrenOverload := md.childrenOverload + delta overload }
      else s.modules x := by
    intro x
    rw [signalParents, hmd, map_some, getD_some]
    exact foldl_modifyModule _ hnodup s x
  by_cases hx : x = m
  · subst hx
    simp only [signal, modifyModule, update_self, hparents, hmd]
    by_cases hself : x ∈ md.parentTasks
    · simp [signalled, hself]
    · simp [signalled, hself]
  · simp only [signal, modifyModule, update_of_ne hx, hparents]
    by_cases hlisted : x ∈ md.parentTasks
    · cases hold : s.modules x <;> simp [signalled, hlisted, hx]
    · cases hold : s.modules x <;> simp [signalled, hlisted, hx]

section Signals

variable (h : s.Counted) (hs : s.Sound) {m : Addr} {md : Module} (overload : Bool)
  (hmd : s.modules m = some md) (hflag : md.overload = !overload)

include h hs hmd hflag

theorem Counted.listedBy_signal (t : Addr) :
    s.listedBy t + (if overload && decide (t ∈ md.parentTasks) then 1 else 0) =
      (s.signal m overload).listedBy t +
        (if (!overload) && decide (t ∈ md.parentTasks) then 1 else 0) := by
  have hmodules := signal_modules hmd (h.nodup hmd) overload
  have hgraph : (s.signal m overload).allModules = s.allModules :=
    (signalParents_sameGraph s m (delta overload)).allModules
  have hm : m ∈ s.allModules := (hs.registered.allModules m).mpr (by rw [hmd]; simp)
  have hbefore : s.lists t m = (!overload && decide (t ∈ md.parentTasks)) := by
    rw [lists, hmd, any_some, hflag]
  have hafter : (s.signal m overload).lists t m = (overload && decide (t ∈ md.parentTasks)) := by
    rw [lists, hmodules, hmd, map_some, any_some]
    simp [signalled]
  have hothers : ∀ q, q ≠ m → s.lists t q = (s.signal m overload).lists t q := by
    intro q hq
    rw [lists, lists, hmodules]
    cases hmdq : s.modules q <;> simp [signalled, hq]
  have hcount := countP_change hs.registered.allModules_nodup hm hothers
  rw [hbefore, hafter] at hcount
  rw [listedBy, listedBy, hgraph]
  exact hcount

theorem Counted.signal : (s.signal m overload).Counted := by
  have hmodules := signal_modules hmd (h.nodup hmd) overload
  have hgraph : SameGraph s (s.signal m overload) :=
    (signalParents_sameGraph s m _).trans (modifyModule_sameGraph _ m fun _ => rfl)
  have hold : ∀ {x md'}, (s.signal m overload).modules x = some md' →
      ∃ mdx, s.modules x = some mdx ∧ md' = signalled md.parentTasks m overload x mdx := by
    intro x md' hmd'
    rw [hmodules] at hmd'
    obtain ⟨mdx, hmdx, rfl⟩ := map_eq_some_iff.mp hmd'
    exact ⟨mdx, hmdx, rfl⟩
  refine ⟨fun {x md'} hmd' => ?_, fun x md' hmd' htask => ?_, fun {t md'} hmd' htask => ?_,
    fun hunchanged {x md'} hmd' t => ?_⟩
  · obtain ⟨mdx, hmdx, rfl⟩ := hold hmd'
    exact (h.nodup hmdx : mdx.parentTasks.Nodup)
  · obtain ⟨mdx, hmdx, rfl⟩ := hold hmd'
    exact h.plain x mdx hmdx htask
  · obtain ⟨mdx, hmdx, rfl⟩ := hold hmd'
    have hexact := h.exact hmdx htask
    have hcount := h.listedBy_signal hs overload hmd hflag t
    simp only [signalled, delta, hexact]
    cases overload <;> by_cases ht : t ∈ md.parentTasks <;>
      simp only [ht, Bool.not_true, Bool.not_false, Bool.true_and, Bool.false_and, decide_true,
        decide_false, if_true, if_false, false_eq_true] at hcount ⊢ <;> omega
  · obtain ⟨mdx, hmdx, rfl⟩ := hold hmd'
    have hchanges : (s.signal m overload).changesMade = s.changesMade :=
      (signalParents_onlyModules s m (delta overload)).changesMade
    rw [hgraph.parent]
    exact h.current (hchanges.symm.trans hunchanged) hmdx t

end Signals

theorem signal_dead {m : Addr} (hm : s.modules m = none) (overload : Bool) :
    s.signal m overload = s := by
  have hsame : update s.modules m none = s.modules := by
    rw [← hm, update_eq_self]
  simp [signal, signalParents, modifyModule, hm, hsame]

theorem Counted.signalOverload (h : s.Counted) (hs : s.Sound) (m : Addr) :
    (s.signalOverload m).Counted := by
  unfold ModuleGraph.signalOverload
  split
  case isTrue => exact h
  case isFalse hflag =>
    cases hmd : s.modules m with
    | none => exact (congrArg Counted (signal_dead hmd true)).mpr h
    | some =>
      rw [overloaded, hmd, any_some, not_eq_true] at hflag
      exact h.signal hs true hmd hflag

theorem Counted.signalUnderload (h : s.Counted) (hs : s.Sound) (m : Addr) :
    (s.signalUnderload m).Counted := by
  unfold ModuleGraph.signalUnderload
  split
  case isTrue hflag =>
    cases hmd : s.modules m with
    | none => exact (congrArg Counted (signal_dead hmd false)).mpr h
    | some =>
      rw [overloaded, hmd, any_some] at hflag
      exact h.signal hs false hmd hflag
  case isFalse => exact h

theorem ncard_setOf_eq_countP {ms : List Addr} (hnodup : ms.Nodup) {p : Addr → Bool}
    {cond : Addr → Prop} (hcond : ∀ x, cond x ↔ x ∈ ms ∧ p x = true) :
    {x | cond x}.ncard = ms.countP p := by
  have hset : {x | cond x} = ((ms.filter p).toFinset : Set Addr) := by
    ext x
    simp [hcond]
  rw [hset, Set.ncard_coe_finset, toFinset_card_of_nodup (hnodup.filter p),
    countP_eq_length_filter]

section Updating

variable (h : s.Counted) (hs : s.Sound) (heap : StdHeap) {tasks modules : List Addr}
  (hpossible : s.Possible (.updateTaskGraph tasks modules)) (hchanges : s.changesMade = true)

include h hs hpossible hchanges

theorem Counted.updated_module {x : Addr} {md' : Module}
    (hmd' : (s.updateTaskGraph heap tasks modules).modules x = some md') :
    ∃ md ps, s.modules x = some md ∧ md' = { md with parentTasks := ps } ∧ ps.Nodup ∧
      ∀ t, t ∈ ps ↔ s.Parent t x := by
  cases hmd : s.modules x with
  | none =>
    have hnone := ((updateTaskGraph_sameGraph s heap tasks modules).modules_none x).mpr hmd
    rw [hnone] at hmd'
    exact (nomatch hmd')
  | some md =>
    obtain ⟨ps, hps, hnodup, hmem⟩ :=
      hs.updateTaskGraph_modules h.plain hchanges heap hpossible.1 modules hmd
    exact ⟨md, ps, rfl, Option.some.inj (hmd'.symm.trans hps), hnodup, hmem⟩

theorem Counted.listedBy_updated (t : Addr) :
    (s.updateTaskGraph heap tasks modules).listedBy t =
      {x | s.overloaded x = true ∧ s.Parent t x}.ncard := by
  have hgraph := updateTaskGraph_sameGraph s heap tasks modules
  have hregistered := hgraph.registered hs.registered
  refine (ncard_setOf_eq_countP hregistered.allModules_nodup fun x => ?_).symm
  rw [lists_eq_true]
  constructor
  · rintro ⟨hoverload, hparent⟩
    obtain ⟨md, hmd, hflag⟩ := (any_eq_true _ _).mp hoverload
    obtain ⟨ps, hps, -, hmem⟩ :=
      hs.updateTaskGraph_modules h.plain hchanges heap hpossible.1 modules hmd
    refine ⟨?_, _, hps, hflag, (hmem t).mpr hparent⟩
    rw [hregistered.allModules, hps]
    simp
  · rintro ⟨-, md', hmd', hoverload, ht⟩
    obtain ⟨md, ps, hmd, rfl, -, hmem⟩ := h.updated_module hs heap hpossible hchanges hmd'
    refine ⟨?_, (hmem t).mp ht⟩
    rw [overloaded, hmd, any_some]
    exact hoverload

theorem Counted.updateTaskGraph_changed
    (hkept : s.CountsKept (.updateTaskGraph tasks modules)) :
    (s.updateTaskGraph heap tasks modules).Counted := by
  refine ⟨fun {x md'} hmd' => ?_, fun x md' hmd' htask => ?_, fun {t md'} hmd' htask => ?_,
    fun _ {x md'} hmd' t => ?_⟩
  · obtain ⟨md, ps, -, rfl, hnodup, -⟩ := h.updated_module hs heap hpossible hchanges hmd'
    exact hnodup
  · obtain ⟨md, ps, hmd, rfl, -, hmem⟩ := h.updated_module hs heap hpossible hchanges hmd'
    rw [eq_nil_iff_forall_not_mem]
    intro t ht
    have hx := ((hmem t).mp ht).2.1
    rw [isTask, hmd, any_some] at hx
    exact Bool.false_ne_true (htask.symm.trans hx)
  · obtain ⟨md, ps, hmd, rfl, -, -⟩ := h.updated_module hs heap hpossible hchanges hmd'
    have ht : s.isTask t = true := by
      rw [isTask, hmd, any_some]
      exact htask
    have hexact := h.exact hmd htask
    rw [h.listedBy_updated hs heap hpossible hchanges, hkept hchanges t ht]
    exact hexact
  · obtain ⟨md, ps, -, rfl, -, hmem⟩ := h.updated_module hs heap hpossible hchanges hmd'
    rw [(updateTaskGraph_sameGraph s heap tasks modules).parent]
    exact hmem t

end Updating

theorem Counted.step (h : s.Counted) (hs : s.Sound) (heap : StdHeap) {op : GraphOp}
    (hpossible : s.Possible op) (hkept : s.CountsKept op) : (s.graphStep heap op).Counted := by
  cases op with
  | createModule m isTask numIGates numOGates =>
    exact Counted.createModule hs hpossible isTask numIGates numOGates h hkept
  | connectModules =>
    simp only [graphStep]
    rcases connectModules_cases hs.consistent hpossible with
      hsame | hsame | ⟨og, ig, -, hconnected⟩
    · rwa [hsame]
    · rw [hsame]
      exact h.sameModules rfl rfl rfl
    · exact h.sameModules hconnected.same.modules hconnected.same.allModules
        hconnected.same.changesMade
  | disconnectModule m k =>
    simp only [graphStep, disconnectModule]
    split
    · exact h
    · have hsame := (hs.changed.consistent.disconnectGate_shrunk m k).1.same
      exact h.sameModules hsame.modules hsame.allModules hsame.changesMade
  | destroyModule => exact h.destroyModule hs hkept
  | updateTaskGraph =>
    cases hchanges : s.changesMade with
    | false =>
      rw [graphStep, updateTaskGraph, hchanges]
      exact h
    | true => exact h.updateTaskGraph_changed hs heap hpossible hchanges hkept
  | signalOverload m => exact h.signalOverload hs m
  | signalUnderload m => exact h.signalUnderload hs m

theorem counted_run (heap : StdHeap) {ops : List GraphOp}
    (hops : eachStep (graphStep heap) (fun s op => s.Possible op ∧ s.CountsKept op) {} ops) :
    (ops.foldl (graphStep heap) {}).Sound ∧ (ops.foldl (graphStep heap) {}).Counted :=
  foldl_invariant_of_eachStep (P := fun s => s.Sound ∧ s.Counted)
    (fun _ _ hop hs => ⟨hs.1.step heap hop.1, hs.2.step hs.1 heap hop.1 hop.2⟩) hops
    ⟨sound_empty, counted_empty⟩

/-- Every task counts the overloaded modules that list it, so the count is not negative,
and a task behind which no task is overloaded is not held. -/
structure BackpressureExact (s : ModuleGraph) : Prop where
  exact : ∀ {t md}, s.modules t = some md → md.isTask = true → md.childrenOverload = s.listedBy t
  nonneg : ∀ {t md}, s.modules t = some md → md.isTask = true → 0 ≤ md.childrenOverload
  unblocked : ∀ {t}, s.isTask t = true → (∀ x, s.Parent t x → s.overloaded x = false) →
    s.heldBlocked t = false

theorem Counted.backpressureExact (h : s.Counted) (hunchanged : s.changesMade = false) :
    s.BackpressureExact where
  exact := h.exact
  nonneg := by
    intro t md hmd htask
    rw [h.exact hmd htask]
    exact Int.natCast_nonneg _
  unblocked := by
    intro t htask hunder
    obtain ⟨md, hmd, hflag⟩ := (any_eq_true _ _).mp htask
    have hnone : s.listedBy t = 0 := by
      refine countP_eq_zero.mpr fun q _ hlists => ?_
      obtain ⟨mdq, hmdq, hoverload, hmem⟩ := lists_eq_true.mp hlists
      have hover := hunder q ((h.current hunchanged hmdq t).mp hmem)
      rw [overloaded, hmdq, any_some] at hover
      exact Bool.false_ne_true (hover.symm.trans hoverload)
    have hcount := h.exact hmd hflag
    rw [hnone] at hcount
    rw [heldBlocked, hmd, any_some, hcount]
    rfl

theorem updateTaskGraph_changesMade (s : ModuleGraph) (heap : StdHeap)
    (tasks modules : List Addr) : (s.updateTaskGraph heap tasks modules).changesMade = false := by
  unfold updateTaskGraph
  split
  case isTrue => rfl
  case isFalse h => exact not_eq_true _ ▸ h

/-- After every sequence of operations that keep the counts, when it ends with an update,
every task counts its overloaded children. -/
theorem backpressure_exact (heap : StdHeap) {ops : List GraphOp} {tasks modules : List Addr}
    (hops : eachStep (graphStep heap) (fun s op => s.Possible op ∧ s.CountsKept op) {}
      (ops ++ [.updateTaskGraph tasks modules])) :
    ((ops ++ [GraphOp.updateTaskGraph tasks modules]).foldl (graphStep heap)
      {}).BackpressureExact := by
  refine (counted_run heap hops).2.backpressureExact ?_
  rw [foldl_append]
  exact updateTaskGraph_changesMade _ heap tasks modules

/-- An update keeps the counts if no overloaded module gains or loses a parent by it. -/
theorem Sound.countsKept_of_sameParents (hs : s.Sound)
    (hsame : ∀ {x md}, s.modules x = some md → md.overload = true →
      ∀ t, t ∈ md.parentTasks ↔ s.Parent t x) (tasks modules : List Addr) :
    s.CountsKept (.updateTaskGraph tasks modules) := by
  intro _ t _
  refine ncard_setOf_eq_countP hs.registered.allModules_nodup fun x => ?_
  rw [lists_eq_true]
  constructor
  · rintro ⟨hoverload, hparent⟩
    obtain ⟨md, hmd, hflag⟩ := (any_eq_true _ _).mp hoverload
    exact ⟨(hs.registered.allModules x).mpr (by simp [hmd]), md, hmd, hflag,
      (hsame hmd hflag t).mpr hparent⟩
  · rintro ⟨-, md, hmd, hflag, ht⟩
    refine ⟨?_, (hsame hmd hflag t).mp ht⟩
    rw [overloaded, hmd, any_some]
    exact hflag

theorem Sound.underloaded (hs : s.Sound) (hnone : ∀ q ∈ s.allModules, s.overloaded q = false)
    {q : Addr} {md : Module} (hmd : s.modules q = some md) : ¬ md.overload = true := by
  have hover := hnone q ((hs.registered.allModules q).mpr (by rw [hmd]; simp))
  rw [overloaded, hmd, any_some] at hover
  exact not_eq_true _ ▸ hover

theorem Sound.lists_of_underloaded (hs : s.Sound)
    (hnone : ∀ q ∈ s.allModules, s.overloaded q = false) (t q : Addr) : s.lists t q = false := by
  rw [← not_eq_true]
  intro hlists
  obtain ⟨md, hmd, hoverload, -⟩ := lists_eq_true.mp hlists
  exact hs.underloaded hnone hmd hoverload

def queueBehind : List GraphOp :=
  [.createModule 1 true 0 1, .createModule 2 true 1 1, .connectModules 1 0 2 0 10 20]

theorem queueBehind_possible : eachStep (graphStep plainHeap) Possible {} queueBehind := by
  simp only [queueBehind, eachStep]
  exact ⟨rfl, rfl, ⟨by decide, by decide, rfl, rfl⟩, trivial⟩

def queueOverloaded : List GraphOp :=
  queueBehind ++ [.updateTaskGraph [1, 2] [1, 2], .signalOverload 2]

theorem backpressure_exact_queueOverloaded :
    ((queueOverloaded ++ [GraphOp.updateTaskGraph [1, 2] [1, 2]]).foldl (graphStep plainHeap)
      {}).BackpressureExact := by
  apply backpressure_exact
  have hfirst : ModuleGraph.Possible {} (.createModule 1 true 0 1) := rfl
  have hone := sound_empty.step plainHeap hfirst
  have hthree := sound_run plainHeap queueBehind_possible
  simp only [queueOverloaded, queueBehind, cons_append, nil_append, eachStep]
  refine ⟨⟨rfl, fun _ => rfl⟩, ⟨rfl, hone.lists_of_underloaded (by decide) 2⟩,
    ⟨⟨by decide, by decide, rfl, rfl⟩, trivial⟩,
    ⟨⟨by decide, by decide⟩, hthree.countsKept_of_sameParents
      (fun hmd hflag => absurd hflag (hthree.underloaded (by decide) hmd)) _ _⟩,
    ⟨trivial, trivial⟩, ⟨⟨by decide, by decide⟩, fun hchanges => absurd hchanges (by decide)⟩,
    trivial⟩

/-- A queue that is overloaded when it is destroyed is counted for ever. -/
theorem count_outlives_queue : ∃ (ops : List GraphOp) (tasks modules : List Addr),
    eachStep (graphStep plainHeap) Possible {} (ops ++ [.updateTaskGraph tasks modules]) ∧
    ¬ ((ops ++ [GraphOp.updateTaskGraph tasks modules]).foldl (graphStep plainHeap)
      {}).BackpressureExact := by
  refine ⟨queueOverloaded ++ [.destroyModule 2], [1], [1], ?_, fun hexact => ?_⟩
  · simp only [queueOverloaded, queueBehind, cons_append, nil_append, eachStep]
    refine ⟨rfl, rfl, ⟨by decide, by decide, rfl, rfl⟩, ⟨by decide, by decide⟩, trivial, trivial,
      ⟨by decide, by decide⟩, trivial⟩
  · have hcount := hexact.exact (t := 1) rfl rfl
    exact absurd hcount (by decide)

end ModuleGraph

end Upf.Bess
