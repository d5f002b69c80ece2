import Upf.Bess.GateRuns
import Upf.Bess.TaskGraph

/-!
# The graph through every sequence of operations

Updates and signals leave the connections alone: they only write priorities, numbers,
parents and counts.  The connections therefore stay joined through every sequence of
operations on the graph, and the lists of modules and of tasks stay those of the
modules there are.
-/

namespace Upf.Bess

open Lib List Option

def OGate.link (og : OGate) : OGate := { og with globalGateIndex := 0 }
def IGate.link (ig : IGate) : IGate := { ig with priority := 0, globalGateIndex := 0 }

@[simp] theorem OGate.link_setUniqueIdx (n : Nat) (og : OGate) :
    (og.setUniqueIdx n).link = og.link := rfl

@[simp] theorem IGate.link_setUniqueIdx (n : Nat) (ig : IGate) :
    (ig.setUniqueIdx n).link = ig.link := rfl

/-- The fields that an update does not write are the same. -/
structure OGate.SameLink (og og' : OGate) : Prop where
  module : og'.module = og.module
  gateIdx : og'.gateIdx = og.gateIdx
  next : og'.next = og.next
  igate : og'.igate = og.igate
  igateIdx : og'.igateIdx = og.igateIdx

structure IGate.SameLink (ig ig' : IGate) : Prop where
  module : ig'.module = ig.module
  gateIdx : ig'.gateIdx = ig.gateIdx
  ogatesUpstream : ig'.ogatesUpstream = ig.ogatesUpstream

theorem OGate.sameLink_of_link {og og' : OGate} (h : og'.link = og.link) : og.SameLink og' := by
  simp only [link, OGate.mk.injEq, and_true] at h
  obtain ⟨h₁, h₂, h₃, h₄, h₅⟩ := h
  exact ⟨h₁, h₂, h₃, h₄, h₅⟩

theorem IGate.sameLink_of_link {ig ig' : IGate} (h : ig'.link = ig.link) : ig.SameLink ig' := by
  simp only [link, IGate.mk.injEq, and_true, true_and] at h
  obtain ⟨h₁, h₂, h₃, -⟩ := h
  exact ⟨h₁, h₂, h₃⟩

namespace ModuleGraph

variable {s s' s₁ s₂ s₃ : ModuleGraph}

/-! ## The same connections -/

structure SameGraph (s s' : ModuleGraph) : Prop where
  igatesOf : s'.igatesOf = s.igatesOf
  ogatesOf : s'.ogatesOf = s.ogatesOf
  ogates : ∀ o, (s'.ogates o).map OGate.link = (s.ogates o).map OGate.link
  igates : ∀ i, (s'.igates i).map IGate.link = (s.igates i).map IGate.link
  modules : ∀ m, (s'.modules m).map Module.isTask = (s.modules m).map Module.isTask
  allModules : s'.allModules = s.allModules
  tasks : s'.tasks = s.tasks

theorem SameGraph.refl (s : ModuleGraph) : SameGraph s s :=
  ⟨rfl, rfl, fun _ => rfl, fun _ => rfl, fun _ => rfl, rfl, rfl⟩

theorem SameGraph.symm (h : SameGraph s s') : SameGraph s' s :=
  ⟨h.igatesOf.symm, h.ogatesOf.symm, fun o => (h.ogates o).symm, fun i => (h.igates i).symm,
    fun m => (h.modules m).symm, h.allModules.symm, h.tasks.symm⟩

theorem SameGraph.trans (h₁ : SameGraph s₁ s₂) (h₂ : SameGraph s₂ s₃) : SameGraph s₁ s₃ :=
  ⟨h₂.igatesOf.trans h₁.igatesOf, h₂.ogatesOf.trans h₁.ogatesOf,
    fun o => (h₂.ogates o).trans (h₁.ogates o), fun i => (h₂.igates i).trans (h₁.igates i),
    fun m => (h₂.modules m).trans (h₁.modules m), h₂.allModules.trans h₁.allModules,
    h₂.tasks.trans h₁.tasks⟩

/-- What every pass of a loop leaves alone, the loop leaves alone. -/
theorem SameGraph.foldl {α : Type} {f : ModuleGraph → α → ModuleGraph} (xs : List α)
    (hf : ∀ s x, SameGraph s (f s x)) : ∀ s, SameGraph s (xs.foldl f s) := by
  induction xs with
  | nil => exact SameGraph.refl
  | cons x xs ih => exact fun s => (hf s x).trans (ih (f s x))

section Reading

variable (h : SameGraph s s')

include h

theorem SameGraph.ogate {o : Addr} {og : OGate} (hog : s.ogates o = some og) :
    ∃ og', s'.ogates o = some og' ∧ og.SameLink og' := by
  have hlink := h.ogates o
  rw [hog, map_some] at hlink
  obtain ⟨og', hog', hsame⟩ := map_eq_some_iff.mp hlink
  exact ⟨og', hog', OGate.sameLink_of_link hsame⟩

theorem SameGraph.igate {i : Addr} {ig : IGate} (hig : s.igates i = some ig) :
    ∃ ig', s'.igates i = some ig' ∧ ig.SameLink ig' := by
  have hlink := h.igates i
  rw [hig, map_some] at hlink
  obtain ⟨ig', hig', hsame⟩ := map_eq_some_iff.mp hlink
  exact ⟨ig', hig', IGate.sameLink_of_link hsame⟩

theorem SameGraph.isTask : s'.isTask = s.isTask := by
  funext m
  have hmodule := h.modules m
  unfold ModuleGraph.isTask
  cases hm : s.modules m <;> cases hm' : s'.modules m <;> simp_all

theorem SameGraph.map_igate (o : Addr) :
    (s'.ogates o).map OGate.igate = (s.ogates o).map OGate.igate := by
  have hlink := congrArg (Option.map OGate.igate) (h.ogates o)
  rw [Option.map_map, Option.map_map] at hlink
  exact hlink

theorem SameGraph.map_module (i : Addr) :
    (s'.igates i).map IGate.module = (s.igates i).map IGate.module := by
  have hlink := congrArg (Option.map IGate.module) (h.igates i)
  rw [Option.map_map, Option.map_map] at hlink
  exact hlink

theorem SameGraph.nextIgates : s'.nextIgates = s.nextIgates := by
  funext m
  simp only [ModuleGraph.nextIgates, h.ogatesOf, h.map_igate]

theorem SameGraph.children : s'.children = s.children := by
  funext m
  simp only [ModuleGraph.children, h.nextIgates, h.map_module]

theorem SameGraph.nextOf : s'.nextOf = s.nextOf := by
  funext i
  have hmodule := h.map_module i
  unfold ModuleGraph.nextOf
  cases hi : s.igates i <;> cases hi' : s'.igates i
  · rfl
  · simp [hi, hi'] at hmodule
  · simp [hi, hi'] at hmodule
  · rw [hi, hi', map_some, map_some, some.injEq] at hmodule
    simp only [hmodule, h.isTask, h.nextIgates]

theorem SameGraph.allIgates : s'.allIgates = s.allIgates := by
  rw [ModuleGraph.allIgates, h.allModules, h.igatesOf]
  rfl

theorem SameGraph.modules_none (m : Addr) : s'.modules m = none ↔ s.modules m = none := by
  have hmodule := h.modules m
  cases hm : s.modules m <;> cases hm' : s'.modules m <;> simp_all

theorem SameGraph.ogateAt : s'.ogateAt = s.ogateAt := by
  funext m k
  rw [ModuleGraph.ogateAt, h.ogatesOf]
  rfl

theorem SameGraph.igateAt : s'.igateAt = s.igateAt := by
  funext m k
  rw [ModuleGraph.igateAt, h.igatesOf]
  rfl

theorem SameGraph.ogatesPlaced (hs : s.OgatesPlaced) : s'.OgatesPlaced := by
  intro x j o
  rw [h.ogateAt, hs x j o]
  constructor
  · rintro ⟨og, hog, rfl, rfl⟩
    obtain ⟨og', hog', hlink⟩ := h.ogate hog
    exact ⟨og', hog', hlink.module, hlink.gateIdx⟩
  · rintro ⟨og', hog', rfl, rfl⟩
    obtain ⟨og, hog, hlink⟩ := h.symm.ogate hog'
    exact ⟨og, hog, hlink.module, hlink.gateIdx⟩

theorem SameGraph.igatesPlaced (hs : s.IgatesPlaced) : s'.IgatesPlaced := by
  intro x j i
  rw [h.igateAt, hs x j i]
  constructor
  · rintro ⟨ig, hig, rfl, rfl⟩
    obtain ⟨ig', hig', hlink⟩ := h.igate hig
    exact ⟨ig', hig', hlink.module, hlink.gateIdx⟩
  · rintro ⟨ig', hig', rfl, rfl⟩
    obtain ⟨ig, hig, hlink⟩ := h.symm.igate hig'
    exact ⟨ig, hig, hlink.module, hlink.gateIdx⟩

theorem SameGraph.consistent (hs : s.Consistent) : s'.Consistent where
  ogates := h.ogatesPlaced hs.ogates
  igates := h.igatesPlaced hs.igates
  target := by
    intro o og' hog'
    obtain ⟨og, hog, hlink⟩ := h.symm.ogate hog'
    obtain ⟨ig, hig, hmem, hnext, hidx⟩ := hs.target hog
    obtain ⟨ig', hig', hlink'⟩ := h.igate hig
    rw [← hlink.igate, ← hlink.next, ← hlink.igateIdx, hnext, hidx]
    exact ⟨ig', hig', hlink'.ogatesUpstream ▸ hmem, hlink'.module.symm, hlink'.gateIdx.symm⟩
  upstream := by
    intro i ig' hig' o ho
    obtain ⟨ig, hig, hlink⟩ := h.symm.igate hig'
    obtain ⟨og, hog, hi⟩ := hs.upstream hig o (hlink.ogatesUpstream ▸ ho)
    obtain ⟨og', hog', hlink'⟩ := h.ogate hog
    exact ⟨og', hog', hlink'.igate.trans hi⟩
  nodup := by
    intro i ig' hig'
    obtain ⟨ig, hig, hlink⟩ := h.symm.igate hig'
    exact hlink.ogatesUpstream ▸ hs.nodup hig
  nonempty := by
    intro i ig' hig'
    obtain ⟨ig, hig, hlink⟩ := h.symm.igate hig'
    exact hlink.ogatesUpstream ▸ hs.nonempty hig
  dead := by
    intro m hm
    rw [h.ogateAt, h.igateAt]
    exact hs.dead ((h.modules_none m).mp hm)

end Reading

/-! ## Updates and signals -/

theorem modifyModule_sameGraph (s : ModuleGraph) (m : Addr) {f : Module → Module}
    (hf : ∀ md, (f md).isTask = md.isTask) : SameGraph s (s.modifyModule m f) := by
  refine ⟨rfl, rfl, fun _ => rfl, fun _ => rfl, fun x => ?_, rfl, rfl⟩
  by_cases hx : x = m
  · subst hx
    cases hx : s.modules x <;> simp [modifyModule, hx, hf]
  · simp [modifyModule, hx]

section Parents

variable (rel : ModuleGraph → ModuleGraph → Prop) (hrefl : ∀ s, rel s s)
  (htrans : ∀ {s₁ s₂ s₃}, rel s₁ s₂ → rel s₂ s₃ → rel s₁ s₃)

include hrefl htrans

theorem visitChildren_rel {f : Addr → List Addr × ModuleGraph → List Addr × ModuleGraph}
    (hf : ∀ m w, rel w.2 (f m w).2) (ms : List Addr) : ∀ w : List Addr × ModuleGraph,
      rel w.2 (ms.foldl (fun w child => if child ∈ w.1 then w else f child w) w).2 := by
  induction ms with
  | nil => exact fun w => hrefl w.2
  | cons child ms ih =>
    intro w
    rw [foldl_cons]
    refine htrans ?_ (ih _)
    split
    · exact hrefl w.2
    · exact hf child w

theorem updateSingleTaskGraph_rel (hadd : ∀ s m task, rel s (addParentTask s m task))
    (s : ModuleGraph) (task : Addr) : rel s (s.updateSingleTaskGraph task) := by
  have hwalk : ∀ fuel m w, rel w.2 (updateParentsAs task fuel m w).2 := by
    intro fuel
    induction fuel with
    | zero => exact fun m w => hrefl w.2
    | succ fuel ih =>
      rintro m ⟨visited, s⟩
      rw [updateParentsAs]
      split
      · exact hadd s m task
      · exact visitChildren_rel rel hrefl htrans ih (s.children m) (m :: visited, s)
  exact visitChildren_rel rel hrefl htrans (hwalk s.allModules.length) (s.children task) ([task], s)

end Parents

theorem updateSingleTaskGraph_sameGraph (s : ModuleGraph) (task : Addr) :
    SameGraph s (s.updateSingleTaskGraph task) := by
  apply updateSingleTaskGraph_rel SameGraph SameGraph.refl SameGraph.trans
  exact fun s m task => modifyModule_sameGraph s m fun _ => rfl

theorem setPriority_sameGraph (s : ModuleGraph) (i : Addr) (p : Nat) :
    SameGraph s (s.setPriority i p) := by
  refine ⟨rfl, rfl, fun _ => rfl, fun x => ?_, fun _ => rfl, rfl, rfl⟩
  by_cases hx : x = i
  · subst hx
    cases hx : s.igates x <;> simp [setPriority, hx, IGate.link]
  · simp [setPriority, hx]

theorem propagateIGatePriority_sameGraph (fuel : Nat) :
    ∀ (i : Addr) (visited : List Addr) (p : Nat) (s : ModuleGraph),
      SameGraph s (propagateIGatePriority fuel i visited p s) := by
  induction fuel with
  | zero => exact fun i visited p s => .refl s
  | succ fuel ih =>
    intro i visited p s
    rw [propagateIGatePriority]
    apply SameGraph.foldl
    intro s next
    split
    · exact .refl s
    · exact (setPriority_sameGraph s next p).trans (ih _ _ _ _)

theorem setIGatePriority_sameGraph (s : ModuleGraph) (task : Addr) :
    SameGraph s (s.setIGatePriority task) := by
  apply SameGraph.foldl
  intro s next
  split
  · exact .refl s
  · exact (setPriority_sameGraph s next 1).trans (propagateIGatePriority_sameGraph _ _ _ _ _)

theorem foldl_number_map {G H : Type} (setUniqueIdx : Nat → G → G) (f : G → H)
    (hf : ∀ n g, f (setUniqueIdx n g) = f g) (as : List Addr) :
    ∀ (w : Table Addr G × Nat) (a : Addr),
      ((as.foldl (number setUniqueIdx) w).1 a).map f = (w.1 a).map f := by
  induction as with
  | nil => exact fun w a => rfl
  | cons x as ih =>
    intro w a
    rw [foldl_cons, ih]
    by_cases ha : a = x
    · subst ha
      cases hw : w.1 a <;> simp [number, hw, hf]
    · simp [number, ha]

theorem setUniqueGateIdx_sameGraph (s : ModuleGraph) (heap : StdHeap) (modules : List Addr) :
    SameGraph s (s.setUniqueGateIdx heap modules) := by
  refine ⟨rfl, rfl, fun o => ?_, fun i => ?_, fun _ => rfl, rfl, rfl⟩
  · exact foldl_number_map OGate.setUniqueIdx OGate.link OGate.link_setUniqueIdx _ _ o
  · exact foldl_number_map IGate.setUniqueIdx IGate.link IGate.link_setUniqueIdx _ _ i

theorem cleanTaskGraph_sameGraph (s : ModuleGraph) (tasks : List Addr) :
    SameGraph s (s.cleanTaskGraph tasks) := by
  apply SameGraph.foldl
  exact fun s m => modifyModule_sameGraph s m fun _ => rfl

theorem updateTask_sameGraph (s : ModuleGraph) (task : Addr) :
    SameGraph s ((s.updateSingleTaskGraph task).setIGatePriority task) :=
  (updateSingleTaskGraph_sameGraph s task).trans (setIGatePriority_sameGraph _ task)

theorem updateTaskGraph_sameGraph (s : ModuleGraph) (heap : StdHeap) (tasks modules : List Addr) :
    SameGraph s (s.updateTaskGraph heap tasks modules) := by
  unfold updateTaskGraph
  split
  · have hwalk := (cleanTaskGraph_sameGraph s tasks).trans (.foldl tasks updateTask_sameGraph _)
    obtain ⟨h₁, h₂, h₃, h₄, h₅, h₆, h₇⟩ :=
      hwalk.trans (setUniqueGateIdx_sameGraph _ heap modules)
    exact ⟨h₁, h₂, h₃, h₄, h₅, h₆, h₇⟩
  · exact .refl s

theorem signalParents_sameGraph (s : ModuleGraph) (m : Addr) (delta : Int) :
    SameGraph s (s.signalParents m delta) := by
  apply SameGraph.foldl
  exact fun s p => modifyModule_sameGraph s p fun _ => rfl

theorem signalOverload_sameGraph (s : ModuleGraph) (m : Addr) :
    SameGraph s (s.signalOverload m) := by
  unfold signalOverload
  split
  · exact .refl s
  · exact (signalParents_sameGraph s m 1).trans (modifyModule_sameGraph _ m fun _ => rfl)

theorem signalUnderload_sameGraph (s : ModuleGraph) (m : Addr) :
    SameGraph s (s.signalUnderload m) := by
  unfold signalUnderload
  split
  · exact (signalParents_sameGraph s m (-1)).trans (modifyModule_sameGraph _ m fun _ => rfl)
  · exact .refl s

structure OnlyModules (s s' : ModuleGraph) : Prop where
  igates : s'.igates = s.igates
  ogates : s'.ogates = s.ogates
  gateCnt : s'.gateCnt = s.gateCnt
  changesMade : s'.changesMade = s.changesMade

theorem signalParents_onlyModules (s : ModuleGraph) (m : Addr) (delta : Int) :
    OnlyModules s (s.signalParents m delta) := by
  have hloop : ∀ (ps : List Addr) (s : ModuleGraph), OnlyModules s (ps.foldl (fun s p =>
      s.modifyModule p fun md => { md with childrenOverload := md.childrenOverload + delta })
      s) := by
    intro ps
    induction ps with
    | nil => exact fun s => ⟨rfl, rfl, rfl, rfl⟩
    | cons p ps ih =>
      intro s
      obtain ⟨h₁, h₂, h₃, h₄⟩ := ih (s.modifyModule p fun md =>
        { md with childrenOverload := md.childrenOverload + delta })
      exact ⟨h₁, h₂, h₃, h₄⟩
  exact hloop _ s

theorem signalOverload_onlyModules (s : ModuleGraph) (m : Addr) :
    OnlyModules s (s.signalOverload m) := by
  unfold signalOverload
  split
  · exact ⟨rfl, rfl, rfl, rfl⟩
  · obtain ⟨h₁, h₂, h₃, h₄⟩ := signalParents_onlyModules s m 1
    exact ⟨h₁, h₂, h₃, h₄⟩

theorem signalUnderload_onlyModules (s : ModuleGraph) (m : Addr) :
    OnlyModules s (s.signalUnderload m) := by
  unfold signalUnderload
  split
  · obtain ⟨h₁, h₂, h₃, h₄⟩ := signalParents_onlyModules s m (-1)
    exact ⟨h₁, h₂, h₃, h₄⟩
  · exact ⟨rfl, rfl, rfl, rfl⟩

/-! ## Registration -/

structure Registered (s : ModuleGraph) : Prop where
  allModules : ∀ m, m ∈ s.allModules ↔ s.modules m ≠ none
  tasks : ∀ m, m ∈ s.tasks ↔ s.isTask m = true
  allModules_nodup : s.allModules.Nodup
  tasks_nodup : s.tasks.Nodup

theorem SameGraph.registered (h : SameGraph s s') (hs : s.Registered) : s'.Registered where
  allModules := by
    intro m
    rw [h.allModules, hs.allModules, Ne, Ne, h.modules_none]
  tasks := by
    intro m
    rw [h.tasks, h.isTask, hs.tasks]
  allModules_nodup := h.allModules ▸ hs.allModules_nodup
  tasks_nodup := h.tasks ▸ hs.tasks_nodup

theorem Registered.congr (hs : s.Registered) (hmodules : s'.modules = s.modules)
    (hall : s'.allModules = s.allModules) (htasks : s'.tasks = s.tasks) : s'.Registered := by
  have htask : s'.isTask = s.isTask := by
    funext m
    rw [ModuleGraph.isTask, hmodules]
    rfl
  refine ⟨fun m => ?_, fun m => ?_, hall ▸ hs.allModules_nodup, htasks ▸ hs.tasks_nodup⟩
  · rw [hall, hmodules, hs.allModules]
  · rw [htasks, htask, hs.tasks]

theorem Registered.sameModules (hs : s.Registered) (h : SameModules s s') : s'.Registered :=
  hs.congr h.modules h.allModules h.tasks

theorem isTask_createModule (s : ModuleGraph) (m : Addr) (isTask : Bool)
    (numIGates numOGates : Nat) (x : Addr) :
    (s.createModule m isTask numIGates numOGates).isTask x =
      if x = m then isTask else s.isTask x := by
  by_cases hx : x = m
  · simp [ModuleGraph.isTask, createModule, hx]
  · simp [ModuleGraph.isTask, createModule, hx]

variable {m : Addr}

theorem Registered.createModule (hs : s.Registered) (hm : s.modules m = none)
    (isTask : Bool) (numIGates numOGates : Nat) :
    (s.createModule m isTask numIGates numOGates).Registered := by
  have hnew : m ∉ s.allModules := fun hmem => (hs.allModules m).mp hmem hm
  have hnewtask : m ∉ s.tasks := by
    rw [hs.tasks, ModuleGraph.isTask, hm]
    simp
  refine ⟨fun x => ?_, fun x => ?_, ?_, ?_⟩
  · by_cases hx : x = m
    · simp [ModuleGraph.createModule, hx]
    · simp [ModuleGraph.createModule, hx, hs.allModules]
  · rw [isTask_createModule]
    by_cases hx : x = m
    · cases isTask <;> simp [ModuleGraph.createModule, hx, hnewtask]
    · cases isTask <;> simp [ModuleGraph.createModule, hx, hs.tasks]
  · exact nodup_cons.mpr ⟨hnew, hs.allModules_nodup⟩
  · cases isTask
    · exact hs.tasks_nodup
    · exact nodup_cons.mpr ⟨hnewtask, hs.tasks_nodup⟩

theorem Registered.destroyModule (hs : s.Registered) (hcons : s.Consistent) (m : Addr) :
    (s.destroyModule m).Registered := by
  obtain ⟨-, hshrunk, -⟩ := hcons.changed.destroy m
  have hmid := (hs.congr rfl rfl rfl : ({ s with changesMade := true } : ModuleGraph).Registered)
    |>.sameModules hshrunk.same
  have htask : ∀ x, (s.destroyModule m).isTask x =
      if x = m then false
      else (({ s with changesMade := true } : ModuleGraph).destroy m).isTask x := by
    intro x
    by_cases hx : x = m
    · simp [ModuleGraph.isTask, ModuleGraph.destroyModule, hx]
    · simp [ModuleGraph.isTask, ModuleGraph.destroyModule, hx]
  refine ⟨fun x => ?_, fun x => ?_, hmid.allModules_nodup.erase m, hmid.tasks_nodup.erase m⟩
  · simp only [ModuleGraph.destroyModule]
    rw [hmid.allModules_nodup.mem_erase_iff, hmid.allModules]
    by_cases hx : x = m
    · simp [hx]
    · simp [hx]
  · rw [htask]
    simp only [ModuleGraph.destroyModule]
    rw [hmid.tasks_nodup.mem_erase_iff, hmid.tasks]
    by_cases hx : x = m
    · simp [hx]
    · simp [hx]

/-! ## Runs -/

structure Sound (s : ModuleGraph) : Prop where
  consistent : s.Consistent
  registered : s.Registered

theorem sound_empty : Sound {} where
  consistent := consistent_empty
  registered := ⟨by simp, by simp [isTask], by simp, by simp⟩

theorem Sound.changed (hs : s.Sound) : ({ s with changesMade := true } : ModuleGraph).Sound where
  consistent := hs.consistent.changed
  registered := hs.registered.congr rfl rfl rfl

theorem SameGraph.sound (h : SameGraph s s') (hs : s.Sound) : s'.Sound :=
  ⟨h.consistent hs.consistent, h.registered hs.registered⟩

theorem connectModules_cases (hs : s.Consistent) {mNext newO newI : Addr} {k j : Nat}
    (hpossible : s.Possible (.connectModules m k mNext j newO newI)) :
    (s.connectModules m k mNext j newO newI).2 = s ∨
      (s.connectModules m k mNext j newO newI).2 = { s with changesMade := true } ∨
      ∃ og ig, Connectable { s with changesMade := true } newO og ig ∧
        Connected { s with changesMade := true } (s.connectModules m k mNext j newO newI).2
          newO og ig := by
  unfold connectModules
  split
  · exact .inl rfl
  · split
    · exact .inl rfl
    · exact .inr (hs.changed.connectGate_cases hpossible)

theorem Sound.connectModules (hs : s.Sound) {mNext newO newI : Addr} {k j : Nat}
    (hpossible : s.Possible (.connectModules m k mNext j newO newI)) :
    (s.connectModules m k mNext j newO newI).2.Sound := by
  rcases connectModules_cases hs.consistent hpossible with
    hsame | hsame | ⟨og, ig, hable, hconnected⟩
  · rwa [hsame]
  · rw [hsame]
    exact hs.changed
  · exact ⟨hs.changed.consistent.connected hable hconnected,
      hs.changed.registered.sameModules hconnected.same⟩

theorem Sound.disconnectModule (hs : s.Sound) (m : Addr) (k : Nat) :
    (s.disconnectModule m k).2.Sound := by
  unfold ModuleGraph.disconnectModule
  split
  · exact hs
  · exact ⟨hs.changed.consistent.disconnectGate m k, hs.changed.registered.sameModules
      (hs.changed.consistent.disconnectGate_shrunk m k).1.same⟩

theorem Sound.step (hs : s.Sound) (heap : StdHeap) {op : GraphOp} (hpossible : s.Possible op) :
    (s.graphStep heap op).Sound := by
  cases op with
  | createModule m isTask numIGates numOGates =>
    exact ⟨hs.consistent.createModule hpossible isTask numIGates numOGates,
      hs.registered.createModule hpossible isTask numIGates numOGates⟩
  | connectModules => exact hs.connectModules hpossible
  | disconnectModule m k => exact hs.disconnectModule m k
  | destroyModule m =>
    exact ⟨hs.consistent.destroyModule m, hs.registered.destroyModule hs.consistent m⟩
  | updateTaskGraph tasks modules =>
    exact (updateTaskGraph_sameGraph s heap tasks modules).sound hs
  | signalOverload m => exact (signalOverload_sameGraph s m).sound hs
  | signalUnderload m => exact (signalUnderload_sameGraph s m).sound hs

theorem sound_run (heap : StdHeap) {ops : List GraphOp}
    (hops : eachStep (graphStep heap) Possible {} ops) :
    (ops.foldl (graphStep heap) {}).Sound :=
  foldl_invariant_of_eachStep (fun _ _ hop hs => hs.step heap hop) hops sound_empty

/-! ## Live gates -/

theorem Consistent.nextIgates_live (hs : s.Consistent) {i : Addr} (hi : i ∈ s.nextIgates m) :
    ∃ ig, s.igates i = some ig := by
  obtain ⟨ogate, -, hogate⟩ := mem_filterMap.mp hi
  obtain ⟨o, rfl, hmap⟩ := bind_eq_some_iff.mp hogate
  obtain ⟨og, hog, rfl⟩ := map_eq_some_iff.mp hmap
  obtain ⟨ig, hig, -⟩ := hs.target hog
  exact ⟨ig, hig⟩

theorem Consistent.nextIgates_dead (hs : s.Consistent) (hm : s.modules m = none) :
    s.nextIgates m = [] := by
  rw [eq_nil_iff_forall_not_mem]
  intro i hi
  obtain ⟨gate, hgate, hsome⟩ := mem_filterMap.mp hi
  obtain ⟨o, rfl, -⟩ := bind_eq_some_iff.mp hsome
  obtain ⟨k, hk, hget⟩ := getElem_of_mem hgate
  have hdead := (hs.dead hm).1 k
  rw [ogateAt, getD_eq_getElem _ _ hk, hget] at hdead
  cases hdead

theorem Consistent.children_dead (hs : s.Consistent) (hm : s.modules m = none) :
    s.children m = [] := by
  rw [children, hs.nextIgates_dead hm]
  rfl

theorem Consistent.nextIgates_createModule (hs : s.Consistent)
    (hm : s.modules m = none) (isTask : Bool) (numIGates numOGates : Nat) :
    (s.createModule m isTask numIGates numOGates).nextIgates = s.nextIgates := by
  funext x
  by_cases hx : x = m
  · rw [hx, hs.nextIgates_dead hm]
    simp [nextIgates, ModuleGraph.createModule]
  · simp [nextIgates, ModuleGraph.createModule, hx]

theorem Consistent.children_createModule (hs : s.Consistent)
    (hm : s.modules m = none) (isTask : Bool) (numIGates numOGates : Nat) :
    (s.createModule m isTask numIGates numOGates).children = s.children := by
  funext x
  rw [children, hs.nextIgates_createModule hm]
  rfl

theorem mem_nextOf {i j : Addr} : j ∈ s.nextOf i ↔
    ∃ ig, s.igates i = some ig ∧ s.isTask ig.module = false ∧ j ∈ s.nextIgates ig.module := by
  unfold nextOf
  cases hi : s.igates i with
  | none => simp
  | some ig =>
    cases ht : s.isTask ig.module
    · simp [ht]
    · simp [ht]

theorem Sound.mem_allIgates (hs : s.Sound) {i : Addr} {ig : IGate} (hig : s.igates i = some ig) :
    i ∈ s.allIgates := by
  have hplace := hs.consistent.igates.place hig
  have hmodule : ig.module ∈ s.allModules := by
    rw [hs.registered.allModules]
    intro hnone
    have hdead := (hs.consistent.dead hnone).2 ig.gateIdx
    rw [hplace] at hdead
    cases hdead
  refine mem_flatMap.mpr ⟨ig.module, hmodule, mem_filterMap.mpr ⟨some i, ?_, rfl⟩⟩
  rw [igateAt, getD_eq_getElem?_getD] at hplace
  cases hget : (s.igatesOf ig.module)[ig.gateIdx]? with
  | none =>
    rw [hget] at hplace
    cases hplace
  | some =>
    rw [hget, getD_some] at hplace
    exact hplace ▸ mem_of_getElem? hget

end ModuleGraph

end Upf.Bess
