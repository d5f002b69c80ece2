import Upf.Bess.GraphRuns
import Upf.Lib.Search

/-!
# Parent tasks

An update walks from every task through the modules that are not tasks, and leaves its
mark with the tasks it comes to.  Each task ends with the tasks it can be reached from
as its parents, each once.
-/

namespace Upf.Bess

open Lib List Function

def Module.addParent (task : Addr) (md : Module) : Module :=
  { md with parentTasks := md.parentTasks ++ [task] }

namespace ModuleGraph

variable {s s' s₁ : ModuleGraph} {done : List Addr}

def nextModules (s : ModuleGraph) (m : Addr) : List Addr := if s.isTask m then [] else s.children m

def Behind (s : ModuleGraph) (t x : Addr) : Prop :=
  ∃ c ∈ s.children t, Relation.ReflTransGen (fun a b => b ∈ s.nextModules a) c x

def Parent (s : ModuleGraph) (t x : Addr) : Prop :=
  s.isTask t = true ∧ s.isTask x = true ∧ x ≠ t ∧ s.Behind t x

theorem SameGraph.nextModules (h : SameGraph s s') : s'.nextModules = s.nextModules := by
  funext m
  rw [ModuleGraph.nextModules, h.isTask, h.children]
  rfl

theorem SameGraph.parent (h : SameGraph s s') : s'.Parent = s.Parent := by
  funext t x
  rw [Parent, Behind, h.isTask, h.children, h.nextModules]
  rfl

theorem Sound.children_subset (hs : s.Sound) (m : Addr) : s.children m ⊆ s.allModules := by
  intro c hc
  obtain ⟨i, -, hmap⟩ := mem_filterMap.mp hc
  obtain ⟨ig, hig, rfl⟩ := Option.map_eq_some_iff.mp hmap
  rw [hs.registered.allModules]
  intro hnone
  have hdead := (hs.consistent.dead hnone).2 ig.gateIdx
  rw [hs.consistent.igates.place hig] at hdead
  cases hdead

theorem Sound.nextModules_subset (hs : s.Sound) (m : Addr) : s.nextModules m ⊆ s.allModules := by
  unfold nextModules
  split
  · exact nil_subset _
  · exact hs.children_subset m

/-- Between two points of a walk, the task was added to the parents of the tasks visited
in between. -/
structure Walked (s : ModuleGraph) (task : Addr) (w w' : List Addr × ModuleGraph) : Prop where
  grows : w.1 ⊆ w'.1
  added : ∀ x ∈ w'.1, x ∉ w.1 → s.isTask x = true →
    w'.2.modules x = (w.2.modules x).map (Module.addParent task)
  other : ∀ x, (x ∈ w'.1 → x ∉ w.1 → s.isTask x = false) → w'.2.modules x = w.2.modules x
  same : SameGraph w.2 w'.2

section Walks

variable {task : Addr} {w w₁ w' : List Addr × ModuleGraph}

theorem Walked.refl (s : ModuleGraph) (task : Addr) (w : List Addr × ModuleGraph) :
    Walked s task w w where
  grows := fun _ hx => hx
  added := fun _ hx hnew => absurd hx hnew
  other := fun _ _ => rfl
  same := .refl w.2

theorem Walked.trans (h₁ : Walked s task w w₁) (h₂ : Walked s task w₁ w') :
    Walked s task w w' where
  grows := fun _ hx => h₂.grows (h₁.grows hx)
  added := by
    intro x hx hnew htask
    by_cases hx₁ : x ∈ w₁.1
    · rw [h₂.other x fun _ hnew₁ => absurd hx₁ hnew₁, h₁.added x hx₁ hnew htask]
    · rw [h₂.added x hx hx₁ htask, h₁.other x fun hx₁' => absurd hx₁' hx₁]
  other := by
    intro x hx
    have hsecond := h₂.other x fun hx' hnew₁ => hx hx' fun hold => hnew₁ (h₁.grows hold)
    rw [hsecond]
    exact h₁.other x fun hx₁ hnew => hx (h₂.grows hx₁) hnew
  same := h₁.same.trans h₂.same

theorem Walked.pass {m : Addr} (hm : s.isTask m = false) (visited : List Addr) :
    Walked s task (visited, s₁) (m :: visited, s₁) where
  grows := subset_cons_self m visited
  added := by
    intro x hx hnew htask
    rcases mem_cons.mp hx with rfl | hold
    · rw [hm] at htask
      cases htask
    · exact absurd hold hnew
  other := fun _ _ => rfl
  same := .refl s₁

theorem Walked.arrive {m : Addr} (hm : s.isTask m = true) {visited : List Addr}
    (hnew : m ∉ visited) :
    Walked s task (visited, s₁) (m :: visited, s₁.addParentTask m task) where
  grows := subset_cons_self m visited
  added := by
    intro x hx hxnew _
    rcases mem_cons.mp hx with rfl | hold
    · simp only [addParentTask, modifyModule, update_self]
      rfl
    · exact absurd hold hxnew
  other := by
    intro x hx
    have hne : x ≠ m := by
      rintro rfl
      have hfalse := hx mem_cons_self hnew
      rw [hm] at hfalse
      cases hfalse
    simp only [addParentTask, modifyModule, update_of_ne hne]
  same := modifyModule_sameGraph s₁ m fun _ => rfl

theorem visitChildren_walked (s : ModuleGraph) (task : Addr) (fuel : Nat) :
    ∀ (ws : List Addr) (w : List Addr × ModuleGraph), SameGraph s w.2 →
      Walked s task w (ws.foldl (fun w child =>
        if child ∈ w.1 then w else updateParentsAs task fuel child w) w) ∧
      (ws.foldl (fun w child =>
        if child ∈ w.1 then w else updateParentsAs task fuel child w) w).1 =
        visitAll s.nextModules fuel ws w.1 := by
  induction fuel with
  | zero =>
    intro ws
    induction ws with
    | nil => exact fun w _ => ⟨.refl s task w, rfl⟩
    | cons child ws ih =>
      intro w hsame
      rw [foldl_cons, updateParentsAs, ite_self]
      exact ih w hsame
  | succ fuel ih =>
    intro ws
    induction ws with
    | nil => exact fun w _ => ⟨.refl s task w, rfl⟩
    | cons child ws ihws =>
      rintro ⟨visited, s₁⟩ hsame
      rw [foldl_cons, visitAll, foldl_cons]
      by_cases hold : child ∈ visited
      · rw [if_pos hold, if_pos hold]
        exact ihws (visited, s₁) hsame
      · rw [if_neg hold, if_neg hold]
        have hfirst : Walked s task (visited, s₁)
              (updateParentsAs task (fuel + 1) child (visited, s₁)) ∧
            (updateParentsAs task (fuel + 1) child (visited, s₁)).1 =
              visitAll s.nextModules fuel (s.nextModules child) (child :: visited) := by
          rw [updateParentsAs, hsame.isTask, hsame.children]
          cases htask : s.isTask child with
          | true =>
            rw [if_pos rfl, nextModules, if_pos htask, visitAll_nil]
            exact ⟨.arrive htask hold, rfl⟩
          | false =>
            have hloop := ih (s.children child) (child :: visited, s₁) hsame
            rw [if_neg (by simp), nextModules, if_neg (by simp [htask])]
            exact ⟨(Walked.pass htask visited).trans hloop.1, hloop.2⟩
        obtain ⟨hrest, hvisited⟩ := ihws _ (hsame.trans hfirst.1.same)
        refine ⟨hfirst.1.trans hrest, ?_⟩
        rw [hvisited, hfirst.2]
        rfl

end Walks

theorem Sound.updateSingleTaskGraph_modules (hs : s.Sound) (hsame : SameGraph s s₁) {t : Addr}
    (ht : s.isTask t = true) (x : Addr) :
    (s.Parent t x → (s₁.updateSingleTaskGraph t).modules x =
      (s₁.modules x).map (Module.addParent t)) ∧
    (¬ s.Parent t x → (s₁.updateSingleTaskGraph t).modules x = s₁.modules x) := by
  have htmem : t ∈ s.allModules := by
    rw [hs.registered.allModules]
    intro hnone
    rw [isTask, hnone] at ht
    cases ht
  obtain ⟨hwalked, hvisited⟩ :=
    visitChildren_walked s t s.allModules.length (s.children t) ([t], s₁) hsame
  have hexplored : Explored s.nextModules (s.children t) [t]
      (visitAll s.nextModules s.allModules.length (s.children t) [t]) :=
    visitAll_explored (fun m _ => hs.nextModules_subset m) _ _ _ (hs.children_subset t)
      (by simpa using htmem) (by simp) (by omega)
  have hmem := hexplored.mem_iff (by rw [nextModules, if_pos ht])
  rw [updateSingleTaskGraph, hsame.children, hsame.allModules]
  refine ⟨?_, fun hnot => ?_⟩
  · rintro ⟨_, hx, hne, hbehind⟩
    apply hwalked.added x _ (by simpa using hne) hx
    rw [hvisited, hmem]
    exact .inr hbehind
  · apply hwalked.other x
    intro hx hnew
    have hne : x ≠ t := by simpa using hnew
    rw [hvisited, hmem] at hx
    by_contra htask
    exact hnot ⟨ht, by simpa using htask, hne, hx.resolve_left hne⟩

def Listed (s : ModuleGraph) (done : List Addr) (s' : ModuleGraph) : Prop :=
  ∀ x md, s.modules x = some md → ∃ ps, s'.modules x = some { md with parentTasks := ps } ∧
    ps.Nodup ∧ ∀ t, t ∈ ps ↔ t ∈ done ∧ s.Parent t x

theorem foldl_modules {α : Type} {f : ModuleGraph → α → ModuleGraph}
    (hf : ∀ s x, (f s x).modules = s.modules) (xs : List α) :
    ∀ s : ModuleGraph, (xs.foldl f s).modules = s.modules := by
  induction xs with
  | nil => exact fun _ => rfl
  | cons x xs ih => exact fun s => (ih (f s x)).trans (hf s x)

theorem propagateIGatePriority_modules (fuel : Nat) :
    ∀ (i : Addr) (visited : List Addr) (p : Nat) (s : ModuleGraph),
      (propagateIGatePriority fuel i visited p s).modules = s.modules := by
  induction fuel with
  | zero => exact fun _ _ _ _ => rfl
  | succ fuel ih =>
    intro i visited p s
    rw [propagateIGatePriority]
    apply foldl_modules
    intro s next
    split
    · rfl
    · rw [ih]
      rfl

theorem setIGatePriority_modules (s : ModuleGraph) (task : Addr) :
    (s.setIGatePriority task).modules = s.modules := by
  apply foldl_modules
  intro s next
  split
  · rfl
  · rw [propagateIGatePriority_modules]
    rfl

theorem Listed.task (h : s.Listed done s₁) (hs : s.Sound) (hsame : SameGraph s s₁) {t : Addr}
    (ht : s.isTask t = true) (hnew : t ∉ done) :
    s.Listed (t :: done) ((s₁.updateSingleTaskGraph t).setIGatePriority t) := by
  intro x md hmd
  obtain ⟨ps, hps, hnodup, hmem⟩ := h x md hmd
  obtain ⟨hadded, hother⟩ := hs.updateSingleTaskGraph_modules hsame ht x
  rw [setIGatePriority_modules]
  by_cases hparent : s.Parent t x
  · refine ⟨ps ++ [t], ?_, ?_, fun t' => ?_⟩
    · rw [hadded hparent, hps]
      rfl
    · apply hnodup.append (nodup_singleton t)
      simpa using fun hold => hnew ((hmem t).mp hold).1
    · rw [mem_append, hmem, mem_singleton, mem_cons]
      constructor
      · rintro (⟨hdone, hp⟩ | rfl)
        · exact ⟨.inr hdone, hp⟩
        · exact ⟨.inl rfl, hparent⟩
      · rintro ⟨rfl | hdone, hp⟩
        · exact .inr rfl
        · exact .inl ⟨hdone, hp⟩
  · refine ⟨ps, (hother hparent).trans hps, hnodup, fun t' => ?_⟩
    rw [hmem, mem_cons]
    constructor
    · exact fun ⟨hdone, hp⟩ => ⟨.inr hdone, hp⟩
    · rintro ⟨rfl | hdone, hp⟩
      · exact absurd hp hparent
      · exact ⟨hdone, hp⟩

theorem Sound.foldl_listed (hs : s.Sound) (tasks : List Addr) :
    ∀ (done : List Addr) (s₁ : ModuleGraph), s.Listed done s₁ → SameGraph s s₁ →
      (∀ t ∈ tasks, s.isTask t = true) → (tasks.reverse ++ done).Nodup →
      s.Listed (tasks.reverse ++ done) (tasks.foldl
        (fun s task => (s.updateSingleTaskGraph task).setIGatePriority task) s₁) := by
  induction tasks with
  | nil => exact fun done s₁ h _ _ _ => h
  | cons t tasks ih =>
    intro done s₁ h hsame htasks hnodup
    rw [reverse_cons, append_assoc, singleton_append] at hnodup ⊢
    have hnew : t ∉ done := (nodup_cons.mp (nodup_append.mp hnodup).2.1).1
    rw [foldl_cons]
    exact ih (t :: done) _ (h.task hs hsame (htasks t mem_cons_self) hnew)
      (hsame.trans (updateTask_sameGraph s₁ t))
      (fun t' ht' => htasks t' (mem_cons_of_mem _ ht')) hnodup

theorem foldl_modifyModule (f : Module → Module) {ms : List Addr} (hnodup : ms.Nodup) :
    ∀ (s : ModuleGraph) (x : Addr), (ms.foldl (fun s m => s.modifyModule m f) s).modules x =
      if x ∈ ms then (s.modules x).map f else s.modules x := by
  induction ms with
  | nil => exact fun s x => rfl
  | cons m ms ih =>
    intro s x
    obtain ⟨hm, hnodup⟩ := nodup_cons.mp hnodup
    rw [foldl_cons, ih hnodup]
    by_cases hx : x = m
    · subst hx
      simp [hm, modifyModule]
    · simp [hx, modifyModule]

theorem Sound.updateTaskGraph_modules (hs : s.Sound)
    (hplain : ∀ x md, s.modules x = some md → md.isTask = false → md.parentTasks = [])
    (hchanges : s.changesMade = true) (heap : StdHeap) {tasks : List Addr}
    (htasks : tasks.Perm s.tasks) (modules : List Addr) {x : Addr} {md : Module}
    (hmd : s.modules x = some md) :
    ∃ ps, (s.updateTaskGraph heap tasks modules).modules x = some { md with parentTasks := ps } ∧
      ps.Nodup ∧ ∀ t, t ∈ ps ↔ s.Parent t x := by
  have htasksnodup : tasks.Nodup := htasks.nodup_iff.mpr hs.registered.tasks_nodup
  have hclean : s.Listed [] (s.cleanTaskGraph tasks) := by
    intro x md hmd
    refine ⟨[], ?_, nodup_nil, by simp⟩
    refine (foldl_modifyModule (fun md => { md with parentTasks := [] }) htasksnodup s x).trans ?_
    rw [hmd]
    by_cases hx : x ∈ tasks
    · rw [if_pos hx]
      rfl
    · rw [if_neg hx]
      have hnot : md.isTask = false := by
        rw [htasks.mem_iff, hs.registered.tasks, isTask, hmd] at hx
        simpa using hx
      rw [← hplain x md hmd hnot]
  have hnodup : (tasks.reverse ++ []).Nodup := by
    rwa [append_nil, nodup_reverse]
  have hall := hs.foldl_listed tasks [] _ hclean (cleanTaskGraph_sameGraph s tasks)
    (fun t ht => (hs.registered.tasks t).mp (htasks.mem_iff.mp ht)) hnodup
  obtain ⟨ps, hps, hpsnodup, hmem⟩ := hall x md hmd
  refine ⟨ps, ?_, hpsnodup, fun t => ?_⟩
  · rw [updateTaskGraph, if_pos hchanges]
    exact hps
  · rw [hmem, append_nil, mem_reverse, htasks.mem_iff, hs.registered.tasks]
    exact ⟨fun h => h.2, fun h => ⟨h.1, h⟩⟩

end ModuleGraph

end Upf.Bess
