import Upf.Bess.GraphRuns
import Upf.Lib.LongestPath

/-!
# Priorities of input gates

An update ranks the input gates behind every task module by the longest way to them.
The priorities of an earlier update stay on the gates and are taken for ways that were
walked already, so the ranks are right just when those left-over priorities are due
on the graph as it is now.

The numbers of the gates are always their own.

Main result: `topologicallyOrdered_iff`.
-/

namespace Upf.Bess

open Lib List Option Function

namespace ModuleGraph

variable {s s' s₁ : ModuleGraph}

/-! ## Priorities as ranks -/

theorem priority_setPriority {i : Addr} {ig : IGate} (hig : s.igates i = some ig) (p : Nat) :
    (s.setPriority i p).priority = Function.update s.priority i p := by
  funext x
  by_cases hx : x = i
  · simp [priority, setPriority, hx, hig]
  · simp [priority, setPriority, hx]

theorem foldl_raise_priority (path : List Addr) (p : Nat)
    {f : Addr → ModuleGraph → ModuleGraph} {g : Addr → (Addr → Nat) → Addr → Nat}
    (hsame : ∀ i s₁, SameGraph s s₁ → SameGraph s (f i s₁))
    (hf : ∀ i s₁, SameGraph s s₁ → (f i s₁).priority = g i s₁.priority) (is : List Addr)
    (hlive : ∀ i ∈ is, ∃ ig, s.igates i = some ig) : ∀ s₁, SameGraph s s₁ →
      (is.foldl (fun s i => if i ∈ path ∨ s.priority i ≥ p then s
        else f i (s.setPriority i p)) s₁).priority =
      is.foldl (fun rank i => if i ∈ path ∨ p ≤ rank i then rank
        else g i (Function.update rank i p)) s₁.priority := by
  induction is with
  | nil => exact fun s₁ _ => rfl
  | cons i is ih =>
    intro s₁ hsame₁
    rw [foldl_cons, foldl_cons]
    have hrest := ih fun j hj => hlive j (mem_cons_of_mem _ hj)
    by_cases hskip : i ∈ path ∨ p ≤ s₁.priority i
    · rw [if_pos hskip, if_pos hskip]
      exact hrest s₁ hsame₁
    · rw [if_neg hskip, if_neg hskip]
      obtain ⟨ig, hig⟩ := hlive i mem_cons_self
      obtain ⟨ig₁, hig₁, -⟩ := hsame₁.igate hig
      have hset := hsame₁.trans (setPriority_sameGraph s₁ i p)
      rw [← priority_setPriority hig₁, ← hf i _ hset]
      exact hrest _ (hsame i _ hset)

theorem nextOf_live (hs : s.Consistent) {i j : Addr} (hj : j ∈ s.nextOf i) :
    ∃ ig, s.igates j = some ig := by
  obtain ⟨ig, -, -, hnext⟩ := mem_nextOf.mp hj
  exact hs.nextIgates_live hnext

theorem propagateIGatePriority_priority (hs : s.Consistent) (fuel : Nat) :
    ∀ (i : Addr) (path : List Addr) (p : Nat) (s₁ : ModuleGraph), SameGraph s s₁ →
      (propagateIGatePriority fuel i path p s₁).priority =
        raise s.nextOf fuel path p (s.nextOf i) s₁.priority := by
  induction fuel with
  | zero => exact fun i path p s₁ _ => rfl
  | succ fuel ih =>
    intro i path p s₁ hsame
    rw [propagateIGatePriority, raise, hsame.nextOf]
    exact foldl_raise_priority path p
      (f := fun j s => propagateIGatePriority fuel j (j :: path) (p + 1) s)
      (fun j s₁ h => h.trans (propagateIGatePriority_sameGraph _ _ _ _ _))
      (fun j s₁ h => ih j (j :: path) (p + 1) s₁ h) (s.nextOf i)
      (fun j hj => nextOf_live hs hj) s₁ hsame

theorem setIGatePriority_priority (hs : s.Consistent) (hsame : SameGraph s s₁) (task : Addr) :
    (s₁.setIGatePriority task).priority =
      raise s.nextOf (s.allIgates.length + 1) [] 1 (s.nextIgates task) s₁.priority := by
  have hloop := foldl_raise_priority [] 1
    (f := fun j s₂ => propagateIGatePriority s.allIgates.length j [j] 2 s₂)
    (fun j s₁ h => h.trans (propagateIGatePriority_sameGraph _ _ _ _ _))
    (fun j s₁ h => propagateIGatePriority_priority hs _ j [j] 2 s₁ h) (s.nextIgates task)
    (fun j hj => hs.nextIgates_live hj) s₁ hsame
  rw [raise, ← hloop, setIGatePriority, hsame.nextIgates, hsame.allIgates]
  simp only [not_mem_nil, false_or]

/-! ## The walks of an update -/

def NoCycleAvoidsTasks (s : ModuleGraph) : Prop :=
  ∀ m, ¬ Relation.TransGen (fun a b => s.isTask a = false ∧ b ∈ s.children a) m m

theorem NoCycleAvoidsTasks.acyclic (h : s.NoCycleAvoidsTasks) (hs : s.Consistent) :
    Acyclic s.nextOf := by
  intro i hcycle
  apply h (((s.igates i).map IGate.module).getD 0)
  apply Relation.TransGen.lift (fun i => ((s.igates i).map IGate.module).getD 0) ?_ i i hcycle
  intro a b hedge
  obtain ⟨ig, hig, htask, hb⟩ := mem_nextOf.mp hedge
  obtain ⟨ig', hig'⟩ := hs.nextIgates_live hb
  have hmodules : s.isTask ig.module = false ∧ ig'.module ∈ s.children ig.module :=
    ⟨htask, mem_filterMap.mpr ⟨b, hb, by rw [hig', map_some]⟩⟩
  rw [Function.onFun, hig, hig']
  exact hmodules

theorem Sound.updateTask_swept (hs : s.Sound) (hacyclic : Acyclic s.nextOf)
    (hsame : SameGraph s s₁) (task : Addr) :
    Swept s.nextOf 1 (s.nextIgates task) s₁.priority
      ((s₁.updateSingleTaskGraph task).setIGatePriority task).priority := by
  have hparents : (s₁.updateSingleTaskGraph task).priority = s₁.priority := by
    apply updateSingleTaskGraph_rel fun s s' => s'.priority = s.priority
    · exact fun _ => rfl
    · exact fun h₁ h₂ => h₂.trans h₁
    · exact fun _ _ _ => rfl
  rw [setIGatePriority_priority hs.consistent
    (hsame.trans (updateSingleTaskGraph_sameGraph s₁ task)), hparents]
  have hlive : ∀ i, (∃ ig, s.igates i = some ig) → i ∈ s.allIgates :=
    fun i ⟨ig, hig⟩ => hs.mem_allIgates hig
  apply raise_swept s.allIgates hacyclic
  · exact fun u v _ hv => hlive v (nextOf_live hs.consistent hv)
  · exact fun v _ => .singleton v
  · intro v hv
    exact cons_subset.mpr
      ⟨hlive v (hs.consistent.nextIgates_live hv), nil_subset _⟩
  · omega

theorem Sound.foldl_swept (hs : s.Sound) (hacyclic : Acyclic s.nextOf) (tasks : List Addr) :
    ∀ s₁, SameGraph s s₁ → Swept s.nextOf 1 (tasks.flatMap s.nextIgates) s₁.priority
      (tasks.foldl (fun s task => (s.updateSingleTaskGraph task).setIGatePriority task)
        s₁).priority := by
  induction tasks with
  | nil => exact fun s₁ _ => .of_le (by simp)
  | cons task tasks ih =>
    intro s₁ hsame
    rw [flatMap_cons, foldl_cons]
    exact (hs.updateTask_swept hacyclic hsame task).append
      (ih _ (hsame.trans (updateTask_sameGraph s₁ task)))

theorem cleanTaskGraph_igates (s : ModuleGraph) (tasks : List Addr) :
    (s.cleanTaskGraph tasks).igates = s.igates := by
  induction tasks generalizing s with
  | nil => rfl
  | cons task tasks ih => exact (ih (s.clearParentTasks task)).trans rfl

theorem setUniqueGateIdx_priority (s : ModuleGraph) (heap : StdHeap) (modules : List Addr) :
    (s.setUniqueGateIdx heap modules).priority = s.priority := by
  funext i
  have hmap := foldl_number_map IGate.setUniqueIdx IGate.priority
    (fun _ _ => rfl) (s.igatesInOrder heap modules) (s.igates, 0) i
  rw [priority, priority, ← hmap]
  rfl

theorem Sound.updateTaskGraph_swept (hs : s.Sound) (hacyclic : Acyclic s.nextOf)
    (hchanges : s.changesMade = true) (heap : StdHeap) (tasks modules : List Addr) :
    Swept s.nextOf 1 (tasks.flatMap s.nextIgates) s.priority
      (s.updateTaskGraph heap tasks modules).priority := by
  have hclean : (s.cleanTaskGraph tasks).priority = s.priority := by
    unfold priority
    rw [cleanTaskGraph_igates]
  have hnumbered : (s.updateTaskGraph heap tasks modules).priority =
      (tasks.foldl (fun s task => (s.updateSingleTaskGraph task).setIGatePriority task)
        (s.cleanTaskGraph tasks)).priority := by
    rw [updateTaskGraph, if_pos hchanges]
    exact setUniqueGateIdx_priority _ heap modules
  rw [hnumbered, ← hclean]
  exact hs.foldl_swept hacyclic tasks _ (cleanTaskGraph_sameGraph s tasks)

/-! ## Numbers -/

def gateIndex (s : ModuleGraph) : Addr ⊕ Addr → Option Nat
  | .inl i => (s.igates i).map IGate.globalGateIndex
  | .inr o => (s.ogates o).map OGate.globalGateIndex

/-- The gates have numbers below the count of gates, each its own. -/
structure Indexed (s : ModuleGraph) : Prop where
  lt : ∀ {g n}, s.gateIndex g = some n → n < s.gateCnt
  unique : ∀ {g g' n}, s.gateIndex g = some n → s.gateIndex g' = some n → g = g'

/-- Gates that are numbered in order get consecutive numbers. -/
theorem foldl_number {G : Type} (setUniqueIdx : Nat → G → G) {as : List Addr}
    (hnodup : as.Nodup) :
    ∀ w : Table Addr G × Nat, (as.foldl (number setUniqueIdx) w).2 = w.2 + as.length ∧
      ∀ a ∈ as, (as.foldl (number setUniqueIdx) w).1 a =
        (w.1 a).map (setUniqueIdx (w.2 + as.idxOf a)) := by
  have hother : ∀ (as : List Addr) (w : Table Addr G × Nat), ∀ a ∉ as,
      (as.foldl (number setUniqueIdx) w).1 a = w.1 a := by
    intro as
    induction as with
    | nil => exact fun w a _ => rfl
    | cons x as ih =>
      intro w a ha
      rw [mem_cons, not_or] at ha
      rw [foldl_cons, ih _ a ha.2]
      exact update_of_ne ha.1 _ _
  induction as with
  | nil => exact fun w => ⟨rfl, by simp⟩
  | cons x as ih =>
    intro w
    obtain ⟨hx, hnodup⟩ := nodup_cons.mp hnodup
    obtain ⟨hcount, hindex⟩ := ih hnodup (number setUniqueIdx w x)
    rw [foldl_cons]
    refine ⟨?_, fun a ha => ?_⟩
    · rw [hcount, length_cons]
      simp only [number]
      omega
    · rcases mem_cons.mp ha with rfl | ha
      · rw [hother as _ a hx, idxOf_cons_self]
        simp [number]
      · have hne : a ≠ x := fun heq => hx (heq ▸ ha)
        rw [hindex a ha, idxOf_cons_ne _ (Ne.symm hne)]
        simp only [number, update_of_ne hne]
        congr 2
        omega

theorem foldl_push (is : List Addr) : ∀ pushed : List Addr, pushed.Nodup →
    (is.foldl (fun pushed i => if i ∈ pushed then pushed else pushed ++ [i]) pushed).Nodup ∧
    ∀ i, i ∈ is.foldl (fun pushed i => if i ∈ pushed then pushed else pushed ++ [i]) pushed ↔
      i ∈ pushed ∨ i ∈ is := by
  induction is with
  | nil => exact fun pushed hnodup => ⟨hnodup, by simp⟩
  | cons x is ih =>
    intro pushed hnodup
    rw [foldl_cons]
    by_cases hx : x ∈ pushed
    · rw [if_pos hx]
      refine ⟨(ih pushed hnodup).1, fun i => ?_⟩
      rw [(ih pushed hnodup).2, mem_cons]
      constructor
      · tauto
      · rintro (h | rfl | h)
        · exact .inl h
        · exact .inl hx
        · exact .inr h
    · rw [if_neg hx]
      have hnodup' : (pushed ++ [x]).Nodup :=
        hnodup.append (nodup_singleton x) (by simpa using hx)
      refine ⟨(ih _ hnodup').1, fun i => ?_⟩
      rw [(ih _ hnodup').2, mem_append, mem_singleton, mem_cons]
      tauto

theorem mem_pushedOgates {modules : List Addr} {o : Addr} :
    o ∈ s.pushedOgates modules ↔ ∃ m ∈ modules, ∃ k, s.ogateAt m k = some o := by
  rw [pushedOgates, mem_flatMap]
  refine exists_congr fun m => and_congr_right fun _ => ?_
  rw [mem_filterMap]
  constructor
  · rintro ⟨gate, hgate, rfl⟩
    obtain ⟨k, hk, hget⟩ := getElem_of_mem hgate
    exact ⟨k, by rw [ogateAt, getD_eq_getElem _ _ hk, hget]⟩
  · rintro ⟨k, hk⟩
    rw [ogateAt, getD_eq_getElem?_getD, getD_eq_iff] at hk
    exact ⟨some o, mem_of_getElem? (hk.resolve_right (by simp)), rfl⟩

section Pushed

variable (hs : s.Sound) {modules : List Addr} (hmodules : modules.Perm s.allModules)

include hs hmodules

/-- The modules are gone through once, and every gate sits at one place. -/
theorem Sound.pushedOgates_nodup : (s.pushedOgates modules).Nodup := by
  have hplaces : ∀ m m' j k o, s.ogateAt m j = some o → s.ogateAt m' k = some o →
      m = m' ∧ j = k := by
    intro m m' j k o hj hk
    obtain ⟨og, hog, rfl, rfl⟩ := (hs.consistent.ogates m j o).mp hj
    obtain ⟨og', hog', rfl, rfl⟩ := (hs.consistent.ogates m' k o).mp hk
    cases hog.symm.trans hog'
    exact ⟨rfl, rfl⟩
  have hnodup : modules.Nodup := hmodules.nodup_iff.mpr hs.registered.allModules_nodup
  rw [pushedOgates, nodup_flatMap]
  refine ⟨fun m _ => ?_, hnodup.imp fun {m m'} hne => ?_⟩
  · apply List.Pairwise.filterMap (R := fun a b => ∀ o, a = some o → b ≠ some o)
    · intro a b hab x hx y hy heq
      exact hab x hx (heq ▸ hy)
    · rw [pairwise_iff_getElem]
      intro j k hj hk hlt o hget hget'
      have hsame := hplaces m m j k o (by rw [ogateAt, getD_eq_getElem _ _ hj, hget])
        (by rw [ogateAt, getD_eq_getElem _ _ hk, hget'])
      omega
  · rw [Function.onFun, disjoint_left]
    intro o ho ho'
    have hsingle : ∀ x, o ∈ (s.ogatesOf x).filterMap id → o ∈ s.pushedOgates [x] :=
      fun x hx => mem_flatMap.mpr ⟨x, mem_singleton.mpr rfl, hx⟩
    obtain ⟨x, hx, j, hj⟩ := mem_pushedOgates.mp (hsingle m ho)
    obtain ⟨x', hx', k, hk⟩ := mem_pushedOgates.mp (hsingle m' ho')
    rw [mem_singleton] at hx hx'
    subst hx hx'
    exact hne (hplaces _ _ j k o hj hk).1

theorem Sound.mem_pushedOgates_of_live {o : Addr} {og : OGate} (hog : s.ogates o = some og) :
    o ∈ s.pushedOgates modules := by
  have hplace := hs.consistent.ogates.place hog
  refine mem_pushedOgates.mpr ⟨og.module, ?_, og.gateIdx, hplace⟩
  rw [hmodules.mem_iff, hs.registered.allModules]
  intro hnone
  have hdead := (hs.consistent.dead hnone).1 og.gateIdx
  rw [hplace] at hdead
  cases hdead

theorem Sound.mem_pushedIgates_of_live {i : Addr} {ig : IGate} (hig : s.igates i = some ig) :
    i ∈ s.pushedIgates modules := by
  obtain ⟨o, ho⟩ := exists_mem_of_ne_nil _ (hs.consistent.nonempty hig)
  obtain ⟨og, hog, rfl⟩ := hs.consistent.upstream hig o ho
  rw [pushedIgates, (foldl_push _ [] nodup_nil).2]
  right
  exact mem_filterMap.mpr
    ⟨o, hs.mem_pushedOgates_of_live hmodules hog, by rw [hog, map_some]⟩

omit hs hmodules in
theorem pushedIgates_nodup : (s.pushedIgates modules).Nodup :=
  (foldl_push _ [] nodup_nil).1

omit hs hmodules in
theorem igatesInOrder_perm (heap : StdHeap) :
    (s.igatesInOrder heap modules).Perm (s.pushedIgates modules) :=
  (drain_perm heap _ _ _ (fill_perm heap _ _).length_eq.le).trans (fill_perm heap _ _)

omit hs hmodules in
theorem ogatesInOrder_perm (heap : StdHeap) :
    (s.ogatesInOrder heap modules).Perm (s.pushedOgates modules) :=
  (drain_perm heap _ _ _ (fill_perm heap _ _).length_eq.le).trans (fill_perm heap _ _)

theorem Sound.setUniqueGateIdx_gates (heap : StdHeap) :
    (s.setUniqueGateIdx heap modules).gateCnt =
      (s.igatesInOrder heap modules).length + (s.ogatesInOrder heap modules).length ∧
    (∀ i ∈ s.igatesInOrder heap modules, (s.setUniqueGateIdx heap modules).igates i =
      (s.igates i).map (IGate.setUniqueIdx ((s.igatesInOrder heap modules).idxOf i))) ∧
    ∀ o ∈ s.ogatesInOrder heap modules, (s.setUniqueGateIdx heap modules).ogates o =
      (s.ogates o).map (OGate.setUniqueIdx ((s.igatesInOrder heap modules).length +
        (s.ogatesInOrder heap modules).idxOf o)) := by
  obtain ⟨hcount, higates⟩ := foldl_number IGate.setUniqueIdx
    ((igatesInOrder_perm (s := s) heap).nodup_iff.mpr pushedIgates_nodup) (s.igates, 0)
  obtain ⟨hcount', hogates⟩ := foldl_number OGate.setUniqueIdx
    ((ogatesInOrder_perm heap).nodup_iff.mpr (hs.pushedOgates_nodup hmodules))
    (s.ogates, ((s.igatesInOrder heap modules).foldl (number IGate.setUniqueIdx) (s.igates, 0)).2)
  simp only [Nat.zero_add] at hcount higates
  refine ⟨hcount'.trans ?_, higates, fun o ho => (hogates o ho).trans ?_⟩
  · rw [hcount]
  · rw [hcount]

theorem Sound.gateIndex_setUniqueGateIdx (heap : StdHeap) :
    (∀ i n, (s.setUniqueGateIdx heap modules).gateIndex (.inl i) = some n →
      i ∈ s.igatesInOrder heap modules ∧ n = (s.igatesInOrder heap modules).idxOf i) ∧
    ∀ o n, (s.setUniqueGateIdx heap modules).gateIndex (.inr o) = some n →
      o ∈ s.ogatesInOrder heap modules ∧
      n = (s.igatesInOrder heap modules).length + (s.ogatesInOrder heap modules).idxOf o := by
  have hgraph := (setUniqueGateIdx_sameGraph s heap modules).symm
  obtain ⟨-, higates, hogates⟩ := hs.setUniqueGateIdx_gates hmodules heap
  refine ⟨fun i n hn => ?_, fun o n hn => ?_⟩
  · obtain ⟨ig', hig', rfl⟩ := map_eq_some_iff.mp hn
    obtain ⟨ig, hig, -⟩ := hgraph.igate hig'
    have hmem := (igatesInOrder_perm heap).mem_iff.mpr (hs.mem_pushedIgates_of_live hmodules hig)
    rw [higates i hmem, hig] at hig'
    cases hig'
    exact ⟨hmem, rfl⟩
  · obtain ⟨og', hog', rfl⟩ := map_eq_some_iff.mp hn
    obtain ⟨og, hog, -⟩ := hgraph.ogate hog'
    have hmem := (ogatesInOrder_perm heap).mem_iff.mpr (hs.mem_pushedOgates_of_live hmodules hog)
    rw [hogates o hmem, hog] at hog'
    cases hog'
    exact ⟨hmem, rfl⟩

theorem Sound.setUniqueGateIdx_indexed (heap : StdHeap) :
    (s.setUniqueGateIdx heap modules).Indexed := by
  have hcount := (hs.setUniqueGateIdx_gates hmodules heap).1
  obtain ⟨higates, hogates⟩ := hs.gateIndex_setUniqueGateIdx hmodules heap
  refine ⟨fun {g n} hn => ?_, fun {g g' n} hn hn' => ?_⟩
  · rw [hcount]
    cases g with
    | inl i =>
      obtain ⟨hmem, rfl⟩ := higates i n hn
      have := idxOf_lt_length_iff.mpr hmem
      omega
    | inr o =>
      obtain ⟨hmem, rfl⟩ := hogates o n hn
      have := idxOf_lt_length_iff.mpr hmem
      omega
  · cases g with
    | inl i =>
      obtain ⟨hmem, rfl⟩ := higates i n hn
      have hlt := idxOf_lt_length_iff.mpr hmem
      cases g' with
      | inl i' =>
        obtain ⟨-, heq⟩ := higates i' _ hn'
        rw [(idxOf_inj hmem).mp heq]
      | inr o' =>
        obtain ⟨-, heq⟩ := hogates o' _ hn'
        omega
    | inr o =>
      obtain ⟨hmem, rfl⟩ := hogates o n hn
      cases g' with
      | inl i' =>
        obtain ⟨hmem', heq⟩ := higates i' _ hn'
        have hlt := idxOf_lt_length_iff.mpr hmem'
        omega
      | inr o' =>
        obtain ⟨-, heq⟩ := hogates o' _ hn'
        rw [(idxOf_inj hmem).mp (Nat.add_left_cancel heq)]

end Pushed
variable {modules tasks : List Addr}

theorem Sound.updateTaskGraph_indexed (hs : s.Sound)
    (hmodules : modules.Perm s.allModules) (hchanges : s.changesMade = true) (heap : StdHeap)
    (tasks : List Addr) : (s.updateTaskGraph heap tasks modules).Indexed := by
  have hwalk : SameGraph s (tasks.foldl
      (fun s task => (s.updateSingleTaskGraph task).setIGatePriority task)
      (s.cleanTaskGraph tasks)) :=
    (cleanTaskGraph_sameGraph s tasks).trans (.foldl tasks updateTask_sameGraph _)
  obtain ⟨hlt, hunique⟩ :=
    (hwalk.sound hs).setUniqueGateIdx_indexed (hwalk.allModules ▸ hmodules) heap
  rw [updateTaskGraph, if_pos hchanges]
  exact ⟨hlt, hunique⟩

/-! ## Longest ways -/

def FirstIgate (s : ModuleGraph) (i : Addr) : Prop := ∃ t, s.isTask t = true ∧ i ∈ s.nextIgates t

/-- The lengths of the ways to an input gate from a task, through modules that are not
tasks. -/
def pathLengths (s : ModuleGraph) (i : Addr) : Set Nat := lengths s.FirstIgate s.nextOf i

/-- The priority of every input gate that a task reaches is the length of the longest
way to it, priorities grow along the ways, and the numbers of all gates are their own. -/
structure TopologicallyOrdered (s : ModuleGraph) : Prop where
  longest : ∀ i, (s.pathLengths i).Nonempty → IsGreatest (s.pathLengths i) (s.priority i)
  edges : ∀ i j, (s.pathLengths i).Nonempty → j ∈ s.nextOf i → s.priority i < s.priority j
  indexed : s.Indexed

/-- No priority is beyond the longest way to its gate, and one that falls short belongs to
a gate right behind a task, or right behind a gate on a longest way whose priority falls
short as well. -/
def PrioritiesDue (s : ModuleGraph) : Prop := Due s.FirstIgate s.nextOf s.priority

theorem SameGraph.firstIgate (h : SameGraph s s') : s'.FirstIgate = s.FirstIgate := by
  funext i
  rw [FirstIgate, h.isTask, h.nextIgates]
  rfl

theorem SameGraph.pathLengths (h : SameGraph s s') : s'.pathLengths = s.pathLengths := by
  funext i
  rw [ModuleGraph.pathLengths, h.firstIgate, h.nextOf]
  rfl

theorem SameGraph.noCycleAvoidsTasks (h : SameGraph s s') :
    s'.NoCycleAvoidsTasks ↔ s.NoCycleAvoidsTasks := by
  rw [NoCycleAvoidsTasks, h.isTask, h.children]
  rfl

theorem Sound.closed (hs : s.Sound) : Closed s.FirstIgate s.nextOf s.allIgates where
  start := by
    rintro i ⟨t, -, hi⟩
    obtain ⟨ig, hig⟩ := hs.consistent.nextIgates_live hi
    exact hs.mem_allIgates hig
  next := by
    intro i j _ hj
    obtain ⟨ig, hig⟩ := nextOf_live hs.consistent hj
    exact hs.mem_allIgates hig

theorem Sound.mem_starts (hs : s.Sound) (htasks : tasks.Perm s.tasks)
    (i : Addr) : i ∈ tasks.flatMap s.nextIgates ↔ s.FirstIgate i := by
  simp only [mem_flatMap, htasks.mem_iff, hs.registered.tasks]
  rfl

/-! ## Between updates -/

/-- What holds as long as nothing has changed since the last update. -/
structure Current (s : ModuleGraph) : Prop where
  first : s.NoCycleAvoidsTasks → ∀ i, s.FirstIgate i → 1 ≤ s.priority i
  indexed : s.Indexed

theorem Current.createModule (hcurrent : s.Current) (hs : s.Consistent) {m : Addr}
    (hm : s.modules m = none) (isTask : Bool) (numIGates numOGates : Nat) :
    (s.createModule m isTask numIGates numOGates).Current := by
  refine ⟨fun hcycles => ?_, ⟨hcurrent.indexed.lt, hcurrent.indexed.unique⟩⟩
  have hcycles' : s.NoCycleAvoidsTasks := by
    intro a hcycle
    refine hcycles a (Relation.TransGen.mono ?_ a a hcycle)
    rintro b c ⟨htask, hc⟩
    have hb : b ≠ m := by
      rintro rfl
      rw [hs.children_dead hm] at hc
      cases hc
    rw [isTask_createModule, if_neg hb, hs.children_createModule hm]
    exact ⟨htask, hc⟩
  rintro i ⟨t, htask, hi⟩
  rw [hs.nextIgates_createModule hm] at hi
  have ht : t ≠ m := by
    rintro rfl
    rw [hs.nextIgates_dead hm] at hi
    cases hi
  rw [isTask_createModule, if_neg ht] at htask
  exact hcurrent.first hcycles' i ⟨t, htask, hi⟩

theorem Current.updateTaskGraph (hs : s.Sound) (heap : StdHeap)
    (hpossible : s.Possible (.updateTaskGraph tasks modules))
    (hcurrent : s.changesMade = false → s.Current) :
    (s.updateTaskGraph heap tasks modules).Current := by
  cases hchanges : s.changesMade with
  | false =>
    rw [ModuleGraph.updateTaskGraph, hchanges]
    exact hcurrent hchanges
  | true =>
    have hgraph := updateTaskGraph_sameGraph s heap tasks modules
    refine ⟨fun hcycles i hi => ?_,
      hs.updateTaskGraph_indexed hpossible.2 hchanges heap tasks⟩
    rw [hgraph.noCycleAvoidsTasks] at hcycles
    rw [hgraph.firstIgate] at hi
    exact (hs.updateTaskGraph_swept (hcycles.acyclic hs.consistent) hchanges heap tasks
      modules).first i ((hs.mem_starts hpossible.1 i).mpr hi)

theorem Current.onlyModules (hcurrent : s.Current) (hgraph : SameGraph s s')
    (h : OnlyModules s s') : s'.Current where
  first := by
    have hpriority : s'.priority = s.priority := by
      unfold priority
      rw [h.igates]
    rw [hgraph.noCycleAvoidsTasks, hgraph.firstIgate, hpriority]
    exact hcurrent.first
  indexed := by
    have hindex : s'.gateIndex = s.gateIndex := by
      funext g
      cases g with
      | inl => rw [gateIndex, h.igates, gateIndex]
      | inr => rw [gateIndex, h.ogates, gateIndex]
    refine ⟨fun {g n} hn => ?_, fun {g g' n} hn hn' => ?_⟩
    · rw [h.gateCnt]
      exact hcurrent.indexed.lt (hindex ▸ hn)
    · exact hcurrent.indexed.unique (hindex ▸ hn) (hindex ▸ hn')

/-- An operation either leaves a change to be taken up or keeps what the last update
left. -/
theorem Current.step (hs : s.Sound) (heap : StdHeap) {op : GraphOp} (hpossible : s.Possible op)
    (hcurrent : s.changesMade = false → s.Current) :
    (s.graphStep heap op).changesMade = false → (s.graphStep heap op).Current := by
  cases op with
  | createModule m isTask numIGates numOGates =>
    intro hunchanged
    exact (hcurrent hunchanged).createModule hs.consistent hpossible isTask numIGates numOGates
  | connectModules =>
    simp only [graphStep]
    rcases connectModules_cases hs.consistent hpossible with
      hsame | hsame | ⟨og, ig, -, hconnected⟩
    · rw [hsame]
      exact hcurrent
    · rw [hsame]
      exact fun hfalse => (nomatch hfalse)
    · rw [hconnected.same.changesMade]
      exact fun hfalse => (nomatch hfalse)
  | disconnectModule m k =>
    simp only [graphStep, disconnectModule]
    split
    · exact hcurrent
    · rw [(hs.changed.consistent.disconnectGate_shrunk m k).1.same.changesMade]
      exact fun hfalse => (nomatch hfalse)
  | destroyModule m =>
    simp only [graphStep, destroyModule]
    rw [(hs.changed.consistent.destroy m).2.1.same.changesMade]
    exact fun hfalse => (nomatch hfalse)
  | updateTaskGraph =>
    exact fun _ => Current.updateTaskGraph hs heap hpossible hcurrent
  | signalOverload m =>
    intro hunchanged
    have honly := signalOverload_onlyModules s m
    exact (hcurrent (honly.changesMade.symm.trans hunchanged)).onlyModules
      (signalOverload_sameGraph s m) honly
  | signalUnderload m =>
    intro hunchanged
    have honly := signalUnderload_onlyModules s m
    exact (hcurrent (honly.changesMade.symm.trans hunchanged)).onlyModules
      (signalUnderload_sameGraph s m) honly

theorem current_empty : Current {} where
  first := by
    rintro - i ⟨t, ht, -⟩
    simp [isTask] at ht
  indexed := by
    refine ⟨?_, ?_⟩
    · rintro (i | o) n hn <;> simp [gateIndex] at hn
    · rintro (i | o) g' n hn <;> simp [gateIndex] at hn

theorem current_run (heap : StdHeap) {ops : List GraphOp}
    (hops : eachStep (graphStep heap) Possible {} ops) :
    (ops.foldl (graphStep heap) {}).changesMade = false →
      (ops.foldl (graphStep heap) {}).Current :=
  (foldl_invariant_of_eachStep (P := fun s => s.Sound ∧ (s.changesMade = false → s.Current))
    (fun _ _ hop hs => ⟨hs.1.step heap hop, Current.step hs.1 heap hop hs.2⟩) hops
    ⟨sound_empty, fun _ => current_empty⟩).2

/-! ## The order of the priorities -/

theorem Sound.swept_of_current (hs : s.Sound) (hcycles : s.NoCycleAvoidsTasks) (heap : StdHeap)
    (hpossible : s.Possible (.updateTaskGraph tasks modules))
    (hcurrent : s.changesMade = false → s.Current) :
    Swept s.nextOf 1 (tasks.flatMap s.nextIgates) s.priority
      (s.updateTaskGraph heap tasks modules).priority := by
  cases hchanges : s.changesMade with
  | true =>
    exact hs.updateTaskGraph_swept (hcycles.acyclic hs.consistent) hchanges heap tasks modules
  | false =>
    rw [updateTaskGraph, hchanges]
    apply Swept.of_le
    intro i hi
    exact (hcurrent hchanges).first hcycles i ((hs.mem_starts hpossible.1 i).mp hi)

/-- After every sequence of operations that ends with an update of a graph in which no
cycle avoids the tasks, the priorities are in order just when those left from before
the update were due. -/
theorem topologicallyOrdered_iff (heap : StdHeap) {ops : List GraphOp}
    (hops : eachStep (graphStep heap) Possible {} ops) {tasks modules : List Addr}
    (hpossible : (ops.foldl (graphStep heap) {}).Possible (.updateTaskGraph tasks modules))
    (hcycles : (ops.foldl (graphStep heap) {}).NoCycleAvoidsTasks) :
    ((ops.foldl (graphStep heap) {}).updateTaskGraph heap tasks modules).TopologicallyOrdered ↔
      (ops.foldl (graphStep heap) {}).PrioritiesDue := by
  have hs := sound_run heap hops
  have hcurrent := current_run heap hops
  generalize ops.foldl (graphStep heap) {} = s at *
  have hgraph := updateTaskGraph_sameGraph s heap tasks modules
  have hindexed := (Current.updateTaskGraph hs heap hpossible hcurrent).indexed
  have hiff := (hs.swept_of_current hcycles heap hpossible hcurrent).longest_iff
    (hcycles.acyclic hs.consistent) hs.closed (hs.mem_starts hpossible.1)
  rw [PrioritiesDue, ← hiff]
  constructor
  · intro hordered
    have hlongest := hordered.longest
    rw [hgraph.pathLengths] at hlongest
    exact hlongest
  · intro hlongest
    refine ⟨?_, ?_, hindexed⟩
    · rw [hgraph.pathLengths]
      exact hlongest
    · rw [hgraph.pathLengths, hgraph.nextOf]
      exact fun i j hreach hedge => longest_lt hlongest hreach hedge

theorem Sound.mem_allModules_of_children (hs : s.Sound) {a b : Addr} (hb : b ∈ s.children a) :
    a ∈ s.allModules := by
  rw [hs.registered.allModules]
  intro hnone
  rw [hs.consistent.children_dead hnone] at hb
  cases hb

theorem Sound.noCycle_of_forward (hs : s.Sound)
    (hforward : ∀ a ∈ s.allModules, ∀ b ∈ s.children a, a < b) : s.NoCycleAvoidsTasks := by
  have hlt : ∀ a b, Relation.TransGen (fun a b => s.isTask a = false ∧ b ∈ s.children a) a b →
      a < b := by
    intro a b hway
    induction hway with
    | single hedge => exact hforward _ (hs.mem_allModules_of_children hedge.2) _ hedge.2
    | tail _ hedge ih =>
      exact ih.trans (hforward _ (hs.mem_allModules_of_children hedge.2) _ hedge.2)
  exact fun m hcycle => lt_irrefl m (hlt m m hcycle)

def twoWays : List GraphOp :=
  [.createModule 1 true 0 2, .createModule 2 false 1 1, .createModule 3 false 1 0,
    .connectModules 1 0 2 0 10 20, .connectModules 2 0 3 0 11 21, .connectModules 1 1 3 0 12 22]

theorem twoWays_possible : eachStep (graphStep plainHeap) Possible {} twoWays := by
  simp only [twoWays, eachStep]
  refine ⟨rfl, rfl, rfl, ?_, ?_, ?_, trivial⟩
  · exact ⟨by decide, by decide, rfl, rfl⟩
  · exact ⟨by decide, by decide, rfl, rfl⟩
  · exact ⟨by decide, by decide, rfl, rfl⟩

theorem topologicallyOrdered_twoWays : ((twoWays.foldl (graphStep plainHeap) {}).updateTaskGraph
    plainHeap [1] [1, 2, 3]).TopologicallyOrdered := by
  have hs := sound_run plainHeap twoWays_possible
  have hlists : (twoWays.foldl (graphStep plainHeap) {}).Possible
      (.updateTaskGraph [1] [1, 2, 3]) := ⟨by decide, by decide⟩
  have hunranked : ∀ i ∈ (twoWays.foldl (graphStep plainHeap) {}).allIgates,
      (twoWays.foldl (graphStep plainHeap) {}).priority i = 0 := by decide
  refine (topologicallyOrdered_iff plainHeap twoWays_possible hlists
    (hs.noCycle_of_forward (by decide))).mpr (due_of_unranked fun i => ?_)
  cases hi : (twoWays.foldl (graphStep plainHeap) {}).igates i with
  | none => rw [priority, hi, map_none, getD_none]
  | some => exact hunranked i (hs.mem_allIgates hi)

def shortened : List GraphOp :=
  twoWays ++ [.updateTaskGraph [1] [1, 2, 3], .disconnectModule 2 0]

theorem shortened_possible : eachStep (graphStep plainHeap) Possible {} shortened := by
  simp only [shortened, twoWays, cons_append, nil_append, eachStep]
  refine ⟨rfl, rfl, rfl, ?_, ?_, ?_, ⟨by decide, by decide⟩, trivial, trivial⟩
  · exact ⟨by decide, by decide, rfl, rfl⟩
  · exact ⟨by decide, by decide, rfl, rfl⟩
  · exact ⟨by decide, by decide, rfl, rfl⟩

/-- The gate at its end keeps the priority of the longer way through the next update. -/
theorem priority_outlives_way : ∃ ops tasks modules,
    eachStep (graphStep plainHeap) Possible {} ops ∧
    (ops.foldl (graphStep plainHeap) {}).Possible (.updateTaskGraph tasks modules) ∧
    (ops.foldl (graphStep plainHeap) {}).NoCycleAvoidsTasks ∧
    ¬ ((ops.foldl (graphStep plainHeap) {}).updateTaskGraph plainHeap tasks
      modules).TopologicallyOrdered := by
  have hs := sound_run plainHeap shortened_possible
  refine ⟨shortened, [1], [1, 2, 3], shortened_possible, ⟨by decide, by decide⟩,
    hs.noCycle_of_forward (by decide), fun hordered => ?_⟩
  have hs' := (updateTaskGraph_sameGraph _ plainHeap [1] [1, 2, 3]).sound hs
  have hlongest := hordered.longest 21 ⟨1, [], .first ⟨1, by decide, by decide⟩, rfl⟩
  obtain ⟨before, htrail, hlength⟩ : 2 ∈ pathLengths _ 21 := hlongest.1
  -- no gate is left from which the way could have come
  have hnone : ∀ u ∈ ((shortened.foldl (graphStep plainHeap) {}).updateTaskGraph plainHeap [1]
      [1, 2, 3]).allIgates, 21 ∉ ((shortened.foldl (graphStep plainHeap) {}).updateTaskGraph
        plainHeap [1] [1, 2, 3]).nextOf u := by decide
  cases htrail with
  | first => cases hlength
  | @step u _ before _ hedge =>
    obtain ⟨ig, hig, -⟩ := mem_nextOf.mp hedge
    exact hnone u (hs'.mem_allIgates hig) hedge

end ModuleGraph

end Upf.Bess
