import Upf.Bess.GateConsistency
import Upf.Lib.Run

/-!
# Gates through every sequence of operations

Modules come and go, and their gates are connected and disconnected in any order.
The two directions of every connection agree after each operation.  The mark for
an input gate with several gates upstream is only computed when a gate upstream is
added, so it is right as long as no operation leaves an input gate that had several
gates upstream with a single one.

Main results: `consistent_run`, `gates_agree`.
-/

namespace Upf.Bess

open Function Lib List

namespace ModuleGraph

variable {s s' : ModuleGraph}

/-- Some gates were taken away, all of them at one module.  An input gate that is
still there lists the output gates that are, and has its mark from before. -/
structure Shrunk (m : Addr) (s s' : ModuleGraph) : Prop where
  ogateAt : ∀ {x j o}, s'.ogateAt x j = some o → s.ogateAt x j = some o
  igateAt : ∀ {x j i}, s'.igateAt x j = some i → s.igateAt x j = some i
  ogates : ∀ {o og}, s'.ogates o = some og → s.ogates o = some og
  igates : ∀ {i ig'}, s'.igates i = some ig' → ∃ ig, s.igates i = some ig ∧
    ig' = { ig with ogatesUpstream := ig.ogatesUpstream.filter fun o => (s'.ogates o).isSome }
  kept : ∀ {o og}, s.ogates o = some og → og.module ≠ m → og.next ≠ m → s'.ogates o = some og
  same : SameModules s s'

theorem Consistent.filter_alive (hs : s.Consistent) {i : Addr} {ig : IGate}
    (hig : s.igates i = some ig) :
    ig.ogatesUpstream.filter (fun o => (s.ogates o).isSome) = ig.ogatesUpstream := by
  rw [filter_eq_self]
  intro o ho
  obtain ⟨og, hog, -⟩ := hs.upstream hig o ho
  rw [hog]
  rfl

theorem Consistent.shrunk_refl (hs : s.Consistent) (m : Addr) : Shrunk m s s where
  ogateAt := id
  igateAt := id
  ogates := id
  igates := fun {i ig} hig => ⟨ig, hig, by rw [hs.filter_alive hig]⟩
  kept := fun hog _ _ => hog
  same := .refl s

variable {m : Addr}

theorem Shrunk.trans {s₁ s₂ s₃ : ModuleGraph} (h₁ : Shrunk m s₁ s₂)
    (h₂ : Shrunk m s₂ s₃) : Shrunk m s₁ s₃ where
  ogateAt := h₁.ogateAt ∘ h₂.ogateAt
  igateAt := h₁.igateAt ∘ h₂.igateAt
  ogates := h₁.ogates ∘ h₂.ogates
  igates := by
    intro i ig₃ hig₃
    obtain ⟨ig₂, hig₂, rfl⟩ := h₂.igates hig₃
    obtain ⟨ig₁, hig₁, rfl⟩ := h₁.igates hig₂
    refine ⟨ig₁, hig₁, ?_⟩
    -- a gate that is there in the end was there in between
    have halive : ∀ o, (s₃.ogates o).isSome → (s₂.ogates o).isSome := by
      intro o ho
      obtain ⟨og, hog⟩ := Option.isSome_iff_exists.mp ho
      exact Option.isSome_iff_exists.mpr ⟨og, h₂.ogates hog⟩
    rw [filter_filter]
    congr 2
    funext o
    by_cases ho : (s₃.ogates o).isSome
    · rw [ho, halive o ho, Bool.and_self]
    · simp [ho]
  kept := fun hog hm hnext => h₂.kept (h₁.kept hog hm hnext) hm hnext
  same := h₁.same.trans h₂.same

theorem Detached.shrunk {o : Addr} {og : OGate} {ig : IGate} (h : Detached s s' o og ig)
    (hs : s.Consistent) (hog : s.ogates o = some og) (hig : s.igates og.igate = some ig) :
    Shrunk og.module s s' where
  ogateAt := by
    intro x j o' ho'
    rw [h.ogateAt] at ho'
    split at ho'
    · exact (nomatch ho')
    · exact ho'
  igateAt := by
    intro x j i hi
    rw [h.igateAt] at hi
    split at hi
    · cases hi
    · exact hi
  ogates := by
    intro o' og' hog'
    rw [h.ogates] at hog'
    by_cases ho : o' = o
    · rw [ho, update_self] at hog'
      exact (nomatch hog')
    · rwa [update_of_ne ho] at hog'
  igates := by
    intro i ig' hig'
    have hfilter : ∀ {i₀ ig₀}, s.igates i₀ = some ig₀ →
        ig₀.ogatesUpstream.filter (fun o' => (s'.ogates o').isSome) =
          ig₀.ogatesUpstream.filter (· != o) := by
      intro i₀ ig₀ hig₀
      apply filter_congr
      intro o' ho'
      obtain ⟨og', hog', -⟩ := hs.upstream hig₀ o' ho'
      rw [h.ogates]
      by_cases ho : o' = o
      · simp [ho]
      · simp [ho, hog']
    rcases h.igate_cases hig' with ⟨rfl, -, rfl⟩ | ⟨hi, hig'⟩
    · refine ⟨ig, hig, ?_⟩
      rw [hfilter hig, (hs.nodup hig).erase_eq_filter]
    · refine ⟨ig', hig', ?_⟩
      rw [hfilter hig', ← (hs.nodup hig').erase_eq_filter, erase_of_not_mem]
      intro hmem
      obtain ⟨og', hog', rfl⟩ := hs.upstream hig' o hmem
      cases hog.symm.trans hog'
      exact hi rfl
  kept := by
    intro o' og' hog' hm _
    have ho : o' ≠ o := by
      rintro rfl
      cases hog.symm.trans hog'
      exact hm rfl
    rwa [h.ogates, update_of_ne ho]
  same := h.same

theorem CutUpstream.shrunk {i : Addr} {ig : IGate} (h : CutUpstream s s' i ig)
    (hs : s.Consistent) (hig : s.igates i = some ig) : Shrunk ig.module s s' where
  ogateAt := by
    intro x j o ho
    rw [h.ogateAt] at ho
    exact (Option.filter_eq_some_iff.mp ho).1
  igateAt := by
    intro x j i' hi'
    rw [h.igateAt] at hi'
    split at hi'
    · exact (nomatch hi')
    · exact hi'
  ogates := by
    intro o og hog
    rw [h.ogates] at hog
    split at hog
    · cases hog
    · exact hog
  igates := by
    intro i' ig' hig'
    have hi : i' ≠ i := by
      rintro rfl
      rw [h.igates, update_self] at hig'
      exact (nomatch hig')
    rw [h.igates, update_of_ne hi] at hig'
    refine ⟨ig', hig', ?_⟩
    have hfilter : ig'.ogatesUpstream.filter (fun o => (s'.ogates o).isSome) =
        ig'.ogatesUpstream := by
      rw [filter_eq_self]
      intro o ho
      obtain ⟨og, hog, rfl⟩ := hs.upstream hig' o ho
      have hother : o ∉ ig.ogatesUpstream := by
        intro hmem
        obtain ⟨og', hog', hsame⟩ := hs.upstream hig o hmem
        cases hog.symm.trans hog'
        exact hi hsame
      rw [h.ogates, if_neg hother, hog]
      rfl
    rw [hfilter]
  kept := by
    intro o og hog _ hnext
    have ho : o ∉ ig.ogatesUpstream := by
      intro hmem
      obtain ⟨og', hog', rfl⟩ := hs.upstream hig o hmem
      cases hog.symm.trans hog'
      obtain ⟨ig', hig', -, hmodule, -⟩ := hs.target hog
      cases hig.symm.trans hig'
      exact hnext hmodule
    rwa [h.ogates, if_neg ho]
  same := h.same

theorem Consistent.disconnectGate_shrunk (hs : s.Consistent) (m : Addr) (k : Nat) :
    Shrunk m s (s.disconnectGate m k) ∧ (s.disconnectGate m k).ogateAt m k = none := by
  cases ho : s.ogateAt m k with
  | none =>
    rw [ModuleGraph.disconnectGate, ho]
    exact ⟨hs.shrunk_refl m, ho⟩
  | some o =>
    obtain ⟨og, hog, rfl, rfl⟩ := (hs.ogates m k o).mp ho
    obtain ⟨ig, hig, hmem, -⟩ := hs.target hog
    have hdetached := disconnectGate_detached ho hog hig hmem
    exact ⟨hdetached.shrunk hs hog hig, by rw [hdetached.ogateAt, if_pos ⟨rfl, rfl⟩]⟩

theorem Consistent.disconnectModulesUpstream_shrunk (hs : s.Consistent) (m : Addr) (k : Nat) :
    Shrunk m s (s.disconnectModulesUpstream m k) ∧
      (s.disconnectModulesUpstream m k).igateAt m k = none := by
  cases hi : s.igateAt m k with
  | none =>
    rw [ModuleGraph.disconnectModulesUpstream, hi]
    exact ⟨hs.shrunk_refl m, hi⟩
  | some i =>
    obtain ⟨ig, hig, rfl, rfl⟩ := (hs.igates m k i).mp hi
    have hcut := disconnectModulesUpstream_cut hs.ogates hi hig
    exact ⟨hcut.shrunk hs hig, by rw [hcut.igateAt, if_pos ⟨rfl, rfl⟩]⟩

theorem foldl_clears (op : ModuleGraph → Nat → ModuleGraph)
    (gateAt : ModuleGraph → Nat → Option Addr)
    (hclear : ∀ s k, s.Consistent → (op s k).Consistent ∧ Shrunk m s (op s k) ∧
      gateAt (op s k) k = none)
    (hkeep : ∀ {s s' : ModuleGraph} {k}, Shrunk m s s' → gateAt s k = none → gateAt s' k = none)
    (ks : List Nat) : ∀ {s : ModuleGraph}, s.Consistent →
      (ks.foldl op s).Consistent ∧ Shrunk m s (ks.foldl op s) ∧
        ∀ k ∈ ks, gateAt (ks.foldl op s) k = none := by
  induction ks with
  | nil => exact fun hs => ⟨hs, hs.shrunk_refl m, by simp⟩
  | cons k ks ih =>
    intro s hs
    obtain ⟨hs₁, hshrunk₁, hnone⟩ := hclear s k hs
    obtain ⟨hs₂, hshrunk₂, hrest⟩ := ih hs₁
    refine ⟨hs₂, hshrunk₁.trans hshrunk₂, ?_⟩
    intro k' hk'
    rcases mem_cons.mp hk' with rfl | hk'
    · exact hkeep hshrunk₂ hnone
    · exact hrest k' hk'

theorem Shrunk.igateAt_none (h : Shrunk m s s') {x : Addr} {j : Nat}
    (hnone : s.igateAt x j = none) : s'.igateAt x j = none := by
  rw [Option.eq_none_iff_forall_ne_some] at hnone ⊢
  exact fun i hi => hnone i (h.igateAt hi)

theorem Shrunk.ogateAt_none (h : Shrunk m s s') {x : Addr} {j : Nat}
    (hnone : s.ogateAt x j = none) : s'.ogateAt x j = none := by
  rw [Option.eq_none_iff_forall_ne_some] at hnone ⊢
  exact fun o ho => hnone o (h.ogateAt ho)

theorem Consistent.destroyIgates (hs : s.Consistent) (m : Addr) :
    (s.destroyIgates m).Consistent ∧ Shrunk m s (s.destroyIgates m) ∧
      ∀ k, (s.destroyIgates m).igateAt m k = none := by
  obtain ⟨hs', hshrunk, hnone⟩ := foldl_clears
    (fun s k => s.disconnectModulesUpstream m k) (fun s k => s.igateAt m k)
    (fun s k hs => ⟨hs.disconnectModulesUpstream m k, hs.disconnectModulesUpstream_shrunk m k⟩)
    (fun h => h.igateAt_none) (List.range (s.igatesOf m).length) hs
  refine ⟨hs', hshrunk, fun k => ?_⟩
  by_cases hk : k < (s.igatesOf m).length
  · exact hnone k (mem_range.mpr hk)
  · exact hshrunk.igateAt_none (getD_eq_default _ _ (Nat.le_of_not_lt hk))

theorem Consistent.destroyOgates (hs : s.Consistent) (m : Addr) :
    (s.destroyOgates m).Consistent ∧ Shrunk m s (s.destroyOgates m) ∧
      ∀ k, (s.destroyOgates m).ogateAt m k = none := by
  obtain ⟨hs', hshrunk, hnone⟩ := foldl_clears
    (fun s k => s.disconnectGate m k) (fun s k => s.ogateAt m k)
    (fun s k hs => ⟨hs.disconnectGate m k, hs.disconnectGate_shrunk m k⟩)
    (fun h => h.ogateAt_none) (List.range (s.ogatesOf m).length) hs
  refine ⟨hs', hshrunk, fun k => ?_⟩
  by_cases hk : k < (s.ogatesOf m).length
  · exact hnone k (mem_range.mpr hk)
  · exact hshrunk.ogateAt_none (getD_eq_default _ _ (Nat.le_of_not_lt hk))

theorem Consistent.destroy (hs : s.Consistent) (m : Addr) :
    (s.destroy m).Consistent ∧ Shrunk m s (s.destroy m) ∧
      (∀ k, (s.destroy m).ogateAt m k = none) ∧ ∀ k, (s.destroy m).igateAt m k = none := by
  obtain ⟨hs₁, hshrunk₁, higates⟩ := hs.destroyIgates m
  obtain ⟨hs₂, hshrunk₂, hogates⟩ := hs₁.destroyOgates m
  exact ⟨hs₂, hshrunk₁.trans hshrunk₂, hogates, fun k => hshrunk₂.igateAt_none (higates k)⟩

theorem Consistent.congr (hs : s.Consistent) (hogateAt : s'.ogateAt = s.ogateAt)
    (higateAt : s'.igateAt = s.igateAt) (hogates : s'.ogates = s.ogates)
    (higates : s'.igates = s.igates)
    (hdead : ∀ {m}, s'.modules m = none →
      (∀ j, s'.ogateAt m j = none) ∧ ∀ j, s'.igateAt m j = none) : s'.Consistent where
  ogates := by
    intro x j o
    rw [hogateAt, hogates]
    exact hs.ogates x j o
  igates := by
    intro x j i
    rw [higateAt, higates]
    exact hs.igates x j i
  target := by
    rw [hogates, higates]
    exact hs.target
  upstream := by
    rw [hogates, higates]
    exact hs.upstream
  nodup := by
    rw [higates]
    exact hs.nodup
  nonempty := by
    rw [higates]
    exact hs.nonempty
  dead := hdead

theorem Consistent.changed (hs : s.Consistent) :
    ({ s with changesMade := true } : ModuleGraph).Consistent :=
  hs.congr rfl rfl rfl rfl hs.dead

theorem Consistent.destroyModule (hs : s.Consistent) (m : Addr) :
    (s.destroyModule m).Consistent := by
  obtain ⟨hs', -, hogates, higates⟩ := hs.changed.destroy m
  refine hs'.congr rfl rfl rfl rfl fun {x} hx => ?_
  by_cases hm : x = m
  · rw [hm]
    exact ⟨hogates, higates⟩
  · exact hs'.dead ((update_of_ne hm _ _).symm.trans hx)

theorem Consistent.createModule (hs : s.Consistent) (hm : s.modules m = none)
    (isTask : Bool) (numIGates numOGates : Nat) :
    (s.createModule m isTask numIGates numOGates).Consistent := by
  obtain ⟨hogates, higates⟩ := hs.dead hm
  have hogateAt : (s.createModule m isTask numIGates numOGates).ogateAt = s.ogateAt := by
    funext x j
    by_cases hx : x = m
    · rw [hx, hogates]
      simp [ModuleGraph.ogateAt, ModuleGraph.createModule]
    · simp [ModuleGraph.ogateAt, ModuleGraph.createModule, hx]
  have higateAt : (s.createModule m isTask numIGates numOGates).igateAt = s.igateAt := by
    funext x j
    by_cases hx : x = m
    · rw [hx, higates]
      simp [ModuleGraph.igateAt, ModuleGraph.createModule]
    · simp [ModuleGraph.igateAt, ModuleGraph.createModule, hx]
  apply hs.congr hogateAt higateAt rfl rfl
  intro x hx
  by_cases hxm : x = m
  · rw [hxm] at hx
    exact absurd ((update_self m _ s.modules).symm.trans hx) (by simp)
  · rw [hogateAt, higateAt]
    exact hs.dead ((update_of_ne hxm _ _).symm.trans hx)

end ModuleGraph

/-- The operations on gates, and the modules that come and go between them. -/
inductive GateOp where
  | createModule (m : Addr) (isTask : Bool) (numIGates numOGates : Nat)
  | connectGate (m : Addr) (ogateIdx : Nat) (mNext : Addr) (igateIdx : Nat) (newO newI : Addr)
  | disconnectGate (m : Addr) (ogateIdx : Nat)
  | disconnectModulesUpstream (m : Addr) (igateIdx : Nat)
  | destroyModule (m : Addr)

namespace ModuleGraph

variable {s s' : ModuleGraph}

def gateStep (s : ModuleGraph) : GateOp → ModuleGraph
  | .createModule m isTask numIGates numOGates => s.createModule m isTask numIGates numOGates
  | .connectGate m ogateIdx mNext igateIdx newO newI =>
    (s.connectGate m ogateIdx mNext igateIdx newO newI).2
  | .disconnectGate m ogateIdx => s.disconnectGate m ogateIdx
  | .disconnectModulesUpstream m igateIdx => s.disconnectModulesUpstream m igateIdx
  | .destroyModule m => s.destroyModule m

def Allowed (s : ModuleGraph) : GateOp → Prop
  | .createModule m _ _ _ => s.modules m = none
  | .connectGate m _ mNext _ newO newI =>
    s.modules m ≠ none ∧ s.modules mNext ≠ none ∧ s.ogates newO = none ∧ s.igates newI = none
  | _ => True

theorem Consistent.connectGate_cases (hs : s.Consistent) {m mNext newO newI : Addr} {k j : Nat}
    (hallowed : s.Allowed (.connectGate m k mNext j newO newI)) :
    (s.connectGate m k mNext j newO newI).2 = s ∨
      ∃ og ig, Connectable s newO og ig ∧
        Connected s (s.connectGate m k mNext j newO newI).2 newO og ig := by
  obtain ⟨hm, hnext, ho, hi⟩ := hallowed
  cases hplace : s.ogateAt m k with
  | some =>
    left
    rw [ModuleGraph.connectGate, if_pos (Option.isSome_of_eq_some hplace)]
  | none =>
    right
    cases higate : s.igateAt mNext j with
    | none =>
      exact ⟨_, _, ⟨ho, hplace, rfl, rfl, .inr ⟨hi, higate, rfl⟩, hm, hnext⟩,
        connectGate_new hplace higate⟩
    | some i =>
      obtain ⟨ig, hig, hmodule, hidx⟩ := (hs.igates mNext j i).mp higate
      exact ⟨_, ig, ⟨ho, hplace, hmodule, hidx, .inl hig, hm, hnext⟩,
        connectGate_old hplace higate hig hidx⟩

theorem Consistent.step (hs : s.Consistent) {op : GateOp} (hallowed : s.Allowed op) :
    (s.gateStep op).Consistent := by
  cases op with
  | createModule m isTask numIGates numOGates =>
    exact hs.createModule hallowed isTask numIGates numOGates
  | connectGate =>
    rcases hs.connectGate_cases hallowed with hsame | ⟨og, ig, hable, hconnected⟩
    · exact (congrArg Consistent hsame).mpr hs
    · exact hs.connected hable hconnected
  | disconnectGate m k => exact hs.disconnectGate m k
  | disconnectModulesUpstream m k => exact hs.disconnectModulesUpstream m k
  | destroyModule m => exact hs.destroyModule m

/-- Also where a mark is wrong, the gates that point to an input gate are those it lists. -/
theorem consistent_run {ops : List GateOp} (hallowed : eachStep gateStep Allowed {} ops) :
    (ops.foldl gateStep {}).Consistent :=
  foldl_invariant_of_eachStep (fun _ _ hop hs => hs.step hop) hallowed consistent_empty

/-- Two connections into one gate, of which one is left. -/
theorem consistent_run_connect :
    let s := ([.createModule 1 true 0 1, .createModule 2 true 0 1, .createModule 3 false 1 0,
      .connectGate 1 0 3 0 10 20, .connectGate 2 0 3 0 11 21,
      .disconnectGate 1 0] : List GateOp).foldl gateStep {}
    s.Consistent ∧ (s.igates 20).map IGate.ogatesUpstream = some [11] :=
  ⟨consistent_run ⟨rfl, rfl, rfl, ⟨by decide, by decide, rfl, rfl⟩,
    ⟨by decide, by decide, rfl, rfl⟩, trivial, trivial⟩, by decide⟩

/-- The mark is set on the input gates with several gates upstream. -/
def Marked (s : ModuleGraph) : Prop :=
  ∀ i ig, s.igates i = some ig → (ig.mergeable = true ↔ 2 ≤ ig.ogatesUpstream.length)

/-- The operation does not leave an input gate with a single gate upstream that had
several. -/
def LeavesNoSingle (s : ModuleGraph) : GateOp → Prop
  | .disconnectGate m k => ∀ o og ig, s.ogateAt m k = some o → s.ogates o = some og →
      s.igates og.igate = some ig → ig.ogatesUpstream.length ≠ 2
  | .destroyModule m => ∀ i ig, s.igates i = some ig → ig.module ≠ m →
      2 ≤ ig.ogatesUpstream.length →
      ig.ogatesUpstream.countP (fun o => (s.ogates o).any (·.module != m)) ≠ 1
  | _ => True

theorem Connected.marked {o : Addr} {og : OGate} {ig : IGate} (h : Connected s s' o og ig)
    (hs : s.Marked) : s'.Marked := by
  intro i ig' hig'
  rw [h.igates] at hig'
  by_cases hi : i = og.igate
  · rw [hi, update_self] at hig'
    cases hig'
    simp only [decide_eq_true_eq]
    exact Iff.rfl
  · rw [update_of_ne hi] at hig'
    exact hs i ig' hig'

/-- The marks stay right where no input gate is left with a single gate. -/
theorem Marked.shrunk {m : Addr} (hs : s.Marked) (hs' : s'.Consistent) (h : Shrunk m s s')
    (hmany : ∀ {i ig ig'}, s.igates i = some ig → s'.igates i = some ig' →
      2 ≤ ig.ogatesUpstream.length → ig'.ogatesUpstream.length ≠ 1) : s'.Marked := by
  intro i ig' hig'
  obtain ⟨ig, hig, heq⟩ := h.igates hig'
  have hmark : ig'.mergeable = ig.mergeable := by rw [heq]
  have hle : ig'.ogatesUpstream.length ≤ ig.ogatesUpstream.length := by
    rw [heq]
    exact length_filter_le _ _
  have hpos : 0 < ig'.ogatesUpstream.length := length_pos_of_ne_nil (hs'.nonempty hig')
  have hsingle := hmany hig hig'
  rw [hmark, hs i ig hig]
  omega

theorem Marked.disconnectGate (hmark : s.Marked) (hs : s.Consistent) {m : Addr} {k : Nat}
    (hleaves : s.LeavesNoSingle (.disconnectGate m k)) : (s.disconnectGate m k).Marked := by
  cases ho : s.ogateAt m k with
  | none =>
    rw [ModuleGraph.disconnectGate, ho]
    exact hmark
  | some o =>
    obtain ⟨og, hog, rfl, rfl⟩ := (hs.ogates m k o).mp ho
    obtain ⟨ig, hig, hmem, -⟩ := hs.target hog
    have hdetached := disconnectGate_detached ho hog hig hmem
    apply hmark.shrunk (hs.disconnectGate _ _) (hdetached.shrunk hs hog hig)
    intro i ig₀ ig' hig₀ hig' hmany
    rcases hdetached.igate_cases hig' with ⟨rfl, -, rfl⟩ | ⟨-, hsame⟩
    · cases hig.symm.trans hig₀
      have hne := hleaves o og ig ho hog hig
      simp only [length_erase_of_mem hmem]
      omega
    · cases hig₀.symm.trans hsame
      omega

theorem Marked.disconnectModulesUpstream (hmark : s.Marked) (hs : s.Consistent) (m : Addr)
    (k : Nat) : (s.disconnectModulesUpstream m k).Marked := by
  cases hi : s.igateAt m k with
  | none =>
    rw [ModuleGraph.disconnectModulesUpstream, hi]
    exact hmark
  | some i =>
    obtain ⟨ig, hig, rfl, rfl⟩ := (hs.igates m k i).mp hi
    have hcut := disconnectModulesUpstream_cut hs.ogates hi hig
    intro i' ig' hig'
    rw [hcut.igates] at hig'
    by_cases hi' : i' = i
    · rw [hi', update_self] at hig'
      cases hig'
    · rw [update_of_ne hi'] at hig'
      exact hmark i' ig' hig'

theorem Shrunk.length_upstream {m i : Addr} {ig ig' : IGate} (h : Shrunk m s s')
    (hs : s.Consistent) (hs' : s'.Consistent) (hgone : ∀ k, s'.ogateAt m k = none)
    (hig : s.igates i = some ig) (hig' : s'.igates i = some ig') (hmodule : ig.module ≠ m) :
    ig'.ogatesUpstream.length =
      ig.ogatesUpstream.countP (fun o => (s.ogates o).any (·.module != m)) := by
  obtain ⟨ig₀, hig₀, rfl⟩ := h.igates hig'
  cases hig.symm.trans hig₀
  rw [countP_eq_length_filter]
  congr 1
  apply filter_congr
  intro o ho
  obtain ⟨og, hog, rfl⟩ := hs.upstream hig o ho
  obtain ⟨ig₁, hig₁, -, hnext, -⟩ := hs.target hog
  cases hig.symm.trans hig₁
  rw [hog, Option.any_some]
  by_cases hm : og.module = m
  · have hnone : s'.ogates o = none := by
      rw [Option.eq_none_iff_forall_ne_some]
      intro og' hog'
      cases hog.symm.trans (h.ogates hog')
      have hplace := hs'.ogates.place hog'
      rw [hm, hgone] at hplace
      cases hplace
    simp [hnone, hm]
  · simp [h.kept hog hm (hnext ▸ hmodule), hm]

theorem Marked.destroyModule (hmark : s.Marked) (hs : s.Consistent) {m : Addr}
    (hleaves : s.LeavesNoSingle (.destroyModule m)) : (s.destroyModule m).Marked := by
  have hmarked : ({ s with changesMade := true } : ModuleGraph).Marked := hmark
  obtain ⟨hs', hshrunk, hogates, higates⟩ := hs.changed.destroy m
  apply hmarked.shrunk hs' hshrunk
  intro i ig ig' hig hig' hmany
  have hmodule : ig.module ≠ m := by
    rintro rfl
    obtain ⟨ig₀, hig₀, heq⟩ := hshrunk.igates hig'
    cases hig.symm.trans hig₀
    have hplace := hs'.igates.place hig'
    rw [heq, higates] at hplace
    cases hplace
  rw [hshrunk.length_upstream hs.changed hs' hogates hig hig' hmodule]
  exact hleaves i ig hig hmodule hmany

theorem Marked.step (hmark : s.Marked) (hs : s.Consistent) {op : GateOp}
    (hallowed : s.Allowed op) (hleaves : s.LeavesNoSingle op) : (s.gateStep op).Marked := by
  cases op with
  | createModule => exact hmark
  | connectGate =>
    rcases hs.connectGate_cases hallowed with hsame | ⟨og, ig, -, hconnected⟩
    · exact (congrArg Marked hsame).mpr hmark
    · exact hconnected.marked hmark
  | disconnectGate => exact hmark.disconnectGate hs hleaves
  | disconnectModulesUpstream m k => exact hmark.disconnectModulesUpstream hs m k
  | destroyModule => exact hmark.destroyModule hs hleaves

/-- The output gate points to the input gate of the module. -/
def Targets (s : ModuleGraph) (o i m : Addr) : Prop :=
  ∃ og, s.ogates o = some og ∧ og.igate = i ∧ og.next = m

/-- The gates sit at their places, an output gate points to an input gate just when
that gate lists it once, no input gate is without a gate upstream, and the mark is
set on those with several. -/
structure Agree (s : ModuleGraph) : Prop where
  ogates : s.OgatesPlaced
  igates : s.IgatesPlaced
  edge : ∀ {m k o}, s.ogateAt m k = some o → ∀ i m', s.Targets o i m' ↔
    ∃ ig, s.igates i = some ig ∧ ig.module = m' ∧ ig.ogatesUpstream.count o = 1 ∧
      s.igateAt m' ig.gateIdx = some i
  listed : ∀ {i ig}, s.igates i = some ig → ∀ o ∈ ig.ogatesUpstream,
    ∃ m k, s.ogateAt m k = some o
  nonempty : ∀ {i ig}, s.igates i = some ig → ig.ogatesUpstream ≠ []
  mergeable : ∀ i ig, s.igates i = some ig → (ig.mergeable = true ↔ 2 ≤ ig.ogatesUpstream.length)

theorem Consistent.edge (hs : s.Consistent) (o i m : Addr) : s.Targets o i m ↔
    ∃ ig, s.igates i = some ig ∧ ig.module = m ∧ ig.ogatesUpstream.count o = 1 ∧
      s.igateAt m ig.gateIdx = some i := by
  constructor
  · rintro ⟨og, hog, rfl, rfl⟩
    obtain ⟨ig, hig, hmem, hnext, -⟩ := hs.target hog
    refine ⟨ig, hig, hnext.symm, count_eq_one_of_mem (hs.nodup hig) hmem, ?_⟩
    rw [hnext]
    exact hs.igates.place hig
  · rintro ⟨ig, hig, rfl, hcount, -⟩
    have hmem : o ∈ ig.ogatesUpstream := count_pos_iff.mp (by omega)
    obtain ⟨og, hog, rfl⟩ := hs.upstream hig o hmem
    obtain ⟨ig', hig', -, hnext, -⟩ := hs.target hog
    cases hig.symm.trans hig'
    exact ⟨og, hog, rfl, hnext⟩

theorem Consistent.agree (hs : s.Consistent) (hmark : s.Marked) : s.Agree where
  ogates := hs.ogates
  igates := hs.igates
  edge := fun _ i m' => hs.edge _ i m'
  listed := by
    intro i ig hig o ho
    obtain ⟨og, hog, -⟩ := hs.upstream hig o ho
    exact ⟨og.module, og.gateIdx, hs.ogates.place hog⟩
  nonempty := hs.nonempty
  mergeable := hmark

/-- In every sequence of operations none of which leaves a single gate upstream, the
gates agree. -/
theorem gates_agree {ops : List GateOp}
    (hops : eachStep gateStep (fun s op => s.Allowed op ∧ s.LeavesNoSingle op) {} ops) :
    (ops.foldl gateStep {}).Agree := by
  have hboth : (ops.foldl gateStep {}).Consistent ∧ (ops.foldl gateStep {}).Marked := by
    apply foldl_invariant_of_eachStep (P := fun s => s.Consistent ∧ s.Marked) ?_ hops
    · exact ⟨consistent_empty, fun i ig hig => (nomatch hig)⟩
    · rintro s op ⟨hallowed, hleaves⟩ ⟨hs, hmark⟩
      exact ⟨hs.step hallowed, hmark.step hs hallowed hleaves⟩
  exact hboth.1.agree hboth.2

def fanIn : List GateOp :=
  [.createModule 1 true 0 1, .createModule 2 true 0 2, .createModule 3 false 1 0,
    .connectGate 1 0 3 0 10 20, .connectGate 2 0 3 0 11 21, .connectGate 2 1 3 0 12 21]

/-- Two of the three are left. -/
theorem gates_agree_fanIn :
    ((fanIn ++ [GateOp.disconnectGate 2 0]).foldl gateStep {}).Agree := by
  apply gates_agree
  simp only [fanIn, cons_append, nil_append, eachStep]
  refine ⟨⟨rfl, trivial⟩, ⟨rfl, trivial⟩, ⟨rfl, trivial⟩, ⟨?_, trivial⟩, ⟨?_, trivial⟩,
    ⟨?_, trivial⟩, ⟨trivial, fun o og ig ho hog hig => ?_⟩, trivial⟩
  · exact ⟨by decide, by decide, rfl, rfl⟩
  · exact ⟨by decide, by decide, rfl, rfl⟩
  · exact ⟨by decide, by decide, rfl, rfl⟩
  · cases ho
    cases hog
    cases hig
    decide

/-- One of the three is left, and its gate is still marked. -/
theorem mark_outlives_gates : ∃ ops : List GateOp, eachStep gateStep Allowed {} ops ∧
    ¬ (ops.foldl gateStep {}).Agree := by
  refine ⟨fanIn ++ [GateOp.disconnectGate 2 0, GateOp.disconnectGate 2 1], ?_, fun hagree => ?_⟩
  · simp only [fanIn, cons_append, nil_append, eachStep]
    refine ⟨rfl, rfl, rfl, ?_, ?_, ?_, trivial, trivial, trivial⟩
    · exact ⟨by decide, by decide, rfl, rfl⟩
    · exact ⟨by decide, by decide, rfl, rfl⟩
    · exact ⟨by decide, by decide, rfl, rfl⟩
  · have hmark := (hagree.mergeable 20 _ rfl).mp rfl
    exact absurd hmark (by decide)

end ModuleGraph

end Upf.Bess
