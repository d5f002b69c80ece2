import Upf.Bess.TaskRun
import Upf.Lib.Load
import Upf.Lib.Run

/-!
# Conservation of packets in a task run

Every batch in use stands in exactly one place: next in the chain, in the queue, with
an output gate that has hooks, or with the module that received it.  The output
gates without hooks and the input gates only know other names of these.  So every
packet emitted is in exactly one place until it is delivered.

There is one way out of this.  An output gate without hooks whose batch is full takes
a new, empty batch and has it run; if the input gate remembers a batch, the empty one
is merged into that and left out of the queue, and what the gate puts into it is never
seen again.

Main result: `conserved`.
-/

namespace Upf.Bess

open Function Lib List Option Nat Bool

namespace TaskState

variable {M I O P : Type}

def carried (s : TaskState P I O) : List (I × BatchId) := s.nextGate.toList ++ s.igatesToRun

def Taken (s : TaskState P I O) : BatchId → Prop
  | none => True
  | some n => n < s.pbatchIdx

/-- A step that leaves the output gates alone and lets waiting batches wait. -/
structure Keeps (s s' : TaskState P I O) : Prop where
  ogateBatch : s'.ogateBatch = s.ogateBatch
  gateWithHook : s'.gateWithHook = s.gateWithHook
  gateWithoutHook : s'.gateWithoutHook = s.gateWithoutHook
  carried : ∀ e ∈ s.carried, e ∈ s'.carried

theorem Keeps.trans {s₁ s₂ s₃ : TaskState P I O} (h : s₁.Keeps s₂) (h' : s₂.Keeps s₃) :
    s₁.Keeps s₃ :=
  ⟨h'.ogateBatch.trans h.ogateBatch, h'.gateWithHook.trans h.gateWithHook,
    h'.gateWithoutHook.trans h.gateWithoutHook, fun e he => h'.carried e (h.carried e he)⟩

/-- Batches are owned by a module, held by an output gate, or wait to be run, each
in one place; what was emitted and not delivered is in the latter two; what was
dropped and not freed is in the dead batch; and no batch is too full. -/
structure Flow (s : TaskState P I O) (owned : List BatchId) (held : List (I × BatchId)) :
    Prop where
  nodup : (owned ++ (s.carried ++ held).map Prod.snd).Nodup
  taken : ∀ b ∈ owned ++ (s.carried ++ held).map Prod.snd, s.Taken b
  queued : ∀ ig b, s.igateBatch ig = some b → (ig, b) ∈ s.igatesToRun
  small : ∀ b, (s.batch b).length ≤ kMaxBurst
  ledger : (s.emitted : Multiset (I × P)) = s.delivered + load s.batch (s.carried ++ held)
  dead : (s.dropped : Multiset P) = s.freed + s.deadBatch
  deadSmall : s.deadBatch.length < kMaxBurst

variable {s : TaskState P I O} {owned : List BatchId} {held : List (I × BatchId)} {ig : I}
  {b : BatchId}

/-! ## Moving batches -/

theorem Flow.perm {held' : List (I × BatchId)} (h : s.Flow owned held) (hperm : held.Perm held') :
    s.Flow owned held' where
  nodup := (((hperm.append_left s.carried).map Prod.snd).append_left owned).nodup h.nodup
  taken b hb :=
    h.taken b ((((hperm.append_left s.carried).map Prod.snd).append_left owned).mem_iff.mpr hb)
  queued := h.queued
  small := h.small
  ledger := by rw [h.ledger, load_perm (hperm.append_left s.carried)]
  dead := h.dead
  deadSmall := h.deadSmall

theorem Flow.gates (h : s.Flow owned held) (f : O → Option BatchId) (os os' : List O) :
    Flow { s with ogateBatch := f, gateWithHook := os, gateWithoutHook := os' } owned held :=
  ⟨h.nodup, h.taken, h.queued, h.small, h.ledger, h.dead, h.deadSmall⟩

theorem Flow.release (h : s.Flow owned held) : s.Flow [] held where
  nodup := h.nodup.sublist (sublist_append_right _ _)
  taken b hb := h.taken b (mem_append_right _ hb)
  queued := h.queued
  small := h.small
  ledger := h.ledger
  dead := h.dead
  deadSmall := h.deadSmall

theorem Flow.wait {nextGate : Option (I × BatchId)} {igatesToRun : List (I × BatchId)}
    {igateBatch : I → Option BatchId} (h : s.Flow owned ((ig, b) :: held))
    (hperm : (nextGate.toList ++ igatesToRun).Perm ((ig, b) :: s.carried))
    (hqueued : ∀ ig b, igateBatch ig = some b → (ig, b) ∈ igatesToRun) :
    Flow { s with nextGate, igatesToRun, igateBatch } owned held := by
  have hall : (nextGate.toList ++ igatesToRun ++ held).Perm (s.carried ++ (ig, b) :: held) :=
    (hperm.append_right held).trans perm_middle.symm
  have hids := (hall.map Prod.snd).append_left owned
  refine ⟨hids.symm.nodup h.nodup, fun b' hb' => h.taken b' (hids.mem_iff.mp hb'), hqueued, h.small,
    ?_, h.dead, h.deadSmall⟩
  exact h.ledger.trans (congrArg _ (load_perm hall.symm))

theorem Flow.small_update (h : s.Flow owned held) (b : BatchId) {pkts : List P}
    (hpkts : pkts.length ≤ kMaxBurst) (b' : BatchId) :
    (update s.batch b pkts b').length ≤ kMaxBurst := by
  by_cases hb' : b' = b
  · subst hb'
    rwa [update_self]
  · rw [update_of_ne hb']
    exact h.small b'

theorem Flow.nodup_ids (h : s.Flow owned held) : ((s.carried ++ held).map Prod.snd).Nodup :=
  (nodup_append.mp h.nodup).2.1

variable [DecidableEq I] {g : TaskModules M I O}

def Merges (g : TaskModules M I O) (ig : I) (s : TaskState P I O) : Prop :=
  (s.nextGate.isSome = true ∨ g.mergeable ig = true) ∧ (s.igateBatch ig).isSome = true

instance (g : TaskModules M I O) (ig : I) (s : TaskState P I O) : Decidable (s.Merges g ig) :=
  inferInstanceAs (Decidable (_ ∧ _))

omit [DecidableEq I] in
theorem not_merges (h : s.igateBatch ig = none) : ¬ s.Merges g ig := by
  rintro ⟨-, hsome⟩
  rw [h] at hsome
  cases hsome

theorem addToRun_cases (g : TaskModules M I O) (ig : I) (b : BatchId) (s : TaskState P I O) :
    (¬ s.Merges g ig ∧ s.nextGate = none ∧
      s.addToRun g ig b = { s with nextGate := some (ig, b) }) ∨
    (s.addToRun g ig b = s.enqueue ig b) ∨
    (s.Merges g ig ∧ ∃ ibatch, s.igateBatch ig = some ibatch ∧
      (s.batch ibatch).length + (s.batch b).length ≤ kMaxBurst ∧
      s.addToRun g ig b =
        { s with batch := update s.batch ibatch (s.batch ibatch ++ s.batch b) }) := by
  unfold addToRun
  by_cases hchain : (s.nextGate.isNone && !g.mergeable ig) = true
  · rw [if_pos hchain]
    rw [and_eq_true, isNone_iff_eq_none, not_eq_true'] at hchain
    refine .inl ⟨?_, hchain.1, rfl⟩
    rintro ⟨hnext | hmerge, -⟩
    · rw [hchain.1] at hnext
      cases hnext
    · exact absurd (hchain.2.symm.trans hmerge) (by simp)
  · rw [if_neg hchain]
    cases hib : s.igateBatch ig with
    | none => exact .inr (.inl rfl)
    | some ibatch =>
      dsimp only
      split_ifs with hroom
      · refine .inr (.inr ⟨⟨?_, by rw [hib]; rfl⟩, ibatch, rfl, hroom, rfl⟩)
        cases hnext : s.nextGate with
        | some => exact .inl rfl
        | none => exact .inr (by simpa [hnext] using hchain)
      · exact .inr (.inl rfl)

theorem Flow.addToRun (h : s.Flow owned ((ig, b) :: held)) (g : TaskModules M I O) :
    (s.addToRun g ig b).Flow owned held := by
  rcases addToRun_cases g ig b s with ⟨-, hnext, heq⟩ | heq | ⟨-, ibatch, hib, hroom, heq⟩
  · rw [heq]
    apply h.wait
    · simp [carried, hnext]
    · exact h.queued
  · rw [heq]
    apply h.wait
    · exact perm_middle
    · intro ig' b' hb'
      by_cases hig : ig' = ig
      · subst hig
        rw [update_self, some.injEq] at hb'
        rw [hb']
        exact mem_cons_self
      · rw [update_of_ne hig] at hb'
        exact mem_cons_of_mem _ (h.queued ig' b' hb')
  · -- The packets go over to the batch that waits; the other is let go.
    rw [heq]
    have hmem : (ig, ibatch) ∈ s.carried ++ held :=
      mem_append_left _ (mem_append_right _ (h.queued ig ibatch hib))
    have hsub : (s.carried ++ held).Sublist (s.carried ++ (ig, b) :: held) :=
      (sublist_cons_self _ _).append_left s.carried
    have hids := (hsub.map Prod.snd).append_left owned
    refine ⟨h.nodup.sublist hids, fun b' hb' => h.taken b' (hids.subset hb'), h.queued,
      h.small_update ibatch (by rwa [length_append]), ?_, h.dead, h.deadSmall⟩
    · have hnodup := h.nodup_ids.sublist (hsub.map Prod.snd)
      change (s.emitted : Multiset (I × P)) = s.delivered +
        load (update s.batch ibatch (s.batch ibatch ++ s.batch b)) (s.carried ++ held)
      have hfirst : (s.carried ++ (ig, b) :: held).Perm ((ig, b) :: (s.carried ++ held)) :=
        perm_middle
      rw [load_put hnodup hmem, h.ledger, load_perm hfirst, load_cons,
        add_comm (load s.batch (s.carried ++ held))]

theorem addToRun_mem_carried (h : ¬ s.Merges g ig) : (ig, b) ∈ (s.addToRun g ig b).carried := by
  rcases addToRun_cases g ig b s with ⟨-, -, heq⟩ | heq | ⟨hmerges, -⟩
  · rw [heq]
    exact mem_cons_self
  · rw [heq]
    exact mem_append_right _ mem_cons_self
  · exact absurd hmerges h

theorem addToRun_keeps (g : TaskModules M I O) (ig : I) (b : BatchId) (s : TaskState P I O) :
    s.Keeps (s.addToRun g ig b) := by
  rcases addToRun_cases g ig b s with ⟨-, hnext, heq⟩ | heq | ⟨-, ibatch, -, -, heq⟩
  · refine heq ▸ ⟨rfl, rfl, rfl, fun e he => ?_⟩
    rw [carried, hnext] at he
    exact mem_cons_of_mem _ he
  · refine heq ▸ ⟨rfl, rfl, rfl, fun e he => ?_⟩
    rcases mem_append.mp he with he | he
    · exact mem_append_left _ he
    · exact mem_append_right _ (mem_cons_of_mem _ he)
  · exact heq ▸ ⟨rfl, rfl, rfl, fun _ he => he⟩

theorem addToRun_batch (h : ¬ s.Merges g ig) : (s.addToRun g ig b).batch = s.batch := by
  rcases addToRun_cases g ig b s with ⟨-, -, heq⟩ | heq | ⟨hmerges, -⟩
  · rw [heq]
  · rw [heq]
    rfl
  · exact absurd hmerges h

/-! ## Taking batches, adding and dropping packets -/

omit [DecidableEq I] in
theorem Flow.alloc {s' : TaskState P I O} (h : s.Flow owned held) (g : TaskModules M I O)
    (halloc : s.allocPacketBatch = some (b, s')) :
    s'.Flow (b :: owned) held ∧ s'.batch b = [] ∧ s.Keeps s' ∧
      ∀ ig, s'.Merges g ig ↔ s.Merges g ig := by
  unfold allocPacketBatch at halloc
  split_ifs at halloc
  cases halloc
  have hnew : (some s.pbatchIdx : BatchId) ∉ owned ++ (s.carried ++ held).map Prod.snd :=
    fun hmem => lt_irrefl _ (h.taken _ hmem)
  refine ⟨⟨nodup_cons.mpr ⟨hnew, h.nodup⟩, ?_, h.queued, h.small_update _ (Nat.zero_le _), ?_,
    h.dead, h.deadSmall⟩, update_self .., ⟨rfl, rfl, rfl, fun _ he => he⟩, fun _ => Iff.rfl⟩
  · intro b' hb'
    rcases mem_cons.mp hb' with rfl | hb'
    · exact Nat.lt_succ_self _
    · have htaken := h.taken b' hb'
      cases b' with
      | none => trivial
      | some => exact lt_succ_of_lt htaken
  · have hnotmem : (some s.pbatchIdx : BatchId) ∉ (s.carried ++ held).map Prod.snd :=
      fun hmem => hnew (mem_append_right _ hmem)
    exact h.ledger.trans (congrArg _ (load_update_of_not_mem hnotmem).symm)

omit [DecidableEq I] in
theorem perm_hold (owned : List BatchId) (held : List (I × BatchId)) (s : TaskState P I O) (ig : I)
    (b : BatchId) :
    (owned ++ (s.carried ++ (ig, b) :: held).map Prod.snd).Perm
      (b :: owned ++ (s.carried ++ held).map Prod.snd) := by
  have hmid : ((s.carried ++ (ig, b) :: held).map Prod.snd).Perm
      (b :: (s.carried ++ held).map Prod.snd) := perm_middle.map Prod.snd
  exact (hmid.append_left owned).trans perm_middle

omit [DecidableEq I] in
theorem Flow.hold (h : s.Flow (b :: owned) held) (hempty : s.batch b = []) (ig : I) :
    s.Flow owned ((ig, b) :: held) := by
  have hperm := perm_hold owned held s ig b
  refine ⟨hperm.symm.nodup h.nodup, fun b' hb' => h.taken b' (hperm.mem_iff.mp hb'), h.queued,
    h.small, ?_, h.dead, h.deadSmall⟩
  rw [load_perm (perm_middle : (s.carried ++ (ig, b) :: held).Perm _), load_cons, hempty,
    h.ledger]
  simp

omit [DecidableEq I] in
theorem Flow.put {pkt : P} (h : s.Flow owned held) (hmem : (ig, b) ∈ s.carried ++ held)
    (hroom : (s.batch b).length < kMaxBurst) : (s.put ig b pkt).Flow owned held := by
  refine ⟨h.nodup, h.taken, h.queued, h.small_update b (by rwa [length_append]), ?_, h.dead,
    h.deadSmall⟩
  change ((s.emitted ++ [(ig, pkt)] : List (I × P)) : Multiset (I × P)) = s.delivered +
    load (update s.batch b (s.batch b ++ [pkt])) (s.carried ++ held)
  rw [load_put h.nodup_ids hmem, ← Multiset.coe_add, h.ledger, add_assoc]
  rfl

omit [DecidableEq I] in
theorem Flow.dropPacket {pkt : P} (h : s.Flow owned held) : (s.dropPacket pkt).Flow owned held := by
  have hdead : ((s.dropped ++ [pkt] : List P) : Multiset P) =
      s.freed + (s.deadBatch ++ [pkt] : List P) := by
    rw [← Multiset.coe_add, ← Multiset.coe_add, h.dead, add_assoc]
  unfold TaskState.dropPacket
  dsimp only
  split_ifs with hfull
  · refine ⟨h.nodup, h.taken, h.queued, h.small, h.ledger, ?_, zero_lt_succ 63⟩
    rw [hdead, Multiset.coe_add]
    exact (add_zero _).symm
  · exact ⟨h.nodup, h.taken, h.queued, h.small, h.ledger, hdead, not_le.mp hfull⟩

omit [DecidableEq I] in
theorem dropPacket_keeps (pkt : P) (s : TaskState P I O) : s.Keeps (s.dropPacket pkt) := by
  unfold dropPacket
  dsimp only
  split_ifs <;> exact ⟨rfl, rfl, rfl, fun _ he => he⟩

theorem handOn_cases (g : TaskModules M I O) (m : M) (ogate : Nat) (b : BatchId) (pkts : List P)
    (s : TaskState P I O) :
    TaskRun.handOn g m ogate b pkts s = { s with batch := update s.batch b pkts } ∨
    TaskRun.handOn g m ogate b pkts s =
      { s with
        dropped := s.dropped ++ pkts
        freed := s.freed ++ pkts
        batch := update s.batch b [] } ∨
    ∃ ig, TaskRun.handOn g m ogate b pkts s =
      { s with
        batch := update s.batch b pkts
        emitted := s.emitted ++ pkts.map fun p => (ig, p) }.addToRun g ig b := by
  unfold TaskRun.handOn runChooseModule
  simp only [update_self]
  split_ifs with hempty
  · exact .inl rfl
  · cases g.ogates m ogate with
    | none =>
      refine .inr (.inl ?_)
      simp [deadend]
    | some o => exact .inr (.inr ⟨g.igate o, rfl⟩)

theorem Flow.handOn {m : M} {ogate : Nat} {pkts : List P} (h : s.Flow (b :: owned) held)
    (hpkts : pkts.length ≤ kMaxBurst) : (TaskRun.handOn g m ogate b pkts s).Flow owned held := by
  have hnot : b ∉ (s.carried ++ held).map Prod.snd := by
    intro hmem
    exact (nodup_cons.mp h.nodup).1 (mem_append_right _ hmem)
  have hnodup := (nodup_cons.mp h.nodup).2
  have htaken : ∀ b' ∈ owned ++ (s.carried ++ held).map Prod.snd, s.Taken b' :=
    fun b' hb' => h.taken b' (mem_cons_of_mem _ hb')
  have hfilled : ∀ pkts, (s.emitted : Multiset (I × P)) = s.delivered +
      load (update s.batch b pkts) (s.carried ++ held) := by
    intro pkts
    rw [load_update_of_not_mem hnot]
    exact h.ledger
  rcases handOn_cases g m ogate b pkts s with heq | heq | ⟨ig, heq⟩
  · rw [heq]
    exact ⟨hnodup, htaken, h.queued, h.small_update b hpkts, hfilled pkts, h.dead, h.deadSmall⟩
  · rw [heq]
    refine ⟨hnodup, htaken, h.queued, h.small_update b (Nat.zero_le _), hfilled [], ?_, h.deadSmall⟩
    dsimp only
    rw [← Multiset.coe_add, ← Multiset.coe_add, h.dead, add_assoc, add_assoc,
      add_comm (s.deadBatch : Multiset P)]
  · -- The packets count as emitted, and the batch as held until it is run.
    rw [heq]
    apply Flow.addToRun
    have hperm := perm_hold owned held s ig b
    refine ⟨hperm.symm.nodup h.nodup, fun b' hb' => h.taken b' (hperm.mem_iff.mp hb'), h.queued,
      h.small_update b hpkts, ?_, h.dead, h.deadSmall⟩
    change ((s.emitted ++ pkts.map fun p => (ig, p) : List (I × P)) : Multiset (I × P)) =
      s.delivered + load (update s.batch b pkts) (s.carried ++ (ig, b) :: held)
    rw [load_perm (perm_middle : (s.carried ++ (ig, b) :: held).Perm _), load_cons,
      update_self, ← Multiset.coe_add, hfilled pkts, add_assoc,
      add_comm (load (update s.batch b pkts) (s.carried ++ held))]

theorem handOn_keeps (g : TaskModules M I O) (m : M) (ogate : Nat) (b : BatchId) (pkts : List P)
    (s : TaskState P I O) : s.Keeps (TaskRun.handOn g m ogate b pkts s) := by
  rcases handOn_cases g m ogate b pkts s with heq | heq | ⟨ig, heq⟩
  · exact heq ▸ ⟨rfl, rfl, rfl, fun _ he => he⟩
  · exact heq ▸ ⟨rfl, rfl, rfl, fun _ he => he⟩
  · rw [heq]
    have hkeeps := addToRun_keeps g ig b
      { s with
        batch := update s.batch b pkts
        emitted := s.emitted ++ pkts.map fun p => (ig, p) }
    exact ⟨hkeeps.ogateBatch, hkeeps.gateWithHook, hkeeps.gateWithoutHook, hkeeps.carried⟩

/-! ## Output gates -/

def heldOf (g : TaskModules M I O) (f : O → Option BatchId) (os : List O) : List (I × BatchId) :=
  os.filterMap fun o => (f o).map fun b => (g.igate o, b)

/-- What output gates remember: those with hooks hold their batches, the others
know batches that wait. -/
structure Gates (g : TaskModules M I O) (s : TaskState P I O) : Prop where
  hook : ∀ o b, s.ogateBatch o = some b → g.hooks o = true → o ∈ s.gateWithHook
  plain : ∀ o b, s.ogateBatch o = some b → g.hooks o = false →
    (g.igate o, b) ∈ s.carried ∧ o ∈ s.gateWithoutHook
  hooked : ∀ o ∈ s.gateWithHook, g.hooks o = true ∧ (s.ogateBatch o).isSome = true
  nodup : s.gateWithHook.Nodup

structure Inv (g : TaskModules M I O) (s : TaskState P I O) (owned : List BatchId) : Prop where
  flow : s.Flow owned (heldOf g s.ogateBatch s.gateWithHook)
  gates : s.Gates g

/-- While none does: no output gate remembers a batch. -/
structure Quiet (s : TaskState P I O) : Prop where
  ogateBatch : ∀ o, s.ogateBatch o = none
  gateWithHook : s.gateWithHook = []
  gateWithoutHook : s.gateWithoutHook = []

omit [DecidableEq I] in
theorem Quiet.keeps {s' : TaskState P I O} (h : s.Quiet) (hkeeps : s.Keeps s') : s'.Quiet :=
  ⟨by rw [hkeeps.ogateBatch]; exact h.ogateBatch, hkeeps.gateWithHook.trans h.gateWithHook,
    hkeeps.gateWithoutHook.trans h.gateWithoutHook⟩

omit [DecidableEq I] in
theorem Inv.of_quiet (hflow : s.Flow owned []) (hquiet : s.Quiet) : s.Inv g owned := by
  refine ⟨?_, ⟨fun o b hb => ?_, fun o b hb => ?_, fun o ho => ?_, ?_⟩⟩
  · rw [hquiet.gateWithHook]
    exact hflow
  · exact absurd ((hquiet.ogateBatch o).symm.trans hb) (by simp)
  · exact absurd ((hquiet.ogateBatch o).symm.trans hb) (by simp)
  · rw [hquiet.gateWithHook] at ho
    exact absurd ho not_mem_nil
  · rw [hquiet.gateWithHook]
    exact nodup_nil

omit [DecidableEq I] in
theorem Inv.keeps {s' : TaskState P I O} {owned' : List BatchId} (h : s.Inv g owned)
    (hflow : s'.Flow owned' (heldOf g s.ogateBatch s.gateWithHook)) (hkeeps : s.Keeps s') :
    s'.Inv g owned' := by
  refine ⟨by rw [hkeeps.ogateBatch, hkeeps.gateWithHook]; exact hflow, ⟨?_, ?_, ?_, ?_⟩⟩
  · rw [hkeeps.ogateBatch, hkeeps.gateWithHook]
    exact h.gates.hook
  · rw [hkeeps.ogateBatch, hkeeps.gateWithoutHook]
    intro o b hb hhook
    exact (h.gates.plain o b hb hhook).imp_left (hkeeps.carried _)
  · rw [hkeeps.ogateBatch, hkeeps.gateWithHook]
    exact h.gates.hooked
  · rw [hkeeps.gateWithHook]
    exact h.gates.nodup

section Emit

variable [DecidableEq O] {o : O}

omit [DecidableEq I] in
theorem heldOf_update_of_not_mem {f : O → Option BatchId} {x : Option BatchId} {os : List O}
    (h : o ∉ os) : heldOf g (update f o x) os = heldOf g f os := by
  apply filterMap_congr
  intro o' ho'
  rw [update_of_ne]
  rintro rfl
  exact h ho'

omit [DecidableEq I] in
theorem heldOf_perm {f : O → Option BatchId} {os : List O} (ho : o ∈ os) (hb : f o = some b) :
    (heldOf g f os).Perm ((g.igate o, b) :: heldOf g f (os.erase o)) := by
  have hperm := (perm_cons_erase ho).filterMap fun o => (f o).map fun b => (g.igate o, b)
  rw [filterMap_cons, hb] at hperm
  exact hperm

omit [DecidableEq I] [DecidableEq O] in
theorem Inv.mem_of_ogateBatch (h : s.Inv g owned) (hb : s.ogateBatch o = some b) :
    (g.igate o, b) ∈ s.carried ++ heldOf g s.ogateBatch s.gateWithHook := by
  cases hhook : g.hooks o with
  | false => exact mem_append_left _ (h.gates.plain o b hb hhook).1
  | true =>
    apply mem_append_right
    exact mem_filterMap.mpr ⟨o, h.gates.hook o b hb hhook, by rw [hb]; rfl⟩

omit [DecidableEq I] in
theorem Inv.holdGate {s' : TaskState P I O} {os : List O} (h : s.Inv g owned)
    (hhook : g.hooks o = true) (hos : os.Perm (o :: s.gateWithHook.erase o))
    (hflow : s'.Flow owned ((g.igate o, b) :: heldOf g s.ogateBatch (s.gateWithHook.erase o)))
    (hkeeps : s.Keeps s') :
    Inv g { s' with ogateBatch := update s'.ogateBatch o (some b), gateWithHook := os }
      owned := by
  have hnot : o ∉ s.gateWithHook.erase o := fun hmem =>
    absurd ((h.gates.nodup.mem_erase_iff).mp hmem).1 (by simp)
  refine ⟨?_, ⟨?_, ?_, ?_, ?_⟩⟩
  · apply (hflow.gates _ os s'.gateWithoutHook).perm
    dsimp only
    rw [hkeeps.ogateBatch]
    have hnew := hos.symm.filterMap fun o' =>
      (update s.ogateBatch o (some b) o').map fun b => (g.igate o', b)
    rw [filterMap_cons, update_self] at hnew
    have hrest := @heldOf_update_of_not_mem _ _ _ g _ _ s.ogateBatch (some b) _ hnot
    rw [← hrest]
    exact hnew
  · intro o' b' hb' hhook'
    dsimp only at hb' ⊢
    rw [hos.mem_iff]
    by_cases ho' : o' = o
    · rw [ho']
      exact mem_cons_self
    · rw [update_of_ne ho', hkeeps.ogateBatch] at hb'
      exact mem_cons_of_mem _
        ((mem_erase_of_ne ho').mpr (h.gates.hook o' b' hb' hhook'))
  · intro o' b' hb' hhook'
    dsimp only at hb' ⊢
    by_cases ho' : o' = o
    · subst ho'
      exact absurd (hhook'.symm.trans hhook) (by simp)
    · rw [update_of_ne ho', hkeeps.ogateBatch] at hb'
      rw [hkeeps.gateWithoutHook]
      exact (h.gates.plain o' b' hb' hhook').imp_left (hkeeps.carried _)
  · intro o' ho'
    dsimp only at ho' ⊢
    rcases mem_cons.mp (hos.mem_iff.mp ho') with rfl | hmem
    · exact ⟨hhook, by rw [update_self]; rfl⟩
    · have hhooked := h.gates.hooked o' (mem_of_mem_erase hmem)
      have hne : o' ≠ o := by
        rintro rfl
        exact hnot hmem
      refine ⟨hhooked.1, ?_⟩
      rw [update_of_ne hne, hkeeps.ogateBatch]
      exact hhooked.2
  · exact hos.symm.nodup (nodup_cons.mpr ⟨hnot, h.gates.nodup.erase o⟩)

omit [DecidableEq I] in
theorem Inv.knowBatch {s' : TaskState P I O} {os : List O} (h : s.Inv g owned)
    (hhook : g.hooks o = false)
    (hflow : s'.Flow owned (heldOf g s.ogateBatch s.gateWithHook)) (hkeeps : s.Keeps s')
    (hos : ∀ o' ∈ s.gateWithoutHook, o' ∈ os) (ho : o ∈ os) (hmem : (g.igate o, b) ∈ s'.carried) :
    Inv g { s' with ogateBatch := update s'.ogateBatch o (some b), gateWithoutHook := os }
      owned := by
  have hbatch := hkeeps.ogateBatch
  have hwith := hkeeps.gateWithHook
  have hnot : o ∉ s.gateWithHook := fun hmem =>
    absurd (hhook.symm.trans (h.gates.hooked o hmem).1) (by simp)
  refine ⟨?_, ⟨?_, ?_, ?_, ?_⟩⟩
  · dsimp only
    rw [hwith, hbatch, heldOf_update_of_not_mem hnot]
    have hgates := hflow.gates (update s.ogateBatch o (some b)) s.gateWithHook os
    rwa [← hbatch, ← hwith] at hgates ⊢
  · intro o' b' hb' hhook'
    dsimp only at hb' ⊢
    by_cases ho' : o' = o
    · subst ho'
      exact absurd (hhook.symm.trans hhook') (by simp)
    · rw [update_of_ne ho', hbatch] at hb'
      rw [hwith]
      exact h.gates.hook o' b' hb' hhook'
  · intro o' b' hb' hhook'
    dsimp only at hb' ⊢
    by_cases ho' : o' = o
    · subst ho'
      rw [update_self, some.injEq] at hb'
      exact ⟨hb' ▸ hmem, ho⟩
    · rw [update_of_ne ho', hbatch] at hb'
      exact (h.gates.plain o' b' hb' hhook').imp (hkeeps.carried _) (hos o')
  · intro o' ho'
    dsimp only at ho' ⊢
    rw [hwith] at ho'
    have hhooked := h.gates.hooked o' ho'
    have hne : o' ≠ o := by
      rintro rfl
      exact hnot ho'
    refine ⟨hhooked.1, ?_⟩
    rw [update_of_ne hne, hbatch]
    exact hhooked.2
  · dsimp only
    rw [hwith]
    exact h.gates.nodup

theorem Inv.gateBatchFor {s' : TaskState P I O} (h : s.Inv g owned)
    (hgate : s.gateBatchFor g o = some (b, s')) :
    s'.Inv g owned ∧ s'.ogateBatch o = some b := by
  unfold TaskState.gateBatchFor at hgate
  cases hbatch : s.ogateBatch o with
  | some =>
    rw [hbatch] at hgate
    cases hgate
    exact ⟨h, hbatch⟩
  | none =>
    rw [hbatch] at hgate
    dsimp only at hgate
    -- The gate is not among those the module has emitted on.
    have hnot : o ∉ s.gateWithHook := by
      intro hmem
      have hsome := (h.gates.hooked o hmem).2
      rw [hbatch] at hsome
      cases hsome
    cases hhook : g.hooks o with
    | true =>
      rw [hhook, if_pos rfl] at hgate
      split_ifs at hgate
      rcases map_eq_some_iff.mp hgate with ⟨⟨b₁, s₁⟩, halloc, heq⟩
      cases heq
      rcases h.flow.alloc g halloc with ⟨hflow, hempty, hkeeps, -⟩
      have herase : s.gateWithHook.erase o = s.gateWithHook := erase_of_not_mem hnot
      refine ⟨h.holdGate hhook ?_ ?_ hkeeps, update_self ..⟩
      · rw [hkeeps.gateWithHook, herase]
        exact (perm_append_singleton o s.gateWithHook)
      · rw [herase]
        exact hflow.hold hempty (g.igate o)
    | false =>
      rw [hhook, if_neg (by simp)] at hgate
      split_ifs at hgate
      cases hig : s.igateBatch (g.igate o) with
      | some =>
        rw [hig] at hgate
        cases hgate
        refine ⟨h.knowBatch hhook h.flow ⟨rfl, rfl, rfl, fun _ he => he⟩ ?_ ?_ ?_, update_self ..⟩
        · exact fun o' ho' => mem_append_left _ ho'
        · exact mem_append_right _ mem_cons_self
        · exact mem_append_right _ (h.flow.queued _ _ hig)
      | none =>
        rw [hig] at hgate
        rcases map_eq_some_iff.mp hgate with ⟨⟨b₁, s₁⟩, halloc, heq⟩
        cases heq
        rcases h.flow.alloc g halloc with ⟨hflow, hempty, hkeeps, hmerges⟩
        have hrun := hkeeps.trans (addToRun_keeps g (g.igate o) b₁ s₁)
        refine ⟨h.knowBatch hhook ((hflow.hold hempty (g.igate o)).addToRun g) hrun ?_ ?_ ?_,
          update_self ..⟩
        · intro o' ho'
          rw [hrun.gateWithoutHook]
          exact mem_append_left _ ho'
        · exact mem_append_right _ mem_cons_self
        · exact addToRun_mem_carried ((hmerges _).not.mpr (not_merges hig))

/-- Where the batch of an output gate without hooks is full, it was full before, and
nothing else has changed that decides what becomes of a new one. -/
theorem gateBatchFor_full {s' : TaskState P I O} (h : s.Inv g owned) (hhook : g.hooks o = false)
    (hgate : s.gateBatchFor g o = some (b, s')) (hfull : kMaxBurst ≤ (s'.batch b).length) :
    (s.ogateBatch o <|> s.igateBatch (g.igate o)) = some b ∧
      kMaxBurst ≤ (s.batch b).length ∧ (s'.Merges g (g.igate o) ↔ s.Merges g (g.igate o)) := by
  unfold TaskState.gateBatchFor at hgate
  cases hbatch : s.ogateBatch o with
  | some =>
    rw [hbatch] at hgate
    cases hgate
    exact ⟨rfl, hfull, Iff.rfl⟩
  | none =>
    rw [hbatch, hhook] at hgate
    dsimp only at hgate
    rw [if_neg (by simp)] at hgate
    split_ifs at hgate
    cases hig : s.igateBatch (g.igate o) with
    | some =>
      rw [hig] at hgate
      cases hgate
      exact ⟨rfl, hfull, Iff.rfl⟩
    | none =>
      -- A new batch is empty.
      rw [hig] at hgate
      rcases map_eq_some_iff.mp hgate with ⟨⟨b₁, s₁⟩, halloc, heq⟩
      cases heq
      rcases h.flow.alloc g halloc with ⟨-, hempty, -, hmerges⟩
      dsimp only at hfull
      rw [addToRun_batch ((hmerges _).not.mpr (not_merges hig)), hempty] at hfull
      exact absurd hfull (by simp [kMaxBurst])

/-- A new batch for an output gate, unless it would be merged away. -/
theorem Inv.overflow {s' : TaskState P I O} {b' : BatchId} (h : s.Inv g owned)
    (hbatch : s.ogateBatch o = some b) (hkept : g.hooks o = false → ¬ s.Merges g (g.igate o))
    (hover : s.overflow g o b = some (b', s')) :
    s'.Inv g owned ∧ s'.ogateBatch o = some b' ∧ s'.batch b' = [] := by
  unfold TaskState.overflow at hover
  cases hhook : g.hooks o with
  | true =>
    rw [hhook, if_pos rfl] at hover
    rcases map_eq_some_iff.mp hover with ⟨⟨b₁, s₁⟩, halloc, heq⟩
    cases heq
    have hmem := h.gates.hook o b hbatch hhook
    -- The full batch goes from the gate to those that wait, a new one comes.
    have hrun := (h.flow.perm (heldOf_perm hmem hbatch)).addToRun g
    rcases hrun.alloc g halloc with ⟨hflow, hempty, hkeeps, -⟩
    replace hkeeps := (addToRun_keeps g (g.igate o) b s).trans hkeeps
    have hos : s₁.gateWithHook.Perm (o :: s.gateWithHook.erase o) := by
      rw [hkeeps.gateWithHook]
      exact perm_cons_erase hmem
    exact ⟨h.holdGate hhook hos (hflow.hold hempty (g.igate o)) hkeeps, update_self .., hempty⟩
  | false =>
    rw [hhook, if_neg (by simp)] at hover
    rcases map_eq_some_iff.mp hover with ⟨⟨b₁, s₁⟩, halloc, heq⟩
    cases heq
    rcases h.flow.alloc g halloc with ⟨hflow, hempty, hkeeps, hmerges⟩
    replace hmerges := (hmerges _).not.mpr (hkept hhook)
    have hrun := addToRun_keeps g (g.igate o) b' s₁
    -- It makes no difference whether the gate learns of the batch before or after.
    have hswap : TaskState.addToRun g (g.igate o) b'
        { s₁ with ogateBatch := update s₁.ogateBatch o (some b') } =
        { s₁.addToRun g (g.igate o) b' with
          ogateBatch := update (s₁.addToRun g (g.igate o) b').ogateBatch o (some b')
          gateWithoutHook := s.gateWithoutHook } := by
      rw [hrun.ogateBatch, ← hkeeps.gateWithoutHook]
      unfold TaskState.addToRun TaskState.enqueue
      dsimp only
      split_ifs with hchain
      · rfl
      · split
        · split_ifs <;> rfl
        · rfl
    rw [hswap]
    refine ⟨h.knowBatch hhook ((hflow.hold hempty (g.igate o)).addToRun g) (hkeeps.trans hrun)
      (fun o' ho' => ho') (h.gates.plain o b hbatch hhook).2 (addToRun_mem_carried hmerges),
      update_self .., ?_⟩
    dsimp only
    rw [addToRun_batch hmerges, hempty]

/-- An output gate without hooks has its full batch replaced by an empty one that is
merged away. -/
def Overflows (g : TaskModules M I O) (m : M) (ogate : Nat) (s : TaskState P I O) : Prop :=
  ∃ o b, g.ogates m ogate = some o ∧ g.hooks o = false ∧
    (s.ogateBatch o <|> s.igateBatch (g.igate o)) = some b ∧
    kMaxBurst ≤ (s.batch b).length ∧ s.Merges g (g.igate o)

instance (g : TaskModules M I O) (m : M) (ogate : Nat) (s : TaskState P I O) :
    Decidable (s.Overflows g m ogate) :=
  match ho : g.ogates m ogate with
  | none => .isFalse fun ⟨_, _, h, _⟩ => nomatch ho.symm.trans h
  | some o =>
    match hb : (s.ogateBatch o <|> s.igateBatch (g.igate o)) with
    | none => .isFalse fun ⟨_, _, h, _, h', _⟩ => by
      cases ho.symm.trans h
      exact nomatch hb.symm.trans h'
    | some b =>
      decidable_of_iff (g.hooks o = false ∧ kMaxBurst ≤ (s.batch b).length ∧
        s.Merges g (g.igate o)) ⟨fun ⟨hh, hl, hm⟩ => ⟨o, b, ho, hh, hb, hl, hm⟩, by
          rintro ⟨o', b', h, hh, h', hl, hm⟩
          cases ho.symm.trans h
          cases hb.symm.trans h'
          exact ⟨hh, hl, hm⟩⟩

/-- Emitting a packet adds one to those that wait or are held, or to the dead ones. -/
theorem Inv.emitPacket {s' : TaskState P I O} {m : M} {pkt : P} {ogate : Nat} (h : s.Inv g owned)
    (hkept : ¬ s.Overflows g m ogate) (hemit : s.emitPacket g m pkt ogate = some s') :
    s'.Inv g owned := by
  unfold TaskState.emitPacket at hemit
  cases hogate : g.ogates m ogate with
  | none =>
    rw [hogate] at hemit
    cases hemit
    exact h.keeps h.flow.dropPacket (dropPacket_keeps pkt s)
  | some o =>
    rw [hogate] at hemit
    rcases bind_eq_some_iff.mp hemit with ⟨⟨b₁, s₁⟩, hgate, hemit⟩
    rcases h.gateBatchFor hgate with ⟨hinv₁, hb₁⟩
    -- Once there is room the packet goes in.
    have hput : ∀ (b₂ : BatchId) (s₂ : TaskState P I O), s₂.Inv g owned →
        s₂.ogateBatch o = some b₂ → (s₂.batch b₂).length < kMaxBurst →
        (s₂.put (g.igate o) b₂ pkt).Inv g owned := by
      intro b₂ s₂ hinv₂ hb₂ hlen
      exact ⟨hinv₂.flow.put (hinv₂.mem_of_ogateBatch hb₂) hlen,
        ⟨hinv₂.gates.hook, hinv₂.gates.plain, hinv₂.gates.hooked, hinv₂.gates.nodup⟩⟩
    dsimp only at hemit
    split_ifs at hemit with hfull
    · have hnot : g.hooks o = false → ¬ s₁.Merges g (g.igate o) := by
        intro hhook hmerges
        rcases gateBatchFor_full h hhook hgate hfull with ⟨hb, hlen, hiff⟩
        exact hkept ⟨o, b₁, hogate, hhook, hb, hlen, hiff.mp hmerges⟩
      rcases bind_eq_some_iff.mp hemit with ⟨⟨b₂, s₂⟩, hover, hemit⟩
      cases hemit
      rcases hinv₁.overflow hb₁ hnot hover with ⟨hinv₂, hb₂, hempty⟩
      refine hput b₂ s₂ hinv₂ hb₂ ?_
      rw [hempty]
      exact zero_lt_succ 63
    · cases hemit
      exact hput b₁ s₁ hinv₁ hb₁ (not_le.mp hfull)

/-! ## After a module -/

theorem Flow.flushHooks {os : List O} (h : s.Flow owned (heldOf g s.ogateBatch os))
    (hnodup : os.Nodup) :
    (flushHooks g os s).Flow owned [] ∧
      ∀ o, (flushHooks g os s).ogateBatch o = if o ∈ os then none else s.ogateBatch o := by
  induction os generalizing s with
  | nil => exact ⟨h, fun o => rfl⟩
  | cons o os ih =>
    rw [nodup_cons] at hnodup
    unfold TaskState.flushHooks
    -- The state once the batch of this gate is handed on.
    have hstep : ∀ s₁ : TaskState P I O, s₁.Flow owned (heldOf g s.ogateBatch os) →
        s₁.ogateBatch = s.ogateBatch →
        (TaskState.flushHooks g os
          { s₁ with ogateBatch := update s₁.ogateBatch o none }).Flow owned [] ∧
        ∀ o', (TaskState.flushHooks g os
          { s₁ with ogateBatch := update s₁.ogateBatch o none }).ogateBatch o' =
            if o' ∈ o :: os then none else s.ogateBatch o' := by
      intro s₁ hflow hogate
      have hnext : Flow { s₁ with ogateBatch := update s₁.ogateBatch o none } owned
          (heldOf g (update s₁.ogateBatch o none) os) := by
        rw [hogate, heldOf_update_of_not_mem hnodup.1]
        exact hflow.gates _ s₁.gateWithHook s₁.gateWithoutHook
      rcases ih hnext hnodup.2 with ⟨hdone, hbatches⟩
      refine ⟨hdone, fun o' => ?_⟩
      rw [hbatches o']
      dsimp only
      by_cases ho' : o' = o
      · simp [ho']
      · rw [update_of_ne ho', hogate]
        simp [ho']
    dsimp only
    cases hb : s.ogateBatch o with
    | none =>
      dsimp only
      apply hstep s _ rfl
      rwa [heldOf, filterMap_cons, hb] at h
    | some b =>
      dsimp only
      apply hstep _ _ (addToRun_keeps g (g.igate o) b s).ogateBatch
      apply Flow.addToRun
      rwa [heldOf, filterMap_cons, hb] at h

theorem Inv.processOGates (h : s.Inv g owned) :
    (s.processOGates g).Flow owned [] ∧ (s.processOGates g).Quiet := by
  rcases h.flow.flushHooks h.gates.nodup with ⟨hflow, hbatches⟩
  refine ⟨hflow.gates _ _ _, ⟨fun o => ?_, rfl, rfl⟩⟩
  change (if o ∈ s.gateWithoutHook then none
    else (TaskState.flushHooks g s.gateWithHook s).ogateBatch o) = none
  split_ifs with hwithout
  · rfl
  · rw [hbatches o]
    split_ifs with hwith
    · rfl
    · cases hb : s.ogateBatch o with
      | none => rfl
      | some b =>
        cases hhook : g.hooks o with
        | true => exact absurd (h.gates.hook o b hb hhook) hwith
        | false => exact absurd (h.gates.plain o b hb hhook).2 hwithout

end Emit

end TaskState

/-! ## Runs -/

namespace TaskRun

variable {M I O P : Type} [DecidableEq I] [DecidableEq O] {g : TaskModules M I O}

def Loses (g : TaskModules M I O) (r : TaskRun M I O P) : TaskAction I P → Prop
  | .call (.emit _ ogate) =>
    match r.phase with
    | .processing m _ => r.state.Overflows g m ogate
    | _ => False
  | _ => False

instance (g : TaskModules M I O) (r : TaskRun M I O P) : ∀ a, Decidable (r.Loses g a)
  | .call (.emit _ ogate) =>
    match h : r.phase with
    | .processing m _ =>
      decidable_of_iff (r.state.Overflows g m ogate) (by unfold Loses; rw [h])
    | .task _ _ => .isFalse (by unfold Loses; rw [h]; exact id)
    | .idle => .isFalse (by unfold Loses; rw [h]; exact id)
    | .ended => .isFalse (by unfold Loses; rw [h]; exact id)
  | .call (.drop _) => .isFalse id
  | .call (.pass _ _) => .isFalse id
  | .call (.send _ _) => .isFalse id
  | .finish => .isFalse id
  | .pick _ => .isFalse id
  | .stop => .isFalse id

def RunKeeps (g : TaskModules M I O) : List (TaskAction I P) → TaskRun M I O P → Prop
  | [], _ => True
  | a :: actions, r =>
    ¬ r.Loses g a ∧
      match act g a r with
      | none => True
      | some r' => RunKeeps g actions r'

instance decidableRunKeeps (g : TaskModules M I O) :
    ∀ (actions : List (TaskAction I P)) (r : TaskRun M I O P), Decidable (RunKeeps g actions r)
  | [], _ => .isTrue trivial
  | a :: actions, r =>
    match h : act g a r with
    | none => decidable_of_iff (¬ r.Loses g a) (by simp [RunKeeps, h])
    | some r' =>
      have := decidableRunKeeps g actions r'
      decidable_of_iff (¬ r.Loses g a ∧ RunKeeps g actions r') (by simp [RunKeeps, h])

def RunInv (g : TaskModules M I O) (r : TaskRun M I O P) : Prop :=
  match r.phase with
  | .task _ received => r.state.Flow received.toList [] ∧ r.state.Quiet
  | .idle => r.state.Flow [] [] ∧ r.state.Quiet
  | .processing _ received => r.state.Inv g received.toList
  | .ended =>
    r.state.delivered.Perm r.state.emitted ∧ r.state.freed.Perm r.state.dropped ∧
      ∀ b, (r.state.batch b).length ≤ kMaxBurst

theorem dispose_flow {m : M} {received received' : Option BatchId} {s s' : TaskState P I O}
    {c : Call P} {held : List (I × BatchId)} (h : s.Flow received.toList held)
    (hemit : Call.isEmit c = false) (hcall : dispose g m received s c = some (s', received')) :
    s'.Flow received'.toList held ∧ s.Keeps s' := by
  cases c with
  | emit => exact absurd hemit (by simp [Call.isEmit])
  | drop pkt =>
    cases hcall
    exact ⟨h.dropPacket, TaskState.dropPacket_keeps pkt s⟩
  | pass ogate pkts =>
    dsimp only [dispose] at hcall
    split_ifs at hcall with hlen
    rcases map_eq_some_iff.mp hcall with ⟨b, hb, heq⟩
    cases heq
    rw [hb] at h
    exact ⟨h.handOn hlen, TaskState.handOn_keeps g m ogate b pkts s⟩
  | send ogate pkts =>
    dsimp only [dispose] at hcall
    split_ifs at hcall with hlen
    rcases map_eq_some_iff.mp hcall with ⟨⟨b, s₁⟩, halloc, heq⟩
    cases heq
    rcases h.alloc g halloc with ⟨hflow, -, hkeeps, -⟩
    exact ⟨hflow.handOn hlen, hkeeps.trans (TaskState.handOn_keeps g m ogate b pkts s₁)⟩

omit [DecidableEq O] in
theorem take_flow {s s' : TaskState P I O} {e : I × BatchId} (h : s.Flow [] [])
    (htake : take g e s = some s') :
    (deliver e s').Flow [e.2] [] ∧ (s.Quiet → (deliver e s').Quiet) := by
  -- Whichever place it was in, the others keep theirs.
  have hdeliver : ∀ s' : TaskState P I O, s.carried.Perm (e :: s'.carried) →
      s'.batch = s.batch → s'.pbatchIdx = s.pbatchIdx → s'.emitted = s.emitted →
      s'.delivered = s.delivered → s'.dropped = s.dropped → s'.freed = s.freed →
      s'.deadBatch = s.deadBatch →
      (∀ ig b, s'.igateBatch ig = some b → (ig, b) ∈ s'.igatesToRun) →
      (deliver e s').Flow [e.2] [] := by
    intro s' hperm hbatch hidx hemitted hdelivered hdropped hfreed hdead hqueued
    have hids : ((s.carried ++ []).map Prod.snd).Perm
        ([e.2] ++ (s'.carried ++ []).map Prod.snd) := by
      simpa using hperm.map Prod.snd
    refine ⟨hids.nodup h.nodup, ?_, hqueued, ?_, ?_, ?_, ?_⟩
    · intro b hb
      have htaken := h.taken b (hids.mem_iff.mpr hb)
      cases b with
      | none => trivial
      | some n =>
        change n < s'.pbatchIdx
        rw [hidx]
        exact htaken
    · change ∀ b, (s'.batch b).length ≤ kMaxBurst
      rw [hbatch]
      exact h.small
    · change (s'.emitted : Multiset (I × P)) =
        ((s'.delivered ++ (s'.batch e.2).map fun p => (e.1, p) : List (I × P)) :
          Multiset (I × P)) + load s'.batch (s'.carried ++ [])
      rw [hemitted, hdelivered, hbatch, h.ledger, ← Multiset.coe_add, add_assoc, append_nil,
        append_nil, load_perm hperm, load_cons]
    · change (s'.dropped : Multiset P) = s'.freed + s'.deadBatch
      rw [hdropped, hfreed, hdead]
      exact h.dead
    · change s'.deadBatch.length < kMaxBurst
      rw [hdead]
      exact h.deadSmall
  unfold take at htake
  cases hnext : s.nextGate with
  | some =>
    rw [hnext] at htake
    dsimp only at htake
    split_ifs at htake with heq
    cases htake
    refine ⟨hdeliver _ ?_ rfl rfl rfl rfl rfl rfl rfl h.queued, fun h => ⟨h.1, h.2, h.3⟩⟩
    rw [TaskState.carried, hnext, heq]
    exact List.Perm.refl _
  | none =>
    rw [hnext] at htake
    dsimp only at htake
    split_ifs at htake with hmem
    cases htake
    refine ⟨hdeliver _ ?_ rfl rfl rfl rfl rfl rfl rfl ?_, fun h => ⟨h.1, h.2, h.3⟩⟩
    · rw [TaskState.carried, hnext]
      exact perm_cons_erase hmem.1
    · intro ig b hb
      dsimp only at hb ⊢
      have hne : ig ≠ e.1 := by
        rintro rfl
        rw [update_self] at hb
        cases hb
      rw [update_of_ne hne] at hb
      refine (mem_erase_of_ne ?_).mpr (h.queued ig b hb)
      rintro rfl
      exact hne rfl

theorem RunInv.act {r r' : TaskRun M I O P} {a : TaskAction I P} (h : RunInv g r)
    (hkeeps : ¬ r.Loses g a) (hact : act g a r = some r') : RunInv g r' := by
  rcases r with ⟨s, phase⟩
  cases a with
  | call c =>
    cases phase with
    | task =>
      dsimp only [TaskRun.act] at hact
      split_ifs at hact with hemit
      rcases map_eq_some_iff.mp hact with ⟨⟨s₁, received₁⟩, hcall, heq⟩
      cases heq
      rcases h with ⟨hflow, hquiet⟩
      rcases dispose_flow hflow (by simpa using hemit) hcall with ⟨hflow₁, hkeeps⟩
      exact ⟨hflow₁, hquiet.keeps hkeeps⟩
    | processing m received =>
      rcases map_eq_some_iff.mp hact with ⟨⟨s₁, received₁⟩, hcall, heq⟩
      cases heq
      cases hemit : Call.isEmit c with
      | true =>
        cases c with
        | emit =>
          rcases map_eq_some_iff.mp hcall with ⟨s₂, hs₂, heq⟩
          cases heq
          exact TaskState.Inv.emitPacket h hkeeps hs₂
        | _ => exact absurd hemit (by simp [Call.isEmit])
      | false =>
        have hinv : s.Inv g received.toList := h
        rcases dispose_flow hinv.flow hemit hcall with ⟨hflow₁, hkeeps⟩
        exact hinv.keeps hflow₁ hkeeps
    | _ => cases hact
  | finish =>
    cases phase with
    | task =>
      cases hact
      rcases h with ⟨hflow, hquiet⟩
      exact ⟨hflow.release, hquiet⟩
    | processing =>
      cases hact
      rcases TaskState.Inv.processOGates h with ⟨hflow, hquiet⟩
      exact ⟨hflow.release, hquiet⟩
    | _ => cases hact
  | pick =>
    cases phase with
    | idle =>
      rcases map_eq_some_iff.mp hact with ⟨s₁, htake, heq⟩
      cases heq
      rcases h with ⟨hflow, hquiet⟩
      rcases take_flow hflow htake with ⟨hflow₁, hkept⟩
      exact TaskState.Inv.of_quiet hflow₁ (hkept hquiet)
    | _ => cases hact
  | stop =>
    cases phase with
    | idle =>
      dsimp only [TaskRun.act] at hact
      split_ifs at hact with hdone
      cases hact
      rcases h with ⟨hflow, -⟩
      rw [and_eq_true, isNone_iff_eq_none, List.isEmpty_iff] at hdone
      refine ⟨?_, ?_, hflow.small⟩
      · have hledger := hflow.ledger
        rw [TaskState.carried, hdone.1, hdone.2] at hledger
        exact (Multiset.coe_eq_coe.mp (hledger.trans (add_zero _))).symm
      · have hdead := hflow.dead
        rw [Multiset.coe_add] at hdead
        exact (Multiset.coe_eq_coe.mp hdead).symm
    | _ => cases hact

omit [DecidableEq I] [DecidableEq O] in
theorem RunInv.start (m : M) {pkts : List P} (h : pkts.length ≤ kMaxBurst) :
    RunInv g (start m pkts : TaskRun M I O P) := by
  refine ⟨⟨?_, ?_, ?_, ?_, rfl, rfl, zero_lt_succ 63⟩, ⟨fun _ => rfl, rfl, rfl⟩⟩
  · exact nodup_singleton _
  · intro b hb
    rw [mem_singleton.mp hb]
    trivial
  · intro ig b hb
    cases hb
  · intro b
    change (update (fun _ => []) none pkts b).length ≤ kMaxBurst
    by_cases hb : b = none
    · rw [hb, update_self]
      exact h
    · rw [update_of_ne hb]
      exact Nat.zero_le _

theorem RunInv.run {actions : List (TaskAction I P)} {r r' : TaskRun M I O P} (h : RunInv g r)
    (hkeeps : RunKeeps g actions r) (hrun : runAll (TaskRun.act g) actions r = some r') :
    RunInv g r' := by
  induction actions generalizing r with
  | nil =>
    cases hrun
    exact h
  | cons a actions ih =>
    rcases bind_eq_some_iff.mp hrun with ⟨r₁, hact, hrest⟩
    rcases hkeeps with ⟨hkeep, hkeeps⟩
    rw [hact] at hkeeps
    exact ih (h.act hkeep hact) hkeeps hrest

omit [DecidableEq I] [DecidableEq O] in
theorem RunInv.small {r : TaskRun M I O P} (h : RunInv g r) (b : BatchId) :
    (r.state.batch b).length ≤ kMaxBurst := by
  rcases r with ⟨s, phase⟩
  cases phase with
  | task => exact h.1.small b
  | idle => exact h.1.small b
  | processing => exact TaskState.Flow.small (TaskState.Inv.flow h) b
  | ended => exact h.2.2 b

/-- Packets are conserved: whatever the modules do, as long as no gate overflows as
above, no batch is ever too full, and once the task ends every packet emitted on a
connected gate was delivered to the module behind it, and every other one freed, as
often as it was emitted or dropped. -/
theorem conserved (g : TaskModules M I O) (m : M) (pkts : List P)
    (hpkts : pkts.length ≤ kMaxBurst) (actions : List (TaskAction I P)) (r : TaskRun M I O P)
    (hrun : runAll (act g) actions (start m pkts) = some r)
    (hkeeps : RunKeeps g actions (start m pkts)) :
    (∀ b, (r.state.batch b).length ≤ kMaxBurst) ∧
      (r.phase = .ended →
        r.state.delivered.Perm r.state.emitted ∧ r.state.freed.Perm r.state.dropped) := by
  have hinv : RunInv g r := (RunInv.start m hpkts).run hkeeps hrun
  refine ⟨hinv.small, fun hended => ?_⟩
  unfold RunInv at hinv
  rw [hended] at hinv
  exact ⟨hinv.1, hinv.2.1⟩

end TaskRun

/-! ## Two modules -/

/-- Module 0 hands on to module 1, which emits to module 2 by gate 0 and by gate 1;
gate 2 is not connected. -/
def twoGates (hooks mergeable : Bool) : TaskModules Nat Nat Nat where
  ogates m ogate :=
    match m, ogate with
    | 0, 0 => some 0
    | 1, 0 => some 1
    | 1, 1 => some 2
    | _, _ => none
  igate o := if o = 0 then 0 else 1
  hooks o := hooks && o == 2
  mergeable ig := mergeable && ig == 1
  priority ig := ig
  module ig := ig + 1

namespace TaskRun

/-- Module 1 receives four packets, emits three by its two gates and one by the gate
that is not connected. -/
def emitting : List (TaskAction Nat Nat) :=
  [.call (.pass 0 [1, 2, 3, 4]), .finish, .pick (0, none), .call (.emit 1 0), .call (.emit 2 1),
    .call (.emit 3 0), .call (.emit 4 2), .finish, .pick (1, some 0), .finish, .stop]

theorem conserved_emitting :
    ∃ r, runAll (act (twoGates true true)) emitting (start 0 [1, 2, 3, 4]) = some r ∧
      r.phase = .ended ∧ r.state.emitted.length = 7 ∧
      r.state.delivered.Perm r.state.emitted ∧ r.state.freed.Perm r.state.dropped :=
  ⟨_, rfl, rfl, rfl,
    (conserved (twoGates true true) 0 [1, 2, 3, 4] (by decide) emitting _ rfl (by decide)).2 rfl⟩

/-- Module 1 receives a full batch, and emits each packet and a copy by a gate without
hooks. -/
def emittingCopy : List (TaskAction Nat Nat) :=
  [.call (.pass 0 (List.range 64)), .finish, .pick (0, none)] ++
    ((List.range 65).map fun i => .call (.emit i 0)) ++
    [.finish, .pick (1, some 0), .finish, .stop]

/-- The copy is lost: the batch it was put into is in no place. -/
theorem copy_is_lost :
    ∃ r, runAll (act (twoGates false true)) emittingCopy (start 0 (List.range 64)) = some r ∧
      r.phase = .ended ∧ (1, 64) ∈ r.state.emitted ∧ (1, 64) ∉ r.state.delivered := by
  refine ⟨_, rfl, rfl, ?_⟩
  decide +kernel

end TaskRun

end Upf.Bess
