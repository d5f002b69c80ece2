import Upf.Session.Leases

/-!
# Runs of many associations

The steps of `Leases`, taken by any number of associations in any order,
from a start in which nothing is stored or leased.

Main result: `handed_out_clear`.
-/

namespace Upf.Leases

open Lib List

structure State (ι : Type) where
  shared : Shared
  assoc : ι → Association

variable {ι : Type}

namespace State

def Step (st st' : State ι) : Prop :=
  ∃ i, Acts (st.assoc i) st.shared (st'.assoc i) st'.shared ∧
    ∀ j ≠ i, st'.assoc j = st.assoc j

inductive Runs : State ι → State ι → Prop
  | refl (st : State ι) : Runs st st
  | tail {st st' st'' : State ι} (hruns : Runs st st') (hstep : Step st' st'') : Runs st st''

structure Fresh (st : State ι) : Prop where
  pool : ∀ i, st.shared.ippool = some i →
    ∃ parseCIDR poolSubnet, IPPool.newIPPool parseCIDR poolSubnet = .ok i
  given : ∀ t, st.shared.given t = ∅
  held : ∀ t, st.shared.held t = ∅
  assoc : ∀ i, st.assoc i = ⟨∅, false, .idle⟩

def ledger (st : State ι) : Ledger ι UInt64 IP RuleKey :=
  st.shared.ledger fun i => (st.assoc i).known

structure Sound (st : State ι) : Prop where
  wf : ∀ i, (st.assoc i).Wf
  covered : st.ledger.Covered
  exclusive : ∀ i, st.shared.ippool = some i → i.Exclusive

theorem Fresh.sound {st : State ι} (h : st.Fresh) : st.Sound := by
  have hknown : ∀ i t, (st.assoc i).known t = none := by
    intro i t
    rw [h.assoc i]
    rfl
  refine ⟨?_, ?_, ?_⟩
  · intro i
    rw [h.assoc i]
    exact ⟨⟨[], .empty⟩, rfl, trivial⟩
  · constructor
    · exact fun i _ t hi => absurd (hknown i t) hi
    · exact fun i t hi => absurd (hknown i t) hi
    · exact fun t _ => ⟨h.held t, h.given t⟩
    · intro i t N hN
      exact absurd ((hknown i t).symm.trans hN) (by simp)
    · exact fun t _ => Or.inl (h.held t)
  · intro i hi
    rcases h.pool i hi with ⟨parseCIDR, poolSubnet, hnew⟩
    exact IPPool.exclusive_newIPPool hnew

theorem bound_of_covered {st : State ι} (h : st.ledger.Covered) (i : ι) (t : UInt64) :
    st.shared.Bound t ((st.assoc i).known t) := by
  intro hw
  cases hknown : (st.assoc i).known t with
  | none => exact h.settled t hw
  | some N => exact h.bound i t N hknown hw

theorem settled_of_bound {sh : Shared} {t : UInt64} {known : Option (Set RuleKey)}
    (h : sh.Bound t known) (hw : t ∉ sh.waived) : sh.held t = ∅ ∨ sh.Leased t := by
  have hbound := h hw
  cases known with
  | none => exact hbound
  | some => exact .inr hbound.2

theorem exclusive_of_acts {a a' : Association} {sh sh' : Shared} (h : Acts a sh a' sh')
    (hpool : ∀ i, sh.ippool = some i → i.Exclusive) :
    ∀ i, sh'.ippool = some i → i.Exclusive := by
  have hlookup : ∀ seid i, (sh.lookup seid).ippool = some i → i.Exclusive := by
    intro seid i hi
    cases hsh : sh.ippool with
    | none => simp [Shared.lookup, hsh] at hi
    | some j =>
      have hj := (hpool j hsh).lookupOrAllocIP seid
      rcases hout : j.lookupOrAllocIP seid with ⟨e | ip, j'⟩ <;>
        simp only [Shared.lookup, hsh, hout, Option.some.injEq] at hi <;>
        rw [hout, hi] at hj <;>
        exact hj
  have hrelease : ∀ seid i, (sh.release seid).ippool = some i → i.Exclusive := by
    intro seid i hi
    simp only [Shared.release, releaseIP, Option.map_eq_some_iff] at hi
    rcases hi with ⟨j, hj, rfl⟩
    exact (hpool j hj).release seid
  cases h with
  | lookupNew => exact hlookup _
  | lookupStored => exact hlookup _
  | refuse => exact hrelease _
  | cleanup => exact hrelease _
  | forget => exact hrelease _
  | removeEnd => exact hrelease _
  | settleFinished => exact hrelease _
  | _ => exact hpool

theorem Sound.step {st st' : State ι} (h : st.Sound) (hstep : st.Step st') : st'.Sound := by
  rcases hstep with ⟨i, hacts, hothers⟩
  have hcovered := h.covered
  refine ⟨?_, ?_, exclusive_of_acts hacts h.exclusive⟩
  · intro j
    by_cases hj : j = i
    · exact hj ▸ hacts.wf (h.wf i)
    · exact hothers j hj ▸ h.wf j
  · have hknown : ∀ j ≠ i, (st'.assoc j).known = (st.assoc j).known := fun j hj => by
      rw [hothers j hj]
    have hledger : ∀ seid, (∀ t ≠ seid, (st'.assoc i).known t = (st.assoc i).known t) →
        ∀ j t, j ≠ i ∨ t ≠ seid → st'.ledger.known j t = st.ledger.known j t := by
      intro seid hseid j t hne
      by_cases hj : j = i
      · subst hj
        exact hseid t (hne.resolve_left (by simp))
      · exact congrFun (hknown j hj) t
    cases hacts.account (h.wf i) with
    | quiet hshared hsame =>
      rcases hshared with ⟨held, hheld, hsh⟩
      refine hcovered.shrink ?_ ?_ ?_ ?_ ?_ ?_ <;>
        simp only [ledger, Shared.ledger, hsh]
      · exact hheld
      · funext j t
        by_cases hj : j = i
        · exact hj ▸ hsame t
        · exact congrFun (hknown j hj) t
    | born seid hfresh hsh hsame =>
      have hnone := hcovered.known_of_fresh hfresh
      rcases hcovered.fresh seid hfresh with ⟨hheld, hgiven⟩
      have hmoved := st.shared.moved_draw seid
      rw [← hsh] at hmoved
      refine hcovered.step ⟨hmoved.lease, hmoved.given, hmoved.held, hledger seid hsame,
        hmoved.used, hmoved.waived⟩ ⟨?_, ?_, ?_⟩ fun j _ => hnone j
      · simp [ledger, Shared.ledger, hsh, Shared.draw]
      · intro N _ _
        have hempty : st'.ledger.held seid = ∅ := by
          rw [← hheld]
          simp [ledger, Shared.ledger, hsh, Shared.draw]
        have hnothing : st'.ledger.given seid = ∅ := by
          rw [← hgiven]
          simp [ledger, Shared.ledger, hsh, Shared.draw]
        rw [hempty, Ledger.Leased, hnothing]
        exact ⟨Set.empty_subset N, by simp⟩
      · intro _
        left
        rw [← hheld]
        simp [ledger, Shared.ledger, hsh, Shared.draw]
    | about seid hlive hmoved hused hsame hbound =>
      have hnew := hbound (bound_of_covered hcovered i seid)
      refine hcovered.step ⟨hmoved.lease, hmoved.given, hmoved.held, hledger seid hsame,
        hmoved.used, hmoved.waived⟩ ⟨?_, ?_, settled_of_bound hnew⟩
        fun j hj => hcovered.known_eq_none hlive hj
      · rw [show st'.ledger.used = st.ledger.used from hused]
        exact hcovered.used_of_known i seid hlive
      · intro N hN hw
        have hboth := hnew hw
        rw [show (st'.assoc i).known seid = some N from hN] at hboth
        exact hboth

theorem Sound.runs {st st' : State ι} (h : st.Sound) (hruns : Runs st st') : st'.Sound := by
  induction hruns with
  | refl => exact h
  | tail _ hstep ih => exact ih.step hstep

end State

/-- In every run of any number of associations, an address the pool hands to a
session is not one that another session was given and under which the datapath
may still hold a PDR of that other session, as long as the other session was not
forgotten at its peer's request and no modification left it an entry it does not
name. -/
theorem handed_out_clear {st₀ st : State ι} (hfresh : st₀.Fresh) (hruns : st₀.Runs st)
    {seid : UInt64} {pool pool' : IPPool} {ip : IP} (hpool : st.shared.ippool = some pool)
    (hlookup : pool.lookupOrAllocIP seid = (.ok ip, pool')) :
    ∀ t ≠ seid, ip ∈ st.shared.given t → t ∉ st.shared.waived → st.shared.held t = ∅ := by
  intro t hne hgiven hw
  have hsound := hfresh.sound.runs hruns
  have hexclusive := hsound.exclusive pool hpool
  rcases hsound.covered.settled t hw with hheld | hleased
  · exact hheld
  · -- The other session still holds the address, so it is neither free nor anyone else's.
    have hlease : pool.inventory.lookup t = some ip := by
      have h := hleased ip hgiven
      simpa [State.ledger, Shared.ledger, IPPool.leased, hpool] using h
    rcases IPPool.lookupOrAllocIP_cases pool seid with
      ⟨a, hinv, heq⟩ | ⟨a, rest, _, hfree, heq⟩ | ⟨_, _, heq⟩
    · rw [heq, Prod.mk.injEq, Except.ok.injEq] at hlookup
      rw [hlookup.1] at hinv
      exact absurd (hexclusive.injective t seid ip hlease hinv) hne
    · rw [heq, Prod.mk.injEq, Except.ok.injEq] at hlookup
      exact absurd (by simp [hfree, hlookup.1]) (hexclusive.apart t ip hlease)
    · rw [heq, Prod.mk.injEq] at hlookup
      exact absurd hlookup.1 (by simp)

namespace State

variable [DecidableEq ι]

def act (st : State ι) (i : ι) (a : Association) (sh : Shared) : State ι where
  shared := sh
  assoc := Function.update st.assoc i a

theorem Runs.act {st₀ st : State ι} (h : st₀.Runs st) {i : ι} {a : Association} {sh : Shared}
    (hacts : Acts (st.assoc i) st.shared a sh) : st₀.Runs (st.act i a sh) := by
  refine h.tail ⟨i, ?_, fun j hj => Function.update_of_ne hj _ _⟩
  simpa [State.act] using hacts

end State

def sampleStart : State Bool where
  shared :=
    { ippool := some { freePool := [[10, 0, 0, 1], [10, 0, 0, 2]], inventory := ∅ }
      given := fun _ => ∅
      held := fun _ => ∅
      used := ∅
      waived := ∅ }
  assoc _ := ⟨∅, false, .idle⟩

theorem sampleStart_fresh : sampleStart.Fresh where
  pool i hi := by
    refine ⟨fun _ => .ok ([10, 0, 0, 0], [255, 255, 255, 252]), "10.0.0.0/30", ?_⟩
    simp only [sampleStart, Option.some.injEq] at hi
    subst hi
    have hsubnet : subnetFrom [10, 0, 0, 0] [255, 255, 255, 252] (256 ^ 4) [10, 0, 0, 0] =
        [[10, 0, 0, 0], [10, 0, 0, 1], [10, 0, 0, 2], [10, 0, 0, 3]] := by decide
    have hnetwork : maskIP [255, 255, 255, 252] [10, 0, 0, 0] = [10, 0, 0, 0] := by decide
    simp only [IPPool.newIPPool, hnetwork, length_cons, length_nil, Nat.zero_add,
      Nat.reduceAdd, hsubnet]
    rfl
  given _ := rfl
  held _ := rfl
  assoc _ := rfl

def sampleSession (seid : UInt64) : PFCPSession where
  localSEID := seid
  remoteSEID := 1
  rules := { pdrs := [{ pdrID := 1, fseID := seid }] }

def established : State Bool :=
  let st := sampleStart.act false ⟨∅, false, .establishing 1⟩ (sampleStart.shared.draw 1)
  let st := st.act false ⟨∅, false, .establishing 1⟩ (st.shared.lookup 1)
  st.act false ⟨put ∅ (sampleSession 1), false, .idle⟩
    (st.shared.write 1 (sampleSession 1).rules)

theorem established_runs : sampleStart.Runs established := by
  refine State.Runs.act (State.Runs.act (State.Runs.act (.refl _) ?_) ?_) ?_
  · exact .establish rfl (Set.notMem_empty 1)
  · exact .lookupNew
  · exact @Acts.add ∅ _ false (sampleSession 1)

def attachTwo (st : State Bool) : State Bool :=
  let st := st.act true ⟨∅, false, .establishing 2⟩ (st.shared.draw 2)
  let st := st.act true ⟨∅, false, .establishing 2⟩ (st.shared.lookup 2)
  let st := st.act true ⟨put ∅ (sampleSession 2), false, .idle⟩
    (st.shared.write 2 (sampleSession 2).rules)
  st.act true ⟨put ∅ (sampleSession 2), false, .establishing 3⟩ (st.shared.draw 3)

theorem attachTwo_runs {st₀ st : State Bool} (h : st₀.Runs st)
    (hassoc : st.assoc true = ⟨∅, false, .idle⟩) (hused : st.shared.used = {1}) :
    st₀.Runs (attachTwo st) := by
  refine ((h.act ?_).act ?_).act ?_ |>.act ?_
  · rw [hassoc]
    exact .establish rfl (by simp [hused])
  · exact .lookupNew
  · exact @Acts.add ∅ _ false (sampleSession 2)
  · refine Acts.establish rfl ?_
    simp [State.act, Shared.write, Shared.used_lookup, Shared.draw, hused]

def deleted : State Bool :=
  let st := established.act false ⟨put ∅ (sampleSession 1), false, .ending (sampleSession 1)⟩
    (established.shared.delete true (sampleSession 1).rules)
  st.act false ⟨(put ∅ (sampleSession 1)).erase 1, false, .idle⟩ (st.shared.release 1)

theorem deleted_runs : sampleStart.Runs deleted := by
  refine State.Runs.act (established_runs.act ?_) ?_
  · exact Acts.delete rfl
  · exact Acts.cleanup

/-- The pool once the first address has come back and the second one is taken. -/
def sampleReturned : IPPool where
  freePool := [[10, 0, 0, 1]]
  inventory := (∅ : Inventory).insert 2 [10, 0, 0, 2]

/-- The address of a deleted session is handed to another one, and no PDR of the
deleted session is left. -/
theorem handed_out_clear_deleted :
    (attachTwo deleted).shared.ippool = some sampleReturned ∧
      (sampleReturned.lookupOrAllocIP 3).1 = .ok [10, 0, 0, 1] ∧
      [10, 0, 0, 1] ∈ (attachTwo deleted).shared.given 1 ∧
      (attachTwo deleted).shared.held 1 = ∅ := by
  have hgiven : [10, 0, 0, 1] ∈ (attachTwo deleted).shared.given 1 := Or.inl rfl
  exact ⟨rfl, rfl, hgiven, handed_out_clear sampleStart_fresh (attachTwo_runs deleted_runs rfl
    (Set.ext fun _ => by simp [deleted, established, State.act, sampleStart, Shared.draw,
      Shared.write, Shared.delete, Shared.release, Shared.used_lookup]))
    (rfl : _ = some sampleReturned)
      (rfl : sampleReturned.lookupOrAllocIP 3 = (.ok [10, 0, 0, 1], _))
    1 (by decide) hgiven (Set.notMem_empty 1)⟩

/-- The first association's peer no longer knows the session, which is forgotten;
its rules are still to be deleted. -/
def forgotten : State Bool :=
  established.act false ⟨(put ∅ (sampleSession 1)).erase 1, false, .forgetting (sampleSession 1)⟩
    ((established.shared.release 1).waive 1)

theorem forgotten_runs : sampleStart.Runs forgotten :=
  established_runs.act (@Acts.forget (put ∅ (sampleSession 1)) _ (sampleSession 1) rfl)

/-- The address of a forgotten session is handed out while all its PDRs are still
installed. -/
theorem forgotten_handed_out :
    ∃ st : State Bool, sampleStart.Fresh ∧ sampleStart.Runs st ∧
      (st.assoc true).activity = .establishing 3 ∧ st.shared.ippool = some sampleReturned ∧
      (sampleReturned.lookupOrAllocIP 3).1 = .ok [10, 0, 0, 1] ∧
      [10, 0, 0, 1] ∈ st.shared.given 1 ∧ (sampleSession 1).rules.pdrKeys ⊆ st.shared.held 1 ∧
      (sampleSession 1).rules.pdrKeys.Nonempty := by
  refine ⟨attachTwo forgotten, sampleStart_fresh, attachTwo_runs forgotten_runs rfl
    (Set.ext fun _ => by simp [forgotten, established, State.act, sampleStart, Shared.draw,
      Shared.write, Shared.waive, Shared.release, Shared.used_lookup]),
    rfl, rfl, rfl, .inl rfl, ?_, ?_⟩
  · exact fun k hk => Or.inr hk
  · have hentries : (pdrEntries { pdrID := 1, fseID := 1 }).map Prod.fst ≠ [] := by decide
    rcases exists_mem_of_ne_nil _ hentries with ⟨k, hk⟩
    exact ⟨k, _, mem_singleton_self _, hk⟩

end Upf.Leases
