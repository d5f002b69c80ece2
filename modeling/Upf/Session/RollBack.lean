import Upf.Session.Outcomes

/-!
# A refused modification restores the datapath

A modification may be refused after its write has been issued: by the write
batch, at a Remove it cannot honour, or by its delete batch, each of which may
have been carried out in part.  The rollback then removes what the message may
have added under keys the session did not have, and writes the old rules again.

Main result: `refused_modification_restores`.
-/

namespace Upf

open Lib KeyedList List BatchRecord Bool

def InStep (conf : BessConf) (t : Tables) (seid : UInt64) (rules : PacketForwardingRules) :
    Prop :=
  Table.Holds t (carriesFSEID seid) (rules.entries conf)

namespace InStep

variable {conf : BessConf} {t : Tables} {seid : UInt64} {rules : PacketForwardingRules}

theorem fseID_far (h : InStep conf t seid rules) {f : Far} (hf : f ∈ rules.fars) :
    f.fseID = seid :=
  carriesFSEID_far.mp
    ((h _ _).mpr (mem_entries.mpr (.inr (.inl ⟨f, hf, rfl⟩)))).2

theorem fseID_qer (h : InStep conf t seid rules) {q : Qer} (hq : q ∈ rules.qers) :
    q.fseID = seid := by
  have hmem : qerEntry (qosRates conf q.qfi q.ulStatus q.ulMbr q.ulGbr) access q ∈
      rules.entries conf :=
    mem_entries.mpr (.inr (.inr ⟨q, hq, mem_cons_self⟩))
  exact carriesFSEID_qerLookup.mp ((h _ _).mpr hmem).2

end InStep

theorem qerEntries_key_congr {conf : BessConf} {q q' : Qer} (hid : q.qerID = q'.qerID)
    (hlevel : q.qosLevel = q'.qosLevel) (hseid : q.fseID = q'.fseID) :
    (qerEntries conf q).map Prod.fst = (qerEntries conf q').map Prod.fst := by
  simp [qerEntries, qerEntry, Qer.table, qerFields, hid, hlevel, hseid]

theorem find?_qer_eq_some {rules : PacketForwardingRules} {id : UInt32} {was : Qer}
    (h : rules.findQER id = some was) : was ∈ rules.qers ∧ was.qerID = id := by
  have hid := find?_some h
  exact ⟨mem_of_find?_eq_some h, by simpa using hid⟩

theorem movedPDR_eq_false {before : PacketForwardingRules} {p : Pdr}
    (h : movedPDR before p = false) :
    ∃ was ∈ before.pdrs, (pdrEntries p).map Prod.fst = (pdrEntries was).map Prod.fst := by
  unfold movedPDR at h
  cases hfind : before.findPDR p.pdrID with
  | none => simp [hfind] at h
  | some was =>
    simp only [hfind, not_eq_false'] at h
    exact ⟨was, mem_of_find?_eq_some hfind, keys_of_occupiesSameEntryAs h⟩

theorem movedQER_eq_false {before : PacketForwardingRules} {q : Qer}
    (h : movedQER before q = false) :
    ∃ was ∈ before.qers, was.qerID = q.qerID ∧ q.qosLevel = was.qosLevel := by
  unfold movedQER at h
  cases hfind : before.findQER q.qerID with
  | none => simp [hfind] at h
  | some was =>
    simp only [hfind, Qer.occupiesSameEntryAs, not_eq_false', beq_iff_eq] at h
    exact ⟨was, (find?_qer_eq_some hfind).1, (find?_qer_eq_some hfind).2, h⟩

theorem mem_take_or_drop {α : Type} {l : List α} {x : α} (n : Nat) (h : x ∈ l) :
    x ∈ l.take n ∨ x ∈ l.drop n := by
  rw [← mem_append, take_append_drop]
  exact h

section Covered

variable {conf : BessConf} {seid : UInt64} {m : Parsed} {s : PFCPSession}

theorem updated_far_covered (hfars : ∀ f ∈ s.rules.fars, f.fseID = seid) (hown : m.Owned seid)
    {f : Far} (hf : f ∈ (m.write s).updated.fars) :
    f ∈ (m.write s).updated.fars.take (m.write s).createdFARs ∨
      ∃ was ∈ s.rules.fars, (farEntry f).1 = (farEntry was).1 := by
  have hseid := m.session_far_fseID hfars hown f (m.write_updated_sub.fars f hf)
  rcases m.write_fars (s := s) with ⟨l, c, found, hrev, -, -, hupd, hcount, -⟩
  rw [hupd] at hf ⊢
  rw [hcount]
  rcases mem_append.mp hf with hf | hf
  · left
    simpa using hf
  · right
    rcases hrev.exists_old (mem_of_mem_heldVersionsLoop hf).1 with ⟨was, hwas, hid, -⟩
    refine ⟨was, hwas, ?_⟩
    simp [farEntry, hid, hseid, hfars was hwas]

theorem updated_covered (hfars : ∀ f ∈ s.rules.fars, f.fseID = seid)
    (hqers : ∀ q ∈ s.rules.qers, q.fseID = seid) (hown : m.Owned seid)
    {k : RuleKey} {e : RuleEntry} (h : (k, e) ∈ (m.write s).updated.entries conf) :
    (∃ e', (k, e') ∈ s.rules.entries conf) ∨
      k ∈ ((rollBackRemove s.rules (m.write s)).entries conf).map Prod.fst := by
  rcases mem_entries.mp h with ⟨p, hp, hk⟩ | ⟨f, hf, hk⟩ | ⟨q, hq, hk⟩
  · have hkey : k ∈ (pdrEntries p).map Prod.fst := mem_map_of_mem hk
    by_cases hrm : p ∈ (rollBackRemove s.rules (m.write s)).pdrs
    · exact .inr (mem_map.mpr ⟨(k, e), mem_entries.mpr (.inl ⟨p, hrm, hk⟩), rfl⟩)
    · left
      have hkept : movedPDR s.rules p = false := by
        rcases mem_take_or_drop (m.write s).createdPDRs hp with htake | hdrop
        · exact absurd (mem_append_left _ htake) hrm
        · by_contra hmoved
          exact hrm (mem_append_right _
            (mem_filter.mpr ⟨hdrop, by simpa using hmoved⟩))
      rcases movedPDR_eq_false hkept with ⟨was, hwas, hkeys⟩
      rw [hkeys] at hkey
      rcases mem_map.mp hkey with ⟨⟨k', e'⟩, he', rfl⟩
      exact ⟨e', mem_entries.mpr (.inl ⟨was, hwas, he'⟩)⟩
  · rcases updated_far_covered hfars hown hf with htake | ⟨was, hwas, hkey⟩
    · exact .inr (mem_map.mpr
        ⟨(k, e), mem_entries.mpr (.inr (.inl ⟨f, htake, hk⟩)), rfl⟩)
    · left
      rw [hk] at hkey
      exact ⟨(farEntry was).2, mem_entries.mpr
          (.inr (.inl ⟨was, hwas, Prod.ext hkey.symm rfl⟩))⟩
  · have hkey : k ∈ (qerEntries conf q).map Prod.fst := mem_map_of_mem hk
    have hseid := m.session_qer_fseID hqers hown q (m.write_updated_sub.qers q hq)
    by_cases hrm : q ∈ (rollBackRemove s.rules (m.write s)).qers
    · exact .inr (mem_map.mpr
        ⟨(k, e), mem_entries.mpr (.inr (.inr ⟨q, hrm, hk⟩)), rfl⟩)
    · left
      have hkept : movedQER s.rules q = false := by
        rcases mem_take_or_drop (m.write s).createdQERs hq with htake | hdrop
        · exact absurd (mem_append_left _ htake) hrm
        · by_contra hmoved
          exact hrm (mem_append_right _
            (mem_filter.mpr ⟨hdrop, by simpa using hmoved⟩))
      rcases movedQER_eq_false hkept with ⟨was, hwas, hid, hlevel⟩
      rw [qerEntries_key_congr hid.symm hlevel (hseid.trans (hqers was hwas).symm)] at hkey
      rcases mem_map.mp hkey with ⟨⟨k', e'⟩, he', rfl⟩
      exact ⟨e', mem_entries.mpr (.inr (.inr ⟨was, hwas, he'⟩))⟩

/-- Whatever of the write and of the delete batch was carried out, a key it
filled is one the session had, or one the first rollback batch erases. -/
theorem rolledBack_covered {done : List BatchRecord} {removed : BatchRecord}
    (hfars : ∀ f ∈ s.rules.fars, f.fseID = seid) (hqers : ∀ q ∈ s.rules.qers, q.fseID = seid)
    (hown : m.Owned seid)
    (hdone : ∀ batch ∈ done, batch.Sends .mod (m.write s).updated ∨
      ∃ deleted session, Removes (m.write s).session session deleted ∧ batch.Sends .del deleted)
    (hremoved : removed.Sends .del (rollBackRemove s.rules (m.write s)))
    (htook : removed.TookEffect conf) {op : Table.Op RuleKey RuleEntry}
    (hop : op ∈ done.flatMap fun batch => batch.ops conf) (hres : op.result ≠ none) :
    (∃ e, (op.key, e) ∈ s.rules.entries conf) ∨ ∃ op' ∈ removed.ops conf, op'.key = op.key := by
  rcases mem_flatMap.mp hop with ⟨batch, hbatch, hop⟩
  rcases hdone batch hbatch with hsends | ⟨deleted, _, -, hsends⟩
  · have hmem := mem_puts_of_mem_ops (by simp [hsends.method]) hop
    rw [hsends.rules] at hmem
    rcases Table.mem_puts.mp hmem with ⟨k, e, he, rfl⟩
    refine (updated_covered hfars hqers hown he).imp_right ?_
    intro hk
    refine ⟨.del k, (htook.mem_ops_iff_dels hremoved.method).mpr ?_, rfl⟩
    rw [hremoved.rules]
    exact Table.mem_dels.mpr ⟨k, hk, rfl⟩
  · rcases Table.mem_dels.mp (mem_dels_of_mem_ops hsends.method hop) with ⟨k, -, rfl⟩
    exact absurd rfl hres

end Covered

section Handler

variable {conf : BessConf} {oracle : Nat → BatchOutcome} {agent : AgentConf}

def NamesOwnKeys (conf : BessConf) (t : Tables) (seid : UInt64) (batch : BatchRecord) : Prop :=
  ∀ op ∈ (batch.commands conf).filterMap Command.op, ∀ e, t op.key = some e →
    carriesFSEID seid op.key e

theorem Modified.tables_of_refused {smreq : SessionModificationRequest} {w w' : World BessState}
    {stored : PFCPSession} (h : Modified agent conf smreq w w' false)
    (hstored : w.conn.store.lookup smreq.seid = some stored)
    (hstep : InStep conf w.tables smreq.seid stored.rules)
    (hnames : ∀ batch ∈ w.sent w', NamesOwnKeys conf w.tables smreq.seid batch)
    (htook : ∀ batch ∈ (w.sent w').drop ((w.sent w').length - 2), batch.TookEffect conf) :
    w'.tables = w.tables := by
  cases h with
  | unwritten hconn hadv => simpa using hadv.tables
  | rolledBack s stored' m done removed restored hst hs hown hdone hremoved hrestored hconn hadv =>
    rw [hstored, Option.some.injEq] at hst
    subst hst
    rw [← hs] at hstep
    rw [hadv.sent] at hnames htook
    have htail : (done ++ [removed, restored]).drop ((done ++ [removed, restored]).length - 2) =
        [removed, restored] := by simp
    rw [htail] at htook
    have htookRemoved := htook removed (by simp)
    have htookRestored := htook restored (by simp)
    rw [hadv.tables, flatMap_append, Table.applyAll_append]
    simp only [flatMap_cons, flatMap_nil, append_nil, Table.applyAll_append]
    apply Table.rollback_restores hstep
    · intro op hop hres
      exact rolledBack_covered (fun f => hstep.fseID_far) (fun q => hstep.fseID_qer) hown hdone
        hremoved htookRemoved hop hres
    · intro op hop
      rcases Table.mem_dels.mp (mem_dels_of_mem_ops hremoved.method hop) with
        ⟨k, -, rfl⟩
      rfl
    · intro op
      rw [← hrestored.rules]
      exact htookRestored.mem_ops_iff_puts (by simp [hrestored.method])
    · intro op hop e he
      rcases mem_append.mp hop with hop | hop
      · rcases mem_flatMap.mp hop with ⟨batch, hbatch, hop⟩
        exact hnames batch (mem_append_left _ hbatch) op (mem_ops_of_mem hop) e he
      · exact hnames removed (by simp) op (mem_ops_of_mem hop) e he

theorem Modified.conn_of_refused {smreq : SessionModificationRequest} {w w' : World BessState}
    (h : Modified agent conf smreq w w' false) : w'.conn = w.conn := by
  cases h with
  | unwritten hconn => exact hconn
  | rolledBack _ _ _ _ _ _ _ _ _ _ _ _ hconn => exact hconn

/-- When the two batches of the rollback take effect, a refused modification
leaves every table and the store as they were: whatever part of the write and
of the delete batch was carried out, in whatever order, and wherever the message
was refused. -/
theorem refused_modification_restores (agent : AgentConf) (conf : BessConf)
    (oracle : Nat → BatchOutcome) (smreq : SessionModificationRequest)
    (w w' : World BessState) (reply : Reply SessionModificationResponse) (stored : PFCPSession)
    (hhandle : handleSessionModificationRequest agent (bess conf oracle) smreq w = (reply, w'))
    (hrefused : reply.acceptsModification = false)
    (hstored : w.conn.store.lookup smreq.seid = some stored)
    (hstep : InStep conf w.tables smreq.seid stored.rules)
    (hnames : ∀ batch ∈ w.sent w', NamesOwnKeys conf w.tables smreq.seid batch)
    (htook : ∀ batch ∈ (w.sent w').drop ((w.sent w').length - 2), batch.TookEffect conf) :
    w'.tables = w.tables ∧ w'.conn.store = w.conn.store := by
  have houtcome := handleSessionModificationRequest_outcome agent conf oracle smreq w
  rw [hhandle] at houtcome
  dsimp only at houtcome
  rw [hrefused] at houtcome
  constructor
  · exact houtcome.tables_of_refused hstored hstep hnames htook
  · rw [houtcome.conn_of_refused]

end Handler

def heldFar : Far := { farID := 1, fseID := 1, applyAction := actionDrop }

def createdFar : Far := { farID := 2, fseID := 1, applyAction := actionDrop }

def oneFarWorld : World BessState where
  upf :=
    { ippool := none
      fteidGenerator := { offset := 0, usedMap := ∅ }
      datapath :=
        { tables := fun k =>
            if k = (farEntry heldFar).1 then some (farEntry heldFar).2 else none } }
  conn :=
    { store := AList.singleton 1
        { localSEID := 1, remoteSEID := 7, rules := { fars := [heldFar] } }
      isShutdown := false
      sessions := 1
      rngPos := 1 }

def createSecondRemoveThird : SessionModificationRequest where
  seid := 1
  createFAR := [.sample 2 actionDrop]
  removeFAR := [.ok 3]

def carryOutFars : Nat → BatchOutcome := carryOut .sample [{ fars := [heldFar, createdFar] }]

theorem oneFarWorld_inStep :
    InStep .sample oneFarWorld.tables 1 { fars := [heldFar] } := by
  intro k e
  have htables : oneFarWorld.tables k =
      if k = (farEntry heldFar).1 then some (farEntry heldFar).2 else none := rfl
  rw [htables, mem_entries]
  constructor
  · rintro ⟨hk, -⟩
    split at hk
    · rename_i hkey
      exact .inr (.inl ⟨heldFar, by simp, Prod.ext hkey.symm (Option.some.inj hk)⟩)
    · simp at hk
  · rintro (⟨p, hp, -⟩ | ⟨f, hf, hfar⟩ | ⟨q, hq, -⟩)
    · simp at hp
    · rw [mem_singleton.mp hf] at hfar
      cases hfar
      exact ⟨if_pos rfl, carriesFSEID_far.mpr rfl⟩
    · simp at hq

theorem oneFarWorld_carries {k : RuleKey} {e : RuleEntry} (h : oneFarWorld.tables k = some e) :
    carriesFSEID 1 k e := by
  have htables : (if k = (farEntry heldFar).1 then some (farEntry heldFar).2 else none) =
      some e := h
  split at htables
  · rename_i hkey
    rw [hkey]
    exact carriesFSEID_far.mpr rfl
  · simp at htables

/-- The message is refused at its Remove, after the FAR it created was written. -/
theorem refused_modification_restores_unknown_remove :
    let ended := handleSessionModificationRequest .sample (bess .sample carryOutFars)
      createSecondRemoveThird oneFarWorld
    ended.1.acceptsModification = false ∧ (oneFarWorld.sent ended.2).length = 3 ∧
      ended.2.tables = oneFarWorld.tables ∧ ended.2.conn.store = oneFarWorld.conn.store := by
  refine ⟨by decide, by decide, ?_⟩
  exact refused_modification_restores .sample .sample carryOutFars createSecondRemoveThird
    oneFarWorld _ _ _ rfl (by decide) rfl oneFarWorld_inStep
    (fun _ _ _ _ _ he => oneFarWorld_carries he)
    (fun batch hbatch => by
      have hall : ∀ batch ∈ oneFarWorld.sent (handleSessionModificationRequest .sample
          (bess .sample carryOutFars) createSecondRemoveThird oneFarWorld).2,
          batch.TookEffect .sample := by decide
      exact hall batch (mem_of_mem_drop hbatch))

end Upf
