import Upf.Session.Conformance

/-!
# The PDR table and the store

The keys of a PDR are what it matches, so an update can move it, and the entry
carries the first ID of its QER list, which marking the session QER can change in
a PDR the message never mentions.  An accepted modification writes the versions
it updates and deletes what it removes; it neither deletes the keys an update
left behind nor rewrites a PDR whose list was reordered.

Main result: `pdrLookup_conforms`.
-/

namespace Upf

open Lib KeyedList List

def pdrKeys (p : Pdr) : List RuleKey := (pdrEntries p).map Prod.fst

variable {p : Pdr}

theorem mem_pdrKeys {k : RuleKey} :
    k ∈ pdrKeys p ↔ ∃ r ∈ portRules p, k = pdrKey p r := by
  simp [pdrKeys, pdrEntries, eq_comm]

theorem mem_pdrKeys_of_mem {k : RuleKey} {e : RuleEntry} (h : (k, e) ∈ pdrEntries p) :
    k ∈ pdrKeys p :=
  mem_map_of_mem h

theorem mem_pdrEntries_of_key {k : RuleKey} (h : k ∈ pdrKeys p) :
    (k, pdrEntry p) ∈ pdrEntries p :=
  mem_pdrEntries.mpr ⟨rfl, mem_pdrKeys.mp h⟩

theorem pdrKeys_reorder (p : Pdr) (qerIDList : List UInt32) :
    pdrKeys { p with qerIDList } = pdrKeys p := by
  simp only [pdrKeys, pdrEntries, map_map]
  rfl

theorem pdrEntries_reorder (p : Pdr) {qerIDList : List UInt32}
    (h : firstQer { p with qerIDList } = firstQer p) :
    pdrEntries { p with qerIDList } = pdrEntries p := by
  have hvaluesv : matchValuesv { p with qerIDList } = matchValuesv p := by
    simp only [matchValuesv, h]
  have hentry : pdrEntry { p with qerIDList } = pdrEntry p := by
    simp only [pdrEntry, hvaluesv]
  simp only [pdrEntries, hentry]
  rfl

/-- PDRs of different sessions or of different IDs have no key in common. -/
def KeysApart (ps : List Pdr) : Prop :=
  ∀ p ∈ ps, ∀ p' ∈ ps, (p.fseID, p.pdrID) ≠ (p'.fseID, p'.pdrID) →
    ∀ k ∈ pdrKeys p, k ∉ pdrKeys p'

instance (ps : List Pdr) : Decidable (KeysApart ps) :=
  inferInstanceAs (Decidable (∀ p ∈ ps, ∀ p' ∈ ps, _ → ∀ k ∈ pdrKeys p, k ∉ pdrKeys p'))

theorem KeysApart.disjoint {ps : List Pdr} (h : KeysApart ps) {p' : Pdr} (hp : p ∈ ps)
    (hp' : p' ∈ ps) (hne : (p.fseID, p.pdrID) ≠ (p'.fseID, p'.pdrID)) :
    pdrFamily.Disjoint p p' := by
  intro k v v' hv hv'
  exact h p hp p' hp' hne k (mem_pdrKeys_of_mem hv) (mem_pdrKeys_of_mem hv')

def pdrsInPlay (w w' : World BessState) : List Pdr :=
  (w.conn.store.entries.flatMap fun entry => entry.2.rules.pdrs) ++
    (w.sent w').flatMap fun batch => batch.rules.pdrs

theorem mem_pdrsInPlay_of_stored {w w' : World BessState} {seid : UInt64}
    (h : p ∈ (storedRules w.conn.store seid).pdrs) : p ∈ pdrsInPlay w w' := by
  cases hlookup : w.conn.store.lookup seid with
  | none =>
    rw [storedRules_of_none hlookup] at h
    simp at h
  | some s =>
    rw [storedRules_of_some hlookup] at h
    refine mem_append_left _ (mem_flatMap.mpr ⟨⟨seid, s⟩, ?_, h⟩)
    exact AList.mem_lookup_iff.mp hlookup

theorem mem_pdrsInPlay_of_sent {w w' : World BessState} {batch : BatchRecord}
    (hbatch : batch ∈ w.sent w') (hp : p ∈ batch.rules.pdrs) : p ∈ pdrsInPlay w w' :=
  mem_append_right _ (mem_flatMap.mpr ⟨batch, hbatch, hp⟩)

/-- Every key of a stored PDR is a key of the version the modification makes of
it, and a version that is not written starts its QER list with the same ID. -/
def KeepsEntries (before : PacketForwardingRules) (wr : Write) : Prop :=
  ∀ o ∈ before.pdrs, ∀ p ∈ wr.session.rules.pdrs, p.pdrID = o.pdrID →
    (∀ k ∈ pdrKeys o, k ∈ pdrKeys p) ∧ (p ∈ wr.updated.pdrs ∨ firstQer p = firstQer o)

instance (before : PacketForwardingRules) (wr : Write) : Decidable (KeepsEntries before wr) :=
  inferInstanceAs (Decidable (∀ o ∈ before.pdrs, ∀ p ∈ wr.session.rules.pdrs, _ → _))

def Request.KeepsPdrEntries (agent : AgentConf) (w : World BessState) : Request → Prop
  | .modification smreq =>
    ∀ wr ∈ modificationWrite agent smreq w, KeepsEntries (storedRules w.conn.store smreq.seid) wr
  | _ => True

namespace Parsed

variable {m : Parsed} {s : PFCPSession}

theorem session_pdr_ids :
    (m.write s).session.rules.pdrs.map Pdr.pdrID =
      s.rules.pdrs.map Pdr.pdrID ++ m.createPDRs.map Pdr.pdrID := by
  rcases m.write_pdrs (s := s) with ⟨l, c, found, hrev, hcreated, hsession, -, -⟩
  have hmark : (Pdr.pdrID ∘ markPdr (l ++ c) (m.heldQERs s).1) = Pdr.pdrID :=
    funext (markPdr_pdrID _ _)
  rw [hsession, map_map, hmark, map_append, hrev.map_key, hcreated]

theorem pdr_writes {w w' : World BessState} {seid : UInt64}
    (hs : s.rules = storedRules w.conn.store seid) (hheld : (s.rules.pdrs.map Pdr.pdrID).Nodup)
    (hfresh : FreshIDs (s.rules.pdrs.map Pdr.pdrID) (m.createPDRs.map Pdr.pdrID))
    (hkeys : KeysApart (pdrsInPlay w w')) (hkeeps : KeepsEntries s.rules (m.write s))
    (hsent : ∃ batch ∈ w.sent w', batch.rules = (m.write s).updated) :
    pdrFamily.Writes s.rules.pdrs (m.write s).session.rules.pdrs (m.write s).updated.pdrs := by
  have hnodup : ((m.write s).session.rules.pdrs.map Pdr.pdrID).Nodup := by
    rw [session_pdr_ids]
    exact hfresh.append hheld
  -- A PDR of the session has the keys of one in play.
  have hinPlay : ∀ p ∈ (m.write s).session.rules.pdrs, ∃ p₀ ∈ pdrsInPlay w w',
      p₀.pdrID = p.pdrID ∧ pdrKeys p₀ = pdrKeys p := by
    intro p hp
    rcases session_pdr_cases p hp with hupdated | ⟨o, ho, qerIDList, rfl⟩
    · rcases hsent with ⟨batch, hbatch, hrules⟩
      exact ⟨p, mem_pdrsInPlay_of_sent hbatch (by rwa [hrules]), rfl, rfl⟩
    · rw [hs] at ho
      exact ⟨o, mem_pdrsInPlay_of_stored ho, rfl, (pdrKeys_reorder o qerIDList).symm⟩
  -- What is not written had its entries before.
  have hkept : ∀ p ∈ (m.write s).session.rules.pdrs, p ∉ (m.write s).updated.pdrs →
      ∃ o ∈ s.rules.pdrs, o.pdrID = p.pdrID ∧ pdrEntries p = pdrEntries o := by
    intro p hp hnot
    rcases session_pdr_cases p hp with hupdated | ⟨o, ho, qerIDList, rfl⟩
    · exact absurd hupdated hnot
    · have hfirst := (hkeeps o ho _ hp rfl).2.resolve_left hnot
      exact ⟨o, ho, rfl, pdrEntries_reorder o hfirst⟩
  refine ⟨⟨hnodup, ?_⟩, write_updated_sub.pdrs, ?_, ?_⟩
  · intro p hp p' hp' hid k v v' hv hv'
    rcases hinPlay p hp with ⟨p₀, hp₀, hid₀, hkeys₀⟩
    rcases hinPlay p' hp' with ⟨p₁, hp₁, hid₁, hkeys₁⟩
    refine hkeys p₀ hp₀ p₁ hp₁ ?_ k (hkeys₀ ▸ mem_pdrKeys_of_mem hv)
      (hkeys₁ ▸ mem_pdrKeys_of_mem hv')
    intro heq
    exact hid (hid₀.symm.trans ((Prod.mk.inj heq).2.trans hid₁))
  · intro p hp hnot x hx
    rcases hkept p hp hnot with ⟨o, ho, -, hentries⟩
    have hxo : x ∈ pdrEntries o := hentries ▸ hx
    exact Family.mem_all.mpr ⟨o, ho, hxo⟩
  · intro k v hold hnone
    rcases Family.mem_all.mp hold with ⟨o, ho, hov⟩
    have hexists : o.pdrID ∈ (m.write s).session.rules.pdrs.map Pdr.pdrID := by
      rw [session_pdr_ids]
      exact mem_append_left _ (mem_map_of_mem ho)
    rcases mem_map.mp hexists with ⟨p, hp, hid⟩
    by_cases hwritten : p ∈ (m.write s).updated.pdrs
    · -- Its key would have been written.
      have hkey := (hkeeps o ho p hp hid).1 k (mem_pdrKeys_of_mem hov)
      exact absurd (Family.mem_all.mpr ⟨p, hwritten, mem_pdrEntries_of_key hkey⟩)
        (hnone (pdrEntry p))
    · rcases hkept p hp hwritten with ⟨o', ho', hid', hentries⟩
      have heq : o' = o := inj_on_of_nodup_map hheld ho' ho (hid'.trans hid)
      have hpv : (k, v) ∈ pdrEntries p := by
        rw [hentries, heq]
        exact hov
      exact Family.mem_all.mpr ⟨p, hp, hpv⟩

end Parsed

theorem pdrKind_obligations {agent : AgentConf} {conf : BessConf} {req : Request}
    {accepted : Bool} {w w' : World BessState} (hok : StoreOk w.conn.store)
    (h : (pdrKind conf).Conforms w)
    (hfresh : FreshIDs ((req.held w.conn.store).pdrs.map Pdr.pdrID) req.createdPDRs)
    (hkeys : KeysApart (pdrsInPlay w w'))
    (hkeeps : accepted = true → req.KeepsPdrEntries agent w) :
    (pdrKind conf).Obligations agent req w w' accepted := by
  constructor
  · intro batch hbatch p hp seid hne p' hp'
    refine hkeys.disjoint (mem_pdrsInPlay_of_sent hbatch hp) (mem_pdrsInPlay_of_stored hp') ?_
    intro heq
    exact hne (((hok.owned seid).pdrs p' hp').symm.trans (Prod.mk.inj heq).1.symm)
  · rintro sereq m new rfl hrules hown hnames ⟨batch, hbatch, hbatchRules⟩
    have hids := filterMap_name_eq hnames.pdrs
    constructor
    · have hmark : Pdr.pdrID ∘ m.markInstalled = Pdr.pdrID := by
        funext p
        rw [Function.comp_apply, Parsed.markInstalled_eq]
      rw [Parsed.installed_eq hrules]
      have hnodup : (m.createPDRs.map Pdr.pdrID).Nodup := hids ▸ hfresh.nodup
      rw [← hmark, ← map_map] at hnodup
      exact hnodup
    · intro p hp p' hp' hid
      have hinPlay : ∀ p ∈ (m.installed new).rules.pdrs, p ∈ pdrsInPlay w w' := fun p hp =>
        mem_pdrsInPlay_of_sent hbatch (by rwa [hbatchRules])
      refine hkeys.disjoint (hinPlay p hp) (hinPlay p' hp') ?_
      intro heq
      exact hid (Prod.mk.inj heq).2
  · rintro smreq m s rfl hs hown hnames hwrite haccepted hsent
    have hids := filterMap_name_eq hnames.pdrs
    refine Parsed.pdr_writes hs ?_ ?_ hkeys ?_ hsent
    · rw [hs]
      exact (h.apart smreq.seid).nodup
    · rw [hs, ← hids]
      exact hfresh
    · rw [hs]
      exact hkeeps haccepted (m.write s) hwrite

/-- What the requests of a run must meet: clean batches, Create PDRs under new
IDs, and no key shared by different PDRs. -/
structure PdrRun (conf : BessConf) (req : Request) (w w' : World BessState) : Prop where
  clean : CleanBetween conf w w'
  fresh : FreshIDs ((req.held w.conn.store).pdrs.map Pdr.pdrID) req.createdPDRs
  keysApart : KeysApart (pdrsInPlay w w')

instance (conf : BessConf) (req : Request) (w w' : World BessState) :
    Decidable (PdrRun conf req w w') :=
  decidable_of_iff (_ ∧ _ ∧ _)
    ⟨fun h => ⟨h.1, h.2.1, h.2.2⟩, fun h => ⟨h.clean, h.fresh, h.keysApart⟩⟩

def PdrTableConforms (w : World BessState) (seid : UInt64) : Prop :=
  ∀ values masks e, (w.tables (.pdrLookup values masks) = some e ∧
      carriesFSEID seid (.pdrLookup values masks) e) ↔
    ∃ p ∈ (storedRules w.conn.store seid).pdrs, (.pdrLookup values masks, e) ∈ pdrEntries p

theorem RuleKind.Conforms.pdrTable {conf : BessConf} {w : World BessState}
    (h : (pdrKind conf).Conforms w) {seid : UInt64} (hseid : seid ≠ 0) :
    PdrTableConforms w seid :=
  fun _ _ _ => h.mem_tables hseid (by trivial)

/-- In every run whose accepted modifications lose no entry, the entries that
carry a SEID are exactly those of the PDRs stored under it, in their stored
versions; after an accepted deletion there are none. -/
theorem pdrLookup_conforms (agent : AgentConf) (conf : BessConf) (oracle : Nat → BatchOutcome)
    (w₀ w : World BessState) (hstart : Fresh w₀)
    (hrun : RunsWhen agent conf oracle (fun req w w' => PdrRun conf req w w' ∧
      ((serve agent (bess conf oracle) req w).1 = true → req.KeepsPdrEntries agent w)) w₀ w) :
    (∀ seid, seid ≠ 0 → PdrTableConforms w seid) ∧
    ∀ sdreq w', w' = (serve agent (bess conf oracle) (.deletion sdreq) w).2 →
      (serve agent (bess conf oracle) (.deletion sdreq) w).1 = true →
      PdrRun conf (.deletion sdreq) w w' → ∀ values masks e,
        w'.tables (.pdrLookup values masks) = some e →
          ¬ carriesFSEID sdreq.seid (.pdrLookup values masks) e := by
  rcases RuleKind.Conforms.run (K := pdrKind conf) hstart hrun (fun _ _ _ hstep => hstep.1.clean)
    (fun _ _ _ hok h hstep =>
      pdrKind_obligations hok h hstep.1.fresh hstep.1.keysApart hstep.2) with ⟨hok, h⟩
  refine ⟨fun seid hseid => h.pdrTable hseid, ?_⟩
  rintro sdreq w' rfl haccepted hstep values masks e he hcarries
  have hserved := serve_served agent conf oracle (.deletion sdreq) w
  have hnone := Deleted.storedRules_eq hok (haccepted ▸ hserved)
  have hafter := (h.step hok hserved hstep.clean (pdrKind_obligations hok h hstep.fresh
    hstep.keysApart fun _ => trivial)).pdrTable hnone.1
  rcases (hafter values masks e).mp ⟨he, hcarries⟩ with ⟨p, hp, -⟩
  rw [hnone.2] at hp
  simp at hp

def Pdr.sample (teid : UInt32) (qerIDList : List UInt32) (fseidIP : UInt32) : Pdr where
  srcIface := access
  srcIfaceMask := 0xFF
  tunnelIP4Dst := ip2int [198, 18, 0, 1]
  tunnelIP4DstMask := 0xFFFFFFFF
  tunnelTEID := teid
  tunnelTEIDMask := 0xFFFFFFFF
  precedence := 100
  pdrID := 1
  fseID := 1
  fseidIP
  farID := 1
  qerIDList
  needDecap := 1

def establishOnePdr : SessionEstablishmentRequest := .sample [.sample 1 100 []] [] []

def pdrOracle : Nat → BatchOutcome :=
  carryOut .sample [{ pdrs :=
    [.sample 100 [] (ip2int [10, 0, 0, 2]), .sample 100 [3] 0, .sample 200 [] 0] }]

def pdrRun₁ : World BessState :=
  (serve .sample (bess .sample pdrOracle) (.establishment establishOnePdr) .sample).2

def updateInPlace : Request := .modification { seid := 1, updatePDR := [.sample 1 100 [3]] }

def inPlaceRun₂ : World BessState :=
    (serve .sample (bess .sample pdrOracle) updateInPlace pdrRun₁).2

/-- An update that keeps the tunnel and names another QER. -/
theorem pdrLookup_conforms_after_update :
    (serve .sample (bess .sample pdrOracle) updateInPlace pdrRun₁).1 = true ∧
      (storedRules inPlaceRun₂.conn.store 1).pdrs = [.sample 100 [3] 0] ∧
      PdrTableConforms inPlaceRun₂ 1 := by
  refine ⟨by decide, by decide, (pdrLookup_conforms .sample .sample pdrOracle .sample inPlaceRun₂
    World.sample_fresh ?_).1 1 (by decide)⟩
  refine .tail (.single ⟨.establishment establishOnePdr, rfl, ?_⟩) ⟨updateInPlace, rfl, ?_⟩
  · exact ⟨by decide, fun _ => trivial⟩
  · refine ⟨by decide, fun _ => ?_⟩
    have hkeeps : ∀ wr ∈ modificationWrite .sample
        { seid := 1, updatePDR := [.sample 1 100 [3]] } pdrRun₁,
        KeepsEntries (storedRules pdrRun₁.conn.store 1) wr := by decide
    exact hkeeps

def updateMoved : Request := .modification { seid := 1, updatePDR := [.sample 1 200 []] }

def movedRun₂ : World BessState := (serve .sample (bess .sample pdrOracle) updateMoved pdrRun₁).2

/-- An update that moves a PDR to another tunnel is accepted, all batches are
clean, and the entry for the old tunnel stays. -/
theorem moved_pdr_stays :
    (serve .sample (bess .sample pdrOracle) (.establishment establishOnePdr) .sample).1 = true ∧
      PdrRun .sample (.establishment establishOnePdr) .sample pdrRun₁ ∧
      (serve .sample (bess .sample pdrOracle) updateMoved pdrRun₁).1 = true ∧
      PdrRun .sample updateMoved pdrRun₁ movedRun₂ ∧ ¬ PdrTableConforms movedRun₂ 1 := by
  refine ⟨by decide, by decide, by decide, by decide, ?_⟩
  intro hconforms
  let p : Pdr := .sample 100 [] 0
  let r : PortRangeTernaryCartesianProduct :=
    { srcPort := 0, srcMask := 0, dstPort := 0, dstMask := 0 }
  have hp : (pdrKey p r, pdrEntry p) ∈ pdrEntries p := by decide
  have hheld : movedRun₂.tables (pdrKey p r) = some (pdrEntry p) := by decide
  rcases (hconforms _ _ _).mp ⟨hheld, (carriesFSEID_pdr hp).mpr rfl⟩ with ⟨p', hp', hentry⟩
  have hstored : ∀ p' ∈ (storedRules movedRun₂.conn.store 1).pdrs,
      (pdrKey p r, pdrEntry p) ∉ pdrEntries p' := by decide
  exact hstored p' hp' hentry

end Upf
