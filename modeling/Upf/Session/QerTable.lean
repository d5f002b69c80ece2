import Upf.Session.Conformance

/-!
# The QER tables and the store

A QER stands in one of two tables by its level, under its ID and SEID or, at
session level, under the SEID alone.  Every modification marks the session QER
anew over all QERs of the session, never takes a mark back, and writes only the
QERs it created or updated.  So the tables follow the store only as long as the
marking gives no stored QER another level, except that the session QER may pass
its place to one the message creates.

Main result: `qerLookup_conforms`.
-/

namespace Upf

open Lib KeyedList List

variable {conf : BessConf}

/-! ## Keys -/

def qerKey (srcIface : UInt8) (q : Qer) : RuleKey := .qerLookup q.table (qerFields srcIface q)

variable {q q' : Qer}

theorem mem_qerEntries_key {k : RuleKey} :
    (∃ e, (k, e) ∈ qerEntries conf q) ↔ k = qerKey access q ∨ k = qerKey core q := by
  simp [qerEntries, qerEntry, qerKey, exists_or]

theorem qerKey_congr (hid : q.qerID = q'.qerID) (hlevel : q.qosLevel = q'.qosLevel)
    (hseid : q.fseID = q'.fseID) (srcIface : UInt8) : qerKey srcIface q = qerKey srcIface q' := by
  simp [qerKey, Qer.table, qerFields, hid, hlevel, hseid]

theorem qerKey_session (hlevel : q.qosLevel = .sessionQos)
    (hlevel' : q'.qosLevel = .sessionQos) (hseid : q.fseID = q'.fseID) (srcIface : UInt8) :
    qerKey srcIface q = qerKey srcIface q' := by
  simp [qerKey, Qer.table, qerFields, hlevel, hlevel', hseid]

theorem qerKey_inj {i i' : UInt8} (h : qerKey i q = qerKey i' q') :
    q.fseID = q'.fseID ∧
      (q.qerID = q'.qerID ∨ q.qosLevel = .sessionQos ∧ q'.qosLevel = .sessionQos) := by
  cases hlevel : q.qosLevel <;> cases hlevel' : q'.qosLevel <;>
    simp [qerKey, Qer.table, qerFields, hlevel, hlevel', intEnc_inj, UInt32.toUInt64_inj] at h
  · exact ⟨h.2.2, .inl h.2.1⟩
  · exact ⟨h.2, .inr ⟨rfl, rfl⟩⟩

theorem qerFamily_disjoint
    (h : q.fseID ≠ q'.fseID ∨
      (q.qerID ≠ q'.qerID ∧ ¬ (q.qosLevel = .sessionQos ∧ q'.qosLevel = .sessionQos))) :
    (qerFamily conf).Disjoint q q' := by
  intro k v v' hv hv'
  have hinj : q.fseID = q'.fseID ∧
      (q.qerID = q'.qerID ∨ q.qosLevel = .sessionQos ∧ q'.qosLevel = .sessionQos) := by
    rcases mem_qerEntries_key.mp ⟨v, hv⟩ with hk | hk <;>
      rcases mem_qerEntries_key.mp ⟨v', hv'⟩ with hk' | hk' <;>
        exact qerKey_inj (hk.symm.trans hk')
  rcases h with hseid | ⟨hid, hsession⟩
  · exact hseid hinj.1
  · exact hinj.2.elim hid hsession

theorem mem_all_of_key {qs : List Qer} {o : Qer} (hq : q ∈ qs)
    (hkeys : ∀ srcIface, qerKey srcIface q = qerKey srcIface o) {k : RuleKey} {v : RuleEntry}
    (hv : (k, v) ∈ qerEntries conf o) : ∃ v', (k, v') ∈ (qerFamily conf).all qs := by
  have hkey : k = qerKey access q ∨ k = qerKey core q := by
    rw [hkeys, hkeys]
    exact mem_qerEntries_key.mp ⟨v, hv⟩
  rcases mem_qerEntries_key.mpr hkey with ⟨v', hv'⟩
  exact ⟨v', Family.mem_all.mpr ⟨q, hq, hv'⟩⟩

theorem qerFamily_apart {qs : List Qer} (hnodup : (qs.map Qer.qerID).Nodup)
    (hone : ∀ q ∈ qs, ∀ q' ∈ qs, q.qosLevel = .sessionQos → q'.qosLevel = .sessionQos →
      q.qerID = q'.qerID) : (qerFamily conf).Apart qs := by
  refine ⟨hnodup, ?_⟩
  intro q hq q' hq' hid
  refine qerFamily_disjoint (.inr ⟨hid, ?_⟩)
  rintro ⟨hlevel, hlevel'⟩
  exact hid (hone q hq q' hq' hlevel hlevel')

theorem sessionQer_unique {qs : List Qer} {seid : UInt64} (h : (qerFamily conf).Apart qs)
    (hseid : ∀ q ∈ qs, q.fseID = seid) (hq : q ∈ qs) (hq' : q' ∈ qs)
    (hlevel : q.qosLevel = .sessionQos) (hlevel' : q'.qosLevel = .sessionQos) : q = q' := by
  have hkey := qerKey_session hlevel hlevel' ((hseid q hq).trans (hseid q' hq').symm) access
  rcases mem_qerEntries_key.mpr (.inl rfl : qerKey access q = qerKey access q ∨ _) with ⟨v, hv⟩
  rcases mem_qerEntries_key.mpr (.inl hkey : qerKey access q = qerKey access q' ∨ _) with
    ⟨v', hv'⟩
  exact h.eq_of_mem hq hq' hv hv'

/-! ## Modifications that keep the levels -/

/-- The marking of a modification lifts no stored QER to session level and leaves
at most one there, and where a stored QER loses that level another one has it. -/
structure KeepsLevels (before : PacketForwardingRules) (wr : Write) : Prop where
  application : ∀ o ∈ before.qers, ∀ q ∈ wr.session.rules.qers, q.qerID = o.qerID →
    o.qosLevel = .applicationQos → q.qosLevel = .applicationQos
  unique : ∀ q ∈ wr.session.rules.qers, ∀ q' ∈ wr.session.rules.qers,
    q.qosLevel = .sessionQos → q'.qosLevel = .sessionQos → q.qerID = q'.qerID
  passed : ∀ o ∈ before.qers, ∀ q ∈ wr.session.rules.qers, q.qerID = o.qerID →
    o.qosLevel = .sessionQos → q.qosLevel = .applicationQos →
      ∃ q' ∈ wr.session.rules.qers, q'.qosLevel = .sessionQos

instance (before : PacketForwardingRules) (wr : Write) : Decidable (KeepsLevels before wr) :=
  decidable_of_iff (_ ∧ _ ∧ _)
    ⟨fun h => ⟨h.1, h.2.1, h.2.2⟩, fun h => ⟨h.application, h.unique, h.passed⟩⟩

def Request.KeepsQerLevels (agent : AgentConf) (w : World BessState) : Request → Prop
  | .modification smreq =>
    ∀ wr ∈ modificationWrite agent smreq w, KeepsLevels (storedRules w.conn.store smreq.seid) wr
  | _ => True

namespace Parsed

variable {m : Parsed} {s : PFCPSession} {seid : UInt64}

theorem session_qer_ids :
    (m.write s).session.rules.qers.map Qer.qerID =
      s.rules.qers.map Qer.qerID ++ m.createQERs.map Qer.qerID := by
  rcases m.write_qers (s := s) with ⟨l, c, found, hrev, hcreated, hsession, -, -⟩
  rw [hsession, markSessionQer_ids, map_append, hrev.map_key, hcreated]

theorem session_qer_cases
    (hnodup : (s.rules.qers.map Qer.qerID ++ m.createQERs.map Qer.qerID).Nodup) (q : Qer)
    (hq : q ∈ (m.write s).session.rules.qers) :
    q ∈ (m.write s).updated.qers ∨ ∃ o ∈ s.rules.qers, q = o ∨ q = o.markSession := by
  rcases m.write_qers (s := s) with ⟨l, c, found, hrev, -, hsession, hupdated, -⟩
  rw [hsession] at hq
  rw [hupdated]
  have hmark := forall₂_markSessionQer (m.heldPDRs s).1 (l ++ c)
  have hids := markSessionQer_ids (m.heldPDRs s).1 (l ++ c)
  generalize (markSessionQer (m.heldPDRs s).1 (l ++ c)).2 = marked at hq hmark hids ⊢
  rw [← take_append_drop l.length marked] at hq
  rcases mem_append.mp hq with htake | hdrop
  · have hold : List.Forall₂ (fun q₀ q => q = q₀ ∨ q = q₀.markSession) l
        (marked.take l.length) := by
      have hfront := List.forall₂_take l.length hmark
      rwa [take_left] at hfront
    rcases exists_left hold htake with ⟨q₀, hq₀, heq⟩
    have hid : q.qerID = q₀.qerID := by rcases heq with rfl | rfl <;> rfl
    by_cases htouched : q₀.qerID ∈ found.map Qer.qerID
    · left
      refine mem_append_right _ ((mem_heldVersionsLoop_iff ?_).mpr ⟨htake, hid ▸ htouched⟩)
      rw [map_take, hids, map_append, take_left' (by simp), hrev.map_key]
      exact hnodup.of_append_left
    · right
      rcases hrev.exists_old hq₀ with ⟨o, ho, hkey, rfl | hbad⟩
      · exact ⟨q₀, ho, heq⟩
      · exact absurd (hkey ▸ hbad) htouched
  · exact .inl (mem_append_left _ hdrop)

theorem qer_writes (hs : ∀ q ∈ s.rules.qers, q.fseID = seid) (hown : m.Owned seid)
    (hapart : (qerFamily conf).Apart s.rules.qers)
    (hfresh : FreshIDs (s.rules.qers.map Qer.qerID) (m.createQERs.map Qer.qerID))
    (hkeeps : KeepsLevels s.rules (m.write s)) :
    (qerFamily conf).Writes s.rules.qers (m.write s).session.rules.qers
      (m.write s).updated.qers := by
  have hids := hfresh.append hapart.nodup
  have hnodup : ((m.write s).session.rules.qers.map Qer.qerID).Nodup := by
    rw [session_qer_ids]
    exact hids
  have hseid := session_qer_fseID (s := s) hs hown
  -- What is not written is an old QER, at its old level.
  have hkept : ∀ q ∈ (m.write s).session.rules.qers, q ∉ (m.write s).updated.qers →
      q ∈ s.rules.qers := by
    intro q hq hnot
    rcases (session_qer_cases hids q hq).resolve_left hnot with ⟨o, ho, rfl | rfl⟩
    · exact ho
    · cases hlevel : o.qosLevel with
      | applicationQos =>
        have hlifted := hkeeps.application o ho _ hq rfl hlevel
        exact absurd hlifted (by simp [Qer.markSession])
      | sessionQos =>
        have hsame : o.markSession = o := by simp [Qer.markSession, ← hlevel]
        rwa [hsame]
  refine ⟨qerFamily_apart hnodup hkeeps.unique, write_updated_sub.qers, ?_, ?_⟩
  · intro q hq hnot x hx
    exact Family.mem_all.mpr ⟨q, hkept q hq hnot, hx⟩
  · intro k v hold hnone
    rcases Family.mem_all.mp hold with ⟨o, ho, hov⟩
    have hexists : o.qerID ∈ (m.write s).session.rules.qers.map Qer.qerID := by
      rw [session_qer_ids]
      exact mem_append_left _ (mem_map_of_mem ho)
    rcases mem_map.mp hexists with ⟨q, hq, hid⟩
    have hfseid : q.fseID = o.fseID := (hseid q hq).trans (hs o ho).symm
    -- A QER at a key of the old one is not written.
    have hunwritten : ∀ q' ∈ (m.write s).session.rules.qers,
        (∀ srcIface, qerKey srcIface q' = qerKey srcIface o) → q' ∈ s.rules.qers := by
      intro q' hq' hkeys
      apply hkept q' hq'
      intro hwritten
      rcases mem_all_of_key hwritten hkeys hov with ⟨v', hv'⟩
      exact hnone v' hv'
    by_cases hlevel : q.qosLevel = o.qosLevel
    · have hold' := hunwritten q hq (qerKey_congr hid hlevel hfseid)
      have heq : q = o := inj_on_of_nodup_map hapart.nodup hold' ho hid
      exact Family.mem_all.mpr ⟨q, hq, heq ▸ hov⟩
    · exfalso
      cases holevel : o.qosLevel with
      | applicationQos =>
        exact hlevel ((hkeeps.application o ho q hq hid holevel).trans holevel.symm)
      | sessionQos =>
        have hqlevel : q.qosLevel = .applicationQos := by
          cases hcase : q.qosLevel with
          | applicationQos => rfl
          | sessionQos => exact absurd (hcase.trans holevel.symm) hlevel
        -- The level was passed on, to a QER that would have been written.
        rcases hkeeps.passed o ho q hq hid holevel hqlevel with ⟨q', hq', hlevel'⟩
        have hold' := hunwritten q' hq'
          (qerKey_session hlevel' holevel ((hseid q' hq').trans (hs o ho).symm))
        have heq := sessionQer_unique hapart hs hold' ho hlevel' holevel
        have hsame : q' = q :=
          inj_on_of_nodup_map hnodup hq' hq (by rw [heq, hid])
        rw [hsame, hqlevel] at hlevel'
        exact absurd hlevel' (by decide)

end Parsed

theorem qerKind_obligations {agent : AgentConf} {req : Request} {accepted : Bool}
    {w w' : World BessState} (hok : StoreOk w.conn.store) (h : (qerKind conf).Conforms w)
    (hfresh : FreshIDs ((req.held w.conn.store).qers.map Qer.qerID) req.createdQERs)
    (hkeeps : accepted = true → req.KeepsQerLevels agent w) :
    (qerKind conf).Obligations agent req w w' accepted := by
  constructor
  · intro batch _ q _ seid hne q' hq'
    refine qerFamily_disjoint (.inl ?_)
    rw [(hok.owned seid).qers q' hq']
    exact Ne.symm hne
  · rintro sereq m new rfl hrules hown hnames -
    have hids := filterMap_name_eq hnames.qers
    have happ : ∀ q ∈ m.createQERs, q.qosLevel = .applicationQos := fun q hq =>
      (hown.qers q (mem_append_left _ hq)).2
    have hmarked : (qerFamily conf).Apart (markSessionQer m.createPDRs m.createQERs).2 := by
      refine qerFamily_apart ?_ ?_
      · rw [markSessionQer_ids]
        exact hids ▸ hfresh.nodup
      · intro q hq q' hq' hlevel hlevel'
        rw [markSessionQer_unique happ hq hq' hlevel hlevel']
    rw [Parsed.installed_eq hrules]
    exact hmarked
  · rintro smreq m s rfl hs hown hnames hwrite haccepted -
    have hids := filterMap_name_eq hnames.qers
    refine Parsed.qer_writes ?_ hown ?_ ?_ ?_
    · rw [hs]
      exact (hok.owned smreq.seid).qers
    · rw [hs]
      exact h.apart smreq.seid
    · rw [hs, ← hids]
      exact hfresh
    · rw [hs]
      exact hkeeps haccepted (m.write s) hwrite

/-! ## Whole runs -/

structure QerTablesConform (conf : BessConf) (w : World BessState) (seid : UInt64) : Prop where
  application : ∀ fields e, (w.tables (.qerLookup .appQERLookup fields) = some e ∧
      carriesFSEID seid (.qerLookup .appQERLookup fields) e) ↔
    ∃ q ∈ (storedRules w.conn.store seid).qers, q.qosLevel = .applicationQos ∧
      (.qerLookup .appQERLookup fields, e) ∈ qerEntries conf q
  session : ∀ fields e, (w.tables (.qerLookup .sessionQERLookup fields) = some e ∧
      carriesFSEID seid (.qerLookup .sessionQERLookup fields) e) ↔
    ∃ q ∈ (storedRules w.conn.store seid).qers, q.qosLevel = .sessionQos ∧
      (.qerLookup .sessionQERLookup fields, e) ∈ qerEntries conf q
  unique : ∀ q ∈ (storedRules w.conn.store seid).qers,
    ∀ q' ∈ (storedRules w.conn.store seid).qers,
      q.qosLevel = .sessionQos → q'.qosLevel = .sessionQos → q = q'

theorem table_of_mem_qerEntries {q : Qer} {table : QosTable} {fields : List FieldData}
    {e : RuleEntry} (h : (.qerLookup table fields, e) ∈ qerEntries conf q) : q.table = table := by
  rcases mem_qerEntries_key.mp ⟨e, h⟩ with hk | hk <;> exact (RuleKey.qerLookup.inj hk).1.symm

theorem Qer.table_eq_app {q : Qer} : q.table = .appQERLookup ↔ q.qosLevel = .applicationQos := by
  cases hlevel : q.qosLevel <;> simp [Qer.table, hlevel]

theorem Qer.table_eq_session {q : Qer} :
    q.table = .sessionQERLookup ↔ q.qosLevel = .sessionQos := by
  cases hlevel : q.qosLevel <;> simp [Qer.table, hlevel]

theorem RuleKind.Conforms.qerTables {w : World BessState} (h : (qerKind conf).Conforms w)
    (hok : StoreOk w.conn.store) {seid : UInt64} (hseid : seid ≠ 0) :
    QerTablesConform conf w seid := by
  have htable : ∀ table fields e, (w.tables (.qerLookup table fields) = some e ∧
        carriesFSEID seid (.qerLookup table fields) e) ↔
      ∃ q ∈ (storedRules w.conn.store seid).qers,
        (.qerLookup table fields, e) ∈ qerEntries conf q := by
    exact fun table fields e => h.mem_tables hseid (by trivial)
  refine ⟨?_, ?_, ?_⟩
  · intro fields e
    rw [htable]
    constructor
    · rintro ⟨q, hq, he⟩
      exact ⟨q, hq, Qer.table_eq_app.mp (table_of_mem_qerEntries he), he⟩
    · rintro ⟨q, hq, -, he⟩
      exact ⟨q, hq, he⟩
  · intro fields e
    rw [htable]
    constructor
    · rintro ⟨q, hq, he⟩
      exact ⟨q, hq, Qer.table_eq_session.mp (table_of_mem_qerEntries he), he⟩
    · rintro ⟨q, hq, -, he⟩
      exact ⟨q, hq, he⟩
  · intro q hq q' hq'
    exact sessionQer_unique (h.apart seid) (hok.owned seid).qers hq hq'

/-- What the requests of a run must meet: clean batches and Create QERs under new
IDs. -/
structure QerRun (conf : BessConf) (req : Request) (w w' : World BessState) : Prop where
  clean : CleanBetween conf w w'
  fresh : FreshIDs ((req.held w.conn.store).qers.map Qer.qerID) req.createdQERs

instance (conf : BessConf) (req : Request) (w w' : World BessState) :
    Decidable (QerRun conf req w w') :=
  decidable_of_iff (_ ∧ _) ⟨fun h => ⟨h.1, h.2⟩, fun h => ⟨h.clean, h.fresh⟩⟩

/-- In every run whose accepted modifications keep the levels, both tables follow
the store, and after an accepted deletion they hold nothing of the session. -/
theorem qerLookup_conforms (agent : AgentConf) (conf : BessConf) (oracle : Nat → BatchOutcome)
    (w₀ w : World BessState) (hstart : Fresh w₀)
    (hrun : RunsWhen agent conf oracle (fun req w w' => QerRun conf req w w' ∧
      ((serve agent (bess conf oracle) req w).1 = true → req.KeepsQerLevels agent w)) w₀ w) :
    (∀ seid, seid ≠ 0 → QerTablesConform conf w seid) ∧
    ∀ sdreq w', w' = (serve agent (bess conf oracle) (.deletion sdreq) w).2 →
      (serve agent (bess conf oracle) (.deletion sdreq) w).1 = true →
      QerRun conf (.deletion sdreq) w w' → ∀ table fields e,
        w'.tables (.qerLookup table fields) = some e →
          ¬ carriesFSEID sdreq.seid (.qerLookup table fields) e := by
  rcases RuleKind.Conforms.run (K := qerKind conf) hstart hrun (fun _ _ _ hstep => hstep.1.clean)
    (fun _ _ _ hok h hstep => qerKind_obligations hok h hstep.1.fresh hstep.2) with ⟨hok, h⟩
  refine ⟨fun seid hseid => h.qerTables hok hseid, ?_⟩
  rintro sdreq w' rfl haccepted hstep table fields e he hcarries
  have hserved := serve_served agent conf oracle (.deletion sdreq) w
  have hnone := Deleted.storedRules_eq hok (haccepted ▸ hserved)
  have hafter := (h.step hok hserved hstep.clean
    (qerKind_obligations hok h hstep.fresh fun _ => trivial)).qerTables
    (hok.step hserved hstep.clean) hnone.1
  cases table with
  | appQERLookup =>
    rcases (hafter.application fields e).mp ⟨he, hcarries⟩ with ⟨q, hq, -⟩
    rw [hnone.2] at hq
    simp at hq
  | sessionQERLookup =>
    rcases (hafter.session fields e).mp ⟨he, hcarries⟩ with ⟨q, hq, -⟩
    rw [hnone.2] at hq
    simp at hq

/-! ### A session with two QERs, the second of them at session level -/

def Qer.sample (qerID : UInt32) (mbr : UInt64) (qosLevel : QosLevel) (fseidIP : UInt32) : Qer where
  qerID
  qosLevel
  qfi := 9
  ulMbr := mbr
  dlMbr := mbr
  fseID := 1
  fseidIP

def establishTwoQers : SessionEstablishmentRequest :=
  .sample [.sample 1 100 [1, 2]] [] [.sample 1 1000, .sample 2 2000]

def qerOracle : Nat → BatchOutcome :=
  carryOut .sample [
    { pdrs := [((parsePDR (.sample 1 100 [1, 2]) 1 ∅ none).1.toOption.map fun p =>
        { p with fseidIP := ip2int [10, 0, 0, 2] }).getD {}]
      qers := [.sample 1 1000 .applicationQos (ip2int [10, 0, 0, 2]),
        .sample 2 2000 .sessionQos (ip2int [10, 0, 0, 2])] },
    { qers := [.sample 2 5000 .sessionQos 0, .sample 1 3000 .sessionQos 0] }]

def qerRun₁ : World BessState :=
  (serve .sample (bess .sample qerOracle) (.establishment establishTwoQers) .sample).2

def updateSessionQer : Request := .modification { seid := 1, updateQER := [.sample 2 5000] }

def sameLevelRun₂ : World BessState :=
  (serve .sample (bess .sample qerOracle) updateSessionQer qerRun₁).2

/-- An update of the session QER that leaves it selected. -/
theorem qerLookup_conforms_after_update :
    (serve .sample (bess .sample qerOracle) updateSessionQer qerRun₁).1 = true ∧
      (storedRules sameLevelRun₂.conn.store 1).qers.map (fun q => (q.qerID, q.qosLevel, q.ulMbr)) =
        [(1, .applicationQos, 1000), (2, .sessionQos, 5000)] ∧
      QerTablesConform .sample sameLevelRun₂ 1 := by
  refine ⟨by decide, by decide, (qerLookup_conforms .sample .sample qerOracle .sample sameLevelRun₂
    World.sample_fresh ?_).1 1 (by decide)⟩
  refine .tail (.single ⟨.establishment establishTwoQers, rfl, ?_⟩) ⟨updateSessionQer, rfl, ?_⟩
  · exact ⟨by decide, fun _ => trivial⟩
  · refine ⟨by decide, fun _ => ?_⟩
    have hkeeps : ∀ wr ∈ modificationWrite .sample
        { seid := 1, updateQER := [.sample 2 5000] } qerRun₁,
        KeepsLevels (storedRules qerRun₁.conn.store 1) wr := by decide
    exact hkeeps

def updateOtherQer : Request := .modification { seid := 1, updateQER := [.sample 1 3000] }

def secondSessionRun₂ : World BessState :=
  (serve .sample (bess .sample qerOracle) updateOtherQer qerRun₁).2

/-- An update that gives the other QER the larger rate is accepted, and leaves
both QERs stored at session level and the entry of the first one at application
level in the table. -/
theorem second_session_qer :
    (serve .sample (bess .sample qerOracle) (.establishment establishTwoQers) .sample).1 = true ∧
      QerRun .sample (.establishment establishTwoQers) .sample qerRun₁ ∧
      (serve .sample (bess .sample qerOracle) updateOtherQer qerRun₁).1 = true ∧
      QerRun .sample updateOtherQer qerRun₁ secondSessionRun₂ ∧
      (storedRules secondSessionRun₂.conn.store 1).qers.map Qer.qosLevel =
        [.sessionQos, .sessionQos] ∧
      (secondSessionRun₂.tables (qerKey access (.sample 1 1000 .applicationQos 0))).isSome ∧
      ¬ QerTablesConform .sample secondSessionRun₂ 1 := by
  refine ⟨by decide, by decide, by decide, by decide, by decide, by decide, ?_⟩
  intro hconforms
  have hqers : (storedRules secondSessionRun₂.conn.store 1).qers =
      [.sample 1 3000 .sessionQos 0, .sample 2 2000 .sessionQos (ip2int [10, 0, 0, 2])] := by decide
  have hunique := hconforms.unique (.sample 1 3000 .sessionQos 0) (by rw [hqers]; simp)
    (.sample 2 2000 .sessionQos (ip2int [10, 0, 0, 2])) (by rw [hqers]; simp) rfl rfl
  exact absurd hunique (by decide)

end Upf
