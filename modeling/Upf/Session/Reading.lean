import Upf.Session.Modification

/-!
# What a message is read into

A message whose rules all parse is, for the session, six lists of rules: what it
creates and what it updates, of each kind.  This module gives the draft such a
message builds in closed form, so that later proofs never look at the parse
loops again.
-/

namespace Upf

open Lib KeyedList List Except

/-! ## Drafts in closed form -/

structure Parsed where
  createPDRs : List Pdr := []
  createFARs : List Far := []
  createQERs : List Qer := []
  updatePDRs : List Pdr := []
  updateFARs : List Far := []
  updateQERs : List Qer := []

namespace Parsed

/-- All rules carry the SEID, and no QER is marked yet. -/
structure Owned (m : Parsed) (seid : UInt64) : Prop where
  pdrs : ∀ p ∈ m.createPDRs ++ m.updatePDRs, p.fseID = seid
  fars : ∀ f ∈ m.createFARs ++ m.updateFARs, f.fseID = seid
  qers : ∀ q ∈ m.createQERs ++ m.updateQERs, q.fseID = seid ∧ q.qosLevel = .applicationQos

variable (m : Parsed)

def create (d : Draft) : Draft :=
  m.createQERs.foldl Draft.createQER
    (m.createFARs.foldl Draft.createFAR (m.createPDRs.foldl Draft.createPDR d))

def update (d : Draft) : Draft :=
  m.updateQERs.foldl Draft.updateQER
    (m.updateFARs.foldl Draft.updateFAR (m.updatePDRs.foldl Draft.updatePDR d))

end Parsed

section Folds

variable (d : Draft)

theorem foldl_createPDR (ps : List Pdr) :
    ps.foldl Draft.createPDR d =
      { d with
        session := { d.session with
          rules := { d.session.rules with pdrs := d.session.rules.pdrs ++ ps } }
        addPDRs := d.addPDRs ++ ps } := by
  induction ps generalizing d with
  | nil => simp
  | cons p ps ih => simp [ih, Draft.createPDR, PFCPSession.createPDR]

theorem foldl_createFAR (fs : List Far) :
    fs.foldl Draft.createFAR d =
      { d with
        session := { d.session with
          rules := { d.session.rules with fars := d.session.rules.fars ++ fs } }
        addFARs := d.addFARs ++ fs } := by
  induction fs generalizing d with
  | nil => simp
  | cons f fs ih => simp [ih, Draft.createFAR, PFCPSession.createFAR]

theorem foldl_createQER (qs : List Qer) :
    qs.foldl Draft.createQER d =
      { d with
        session := { d.session with
          rules := { d.session.rules with qers := d.session.rules.qers ++ qs } }
        addQERs := d.addQERs ++ qs } := by
  induction qs generalizing d with
  | nil => simp
  | cons q qs ih => simp [ih, Draft.createQER, PFCPSession.createQER]

theorem foldl_updatePDR (us : List Pdr) :
    us.foldl Draft.updatePDR d =
      { d with
        session := { d.session with rules := { d.session.rules with
          pdrs := (us.foldl (Revised.step Pdr.pdrID) (d.session.rules.pdrs, d.addPDRs)).1 } }
        addPDRs := (us.foldl (Revised.step Pdr.pdrID) (d.session.rules.pdrs, d.addPDRs)).2 } := by
  induction us generalizing d with
  | nil => rfl
  | cons u us ih =>
    rw [foldl_cons, ih, foldl_cons]
    cases hu : replaceFirst Pdr.pdrID u d.session.rules.pdrs <;>
      simp [Draft.updatePDR, PFCPSession.updatePDR, Revised.step, hu]

theorem foldl_updateQER (us : List Qer) :
    us.foldl Draft.updateQER d =
      { d with
        session := { d.session with rules := { d.session.rules with
          qers := (us.foldl (Revised.step Qer.qerID) (d.session.rules.qers, d.addQERs)).1 } }
        addQERs := (us.foldl (Revised.step Qer.qerID) (d.session.rules.qers, d.addQERs)).2 } := by
  induction us generalizing d with
  | nil => rfl
  | cons u us ih =>
    rw [foldl_cons, ih, foldl_cons]
    cases hu : replaceFirst Qer.qerID u d.session.rules.qers <;>
      simp [Draft.updateQER, PFCPSession.updateQER, Revised.step, hu]

theorem foldl_updateFAR (us : List Far) :
    ∃ markers : List (List UInt8),
      us.foldl Draft.updateFAR d =
        { d with
          session := { d.session with rules := { d.session.rules with
            fars := (us.foldl (Revised.step Far.farID) (d.session.rules.fars, d.addFARs)).1 } }
          addFARs := (us.foldl (Revised.step Far.farID) (d.session.rules.fars, d.addFARs)).2
          endMarkerList := d.endMarkerList ++ markers } ∧
      markers.length =
        (us.foldl (Revised.step Far.farID) (d.session.rules.fars, [])).2.countP
          Far.sendEndMarker := by
  induction us generalizing d with
  | nil => exact ⟨[], by simp, rfl⟩
  | cons u us ih =>
    rw [foldl_cons, foldl_cons, foldl_cons]
    cases hu : replaceFirst Far.farID u d.session.rules.fars with
    | none =>
      have hupd : d.updateFAR u = d := by
        simp [Draft.updateFAR, PFCPSession.updateFAR_of_replaceFirst_none hu]
      rw [hupd]
      simpa [Revised.step, hu] using ih d
    | some fars =>
      rcases PFCPSession.updateFAR_of_replaceFirst d.endMarkerList hu with
        ⟨v, -, hok⟩
      rcases ih (d.updateFAR u) with ⟨markers, hfold, hcount⟩
      refine ⟨(if u.sendEndMarker then [endMarkerPacket v] else []) ++ markers, ?_, ?_⟩
      · rw [hfold]
        cases hsend : u.sendEndMarker <;>
          simp [Draft.updateFAR, hok, Revised.step, hu, hsend, addEndMarker]
      · have hstep : Revised.step Far.farID (d.session.rules.fars, []) u = (fars, [u]) := by
          simp [Revised.step, hu]
        have hfars : (d.updateFAR u).session.rules.fars = fars := by
          simp [Draft.updateFAR, hok]
        rw [hstep, Revised.foldl_step_append, countP_append, length_append, hcount,
          hfars]
        cases hsend : u.sendEndMarker <;> simp [hsend]

end Folds

/-! ## One IE -/

def PdrIE.named (ie : PdrIE) : Option UInt32 := ie.pdrID.toOption.map UInt16.toUInt32

def FarIE.named (ie : FarIE) : Option UInt32 := ie.farID.toOption

def QerIE.named (ie : QerIE) : Option UInt32 := ie.qerID.toOption

section Single

variable {conf : AgentConf} {seid : UInt64} {fseidIP : UInt32} {res res' : Resources}

theorem readPDR_parsed {ie : PdrIE} {p : Pdr}
    (h : readPDR conf seid fseidIP ie res = (.ok p, res')) :
    ∃ p₀ ippool, parsePDR ie seid conf.appPFDs res.1 = (.ok p₀, ippool) ∧
      p = { p₀ with fseidIP } := by
  unfold readPDR at h
  rcases hparse : parsePDR ie seid conf.appPFDs res.1 with ⟨f | p₀, ippool⟩
  · simp [hparse] at h
  · simp only [hparse, Prod.mk.injEq, ok.injEq] at h
    exact ⟨p₀, ippool, rfl, h.1.symm⟩

theorem named_of_parsePDR {ie : PdrIE} {p : Pdr} {ippool ippool' : Option IPPool}
    (h : parsePDR ie seid conf.appPFDs ippool = (.ok p, ippool')) : ie.named = some p.pdrID := by
  rcases parsePDR_pdrID h with ⟨id, hid, hpdrID⟩
  simp [PdrIE.named, hid, hpdrID, Except.toOption]

theorem readPDR_ok {ie : PdrIE} {p : Pdr}
    (h : readPDR conf seid fseidIP ie res = (.ok p, res')) :
    p.fseID = seid ∧ ie.named = some p.pdrID := by
  rcases readPDR_parsed h with ⟨p₀, ippool, hparse, rfl⟩
  rcases parsePDR_read hparse with ⟨_, _, hread⟩
  have hnamed := named_of_parsePDR hparse
  exact ⟨hread.fseID, hnamed⟩

theorem readPDR_resources (ie : PdrIE) (res : Resources) :
    IPPool.Looked seid res.1 (readPDR conf seid fseidIP ie res).2.1 ∧
      (readPDR conf seid fseidIP ie res).2.2 = res.2 := by
  have hpool := parsePDR_pool ie seid conf.appPFDs res.1
  unfold readPDR
  rcases hparse : parsePDR ie seid conf.appPFDs res.1 with ⟨f | p₀, ippool⟩ <;>
    exact ⟨by rwa [hparse] at hpool, rfl⟩

theorem readFAR_ok {op : Operation} {ie : FarIE} {f : Far}
    (h : readFAR conf seid fseidIP op ie res = (.ok f, res')) :
    f.fseID = seid ∧ ie.named = some f.farID := by
  unfold readFAR at h
  cases hparse : parseFAR ie seid conf.addresses op with
  | error => simp [hparse] at h
  | ok =>
    simp only [hparse, Prod.mk.injEq, ok.injEq] at h
    have hspec := parseFAR_spec hparse
    rw [← h.1]
    exact ⟨hspec.1, by simp [FarIE.named, hspec.2, Except.toOption]⟩

theorem readFAR_resources (op : Operation) (ie : FarIE) (res : Resources) :
    (readFAR conf seid fseidIP op ie res).2 = res := by
  unfold readFAR
  cases parseFAR ie seid conf.addresses op <;> rfl

theorem readQER_ok {ie : QerIE} {q : Qer} (h : readQER seid fseidIP ie res = (.ok q, res')) :
    (q.fseID = seid ∧ q.qosLevel = .applicationQos) ∧ ie.named = some q.qerID := by
  unfold readQER at h
  cases hparse : parseQER ie seid with
  | error => simp [hparse] at h
  | ok =>
    simp only [hparse, Prod.mk.injEq, ok.injEq] at h
    have hspec := parseQER_spec hparse
    rw [← h.1]
    exact ⟨⟨hspec.1, hspec.2.1⟩, by simp [QerIE.named, hspec.2.2, Except.toOption]⟩

theorem readQER_resources (ie : QerIE) (res : Resources) :
    (readQER seid fseidIP ie res).2 = res := by
  unfold readQER
  cases parseQER ie seid <;> rfl

theorem readCreatePDR_parsed {ie : PdrIE} {p : Pdr}
    (h : readCreatePDR conf seid fseidIP ie res = (.ok p, res')) :
    ∃ p₀ ippool, parsePDR ie seid conf.appPFDs res.1 = (.ok p₀, ippool) ∧
      ((p₀.upAllocateFteid = true ∧ ∃ fteid gen, res.2.allocate = (.ok fteid, gen) ∧
        p = { setFteid conf p₀ fteid with fseidIP } ∧ res' = (ippool, gen)) ∨
      (p₀.upAllocateFteid = false ∧ p = { p₀ with fseidIP } ∧ res' = (ippool, res.2))) := by
  unfold readCreatePDR at h
  rcases hparse : parsePDR ie seid conf.appPFDs res.1 with ⟨f | p₀, ippool⟩
  · simp [hparse] at h
  · refine ⟨p₀, ippool, rfl, ?_⟩
    simp only [hparse] at h
    split at h
    · next hchoose =>
      rcases halloc : res.2.allocate with ⟨e | fteid, gen⟩
      · simp [halloc] at h
      · simp only [halloc, Prod.mk.injEq, ok.injEq] at h
        exact .inl ⟨hchoose, fteid, gen, rfl, h.1.symm, h.2.symm⟩
    · next hchoose =>
      simp only [Prod.mk.injEq, ok.injEq] at h
      exact .inr ⟨by simpa using hchoose, h.1.symm, h.2.symm⟩

theorem readCreatePDR_ok {ie : PdrIE} {p : Pdr}
    (h : readCreatePDR conf seid fseidIP ie res = (.ok p, res')) :
    (∃ pdi, ie.pdi = .ok pdi ∧ ReadSoFar seid p (ueAddressChosen pdi) res'.1) ∧
      ie.named = some p.pdrID := by
  rcases readCreatePDR_parsed h with
    ⟨p₀, ippool, hparse, ⟨-, fteid, gen, -, rfl, rfl⟩ | ⟨-, rfl, rfl⟩⟩ <;>
  · rcases parsePDR_read hparse with ⟨pdi, hpdi, hread⟩
    have hnamed := named_of_parsePDR hparse
    exact ⟨⟨pdi, hpdi, hread.of_kept ⟨rfl, rfl, rfl⟩⟩, hnamed⟩

theorem readCreatePDR_pool (ie : PdrIE) (res : Resources) :
    IPPool.Looked seid res.1 (readCreatePDR conf seid fseidIP ie res).2.1 := by
  have hpool := parsePDR_pool ie seid conf.appPFDs res.1
  unfold readCreatePDR
  rcases hparse : parsePDR ie seid conf.appPFDs res.1 with ⟨f | p₀, ippool⟩
  · rwa [hparse] at hpool
  · rw [hparse] at hpool
    dsimp only
    split
    · rcases halloc : res.2.allocate with ⟨e | fteid, gen⟩ <;> simpa [halloc] using hpool
    · exact hpool

end Single

/-! ## Whole messages -/

section Whole

variable {conf : AgentConf} {seid : UInt64} {fseidIP : UInt32}
  {smreq : SessionModificationRequest} {res res' : Resources}

theorem readPDRs_ok {use : Draft → Pdr → Draft} {ies : List PdrIE} {d d' : Draft}
    (h : readEach (readPDR conf seid fseidIP) use ies d res = (.ok d', res')) :
    ∃ ps : List Pdr, d' = ps.foldl use d ∧ (∀ p ∈ ps, p.fseID = seid) ∧
      List.Forall₂ (fun ie p => ∃ res res', readPDR conf seid fseidIP ie res = (.ok p, res'))
        ies ps := by
  rcases readEach_ok_reads h with ⟨ps, hd', hps⟩
  refine ⟨ps, hd', ?_, hps⟩
  intro p hp
  rcases exists_left hps hp with ⟨ie, -, _, _, hread⟩
  exact (readPDR_ok hread).1

theorem readFARs_ok {op : Operation} {use : Draft → Far → Draft} {ies : List FarIE}
    {d d' : Draft} (h : readEach (readFAR conf seid fseidIP op) use ies d res = (.ok d', res')) :
    ∃ fs : List Far, d' = fs.foldl use d ∧ (∀ f ∈ fs, f.fseID = seid) ∧
      ies.map FarIE.named = fs.map fun f => some f.farID := by
  rcases readEach_ok_reads h with ⟨fs, hd', hfs⟩
  refine ⟨fs, hd', ?_, map_name_eq (hfs.imp fun ie f ⟨_, _, hread⟩ => (readFAR_ok hread).2)⟩
  intro f hf
  rcases exists_left hfs hf with ⟨ie, -, _, _, hread⟩
  exact (readFAR_ok hread).1

theorem readQERs_ok {use : Draft → Qer → Draft} {ies : List QerIE} {d d' : Draft}
    (h : readEach (readQER seid fseidIP) use ies d res = (.ok d', res')) :
    ∃ qs : List Qer, d' = qs.foldl use d ∧
      (∀ q ∈ qs, q.fseID = seid ∧ q.qosLevel = .applicationQos) ∧
      ies.map QerIE.named = qs.map fun q => some q.qerID := by
  rcases readEach_ok_reads h with ⟨qs, hd', hqs⟩
  refine ⟨qs, hd', ?_, map_name_eq (hqs.imp fun ie q ⟨_, _, hread⟩ => (readQER_ok hread).2)⟩
  intro q hq
  rcases exists_left hqs hq with ⟨ie, -, _, _, hread⟩
  exact (readQER_ok hread).1

structure Parsed.Names (m : Parsed) (createPDR : List PdrIE) (createFAR : List FarIE)
    (createQER : List QerIE) : Prop where
  pdrs : createPDR.map PdrIE.named = m.createPDRs.map fun p => some p.pdrID
  fars : createFAR.map FarIE.named = m.createFARs.map fun f => some f.farID
  qers : createQER.map QerIE.named = m.createQERs.map fun q => some q.qerID

def Parsed.UpdatesFARs (conf : AgentConf) (seid : UInt64) (fseidIP : UInt32) (m : Parsed)
    (updateFAR : List FarIE) : Prop :=
  List.Forall₂ (fun ie f => ∃ res res', readFAR conf seid fseidIP .update ie res =
    (.ok f, res')) updateFAR m.updateFARs

structure Parsed.ReadsPDRs (conf : AgentConf) (seid : UInt64) (fseidIP : UInt32) (m : Parsed)
    (smreq : SessionModificationRequest) : Prop where
  created : List.Forall₂ (fun ie p => ∃ res res', readPDR conf seid fseidIP ie res =
    (.ok p, res')) smreq.createPDR m.createPDRs
  updated : List.Forall₂ (fun ie p => ∃ res res', readPDR conf seid fseidIP ie res =
    (.ok p, res')) smreq.updatePDR m.updatePDRs

theorem readModification_ok {d created d' : Draft}
    (h : readModification conf seid fseidIP smreq d res = (.ok (created, d'), res')) :
    ∃ m : Parsed, m.Owned seid ∧ m.Names smreq.createPDR smreq.createFAR smreq.createQER ∧
      m.UpdatesFARs conf seid fseidIP smreq.updateFAR ∧ m.ReadsPDRs conf seid fseidIP smreq ∧
      created = m.create d ∧ d' = m.update (m.create d) := by
  rcases andThen_ok h with ⟨d₁, res₁, hcreate, h⟩
  rcases andThen_ok h with ⟨d₂, res₂, hupdate, hend⟩
  simp only [Prod.mk.injEq, ok.injEq] at hend
  rcases hend with ⟨⟨rfl, rfl⟩, rfl⟩
  rcases andThen_ok hcreate with ⟨_, _, hcpdr, hcreate⟩
  rcases andThen_ok hcreate with ⟨_, _, hcfar, hcqer⟩
  rcases andThen_ok hupdate with ⟨_, _, hupdr, hupdate⟩
  rcases andThen_ok hupdate with ⟨_, _, hufar, huqer⟩
  rcases readPDRs_ok hcpdr with ⟨cps, rfl, hcps, hcreads⟩
  rcases readFARs_ok hcfar with ⟨cfs, rfl, hcfs, hcfids⟩
  rcases readQERs_ok hcqer with ⟨cqs, rfl, hcqs, hcqids⟩
  rcases readPDRs_ok hupdr with ⟨ups, rfl, hups, hupreads⟩
  rcases readEach_ok_reads hufar with ⟨ufs, rfl, hureads⟩
  rcases readQERs_ok huqer with ⟨uqs, rfl, huqs, -⟩
  have hcpids : smreq.createPDR.map PdrIE.named = cps.map fun p => some p.pdrID :=
    map_name_eq (hcreads.imp fun ie p ⟨_, _, hread⟩ => (readPDR_ok hread).2)
  refine ⟨⟨cps, cfs, cqs, ups, ufs, uqs⟩, ⟨?_, ?_, ?_⟩, ⟨hcpids, hcfids, hcqids⟩, hureads,
    ⟨hcreads, hupreads⟩, rfl, rfl⟩
  · exact forall_mem_append.mpr ⟨hcps, hups⟩
  · refine forall_mem_append.mpr ⟨hcfs, ?_⟩
    intro f hf
    rcases exists_left hureads hf with ⟨ie, -, _, _, hread⟩
    exact (readFAR_ok hread).1
  · exact forall_mem_append.mpr ⟨hcqs, huqs⟩

def ModificationDraws (seid : UInt64) (res res' : Resources) : Prop :=
  IPPool.Looked seid res.1 res'.1 ∧ res'.2 = res.2

theorem ModificationDraws.refl (seid : UInt64) (res : Resources) :
    ModificationDraws seid res res :=
  ⟨.refl _ _, rfl⟩

theorem ModificationDraws.trans {seid : UInt64} (res₁ res₂ res₃ : Resources)
    (h₁ : ModificationDraws seid res₁ res₂) (h₂ : ModificationDraws seid res₂ res₃) :
    ModificationDraws seid res₁ res₃ :=
  ⟨h₁.1.trans h₂.1, h₂.2.trans h₁.2⟩

theorem readFARsQERs_resources {op : Operation} {useFAR : Draft → Far → Draft}
    {useQER : Draft → Qer → Draft} (fars : List FarIE) (qers : List QerIE) (d : Draft)
    (res : Resources) :
    (andThen (readEach (readFAR conf seid fseidIP op) useFAR fars d res)
      fun d res => readEach (readQER seid fseidIP) useQER qers d res).2 = res := by
  rw [andThen_snd (readEach_snd readQER_resources qers), readEach_snd (readFAR_resources op)]

theorem readPDRs_draws {use : Draft → Pdr → Draft} (ies : List PdrIE) (d : Draft)
    (res : Resources) :
    ModificationDraws seid res (readEach (readPDR conf seid fseidIP) use ies d res).2 :=
  readEach_resource (ModificationDraws seid) (ModificationDraws.refl seid)
    ModificationDraws.trans readPDR_resources ies d res

variable (conf seid fseidIP) in
theorem readModification_resources (smreq : SessionModificationRequest) (d : Draft)
    (res : Resources) :
    ModificationDraws seid res (readModification conf seid fseidIP smreq d res).2 := by
  apply andThen_resource (ModificationDraws seid) ModificationDraws.trans
  · rw [readCreates, andThen_snd (readFARsQERs_resources _ _)]
    exact readPDRs_draws _ _ _
  · intro created res
    rw [andThen_snd fun _ _ => rfl, readUpdates, andThen_snd (readFARsQERs_resources _ _)]
    exact readPDRs_draws _ _ _

def PoolDraws (seid : UInt64) (res res' : Resources) : Prop := IPPool.Looked seid res.1 res'.1

theorem PoolDraws.trans {seid : UInt64} (res₁ res₂ res₃ : Resources)
    (h₁ : PoolDraws seid res₁ res₂) (h₂ : PoolDraws seid res₂ res₃) :
    PoolDraws seid res₁ res₃ :=
  IPPool.Looked.trans h₁ h₂

variable (conf seid fseidIP) in
theorem readEstablishment_resources (sereq : SessionEstablishmentRequest) (d : Draft)
    (res : Resources) :
    (readEstablishment conf seid fseidIP sereq d res).2 =
      (readEach (readCreatePDR conf seid fseidIP) Draft.createPDR sereq.createPDR d res).2 :=
  andThen_snd (readFARsQERs_resources _ _)

variable (conf seid fseidIP) in
theorem readEstablishment_pool (sereq : SessionEstablishmentRequest) (d : Draft)
    (res : Resources) :
    PoolDraws seid res (readEstablishment conf seid fseidIP sereq d res).2 := by
  rw [readEstablishment_resources]
  exact readEach_resource (PoolDraws seid) (fun p => .refl _ _) PoolDraws.trans
    readCreatePDR_pool _ _ _

theorem ReadSoFar.of_looked {p : Pdr} {chosen : Bool} {ippool ippool' : Option IPPool}
    (h : ReadSoFar seid p chosen ippool) (hlook : IPPool.Looked seid ippool ippool') :
    ReadSoFar seid p chosen ippool' := by
  refine ⟨h.fseID, ?_, ?_⟩
  · intro hflag
    rcases Option.isSome_iff_exists.mp (h.alloc hflag) with ⟨ip, hip⟩
    simp [hlook.leased_of_some hip]
  · intro hchosen
    rcases h.address hchosen with ⟨ip, hip, haddr⟩
    exact ⟨ip, hlook.leased_of_some hip, haddr⟩

structure Parsed.ReadFrom (conf : AgentConf) (seid : UInt64) (fseidIP : UInt32) (m : Parsed)
    (sereq : SessionEstablishmentRequest) : Prop where
  pdrs : List.Forall₂ (fun ie p => ∃ res res', readCreatePDR conf seid fseidIP ie res =
    (.ok p, res')) sereq.createPDR m.createPDRs
  fars : List.Forall₂ (fun ie f => ∃ res res', readFAR conf seid fseidIP .create ie res =
    (.ok f, res')) sereq.createFAR m.createFARs
  qers : List.Forall₂ (fun ie q => ∃ res res', readQER seid fseidIP ie res =
    (.ok q, res')) sereq.createQER m.createQERs
  updates : m.updatePDRs = [] ∧ m.updateFARs = [] ∧ m.updateQERs = []

variable {sereq : SessionEstablishmentRequest}

/-- An establishment that parses is three lists of rules.  Its PDRs carry the
address the pool records for the SEID where the choice was this node's. -/
theorem readEstablishment_ok {d d' : Draft}
    (h : readEstablishment conf seid fseidIP sereq d res = (.ok d', res')) :
    ∃ m : Parsed, m.ReadFrom conf seid fseidIP sereq ∧ d' = m.create d ∧
      List.Forall₂ (fun ie p => ∃ pdi, ie.pdi = .ok pdi ∧
        ReadSoFar seid p (ueAddressChosen pdi) res'.1) sereq.createPDR m.createPDRs := by
  rcases andThen_ok h with ⟨d₁, res₁, hpdr, h⟩
  obtain rfl : res₁ = res' := by rw [← readFARsQERs_resources _ _ d₁ res₁, h]
  rcases andThen_ok h with ⟨d₂, res₂, hfar, hqer⟩
  rcases readEach_ok (PoolDraws seid) (fun p => .refl _ _) PoolDraws.trans
    readCreatePDR_pool hpdr with ⟨ps, rfl, hps⟩
  rcases readEach_ok_reads hfar with ⟨fs, rfl, hfs⟩
  rcases readEach_ok_reads hqer with ⟨qs, rfl, hqs⟩
  refine ⟨⟨ps, fs, qs, [], [], []⟩, ⟨?_, hfs, hqs, ⟨rfl, rfl, rfl⟩⟩, rfl, ?_⟩
  · refine hps.imp ?_
    rintro ie p ⟨res, res', -, hread, -⟩
    exact ⟨res, res', hread⟩
  · refine hps.imp ?_
    rintro ie p ⟨_, _, -, hread, hlook⟩
    rcases readCreatePDR_ok hread with ⟨⟨pdi, hpdi, hsofar⟩, -⟩
    exact ⟨pdi, hpdi, hsofar.of_looked hlook⟩

theorem Parsed.ReadFrom.names {m : Parsed}
    (h : m.ReadFrom conf seid fseidIP sereq) :
    m.Names sereq.createPDR sereq.createFAR sereq.createQER := by
  refine ⟨map_name_eq (h.pdrs.imp ?_), map_name_eq (h.fars.imp ?_), map_name_eq (h.qers.imp ?_)⟩
  · rintro ie p ⟨_, _, hread⟩
    exact (readCreatePDR_ok hread).2
  · rintro ie f ⟨_, _, hread⟩
    exact (readFAR_ok hread).2
  · rintro ie q ⟨_, _, hread⟩
    exact (readQER_ok hread).2

theorem Parsed.ReadFrom.owned {m : Parsed}
    (h : m.ReadFrom conf seid fseidIP sereq) : m.Owned seid := by
  rcases h.updates with ⟨hup, huf, huq⟩
  refine ⟨?_, ?_, ?_⟩
  · intro p hp
    rw [hup, append_nil] at hp
    rcases exists_left h.pdrs hp with ⟨ie, -, _, _, hread⟩
    rcases (readCreatePDR_ok hread).1 with ⟨_, -, hsofar⟩
    exact hsofar.fseID
  · intro f hf
    rw [huf, append_nil] at hf
    rcases exists_left h.fars hf with ⟨ie, -, _, _, hread⟩
    exact (readFAR_ok hread).1
  · intro q hq
    rw [huq, append_nil] at hq
    rcases exists_left h.qers hq with ⟨ie, -, _, _, hread⟩
    exact (readQER_ok hread).1

/-- A refusal while an establishment is read never carries the accepting cause. -/
theorem readEstablishment_error {d : Draft}
    {refusal : Refusal}
    (h : readEstablishment conf seid fseidIP sereq d res = (.error refusal, res')) :
    refusal.cause ≠ .requestAccepted := by
  rcases andThen_error h with hpdr | ⟨_, _, -, h⟩
  · rcases readEach_error hpdr with ⟨ie, -, q, q', hread⟩
    unfold readCreatePDR at hread
    rcases hparse : parsePDR ie seid conf.appPFDs q.1 with ⟨f | p, ippool⟩
    · simp only [hparse, Prod.mk.injEq, error.injEq] at hread
      simp [← hread.1]
    · simp only [hparse] at hread
      split at hread
      · rcases halloc : q.2.allocate with ⟨e | fteid, gen⟩
        · simp only [halloc, Prod.mk.injEq, error.injEq] at hread
          simp [← hread.1]
        · simp [halloc] at hread
      · simp at hread
  rcases andThen_error h with hfar | ⟨_, _, -, hqer⟩
  · rcases readEach_error hfar with ⟨ie, -, q, q', hread⟩
    unfold readFAR at hread
    cases hparse : parseFAR ie seid conf.addresses .create with
    | error =>
      simp only [hparse, Prod.mk.injEq, error.injEq] at hread
      simp [← hread.1]
    | ok => simp [hparse] at hread
  · rcases readEach_error hqer with ⟨ie, -, q, q', hread⟩
    unfold readQER at hread
    cases hparse : parseQER ie seid with
    | error =>
      simp only [hparse, Prod.mk.injEq, error.injEq] at hread
      simp [← hread.1]
    | ok => simp [hparse] at hread

end Whole

end Upf
