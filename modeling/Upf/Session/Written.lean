import Upf.Session.Reading

/-!
# What a modification writes

The session a modification leaves, and the rules it writes of it, as functions
of the stored session and of the six lists of rules the message was read into.
-/

namespace Upf

open Lib KeyedList List Except

namespace Parsed

variable (m : Parsed) (s : PFCPSession)

def heldPDRs : List Pdr × List Pdr :=
  m.updatePDRs.foldl (Revised.step Pdr.pdrID) (s.rules.pdrs ++ m.createPDRs, [])

def heldFARs : List Far × List Far :=
  m.updateFARs.foldl (Revised.step Far.farID) (s.rules.fars ++ m.createFARs, [])

def heldQERs : List Qer × List Qer :=
  m.updateQERs.foldl (Revised.step Qer.qerID) (s.rules.qers ++ m.createQERs, [])

def marked : List Pdr × List Qer := markSessionQer (m.heldPDRs s).1 (m.heldQERs s).1

def session : PFCPSession :=
  { s with rules :=
    { pdrs := (m.marked s).1, fars := (m.heldFARs s).1, qers := (m.marked s).2 } }

def write : Write :=
  let pdrs := heldVersions Pdr.pdrID (m.marked s).1 s.rules.pdrs.length (m.heldPDRs s).2
  let fars := heldVersions Far.farID (m.heldFARs s).1 s.rules.fars.length (m.heldFARs s).2
  let qers := heldVersions Qer.qerID (m.marked s).2 s.rules.qers.length (m.heldQERs s).2
  { session := m.session s
    updated := { pdrs := pdrs.1, fars := fars.1, qers := qers.1 }
    createdPDRs := pdrs.2
    createdFARs := fars.2
    createdQERs := qers.2 }

theorem create_draft :
    m.create { session := s } =
      { session := { s with rules :=
          { pdrs := s.rules.pdrs ++ m.createPDRs
            fars := s.rules.fars ++ m.createFARs
            qers := s.rules.qers ++ m.createQERs } }
        addPDRs := m.createPDRs
        addFARs := m.createFARs
        addQERs := m.createQERs } := by
  simp [create, foldl_createPDR, foldl_createFAR, foldl_createQER]

theorem update_draft :
    ∃ markers : List (List UInt8),
      m.update (m.create { session := s }) =
        { session := { s with rules :=
            { pdrs := (m.heldPDRs s).1, fars := (m.heldFARs s).1, qers := (m.heldQERs s).1 } }
          addPDRs := m.createPDRs ++ (m.heldPDRs s).2
          addFARs := m.createFARs ++ (m.heldFARs s).2
          addQERs := m.createQERs ++ (m.heldQERs s).2
          endMarkerList := markers } ∧
      markers.length = (m.heldFARs s).2.countP Far.sendEndMarker := by
  rcases foldl_updateFAR (m.updatePDRs.foldl Draft.updatePDR (m.create { session := s }))
    m.updateFARs with ⟨markers, hfold, hcount⟩
  have hpdr := Revised.foldl_step_append Pdr.pdrID m.updatePDRs
    (s.rules.pdrs ++ m.createPDRs) m.createPDRs
  have hfar := Revised.foldl_step_append Far.farID m.updateFARs
    (s.rules.fars ++ m.createFARs) m.createFARs
  have hqer := Revised.foldl_step_append Qer.qerID m.updateQERs
    (s.rules.qers ++ m.createQERs) m.createQERs
  refine ⟨markers, ?_, ?_⟩
  · rw [update, hfold, foldl_updateQER, foldl_updatePDR, create_draft]
    simp [hpdr, hfar, hqer, heldPDRs, heldFARs, heldQERs]
  · rw [hcount, foldl_updatePDR, create_draft]
    rfl

theorem writeOf_eq :
    writeOf s.rules (m.create { session := s }) (m.update (m.create { session := s })) =
      m.write s := by
  rcases m.update_draft s with ⟨markers, hupdate, -⟩
  rw [hupdate, create_draft]
  simp [writeOf, write, session, marked, PFCPSession.markSessionQer]

variable {m s}

theorem write_fars :
    ∃ l c found, Revised Far.farID (found.map Far.farID) [] s.rules.fars l ∧
      c.map Far.farID = m.createFARs.map Far.farID ∧
      (m.write s).session.rules.fars = l ++ c ∧
      (m.write s).updated.fars = c ++ heldVersionsLoop Far.farID found [] l ∧
      (m.write s).createdFARs = c.length ∧
      ∀ f ∈ l ++ c, f ∈ s.rules.fars ∨ f ∈ m.createFARs ++ m.updateFARs := by
  rcases Revised.foldl_step Far.farID m.updateFARs m.createFARs []
    (Revised.refl _ _ s.rules.fars) with ⟨l, c, found, hfold, hrev, hkeys, hmem⟩
  have hheld : m.heldFARs s = (l ++ c, found) := hfold
  have hlen : s.rules.fars.length = l.length := hrev.length_eq.symm
  refine ⟨l, c, found, hrev, hkeys, ?_, ?_, ?_, by simpa [or_assoc] using hmem⟩
  · simp [write, session, hheld]
  · simp [write, heldVersions, hheld, hlen]
  · simp [write, heldVersions, hheld, hlen]

theorem write_pdrs :
    ∃ l c found, Revised Pdr.pdrID (found.map Pdr.pdrID) [] s.rules.pdrs l ∧
      c.map Pdr.pdrID = m.createPDRs.map Pdr.pdrID ∧
      (m.write s).session.rules.pdrs =
        (l ++ c).map (markPdr (l ++ c) (m.heldQERs s).1) ∧
      (m.write s).updated.pdrs = c.map (markPdr (l ++ c) (m.heldQERs s).1) ++
        heldVersionsLoop Pdr.pdrID found [] (l.map (markPdr (l ++ c) (m.heldQERs s).1)) ∧
      ∀ p ∈ l ++ c, p ∈ s.rules.pdrs ∨ p ∈ m.createPDRs ++ m.updatePDRs := by
  rcases Revised.foldl_step Pdr.pdrID m.updatePDRs m.createPDRs []
    (Revised.refl _ _ s.rules.pdrs) with ⟨l, c, found, hfold, hrev, hkeys, hmem⟩
  have hheld : m.heldPDRs s = (l ++ c, found) := hfold
  have hlen : s.rules.pdrs.length = l.length := hrev.length_eq.symm
  have hmarked : (m.marked s).1 = (l ++ c).map (markPdr (l ++ c) (m.heldQERs s).1) := by
    rw [marked, markSessionQer_pdrs, hheld]
  refine ⟨l, c, found, hrev, hkeys, ?_, ?_, by simpa [or_assoc] using hmem⟩
  · simp only [write, session, hmarked]
  · simp [write, heldVersions, hmarked, hheld, hlen]

theorem write_qers :
    ∃ l c found, Revised Qer.qerID (found.map Qer.qerID) [] s.rules.qers l ∧
      c.map Qer.qerID = m.createQERs.map Qer.qerID ∧
      (m.write s).session.rules.qers = (markSessionQer (m.heldPDRs s).1 (l ++ c)).2 ∧
      (m.write s).updated.qers =
        (markSessionQer (m.heldPDRs s).1 (l ++ c)).2.drop l.length ++
          heldVersionsLoop Qer.qerID found []
            ((markSessionQer (m.heldPDRs s).1 (l ++ c)).2.take l.length) ∧
      ∀ q ∈ l ++ c, q ∈ s.rules.qers ∨ q ∈ m.createQERs ++ m.updateQERs := by
  rcases Revised.foldl_step Qer.qerID m.updateQERs m.createQERs []
    (Revised.refl _ _ s.rules.qers) with ⟨l, c, found, hfold, hrev, hkeys, hmem⟩
  have hheld : m.heldQERs s = (l ++ c, found) := hfold
  have hlen : s.rules.qers.length = l.length := hrev.length_eq.symm
  have hmarked : (m.marked s).2 = (markSessionQer (m.heldPDRs s).1 (l ++ c)).2 := by
    rw [marked, hheld]
  refine ⟨l, c, found, hrev, hkeys, ?_, ?_, by simpa [or_assoc] using hmem⟩
  · simp only [write, session, hmarked]
  · simp only [write, heldVersions, hmarked, hheld, hlen]

variable {seid : UInt64}

theorem write_updated_sub : (m.write s).updated.Sub (m.write s).session.rules := by
  constructor
  · rcases m.write_pdrs (s := s) with ⟨l, c, found, -, -, hsession, hupdated, -⟩
    intro p hp
    rw [hupdated, heldVersionsLoop_map (markPdr_pdrID _ _), ← map_append] at hp
    rw [hsession]
    rcases mem_map.mp hp with ⟨p₀, hp₀, rfl⟩
    refine mem_map_of_mem ?_
    rcases mem_append.mp hp₀ with hp₀ | hp₀
    · exact mem_append_right _ hp₀
    · exact mem_append_left _ (mem_of_mem_heldVersionsLoop hp₀).1
  · rcases m.write_fars (s := s) with ⟨l, c, found, -, -, hsession, hupdated, -, -⟩
    intro f hf
    rw [hupdated] at hf
    rw [hsession]
    rcases mem_append.mp hf with hf | hf
    · exact mem_append_right _ hf
    · exact mem_append_left _ (mem_of_mem_heldVersionsLoop hf).1
  · rcases m.write_qers (s := s) with ⟨l, c, found, -, -, hsession, hupdated, -⟩
    intro q hq
    rw [hupdated] at hq
    rw [hsession]
    rcases mem_append.mp hq with hq | hq
    · exact mem_of_mem_drop hq
    · exact mem_of_mem_take (mem_of_mem_heldVersionsLoop hq).1

theorem session_pdr_cases (p : Pdr) (hp : p ∈ (m.write s).session.rules.pdrs) :
    p ∈ (m.write s).updated.pdrs ∨
      ∃ o ∈ s.rules.pdrs, ∃ qerIDList, p = { o with qerIDList } := by
  rcases m.write_pdrs (s := s) with ⟨l, c, found, hrev, -, hsession, hupdated, -⟩
  rw [hsession] at hp
  rw [hupdated, heldVersionsLoop_map (markPdr_pdrID _ _), ← map_append]
  rcases mem_map.mp hp with ⟨p₀, hp₀, rfl⟩
  rcases mem_append.mp hp₀ with hl | hc
  · rcases mem_heldVersions_of_revised hrev hl with hold | hwritten
    · exact .inr ⟨p₀, hold, _, markPdr_eq _ _ p₀⟩
    · exact .inl (mem_map_of_mem (mem_append_right _ hwritten))
  · exact .inl (mem_map_of_mem (mem_append_left _ hc))

theorem session_pdr_fseID (hpdrs : ∀ p ∈ s.rules.pdrs, p.fseID = seid) (hown : m.Owned seid)
    (p : Pdr) (hp : p ∈ (m.write s).session.rules.pdrs) : p.fseID = seid := by
  rcases m.write_pdrs (s := s) with ⟨l, c, found, -, -, hsession, -, hmem⟩
  rw [hsession] at hp
  rcases mem_map.mp hp with ⟨p₀, hp₀, rfl⟩
  rw [markPdr_fseID]
  exact (hmem p₀ hp₀).elim (hpdrs p₀) (hown.pdrs p₀)

theorem session_far_fseID (hfars : ∀ f ∈ s.rules.fars, f.fseID = seid) (hown : m.Owned seid)
    (f : Far) (hf : f ∈ (m.write s).session.rules.fars) : f.fseID = seid := by
  rcases m.write_fars (s := s) with ⟨l, c, found, -, -, hsession, -, -, hmem⟩
  rw [hsession] at hf
  exact (hmem f hf).elim (hfars f) (hown.fars f)

theorem session_qer_fseID (hqers : ∀ q ∈ s.rules.qers, q.fseID = seid) (hown : m.Owned seid)
    (q : Qer) (hq : q ∈ (m.write s).session.rules.qers) : q.fseID = seid := by
  rcases m.write_qers (s := s) with ⟨l, c, found, -, -, hsession, -, hmem⟩
  rw [hsession] at hq
  rcases mem_markSessionQer_qers hq with ⟨q₀, hq₀, heq⟩
  have hseid : q₀.fseID = seid :=
    (hmem q₀ hq₀).elim (hqers q₀) fun hread => (hown.qers q₀ hread).1
  rcases heq with rfl | rfl <;> exact hseid

theorem session_ownedBy (hs : s.rules.OwnedBy seid) (hown : m.Owned seid) :
    (m.write s).session.rules.OwnedBy seid :=
  ⟨session_pdr_fseID hs.pdrs hown, session_far_fseID hs.fars hown,
    session_qer_fseID hs.qers hown⟩

end Parsed

theorem rollBackRemove_sub (before : PacketForwardingRules) (wr : Write) :
    (rollBackRemove before wr).Sub wr.updated := by
  constructor
  · intro p hp
    rcases mem_append.mp hp with hp | hp
    · exact mem_of_mem_take hp
    · exact mem_of_mem_drop (mem_filter.mp hp).1
  · intro f hf
    exact mem_of_mem_take hf
  · intro q hq
    rcases mem_append.mp hq with hq | hq
    · exact mem_of_mem_take hq
    · exact mem_of_mem_drop (mem_filter.mp hq).1

variable {s s' : PFCPSession} {deleted : PacketForwardingRules} {id : UInt32}

/-- What one kind of Remove IE takes out and what it leaves.  `get` are the
rules of that kind, `other` is the rest of the session. -/
theorem removeEach_ok {α β R : Type} {remove : PFCPSession → α → Except GoError (R × PFCPSession)}
    (get : PFCPSession → List R) (other : PFCPSession → β)
    (hremove : ∀ s id r s', remove s id = .ok (r, s') →
      (get s).Perm (r :: get s') ∧ other s' = other s)
    {ies : List (Decoded α)} {acc rs : List R}
    (h : readEach (removeStep remove) (fun rs r => rs ++ [r]) ies acc s = (.ok rs, s')) :
    ∃ taken, rs = acc ++ taken ∧ (get s).Perm (taken ++ get s') ∧ other s' = other s := by
  induction ies generalizing acc s with
  | nil =>
    simp only [readEach, Prod.mk.injEq, ok.injEq] at h
    rcases h with ⟨rfl, rfl⟩
    exact ⟨[], by simp, by simp, rfl⟩
  | cons ie ies ih =>
    rcases andThen_ok h with ⟨r, s₁, hstep, hloop⟩
    have hone : (get s).Perm (r :: get s₁) ∧ other s₁ = other s := by
      cases ie with
      | error => simp [removeStep] at hstep
      | ok id =>
        cases hid : remove s id with
        | error => simp [removeStep, hid] at hstep
        | ok out =>
          simp only [removeStep, hid, Prod.mk.injEq, ok.injEq] at hstep
          rw [← hstep.1, ← hstep.2]
          exact hremove s id out.1 out.2 hid
    rcases ih hloop with ⟨taken, rfl, hperm, hother⟩
    refine ⟨r :: taken, by simp, ?_, hother.trans hone.2⟩
    exact hone.1.trans (hperm.cons r)

theorem takeFirst_perm {R : Type} {key : R → UInt32} {l rest : List R} {r : R}
    (h : takeFirst key id l = some (r, rest)) : l.Perm (r :: rest) := by
  rcases takeFirst_eq_some h with ⟨front, back, rfl, rfl, -⟩
  exact perm_middle

theorem removePDR_ok {p : Pdr}
    (h : s.removePDR id = .ok (p, s')) : s.rules.pdrs.Perm (p :: s'.rules.pdrs) ∧
      (s'.localSEID, s'.rules.fars, s'.rules.qers) =
        (s.localSEID, s.rules.fars, s.rules.qers) := by
  cases htake : takeFirst Pdr.pdrID id s.rules.pdrs with
  | none => simp [PFCPSession.removePDR, htake] at h
  | some =>
    simp only [PFCPSession.removePDR, htake, ok.injEq, Prod.mk.injEq] at h
    rcases h with ⟨rfl, rfl⟩
    exact ⟨takeFirst_perm htake, rfl⟩

theorem removeFAR_ok {f : Far}
    (h : s.removeFAR id = .ok (f, s')) : s.rules.fars.Perm (f :: s'.rules.fars) ∧
      (s'.localSEID, s'.rules.pdrs, s'.rules.qers) =
        (s.localSEID, s.rules.pdrs, s.rules.qers) := by
  cases htake : takeFirst Far.farID id s.rules.fars with
  | none => simp [PFCPSession.removeFAR, htake] at h
  | some =>
    simp only [PFCPSession.removeFAR, htake, ok.injEq, Prod.mk.injEq] at h
    rcases h with ⟨rfl, rfl⟩
    exact ⟨takeFirst_perm htake, rfl⟩

theorem removeQER_ok {q : Qer}
    (h : s.removeQER id = .ok (q, s')) : s.rules.qers.Perm (q :: s'.rules.qers) ∧
      (s'.localSEID, s'.rules.pdrs, s'.rules.fars) =
        (s.localSEID, s.rules.pdrs, s.rules.fars) := by
  cases htake : takeFirst Qer.qerID id s.rules.qers with
  | none => simp [PFCPSession.removeQER, htake] at h
  | some =>
    simp only [PFCPSession.removeQER, htake, ok.injEq, Prod.mk.injEq] at h
    rcases h with ⟨rfl, rfl⟩
    exact ⟨takeFirst_perm htake, rfl⟩

/-- The Remove loops split the rules of each kind into those they take out and
those they leave. -/
structure Removes (s s' : PFCPSession) (deleted : PacketForwardingRules) : Prop where
  pdrs : s.rules.pdrs.Perm (deleted.pdrs ++ s'.rules.pdrs)
  fars : s.rules.fars.Perm (deleted.fars ++ s'.rules.fars)
  qers : s.rules.qers.Perm (deleted.qers ++ s'.rules.qers)
  localSEID : s'.localSEID = s.localSEID

theorem Removes.sub
    (h : Removes s s' deleted) : deleted.Sub s.rules ∧ s'.rules.Sub s.rules :=
  ⟨⟨fun _ hp => h.pdrs.mem_iff.mpr (mem_append_left _ hp),
      fun _ hf => h.fars.mem_iff.mpr (mem_append_left _ hf),
      fun _ hq => h.qers.mem_iff.mpr (mem_append_left _ hq)⟩,
    ⟨fun _ hp => h.pdrs.mem_iff.mpr (mem_append_right _ hp),
      fun _ hf => h.fars.mem_iff.mpr (mem_append_right _ hf),
      fun _ hq => h.qers.mem_iff.mpr (mem_append_right _ hq)⟩⟩

theorem removeRules_named {smreq : SessionModificationRequest}
    (h : removeRules smreq s = (.ok deleted, s')) {p : Pdr}
    (hp : p ∈ deleted.pdrs) : ∃ id : UInt16, .ok id ∈ smreq.removePDR ∧ p.pdrID = id.toUInt32 := by
  rcases andThen_ok h with ⟨pdrs, s₁, hpdr, h⟩
  rcases andThen_ok h with ⟨fars, s₂, -, h⟩
  rcases andThen_ok h with ⟨qers, s₃, -, hend⟩
  simp only [Prod.mk.injEq, ok.injEq] at hend
  rcases hend with ⟨rfl, rfl⟩
  rcases readEach_ok_reads hpdr with ⟨ps, rfl, hps⟩
  have hp' : p ∈ ps := by simpa using hp
  rcases exists_left hps hp' with ⟨ie, hie, q, q', hstep⟩
  cases ie with
  | error => simp [removeStep] at hstep
  | ok id =>
    refine ⟨id, hie, ?_⟩
    cases htake : takeFirst Pdr.pdrID id.toUInt32 q.rules.pdrs with
    | none => simp [removeStep, PFCPSession.removePDR, htake] at hstep
    | some =>
      simp only [removeStep, PFCPSession.removePDR, htake, Prod.mk.injEq,
        ok.injEq] at hstep
      rcases takeFirst_eq_some htake with ⟨_, _, -, -, hkey⟩
      rw [← hstep.1, hkey]

theorem removeRules_ok {smreq : SessionModificationRequest}
    (h : removeRules smreq s = (.ok deleted, s')) :
    Removes s s' deleted := by
  rcases andThen_ok h with ⟨pdrs, s₁, hpdr, h⟩
  rcases andThen_ok h with ⟨fars, s₂, hfar, h⟩
  rcases andThen_ok h with ⟨qers, s₃, hqer, hend⟩
  simp only [Prod.mk.injEq, ok.injEq] at hend
  rcases hend with ⟨rfl, rfl⟩
  rcases removeEach_ok (fun s => s.rules.pdrs)
    (fun s => (s.localSEID, s.rules.fars, s.rules.qers))
    (fun _ _ _ _ => removePDR_ok) hpdr with ⟨ps, rfl, hps, hpsrest⟩
  rcases removeEach_ok (fun s => s.rules.fars)
    (fun s => (s.localSEID, s.rules.pdrs, s.rules.qers))
    (fun _ _ _ _ => removeFAR_ok) hfar with ⟨fs, rfl, hfs, hfsrest⟩
  rcases removeEach_ok (fun s => s.rules.qers)
    (fun s => (s.localSEID, s.rules.pdrs, s.rules.fars))
    (fun _ _ _ _ => removeQER_ok) hqer with ⟨qs, rfl, hqs, hqsrest⟩
  simp only [Prod.mk.injEq] at hpsrest hfsrest hqsrest
  constructor
  · simpa [hqsrest.2.1, hfsrest.2.1] using hps
  · simpa [hqsrest.2.2, ← hpsrest.2.1] using hfs
  · simpa [← hfsrest.2.2, ← hpsrest.2.2] using hqs
  · rw [hqsrest.1, hfsrest.1, hpsrest.1]

end Upf
