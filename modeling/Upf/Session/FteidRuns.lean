import Mathlib.Data.Set.Card
import Upf.Session.Fteids

/-!
# F-TEIDs over whole runs

The generator belongs to the whole process and could take identifiers back, but
nothing ever gives one back.  What it records as in use is what sessions hold only
as long as none is dropped: by an establishment that draws and is not kept, by a
modification that replaces or removes its PDR, by a deletion, a report or a
teardown that forgets its session.

Main result: `fteids_accounted`.
-/

namespace Upf

open Lib KeyedList List PFCPConn FTEIDGenerator Option Function Set

/-! ## Messages that drop nothing -/

section Condition

variable {σ : Type} (conf : AgentConf) (dp : Datapath σ)

/-- An establishment that gets past its checks, whose rules are read, whose SEID
the store takes, and whose rules the datapath takes, or does not finish taking
out again. -/
def SessionEstablishmentRequest.Lasts (sereq : SessionEstablishmentRequest) (w : World σ) : Prop :=
  ∃ d w', beginEstablishment conf sereq w = (.ok d, w') ∧ d.session.localSEID ≠ 0 ∧
    ((w'.send dp .add d.session.rules d.added).1.1 ≠ .requestRejected ∨
      ((w'.send dp .add d.session.rules d.added).2.send dp .del d.session.rules {}).1.2 = false)

/-- A modification that leaves no choice to this node and does not name the PDRs
that hold an F-TEID. -/
structure SessionModificationRequest.Spares (smreq : SessionModificationRequest)
    (stored : PFCPSession) : Prop where
  choosesNot : ∀ ie ∈ smreq.createPDR ++ smreq.updatePDR, ie.choosesFteid = false
  updates : ∀ p ∈ stored.rules.pdrs, p.upAllocateFteid = true →
    ∀ ie ∈ smreq.updatePDR, ie.named ≠ some p.pdrID
  removes : ∀ p ∈ stored.rules.pdrs, p.upAllocateFteid = true →
    ∀ id : UInt16, .ok id ∈ smreq.removePDR → p.pdrID ≠ id.toUInt32

/-- A message that drops no F-TEID: it draws none that is not kept, and the
session it modifies or forgets keeps those it holds. -/
def Message.KeepsFteids (msg : Message) (w : World σ) : Prop :=
  match msg with
  | .request (.establishment sereq) =>
    (∀ ie ∈ sereq.createPDR, ie.choosesFteid = false) ∨ sereq.Lasts conf dp w
  | .request (.modification smreq) =>
    ∀ stored, w.conn.store.lookup smreq.seid = some stored → smreq.Spares stored
  | .request (.deletion sdreq) =>
    w.conn.fteids sdreq.seid = [] ∨
      ∀ stored, w.conn.store.lookup sdreq.seid = some stored →
        (w.send dp .del stored.rules {}).1.1 = .requestRejected ∨
          (w.send dp .del stored.rules {}).1.2 = false
  | .report srres =>
    srres.cause = some (.ok .sessionContextNotFound) → w.conn.fteids srres.seid = []

end Condition

/-- What a message that drops nothing does: the holders keep what they hold and
nothing is drawn, or a new holder gets what is drawn. -/
inductive FteidStep {σ : Type} (w w' : World σ) : Prop
  | kept (hgen : w'.upf.fteidGenerator = w.upf.fteidGenerator)
      (hids : ∀ seid, (w'.conn.fteids seid).Perm (w.conn.fteids seid))
  | born (seid : UInt64) (ids : List UInt32) (hnone : w.conn.fteids seid = [])
      (hself : w'.conn.fteids seid = ids)
      (hothers : ∀ seid', seid' ≠ seid → w'.conn.fteids seid' = w.conn.fteids seid')
      (hdrawn : Drawn w.upf.fteidGenerator ids w'.upf.fteidGenerator)

theorem FteidStep.of_store {σ : Type} {w w' : World σ}
    (hgen : w'.upf.fteidGenerator = w.upf.fteidGenerator)
    (hstore : w'.conn.store = w.conn.store) : FteidStep w w' := by
  refine .kept hgen fun seid => ?_
  rw [fteids_congr hstore]

section Handle

variable {σ : Type} (conf : AgentConf) (dp : Datapath σ)

@[simp] theorem sendEndMarkers_fteidGenerator (markers : List (List UInt8)) (w : World σ) :
    (sendEndMarkers dp markers w).upf.fteidGenerator = w.upf.fteidGenerator := by
  unfold sendEndMarkers
  split <;> rfl

theorem fteids_establishment {sereq : SessionEstablishmentRequest} {w : World σ}
    (hwf : w.upf.fteidGenerator.Wf)
    (hkeeps : Message.KeepsFteids conf dp (.request (.establishment sereq)) w) :
    FteidStep w (handleSessionEstablishmentRequest conf dp sereq w).2 := by
  have hstore := beginEstablishment_store conf sereq w
  rw [handleSessionEstablishmentRequest_eq]
  rcases hbegin : beginEstablishment conf sereq w with ⟨reply | d, w₁⟩
  · rcases hkeeps with hchoose | ⟨d, w', hlasts, -⟩
    · have hgen := beginEstablishment_generator conf hchoose w
      rw [hbegin] at hgen hstore
      exact .of_store hgen hstore
    · rw [hbegin] at hlasts
      cases hlasts
  · have hfresh := beginEstablishment_fresh hbegin
    have hdrawn := beginEstablishment_drawn hwf hbegin
    rw [hbegin] at hstore
    -- Kept under a SEID the store takes, the session holds what was drawn.
    have hborn : d.session.localSEID ≠ 0 → ∀ w' : World σ,
        w'.upf.fteidGenerator = w₁.upf.fteidGenerator → w'.conn = w₁.conn.put d.session →
        FteidStep w w' := by
      intro hzero w' hgen hconn
      refine .born d.session.localSEID d.session.fteids (fteids_of_none hfresh) ?_ ?_
        (hgen ▸ hdrawn)
      · rw [hconn, fteids_put_self hzero]
      · intro seid' hne
        rw [hconn, fteids_put_of_ne hne, fteids_congr hstore]
    dsimp only
    rcases hkeeps with hchoose | ⟨d', w', hlasts, hzero, hanswer⟩
    · have hgen := beginEstablishment_generator conf hchoose w
      rw [hbegin] at hgen
      have herase : w₁.conn.store.erase d.session.localSEID = w.conn.store := by
        rw [hstore, erase_of_lookup_eq_none hfresh]
      have hput : ∀ w' : World σ, w'.upf.fteidGenerator = w₁.upf.fteidGenerator →
          w'.conn = w₁.conn.put d.session → FteidStep w w' := by
        intro w' hsame hconn
        by_cases hzero : d.session.localSEID = 0
        · exact .of_store (hsame.trans hgen) (by rw [hconn, put_of_zero hzero, hstore])
        · exact hborn hzero w' hsame hconn
      rcases writeEstablishment_cases conf dp d w₁ with
        ⟨-, -, hend⟩ | ⟨-, -, hend⟩ | ⟨-, _, -, hend⟩
      · rw [hend]
        exact hput _ rfl rfl
      · rw [hend]
        exact .of_store hgen herase
      · rw [hend]
        exact hput _ rfl rfl
    · rw [hbegin, Prod.mk.injEq, Except.ok.injEq] at hlasts
      rcases hlasts with ⟨rfl, rfl⟩
      rcases writeEstablishment_cases conf dp d w₁ with
        ⟨-, -, hend⟩ | ⟨hrejected, hfinished, -⟩ | ⟨-, _, -, hend⟩
      · rw [hend]
        exact hborn hzero _ rfl rfl
      · rcases hanswer with hanswer | hanswer
        · exact absurd hrejected hanswer
        · rw [hfinished] at hanswer
          cases hanswer
      · rw [hend]
        exact hborn hzero _ rfl rfl

/-! ### Modifications -/

theorem readPDR_upAllocateFteid {seid : UInt64} {fseidIP : UInt32} {ie : PdrIE} {p : Pdr}
    {res res' : Resources} (h : readPDR conf seid fseidIP ie res = (.ok p, res')) :
    p.upAllocateFteid = ie.choosesFteid := by
  rcases readPDR_parsed h with ⟨p₀, ippool, hparse, rfl⟩
  have hmark := parsePDR_upAllocateFteid hparse
  exact hmark

section Modification

variable {conf} {smreq : SessionModificationRequest} {m : Parsed} {s : PFCPSession} {seid : UInt64}
  {fseidIP : UInt32}

theorem Parsed.ReadsPDRs.fteid?_eq_none (h : m.ReadsPDRs conf seid fseidIP smreq)
    (hspares : smreq.Spares s) {p : Pdr} (hp : p ∈ m.createPDRs ∨ p ∈ m.updatePDRs) :
    p.fteid? = none := by
  obtain ⟨ie, hie, res, res', hread⟩ : ∃ ie ∈ smreq.createPDR ++ smreq.updatePDR, ∃ res res',
      readPDR conf seid fseidIP ie res = (.ok p, res') := by
    rcases hp with hp | hp
    · rcases exists_left h.created hp with ⟨ie, hie, hread⟩
      exact ⟨ie, mem_append_left _ hie, hread⟩
    · rcases exists_left h.updated hp with ⟨ie, hie, hread⟩
      exact ⟨ie, mem_append_right _ hie, hread⟩
  have hmark : p.upAllocateFteid = false :=
    (readPDR_upAllocateFteid conf hread).trans (hspares.choosesNot ie hie)
  simp [Pdr.fteid?, Pdr.tunnel, Tunnel.fteid?, hmark]

theorem Parsed.ReadsPDRs.notMem_of_holder (h : m.ReadsPDRs conf seid fseidIP smreq)
    (hspares : smreq.Spares s) {p : Pdr} (hp : p ∈ s.rules.pdrs)
    (hkey : p.pdrID ∈ m.updatePDRs.map Pdr.pdrID) : p.fteid? = none := by
  rcases mem_map.mp hkey with ⟨u, hu, hid⟩
  rcases exists_left h.updated hu with ⟨ie, hie, _, _, hread⟩
  cases hmark : p.upAllocateFteid with
  | false => simp [Pdr.fteid?, Pdr.tunnel, Tunnel.fteid?, hmark]
  | true =>
    have hnamed := (readPDR_ok hread).2
    exact absurd (hid ▸ hnamed) (hspares.updates p hp hmark ie hie)

theorem Parsed.ReadsPDRs.fteids_session (h : m.ReadsPDRs conf seid fseidIP smreq)
    (hspares : smreq.Spares s) : (m.write s).session.fteids = s.fteids := by
  have hcreated : m.createPDRs.filterMap Pdr.fteid? = [] :=
    filterMap_eq_nil_iff.mpr fun p hp => h.fteid?_eq_none hspares (.inl hp)
  have hheld : (m.heldPDRs s).1.filterMap Pdr.fteid? =
      (s.rules.pdrs ++ m.createPDRs).filterMap Pdr.fteid? := by
    refine Revised.foldl_step_filterMap
      (fun u hu => h.fteid?_eq_none hspares (.inr hu)) ?_
    intro p hp hkey
    rcases mem_append.mp hp with hp | hp
    · exact h.notMem_of_holder hspares hp hkey
    · exact h.fteid?_eq_none hspares (.inl hp)
  calc (m.write s).session.fteids = fteidsOf (m.heldPDRs s).1 :=
        by rw [fteidsOf_eq, ← markSessionQer_tunnels _ (m.heldQERs s).1, ← fteidsOf_eq]; rfl
    _ = s.fteids := by rw [fteidsOf, hheld, filterMap_append, hcreated, append_nil]; rfl

theorem Parsed.ReadsPDRs.fteids_deleted (h : m.ReadsPDRs conf seid fseidIP smreq)
    (hspares : smreq.Spares s) {s' : PFCPSession} {deleted : PacketForwardingRules}
    (hremove : removeRules smreq (m.write s).session = (.ok deleted, s')) :
    fteidsOf deleted.pdrs = [] := by
  apply filterMap_eq_nil_iff.mpr
  intro p hp
  rcases removeRules_named hremove hp with ⟨id, hid, hpid⟩
  have hheld := (removeRules_ok hremove).sub.1.pdrs p hp
  rcases m.write_pdrs (s := s) with ⟨l, c, found, -, -, hsession, -, hmem⟩
  rw [hsession] at hheld
  rcases mem_map.mp hheld with ⟨p₀, hp₀, rfl⟩
  rw [Pdr.fteid?, markPdr_tunnel, ← Pdr.fteid?]
  rw [markPdr_pdrID] at hpid
  rcases hmem p₀ hp₀ with hp₀ | hp₀
  · cases hmark : p₀.upAllocateFteid with
    | false => simp [Pdr.fteid?, Pdr.tunnel, Tunnel.fteid?, hmark]
    | true => exact absurd hpid (hspares.removes p₀ hp₀ hmark id hid)
  · exact h.fteid?_eq_none hspares (mem_append.mp hp₀)

end Modification
variable {w : World σ}

theorem fteids_modification {smreq : SessionModificationRequest}
    (hkeyed : w.conn.Keyed)
    (hkeeps : Message.KeepsFteids conf dp (.request (.modification smreq)) w) :
    FteidStep w (handleSessionModificationRequest conf dp smreq w).2 := by
  rcases modification_cases conf dp smreq w with
    ⟨reply, ippool, hcase, -, -, -⟩ |
    ⟨stored, m', markers, ippool, hstored, -, -, -, -, -, -, hwrite, hcase⟩
  · rw [hcase]
    exact .of_store rfl rfl
  rcases modificationWrite_eq_some conf hwrite with ⟨stored', m, hstored', hreads, hsame⟩
  have heq : stored' = stored := Option.some.inj (hstored'.symm.trans hstored)
  subst heq
  rw [hsame] at hcase
  have hspares := hkeeps stored' hstored
  set s := (updateFSEID smreq stored').1 with hs
  have hrules : s.rules = stored'.rules := updateFSEID_rules smreq stored'
  have hspares' : smreq.Spares s :=
    ⟨hspares.choosesNot, hrules ▸ hspares.updates, hrules ▸ hspares.removes⟩
  rw [hcase]
  rcases writeModification_cases conf dp smreq stored'.rules (m.write s) markers
      (w.withPool ippool) with
    ⟨-, hend⟩ | ⟨-, e, s', -, hend⟩ | ⟨-, deleted, session, hremove, ⟨-, hend⟩ | ⟨-, hend⟩⟩
  · rw [hend]
    exact .of_store rfl rfl
  · rw [hend]
    exact .of_store (by simp; rfl) (by simp; rfl)
  · rw [hend]
    exact .of_store (by simp; rfl) (by simp; rfl)
  · rw [hend]
    have hseid : session.localSEID = smreq.seid := by
      rw [(removeRules_ok hremove).localSEID]
      exact (updateFSEID_localSEID smreq stored').trans (hkeyed smreq.seid stored' hstored)
    have hids : session.fteids.Perm stored'.fteids := by
      have hgone : deleted.pdrs.filterMap Pdr.fteid? = [] :=
        hreads.fteids_deleted hspares' hremove
      have hperm : (m.write s).session.fteids.Perm session.fteids := by
        have hsplit := (removeRules_ok hremove).pdrs.filterMap Pdr.fteid?
        rwa [filterMap_append, hgone, nil_append] at hsplit
      have hsession : (m.write s).session.fteids = stored'.fteids :=
        (hreads.fteids_session hspares').trans (by rw [PFCPSession.fteids, hrules]; rfl)
      exact (hsession ▸ hperm).symm
    refine .kept (by simp; rfl) fun seid => ?_
    rw [sendEndMarkers_conn]
    have hconn : ∀ conn : PFCPConn, conn.store = w.conn.store →
        ((conn.put session).fteids seid).Perm (w.conn.fteids seid) := by
      intro conn hstore
      by_cases hzero : session.localSEID = 0
      · rw [put_of_zero hzero, fteids_congr hstore]
      · by_cases hself : seid = session.localSEID
        · rw [hself, fteids_put_self hzero, hseid, fteids_of_some hstored]
          exact hids
        · rw [fteids_put_of_ne hself, fteids_congr hstore]
    exact hconn _ rfl

/-! ### Deletions and reports -/

theorem FteidStep.of_erase {w' : World σ} {seid : UInt64}
    (hgen : w'.upf.fteidGenerator = w.upf.fteidGenerator)
    (hstore : w'.conn.store = w.conn.store.erase seid) (hnone : w.conn.fteids seid = []) :
    FteidStep w w' := by
  refine .kept hgen fun seid' => ?_
  by_cases hself : seid' = seid
  · rw [hself, fteids_erase_self hstore, hnone]
  · rw [fteids_erase_of_ne hstore hself]

theorem fteids_deletion {sdreq : SessionDeletionRequest} (hkeyed : w.conn.Keyed)
    (hkeeps : Message.KeepsFteids conf dp (.request (.deletion sdreq)) w) :
    FteidStep w (handleSessionDeletionRequest dp sdreq w).2 := by
  rcases deletion_cases dp sdreq w with
    ⟨reply, hcase, -⟩ |
    ⟨stored, hstored, -, ⟨-, reply, -, hcase⟩ | ⟨⟨hanswer, hfinished⟩, reply, -, hcase⟩⟩
  · rw [hcase]
    exact .of_store rfl rfl
  · rw [hcase]
    exact .of_store rfl rfl
  · have hseid := hkeyed sdreq.seid stored hstored
    rw [hcase]
    rcases hkeeps with hnone | hrefused
    · exact .of_erase rfl rfl (hseid ▸ hnone)
    · rcases hrefused stored hstored with hrejected | hunfinished
      · exact absurd hrejected hanswer
      · rw [hfinished] at hunfinished
        cases hunfinished

theorem fteids_report {srres : SessionReportResponse} (hkeyed : w.conn.Keyed)
    (hkeeps : Message.KeepsFteids conf dp (.report srres) w) :
    FteidStep w (handleSessionReportResponse dp srres w).2 := by
  unfold handleSessionReportResponse
  split
  · exact .of_store rfl rfl
  · exact .of_store rfl rfl
  · next cause hcause =>
    split
    · next hnotFound =>
      split
      · exact .of_store rfl rfl
      · split
        · exact .of_store rfl rfl
        · next stored hstored =>
          have hseid := hkeyed srres.seid stored hstored
          have hnone := hkeeps (hnotFound ▸ hcause)
          dsimp only
          split <;> exact .of_erase rfl rfl (hseid ▸ hnone)
    · exact .of_store rfl rfl

theorem Message.handle_fteids {msg : Message} (hwf : w.upf.fteidGenerator.Wf)
    (hkeyed : w.conn.Keyed) (hkeeps : msg.KeepsFteids conf dp w) :
    FteidStep w (msg.handle conf dp w) := by
  cases msg with
  | request req =>
    cases req with
    | establishment => exact fteids_establishment conf dp hwf hkeeps
    | modification => exact fteids_modification conf dp hkeyed hkeeps
    | deletion => exact fteids_deletion conf dp hkeyed hkeeps
  | report => exact fteids_report conf dp hkeyed hkeeps

end Handle

/-! ## Teardowns -/

theorem Teardown.Step.erases {σ : Type} {conf : AgentConf} {dp : Datapath σ} {t t' : Teardown σ}
    (h : Teardown.Step conf dp (fun _ _ => False) t t') :
    t'.world.upf.fteidGenerator = t.world.upf.fteidGenerator ∧
      ∀ seid x, t'.world.conn.store.lookup seid = some x →
        t.world.conn.store.lookup seid = some x := by
  cases h with
  | handle msg hok => exact hok.elim
  | removeFinished => exact ⟨rfl, fun _ _ => lookup_of_lookup_erase⟩
  | settleFinished => exact ⟨rfl, fun _ _ => lookup_of_lookup_erase⟩
  | settleHeld => exact ⟨rfl, fun _ _ => lookup_of_lookup_erase⟩
  | _ => exact ⟨rfl, fun _ _ hx => hx⟩

theorem Teardown.Runs.erases {σ : Type} {conf : AgentConf} {dp : Datapath σ} {t t' : Teardown σ}
    (h : Teardown.Runs conf dp (fun _ _ => False) t t') :
    t'.world.upf.fteidGenerator = t.world.upf.fteidGenerator ∧
      ∀ seid x, t'.world.conn.store.lookup seid = some x →
        t.world.conn.store.lookup seid = some x := by
  induction h with
  | refl => exact ⟨rfl, fun _ _ hx => hx⟩
  | tail _ hstep ih =>
    have hlast := hstep.erases
    exact ⟨hlast.1.trans ih.1, fun seid x hx => ih.2 seid x (hlast.2 seid x hx)⟩

def PFCPConn.HoldsNone (conn : PFCPConn) : Prop := ∀ seid, conn.fteids seid = []

theorem FteidStep.of_sub {σ : Type} {w w' : World σ}
    (hgen : w'.upf.fteidGenerator = w.upf.fteidGenerator)
    (hsub : ∀ seid x, w'.conn.store.lookup seid = some x → w.conn.store.lookup seid = some x)
    (hnone : w.conn.HoldsNone) : FteidStep w w' := by
  refine .kept hgen fun seid => ?_
  rw [hnone seid]
  cases hlookup : w'.conn.store.lookup seid with
  | none => rw [fteids_of_none hlookup]
  | some x =>
    have hx := hnone seid
    rw [fteids_of_some (hsub seid x hlookup)] at hx
    rw [fteids_of_some hlookup, hx]

/-! ## All associations -/

/-- The shared resources and all associations between two messages. -/
structure Associations (σ ι : Type) where
  upf : UPF σ
  conn : ι → PFCPConn

namespace Associations

variable {σ ι : Type}

def world (a : Associations σ ι) (i : ι) : World σ := ⟨a.upf, a.conn i⟩

def pdrAt (a : Associations σ ι) (h : ι × UInt64 × Nat) : Option Pdr :=
  ((a.conn h.1).store.lookup h.2.1).bind fun x => x.rules.pdrs[h.2.2]?

def Holds (a : Associations σ ι) (h : ι × UInt64 × Nat) (id : UInt32) : Prop :=
  (a.pdrAt h).bind Pdr.fteid? = some id

instance (a : Associations σ ι) (h : ι × UInt64 × Nat) (id : UInt32) : Decidable (a.Holds h id) :=
  inferInstanceAs (Decidable (_ = _))

/-- The generator's record is exact: in use is what stored PDRs hold, each
identifier is held by one PDR, and an allocation fails only when all of them are
held. -/
structure Exact (a : Associations σ ι) : Prop where
  used : ∀ id, a.upf.fteidGenerator.isAllocated id = true ↔ ∃ h, a.Holds h id
  owner : ∀ h h' id, a.Holds h id → a.Holds h' id → h = h'
  full : ∀ e g, a.upf.fteidGenerator.allocate = (.error e, g) →
    {h | ∃ id, a.Holds h id}.ncard = 2 ^ 32 - 1

/-- The F-TEIDs each stored session holds. -/
def own (a : Associations σ ι) (k : ι × UInt64) : List UInt32 := (a.conn k.1).fteids k.2

theorem mem_own_iff {a : Associations σ ι} {i : ι} {seid : UInt64} {id : UInt32} :
    id ∈ a.own (i, seid) ↔ ∃ n, a.Holds (i, seid, n) id := by
  simp only [own, Holds, pdrAt]
  cases hlookup : (a.conn i).store.lookup seid with
  | none => simp [fteids_of_none hlookup]
  | some =>
    rw [fteids_of_some hlookup, PFCPSession.fteids, fteidsOf, mem_filterMap]
    simp only [bind_some, bind_eq_some_iff]
    constructor
    · rintro ⟨p, hp, hid⟩
      rcases mem_iff_getElem?.mp hp with ⟨n, hn⟩
      exact ⟨n, p, hn, hid⟩
    · rintro ⟨n, p, hn, hid⟩
      exact ⟨p, mem_of_getElem? hn, hid⟩

theorem position_of_nodup {ps : List Pdr} (h : (fteidsOf ps).Nodup) {n n' : Nat} {p p' : Pdr}
    {id : UInt32} (hn : ps[n]? = some p) (hn' : ps[n']? = some p') (hp : p.fteid? = some id)
    (hp' : p'.fteid? = some id) : n = n' := by
  have hpairs := pairwise_iff_getElem.mp (pairwise_filterMap.mp h)
  rcases List.getElem?_eq_some_iff.mp hn with ⟨hlt, rfl⟩
  rcases List.getElem?_eq_some_iff.mp hn' with ⟨hlt', rfl⟩
  rcases Nat.lt_trichotomy n n' with hless | heq | hmore
  · exact absurd rfl (hpairs n n' hlt hlt' hless id hp id hp')
  · exact heq
  · exact absurd rfl (hpairs n' n hlt' hlt hmore id hp' id hp)

theorem ncard_ids : {id : UInt32 | id ≠ 0}.ncard = 2 ^ 32 - 1 := by
  have hinj : Function.Injective UInt32.toFin := fun _ _ h => UInt32.toFin_inj.mp h
  have himage : UInt32.toFin '' {id | id ≠ 0} = ({0}ᶜ : Set (Fin UInt32.size)) := by
    ext x
    constructor
    · rintro ⟨id, hid, rfl⟩ hx
      exact hid (hinj hx)
    · intro hx
      exact ⟨UInt32.ofFin x, fun h => hx (by simpa using congrArg UInt32.toFin h), by simp⟩
  rw [← ncard_image_of_injective _ hinj, himage, ncard_compl, ncard_singleton,
    Nat.card_eq_fintype_card, Fintype.card_fin]
  rfl

def inUse (a : Associations σ ι) : Set UInt32 := {id | a.upf.fteidGenerator.isAllocated id = true}

structure Inv (a : Associations σ ι) : Prop where
  wf : a.upf.fteidGenerator.Wf
  keyed : ∀ i, (a.conn i).Keyed
  accounted : Accounted a.inUse a.own

theorem Inv.exact {a : Associations σ ι} (h : a.Inv) : a.Exact := by
  have hused : ∀ id, a.upf.fteidGenerator.isAllocated id = true ↔ ∃ h, a.Holds h id := by
    intro id
    rw [show a.upf.fteidGenerator.isAllocated id = true ↔ _ from h.accounted.used_iff id]
    constructor
    · rintro ⟨⟨i, seid⟩, hid⟩
      rcases mem_own_iff.mp hid with ⟨n, hn⟩
      exact ⟨(i, seid, n), hn⟩
    · rintro ⟨⟨i, seid, n⟩, hn⟩
      exact ⟨(i, seid), mem_own_iff.mpr ⟨n, hn⟩⟩
  have howner : ∀ h h' id, a.Holds h id → a.Holds h' id → h = h' := by
    rintro ⟨i, seid, n⟩ ⟨j, seid', n'⟩ id hn hn'
    have hsame := h.accounted.owner (i, seid) (j, seid') id (mem_own_iff.mpr ⟨n, hn⟩)
      (mem_own_iff.mpr ⟨n', hn'⟩)
    cases hsame
    have hnodup := h.accounted.nodup (i, seid)
    simp only [Holds, pdrAt] at hn hn'
    cases hlookup : (a.conn i).store.lookup seid with
    | none => simp [hlookup] at hn
    | some =>
      rw [own, fteids_of_some hlookup] at hnodup
      simp only [hlookup, bind_some, bind_eq_some_iff] at hn hn'
      rcases hn with ⟨p, hp, hid⟩
      rcases hn' with ⟨p', hp', hid'⟩
      rw [position_of_nodup hnodup hp hp' hid hid']
  refine ⟨hused, howner, ?_⟩
  intro e g hfull
  have hall : ∀ id, id ≠ 0 → ∃ h, a.Holds h id :=
    fun id hid => (hused id).mp ((allocate_error h.wf hfull).2 id hid)
  rw [← ncard_ids]
  -- Each identifier goes to its holder.
  refine (ncard_congr (fun id hid => (hall id hid).choose) ?_ ?_ ?_).symm
  · intro id hid
    exact ⟨id, (hall id hid).choose_spec⟩
  · intro id id' hid hid' heq
    have hid₁ := (hall id hid).choose_spec
    have hid₂ := (hall id' hid').choose_spec
    rw [← heq] at hid₂
    exact Option.some.inj (hid₁.symm.trans hid₂)
  · rintro holder ⟨id, hholds⟩
    have hne : id ≠ 0 := by
      rintro rfl
      have hzero := (hused 0).mpr ⟨holder, hholds⟩
      rw [isAllocated_zero] at hzero
      cases hzero
    exact ⟨id, hne, howner _ _ id (hall id hne).choose_spec hholds⟩

section Steps

variable [DecidableEq ι]

def set (a : Associations σ ι) (i : ι) (w : World σ) : Associations σ ι where
  upf := w.upf
  conn := Function.update a.conn i w.conn

inductive Step (conf : ι → AgentConf) (dp : Datapath σ) (ok : ι → Message → World σ → Prop)
    (down : PFCPConn → Prop) : Associations σ ι → Associations σ ι → Prop
  | handle {a : Associations σ ι} (i : ι) (msg : Message) (hok : ok i msg (a.world i)) :
      Step conf dp ok down a (a.set i (msg.handle (conf i) dp (a.world i)))
  | teardown {a : Associations σ ι} (i : ι) (hdown : down (a.conn i)) {t : Teardown σ}
      (hruns : Teardown.Runs (conf i) dp (fun _ _ => False) { world := a.world i } t)
      (hclosed : t.phase = .closed) : Step conf dp ok down a (a.set i t.world)

def Runs (conf : ι → AgentConf) (dp : Datapath σ) (ok : ι → Message → World σ → Prop)
    (down : PFCPConn → Prop) : Associations σ ι → Associations σ ι → Prop :=
  Relation.ReflTransGen (Step conf dp ok down)

structure Start (a : Associations σ ι) : Prop where
  generator : a.upf.fteidGenerator = {}
  store : ∀ i, (a.conn i).store = ∅

variable {conf : ι → AgentConf} {dp : Datapath σ} {a a' : Associations σ ι}

omit [DecidableEq ι] in
theorem Start.inv (h : a.Start) : a.Inv where
  wf := h.generator ▸ wf_empty
  keyed i seid x hx := by simp [h.store i] at hx
  accounted := by
    refine .empty ?_ ?_
    · intro id hid
      have hused : ({} : FTEIDGenerator).isAllocated id = true := h.generator ▸ hid
      simp [FTEIDGenerator.isAllocated] at hused
    · rintro ⟨i, seid⟩
      exact fteids_of_none (by simp [h.store i])

theorem Inv.set (h : a.Inv) {i : ι} {w : World σ} (hkeyed : w.conn.Keyed)
    (hstep : FteidStep (a.world i) w) : (a.set i w).Inv := by
  have hself : ∀ seid, (a.set i w).own (i, seid) = w.conn.fteids seid := by
    intro seid
    simp [own, Associations.set]
  have hothers : ∀ j seid, j ≠ i → (a.set i w).own (j, seid) = a.own (j, seid) := by
    intro j seid hne
    simp [own, Associations.set, update_of_ne hne]
  have hkeys : ∀ j, ((a.set i w).conn j).Keyed := by
    intro j
    by_cases hj : j = i
    · subst hj
      simpa [Associations.set] using hkeyed
    · simpa [Associations.set, update_of_ne hj] using h.keyed j
  cases hstep with
  | kept hgen hids =>
    refine ⟨?_, hkeys, h.accounted.perm ?_ ?_⟩
    · exact hgen ▸ h.wf
    · rintro ⟨j, seid⟩
      by_cases hj : j = i
      · subst hj
        rw [hself]
        exact hids seid
      · rw [hothers j seid hj]
    · intro id
      exact iff_of_eq (congrArg (fun g => FTEIDGenerator.isAllocated g id = true) hgen)
  | born seid ids hnone hids hrest hdrawn =>
    refine ⟨hdrawn.wf, hkeys, h.accounted.give (k := (i, seid)) hnone ?_ ?_ hdrawn.nodup ?_
      hdrawn.used⟩
    · rw [hself, hids]
    · rintro ⟨j, seid'⟩ hne
      by_cases hj : j = i
      · subst hj
        rw [hself]
        exact hrest seid' fun heq => hne (by rw [heq])
      · exact hothers j seid' hj
    · intro id hid hused
      have hfresh := hdrawn.fresh id hid
      rw [show (a.world i).upf.fteidGenerator.isAllocated id = true from hused] at hfresh
      cases hfresh

theorem Inv.step (h : a.Inv)
    (hstep : Step conf dp (fun i => Message.KeepsFteids (conf i) dp) PFCPConn.HoldsNone a a') :
    a'.Inv := by
  cases hstep with
  | handle i msg hok =>
    exact h.set ((h.keyed i).books (msg.handle_books (conf i) dp (a.world i)))
      (msg.handle_fteids (conf i) dp h.wf (h.keyed i) hok)
  | teardown i hdown hruns =>
    have herases := hruns.erases
    exact h.set ((h.keyed i).sub herases.2) (.of_sub herases.1 herases.2 hdown)

variable (conf dp) in
/-- In every run that drops no F-TEID, the generator's record is exact between any
two messages. -/
theorem fteids_accounted {a₀ a : Associations σ ι} (hstart : a₀.Start)
    (hruns : Runs conf dp (fun i => Message.KeepsFteids (conf i) dp) PFCPConn.HoldsNone a₀ a) :
    a.Exact := by
  have hinv : a.Inv := by
    induction hruns with
    | refl => exact hstart.inv
    | tail _ hstep ih => exact ih.step hstep
  exact hinv.exact

end Steps

/-! ## Small runs -/

def choosingPDR (pdrID : UInt16) : PdrIE :=
  { PdrIE.sample pdrID 0 [] with
    pdi := .ok [.sourceInterface (.ok srcInterfaceAccess),
      .fteid (.ok { teid := 0, hasCh := true, ipv4Address := [] })] }

def choosing : SessionEstablishmentRequest :=
  .sample [choosingPDR 1, choosingPDR 2] [.sample 1 2] []

def sample : Associations (List (Cause × Bool)) Unit where
  upf := { ippool := none, fteidGenerator := {}, datapath := [] }
  conn _ := { store := ∅, isShutdown := false, sessions := 0, rngPos := 0 }

theorem sample_start : sample.Start := ⟨rfl, fun _ => rfl⟩

def after (msg : Message) (a : Associations (List (Cause × Bool)) Unit) :
    Associations (List (Cause × Bool)) Unit :=
  a.set () (msg.handle .sample scripted (a.world ()))

/-- The session is made, and a report about another one comes in. -/
theorem fteids_accounted_choosing :
    let a := after (.report ⟨9, some (.ok .sessionContextNotFound)⟩)
      (after (.request (.establishment choosing)) sample)
    a.Exact ∧ a.Holds ((), 1, 0) 1 ∧ a.Holds ((), 1, 1) 2 := by
  intro a
  have hlasts : choosing.Lasts .sample scripted (sample.world ()) :=
    ⟨_, _, rfl, by decide, .inl (by decide)⟩
  refine ⟨fteids_accounted (fun _ => .sample) scripted sample_start ?_, by decide, by decide⟩
  refine .tail (.tail .refl (.handle () (.request (.establishment choosing)) (.inr hlasts)))
    (.handle () (.report ⟨9, some (.ok .sessionContextNotFound)⟩) fun _ => ?_)
  decide

/-- The session is made and deleted again.  Its F-TEIDs stay in use for good. -/
theorem deleted_fteids_stay :
    let a := after (.request (.deletion ⟨1⟩)) (after (.request (.establishment choosing)) sample)
    sample.Start ∧
      Runs (fun _ => .sample) scripted (fun _ _ _ => True) (fun _ => True) sample a ∧
      (a.conn ()).store.lookup 1 = none ∧ a.upf.fteidGenerator.isAllocated 1 = true ∧
      ¬a.Exact := by
  intro a
  have hruns : Runs (fun _ => .sample) scripted (fun _ _ _ => True) (fun _ => True) sample a :=
    .tail (.tail .refl (.handle () (.request (.establishment choosing)) trivial))
      (.handle () (.request (.deletion ⟨1⟩)) trivial)
  have hempty : (a.conn ()).store.entries = [] := by decide
  have hused : a.upf.fteidGenerator.isAllocated 1 = true := by decide
  refine ⟨sample_start, hruns, by decide, hused, fun hexact => ?_⟩
  rcases (hexact.used 1).mp hused with ⟨⟨_, seid, n⟩, hholds⟩
  have hnone : (a.conn ()).store.lookup seid = none := by
    rw [AList.lookup_eq_none]
    simp [AList.mem_keys, AList.keys, hempty]
  simp [Holds, pdrAt, hnone] at hholds

end Associations

end Upf
