import Upf.Session.Outcomes

/-!
# Establishment is all or nothing

A refused establishment gives back all it took while it was read.  An
establishment that is accepted, or refused with its rules possibly still in the
datapath, leaves one more session, with all the rules of the request.

The datapath is any implementation of the interface, so cause and completion of
both batches are independent of each other.

Main result: `establishment_all_or_nothing`.
-/

namespace Upf

open Lib

variable {σ : Type}

def World.answered (w w' : World (Observed σ)) : List BatchAnswer :=
  w'.upf.datapath.answers.drop w.upf.datapath.answers.length

def World.UnfinishedRollback (w w' : World (Observed σ)) : Prop :=
  ∃ answer ∈ w.answered w', answer.method = .del ∧ answer.finished = false

/-- Nothing is left of an establishment.  The pool is the same unless the SEID
that was drawn had a lease already. -/
structure KeepsNothing {τ : Type} (conf : AgentConf) (w w' : World τ) : Prop where
  store : w'.conn.store = w.conn.store
  sessions : w'.conn.sessions = w.conn.sessions
  ippool : (∀ seid, w.conn.drawnSEID conf.rng conf.maxRetries = some seid →
    IPPool.leased w.upf.ippool seid = none) → IPPool.Same w.upf.ippool w'.upf.ippool

structure RulesOf (conf : AgentConf) (seid : UInt64) (fseidIP : UInt32)
    (sereq : SessionEstablishmentRequest) (rules : PacketForwardingRules) : Prop where
  pdrs : List.Forall₂ (fun ie p => ∃ p₀ res res',
    readCreatePDR conf seid fseidIP ie res = (.ok p₀, res') ∧
      p = { p₀ with qerIDList := p.qerIDList } ∧ p.qerIDList.Perm p₀.qerIDList)
    sereq.createPDR rules.pdrs
  fars : List.Forall₂ (fun ie f => ∃ res res',
    readFAR conf seid fseidIP .create ie res = (.ok f, res')) sereq.createFAR rules.fars
  qers : List.Forall₂ (fun ie q => ∃ q₀ res res', readQER seid fseidIP ie res = (.ok q₀, res') ∧
    q = { q₀ with qosLevel := q.qosLevel }) sereq.createQER rules.qers

structure HoldsChosen (ippool : Option IPPool) (seid : UInt64) (ie : PdrIE) (p : Pdr) : Prop where
  alloc : p.allocIPFlag = true → (IPPool.leased ippool seid).isSome
  address : ∀ pdi, ie.pdi = .ok pdi → ueAddressChosen pdi = true →
    ∃ ip, IPPool.leased ippool seid = some ip ∧ p.ueAddress = ip2int ip

def KeepsOne {τ : Type} (conf : AgentConf) (sereq : SessionEstablishmentRequest)
    (w w' : World τ) : Prop :=
  ∃ session fseid, session.localSEID ≠ 0 ∧ sereq.cpFSEID = some (.ok fseid) ∧
    w.conn.store.lookup session.localSEID = none ∧
    w'.conn.store = w.conn.store.insert session.localSEID session ∧
    w'.conn.sessions = w.conn.sessions + 1 ∧
    RulesOf conf session.localSEID (ip2int fseid.ipv4Address) sereq session.rules ∧
    List.Forall₂ (HoldsChosen w'.upf.ippool session.localSEID) sereq.createPDR session.rules.pdrs

namespace Parsed

variable {m : Parsed} {new : PFCPSession}

theorem markInstalled_perm (p : Pdr) :
    (m.markInstalled p).qerIDList.Perm p.qerIDList :=
  (markPdr_perm _ _ _).trans (markPdr_perm _ _ _)

@[simp] theorem installed_localSEID (hrules : new.rules = {}) :
    (m.installed new).localSEID = new.localSEID := by
  rw [installed_eq hrules]

theorem ReadFrom.rulesOf {conf : AgentConf} {seid : UInt64} {fseidIP : UInt32}
    {sereq : SessionEstablishmentRequest} (h : m.ReadFrom conf seid fseidIP sereq)
    (hrules : new.rules = {}) : RulesOf conf seid fseidIP sereq (m.installed new).rules := by
  rw [installed_eq hrules]
  refine ⟨?_, h.fars, ?_⟩
  · rw [List.forall₂_map_right_iff]
    refine h.pdrs.imp ?_
    rintro ie p ⟨res, res', hread⟩
    exact ⟨p, res, res', hread, markInstalled_eq p, markInstalled_perm p⟩
  · refine forall₂_comp ?_ h.qers (forall₂_markSessionQer m.createPDRs m.createQERs)
    rintro ie q₀ q ⟨res, res', hread⟩ hq
    refine ⟨q₀, res, res', hread, ?_⟩
    rcases hq with rfl | rfl <;> rfl

theorem holdsChosen_installed {seid : UInt64} {ippool : Option IPPool} {ies : List PdrIE}
    (h : List.Forall₂ (fun ie p => ∃ pdi, ie.pdi = .ok pdi ∧
      ReadSoFar seid p (ueAddressChosen pdi) ippool) ies m.createPDRs) (hrules : new.rules = {}) :
    List.Forall₂ (HoldsChosen ippool seid) ies (m.installed new).rules.pdrs := by
  rw [installed_eq hrules, List.forall₂_map_right_iff]
  refine h.imp ?_
  rintro ie p ⟨pdi, hpdi, hread⟩
  rw [markInstalled_eq]
  refine ⟨hread.alloc, ?_⟩
  intro pdi' hpdi' hchosen
  rw [hpdi, Except.ok.injEq] at hpdi'
  subst hpdi'
  exact hread.address hchosen

end Parsed

section Handler

variable (dp : Datapath σ)

theorem keepsNothing_cleanup {τ : Type} {conf : AgentConf} {w w' : World τ} {seid : UInt64}
    {session : PFCPSession} {rngPos : Nat} {res : Resources}
    (hnew : w.conn.store.lookup seid = none) (hseid : session.localSEID = seid)
    (hdrawn : w.conn.drawnSEID conf.rng conf.maxRetries = some seid)
    (hlook : IPPool.Looked seid w.upf.ippool res.1)
    (hconn : w'.conn = (w.withDraws rngPos res).conn) (hpool : w'.upf.ippool = res.1) :
    KeepsNothing conf w (w'.cleanup session) := by
  constructor
  · simp only [World.cleanup, PFCPConn.removeSession, hconn, hseid]
    exact PFCPConn.erase_of_lookup_eq_none hnew
  · simp [World.cleanup, PFCPConn.removeSession, hconn, World.withDraws]
  · intro hfree
    simp only [World.cleanup, releaseIP, hpool, hseid]
    exact hlook.same_release (hfree seid hdrawn)

theorem World.unfinishedRollback_iff {w w' : World (Observed σ)} {answers : List BatchAnswer}
    (h : w'.upf.datapath.answers = w.upf.datapath.answers ++ answers) :
    w.UnfinishedRollback w' ↔
      ∃ answer ∈ answers, answer.method = .del ∧ answer.finished = false := by
  simp [World.UnfinishedRollback, World.answered, h]

theorem World.not_unfinishedRollback {w w' : World (Observed σ)}
    (h : w'.upf.datapath.answers = w.upf.datapath.answers) : ¬ w.UnfinishedRollback w' := by
  simp [World.UnfinishedRollback, World.answered, h]

def World.answer (w : World (Observed σ)) (method : UpfMsgType)
    (rules updated : PacketForwardingRules) : BatchAnswer where
  method
  rules := batchRules method rules updated
  cause := (w.send dp.observed method rules updated).1.1
  finished := (w.send dp.observed method rules updated).1.2

theorem World.send_answers (w : World (Observed σ)) (method : UpfMsgType)
    (rules updated : PacketForwardingRules) :
    (w.send dp.observed method rules updated).2.upf.datapath.answers =
      w.upf.datapath.answers ++ [w.answer dp method rules updated] := rfl

theorem World.unfinishedRollback_sends {w w₁ w' : World (Observed σ)}
    {rules added : PacketForwardingRules}
    (hw₁ : w₁.upf.datapath.answers = w.upf.datapath.answers)
    (hw' : w'.upf.datapath.answers = ((w₁.send dp.observed .add rules added).2.send dp.observed
      .del rules {}).2.upf.datapath.answers) :
    w.UnfinishedRollback w' ↔
      ((w₁.send dp.observed .add rules added).2.send dp.observed .del rules {}).1.2 = false := by
  rw [World.send_answers, World.send_answers, hw₁, List.append_assoc] at hw'
  rw [World.unfinishedRollback_iff hw']
  simp [World.answer]

theorem keepsOne_put {τ : Type} {conf : AgentConf} {sereq : SessionEstablishmentRequest}
    {w w' : World τ} {new : PFCPSession} {fseid : FSEIDFields} {m : Parsed} {rngPos : Nat}
    {res : Resources} (hrules : new.rules = {}) (hzero : new.localSEID ≠ 0)
    (hfseid : sereq.cpFSEID = some (.ok fseid))
    (hnew : w.conn.store.lookup new.localSEID = none)
    (hfrom : m.ReadFrom conf new.localSEID (ip2int fseid.ipv4Address) sereq)
    (hread : List.Forall₂ (fun ie p => ∃ pdi, ie.pdi = .ok pdi ∧
      ReadSoFar new.localSEID p (ueAddressChosen pdi) res.1) sereq.createPDR m.createPDRs)
    (hconn : w'.conn = (w.withDraws rngPos res).conn.put (m.installed new))
    (hpool : w'.upf.ippool = res.1) : KeepsOne conf sereq w w' := by
  have hseid : (m.installed new).localSEID = new.localSEID := Parsed.installed_localSEID hrules
  rw [PFCPConn.put_of_ne (by rwa [hseid])] at hconn
  refine ⟨m.installed new, fseid, ?_⟩
  rw [hseid, hconn, hpool]
  exact ⟨hzero, hfseid, hnew, by rw [hseid]; rfl, rfl, hfrom.rulesOf hrules,
    Parsed.holdsChosen_installed hread hrules⟩

/-- An establishment that is accepted, or refused with a rollback that did not
finish, stores exactly one new session with all the rules of the request and the
addresses this node chose for it; any other leaves store, gauge and pool as they
were. -/
theorem establishment_all_or_nothing (conf : AgentConf) (sereq : SessionEstablishmentRequest)
    (w : World (Observed σ)) (hseid : w.conn.drawnSEID conf.rng conf.maxRetries ≠ some 0) :
    let ended := handleSessionEstablishmentRequest conf dp.observed sereq w
    let kept := ended.1.acceptsEstablishment = true ∨ w.UnfinishedRollback ended.2
    (kept → KeepsOne conf sereq w ended.2) ∧ (¬ kept → KeepsNothing conf w ended.2) := by
  dsimp only
  rcases establishment_cases conf dp.observed sereq w with
    ⟨reply, rngPos, hcase, hrefused⟩ |
    ⟨i, fseid, rngPos, res, hfseid, hnew, hdrawn, hlook, ⟨reply, hcase, hrefused⟩ |
      ⟨m, hfrom, hread, hcase⟩⟩
  · rw [hcase, hrefused]
    have hnone : ¬ w.UnfinishedRollback { w with conn := { w.conn with rngPos } } :=
      World.not_unfinishedRollback rfl
    simp only [Bool.false_eq_true, hnone, or_self, false_implies, not_false_eq_true, true_implies,
      true_and]
    exact ⟨rfl, rfl, fun _ => IPPool.Same.refl _⟩
  · rw [hcase, hrefused]
    have hnone : ¬ w.UnfinishedRollback ((w.withDraws rngPos res).cleanup
        { localSEID := conf.rng i, remoteSEID := fseid.seid }) :=
      World.not_unfinishedRollback rfl
    simp only [Bool.false_eq_true, hnone, or_self, false_implies, not_false_eq_true, true_implies,
      true_and]
    exact keepsNothing_cleanup hnew rfl hdrawn hlook rfl rfl
  · have hzero : conf.rng i ≠ 0 := by
      intro heq
      rw [heq] at hdrawn
      exact hseid hdrawn
    rw [hcase]
    set new : PFCPSession := { localSEID := conf.rng i, remoteSEID := fseid.seid }
    set d := markEstablishment (m.create { session := new })
    set w₁ := w.withDraws rngPos res
    have hd : d.session.localSEID = conf.rng i := Parsed.installed_localSEID rfl
    rcases writeEstablishment_cases conf dp.observed d w₁ with
      ⟨-, hfin, hend⟩ | ⟨hadd, hfin, hend⟩ | ⟨hadd, response, hcause, hend⟩
    · -- The rollback did not finish: the session is stored after all.
      rw [hend, acceptsEstablishment_errProcessReply _ _ (by decide)]
      refine ⟨fun _ => keepsOne_put rfl hzero hfseid hnew hfrom hread rfl rfl, ?_⟩
      intro hkept
      exact absurd (.inr ((World.unfinishedRollback_sends dp rfl rfl).mpr hfin)) hkept
    · rw [hend, acceptsEstablishment_errProcessReply _ _ (by decide)]
      refine ⟨?_, fun _ => keepsNothing_cleanup hnew hd hdrawn hlook rfl rfl⟩
      rintro (haccept | hunfinished)
      · cases haccept
      · have hnot : ((w₁.send dp.observed .add d.session.rules d.added).2.send dp.observed .del
            d.session.rules {}).1.2 = false :=
          (World.unfinishedRollback_sends dp rfl rfl).mp hunfinished
        rw [hfin] at hnot
        cases hnot
    · rw [hend]
      refine ⟨fun _ => keepsOne_put rfl hzero hfseid hnew hfrom hread rfl rfl, ?_⟩
      intro hkept
      exact absurd (.inl (by simp [Reply.acceptsEstablishment, hcause])) hkept

end Handler

def PdrIE.downlink (pdrID : UInt16) (ueIPaddr : UEIPAddressFields) : PdrIE where
  pdrID := .ok pdrID
  precedence := .ok 100
  pdi := .ok [.sourceInterface (.ok srcInterfaceCore), .ueIPAddress (.ok ueIPaddr)]
  outerHeaderRemovalDescription := .error "no outer header removal"
  farID := .ok 1
  qerIDs := .ok []

def UEIPAddressFields.given (ip : IP) : UEIPAddressFields := { flags := 0x02, ipv4Address := ip }

def UEIPAddressFields.choose : UEIPAddressFields := { flags := 0x10, ipv4Address := [] }

/-- A fresh association on a shared pool, over a scripted datapath. -/
def World.observing (ippool : IPPool) (answers : List (Cause × Bool)) :
    World (Observed (List (Cause × Bool))) where
  upf := { ippool := some ippool, fteidGenerator := {}, datapath := { state := answers } }
  conn := { store := ∅, isShutdown := false, sessions := 0, rngPos := 0 }

/-- A rejected write whose rollback does not finish keeps the session and the
address it was given. -/
theorem establishment_all_or_nothing_unfinished :
    let w := World.observing ⟨[[10, 60, 0, 1], [10, 60, 0, 2]], ∅⟩
      [(.requestRejected, true), (.requestAccepted, false)]
    let sereq := SessionEstablishmentRequest.sample [.downlink 1 .choose] [.sample 1 2] []
    let ended := handleSessionEstablishmentRequest .sample scripted.observed sereq w
    w.conn.drawnSEID AgentConf.sample.rng AgentConf.sample.maxRetries ≠ some 0 ∧
      ended.1.acceptsEstablishment = false ∧ w.UnfinishedRollback ended.2 ∧
      KeepsOne .sample sereq w ended.2 ∧
      IPPool.leased ended.2.upf.ippool 1 = some [10, 60, 0, 1] := by
  have hrollback : (World.observing ⟨[[10, 60, 0, 1], [10, 60, 0, 2]], ∅⟩
      [(.requestRejected, true), (.requestAccepted, false)]).UnfinishedRollback
      (handleSessionEstablishmentRequest .sample scripted.observed
        (.sample [.downlink 1 .choose] [.sample 1 2] [])
        (.observing ⟨[[10, 60, 0, 1], [10, 60, 0, 2]], ∅⟩
          [(.requestRejected, true), (.requestAccepted, false)])).2 := by
    unfold World.UnfinishedRollback
    decide
  exact ⟨by decide, by decide, hrollback,
    (establishment_all_or_nothing scripted .sample _ _ (by decide)).1 (.inr hrollback),
    by decide⟩

/-- An accepted session can carry an address the pool knows nothing of, because
the control plane chose it; and a refused establishment on another association
that draws the SEID of a session with a lease ends that lease. -/
theorem supplied_address_not_held :
    (let w := World.observing ⟨[[10, 60, 0, 1]], ∅⟩ []
      let sereq := SessionEstablishmentRequest.sample [.downlink 1 (.given [10, 61, 0, 9])]
        [.sample 1 2] []
      let ended := handleSessionEstablishmentRequest .sample scripted.observed sereq w
      ended.1.acceptsEstablishment = true ∧
        ((ended.2.conn.store.lookup 1).map fun s => s.rules.pdrs.map Pdr.ueAddress) =
          some [ip2int [10, 61, 0, 9]] ∧
        IPPool.leased ended.2.upf.ippool 1 = none) ∧
    (let w := World.observing ⟨[[10, 60, 0, 2]], AList.singleton 1 [10, 60, 0, 1]⟩ []
      let sereq := SessionEstablishmentRequest.sample [] [.sample 1 0] []
      let ended := handleSessionEstablishmentRequest .sample scripted.observed sereq w
      ended.1.acceptsEstablishment = false ∧ w.answered ended.2 = [] ∧
        IPPool.leased w.upf.ippool 1 = some [10, 60, 0, 1] ∧
        IPPool.leased ended.2.upf.ippool 1 = none) := by
  decide

end Upf
