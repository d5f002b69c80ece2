import Upf.Session.Deletion
import Upf.Session.Written

/-!
# What a handler can do

Inversion lemmas for the three request handlers: every way through each of them,
with the batches it sends.  Later proofs start from these and never unfold a
handler.
-/

namespace Upf

open Lib

def Reply.acceptsModification : Reply SessionModificationResponse → Bool
  | .answered r _ => r.cause = .requestAccepted
  | .panicked => false

def Reply.acceptsEstablishment : Reply SessionEstablishmentResponse → Bool
  | .answered r _ => r.cause = .requestAccepted
  | .panicked => false

def Reply.acceptsDeletion : Reply SessionDeletionResponse → Bool
  | .answered r _ => r.cause = .requestAccepted
  | .panicked => false

section Generic

variable {σ : Type} (conf : AgentConf) (dp : Datapath σ)

/-! ## Modification -/

@[simp] theorem acceptsModification_sendModificationError (seid : UInt64) (f : Fault) :
    (sendModificationError seid f).acceptsModification = false := by
  cases f <;> rfl

theorem updateFSEID_rules (smreq : SessionModificationRequest) (s : PFCPSession) :
    (updateFSEID smreq s).1.rules = s.rules := by
  unfold updateFSEID
  split <;> rfl

theorem updateFSEID_localSEID (smreq : SessionModificationRequest) (s : PFCPSession) :
    (updateFSEID smreq s).1.localSEID = s.localSEID := by
  unfold updateFSEID
  split <;> rfl

/-- The world once reading a modification has asked the pool. -/
def World.withPool (w : World σ) (ippool : Option IPPool) : World σ :=
  { w with upf := { w.upf with ippool } }

def modificationWrite (smreq : SessionModificationRequest) (w : World σ) : Option Write :=
  match w.conn.store.lookup smreq.seid with
  | none => none
  | some stored =>
    let (session, fseidIP) := updateFSEID smreq stored
    match (readModification conf smreq.seid fseidIP smreq { session }
      (w.upf.ippool, w.upf.fteidGenerator)).1 with
    | .error _ => none
    | .ok (created, d) => some (writeOf stored.rules created d)

theorem modification_cases (smreq : SessionModificationRequest) (w : World σ) :
    (∃ reply ippool, handleSessionModificationRequest conf dp smreq w =
        (reply, w.withPool ippool) ∧ reply.acceptsModification = false ∧
        IPPool.Looked smreq.seid w.upf.ippool ippool ∧
        (w.conn.isShutdown = true ∨ modificationWrite conf smreq w = none)) ∨
    ∃ stored m markers ippool, w.conn.store.lookup smreq.seid = some stored ∧
      w.conn.isShutdown = false ∧ Parsed.Owned m smreq.seid ∧
      m.Names smreq.createPDR smreq.createFAR smreq.createQER ∧
      m.UpdatesFARs conf smreq.seid (updateFSEID smreq stored).2 smreq.updateFAR ∧
      IPPool.Looked smreq.seid w.upf.ippool ippool ∧
      markers.length = (m.heldFARs (updateFSEID smreq stored).1).2.countP Far.sendEndMarker ∧
      modificationWrite conf smreq w = some (m.write (updateFSEID smreq stored).1) ∧
      handleSessionModificationRequest conf dp smreq w =
        writeModification conf dp smreq stored.rules (m.write (updateFSEID smreq stored).1)
          markers (w.withPool ippool) := by
  unfold handleSessionModificationRequest
  cases hstore : w.conn.store.lookup smreq.seid with
  | none =>
    left
    cases hshut : w.conn.isShutdown <;>
      exact ⟨_, w.upf.ippool, rfl, rfl, .refl _ _, .inr (by simp [modificationWrite, hstore])⟩
  | some stored =>
    simp only [modify]
    rcases hfseid : updateFSEID smreq stored with ⟨session, fseidIP⟩
    have hsession : (updateFSEID smreq stored).1 = session := by rw [hfseid]
    have hrules : session.rules = stored.rules := by
      rw [← hsession, updateFSEID_rules]
    cases hshut : w.conn.isShutdown with
    | true => exact .inl ⟨_, w.upf.ippool, rfl, rfl, .refl _ _, .inl rfl⟩
    | false =>
      have hres := readModification_resources conf smreq.seid fseidIP smreq { session }
        (w.upf.ippool, w.upf.fteidGenerator)
      rcases hread : readModification conf smreq.seid fseidIP smreq { session }
        (w.upf.ippool, w.upf.fteidGenerator) with ⟨e | ⟨created, d⟩, ⟨ippool, gen⟩⟩
      · rw [hread] at hres
        rcases hres with ⟨hlook, hgen⟩
        dsimp only at hgen
        subst hgen
        exact .inl ⟨_, ippool, rfl, acceptsModification_sendModificationError _ _, hlook,
          Or.inr (by simp only [modificationWrite, hstore, hfseid, hread])⟩
      · rw [hread] at hres
        rcases hres with ⟨hlook, hgen⟩
        dsimp only at hgen
        subst hgen
        rcases readModification_ok hread with ⟨m, hown, hnames, hupdates, -, rfl, rfl⟩
        rcases m.update_draft session with ⟨markers, hupdate, hcount⟩
        refine .inr ⟨stored, m, markers, ippool, rfl, rfl, hown, hnames,
          by rw [hfseid]; exact hupdates, hlook, by rw [hfseid]; exact hcount, ?_, ?_⟩
        · simp only [modificationWrite, hstore, hfseid, hread, ← hrules, m.writeOf_eq session]
        have hmarkers : (m.update (m.create { session })).endMarkerList = markers := by
          rw [hupdate]
        simp only [hfseid, Bool.false_eq_true, if_false, ← hrules, m.writeOf_eq session,
          hmarkers]
        rfl

theorem modificationWrite_eq_some {smreq : SessionModificationRequest} {w : World σ} {wr : Write}
    (h : modificationWrite conf smreq w = some wr) :
    ∃ stored m, w.conn.store.lookup smreq.seid = some stored ∧
      Parsed.ReadsPDRs conf smreq.seid (updateFSEID smreq stored).2 m smreq ∧
      wr = m.write (updateFSEID smreq stored).1 := by
  unfold modificationWrite at h
  cases hstored : w.conn.store.lookup smreq.seid with
  | none => simp [hstored] at h
  | some stored =>
    rcases hfseid : updateFSEID smreq stored with ⟨session, fseidIP⟩
    have hrules : session.rules = stored.rules := by
      rw [← updateFSEID_rules smreq stored, hfseid]
    simp only [hstored, hfseid] at h
    rcases hread : readModification conf smreq.seid fseidIP smreq { session }
      (w.upf.ippool, w.upf.fteidGenerator) with ⟨e | ⟨created, d⟩, res⟩
    · simp [hread] at h
    · rcases readModification_ok hread with ⟨m, -, -, -, hreads, rfl, rfl⟩
      simp only [hread, Option.some.injEq, ← hrules, m.writeOf_eq session] at h
      exact ⟨stored, m, rfl, hfseid ▸ hreads, by rw [hfseid, h]⟩

theorem writeModification_cases (smreq : SessionModificationRequest)
    (before : PacketForwardingRules) (wr : Write) (markers : List (List UInt8)) (w : World σ) :
    let sent := w.send dp .mod wr.session.rules wr.updated
    let endMarkers := if conf.enableEndMarker then markers else []
    (sent.1.1 = .requestRejected ∧
      writeModification conf dp smreq before wr markers w =
        (sendModificationError wr.session.remoteSEID (.err .writeToDatapath),
          rollBack dp before wr sent.2)) ∨
    (sent.1.1 ≠ .requestRejected ∧ ∃ e s, removeRules smreq wr.session = (.error e, s) ∧
      writeModification conf dp smreq before wr markers w =
        (sendModificationError wr.session.remoteSEID (.err e),
          sendEndMarkers dp endMarkers (rollBack dp before wr sent.2))) ∨
    (sent.1.1 ≠ .requestRejected ∧
      ∃ deleted session, removeRules smreq wr.session = (.ok deleted, session) ∧
        let gone := sent.2.send dp .del deleted {}
        ((gone.1.1 = .requestRejected ∧
          writeModification conf dp smreq before wr markers w =
            (sendModificationError wr.session.remoteSEID (.err .writeToDatapath),
              sendEndMarkers dp endMarkers (rollBack dp before wr gone.2))) ∨
        (gone.1.1 ≠ .requestRejected ∧
          writeModification conf dp smreq before wr markers w =
            (.answered { seid := wr.session.remoteSEID, cause := .requestAccepted } none,
              sendEndMarkers dp endMarkers
                { gone.2 with conn := gone.2.conn.put session })))) := by
  dsimp only
  by_cases hsent : (w.send dp .mod wr.session.rules wr.updated).1.1 = .requestRejected
  · exact .inl ⟨hsent, by simp [writeModification, hsent]⟩
  rcases hremove : removeRules smreq wr.session with ⟨e | deleted, session⟩
  · exact .inr (.inl ⟨hsent, e, session, rfl,
      by simp [writeModification, removeAndPublish, hsent, hremove]⟩)
  · refine .inr (.inr ⟨hsent, deleted, session, rfl, ?_⟩)
    by_cases hgone : ((w.send dp .mod wr.session.rules wr.updated).2.send dp .del deleted
        {}).1.1 = .requestRejected
    · exact .inl ⟨hgone, by simp [writeModification, removeAndPublish, hsent, hremove, hgone]⟩
    · exact .inr ⟨hgone, by simp [writeModification, removeAndPublish, hsent, hremove, hgone]⟩

/-! ## Establishment -/

theorem acceptsEstablishment_errProcessReply (seid : UInt64) (f : Fault) {cause : Cause}
    (h : cause ≠ .requestAccepted) :
    (errProcessReply seid f cause).acceptsEstablishment = false := by
  cases f with
  | err => simp [errProcessReply, Reply.acceptsEstablishment, h]
  | panicked => rfl

theorem checkEstablishment_error {sereq : SessionEstablishmentRequest} {conn : PFCPConn}
    {response : SessionEstablishmentResponse} {e : GoError}
    (h : checkEstablishment conf sereq conn = .error (response, e)) :
    response.cause ≠ .requestAccepted := by
  unfold checkEstablishment at h
  split at h
  · cases h
    decide
  · cases h
    decide
  · split at h
    · cases h
      decide
    · cases h
      decide
    · split_ifs at h <;> cases h <;> simp

/-- The world once an establishment has drawn its SEID and read its rules. -/
def World.withDraws (w : World σ) (rngPos : Nat) (res : Resources) : World σ where
  upf := { w.upf with ippool := res.1, fteidGenerator := res.2 }
  conn := { w.conn with rngPos, sessions := w.conn.sessions + 1 }

theorem checkEstablishment_ok {sereq : SessionEstablishmentRequest} {conn : PFCPConn}
    {fseid : FSEIDFields} (h : checkEstablishment conf sereq conn = .ok fseid) :
    sereq.cpFSEID = some (.ok fseid) := by
  unfold checkEstablishment at h
  split at h
  · cases h
  · cases h
  · split at h
    · cases h
    · cases h
    · rename_i hfseid
      split_ifs at h
      rw [hfseid, Except.ok.inj h]

/-- An establishment is refused with nothing taken but random numbers, or it
draws a SEID that is new to the store and is refused while its rules are read,
or they parse and there is something to write. -/
def Begins (sereq : SessionEstablishmentRequest) (w : World σ)
    (refused : Reply SessionEstablishmentResponse → World σ → Prop)
    (parsed : Draft → World σ → Prop) : Prop :=
  (∃ reply rngPos, refused reply { w with conn := { w.conn with rngPos } } ∧
    reply.acceptsEstablishment = false) ∨
  ∃ i fseid rngPos res, sereq.cpFSEID = some (.ok fseid) ∧
    w.conn.store.lookup (conf.rng i) = none ∧
    w.conn.drawnSEID conf.rng conf.maxRetries = some (conf.rng i) ∧
    IPPool.Looked (conf.rng i) w.upf.ippool res.1 ∧
    let session : PFCPSession := { localSEID := conf.rng i, remoteSEID := fseid.seid }
    ((∃ reply, refused reply ((w.withDraws rngPos res).cleanup session) ∧
      reply.acceptsEstablishment = false) ∨
    ∃ m : Parsed, m.ReadFrom conf (conf.rng i) (ip2int fseid.ipv4Address) sereq ∧
      List.Forall₂ (fun ie p => ∃ pdi, ie.pdi = .ok pdi ∧
        ReadSoFar (conf.rng i) p (ueAddressChosen pdi) res.1) sereq.createPDR m.createPDRs ∧
      parsed (markEstablishment (m.create { session })) (w.withDraws rngPos res))

theorem begin_cases (sereq : SessionEstablishmentRequest) (w : World σ) :
    Begins conf sereq w (fun reply w' => beginEstablishment conf sereq w = (.error reply, w'))
      fun d w' => beginEstablishment conf sereq w = (.ok d, w') := by
  unfold Begins beginEstablishment
  cases hcheck : checkEstablishment conf sereq w.conn with
  | error =>
    refine .inl ⟨_, w.conn.rngPos, rfl, ?_⟩
    simp [Reply.acceptsEstablishment, checkEstablishment_error conf hcheck]
  | ok fseid =>
    dsimp only
    rcases PFCPConn.newPFCPSession_cases conf.rng fseid.seid conf.maxRetries w.conn with
      ⟨n, hnone | ⟨i, hnew, hdrawn, hsome⟩⟩
    · rw [hnone]
      exact .inl ⟨_, n, rfl, rfl⟩
    · rw [hsome]
      right
      have hpool := readEstablishment_pool conf (conf.rng i) (ip2int fseid.ipv4Address) sereq
        { session := { localSEID := conf.rng i, remoteSEID := fseid.seid } }
        (w.upf.ippool, w.upf.fteidGenerator)
      rcases hread : readEstablishment conf (conf.rng i) (ip2int fseid.ipv4Address) sereq
        { session := { localSEID := conf.rng i, remoteSEID := fseid.seid } }
        (w.upf.ippool, w.upf.fteidGenerator) with ⟨refusal | d, res⟩
      · rw [hread] at hpool
        refine ⟨i, fseid, n, res, checkEstablishment_ok conf hcheck, hnew, hdrawn, hpool,
          Or.inl ⟨_, ?_, acceptsEstablishment_errProcessReply fseid.seid refusal.fault
            (readEstablishment_error hread)⟩⟩
        simp only [hread]
        rfl
      · rw [hread] at hpool
        rcases readEstablishment_ok hread with ⟨m, hfrom, rfl, haddr⟩
        refine ⟨i, fseid, n, res, checkEstablishment_ok conf hcheck, hnew, hdrawn, hpool,
          Or.inr ⟨m, hfrom, haddr, ?_⟩⟩
        simp only [hread]
        rfl

theorem establishment_cases (sereq : SessionEstablishmentRequest) (w : World σ) :
    Begins conf sereq w
      (fun reply w' => handleSessionEstablishmentRequest conf dp sereq w = (reply, w'))
      fun d w' => handleSessionEstablishmentRequest conf dp sereq w =
        writeEstablishment conf dp d w' := by
  rw [handleSessionEstablishmentRequest_eq]
  rcases begin_cases conf sereq w with
    ⟨reply, rngPos, hbegin, hrefused⟩ |
    ⟨i, fseid, rngPos, res, hfseid, hnew, hdrawn, hpool,
      ⟨reply, hbegin, hrefused⟩ | ⟨m, hfrom, haddr, hbegin⟩⟩
  · rw [hbegin]
    exact .inl ⟨reply, rngPos, rfl, hrefused⟩
  · rw [hbegin]
    exact .inr ⟨i, fseid, rngPos, res, hfseid, hnew, hdrawn, hpool,
      Or.inl ⟨reply, rfl, hrefused⟩⟩
  · rw [hbegin]
    exact .inr ⟨i, fseid, rngPos, res, hfseid, hnew, hdrawn, hpool,
      Or.inr ⟨m, hfrom, haddr, rfl⟩⟩

/-- From the write on, an establishment is kept because its rollback did not
finish, forgotten, or accepted. -/
theorem writeEstablishment_cases (d : Draft) (w : World σ) :
    let added := w.send dp .add d.session.rules d.added
    let removed := added.2.send dp .del d.session.rules {}
    let reply := errProcessReply d.session.remoteSEID (.err .writeToDatapath) .requestRejected
    (added.1.1 = .requestRejected ∧ removed.1.2 = false ∧
      writeEstablishment conf dp d w =
        (reply, { removed.2 with conn := w.conn.put d.session })) ∨
    (added.1.1 = .requestRejected ∧ removed.1.2 = true ∧
      writeEstablishment conf dp d w = (reply, removed.2.cleanup d.session)) ∨
    (added.1.1 ≠ .requestRejected ∧
      ∃ response, response.cause = .requestAccepted ∧
        writeEstablishment conf dp d w =
          (.answered response none, { added.2 with conn := w.conn.put d.session })) := by
  dsimp only
  by_cases hadd : (w.send dp .add d.session.rules d.added).1.1 = .requestRejected
  · cases hfin : ((w.send dp .add d.session.rules d.added).2.send dp .del d.session.rules
        {}).1.2 with
    | false =>
      refine .inl ⟨hadd, rfl, ?_⟩
      simp [writeEstablishment, hadd, hfin]
    | true =>
      refine .inr (.inl ⟨hadd, rfl, ?_⟩)
      simp [writeEstablishment, hadd, hfin]
  · refine .inr (.inr ⟨hadd, _, ?_, by simp [writeEstablishment, hadd]; rfl⟩)
    rfl

/-! ## Deletion -/

theorem deletion_cases (sdreq : SessionDeletionRequest) (w : World σ) :
    (∃ reply, handleSessionDeletionRequest dp sdreq w = (reply, w) ∧
      reply.acceptsDeletion = false) ∨
    ∃ stored, w.conn.store.lookup sdreq.seid = some stored ∧ w.conn.isShutdown = false ∧
      let gone := w.send dp .del stored.rules {}
      (((gone.1.1 = .requestRejected ∨ gone.1.2 = false) ∧
          ∃ reply, reply.acceptsDeletion = false ∧
            handleSessionDeletionRequest dp sdreq w = (reply, gone.2)) ∨
        ((gone.1.1 ≠ .requestRejected ∧ gone.1.2 = true) ∧
          ∃ reply, reply.acceptsDeletion = true ∧
            handleSessionDeletionRequest dp sdreq w = (reply, gone.2.cleanup stored))) := by
  unfold handleSessionDeletionRequest
  cases hstore : w.conn.store.lookup sdreq.seid with
  | none =>
    left
    cases hshut : w.conn.isShutdown <;> exact ⟨_, rfl, rfl⟩
  | some stored =>
    cases hshut : w.conn.isShutdown with
    | true => exact .inl ⟨_, rfl, rfl⟩
    | false =>
      refine .inr ⟨stored, rfl, rfl, ?_⟩
      by_cases hgone : (w.send dp .del stored.rules {}).1.1 = .requestRejected ∨
          (w.send dp .del stored.rules {}).1.2 = false
      · refine .inl ⟨hgone, _, ?_, by simp [deleteSession, hgone]; rfl⟩
        rfl
      · rw [not_or, Bool.not_eq_false] at hgone
        refine .inr ⟨hgone, _, ?_, by simp [deleteSession, hgone]; rfl⟩
        rfl

end Generic

end Upf
