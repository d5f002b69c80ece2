import Upf.Session.Conformance
import Upf.Session.Store

/-!
# What a message does to store, gauge and address pool

The handlers of `messages_session.go` seen from the books alone: the session
store, the association's share of the live-session gauge, and the address pool.
Each handler runs under the association's lock and checks the shutdown flag
before it does anything, so one message is one step.
-/

namespace Upf

open PFCPConn

inductive Message where
  | request (req : Request)
  | report (srres : SessionReportResponse)

/-- Whether a message asks for a new session. -/
def Message.establishes : Message → Bool
  | .request (.establishment _) => true
  | _ => false

section Handle

variable {σ : Type} (conf : AgentConf) (dp : Datapath σ)

def Message.handle (msg : Message) (w : World σ) : World σ :=
  match msg with
  | .request req => (serve conf dp req w).2
  | .report srres => (handleSessionReportResponse dp srres w).2

inductive Books (msg : Message) (w w' : World σ) : Prop
  /-- Nothing. -/
  | unchanged (hpool : w'.upf.ippool = w.upf.ippool) (hstore : w'.conn.store = w.conn.store)
      (hsessions : w'.conn.sessions = w.conn.sessions)
  /-- A session is made and kept. -/
  | born (session : PFCPSession) (hmsg : msg.establishes = true)
      (hdrawn : w.conn.drawnSEID conf.rng conf.maxRetries = some session.localSEID)
      (hnew : w.conn.store.lookup session.localSEID = none)
      (hpool : IPPool.Looked session.localSEID w.upf.ippool w'.upf.ippool)
      (hstore : w'.conn.store = (w.conn.put session).store)
      (hsessions : w'.conn.sessions = w.conn.sessions + 1)
  /-- A session is made and taken back. -/
  | aborted (seid : UInt64) (ippool : Option IPPool) (hmsg : msg.establishes = true)
      (hdrawn : w.conn.drawnSEID conf.rng conf.maxRetries = some seid)
      (hnew : w.conn.store.lookup seid = none)
      (hlooked : IPPool.Looked seid w.upf.ippool ippool)
      (hpool : w'.upf.ippool = releaseIP ippool seid)
      (hstore : w'.conn.store = w.conn.store) (hsessions : w'.conn.sessions = w.conn.sessions)
  /-- A stored session is asked for its address, and perhaps replaced. -/
  | touched (seid : UInt64) (stored : PFCPSession)
      (hstored : w.conn.store.lookup seid = some stored)
      (hpool : IPPool.Looked seid w.upf.ippool w'.upf.ippool)
      (hstore : w'.conn.store = w.conn.store ∨
        ∃ session, session.localSEID = stored.localSEID ∧
          w'.conn.store = (w.conn.put session).store)
      (hsessions : w'.conn.sessions = w.conn.sessions)
  /-- A stored session is removed. -/
  | ended (seid : UInt64) (stored : PFCPSession)
      (hstored : w.conn.store.lookup seid = some stored)
      (hpool : w'.upf.ippool = releaseIP w.upf.ippool seid ∨
        w'.upf.ippool = releaseIP w.upf.ippool stored.localSEID)
      (hstore : w'.conn.store = w.conn.store.erase stored.localSEID)
      (hsessions : w'.conn.sessions = w.conn.sessions - 1)

variable {w : World σ}

theorem handleSessionEstablishmentRequest_of_isShutdown (sereq : SessionEstablishmentRequest)
    (h : w.conn.isShutdown = true) :
    (handleSessionEstablishmentRequest conf dp sereq w).2 = w := by
  unfold handleSessionEstablishmentRequest
  cases hcheck : checkEstablishment conf sereq w.conn with
  | error => rfl
  | ok =>
    -- The flag is the last check.
    unfold checkEstablishment at hcheck
    split at hcheck
    · cases hcheck
    · cases hcheck
    · split at hcheck
      · cases hcheck
      · cases hcheck
      · split_ifs at hcheck

theorem handleSessionModificationRequest_of_isShutdown (smreq : SessionModificationRequest)
    (h : w.conn.isShutdown = true) :
    (handleSessionModificationRequest conf dp smreq w).2 = w := by
  unfold handleSessionModificationRequest
  split
  · simp [h]
  · simp [modify, h]

theorem handleSessionDeletionRequest_of_isShutdown (sdreq : SessionDeletionRequest)
    (h : w.conn.isShutdown = true) :
    (handleSessionDeletionRequest dp sdreq w).2 = w := by
  unfold handleSessionDeletionRequest
  split <;> simp [h]

theorem handleSessionReportResponse_of_isShutdown (srres : SessionReportResponse)
    (h : w.conn.isShutdown = true) :
    (handleSessionReportResponse dp srres w).2 = w := by
  unfold handleSessionReportResponse
  split
  · rfl
  · rfl
  · simp [h]

theorem Message.handle_of_isShutdown (msg : Message)
    (h : w.conn.isShutdown = true) : msg.handle conf dp w = w := by
  cases msg with
  | request req =>
    cases req with
    | establishment sereq => exact handleSessionEstablishmentRequest_of_isShutdown conf dp sereq h
    | modification smreq => exact handleSessionModificationRequest_of_isShutdown conf dp smreq h
    | deletion sdreq => exact handleSessionDeletionRequest_of_isShutdown dp sdreq h
  | report srres => exact handleSessionReportResponse_of_isShutdown dp srres h

@[simp] theorem sendEndMarkers_ippool (markers : List (List UInt8)) (w : World σ) :
    (sendEndMarkers dp markers w).upf.ippool = w.upf.ippool := by
  unfold sendEndMarkers
  split <;> rfl

@[simp] theorem rollBack_conn (before : PacketForwardingRules) (wr : Write) (w : World σ) :
    (rollBack dp before wr w).conn = w.conn := rfl

@[simp] theorem rollBack_ippool (before : PacketForwardingRules) (wr : Write) (w : World σ) :
    (rollBack dp before wr w).upf.ippool = w.upf.ippool := rfl

theorem PFCPConn.put_sessions (conn : PFCPConn) (session : PFCPSession) :
    (conn.put session).sessions = conn.sessions := by
  unfold PFCPConn.put
  split <;> rfl

theorem books_establishment (sereq : SessionEstablishmentRequest) (w : World σ) :
    Books conf (.request (.establishment sereq)) w
      (handleSessionEstablishmentRequest conf dp sereq w).2 := by
  rcases establishment_cases conf dp sereq w with
    ⟨reply, rngPos, hcase, -⟩ |
    ⟨i, fseid, rngPos, res, -, hnew, hdrawn, hlooked, ⟨reply, hcase, -⟩ | ⟨m, -, -, hcase⟩⟩
  · rw [hcase]
    exact .unchanged rfl rfl rfl
  · rw [hcase]
    exact .aborted (conf.rng i) res.1 rfl hdrawn hnew hlooked rfl
      (erase_of_lookup_eq_none hnew) (by simp [World.cleanup, PFCPConn.removeSession,
        World.withDraws])
  · set new : PFCPSession := { localSEID := conf.rng i, remoteSEID := fseid.seid }
    set d := markEstablishment (m.create { session := new })
    have hseid : d.session.localSEID = conf.rng i := by
      simp [d, markEstablishment, Parsed.create_draft, PFCPSession.markSessionQer, new]
    have hput : ∀ w' : World σ, w'.conn = (w.withDraws rngPos res).conn.put d.session →
        w'.upf.ippool = res.1 → Books conf (.request (.establishment sereq)) w w' := by
      intro w' hconn hpool
      refine .born d.session rfl (hseid ▸ hdrawn) (hseid ▸ hnew) ?_ ?_ ?_
      · rw [hpool, hseid]
        exact hlooked
      · have hstore : (w.withDraws rngPos res).conn.store = w.conn.store := rfl
        rw [hconn]
        exact put_store_congr hstore d.session
      · rw [hconn, put_sessions]
        rfl
    rw [hcase]
    rcases writeEstablishment_cases conf dp d (w.withDraws rngPos res) with
      ⟨-, -, hend⟩ | ⟨-, -, hend⟩ | ⟨-, response, -, hend⟩
    · rw [hend]
      exact hput _ rfl rfl
    · rw [hend]
      refine .aborted (conf.rng i) res.1 rfl hdrawn hnew hlooked (by rw [← hseid]; rfl) ?_ ?_
      · have herase : w.conn.store.erase d.session.localSEID = w.conn.store := by
          rw [hseid]
          exact erase_of_lookup_eq_none hnew
        exact herase
      · simp [World.cleanup, PFCPConn.removeSession, World.withDraws]
    · rw [hend]
      exact hput _ rfl rfl

theorem books_modification (smreq : SessionModificationRequest) (w : World σ) :
    Books conf (.request (.modification smreq)) w
      (handleSessionModificationRequest conf dp smreq w).2 := by
  cases hstored : w.conn.store.lookup smreq.seid with
  | none =>
    -- Nothing is read for a session that is not there.
    have hsame : (handleSessionModificationRequest conf dp smreq w).2 = w := by
      simp only [handleSessionModificationRequest, hstored]
      split <;> rfl
    rw [hsame]
    exact .unchanged rfl rfl rfl
  | some stored =>
    rcases modification_cases conf dp smreq w with
      ⟨reply, ippool, hcase, -, hlooked, -⟩ |
      ⟨stored', m, markers, ippool, hstored', -, -, -, -, hlooked, -, -, hcase⟩
    · rw [hcase]
      exact .touched smreq.seid stored hstored hlooked (.inl rfl) rfl
    · have hsame : stored' = stored := Option.some.inj (hstored'.symm.trans hstored)
      subst hsame
      set s := (updateFSEID smreq stored').1
      have hseid : (m.write s).session.localSEID = stored'.localSEID :=
        updateFSEID_localSEID smreq stored'
      rw [hcase]
      rcases writeModification_cases conf dp smreq stored'.rules (m.write s) markers
          (w.withPool ippool) with
        ⟨-, hend⟩ | ⟨-, e, s', -, hend⟩ | ⟨-, deleted, session, hremove, ⟨-, hend⟩ | ⟨-, hend⟩⟩
      · rw [hend]
        exact .touched smreq.seid stored' hstored hlooked (.inl rfl) rfl
      · rw [hend]
        exact .touched smreq.seid stored' hstored (by simpa [World.withPool] using hlooked)
          (.inl (by simp; rfl)) (by simp; rfl)
      · rw [hend]
        exact .touched smreq.seid stored' hstored (by simpa [World.withPool] using hlooked)
          (.inl (by simp; rfl)) (by simp; rfl)
      · rw [hend]
        refine .touched smreq.seid stored' hstored (by simpa [World.withPool] using hlooked)
          (.inr ⟨session, ?_, ?_⟩) ?_
        · rw [(removeRules_ok hremove).localSEID, hseid]
        · simp only [sendEndMarkers_conn]
          exact put_store_congr rfl session
        · simp only [sendEndMarkers_conn, put_sessions]
          rfl

theorem books_deletion (sdreq : SessionDeletionRequest) (w : World σ) :
    Books conf (.request (.deletion sdreq)) w
      (handleSessionDeletionRequest dp sdreq w).2 := by
  rcases deletion_cases dp sdreq w with
    ⟨reply, hcase, -⟩ |
    ⟨stored, hstored, -, ⟨-, reply, -, hcase⟩ | ⟨-, reply, -, hcase⟩⟩
  · rw [hcase]
    exact .unchanged rfl rfl rfl
  · rw [hcase]
    exact .unchanged rfl rfl rfl
  · rw [hcase]
    exact .ended sdreq.seid stored hstored (.inr rfl) rfl rfl

theorem books_report (srres : SessionReportResponse) (w : World σ) :
    Books conf (.report srres) w (handleSessionReportResponse dp srres w).2 := by
  unfold handleSessionReportResponse
  split
  · exact .unchanged rfl rfl rfl
  · exact .unchanged rfl rfl rfl
  · split
    · split
      · exact .unchanged rfl rfl rfl
      · split
        · exact .unchanged rfl rfl rfl
        · next stored hstored =>
          -- The answer of the datapath only decides what is logged.
          dsimp only
          split <;> exact .ended srres.seid stored hstored (.inl rfl) rfl rfl
    · exact .unchanged rfl rfl rfl

theorem Message.handle_books (msg : Message) (w : World σ) :
    Books conf msg w (msg.handle conf dp w) := by
  cases msg with
  | request req =>
    cases req with
    | establishment sereq => exact books_establishment conf dp sereq w
    | modification smreq => exact books_modification conf dp smreq w
    | deletion sdreq => exact books_deletion conf dp sdreq w
  | report srres => exact books_report conf dp srres w

end Handle

end Upf
