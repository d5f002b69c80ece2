import Upf.Session.Cases

/-!
# What a request does to the tables and the store

The three requests on the datapath behind the agent: for each of them the ways
it can end, with the batches it sent and the store it leaves.
-/

namespace Upf

open Lib List

structure BatchRecord.Sends (batch : BatchRecord) (method : UpfMsgType)
    (rules : PacketForwardingRules) : Prop where
  method : batch.method = method
  rules : batch.rules = rules

/-! ## Modification -/

/-- The ways a modification can end, by whether it is accepted. -/
inductive Modified (agent : AgentConf) (conf : BessConf) (smreq : SessionModificationRequest)
    (w w' : World BessState) : Bool → Prop where
  | unwritten (hconn : w'.conn = w.conn) (hadv : w.Advanced conf w' []) :
      Modified agent conf smreq w w' false
  /-- The batches `done` are the write and, if it got so far, the deletion. -/
  | rolledBack (s stored : PFCPSession) (m : Parsed) (done : List BatchRecord)
      (removed restored : BatchRecord)
      (hstored : w.conn.store.lookup smreq.seid = some stored) (hs : s.rules = stored.rules)
      (hown : m.Owned smreq.seid)
      (hdone : ∀ batch ∈ done, batch.Sends .mod (m.write s).updated ∨
        ∃ deleted session, Removes (m.write s).session session deleted ∧
          batch.Sends .del deleted)
      (hremoved : removed.Sends .del (rollBackRemove s.rules (m.write s)))
      (hrestored : restored.Sends .mod s.rules)
      (hconn : w'.conn = w.conn) (hadv : w.Advanced conf w' (done ++ [removed, restored])) :
      Modified agent conf smreq w w' false
  | published (s stored session : PFCPSession) (m : Parsed) (deleted : PacketForwardingRules)
      (written gone : BatchRecord)
      (hstored : w.conn.store.lookup smreq.seid = some stored) (hs : s.rules = stored.rules)
      (hseid : s.localSEID = stored.localSEID) (hown : m.Owned smreq.seid)
      (hnames : m.Names smreq.createPDR smreq.createFAR smreq.createQER)
      (hwrite : modificationWrite agent smreq w = some (m.write s))
      (hremoves : Removes (m.write s).session session deleted)
      (hwritten : written.Sends .mod (m.write s).updated)
      (haccepted : (written.result conf).1 ≠ .requestRejected)
      (hgone : gone.Sends .del deleted)
      (hconn : w'.conn = w.conn.put session) (hadv : w.Advanced conf w' [written, gone]) :
      Modified agent conf smreq w w' true

section Modification

variable {conf : BessConf} {oracle : Nat → BatchOutcome}

@[simp] theorem sendEndMarkers_tables (markers : List (List UInt8)) (w : World BessState) :
    (sendEndMarkers (bess conf oracle) markers w).tables = w.tables := by
  unfold sendEndMarkers
  split <;> rfl

@[simp] theorem sendEndMarkers_log (markers : List (List UInt8)) (w : World BessState) :
    (sendEndMarkers (bess conf oracle) markers w).log = w.log := by
  unfold sendEndMarkers
  split <;> rfl

@[simp] theorem sendEndMarkers_conn {σ : Type} {dp : Datapath σ} (markers : List (List UInt8))
    (w : World σ) : (sendEndMarkers dp markers w).conn = w.conn := by
  unfold sendEndMarkers
  split <;> rfl

theorem rolledBack_of_rollBack {agent : AgentConf} {smreq : SessionModificationRequest}
    {w w₁ w' : World BessState} {s stored : PFCPSession} {m : Parsed} {done : List BatchRecord}
    (hstored : w.conn.store.lookup smreq.seid = some stored) (hs : s.rules = stored.rules)
    (hown : m.Owned smreq.seid)
    (hdone : ∀ batch ∈ done, batch.Sends .mod (m.write s).updated ∨
      ∃ deleted session, Removes (m.write s).session session deleted ∧ batch.Sends .del deleted)
    (hadv : w.Advanced conf w₁ done) (hconn : w₁.conn = w.conn)
    (hw' : ∃ markers, w' = sendEndMarkers (bess conf oracle) markers
      (rollBack (bess conf oracle) s.rules (m.write s) w₁)) :
    Modified agent conf smreq w w' false := by
  rcases hw' with ⟨markers, rfl⟩
  set removed := w₁.nextBatch oracle .del (rollBackRemove s.rules (m.write s)) {}
  set restored := (w₁.after conf removed).nextBatch oracle .mod s.rules s.rules
  refine .rolledBack s stored m done removed restored hstored hs hown hdone ⟨rfl, rfl⟩ ⟨rfl, rfl⟩
    ?_ ?_
  · rw [sendEndMarkers_conn]
    exact hconn
  · have hboth := (hadv.after removed).after restored
    rw [append_assoc] at hboth
    exact hboth.congr (sendEndMarkers_log _ _) (sendEndMarkers_tables _ _)

theorem handleSessionModificationRequest_outcome (agent : AgentConf) (conf : BessConf)
    (oracle : Nat → BatchOutcome) (smreq : SessionModificationRequest) (w : World BessState) :
    let ended := handleSessionModificationRequest agent (bess conf oracle) smreq w
    Modified agent conf smreq w ended.2 ended.1.acceptsModification := by
  dsimp only
  rcases modification_cases agent (bess conf oracle) smreq w with
    ⟨reply, ippool, hcase, hrefused, -, -⟩ |
    ⟨stored, m, markers, ippool, hstored, -, hown, hnames, -, -, -, hwrite, hcase⟩
  · rw [hcase, hrefused]
    exact .unwritten rfl ((World.Advanced.refl w).congr rfl rfl)
  set s := (updateFSEID smreq stored).1
  have hs : s.rules = stored.rules := updateFSEID_rules smreq stored
  rw [hcase, ← hs]
  set w₁ := w.withPool ippool
  have hadv₁ : w.Advanced conf w₁ [] := (World.Advanced.refl w).congr rfl rfl
  set written := w₁.nextBatch oracle .mod (m.write s).session.rules (m.write s).updated
  have hwritten : written.Sends .mod (m.write s).updated := ⟨rfl, rfl⟩
  have hadv₂ : w.Advanced conf (w₁.after conf written) [written] := hadv₁.after written
  rcases writeModification_cases agent (bess conf oracle) smreq s.rules (m.write s) markers w₁
    with ⟨-, hend⟩ | ⟨-, e, _, -, hend⟩ | ⟨hsent, deleted, session, hremove, hdel⟩
  · rw [hend, acceptsModification_sendModificationError]
    exact rolledBack_of_rollBack hstored hs hown (by simp [hwritten]) hadv₂ rfl ⟨[], rfl⟩
  · rw [hend, acceptsModification_sendModificationError]
    exact rolledBack_of_rollBack hstored hs hown (by simp [hwritten]) hadv₂ rfl ⟨_, rfl⟩
  · have hremoves := removeRules_ok hremove
    set gone := (w₁.after conf written).nextBatch oracle .del deleted {}
    have hgone : gone.Sends .del deleted := ⟨rfl, rfl⟩
    have hadv₃ : w.Advanced conf ((w₁.after conf written).after conf gone) [written, gone] :=
      hadv₂.after gone
    rcases hdel with ⟨-, hend⟩ | ⟨-, hend⟩
    · rw [hend, acceptsModification_sendModificationError]
      refine rolledBack_of_rollBack hstored hs hown ?_ hadv₃ rfl ⟨_, rfl⟩
      intro batch hbatch
      rcases mem_pair.mp hbatch with rfl | rfl
      · exact .inl hwritten
      · exact .inr ⟨deleted, session, hremoves, hgone⟩
    · rw [hend]
      refine .published s stored session m deleted written gone hstored hs
        (updateFSEID_localSEID smreq stored) hown hnames hwrite hremoves hwritten hsent hgone
        ?_ ?_
      · rw [sendEndMarkers_conn]
        rfl
      · exact hadv₃.congr (sendEndMarkers_log _ _) (sendEndMarkers_tables _ _)

end Modification

/-! ## Establishment -/

def Parsed.installed (m : Parsed) (session : PFCPSession) : PFCPSession :=
  (markEstablishment (m.create { session })).session

namespace Parsed

variable {m : Parsed} {new : PFCPSession}

def markInstalled (m : Parsed) (p : Pdr) : Pdr :=
  markPdr (m.createPDRs.map (markPdr m.createPDRs m.createQERs)) m.createQERs
    (markPdr m.createPDRs m.createQERs p)

theorem installed_eq (hrules : new.rules = {}) :
    m.installed new = { new with rules :=
      { pdrs := m.createPDRs.map m.markInstalled
        fars := m.createFARs
        qers := (markSessionQer m.createPDRs m.createQERs).2 } } := by
  simp only [installed, markEstablishment, create_draft, PFCPSession.markSessionQer, hrules,
    nil_append, markSessionQer_pdrs, map_map]
  rfl

theorem markInstalled_eq (p : Pdr) :
    m.markInstalled p = { p with qerIDList := (m.markInstalled p).qerIDList } := by
  unfold markInstalled
  rw [markPdr_eq, markPdr_eq m.createPDRs]

theorem installed_ownedBy (hrules : new.rules = {}) {seid : UInt64} (hown : m.Owned seid) :
    (m.installed new).rules.OwnedBy seid := by
  rw [installed_eq hrules]
  constructor
  · intro p hp
    rcases mem_map.mp hp with ⟨p₀, hp₀, rfl⟩
    rw [markInstalled_eq]
    exact hown.pdrs p₀ (mem_append_left _ hp₀)
  · intro f hf
    exact hown.fars f (mem_append_left _ hf)
  · intro q hq
    rcases mem_markSessionQer_qers hq with ⟨q₀, hq₀, heq⟩
    have hseid := (hown.qers q₀ (mem_append_left _ hq₀)).1
    rcases heq with rfl | rfl <;> exact hseid

end Parsed

/-- The ways an establishment can end, by whether it is accepted. -/
inductive Established (agent : AgentConf) (conf : BessConf) (sereq : SessionEstablishmentRequest)
    (w w' : World BessState) : Bool → Prop where
  | unwritten (hstore : w'.conn.store = w.conn.store) (hadv : w.Advanced conf w' []) :
      Established agent conf sereq w w' false
  | takenOut (new : PFCPSession) (m : Parsed) (added removed : BatchRecord)
      (hrules : new.rules = {}) (hnew : w.conn.store.lookup new.localSEID = none)
      (hown : m.Owned new.localSEID)
      (hnames : m.Names sereq.createPDR sereq.createFAR sereq.createQER)
      (hadded : added.Sends .add (m.installed new).rules)
      (hremoved : removed.Sends .del (m.installed new).rules)
      (hstore : w'.conn.store = w.conn.store ∨ (removed.result conf).2 = false)
      (hadv : w.Advanced conf w' [added, removed]) :
      Established agent conf sereq w w' false
  | stored (new : PFCPSession) (m : Parsed) (added : BatchRecord)
      (hrules : new.rules = {}) (hnew : w.conn.store.lookup new.localSEID = none)
      (hown : m.Owned new.localSEID)
      (hnames : m.Names sereq.createPDR sereq.createFAR sereq.createQER)
      (hadded : added.Sends .add (m.installed new).rules)
      (haccepted : (added.result conf).1 ≠ .requestRejected)
      (hstore : w'.conn.store = (w.conn.put (m.installed new)).store)
      (hadv : w.Advanced conf w' [added]) :
      Established agent conf sereq w w' true

theorem PFCPConn.put_store_congr {conn conn' : PFCPConn} (h : conn.store = conn'.store)
    (session : PFCPSession) : (conn.put session).store = (conn'.put session).store := by
  by_cases hzero : session.localSEID = 0
  · rw [put_of_zero hzero, put_of_zero hzero, h]
  · rw [put_of_ne hzero, put_of_ne hzero, h]

theorem handleSessionEstablishmentRequest_outcome (agent : AgentConf) (conf : BessConf)
    (oracle : Nat → BatchOutcome) (sereq : SessionEstablishmentRequest) (w : World BessState) :
    let ended := handleSessionEstablishmentRequest agent (bess conf oracle) sereq w
    Established agent conf sereq w ended.2 ended.1.acceptsEstablishment := by
  dsimp only
  rcases establishment_cases agent (bess conf oracle) sereq w with
    ⟨reply, rngPos, hcase, hrefused⟩ |
    ⟨i, fseid, rngPos, res, -, hnew, -, -, ⟨reply, hcase, hrefused⟩ | ⟨m, hfrom, -, hcase⟩⟩
  · rw [hcase, hrefused]
    exact .unwritten rfl ((World.Advanced.refl w).congr rfl rfl)
  · rw [hcase, hrefused]
    exact .unwritten (PFCPConn.erase_of_lookup_eq_none hnew)
      ((World.Advanced.refl w).congr rfl rfl)
  rw [hcase]
  have hown := hfrom.owned
  have hnames := hfrom.names
  set new : PFCPSession := { localSEID := agent.rng i, remoteSEID := fseid.seid }
  set d := markEstablishment (m.create { session := new })
  have hseid : d.session.localSEID = agent.rng i := by
    simp [d, markEstablishment, Parsed.create_draft, PFCPSession.markSessionQer, new]
  set w₁ := w.withDraws rngPos res
  have hadv₁ : w.Advanced conf w₁ [] := (World.Advanced.refl w).congr rfl rfl
  set added := w₁.nextBatch oracle .add d.session.rules d.added
  set removed := (w₁.after conf added).nextBatch oracle .del d.session.rules {}
  rcases writeEstablishment_cases agent (bess conf oracle) d w₁ with
    ⟨-, hfin, hend⟩ | ⟨-, hfin, hend⟩ | ⟨hsent, response, hcause, hend⟩
  · rw [hend, acceptsEstablishment_errProcessReply _ _ (by decide)]
    exact .takenOut new m added removed rfl hnew hown hnames ⟨rfl, rfl⟩ ⟨rfl, rfl⟩
      (.inr hfin) (((hadv₁.after added).after removed).congr rfl rfl)
  · rw [hend, acceptsEstablishment_errProcessReply _ _ (by decide)]
    refine .takenOut new m added removed rfl hnew hown hnames ⟨rfl, rfl⟩ ⟨rfl, rfl⟩
      (.inl ?_) (((hadv₁.after added).after removed).congr rfl rfl)
    have herase : w.conn.store.erase d.session.localSEID = w.conn.store := by
      rw [hseid]
      exact PFCPConn.erase_of_lookup_eq_none hnew
    exact herase
  · have haccepts : (Reply.answered response none).acceptsEstablishment = true := by
      simp [Reply.acceptsEstablishment, hcause]
    rw [hend, haccepts]
    refine .stored new m added rfl hnew hown hnames ⟨rfl, rfl⟩ hsent ?_
      ((hadv₁.after added).congr rfl rfl)
    have hstore : w₁.conn.store = w.conn.store := rfl
    exact PFCPConn.put_store_congr hstore _

/-! ## Deletion -/

/-- The ways a deletion can end, by whether it is accepted. -/
inductive Deleted (conf : BessConf) (sdreq : SessionDeletionRequest) (w w' : World BessState) :
    Bool → Prop where
  | unwritten (hconn : w'.conn = w.conn) (hadv : w.Advanced conf w' []) :
      Deleted conf sdreq w w' false
  | kept (stored : PFCPSession) (gone : BatchRecord)
      (hstored : w.conn.store.lookup sdreq.seid = some stored)
      (hgone : gone.Sends .del stored.rules)
      (hrefused : (gone.result conf).1 = .requestRejected ∨ (gone.result conf).2 = false)
      (hconn : w'.conn = w.conn) (hadv : w.Advanced conf w' [gone]) :
      Deleted conf sdreq w w' false
  | forgotten (stored : PFCPSession) (gone : BatchRecord)
      (hstored : w.conn.store.lookup sdreq.seid = some stored)
      (hgone : gone.Sends .del stored.rules)
      (hstore : w'.conn.store = w.conn.store.erase stored.localSEID)
      (hadv : w.Advanced conf w' [gone]) :
      Deleted conf sdreq w w' true

theorem handleSessionDeletionRequest_outcome (conf : BessConf) (oracle : Nat → BatchOutcome)
    (sdreq : SessionDeletionRequest) (w : World BessState) :
    let ended := handleSessionDeletionRequest (bess conf oracle) sdreq w
    Deleted conf sdreq w ended.2 ended.1.acceptsDeletion := by
  dsimp only
  rcases deletion_cases (bess conf oracle) sdreq w with
    ⟨reply, hcase, hrefused⟩ |
    ⟨stored, hstored, -, ⟨hsent, reply, hreply, hcase⟩ | ⟨-, reply, hreply, hcase⟩⟩
  · rw [hcase, hrefused]
    exact .unwritten rfl (.refl w)
  · rw [hcase, hreply]
    set gone := w.nextBatch oracle .del stored.rules {}
    exact .kept stored gone hstored ⟨rfl, rfl⟩ hsent rfl ((World.Advanced.refl w).after gone)
  · rw [hcase, hreply]
    set gone := w.nextBatch oracle .del stored.rules {}
    exact .forgotten stored gone hstored ⟨rfl, rfl⟩ rfl
      (((World.Advanced.refl w).after gone).congr rfl rfl)

end Upf
