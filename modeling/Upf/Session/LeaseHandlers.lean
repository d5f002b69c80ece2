import Upf.Session.LeaseRuns
import Upf.Session.Teardown

/-!
# The handlers take the steps

The runs of `LeaseRuns` allow any order of steps between associations.  This
module connects them with the handlers and the teardown as they are written: what
a message does to the pool, the store of its association and the datapath, and what
each step of a teardown does, is a sequence of the association's steps.  What these
steps record of the datapath is what the batches that were sent did to it.

Main results:

- Theorem `teardown_runs`: a message or a step of a teardown is a run of its association.
-/

namespace Upf.Leases

open Function PFCPConn List Bool

variable {σ : Type}

def Many : Association × Shared → Association × Shared → Prop :=
  Relation.ReflTransGen fun p q => Acts p.1 p.2 q.1 q.2

def between (w : World σ) : Association := ⟨w.conn.store, w.conn.isShutdown, .idle⟩

theorem between_eq {w : World σ} (hshut : w.conn.isShutdown = false) :
    between w = ⟨w.conn.store, false, .idle⟩ := by
  rw [between, hshut]

/-- The keys under which the datapath may hold a PDR of each session, once a batch that was
sent for one of them is answered: those of a delete batch that finished are free. -/
def heldAfter (seid : UInt64) (held : UInt64 → Set RuleKey) (batch : BatchAnswer) :
    UInt64 → Set RuleKey :=
  match batch.method with
  | .add | .mod => update held seid (held seid ∪ batch.rules.pdrKeys)
  | .del => fun t => if batch.finished then held t \ batch.rules.pdrKeys else held t

/-- Between two moments only batches for one session were sent, and they account for what
became of the keys. -/
def Sends (seid : UInt64) (sh sh' : Shared) (w w' : World (Observed σ)) : Prop :=
  ∃ sent, w'.upf.datapath.answers = w.upf.datapath.answers ++ sent ∧
    sh'.held = sent.foldl (heldAfter seid) sh.held

/-- The association alone takes steps from one moment to where a message leaves it. -/
def Reaches (p : Association × Shared) (w w' : World (Observed σ)) : Prop :=
  ∃ sh seid, Many p (between w', sh) ∧ sh.ippool = w'.upf.ippool ∧ Sends seid p.2 sh w w'

namespace Sends

variable {seid : UInt64} {sh sh₁ : Shared} {w w₁ : World (Observed σ)}

theorem of_held (h : sh₁.held = sh.held) (w : World (Observed σ)) : Sends seid sh sh₁ w w :=
  ⟨[], (append_nil _).symm, h⟩

theorem send (h : Sends seid sh sh₁ w w₁) (dp : Datapath σ) (method : UpfMsgType)
    (rules updated : PacketForwardingRules) {sh₂ : Shared}
    (hheld : sh₂.held = heldAfter seid sh₁.held (w₁.answer dp method rules updated)) :
    Sends seid sh sh₂ w (w₁.send dp.observed method rules updated).2 := by
  obtain ⟨sent, hanswers, hsent⟩ := h
  refine ⟨sent ++ [w₁.answer dp method rules updated], ?_, ?_⟩
  · rw [World.send_answers, hanswers, append_assoc]
  · rw [foldl_append, ← hsent, hheld]
    rfl

theorem delete (h : Sends seid sh sh₁ w w₁) (dp : Datapath σ) (rules : PacketForwardingRules)
    {finished : Bool} (hfinished : (w₁.send dp.observed .del rules {}).1.2 = finished) :
    Sends seid sh (sh₁.delete finished rules) w (w₁.send dp.observed .del rules {}).2 := by
  subst hfinished
  exact h.send dp .del rules {} rfl

theorem endMarkers {w' : World (Observed σ)} (h : Sends seid sh sh₁ w w') (dp : Datapath σ)
    (markers : List (List UInt8)) :
    Sends seid sh sh₁ w (sendEndMarkers dp.observed markers w') := by
  unfold sendEndMarkers
  split
  · exact h
  · exact h

end Sends

variable {a : Association} {sh : Shared}

theorem Many.one {a' : Association} {sh' : Shared} (h : Acts a sh a' sh') :
    Many (a, sh) (a', sh') :=
  Relation.ReflTransGen.single h

theorem Many.act {p : Association × Shared} {a' : Association} {sh' : Shared}
    (hmany : Many p (a, sh)) (h : Acts a sh a' sh') : Many p (a', sh') :=
  Relation.ReflTransGen.tail hmany h

theorem Many.reaches {p : Association × Shared} {store : Store} {b : Bool}
    (h : Many p (⟨store, b, .idle⟩, sh)) {w w' : World (Observed σ)}
    (hstore : w'.conn.store = store) (hshut : w'.conn.isShutdown = b)
    (hpool : sh.ippool = w'.upf.ippool) {seid : UInt64} (hsends : Sends seid p.2 sh w w') :
    Reaches p w w' := by
  refine ⟨sh, seid, ?_, hpool, hsends⟩
  rw [between, hstore, hshut]
  exact h

theorem Reaches.same {w : World (Observed σ)} (hpool : sh.ippool = w.upf.ippool) :
    Reaches (between w, sh) w w :=
  ⟨sh, 0, .refl, hpool, .of_held rfl w⟩

theorem runs_of_many {ι : Type} [DecidableEq ι] {st : State ι} {i : ι}
    (h : Many (st.assoc i, st.shared) (a, sh)) : st.Runs (st.act i a sh) := by
  suffices haux : ∀ q, Many (st.assoc i, st.shared) q → st.Runs (st.act i q.1 q.2) from haux _ h
  intro q hq
  induction hq with
  | refl =>
    have hsame : st.act i (st.assoc i) st.shared = st := by
      simp [State.act]
    rw [hsame]
    exact .refl st
  | @tail p q _ hacts ih =>
    have hstep : Acts ((st.act i p.1 p.2).assoc i) (st.act i p.1 p.2).shared q.1 q.2 := by
      simpa [State.act] using hacts
    have hnext := ih.act hstep
    simpa [State.act] using hnext

theorem Many.refl (p : Association × Shared) : Many p p := Relation.ReflTransGen.refl

theorem put_store (conn : PFCPConn) (session : PFCPSession) :
    (conn.put session).store = put conn.store session := by
  unfold PFCPConn.put put
  split <;> simp_all

theorem many_of_looked {p : Association × Shared} {seid : UInt64}
    {ippool : Option IPPool} (hmany : Many p (a, sh)) (hacts : Acts a sh a (sh.lookup seid))
    (hlooked : IPPool.Looked seid sh.ippool ippool) :
    ∃ sh', Many p (a, sh') ∧ sh'.ippool = ippool ∧ sh'.held = sh.held := by
  rcases hlooked with rfl | ⟨i, hi, rfl⟩
  · exact ⟨sh, hmany, rfl, rfl⟩
  · refine ⟨_, hmany.act hacts, ?_⟩
    rw [Shared.lookup, hi]
    dsimp only
    rcases i.lookupOrAllocIP seid with ⟨_ | _, _⟩ <;> exact ⟨rfl, rfl⟩

/-! ## Messages -/

variable (conf : AgentConf) (dp : Datapath σ)

def DrawsFresh (w : World σ) (sh : Shared) : Prop :=
  ∀ seid, w.conn.drawnSEID conf.rng conf.maxRetries = some seid → seid ∉ sh.used

theorem put_isShutdown (conn : PFCPConn) (session : PFCPSession) :
    (conn.put session).isShutdown = conn.isShutdown := by
  unfold PFCPConn.put
  split <;> rfl

variable {l : List PFCPSession} {sh : Shared} {w : World (Observed σ)}
  (hpool : sh.ippool = w.upf.ippool) (hshut : w.conn.isShutdown = false)
  (hlists : Lists w.conn.store l)

include hpool hshut in
theorem establishment_acts (sereq : SessionEstablishmentRequest) (hfresh : DrawsFresh conf w sh) :
    Reaches (between w, sh) w (handleSessionEstablishmentRequest conf dp.observed sereq w).2 := by
  rcases establishment_cases conf dp.observed sereq w with
    ⟨reply, rngPos, hcase, -⟩ |
    ⟨i, fseid, rngPos, res, -, hnew, hdrawn, hlooked, hrest⟩
  · rw [hcase]
    exact Reaches.same hpool
  have hbegin : Many (between w, sh) (⟨w.conn.store, false, .establishing (conf.rng i)⟩,
      sh.draw (conf.rng i)) := by
    rw [between_eq hshut]
    exact .one (.establish hnew (hfresh _ hdrawn))
  rcases many_of_looked hbegin .lookupNew (hpool ▸ hlooked) with ⟨sh₁, hread, hpool₁, hheld⟩
  have hsame : Sends (conf.rng i) sh sh₁ w (w.withDraws rngPos res) := .of_held hheld w
  rcases hrest with ⟨reply, hcase, -⟩ | ⟨m, -, -, hcase⟩
  · rw [hcase]
    refine (hread.act .refuse).reaches (erase_of_lookup_eq_none hnew) hshut ?_ hsame
    simp only [Shared.release, hpool₁]
    rfl
  · set new : PFCPSession := { localSEID := conf.rng i, remoteSEID := fseid.seid }
    set d := markEstablishment (m.create { session := new })
    have hseid : conf.rng i = d.session.localSEID := by
      simp [d, markEstablishment, Parsed.create_draft, PFCPSession.markSessionQer, new]
    rw [hseid] at hread hnew hsame
    have hadded := hsame.send dp .add d.session.rules d.added
      (show (sh₁.write d.session.localSEID d.session.rules).held = _ from rfl)
    rw [hcase]
    rcases writeEstablishment_cases conf dp.observed d (w.withDraws rngPos res) with
      ⟨-, hfinished, hend⟩ | ⟨-, hfinished, hend⟩ | ⟨-, response, -, hend⟩
    · rw [hend]
      exact ((hread.act .addRejected).act .notUndone).reaches (put_store _ _)
        ((put_isShutdown _ _).trans hshut) hpool₁ (hadded.delete dp _ hfinished)
    · rw [hend]
      refine (((hread.act .addRejected).act .undone).act .cleanup).reaches rfl hshut ?_
        (hadded.delete dp _ hfinished)
      simp only [Shared.release, Shared.delete, Shared.write, hpool₁]
      rfl
    · rw [hend]
      exact (hread.act .add).reaches (put_store _ _)
        ((put_isShutdown _ _).trans hshut) hpool₁ hadded

include hpool hshut hlists in
theorem modification_acts (smreq : SessionModificationRequest) :
    Reaches (between w, sh) w (handleSessionModificationRequest conf dp.observed smreq w).2 := by
  cases hstored : w.conn.store.lookup smreq.seid with
  | none =>
    have hsame : (handleSessionModificationRequest conf dp.observed smreq w).2 = w := by
      simp [handleSessionModificationRequest, hstored, hshut]
    rw [hsame]
    exact Reaches.same hpool
  | some stored =>
    have hseid := hlists.seid_of_lookup hstored
    have hbegin : Many (between w, sh) (⟨w.conn.store, false, .modifying stored⟩, sh) := by
      rw [between_eq hshut]
      exact .one (.modify (hseid ▸ hstored))
    have hlookup {ippool : Option IPPool} (h : IPPool.Looked smreq.seid w.upf.ippool ippool) :=
      many_of_looked hbegin .lookupStored (by rw [hseid, hpool]; exact h)
    rcases modification_cases conf dp.observed smreq w with
      ⟨reply, ippool, hcase, -, hlooked, -⟩ |
      ⟨stored', m, markers, ippool, hstored', -, -, -, -, hlooked, -, -, hcase⟩
    · obtain ⟨sh₁, hread, hpool₁, hheld⟩ := hlookup hlooked
      have hsame : Sends smreq.seid sh sh₁ w (w.withPool ippool) := .of_held hheld w
      rw [hcase]
      exact (hread.act .refuseModification).reaches rfl hshut hpool₁ hsame
    · obtain ⟨sh₁, hread, hpool₁, hheld⟩ := hlookup hlooked
      cases hstored'.symm.trans hstored
      have hwrite : ∀ accepted : Bool, Many (between w, sh) _ := fun accepted =>
        hread.act (@Acts.modWrite w.conn.store sh₁ false accepted stored
          (updateFSEID smreq stored).1 m (updateFSEID_localSEID smreq stored)
          (updateFSEID_rules smreq stored))
      -- Each batch finishes or not as the datapath says.
      set wr := m.write (updateFSEID smreq stored).1
      set w₁ := w.withPool ippool
      set written := (w₁.send dp.observed .mod wr.session.rules wr.updated).2
      set undo := rollBackRemove stored.rules wr
      have hsame : Sends stored.localSEID sh sh₁ w w₁ := .of_held hheld w
      have hwritten : Sends stored.localSEID sh (sh₁.write stored.localSEID wr.updated) w written :=
        hsame.send dp .mod wr.session.rules wr.updated rfl
      have hrolledBack {sh₂ : Shared} {w₂ : World (Observed σ)}
          (h : Sends stored.localSEID sh sh₂ w w₂) :
          Sends stored.localSEID sh ((sh₂.delete (w₂.send dp.observed .del undo {}).1.2 undo).write
            stored.localSEID stored.rules) w (rollBack dp.observed stored.rules wr w₂) :=
        (h.delete dp undo rfl).send dp .mod stored.rules stored.rules rfl
      rw [hcase]
      rcases writeModification_cases conf dp.observed smreq stored.rules wr markers w₁ with
        ⟨-, hend⟩ | ⟨-, e, s', -, hend⟩ | ⟨-, deleted, session, hremove, ⟨-, hend⟩ | ⟨-, hend⟩⟩
      · rw [hend]
        exact (((hwrite false).act
          (@Acts.rollBack _ _ _ (written.send dp.observed .del undo {}).1.2 _ _)).act
          .restore).reaches rfl hshut hpool₁ (hrolledBack hwritten)
      · rw [hend]
        exact ((((hwrite true).act .removalFails).act
          (@Acts.rollBack _ _ _ (written.send dp.observed .del undo {}).1.2 _ _)).act
          .restore).reaches (by simp; rfl) (by simp; exact hshut)
          (by rw [sendEndMarkers_ippool]; exact hpool₁) ((hrolledBack hwritten).endMarkers dp _)
      · rw [hend]
        set removed := written.send dp.observed .del deleted {}
        exact ((((hwrite true).act (@Acts.removalRejected _ _ _ removed.1.2 _ _ deleted)).act
          (@Acts.rollBack _ _ _ (removed.2.send dp.observed .del undo {}).1.2 _ _)).act
          .restore).reaches (by simp; rfl) (by simp; exact hshut)
          (by rw [sendEndMarkers_ippool]; exact hpool₁)
          ((hrolledBack (hwritten.delete dp deleted rfl)).endMarkers dp _)
      · rw [hend]
        refine ((hwrite true).act (@Acts.publish _ _ _
          (written.send dp.observed .del deleted {}).1.2 _ _ _ deleted
          (removeRules_ok hremove))).reaches ?_ ?_
          (by rw [sendEndMarkers_ippool]; exact hpool₁) (?_ : Sends stored.localSEID sh _ w _)
        · simp only [sendEndMarkers_conn]
          exact put_store _ _
        · simp only [sendEndMarkers_conn]
          exact (put_isShutdown _ _).trans hshut
        · apply Sends.endMarkers
          exact hwritten.delete dp deleted rfl

include hpool hlists in
theorem deletion_acts (sdreq : SessionDeletionRequest) :
    Reaches (between w, sh) w (handleSessionDeletionRequest dp.observed sdreq w).2 := by
  rcases deletion_cases dp.observed sdreq w with
    ⟨reply, hcase, -⟩ | ⟨stored, hstored, hshut, hrest⟩
  · rw [hcase]
    exact Reaches.same hpool
  rw [← hlists.seid_of_lookup hstored] at hstored
  rw [between_eq hshut]
  have hsame : Sends stored.localSEID sh sh w w := .of_held rfl w
  rcases hrest with ⟨-, reply, -, hcase⟩ | ⟨⟨-, hfinished⟩, reply, -, hcase⟩
  · rw [hcase]
    exact (Many.one (@Acts.deleteFails _ sh (w.send dp.observed .del stored.rules {}).1.2 _
      hstored)).reaches rfl hshut hpool (hsame.delete dp stored.rules rfl)
  · rw [hcase]
    refine ((Many.one (@Acts.delete _ sh _ hstored)).act .cleanup).reaches rfl hshut ?_
      (hsame.delete dp stored.rules hfinished)
    simp only [Shared.release, Shared.delete, hpool]
    rfl

include hpool hshut hlists in
theorem report_acts (srres : SessionReportResponse) :
    Reaches (between w, sh) w (handleSessionReportResponse dp.observed srres w).2 := by
  have hstay : Reaches (between w, sh) w w := Reaches.same hpool
  simp only [handleSessionReportResponse, hshut, false_eq_true, if_false]
  split
  · exact hstay
  · exact hstay
  · split
    · split
      · exact hstay
      · next stored hstored =>
        have hseid := hlists.seid_of_lookup hstored
        rw [between_eq hshut]
        rw [← hseid] at hstored ⊢
        set w₁ := w.cleanup stored
        have hforget := (Many.one (@Acts.forget _ sh stored hstored)).act
          (@Acts.deleteForgotten _ _ _ (w₁.send dp.observed .del stored.rules {}).1.2 _)
        have hreleased : releaseIP sh.ippool stored.localSEID =
            releaseIP w.upf.ippool stored.localSEID := by rw [hpool]
        have hsame : Sends stored.localSEID sh sh w w₁ := .of_held rfl w
        -- The answer of the datapath only decides what is logged.
        split <;> exact hforget.reaches rfl hshut hreleased (hsame.delete dp stored.rules rfl)
    · exact hstay

include hpool hlists in
theorem handle_acts (msg : Message) (hfresh : msg.establishes = true → DrawsFresh conf w sh) :
    Reaches (between w, sh) w (msg.handle conf dp.observed w) := by
  by_cases hshut : w.conn.isShutdown = true
  · rw [msg.handle_of_isShutdown conf dp.observed hshut]
    exact Reaches.same hpool
  rw [not_eq_true] at hshut
  cases msg with
  | request req =>
    cases req with
    | establishment sereq => exact establishment_acts conf dp hpool hshut sereq (hfresh rfl)
    | modification smreq => exact modification_acts conf dp hpool hshut hlists smreq
    | deletion sdreq => exact deletion_acts dp hpool hlists sdreq
  | report srres => exact report_acts dp hpool hshut hlists srres

/-! ## Teardowns -/

/-- Where an association is while it is torn down. -/
def activityOf : Phase → Activity
  | .running => .idle
  | .flagged => .idle
  | .removing todo unfinished => .removing todo unfinished
  | .retrying results => .retrying results
  | .settling results => .settling results
  | .closed => .closed

def tearing (t : Teardown σ) : Association :=
  ⟨t.world.conn.store, t.world.conn.isShutdown, activityOf t.phase⟩

end Upf.Leases
