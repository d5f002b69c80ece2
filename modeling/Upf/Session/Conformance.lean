import Upf.Session.Kinds
import Upf.Session.RollBack

/-!
# Store and tables in step over whole runs

A run is a sequence of requests on one association.  For one kind of rule, the
invariant is that the tables hold for every SEID exactly the entries of the rules
stored under it.  A request keeps it if its batches are clean and the rules it
programs meet two obligations: those of one session stay apart, and the write of
a modification accounts for every entry.  The modules on PDRs, FARs and QERs
discharge the obligations.
-/

namespace Upf

open Lib List AList PFCPConn

/-! ## Requests and runs -/

inductive Request where
  | establishment (sereq : SessionEstablishmentRequest)
  | modification (smreq : SessionModificationRequest)
  | deletion (sdreq : SessionDeletionRequest)

def serve {σ : Type} (agent : AgentConf) (dp : Datapath σ) (req : Request) (w : World σ) :
    Bool × World σ :=
  match req with
  | .establishment sereq =>
    let ended := handleSessionEstablishmentRequest agent dp sereq w
    (ended.1.acceptsEstablishment, ended.2)
  | .modification smreq =>
    let ended := handleSessionModificationRequest agent dp smreq w
    (ended.1.acceptsModification, ended.2)
  | .deletion sdreq =>
    let ended := handleSessionDeletionRequest dp sdreq w
    (ended.1.acceptsDeletion, ended.2)

def Served (agent : AgentConf) (conf : BessConf) (w w' : World BessState) (accepted : Bool) :
    Request → Prop
  | .establishment sereq => Established agent conf sereq w w' accepted
  | .modification smreq => Modified agent conf smreq w w' accepted
  | .deletion sdreq => Deleted conf sdreq w w' accepted

theorem serve_served (agent : AgentConf) (conf : BessConf) (oracle : Nat → BatchOutcome)
    (req : Request) (w : World BessState) :
    Served agent conf w (serve agent (bess conf oracle) req w).2
      (serve agent (bess conf oracle) req w).1 req := by
  cases req with
  | establishment sereq => exact handleSessionEstablishmentRequest_outcome agent conf oracle sereq w
  | modification smreq => exact handleSessionModificationRequest_outcome agent conf oracle smreq w
  | deletion sdreq => exact handleSessionDeletionRequest_outcome conf oracle sdreq w

def ServesWhen (agent : AgentConf) (conf : BessConf) (oracle : Nat → BatchOutcome)
    (ok : Request → World BessState → World BessState → Prop) (w w' : World BessState) : Prop :=
  ∃ req, w' = (serve agent (bess conf oracle) req w).2 ∧ ok req w w'

def RunsWhen (agent : AgentConf) (conf : BessConf) (oracle : Nat → BatchOutcome)
    (ok : Request → World BessState → World BessState → Prop) :
    World BessState → World BessState → Prop :=
  Relation.ReflTransGen (ServesWhen agent conf oracle ok)

def storedRules (store : Store) (seid : UInt64) : PacketForwardingRules :=
  match store.lookup seid with
  | none => {}
  | some s => s.rules

def Request.held (store : Store) : Request → PacketForwardingRules
  | .modification smreq => storedRules store smreq.seid
  | _ => {}

structure FreshIDs (held created : List UInt32) : Prop where
  nodup : created.Nodup
  new : ∀ id ∈ created, id ∉ held

def Request.createdPDRs : Request → List UInt32
  | .establishment sereq => sereq.createPDR.filterMap PdrIE.named
  | .modification smreq => smreq.createPDR.filterMap PdrIE.named
  | .deletion _ => []

def Request.createdFARs : Request → List UInt32
  | .establishment sereq => sereq.createFAR.filterMap FarIE.named
  | .modification smreq => smreq.createFAR.filterMap FarIE.named
  | .deletion _ => []

def Request.createdQERs : Request → List UInt32
  | .establishment sereq => sereq.createQER.filterMap QerIE.named
  | .modification smreq => smreq.createQER.filterMap QerIE.named
  | .deletion _ => []

def CleanBetween (conf : BessConf) (w w' : World BessState) : Prop :=
  ∀ batch ∈ w.sent w', batch.Clean conf

instance (conf : BessConf) (w w' : World BessState) : Decidable (CleanBetween conf w w') :=
  inferInstanceAs (Decidable (∀ batch ∈ w.sent w', batch.Clean conf))

instance (held created : List UInt32) : Decidable (FreshIDs held created) :=
  decidable_of_iff (created.Nodup ∧ created.all (fun id => decide (id ∉ held)) = true)
    ⟨fun h => ⟨h.1, by simpa using h.2⟩, fun h => ⟨h.nodup, by simpa using h.new⟩⟩

/-- No session is stored and no table holds an entry. -/
structure Fresh (w : World BessState) : Prop where
  store : w.conn.store = ∅
  tables : w.tables = fun _ => none

/-- An association without a pool, to start runs from. -/
def World.sample : World BessState where
  upf :=
    { ippool := none
      fteidGenerator := { offset := 0, usedMap := ∅ }
      datapath := { tables := fun _ => none } }
  conn := { store := ∅, isShutdown := false, sessions := 0, rngPos := 0 }

theorem World.sample_fresh : Fresh .sample := ⟨rfl, rfl⟩

theorem FreshIDs.append {held created : List UInt32} (h : FreshIDs held created)
    (hheld : held.Nodup) : (held ++ created).Nodup := by
  rw [nodup_append]
  refine ⟨hheld, h.nodup, ?_⟩
  rintro id hid id' hid' rfl
  exact h.new id hid' hid

/-! ## What is stored -/

variable {store : Store} {seid : UInt64}

theorem storedRules_of_some {s : PFCPSession}
    (h : store.lookup seid = some s) : storedRules store seid = s.rules := by
  simp [storedRules, h]

theorem storedRules_of_none (h : store.lookup seid = none) :
    storedRules store seid = {} := by
  simp [storedRules, h]

theorem storedRules_put_of_ne {conn : PFCPConn} {session : PFCPSession}
    (h : seid ≠ session.localSEID) :
    storedRules (conn.put session).store seid = storedRules conn.store seid := by
  by_cases hzero : session.localSEID = 0
  · rw [put_of_zero hzero]
  · rw [put_of_ne hzero]
    simp [storedRules, lookup_insert_ne h]

theorem lookup_put_self (conn : PFCPConn) {session : PFCPSession} (h : session.localSEID ≠ 0) :
    (conn.put session).store.lookup session.localSEID = some session := by
  rw [put_of_ne h]
  exact lookup_insert _

theorem storedRules_erase_of_ne {seid' : UInt64} (h : seid' ≠ seid) :
    storedRules (store.erase seid) seid' = storedRules store seid' := by
  simp [storedRules, lookup_erase_ne h]

/-- What holds of every stored session whatever the tables hold. -/
structure StoreOk (store : Store) : Prop where
  seid : ∀ {seid s}, store.lookup seid = some s → s.localSEID = seid ∧ seid ≠ 0
  owned : ∀ seid, (storedRules store seid).OwnedBy seid
  translates : ∀ seid, ∀ p ∈ (storedRules store seid).pdrs, p.translates = true

namespace StoreOk

variable {store : Store} {conn : PFCPConn} {session : PFCPSession}

theorem empty : StoreOk ∅ := by
  have hnone : ∀ seid, (∅ : Store).lookup seid = none := fun seid => lookup_empty seid
  refine ⟨?_, ?_, ?_⟩
  · intro seid s hs
    rw [hnone] at hs
    cases hs
  · intro seid
    rw [storedRules_of_none (hnone seid)]
    exact ⟨by simp, by simp, by simp⟩
  · intro seid
    rw [storedRules_of_none (hnone seid)]
    simp

theorem put (h : StoreOk conn.store) (howned : session.rules.OwnedBy session.localSEID)
    (htrans : ∀ p ∈ session.rules.pdrs, p.translates = true) :
    StoreOk (conn.put session).store := by
  by_cases hzero : session.localSEID = 0
  · rwa [put_of_zero hzero]
  have hself := storedRules_of_some (lookup_put_self conn hzero)
  refine ⟨?_, ?_, ?_⟩
  · intro seid s hs
    by_cases hseid : seid = session.localSEID
    · subst hseid
      rw [lookup_put_self conn hzero, Option.some.injEq] at hs
      exact ⟨by rw [hs], hzero⟩
    · rw [put_of_ne hzero, lookup_insert_ne hseid] at hs
      exact h.seid hs
  · intro seid
    by_cases hseid : seid = session.localSEID
    · subst hseid
      rwa [hself]
    · rw [storedRules_put_of_ne hseid]
      exact h.owned seid
  · intro seid
    by_cases hseid : seid = session.localSEID
    · subst hseid
      rwa [hself]
    · rw [storedRules_put_of_ne hseid]
      exact h.translates seid

theorem erase (h : StoreOk store) (seid : UInt64) : StoreOk (store.erase seid) := by
  have hself : storedRules (store.erase seid) seid = {} :=
    storedRules_of_none (lookup_erase seid store)
  refine ⟨?_, ?_, ?_⟩
  · intro seid' s hs
    by_cases hseid : seid' = seid
    · rw [hseid, lookup_erase] at hs
      cases hs
    · rw [lookup_erase_ne hseid] at hs
      exact h.seid hs
  · intro seid'
    by_cases hseid : seid' = seid
    · rw [hseid, hself]
      exact ⟨by simp, by simp, by simp⟩
    · rw [storedRules_erase_of_ne hseid]
      exact h.owned seid'
  · intro seid'
    by_cases hseid : seid' = seid
    · rw [hseid, hself]
      simp
    · rw [storedRules_erase_of_ne hseid]
      exact h.translates seid'

end StoreOk
variable {conf : BessConf}

theorem published_ok {store : Store} {seid : UInt64} {m : Parsed} {s session : PFCPSession}
    {deleted : PacketForwardingRules} {written : BatchRecord}
    (h : StoreOk store) (hs : s.rules = storedRules store seid) (hown : m.Owned seid)
    (hremoves : Removes (m.write s).session session deleted)
    (hwritten : written.Sends .mod (m.write s).updated) (hclean : written.Clean conf)
    (haccepted : (written.result conf).1 ≠ .requestRejected) :
    session.rules.OwnedBy seid ∧ ∀ p ∈ session.rules.pdrs, p.translates = true := by
  have howned : (m.write s).session.rules.OwnedBy seid :=
    Parsed.session_ownedBy (hs ▸ h.owned seid) hown
  constructor
  · exact howned.sub hremoves.sub.2
  · intro p hp
    have hsession := hremoves.sub.2.pdrs p hp
    rcases Parsed.session_pdr_cases p hsession with hupdated | ⟨o, ho, _, rfl⟩
    · rw [← hwritten.rules] at hupdated
      exact hclean.accepted_iff.mp haccepted p hupdated
    · rw [hs] at ho
      exact h.translates seid o ho

theorem StoreOk.step {agent : AgentConf} {req : Request} {accepted : Bool}
    {w w' : World BessState} (h : StoreOk w.conn.store)
    (hserved : Served agent conf w w' accepted req) (hclean : CleanBetween conf w w') :
    StoreOk w'.conn.store := by
  cases req with
  | establishment =>
    cases hserved with
    | unwritten hstore => rwa [hstore]
    | takenOut new m added removed hrules hnew hown hnames hadded hremoved hstore hadv =>
      rcases hstore with hstore | hunfinished
      · rwa [hstore]
      · rw [(hclean removed (by simp [hadv.sent])).result] at hunfinished
        cases hunfinished
    | stored new m added hrules hnew hown hnames hadded haccepted hstore hadv =>
      rw [hstore]
      have hseid : (m.installed new).localSEID = new.localSEID := by
        rw [Parsed.installed_eq hrules]
      apply h.put
      · rw [hseid]
        exact Parsed.installed_ownedBy hrules hown
      · rw [← hadded.rules]
        exact (hclean added (by simp [hadv.sent])).accepted_iff.mp haccepted
  | modification smreq =>
    cases hserved with
    | unwritten hconn => rwa [hconn]
    | rolledBack s stored m done removed restored hstored hs hown hdone hremoved hrestored
        hconn => rwa [hconn]
    | published s stored session m deleted written gone hstored hs hseid hown hnames hwrite
        hremoves hwritten haccepted hgone hconn hadv =>
        rw [hconn]
        have hlocal : session.localSEID = smreq.seid :=
          hremoves.localSEID.trans (hseid.trans (h.seid hstored).1)
        have hok := published_ok h (hs.trans (storedRules_of_some hstored).symm) hown hremoves
          hwritten (hclean written (by simp [hadv.sent])) haccepted
        exact h.put (hlocal ▸ hok.1) hok.2
  | deletion =>
    cases hserved with
    | unwritten hconn => rwa [hconn]
    | kept stored gone hstored hgone hrefused hconn => rwa [hconn]
    | forgotten stored gone hstored hgone hstore =>
      rw [hstore]
      exact h.erase _

theorem Deleted.storedRules_eq {sdreq : SessionDeletionRequest}
    {w w' : World BessState} (h : StoreOk w.conn.store) (hdel : Deleted conf sdreq w w' true) :
    sdreq.seid ≠ 0 ∧ storedRules w'.conn.store sdreq.seid = {} := by
  cases hdel with
  | forgotten stored gone hstored hgone hstore =>
    refine ⟨(h.seid hstored).2, ?_⟩
    rw [hstore, (h.seid hstored).1]
    exact storedRules_of_none (lookup_erase _ _)

/-! ## One kind of rule -/

namespace RuleKind

variable {conf : BessConf} (K : RuleKind conf)

/-- The tables of this kind hold, for every SEID a session can be stored under,
exactly the entries of the rules stored there, and those stay apart. -/
structure Conforms (w : World BessState) : Prop where
  tables : ∀ seid, seid ≠ 0 →
    Table.Holds w.tables (K.own seid) (K.entriesOf (storedRules w.conn.store seid))
  apart : ∀ seid, K.family.Apart (K.rules (storedRules w.conn.store seid))

theorem Conforms.mem_tables {K : RuleKind conf} {w : World BessState} (h : K.Conforms w)
    {seid : UInt64} (hseid : seid ≠ 0) {k : RuleKey} {e : RuleEntry} (hk : K.isKey k) :
    (w.tables k = some e ∧ carriesFSEID seid k e) ↔
      ∃ r ∈ K.rules (storedRules w.conn.store seid), (k, e) ∈ K.family.entries r := by
  rw [← Family.mem_all]
  refine Iff.trans ?_ (h.tables seid hseid k e)
  exact and_congr_right fun _ => (and_iff_right hk).symm

/-- What the rules a request programs must meet: they keep off the keys of other
sessions, the rules of a new session stay apart, and the write of a modification
accounts for every entry. -/
structure Obligations (agent : AgentConf) (req : Request) (w w' : World BessState)
    (accepted : Bool) : Prop where
  cross : ∀ batch ∈ w.sent w', ∀ r ∈ K.rules batch.rules, ∀ seid, seid ≠ K.fseID r →
    ∀ r' ∈ K.rules (storedRules w.conn.store seid), K.family.Disjoint r r'
  installs : ∀ sereq m new, req = .establishment sereq → new.rules = {} →
    Parsed.Owned m new.localSEID →
    m.Names sereq.createPDR sereq.createFAR sereq.createQER →
    (∃ batch ∈ w.sent w', batch.rules = (m.installed new).rules) →
    K.family.Apart (K.rules (m.installed new).rules)
  writes : ∀ smreq m s, req = .modification smreq →
    s.rules = storedRules w.conn.store smreq.seid → Parsed.Owned m smreq.seid →
    m.Names smreq.createPDR smreq.createFAR smreq.createQER →
    modificationWrite agent smreq w = some (m.write s) → accepted = true →
    (∃ batch ∈ w.sent w', batch.rules = (m.write s).updated) →
    K.family.Writes (K.rules s.rules) (K.rules (m.write s).session.rules)
      (K.rules (m.write s).updated)

variable {K}

theorem holds_write {t : Tables} {seid : UInt64} {old new written : PacketForwardingRules}
    {batch : BatchRecord} {method : UpfMsgType}
    (h : Table.Holds t (K.own seid) (K.entriesOf old))
    (hwrites : K.family.Writes (K.rules old) (K.rules new) (K.rules written))
    (hsends : batch.Sends method written) (hmethod : method ≠ .del)
    (htook : batch.TookEffect conf) (howned : written.OwnedBy seid) :
    Table.Holds (t.applyAll (batch.ops conf)) (K.own seid) (K.entriesOf new) := by
  have hmem : ∀ {k e}, (k, e) ∈ K.entriesOf written → (k, e) ∈ K.entriesOf new :=
    fun he => (Family.mem_write_iff hwrites _ _).mpr (.inl he)
  have hops : ∀ op : Table.Op RuleKey RuleEntry, K.isKey op.key →
      (op ∈ batch.ops conf ↔ op ∈ Table.puts (K.entriesOf written)) := by
    intro op hk
    rw [← hsends.rules]
    exact mem_ops_iff_puts htook (by rw [hsends.method]; exact hmethod) op hk
  refine h.put (fun k v hown => hown.1) hops ?_ ?_ (Family.mem_write_iff hwrites)
  · intro k v v' hv hv'
    exact hwrites.apart.unique (hmem hv) (hmem hv')
  · intro k v hv
    exact own_of_mem_entriesOf howned hv

theorem holds_delete {t : Tables} {seid : UInt64} {old removed rest : PacketForwardingRules}
    {batch : BatchRecord} (h : Table.Holds t (K.own seid) (K.entriesOf old))
    (hapart : K.family.Apart (K.rules old))
    (hperm : (K.rules old).Perm (K.rules removed ++ K.rules rest))
    (hsends : batch.Sends .del removed) (htook : batch.TookEffect conf) :
    Table.Holds (t.applyAll (batch.ops conf)) (K.own seid) (K.entriesOf rest) := by
  have hops : ∀ op : Table.Op RuleKey RuleEntry, K.isKey op.key →
      (op ∈ batch.ops conf ↔ op ∈ Table.dels ((K.entriesOf removed).map Prod.fst)) := by
    intro op hk
    rw [← hsends.rules]
    exact mem_ops_iff_dels htook hsends.method op hk
  exact h.del (fun k v hown => hown.1) hops (Family.mem_remaining_iff hapart hperm)

variable {agent : AgentConf} {accepted : Bool} {w w' : World BessState}

theorem Conforms.of_own {batches : List BatchRecord}
    (h : K.Conforms w) (seid : UInt64) (hadv : w.Advanced conf w' batches)
    (howned : ∀ batch ∈ batches, batch.rules.OwnedBy seid)
    (hcross : ∀ batch ∈ w.sent w', ∀ r ∈ K.rules batch.rules, ∀ seid, seid ≠ K.fseID r →
      ∀ r' ∈ K.rules (storedRules w.conn.store seid), K.family.Disjoint r r')
    (hother : ∀ seid', seid' ≠ seid →
      storedRules w'.conn.store seid' = storedRules w.conn.store seid')
    (hown : seid ≠ 0 →
      Table.Holds w'.tables (K.own seid) (K.entriesOf (storedRules w'.conn.store seid)))
    (hapart : K.family.Apart (K.rules (storedRules w'.conn.store seid))) : K.Conforms w' := by
  constructor
  · intro seid' hzero
    by_cases hseid : seid' = seid
    · subst hseid
      exact hown hzero
    · rw [hother seid' hseid]
      refine frame (h.tables seid' hzero) hadv howned hseid ?_
      intro batch hbatch r hr r' hr'
      refine hcross batch (by rwa [hadv.sent]) r hr seid' ?_ r' hr'
      rwa [K.owned (howned batch hbatch) r hr]
  · intro seid'
    by_cases hseid : seid' = seid
    · subst hseid
      exact hapart
    · rw [hother seid' hseid]
      exact h.apart seid'

theorem Conforms.established {sereq : SessionEstablishmentRequest} (h : K.Conforms w)
    (hserved : Established agent conf sereq w w' accepted) (hclean : CleanBetween conf w w')
    (hob : K.Obligations agent (.establishment sereq) w w' accepted) : K.Conforms w' := by
  cases hserved with
  | unwritten hstore hadv =>
    have htables : w'.tables = w.tables := by simpa using hadv.tables
    constructor
    · rw [htables, hstore]
      exact h.tables
    · rw [hstore]
      exact h.apart
  | takenOut new m added removed hrules hnew hown hnames hadded hremoved hstore hadv =>
    have hcleanAdded := hclean added (by simp [hadv.sent])
    have hcleanRemoved := hclean removed (by simp [hadv.sent])
    have howned := Parsed.installed_ownedBy hrules hown
    have hapart := hob.installs sereq m new rfl hrules hown hnames
      ⟨added, by simp [hadv.sent], hadded.rules⟩
    have hsame : w'.conn.store = w.conn.store := by
      refine hstore.resolve_right ?_
      rw [hcleanRemoved.result]
      simp
    have hempty := storedRules_of_none hnew
    refine h.of_own new.localSEID hadv ?_ hob.cross (by simp [hsame]) ?_ ?_
    · intro batch hbatch
      rcases mem_pair.mp hbatch with rfl | rfl
      · rwa [hadded.rules]
      · rwa [hremoved.rules]
    · intro hzero
      have hbefore := h.tables new.localSEID hzero
      rw [hsame, hadv.tables]
      rw [hempty] at hbefore ⊢
      simp only [flatMap_cons, flatMap_nil, append_nil, Table.applyAll_append]
      refine holds_delete (holds_write hbefore ?_ hadded (by decide) hcleanAdded.tookEffect
        howned) hapart ?_ hremoved hcleanRemoved.tookEffect
      · rw [K.empty]
        exact hapart.writes
      · rw [K.empty, append_nil]
    · rw [hsame]
      exact h.apart _
  | stored new m added hrules hnew hown hnames hadded haccepted hstore hadv =>
    have hcleanAdded := hclean added (by simp [hadv.sent])
    have howned := Parsed.installed_ownedBy hrules hown
    have hapart := hob.installs sereq m new rfl hrules hown hnames
      ⟨added, by simp [hadv.sent], hadded.rules⟩
    have hseid : (m.installed new).localSEID = new.localSEID := by
      rw [Parsed.installed_eq hrules]
    refine h.of_own new.localSEID hadv ?_ hob.cross ?_ ?_ ?_
    · intro batch hbatch
      rw [mem_singleton.mp hbatch, hadded.rules]
      exact howned
    · intro seid' hne
      rw [hstore]
      exact storedRules_put_of_ne (by rwa [hseid])
    · intro hzero
      have hbefore := h.tables new.localSEID hzero
      rw [storedRules_of_none hnew] at hbefore
      have hafter : storedRules w'.conn.store new.localSEID = (m.installed new).rules := by
        rw [hstore, ← hseid]
        exact storedRules_of_some (lookup_put_self w.conn (hseid ▸ hzero))
      rw [hafter, hadv.tables]
      simp only [flatMap_cons, flatMap_nil, append_nil]
      refine holds_write hbefore ?_ hadded (by decide) hcleanAdded.tookEffect howned
      rw [K.empty]
      exact hapart.writes
    · by_cases hzero : (m.installed new).localSEID = 0
      · rw [hstore, put_of_zero hzero]
        exact h.apart _
      · rw [hstore, ← hseid, storedRules_of_some (lookup_put_self w.conn hzero)]
        exact hapart

theorem Conforms.modified {smreq : SessionModificationRequest} (h : K.Conforms w)
    (hok : StoreOk w.conn.store)
    (hserved : Modified agent conf smreq w w' accepted) (hclean : CleanBetween conf w w')
    (hob : K.Obligations agent (.modification smreq) w w' accepted) : K.Conforms w' := by
  cases hserved with
  | unwritten hconn hadv =>
    have htables : w'.tables = w.tables := by simpa using hadv.tables
    constructor
    · rw [htables, hconn]
      exact h.tables
    · rw [hconn]
      exact h.apart
  | rolledBack s stored m done removed restored hstored hs hown hdone hremoved hrestored hconn
      hadv =>
      have hsrules : s.rules = storedRules w.conn.store smreq.seid :=
        hs.trans (storedRules_of_some hstored).symm
      have hsowned : s.rules.OwnedBy smreq.seid := hsrules ▸ hok.owned smreq.seid
      have hsession := Parsed.session_ownedBy hsowned hown
      have hupdated := hsession.sub m.write_updated_sub
      refine h.of_own smreq.seid hadv ?_ hob.cross (by simp [hconn]) ?_ ?_
      · intro batch hbatch
        rcases mem_append.mp hbatch with hbatch | hbatch
        · rcases hdone batch hbatch with hsends | ⟨deleted, session, hremoves, hsends⟩
          · rwa [hsends.rules]
          · rw [hsends.rules]
            exact hsession.sub hremoves.sub.1
        · rcases mem_pair.mp hbatch with rfl | rfl
          · rw [hremoved.rules]
            exact hupdated.sub (rollBackRemove_sub _ _)
          · rwa [hrestored.rules]
      · intro hzero
        have hbefore := h.tables smreq.seid hzero
        have htookRemoved := (hclean removed (by simp [hadv.sent])).tookEffect
        have htookRestored := (hclean restored (by simp [hadv.sent])).tookEffect
        rw [hconn, hadv.tables, ← hsrules, flatMap_append, Table.applyAll_append]
        rw [← hsrules] at hbefore
        simp only [flatMap_cons, flatMap_nil, append_nil, Table.applyAll_append]
        refine hbefore.rollback (fun k v hown => hown.1) ?_ ?_ ?_
        · intro op hop hk hres
          refine (rolledBack_covered hsowned.fars hsowned.qers hown hdone hremoved htookRemoved
            hop hres).imp_left ?_
          rintro ⟨e, he⟩
          exact ⟨e, (K.mem_entries hk).mp he⟩
        · intro op hop
          rcases Table.mem_dels.mp (BatchRecord.mem_dels_of_mem_ops hremoved.method hop) with
            ⟨k, -, rfl⟩
          rfl
        · intro op hk
          rw [← hrestored.rules]
          exact mem_ops_iff_puts htookRestored (by simp [hrestored.method]) op hk
      · rw [hconn]
        exact h.apart _
  | published s stored session m deleted written gone hstored hs hseid hown hnames hwrite
      hremoves hwritten haccepted hgone hconn hadv =>
      have hsrules : s.rules = storedRules w.conn.store smreq.seid :=
        hs.trans (storedRules_of_some hstored).symm
      have hsession := Parsed.session_ownedBy (hsrules ▸ hok.owned smreq.seid) hown
      have hupdated := hsession.sub m.write_updated_sub
      have hwrites := hob.writes smreq m s rfl hsrules hown hnames hwrite rfl
        ⟨written, by simp [hadv.sent], hwritten.rules⟩
      have hlocal : session.localSEID = smreq.seid :=
        hremoves.localSEID.trans (hseid.trans (hok.seid hstored).1)
      have hafter : storedRules w'.conn.store smreq.seid = session.rules := by
        rw [hconn, ← hlocal]
        exact storedRules_of_some (lookup_put_self w.conn (hlocal ▸ (hok.seid hstored).2))
      refine h.of_own smreq.seid hadv ?_ hob.cross ?_ ?_ ?_
      · intro batch hbatch
        rcases mem_pair.mp hbatch with rfl | rfl
        · rwa [hwritten.rules]
        · rw [hgone.rules]
          exact hsession.sub hremoves.sub.1
      · intro seid' hne
        rw [hconn]
        exact storedRules_put_of_ne (by rwa [hlocal])
      · intro hzero
        have hbefore := h.tables smreq.seid hzero
        rw [← hsrules] at hbefore
        rw [hafter, hadv.tables]
        simp only [flatMap_cons, flatMap_nil, append_nil, Table.applyAll_append]
        exact holds_delete (holds_write hbefore hwrites hwritten (by decide)
          (hclean written (by simp [hadv.sent])).tookEffect hupdated) hwrites.apart
          (K.removes hremoves) hgone (hclean gone (by simp [hadv.sent])).tookEffect
      · rw [hafter]
        exact hwrites.apart.of_perm (K.removes hremoves)

theorem Conforms.deleted {sdreq : SessionDeletionRequest} (h : K.Conforms w)
    (hok : StoreOk w.conn.store)
    (hserved : Deleted conf sdreq w w' accepted) (hclean : CleanBetween conf w w')
    (hob : K.Obligations agent (.deletion sdreq) w w' accepted) : K.Conforms w' := by
  cases hserved with
  | unwritten hconn hadv =>
    have htables : w'.tables = w.tables := by simpa using hadv.tables
    constructor
    · rw [htables, hconn]
      exact h.tables
    · rw [hconn]
      exact h.apart
  | kept stored gone hstored hgone hrefused hconn hadv =>
    -- A clean batch finished, and stored PDRs translate.
    exfalso
    have hcleanGone := hclean gone (by simp [hadv.sent])
    have htrans := hok.translates sdreq.seid
    rw [storedRules_of_some hstored, ← hgone.rules] at htrans
    rcases hrefused with hrejected | hunfinished
    · exact hcleanGone.accepted_iff.mpr htrans hrejected
    · rw [hcleanGone.result] at hunfinished
      cases hunfinished
  | forgotten stored gone hstored hgone hstore hadv =>
    have hrules := storedRules_of_some hstored
    have hlocal := (hok.seid hstored).1
    have hafter : storedRules w'.conn.store sdreq.seid = {} :=
      (Deleted.storedRules_eq hok (.forgotten stored gone hstored hgone hstore hadv)).2
    refine h.of_own sdreq.seid hadv ?_ hob.cross ?_ ?_ ?_
    · intro batch hbatch
      rw [mem_singleton.mp hbatch, hgone.rules, ← hrules]
      exact hok.owned sdreq.seid
    · intro seid' hne
      rw [hstore, hlocal]
      exact storedRules_erase_of_ne hne
    · intro hzero
      have hbefore := h.tables sdreq.seid hzero
      have hapart := h.apart sdreq.seid
      rw [hrules] at hbefore hapart
      rw [hafter, hadv.tables]
      simp only [flatMap_cons, flatMap_nil, append_nil]
      refine holds_delete hbefore hapart ?_ hgone (hclean gone (by simp [hadv.sent])).tookEffect
      rw [K.empty, append_nil]
    · rw [hafter, K.empty]
      exact Family.Apart.nil

theorem Conforms.step {req : Request} (h : K.Conforms w) (hok : StoreOk w.conn.store)
    (hserved : Served agent conf w w' accepted req) (hclean : CleanBetween conf w w')
    (hob : K.Obligations agent req w w' accepted) : K.Conforms w' := by
  cases req with
  | establishment => exact h.established hserved hclean hob
  | modification => exact h.modified hok hserved hclean hob
  | deletion => exact h.deleted hok hserved hclean hob

theorem Conforms.of_fresh (h : Fresh w) : K.Conforms w := by
  have hempty : ∀ seid, K.rules (storedRules w.conn.store seid) = [] := by
    intro seid
    rw [h.store, storedRules_of_none (lookup_empty seid), K.empty]
  constructor
  · intro seid _ k e
    rw [h.tables, entriesOf, hempty]
    simp [Family.all]
  · intro seid
    rw [hempty]
    exact Family.Apart.nil

theorem Conforms.run {oracle : Nat → BatchOutcome}
    {ok : Request → World BessState → World BessState → Prop} {w₀ : World BessState}
    (hfresh : Fresh w₀) (hrun : RunsWhen agent conf oracle ok w₀ w)
    (hclean : ∀ req w w', ok req w w' → CleanBetween conf w w')
    (hob : ∀ req w w', StoreOk w.conn.store → K.Conforms w → ok req w w' →
      K.Obligations agent req w w' (serve agent (bess conf oracle) req w).1) :
    StoreOk w.conn.store ∧ K.Conforms w := by
  induction hrun with
  | refl => exact ⟨hfresh.store ▸ StoreOk.empty, Conforms.of_fresh hfresh⟩
  | @tail w w' _ hstep ih =>
    rcases hstep with ⟨req, rfl, hstepOk⟩
    have hserved := serve_served agent conf oracle req w
    have hstepClean := hclean req w _ hstepOk
    exact ⟨ih.1.step hserved hstepClean,
      ih.2.step ih.1 hserved hstepClean (hob req w _ ih.1 ih.2 hstepOk)⟩

end RuleKind

end Upf
