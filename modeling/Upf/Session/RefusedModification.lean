import Upf.Pfcp.AddressDemand
import Upf.Session.AllOrNothing

/-!
# What a refused modification leaves behind

A refused modification publishes nothing and rolls the datapath back.  Two
effects of handling it are not taken back: an address the pool gave out while a
PDR was read stays leased, and End Markers armed by the write are sent even when
a removal or the deletion is refused afterwards.

Main result: `refused_modification_keeps_iff`.
-/

namespace Upf

open Lib List

/-! ## Which PDRs are reached -/

section Demand

variable (conf : AgentConf)

/-- A PDR reads, if it does not ask for an address. -/
def PdrIE.reads (seid : UInt64) (ie : PdrIE) : Bool :=
  (parsePDR ie seid conf.appPFDs none).1.isOk

def asksAny (seid : UInt64) : List PdrIE → Bool
  | [] => false
  | ie :: rest => ie.asks || (ie.reads conf seid && asksAny seid rest)

namespace SessionModificationRequest

variable (smreq : SessionModificationRequest)

def createsRead : Bool :=
  smreq.createPDR.all (PdrIE.reads conf smreq.seid) &&
    (smreq.createFAR.all (fun ie => (parseFAR ie smreq.seid conf.addresses .create).isOk) &&
    smreq.createQER.all (fun ie => (parseQER ie smreq.seid).isOk))

def asksAddress : Bool :=
  asksAny conf smreq.seid smreq.createPDR ||
    (smreq.createsRead conf && asksAny conf smreq.seid smreq.updatePDR)

end SessionModificationRequest

variable {conf} {seid : UInt64} {fseidIP : UInt32}

theorem readPDR_isOk {ie : PdrIE} (h : ie.asks = false) (res : Resources) :
    (readPDR conf seid fseidIP ie res).1.isOk = ie.reads conf seid := by
  have hparse := parsePDR_of_not_asks ie seid conf.appPFDs res.1 h
  unfold readPDR PdrIE.reads
  rw [← hparse]
  rcases parsePDR ie seid conf.appPFDs res.1 with ⟨f | p, ippool⟩ <;> rfl

theorem readPDR_pool (ie : PdrIE) (res : Resources) :
    (readPDR conf seid fseidIP ie res).2.1 = IPPool.draw seid ie.asks res.1 := by
  have hdraws := parsePDR_draws ie seid conf.appPFDs res.1
  unfold readPDR
  rcases hparse : parsePDR ie seid conf.appPFDs res.1 with ⟨f | p, ippool⟩ <;>
    rwa [hparse] at hdraws

theorem readPDRs_pool {use : Draft → Pdr → Draft} (ies : List PdrIE) (d : Draft)
    (res : Resources) :
    (readEach (readPDR conf seid fseidIP) use ies d res).2.1 =
      IPPool.draw seid (asksAny conf seid ies) res.1 := by
  induction ies generalizing d res with
  | nil => rfl
  | cons ie rest ih =>
    have hpool : (readPDR conf seid fseidIP ie res).2.1 = IPPool.draw seid ie.asks res.1 :=
      readPDR_pool ie res
    unfold readEach asksAny
    rcases hread : readPDR conf seid fseidIP ie res with ⟨f | p, res'⟩
    · rw [hread] at hpool
      cases hasks : ie.asks with
      | true => simpa [andThen, hasks] using hpool
      | false =>
        have hok : (readPDR conf seid fseidIP ie res).1.isOk = ie.reads conf seid :=
          readPDR_isOk hasks res
        rw [hread] at hok
        simpa [andThen, hasks, ← hok, Except.isOk, Except.toBool] using hpool
    · rw [hread] at hpool
      simp only [andThen, ih]
      dsimp only at hpool
      rw [hpool, IPPool.draw_draw]
      cases hasks : ie.asks with
      | true => rfl
      | false =>
        have hok : (readPDR conf seid fseidIP ie res).1.isOk = ie.reads conf seid :=
          readPDR_isOk hasks res
        rw [← hok, hread]
        rfl

theorem readPDRs_isOk {use : Draft → Pdr → Draft} {ies : List PdrIE}
    (h : asksAny conf seid ies = false) (d : Draft) (res : Resources) :
    (readEach (readPDR conf seid fseidIP) use ies d res).1.isOk =
      ies.all (PdrIE.reads conf seid) := by
  induction ies generalizing d res with
  | nil => rfl
  | cons ie rest ih =>
    simp only [asksAny, Bool.or_eq_false_iff, Bool.and_eq_false_iff] at h
    rcases h with ⟨hasks, hrest⟩
    have hok : (readPDR conf seid fseidIP ie res).1.isOk = ie.reads conf seid :=
      readPDR_isOk hasks res
    unfold readEach
    rcases hread : readPDR conf seid fseidIP ie res with ⟨f | p, res'⟩
    · rw [hread] at hok
      simp [andThen, ← hok, Except.isOk, Except.toBool]
    · rw [hread] at hok
      have hreads : ie.reads conf seid = true := hok.symm
      have hrest := hrest.resolve_left (by simp [hreads])
      rw [all_cons, hreads, Bool.true_and, ← ih hrest (use d p) res']
      rfl

theorem readFARs_isOk {op : Operation} {use : Draft → Far → Draft} (ies : List FarIE)
    (d : Draft) (res : Resources) :
    (readEach (readFAR conf seid fseidIP op) use ies d res).1.isOk =
      ies.all fun ie => (parseFAR ie seid conf.addresses op).isOk := by
  apply readEach_isOk
  intro ie res
  unfold readFAR
  cases parseFAR ie seid conf.addresses op <;> rfl

theorem readQERs_isOk {use : Draft → Qer → Draft} (ies : List QerIE) (d : Draft)
    (res : Resources) :
    (readEach (readQER seid fseidIP) use ies d res).1.isOk =
      ies.all fun ie => (parseQER ie seid).isOk := by
  apply readEach_isOk
  intro ie res
  unfold readQER
  cases parseQER ie seid <;> rfl

theorem andThen_readPDRs_pool {usePDR : Draft → Pdr → Draft} {useFAR : Draft → Far → Draft}
    {useQER : Draft → Qer → Draft} {op : Operation} (pdrs : List PdrIE) (fars : List FarIE)
    (qers : List QerIE) (d : Draft) (res : Resources) :
    (andThen (readEach (readPDR conf seid fseidIP) usePDR pdrs d res) fun d res =>
      andThen (readEach (readFAR conf seid fseidIP op) useFAR fars d res) fun d res =>
      readEach (readQER seid fseidIP) useQER qers d res).2.1 =
      IPPool.draw seid (asksAny conf seid pdrs) res.1 := by
  rw [andThen_snd (readFARsQERs_resources fars qers), readPDRs_pool]

variable (conf fseidIP) in
theorem readCreates_isOk {smreq : SessionModificationRequest}
    (h : asksAny conf smreq.seid smreq.createPDR = false) (d : Draft) (res : Resources) :
    (readCreates conf smreq.seid fseidIP smreq d res).1.isOk = smreq.createsRead conf := by
  have hrest : ∀ d res, (andThen (readEach (readFAR conf smreq.seid fseidIP .create)
      Draft.createFAR smreq.createFAR d res) fun d res =>
        readEach (readQER smreq.seid fseidIP) Draft.createQER smreq.createQER d res).1.isOk =
      (smreq.createFAR.all (fun ie => (parseFAR ie smreq.seid conf.addresses .create).isOk) &&
        smreq.createQER.all fun ie => (parseQER ie smreq.seid).isOk) := by
    intro d res
    rw [andThen_isOk (readQERs_isOk _), readFARs_isOk]
  rw [readCreates, andThen_isOk hrest, readPDRs_isOk h]
  rfl

variable (conf fseidIP) in
theorem readModification_pool (smreq : SessionModificationRequest) (d : Draft)
    (res : Resources) :
    (readModification conf smreq.seid fseidIP smreq d res).2.1 =
      IPPool.draw smreq.seid (smreq.asksAddress conf) res.1 := by
  have hcreates : (readCreates conf smreq.seid fseidIP smreq d res).2.1 =
      IPPool.draw smreq.seid (asksAny conf smreq.seid smreq.createPDR) res.1 :=
    andThen_readPDRs_pool _ _ _ d res
  have hok : asksAny conf smreq.seid smreq.createPDR = false →
      (readCreates conf smreq.seid fseidIP smreq d res).1.isOk = smreq.createsRead conf :=
    fun h => readCreates_isOk conf fseidIP h d res
  unfold readModification SessionModificationRequest.asksAddress
  rcases hread : readCreates conf smreq.seid fseidIP smreq d res with ⟨e | d₁, res₁⟩
  · rw [hread] at hcreates hok
    dsimp only [andThen] at hcreates ⊢
    rw [hcreates]
    cases hasks : asksAny conf smreq.seid smreq.createPDR with
    | true => rfl
    | false =>
      rw [← hok hasks]
      rfl
  · rw [hread] at hcreates hok
    have hupdates : (readUpdates conf smreq.seid fseidIP smreq d₁ res₁).2.1 =
        IPPool.draw smreq.seid (asksAny conf smreq.seid smreq.updatePDR) res₁.1 :=
      andThen_readPDRs_pool _ _ _ d₁ res₁
    have hboth : (readUpdates conf smreq.seid fseidIP smreq d₁ res₁).2.1 =
        IPPool.draw smreq.seid (asksAny conf smreq.seid smreq.createPDR ||
          asksAny conf smreq.seid smreq.updatePDR) res.1 := by
      rw [hupdates, hcreates, IPPool.draw_draw]
    have hasks : (asksAny conf smreq.seid smreq.createPDR ||
        (smreq.createsRead conf && asksAny conf smreq.seid smreq.updatePDR)) =
        (asksAny conf smreq.seid smreq.createPDR ||
          asksAny conf smreq.seid smreq.updatePDR) := by
      cases hcreate : asksAny conf smreq.seid smreq.createPDR with
      | true => rfl
      | false =>
        rw [← hok hcreate]
        rfl
    rw [hasks, ← hboth, andThen]
    rcases readUpdates conf smreq.seid fseidIP smreq d₁ res₁ with ⟨e | d₂, res₂⟩ <;> rfl

end Demand

/-! ## What is kept and what is not -/

def IPPool.canTake (ippool : Option IPPool) (seid : UInt64) : Bool :=
  ippool.any fun i => (i.inventory.lookup seid).isNone && !i.freePool.isEmpty

def IPPool.leases (ippool : Option IPPool) : Option Inventory := ippool.map IPPool.inventory

theorem IPPool.leases_draw_iff (seid : UInt64) (asks : Bool) (ippool : Option IPPool) :
    leases (draw seid asks ippool) = leases ippool ↔ ¬ (asks = true ∧ canTake ippool seid) := by
  cases asks with
  | false => simp [draw]
  | true =>
    cases ippool with
    | none => simp [draw, leases, canTake]
    | some i =>
      rcases lookupOrAllocIP_cases i seid with
        ⟨ip, hinv, heq⟩ | ⟨ip, rest, hinv, hfree, heq⟩ | ⟨hinv, hfree, heq⟩
      · simp [draw, leases, canTake, heq, hinv]
      · have hne : i.inventory.insert seid ip ≠ i.inventory := by
          intro hsame
          have hlook := AList.lookup_insert (b := ip) (a := seid) i.inventory
          rw [hsame, hinv] at hlook
          cases hlook
        simp [draw, leases, canTake, heq, hinv, hfree, hne]
      · simp [draw, leases, canTake, heq, hfree]

structure HoldsAsBefore {σ : Type} (w w' : World (Observed σ)) : Prop where
  inventory : IPPool.leases w'.upf.ippool = IPPool.leases w.upf.ippool
  fteids : w'.upf.fteidGenerator.usedMap = w.upf.fteidGenerator.usedMap
  store : w'.conn.store = w.conn.store
  endMarkers : w'.upf.datapath.endMarkers = w.upf.datapath.endMarkers

section Handler

variable {σ : Type} (conf : AgentConf) (dp : Datapath σ) (smreq : SessionModificationRequest)

/-- Handling the message takes an address from the pool: its session is stored,
the association is not shutting down, reading reaches a PDR that asks, and the
pool has an address for a session that has none. -/
def takesAddress {τ : Type} (w : World τ) : Bool :=
  (w.conn.store.lookup smreq.seid).isSome && !w.conn.isShutdown && smreq.asksAddress conf &&
    IPPool.canTake w.upf.ippool smreq.seid

def SessionModificationRequest.asksEndMarker (stored : PFCPSession) : Bool :=
  smreq.updateFAR.any fun ie =>
    match parseFAR ie smreq.seid conf.addresses .update with
    | .ok f => f.sendEndMarker &&
        decide (f.farID ∈ stored.rules.fars.map Far.farID ++ smreq.createFAR.filterMap FarIE.named)
    | .error _ => false

/-- The write of the message arms End Markers: they are enabled, one is asked
for, and the datapath does not refuse the write. -/
def armsEndMarkers (w : World (Observed σ)) : Prop :=
  conf.enableEndMarker = true ∧ w.conn.isShutdown = false ∧
    ∃ stored wr, w.conn.store.lookup smreq.seid = some stored ∧
      smreq.asksEndMarker conf stored = true ∧ modificationWrite conf smreq w = some wr ∧
      (w.send dp.observed .mod wr.session.rules wr.updated).1.1 ≠ .requestRejected

/-! ## The handler -/

theorem writeModification_upf (before : PacketForwardingRules) (wr : Write)
    (markers : List (List UInt8)) (w : World σ) :
    (writeModification conf dp smreq before wr markers w).2.upf.ippool = w.upf.ippool ∧
      (writeModification conf dp smreq before wr markers w).2.upf.fteidGenerator =
        w.upf.fteidGenerator := by
  have hmarkers : ∀ (ms : List (List UInt8)) (w' : World σ),
      (sendEndMarkers dp ms w').upf.ippool = w'.upf.ippool ∧
        (sendEndMarkers dp ms w').upf.fteidGenerator = w'.upf.fteidGenerator := by
    intro ms w'
    unfold sendEndMarkers
    split <;> exact ⟨rfl, rfl⟩
  rcases writeModification_cases conf dp smreq before wr markers w with
    ⟨-, hend⟩ | ⟨-, e, _, -, hend⟩ | ⟨-, deleted, session, -, ⟨-, hend⟩ | ⟨-, hend⟩⟩
  · rw [hend]
    exact ⟨rfl, rfl⟩
  all_goals
    rw [hend]
    exact hmarkers _ _

theorem modification_ippool (w : World σ) :
    (handleSessionModificationRequest conf dp smreq w).2.upf.ippool =
      IPPool.draw smreq.seid ((w.conn.store.lookup smreq.seid).isSome && !w.conn.isShutdown &&
        smreq.asksAddress conf) w.upf.ippool := by
  unfold handleSessionModificationRequest
  cases hstore : w.conn.store.lookup smreq.seid with
  | none =>
    dsimp only
    split <;> rfl
  | some stored =>
    dsimp only [modify]
    cases hshut : w.conn.isShutdown with
    | true => rfl
    | false =>
      have hpool := readModification_pool conf (updateFSEID smreq stored).2 smreq
        { session := (updateFSEID smreq stored).1 } (w.upf.ippool, w.upf.fteidGenerator)
      simp only [Bool.false_eq_true, if_false, Option.isSome_some, Bool.not_false,
        Bool.true_and]
      rcases hread : readModification conf smreq.seid (updateFSEID smreq stored).2 smreq
        { session := (updateFSEID smreq stored).1 } (w.upf.ippool, w.upf.fteidGenerator) with
        ⟨e | ⟨created, d⟩, res⟩
      · rw [hread] at hpool
        exact hpool
      · rw [hread] at hpool
        dsimp only at hpool ⊢
        rw [(writeModification_upf conf dp smreq _ _ _ _).1]
        exact hpool

theorem sendEndMarkers_endMarkers (markers : List (List UInt8)) (w : World (Observed σ)) :
    (sendEndMarkers dp.observed markers w).upf.datapath.endMarkers =
      w.upf.datapath.endMarkers ++ markers := by
  unfold sendEndMarkers
  cases markers with
  | nil => simp
  | cons => rfl

variable {conf smreq} in
theorem markers_eq_nil_iff {m : Parsed} {stored s : PFCPSession} {fseidIP : UInt32}
    {markers : List (List UInt8)} (hs : s.rules = stored.rules)
    (hnames : m.Names smreq.createPDR smreq.createFAR smreq.createQER)
    (hupdates : m.UpdatesFARs conf smreq.seid fseidIP smreq.updateFAR)
    (hcount : markers.length = (m.heldFARs s).2.countP Far.sendEndMarker) :
    markers = [] ↔ smreq.asksEndMarker conf stored = false := by
  have hheld : (m.heldFARs s).2 = m.updateFARs.filter fun f =>
      decide (f.farID ∈ (s.rules.fars ++ m.createFARs).map Far.farID) :=
    KeyedList.Revised.foldl_step_found Far.farID m.updateFARs _
  have hids : (s.rules.fars ++ m.createFARs).map Far.farID =
      stored.rules.fars.map Far.farID ++ smreq.createFAR.filterMap FarIE.named := by
    rw [map_append, hs, filterMap_name_eq hnames.fars]
  have hasks : smreq.asksEndMarker conf stored = m.updateFARs.any fun f =>
      f.sendEndMarker && decide (f.farID ∈ (s.rules.fars ++ m.createFARs).map Far.farID) := by
    refine any_eq_of_forall₂ ?_ hupdates
    rintro ie f ⟨res, res', hread⟩
    unfold readFAR at hread
    cases hparse : parseFAR ie smreq.seid conf.addresses .update with
    | error => simp [hparse] at hread
    | ok =>
      simp only [hparse, Prod.mk.injEq, Except.ok.injEq] at hread
      rw [hids, ← hread.1]
  rw [← length_eq_zero_iff, hcount, hheld, hasks, countP_eq_zero, List.any_eq_false]
  simp only [mem_filter, decide_eq_true_eq, Bool.and_eq_true, not_and]
  constructor
  · intro h f hf hsend hmem
    exact h f ⟨hf, hmem⟩ hsend
  · rintro h f ⟨hf, hmem⟩ hsend
    exact h f hf hsend hmem

variable {conf smreq dp} in
theorem refused_modification_cases {w : World (Observed σ)}
    (hrefused : (handleSessionModificationRequest conf dp.observed smreq w).1.acceptsModification =
      false) :
    let ended := handleSessionModificationRequest conf dp.observed smreq w
    ended.2.conn = w.conn ∧ ended.2.upf.fteidGenerator = w.upf.fteidGenerator ∧
      (ended.2.upf.datapath.endMarkers = w.upf.datapath.endMarkers ↔
        ¬ armsEndMarkers conf dp smreq w) := by
  dsimp only
  rcases modification_cases conf dp.observed smreq w with
    ⟨reply, ippool, hcase, -, -, hunwritten⟩ |
    ⟨stored, m, markers, ippool, hstored, hshut, -, hnames, hupdates, -, hcount, hwrite, hcase⟩
  · rw [hcase]
    refine ⟨rfl, rfl, iff_of_true rfl ?_⟩
    rintro ⟨-, hshut, stored, wr, -, -, hwr, -⟩
    rcases hunwritten with hdown | hnone
    · rw [hshut] at hdown
      cases hdown
    · rw [hnone] at hwr
      cases hwr
  · set s := (updateFSEID smreq stored).1
    have hnil := markers_eq_nil_iff (updateFSEID_rules smreq stored) hnames hupdates hcount
    -- Whether End Markers are armed, once it is known what is written.
    have harms : armsEndMarkers conf dp smreq w ↔
        conf.enableEndMarker = true ∧ markers ≠ [] ∧
          (w.send dp.observed .mod (m.write s).session.rules (m.write s).updated).1.1 ≠
            .requestRejected := by
      constructor
      · rintro ⟨hon, -, stored', wr, hstored', hasks, hwr, hsent⟩
        rw [hstored, Option.some.injEq] at hstored'
        rw [hwrite, Option.some.injEq] at hwr
        subst hstored' hwr
        refine ⟨hon, ?_, hsent⟩
        rw [ne_eq, hnil, hasks]
        simp
      · rintro ⟨hon, hmarkers, hsent⟩
        rw [ne_eq, hnil, Bool.not_eq_false] at hmarkers
        exact ⟨hon, hshut, stored, _, hstored, hmarkers, hwrite, hsent⟩
    have hupf := writeModification_upf conf dp.observed smreq stored.rules (m.write s) markers
      (w.withPool ippool)
    rw [hcase] at hrefused
    rw [harms, hcase]
    -- A refusal after the write sends what was armed.
    have hsends : ∀ w' : World (Observed σ), w'.upf.datapath.endMarkers =
        w.upf.datapath.endMarkers →
        (w.send dp.observed .mod (m.write s).session.rules (m.write s).updated).1.1 ≠
          .requestRejected →
        ((sendEndMarkers dp.observed (if conf.enableEndMarker then markers else [])
          w').upf.datapath.endMarkers = w.upf.datapath.endMarkers ↔
        ¬ (conf.enableEndMarker = true ∧ markers ≠ [] ∧
          (w.send dp.observed .mod (m.write s).session.rules (m.write s).updated).1.1 ≠
            .requestRejected)) := by
      intro w' hw' hsent
      rw [sendEndMarkers_endMarkers, hw', append_right_eq_self]
      cases conf.enableEndMarker <;> simp [hsent]
    rcases writeModification_cases conf dp.observed smreq stored.rules (m.write s) markers
      (w.withPool ippool) with
      ⟨hsent, hend⟩ | ⟨hsent, e, _, -, hend⟩ | ⟨hsent, deleted, session, -, ⟨-, hend⟩ | ⟨-, hend⟩⟩
    · refine ⟨by rw [hend]; rfl, hupf.2, ?_⟩
      rw [hend]
      exact iff_of_true rfl fun h => h.2.2 hsent
    · refine ⟨by rw [hend, sendEndMarkers_conn]; rfl, hupf.2, ?_⟩
      rw [hend]
      exact hsends _ rfl hsent
    · refine ⟨by rw [hend, sendEndMarkers_conn]; rfl, hupf.2, ?_⟩
      rw [hend]
      exact hsends _ rfl hsent
    · rw [hend] at hrefused
      exact absurd hrefused (by simp [Reply.acceptsModification])

/-- A refused modification leaves inventory, F-TEIDs and store as they were and
sends no End Marker exactly when it takes no address and its write arms no End
Marker. -/
theorem refused_modification_keeps_iff (w : World (Observed σ))
    (hrefused : (handleSessionModificationRequest conf dp.observed smreq w).1.acceptsModification =
      false) :
    HoldsAsBefore w (handleSessionModificationRequest conf dp.observed smreq w).2 ↔
      takesAddress conf smreq w = false ∧ ¬ armsEndMarkers conf dp smreq w := by
  rcases refused_modification_cases hrefused with ⟨hconn, hfteids, hmarkers⟩
  have hpool : IPPool.leases (handleSessionModificationRequest conf dp.observed smreq
      w).2.upf.ippool = IPPool.leases w.upf.ippool ↔ takesAddress conf smreq w = false := by
    rw [modification_ippool, IPPool.leases_draw_iff, takesAddress, ← Bool.and_eq_true,
      Bool.not_eq_true]
  constructor
  · intro h
    exact ⟨hpool.mp h.inventory, hmarkers.mp h.endMarkers⟩
  · rintro ⟨htakes, harms⟩
    exact ⟨hpool.mpr htakes, by rw [hfteids], by rw [hconn], hmarkers.mpr harms⟩

end Handler

/-! ## Evaluation -/

/-- A stored session with one forwarding FAR, on a pool with one free address,
over a datapath that accepts everything. -/
def World.withFar : World (Observed (List (Cause × Bool))) :=
  { World.observing ⟨[[10, 60, 0, 1]], ∅⟩ [] with
    conn :=
      { store := AList.singleton 1
          { localSEID := 1, remoteSEID := 7, rules := { fars := [{ farID := 1, fseID := 1 }] } }
        isShutdown := false
        sessions := 1
        rngPos := 1 } }

/-- Removing a PDR that is not there is refused and leaves nothing behind. -/
theorem refused_modification_keeps_unknown_remove :
    let smreq : SessionModificationRequest := { seid := 1, removePDR := [.ok 9] }
    let ended := handleSessionModificationRequest .sample scripted.observed smreq .withFar
    ended.1.acceptsModification = false ∧ HoldsAsBefore World.withFar ended.2 := by
  refine ⟨by decide, (refused_modification_keeps_iff _ _ _ _ (by decide)).mpr ⟨by decide, ?_⟩⟩
  rintro ⟨-, -, stored, wr, -, hasks, -⟩
  exact absurd hasks (by simp [SessionModificationRequest.asksEndMarker])

def FarIE.switched (farID : UInt32) : FarIE :=
  { FarIE.sample farID 2 with updateForwardingParameters := .ok [.pfcpSMReqFlags (.ok 0x02)] }

/-- A modification refused while its FAR is read keeps the address its PDR was
given; one refused at its removal sends the End Marker of its update. -/
theorem refused_modification_leaks :
    (let smreq : SessionModificationRequest :=
        { seid := 1, createPDR := [.downlink 2 .choose], createFAR := [.sample 2 0] }
      let ended := handleSessionModificationRequest .sample scripted.observed smreq .withFar
      ended.1.acceptsModification = false ∧
        IPPool.leased World.withFar.upf.ippool 1 = none ∧
        IPPool.leased ended.2.upf.ippool 1 = some [10, 60, 0, 1]) ∧
    (let smreq : SessionModificationRequest :=
        { seid := 1, updateFAR := [.switched 1], removePDR := [.ok 9] }
      let ended := handleSessionModificationRequest .sample scripted.observed smreq .withFar
      ended.1.acceptsModification = false ∧
        World.withFar.upf.datapath.endMarkers = [] ∧
        ended.2.upf.datapath.endMarkers.length = 1) := by
  decide

end Upf
