import Upf.Session.FteidRuns

/-!
# PDRs that leave their F-TEID to this node

A Create PDR or Update PDR with the CHOOSE flag asks this node for a TEID of its
own.  The parser only marks the PDR; an establishment then fills the tunnel in, a
modification does not, and the PDR it programs matches every tunnel.  What an
establishment fills in is new to the generator, but the generator knows nothing
of the TEIDs the control plane chooses itself.

Main result: `chosen_tunnel_iff`.
-/

namespace Upf

open Lib List FTEIDGenerator Bool

/-! ## The generator in every run -/

section Generator

variable {σ : Type} (conf : AgentConf) (dp : Datapath σ)

theorem readCreatePDR_wf {seid : UInt64} {fseidIP : UInt32} (ie : PdrIE) (res : Resources)
    (hwf : res.2.Wf) : (readCreatePDR conf seid fseidIP ie res).2.2.Wf := by
  unfold readCreatePDR
  rcases parsePDR ie seid conf.appPFDs res.1 with ⟨f | p, ippool⟩
  · exact hwf
  · dsimp only
    split
    · rcases halloc : res.2.allocate with ⟨e | fteid, gen⟩
      · rw [(allocate_error hwf halloc).1]
        exact hwf
      · exact (allocate_ok hwf halloc).2.2.1
    · exact hwf

theorem readEstablishment_wf (seid : UInt64) (fseidIP : UInt32)
    (sereq : SessionEstablishmentRequest) (d : Draft) (res : Resources) (hwf : res.2.Wf) :
    (readEstablishment conf seid fseidIP sereq d res).2.2.Wf := by
  rw [readEstablishment_resources]
  exact readEach_resource (fun p q : Resources => p.2.Wf → q.2.Wf) (fun _ hp => hp)
    (fun _ _ _ h h' hp => h' (h hp)) (readCreatePDR_wf conf) _ _ _ hwf

theorem beginEstablishment_wf (sereq : SessionEstablishmentRequest) (w : World σ)
    (hwf : w.upf.fteidGenerator.Wf) :
    (beginEstablishment conf sereq w).2.upf.fteidGenerator.Wf := by
  unfold beginEstablishment
  cases checkEstablishment conf sereq w.conn with
  | error => exact hwf
  | ok fseid =>
    dsimp only
    rcases w.conn.newPFCPSession conf.rng fseid.seid conf.maxRetries with ⟨_ | session, conn⟩
    · exact hwf
    · have hread := readEstablishment_wf conf session.localSEID (ip2int fseid.ipv4Address) sereq
        { session }
        (w.upf.ippool, w.upf.fteidGenerator) hwf
      dsimp only
      cases (readEstablishment conf session.localSEID (ip2int fseid.ipv4Address) sereq
        { session } (w.upf.ippool, w.upf.fteidGenerator)).1 <;> exact hread

theorem writeEstablishment_generator (d : Draft) (w : World σ) :
    (writeEstablishment conf dp d w).2.upf.fteidGenerator = w.upf.fteidGenerator := by
  rcases writeEstablishment_cases conf dp d w with
    ⟨-, -, hend⟩ | ⟨-, -, hend⟩ | ⟨-, _, -, hend⟩ <;>
  · rw [hend]
    rfl

theorem modification_generator (smreq : SessionModificationRequest) (w : World σ) :
    (handleSessionModificationRequest conf dp smreq w).2.upf.fteidGenerator =
      w.upf.fteidGenerator := by
  rcases modification_cases conf dp smreq w with
    ⟨_, _, hcase, -, -, -⟩ | ⟨stored, m, markers, ippool, -, -, -, -, -, -, -, -, hcase⟩
  · rw [hcase]
    rfl
  · rw [hcase]
    rcases writeModification_cases conf dp smreq stored.rules
        (m.write (updateFSEID smreq stored).1) markers (w.withPool ippool) with
      ⟨-, hend⟩ | ⟨-, _, _, -, hend⟩ | ⟨-, _, _, -, ⟨-, hend⟩ | ⟨-, hend⟩⟩
    · rw [hend]
      rfl
    all_goals
      rw [hend, sendEndMarkers_fteidGenerator]
      rfl

theorem Message.handle_wf (msg : Message) (w : World σ) (hwf : w.upf.fteidGenerator.Wf) :
    (msg.handle conf dp w).upf.fteidGenerator.Wf := by
  cases msg with
  | request req =>
    cases req with
    | establishment sereq =>
      have hbegin := beginEstablishment_wf conf sereq w hwf
      simp only [handle, serve, handleSessionEstablishmentRequest_eq]
      rcases hb : beginEstablishment conf sereq w with ⟨reply | d, w₁⟩
      · rwa [hb] at hbegin
      · rw [hb] at hbegin
        rwa [writeEstablishment_generator conf dp d w₁]
    | modification smreq =>
      simp only [handle, serve, modification_generator conf dp smreq w]
      exact hwf
    | deletion sdreq =>
      simp only [handle, serve]
      rcases deletion_cases dp sdreq w with
        ⟨_, hcase, -⟩ | ⟨_, -, -, ⟨-, _, -, hcase⟩ | ⟨-, _, -, hcase⟩⟩ <;>
      · rw [hcase]
        exact hwf
  | report =>
    simp only [handle, handleSessionReportResponse]
    split
    · exact hwf
    · exact hwf
    · split
      · split
        · exact hwf
        · split
          · exact hwf
          · split <;> exact hwf
      · exact hwf

end Generator

namespace Associations

theorem Runs.wf {σ ι : Type} [DecidableEq ι] {conf : ι → AgentConf} {dp : Datapath σ}
    {ok : ι → Message → World σ → Prop} {down : PFCPConn → Prop} {a₀ a : Associations σ ι}
    (hstart : a₀.Start) (hruns : Runs conf dp ok down a₀ a) : a.upf.fteidGenerator.Wf := by
  induction hruns with
  | refl => exact hstart.inv.wf
  | tail _ hstep ih =>
    cases hstep with
    | handle i msg => exact msg.handle_wf (conf i) dp _ ih
    | teardown i hdown hruns =>
      have hgen := hruns.erases.1
      exact hgen ▸ ih

end Associations

/-! ## What is programmed for an IE -/

def Request.Programs (conf : AgentConf) (batch : BatchRecord) (n : Nat) (ie : PdrIE) (p : Pdr)
    (req : Request) : Prop :=
  batch.method ≠ .del ∧ batch.rules.pdrs[n]? = some p ∧
    match req with
    | .establishment sereq => sereq.createPDR[n]? = some ie
    | .modification smreq =>
      ie ∈ smreq.createPDR ++ smreq.updatePDR ∧
        ∃ fseidIP res p₀ res' qerIDList,
          readPDR conf smreq.seid fseidIP ie res = (.ok p₀, res') ∧ p = { p₀ with qerIDList }
    | .deletion _ => False

def RuleKey.MatchesTunnel (conf : AgentConf) (teid : UInt32) : RuleKey → Prop
  | .pdrLookup values masks =>
    masks[2]? = some (intEnc 0xFFFFFFFF) ∧ values[2]? = some (intEnc teid.toUInt64) ∧
      teid ≠ 0 ∧ masks[1]? = some (intEnc 0xFFFFFFFF) ∧
      values[1]? = some (intEnc (ip2int conf.addresses.accessIP).toUInt64)
  | _ => False

def Request.session : Request → Option UInt64
  | .establishment _ => none
  | .modification smreq => some smreq.seid
  | .deletion sdreq => some sdreq.seid

def PdrIE.givenTEID (ie : PdrIE) : UInt32 := (ie.fteids.foldl Tunnel.read {}).tunnelTEID

namespace Associations

variable {ι : Type}

structure HeldAlone (a : Associations BessState ι) (i : ι) (req : Request) (batch : BatchRecord)
    (n : Nat) (teid : UInt32) : Prop where
  stored : ∀ j seid m q, (j = i → req.session ≠ some seid) → a.pdrAt (j, seid, m) = some q →
    q.tunnelTEID ≠ teid
  sent : ∀ m q, m ≠ n → batch.rules.pdrs[m]? = some q → q.tunnelTEID ≠ teid

def FillsTunnel (a : Associations BessState ι) (n : Nat) : Request → Prop
  | .establishment sereq =>
    ∀ teid, (drawEach a.upf.fteidGenerator sereq.createPDR)[n]? = some (some teid) →
      (∀ h q, a.pdrAt h = some q → q.tunnelTEID ≠ teid) ∧
        ∀ ie ∈ sereq.createPDR, ie.choosesFteid = false → ie.givenTEID ≠ teid
  | _ => False

end Associations

def PdrIE.LeavesFteid (ie : PdrIE) : Prop := ∃ fteid, ie.fteids = [fteid] ∧ fteid.hasCh = true

theorem PdrIE.LeavesFteid.choosesFteid {ie : PdrIE} (h : ie.LeavesFteid) :
    ie.choosesFteid = true := by
  rcases h with ⟨fteid, hfteids, hch⟩
  simp [PdrIE.choosesFteid, hfteids, hch]

section Entries

variable {conf : AgentConf} {p : Pdr} {k : RuleKey} {e : RuleEntry} {teid : UInt32}

theorem matchesTunnel_iff (h : (k, e) ∈ pdrEntries p) :
    k.MatchesTunnel conf teid ↔
      p.tunnelTEIDMask = 0xFFFFFFFF ∧ p.tunnelTEID = teid ∧ teid ≠ 0 ∧
        p.tunnelIP4DstMask = 0xFFFFFFFF ∧ p.tunnelIP4Dst = ip2int conf.addresses.accessIP := by
  have hones : ∀ m : UInt32, m.toUInt64 = 0xFFFFFFFF ↔ m = 0xFFFFFFFF :=
    fun m => @UInt32.toUInt64_inj m 0xFFFFFFFF
  rcases mem_pdrEntries.mp h with ⟨-, r, -, rfl⟩
  simp [RuleKey.MatchesTunnel, pdrKey, matchValues, matchMasks, intEnc_inj, hones,
    UInt32.toUInt64_inj]

end Entries

section Requests

variable {conf : AgentConf} {bconf : BessConf} {oracle : Nat → BatchOutcome}
  {w : World BessState} {batch : BatchRecord}

theorem establishment_sent {sereq : SessionEstablishmentRequest}
    (haccepted : (serve conf (bess bconf oracle) (.establishment sereq) w).1 = true)
    (hbatch : batch ∈ w.sent (serve conf (bess bconf oracle) (.establishment sereq) w).2) :
    ∃ d w₁, beginEstablishment conf sereq w = (.ok d, w₁) ∧
      batch.rules.pdrs = d.session.rules.pdrs := by
  simp only [serve, handleSessionEstablishmentRequest_eq] at haccepted hbatch
  rcases begin_cases conf sereq w with
    ⟨_, _, hbegin, hrefused⟩ | ⟨_, _, rngPos, res, -, -, -, -, ⟨_, hbegin, hrefused⟩ |
      ⟨m, -, -, hbegin⟩⟩
  · simp [hbegin, hrefused] at haccepted
  · simp [hbegin, hrefused] at haccepted
  · rw [hbegin] at haccepted hbatch
    refine ⟨_, _, hbegin, ?_⟩
    generalize markEstablishment (m.create _) = d at haccepted hbatch ⊢
    dsimp only at haccepted hbatch
    rcases writeEstablishment_cases conf (bess bconf oracle) d (w.withDraws rngPos res) with
      ⟨-, -, hend⟩ | ⟨-, -, hend⟩ | ⟨-, _, -, hend⟩
    · rw [hend, acceptsEstablishment_errProcessReply _ _ (by decide)] at haccepted
      cases haccepted
    · rw [hend, acceptsEstablishment_errProcessReply _ _ (by decide)] at haccepted
      cases haccepted
    · rw [hend, World.send_bess] at hbatch
      have hlog : World.log { (w.withDraws rngPos res).after bconf
          ((w.withDraws rngPos res).nextBatch oracle .add d.session.rules d.added) with
            conn := (w.withDraws rngPos res).conn.put d.session } =
          w.log ++ [(w.withDraws rngPos res).nextBatch oracle .add d.session.rules d.added] := rfl
      rw [World.sent_of_log hlog, mem_singleton] at hbatch
      rw [hbatch]
      rfl

theorem readPDR_open {seid : UInt64} {fseidIP : UInt32} {ie : PdrIE} {p : Pdr}
    {res res' : Resources} (h : readPDR conf seid fseidIP ie res = (.ok p, res'))
    (hleaves : ie.LeavesFteid) : p.tunnelTEIDMask = 0 := by
  rcases hleaves with ⟨fteid, hfteids, hch⟩
  rcases readPDR_parsed h with ⟨p₀, ippool, hparse, rfl⟩
  have htunnel := congrArg Tunnel.tunnelTEIDMask (parsePDR_tunnel hparse)
  simp only [hfteids, foldl_cons, foldl_nil, Tunnel.read, hch, if_true] at htunnel
  exact htunnel

end Requests

namespace Associations

variable {ι : Type} [DecidableEq ι] {a : Associations BessState ι} {i : ι}
  {sereq : SessionEstablishmentRequest} {batch : BatchRecord} {conf : AgentConf} {d : Draft}
  {w₁ : World BessState} {n : Nat} {ie : PdrIE} {p : Pdr}

omit [DecidableEq ι] in
theorem established_tunnel (hwf : a.upf.fteidGenerator.Wf)
    (hbegin : beginEstablishment conf sereq (a.world i) = (.ok d, w₁))
    (hie : sereq.createPDR[n]? = some ie) (hp : d.session.rules.pdrs[n]? = some p) :
    p.tunnel = ie.tunnelWith conf p.tunnelTEID ∧
      (drawEach a.upf.fteidGenerator sereq.createPDR)[n]? = some p.fteid? := by
  have hread := beginEstablishment_tunnels hwf hbegin
  have htunnel : (d.session.rules.pdrs.map Pdr.tunnel)[n]? = some p.tunnel := by
    simp [hp]
  refine ⟨?_, ?_⟩
  · rcases List.getElem?_eq_some_iff.mp hie with ⟨hlt, rfl⟩
    rcases List.getElem?_eq_some_iff.mp htunnel with ⟨hlt', htunnel⟩
    have hget := hread.tunnels.get hlt hlt'
    simp only [get_eq_getElem, htunnel] at hget
    exact hget
  · rw [show drawEach a.upf.fteidGenerator sereq.createPDR = _ from hread.ids.symm]
    simp [hp, Pdr.fteid?]

omit [DecidableEq ι] in
theorem established_chosen (hwf : a.upf.fteidGenerator.Wf)
    (hbegin : beginEstablishment conf sereq (a.world i) = (.ok d, w₁))
    (hie : sereq.createPDR[n]? = some ie) (hp : d.session.rules.pdrs[n]? = some p)
    (hchoose : ie.choosesFteid = true) :
    p.tunnel = Tunnel.chosen conf p.tunnelTEID ∧ p.fteid? = some p.tunnelTEID ∧
      p.tunnelTEID ≠ 0 := by
  have htunnel := (established_tunnel hwf hbegin hie hp).1
  simp only [PdrIE.tunnelWith, hchoose, if_true] at htunnel
  have hfteid : p.fteid? = some p.tunnelTEID := by
    rw [Pdr.fteid?, htunnel]
    rfl
  refine ⟨htunnel, hfteid, fun hzero => ?_⟩
  have hmem : p.tunnelTEID ∈ d.session.fteids :=
    mem_filterMap.mpr ⟨p, mem_of_getElem? hp, hfteid⟩
  have hused := ((beginEstablishment_drawn hwf hbegin).used p.tunnelTEID).mpr (.inr hmem)
  rw [hzero, isAllocated_zero] at hused
  cases hused

omit [DecidableEq ι] in
theorem heldAlone_iff (hwf : a.upf.fteidGenerator.Wf)
    (hbegin : beginEstablishment conf sereq (a.world i) = (.ok d, w₁))
    (hbatch : batch.rules.pdrs = d.session.rules.pdrs)
    (hie : sereq.createPDR[n]? = some ie) (hp : d.session.rules.pdrs[n]? = some p)
    (hchoose : ie.choosesFteid = true) :
    a.HeldAlone i (.establishment sereq) batch n p.tunnelTEID ↔
      a.FillsTunnel n (.establishment sereq) := by
  have hchosen := established_chosen hwf hbegin hie hp hchoose
  have hdrawn := (established_tunnel hwf hbegin hie hp).2
  rw [hchosen.2.1] at hdrawn
  have hlength : sereq.createPDR.length = d.session.rules.pdrs.length := by
    have hforall := (beginEstablishment_tunnels hwf hbegin).tunnels.length_eq
    simpa using hforall
  constructor
  · intro halone teid hteid
    have hsame : teid = p.tunnelTEID := by
      rw [hdrawn, Option.some.injEq, Option.some.injEq] at hteid
      exact hteid.symm
    subst hsame
    refine ⟨fun h q hq => halone.stored h.1 h.2.1 h.2.2 q
      (fun _ => by simp [Request.session]) hq, ?_⟩
    intro ie' hie' hgiven
    rcases mem_iff_getElem?.mp hie' with ⟨m, hm⟩
    have hlt : m < d.session.rules.pdrs.length := by
      rw [← hlength]
      exact (List.getElem?_eq_some_iff.mp hm).1
    have hq := List.getElem?_eq_getElem hlt
    have hne : m ≠ n := by
      rintro rfl
      rw [hm, Option.some.injEq] at hie
      rw [hie, hchoose] at hgiven
      cases hgiven
    have htunnel := (established_tunnel hwf hbegin hm hq).1
    simp only [PdrIE.tunnelWith, hgiven, false_eq_true, if_false] at htunnel
    rw [PdrIE.givenTEID, ← congrArg Tunnel.tunnelTEID htunnel]
    exact halone.sent m _ hne (by rw [hbatch, hq])
  · intro hfills
    rcases hfills p.tunnelTEID hdrawn with ⟨hstored, hgiven⟩
    refine ⟨fun j seid m q _ hq => hstored (j, seid, m) q hq, ?_⟩
    intro m q hne hq heq
    rw [hbatch] at hq
    have hlt : m < sereq.createPDR.length := by
      rw [hlength]
      exact (List.getElem?_eq_some_iff.mp hq).1
    have hm := List.getElem?_eq_getElem hlt
    cases hch : (sereq.createPDR[m]).choosesFteid with
    | true =>
      -- Drawn twice by one request, a TEID would be in the list twice.
      have hother := established_chosen hwf hbegin hm hq hch
      rw [heq] at hother
      exact hne (position_of_nodup (beginEstablishment_drawn hwf hbegin).nodup hq hp
        hother.2.1 hchosen.2.1)
    | false =>
      have htunnel := (established_tunnel hwf hbegin hm hq).1
      simp only [PdrIE.tunnelWith, hch, false_eq_true, if_false] at htunnel
      refine hgiven _ (getElem_mem hlt) hch ?_
      rw [PdrIE.givenTEID, ← congrArg Tunnel.tunnelTEID htunnel]
      exact heq

/-- In every run: an entry that an accepted request programs for a PDR whose
F-TEID IE has the CHOOSE flag matches one tunnel, with a TEID no other PDR has,
exactly when the request is an establishment and no PDR has the TEID already. -/
theorem chosen_tunnel_iff (conf : ι → AgentConf) {bconf : BessConf}
    {oracle : Nat → BatchOutcome} {a₀ a : Associations BessState ι} (hstart : a₀.Start)
    (hruns : Runs conf (bess bconf oracle) (fun _ _ _ => True) (fun _ => True) a₀ a) (i : ι)
    (req : Request)
    (haccepted : (serve (conf i) (bess bconf oracle) req (a.world i)).1 = true)
    {batch : BatchRecord}
    (hbatch : batch ∈ (a.world i).sent (serve (conf i) (bess bconf oracle) req (a.world i)).2)
    {n : Nat} {ie : PdrIE} {p : Pdr} (hprograms : req.Programs (conf i) batch n ie p)
    (hleaves : ie.LeavesFteid) {k : RuleKey} {e : RuleEntry} (hentry : (k, e) ∈ pdrEntries p) :
    (∃ teid, k.MatchesTunnel (conf i) teid ∧ a.HeldAlone i req batch n teid) ↔
      a.FillsTunnel n req := by
  have hwf := hruns.wf hstart
  rcases hprograms with ⟨-, hp, hread⟩
  cases req with
  | establishment =>
    rcases establishment_sent haccepted hbatch with ⟨d, w₁, hbegin, hpdrs⟩
    have hp' : d.session.rules.pdrs[n]? = some p := hpdrs ▸ hp
    have hchosen := established_chosen hwf hbegin hread hp' hleaves.choosesFteid
    have hmatches : k.MatchesTunnel (conf i) p.tunnelTEID := by
      rw [matchesTunnel_iff hentry]
      exact ⟨congrArg Tunnel.tunnelTEIDMask hchosen.1, rfl, hchosen.2.2,
        congrArg Tunnel.tunnelIP4DstMask hchosen.1, congrArg Tunnel.tunnelIP4Dst hchosen.1⟩
    rw [← heldAlone_iff hwf hbegin hpdrs hread hp' hleaves.choosesFteid]
    constructor
    · rintro ⟨teid, hteid, halone⟩
      have hsame := ((matchesTunnel_iff hentry).mp hteid).2.1
      rwa [hsame]
    · intro halone
      exact ⟨p.tunnelTEID, hmatches, halone⟩
  | modification =>
    rcases hread with ⟨-, fseidIP, res, p₀, res', qerIDList, hread, rfl⟩
    refine ⟨?_, fun hfalse => hfalse.elim⟩
    rintro ⟨teid, hteid, -⟩
    have hmask := ((matchesTunnel_iff hentry).mp hteid).1
    have hopen := readPDR_open hread hleaves
    rw [show ({ p₀ with qerIDList } : Pdr).tunnelTEIDMask = p₀.tunnelTEIDMask from rfl,
      hopen] at hmask
    exact absurd hmask (by decide)
  | deletion => exact hread.elim

/-! ## Small runs -/

def tabled : Associations BessState Unit where
  upf := World.sample.upf
  conn _ := World.sample.conn

theorem tabled_start : tabled.Start := ⟨rfl, fun _ => rfl⟩

def openPdr : Pdr where
  upAllocateFteid := true
  srcIface := access
  srcIfaceMask := 0xFF
  precedence := 100
  pdrID := 2
  fseID := 1
  farID := 1
  needDecap := 1

def finishing : Datapath BessState := bess .sample (carryOut .sample [{ pdrs := [openPdr] }])

def served (req : Request) (a : Associations BessState Unit) : Associations BessState Unit :=
  a.set () (serve .sample finishing req (a.world ())).2

theorem served_runs (req : Request) (a : Associations BessState Unit) :
    Runs (fun _ => .sample) finishing (fun _ _ _ => True) (fun _ => True) a (served req a) :=
  .tail .refl (.handle () (.request req) trivial)

def establishChoosing : Request := .establishment (.sample [choosingPDR 1] [.sample 1 2] [])

def createChoosing : Request := .modification { seid := 1, createPDR := [choosingPDR 2] }

theorem choosingPDR_leavesFteid (pdrID : UInt16) : (choosingPDR pdrID).LeavesFteid :=
  ⟨_, rfl, rfl⟩

def portlessKey (p : Pdr) : RuleKey :=
  pdrKey p { srcPort := 0, srcMask := 0, dstPort := 0, dstMask := 0 }

def chosenPdr : Pdr :=
  { openPdr with
    pdrID := 1
    fseidIP := ip2int [10, 0, 0, 2]
    tunnelTEID := 1
    tunnelTEIDMask := 0xFFFFFFFF
    tunnelIP4Dst := ip2int [198, 18, 0, 1]
    tunnelIP4DstMask := 0xFFFFFFFF }

theorem exists_batch {batches : List BatchRecord} {method : UpfMsgType} {pdrs : List Pdr}
    {rest : List (UpfMsgType × List Pdr)}
    (h : batches.map (fun b => (b.method, b.rules.pdrs)) = (method, pdrs) :: rest) :
    ∃ batch ∈ batches, batch.method = method ∧ batch.rules.pdrs = pdrs := by
  rcases map_eq_cons_iff.mp h with ⟨batch, more, rfl, hbatch, -⟩
  rw [Prod.mk.injEq] at hbatch
  exact ⟨batch, mem_cons_self, hbatch⟩

/-- The establishment programs one tunnel, which its PDR has alone. -/
theorem chosen_tunnel_established :
    (serve .sample finishing establishChoosing (tabled.world ())).1 = true ∧
    ∃ batch ∈ (tabled.world ()).sent
      (serve .sample finishing establishChoosing (tabled.world ())).2,
      establishChoosing.Programs .sample batch 0 (choosingPDR 1) chosenPdr ∧
      ∃ teid, (portlessKey chosenPdr).MatchesTunnel .sample teid ∧
        tabled.HeldAlone () establishChoosing batch 0 teid := by
  have haccepted : (serve .sample finishing establishChoosing (tabled.world ())).1 = true := by
    decide
  have hsent : ((tabled.world ()).sent (serve .sample finishing establishChoosing
      (tabled.world ())).2).map (fun b => (b.method, b.rules.pdrs)) = [(.add, [chosenPdr])] := by
    decide
  rcases exists_batch hsent with ⟨batch, hbatch, hmethod, hpdrs⟩
  have hprograms : establishChoosing.Programs .sample batch 0 (choosingPDR 1) chosenPdr :=
    ⟨by simp [hmethod], by simp [hpdrs], rfl⟩
  refine ⟨haccepted, batch, hbatch, hprograms, ?_⟩
  refine (chosen_tunnel_iff (fun _ => .sample) tabled_start .refl () establishChoosing
    haccepted hbatch hprograms (choosingPDR_leavesFteid 1) (e := pdrEntry chosenPdr)
    (by decide)).mpr ?_
  intro teid _
  refine ⟨?_, ?_⟩
  · intro h q hq
    exact absurd hq (by simp [pdrAt, tabled, World.sample])
  · intro ie hie hgiven
    rw [mem_singleton.mp hie] at hgiven
    exact absurd hgiven (by decide)

/-- A Create PDR of a modification that leaves its F-TEID to this node is accepted
and programmed to match every tunnel. -/
theorem modification_leaves_tunnel_open :
    let a := served establishChoosing tabled
    let ended := serve .sample finishing createChoosing (a.world ())
    tabled.Start ∧
      Runs (fun _ => .sample) finishing (fun _ _ _ => True) (fun _ => True) tabled a ∧
      ended.1 = true ∧ (choosingPDR 2).LeavesFteid ∧
      (∃ batch ∈ (a.world ()).sent ended.2,
        createChoosing.Programs .sample batch 0 (choosingPDR 2) openPdr) ∧
      (portlessKey openPdr, pdrEntry openPdr) ∈ pdrEntries openPdr ∧
      ended.2.tables (portlessKey openPdr) = some (pdrEntry openPdr) ∧
      ¬∃ teid, (portlessKey openPdr).MatchesTunnel .sample teid := by
  intro a ended
  have hsent : ((a.world ()).sent ended.2).map (fun b => (b.method, b.rules.pdrs)) =
      [(.mod, [openPdr]), (.del, [])] := by decide
  rcases exists_batch hsent with ⟨batch, hbatch, hmethod, hpdrs⟩
  have hread : (readPDR .sample 1 0 (choosingPDR 2) (none, {})).1 = .ok openPdr := by decide
  refine ⟨tabled_start, served_runs _ _, by decide, choosingPDR_leavesFteid 2,
    ⟨batch, hbatch, by simp [hmethod], by simp [hpdrs], ?_⟩, by decide, by decide, ?_⟩
  · exact ⟨mem_singleton_self _, 0, (none, {}), openPdr, _, [], Prod.ext hread rfl, rfl⟩
  · rintro ⟨teid, hteid⟩
    exact absurd hteid.1 (by decide)

end Associations

end Upf
