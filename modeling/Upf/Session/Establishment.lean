import Upf.Session.State

/-!
# Session Establishment Request

`handleSessionEstablishmentRequest`.  Everything the request takes (a place
in the gauge, an address, identifiers) is taken while it is still being read, and
a deferred cleanup gives address and gauge back on every way out that does not
store the session.
-/

namespace Upf

open Lib

structure FSEIDFields where
  seid : UInt64
  ipv4Address : IP
deriving DecidableEq

structure SessionEstablishmentRequest where
  nodeID : Option (Decoded String)
  cpFSEID : Option (Decoded FSEIDFields)
  createPDR : List PdrIE
  createFAR : List FarIE
  createQER : List QerIE

def SessionEstablishmentRequest.sample (createPDR : List PdrIE) (createFAR : List FarIE)
    (createQER : List QerIE) : SessionEstablishmentRequest where
  nodeID := some (.ok "smf")
  cpFSEID := some (.ok { seid := 7, ipv4Address := [10, 0, 0, 2] })
  createPDR
  createFAR
  createQER

inductive OffendingIE where
  | nodeID
  | fseid
deriving DecidableEq

inductive CreatedPDR where
  | fteid (pdrID : UInt16) (teid : UInt32) (ip : IP)
  | ueIPAddress (pdrID : UInt16) (ip : IP)
deriving DecidableEq

structure SessionEstablishmentResponse where
  seid : UInt64
  cause : Cause
  offendingIE : Option OffendingIE := none
  localFSEID : Option (UInt64 × IP) := none
  createdPDR : List CreatedPDR := []
deriving DecidableEq

def addPdrInfo (pdrs : List Pdr) : List CreatedPDR :=
  pdrs.flatMap fun pdr =>
    (if pdr.upAllocateFteid then
      [.fteid pdr.pdrID.toUInt16 pdr.tunnelTEID (int2ip pdr.tunnelIP4Dst)] else []) ++
    (if pdr.allocIPFlag && pdr.srcIface == core then
      [.ueIPAddress pdr.pdrID.toUInt16 (int2ip pdr.ueAddress)] else [])

/-- Why a request is refused while its rules are read. -/
structure Refusal where
  fault : Fault
  cause : Cause
deriving DecidableEq

/-- The resources reading can draw on. -/
abbrev Resources := Option IPPool × FTEIDGenerator

section Reading

variable (conf : AgentConf) (seid : UInt64) (fseidIP : UInt32)

def setFteid (p : Pdr) (fteid : UInt32) : Pdr :=
  { p with
    tunnelTEID := fteid
    tunnelTEIDMask := 0xFFFFFFFF
    tunnelIP4Dst := ip2int conf.addresses.accessIP
    tunnelIP4DstMask := 0xFFFFFFFF }

def readCreatePDR (cPDR : PdrIE) (res : Resources) : Except Refusal Pdr × Resources :=
  match parsePDR cPDR seid conf.appPFDs res.1 with
  | (.error f, ippool) => (.error ⟨f, .requestRejected⟩, (ippool, res.2))
  | (.ok p, ippool) =>
    if p.upAllocateFteid then
      match res.2.allocate with
      | (.error e, gen) => (.error ⟨.err e, .noResourcesAvailable⟩, (ippool, gen))
      | (.ok fteid, gen) => (.ok { setFteid conf p fteid with fseidIP }, (ippool, gen))
    else (.ok { p with fseidIP }, (ippool, res.2))

def readFAR (op : Operation) (ie : FarIE) (res : Resources) : Except Refusal Far × Resources :=
  match parseFAR ie seid conf.addresses op with
  | .error f => (.error ⟨f, .requestRejected⟩, res)
  | .ok f => (.ok { f with fseidIP }, res)

def readQER (ie : QerIE) (res : Resources) : Except Refusal Qer × Resources :=
  match parseQER ie seid with
  | .error f => (.error ⟨f, .requestRejected⟩, res)
  | .ok q => (.ok { q with fseidIP }, res)

def readEstablishment (sereq : SessionEstablishmentRequest) (d : Draft) (res : Resources) :
    Except Refusal Draft × Resources :=
  andThen (readEach (readCreatePDR conf seid fseidIP) Draft.createPDR sereq.createPDR d res)
    fun d res =>
  andThen (readEach (readFAR conf seid fseidIP .create) Draft.createFAR sereq.createFAR d res)
    fun d res =>
  readEach (readQER seid fseidIP) Draft.createQER sereq.createQER d res

end Reading

section Handler

variable {σ : Type} (conf : AgentConf) (dp : Datapath σ)

def checkEstablishment (sereq : SessionEstablishmentRequest) (conn : PFCPConn) :
    Except (SessionEstablishmentResponse × GoError) FSEIDFields :=
  match sereq.nodeID with
  | none =>
    .error ({ seid := 0, cause := .mandatoryIEMissing, offendingIE := some .nodeID },
      .nodeIDMissing)
  | some (.error e) =>
    .error ({ seid := 0, cause := .requestRejected, offendingIE := some .nodeID }, .decode e)
  | some (.ok nodeID) =>
    match sereq.cpFSEID with
    | none =>
      .error ({ seid := 0, cause := .mandatoryIEMissing, offendingIE := some .fseid },
        .cpfSEIDMissing)
    | some (.error e) =>
      .error ({ seid := 0, cause := .requestRejected, offendingIE := some .fseid }, .decode e)
    | some (.ok fseid) =>
      if nodeID ≠ conf.remoteNodeID then
        .error ({ seid := fseid.seid, cause := .noEstablishedPFCPAssociation },
          .assocNotFound)
      else if conn.isShutdown then
        .error ({ seid := fseid.seid, cause := .noEstablishedPFCPAssociation },
          .assocReleasing)
      else .ok fseid

def errProcessReply (remoteSEID : UInt64) (fault : Fault) (cause : Cause) :
    Reply SessionEstablishmentResponse :=
  match fault with
  | .err e => .answered { seid := remoteSEID, cause } (some e)
  | .panicked => .panicked

/-- Mark the session QER, once among the session's QERs and once among those
of the message.  The second marking cannot reach the session's QERs but it does
reorder the lists of its PDRs. -/
def markEstablishment (d : Draft) : Draft :=
  let session := d.session.markSessionQer
  let second := Upf.markSessionQer session.rules.pdrs d.addQERs
  { d with
    session := { session with rules := { session.rules with pdrs := second.1 } }
    addQERs := second.2 }

/-- From the write on: program the session and store it, or take it out again
and keep it only if that did not finish. -/
def writeEstablishment (d : Draft) (w : World σ) :
    Reply SessionEstablishmentResponse × World σ :=
  let session := d.session
  let added := w.send dp .add session.rules d.added
  let w := added.2
  if added.1.1 = .requestRejected then
    let removed := w.send dp .del session.rules {}
    let w := removed.2
    if !removed.1.2 then
      (errProcessReply session.remoteSEID (.err .writeToDatapath) .requestRejected,
        { w with conn := w.conn.put session })
    else
      (errProcessReply session.remoteSEID (.err .writeToDatapath) .requestRejected,
        w.cleanup session)
  else
    (.answered
      { seid := session.remoteSEID
        cause := .requestAccepted
        localFSEID := some (session.localSEID, conf.localIP)
        createdPDR := addPdrInfo d.addPDRs } none,
      { w with conn := w.conn.put session })

def establish (sereq : SessionEstablishmentRequest) (fseid : FSEIDFields)
    (session : PFCPSession) (w : World σ) : Reply SessionEstablishmentResponse × World σ :=
  let read := readEstablishment conf session.localSEID (ip2int fseid.ipv4Address) sereq
    { session } (w.upf.ippool, w.upf.fteidGenerator)
  let w := { w with upf := { w.upf with ippool := read.2.1, fteidGenerator := read.2.2 } }
  match read.1 with
  | .error refusal =>
    (errProcessReply fseid.seid refusal.fault refusal.cause, w.cleanup session)
  | .ok d => writeEstablishment conf dp (markEstablishment d) w

def handleSessionEstablishmentRequest (sereq : SessionEstablishmentRequest) (w : World σ) :
    Reply SessionEstablishmentResponse × World σ :=
  match checkEstablishment conf sereq w.conn with
  | .error (response, e) => (.answered response (some e), w)
  | .ok fseid =>
    match w.conn.newPFCPSession conf.rng fseid.seid conf.maxRetries with
    | (none, conn) =>
      (errProcessReply fseid.seid (.err .allocateSession) .noResourcesAvailable,
        { w with conn })
    | (some session, conn) => establish conf dp sereq fseid session { w with conn }

def beginEstablishment (sereq : SessionEstablishmentRequest) (w : World σ) :
    Except (Reply SessionEstablishmentResponse) Draft × World σ :=
  match checkEstablishment conf sereq w.conn with
  | .error (response, e) => (.error (.answered response (some e)), w)
  | .ok fseid =>
    match w.conn.newPFCPSession conf.rng fseid.seid conf.maxRetries with
    | (none, conn) =>
      (.error (errProcessReply fseid.seid (.err .allocateSession) .noResourcesAvailable),
        { w with conn })
    | (some session, conn) =>
      let read := readEstablishment conf session.localSEID (ip2int fseid.ipv4Address) sereq
        { session } (w.upf.ippool, w.upf.fteidGenerator)
      let w : World σ :=
        { upf := { w.upf with ippool := read.2.1, fteidGenerator := read.2.2 }, conn }
      match read.1 with
      | .error refusal =>
        (.error (errProcessReply fseid.seid refusal.fault refusal.cause),
          w.cleanup session)
      | .ok d => (.ok (markEstablishment d), w)

theorem handleSessionEstablishmentRequest_eq (sereq : SessionEstablishmentRequest) (w : World σ) :
    handleSessionEstablishmentRequest conf dp sereq w =
      match beginEstablishment conf sereq w with
      | (.error reply, w) => (reply, w)
      | (.ok d, w) => writeEstablishment conf dp d w := by
  unfold handleSessionEstablishmentRequest beginEstablishment
  cases checkEstablishment conf sereq w.conn with
  | error refused => rfl
  | ok fseid =>
    dsimp only
    rcases w.conn.newPFCPSession conf.rng fseid.seid conf.maxRetries with ⟨_ | session, conn⟩
    · rfl
    · dsimp only [establish]
      rcases readEstablishment conf session.localSEID (ip2int fseid.ipv4Address) sereq { session }
        (w.upf.ippool, w.upf.fteidGenerator) with ⟨_ | d, res⟩ <;> rfl

end Handler

end Upf
