import Upf.Session.Establishment

/-!
# Session Modification Request

`handleSessionModificationRequest`.  The message is read into a copy of the
stored session; what it created or updated is written; then its removals are
collected and deleted; and only then is the session published.  A refusal after
the write rolls the datapath back: what the message added is removed, and the
rules the session had are written again.
-/

namespace Upf

open Lib

structure SessionModificationRequest where
  seid : UInt64
  cpFSEID : Option (Decoded FSEIDFields) := none
  createPDR : List PdrIE := []
  createFAR : List FarIE := []
  createQER : List QerIE := []
  updatePDR : List PdrIE := []
  updateFAR : List FarIE := []
  updateQER : List QerIE := []
  removePDR : List (Decoded UInt16) := []
  removeFAR : List (Decoded UInt32) := []
  removeQER : List (Decoded UInt32) := []

structure SessionModificationResponse where
  seid : UInt64
  cause : Cause
deriving DecidableEq

section Reading

variable (conf : AgentConf) (seid : UInt64) (fseidIP : UInt32)

def readPDR (ie : PdrIE) (res : Resources) : Except Refusal Pdr × Resources :=
  match parsePDR ie seid conf.appPFDs res.1 with
  | (.error f, ippool) => (.error ⟨f, .requestRejected⟩, (ippool, res.2))
  | (.ok p, ippool) => (.ok { p with fseidIP }, (ippool, res.2))

def readCreates (smreq : SessionModificationRequest) (d : Draft) (res : Resources) :
    Except Refusal Draft × Resources :=
  andThen (readEach (readPDR conf seid fseidIP) Draft.createPDR smreq.createPDR d res)
    fun d res =>
  andThen (readEach (readFAR conf seid fseidIP .create) Draft.createFAR smreq.createFAR d res)
    fun d res =>
  readEach (readQER seid fseidIP) Draft.createQER smreq.createQER d res

def readUpdates (smreq : SessionModificationRequest) (d : Draft) (res : Resources) :
    Except Refusal Draft × Resources :=
  andThen (readEach (readPDR conf seid fseidIP) Draft.updatePDR smreq.updatePDR d res)
    fun d res =>
  andThen (readEach (readFAR conf seid fseidIP .update) Draft.updateFAR smreq.updateFAR d res)
    fun d res =>
  readEach (readQER seid fseidIP) Draft.updateQER smreq.updateQER d res

def readModification (smreq : SessionModificationRequest) (d : Draft) (res : Resources) :
    Except Refusal (Draft × Draft) × Resources :=
  andThen (readCreates conf seid fseidIP smreq d res) fun created res =>
  andThen (readUpdates conf seid fseidIP smreq created res) fun d res =>
  (.ok (created, d), res)

end Reading

/-- The session as a message leaves it before its removals, what is written of
it, and how many of the written rules were created. -/
structure Write where
  session : PFCPSession
  updated : PacketForwardingRules
  createdPDRs : Nat
  createdFARs : Nat
  createdQERs : Nat

def writeOf (before : PacketForwardingRules) (created d : Draft) : Write :=
  let session := d.session.markSessionQer
  let pdrs := heldVersions Pdr.pdrID session.rules.pdrs before.pdrs.length
    (d.addPDRs.drop created.addPDRs.length)
  let fars := heldVersions Far.farID session.rules.fars before.fars.length
    (d.addFARs.drop created.addFARs.length)
  let qers := heldVersions Qer.qerID session.rules.qers before.qers.length
    (d.addQERs.drop created.addQERs.length)
  { session
    updated := { pdrs := pdrs.1, fars := fars.1, qers := qers.1 }
    createdPDRs := pdrs.2
    createdFARs := fars.2
    createdQERs := qers.2 }

def movedPDR (before : PacketForwardingRules) (p : Pdr) : Bool :=
  match before.findPDR p.pdrID with
  | none => true
  | some was => !p.occupiesSameEntryAs was

def movedQER (before : PacketForwardingRules) (q : Qer) : Bool :=
  match before.findQER q.qerID with
  | none => true
  | some was => !q.occupiesSameEntryAs was

def rollBackRemove (before : PacketForwardingRules) (wr : Write) : PacketForwardingRules where
  pdrs := wr.updated.pdrs.take wr.createdPDRs ++
    (wr.updated.pdrs.drop wr.createdPDRs).filter (movedPDR before)
  fars := wr.updated.fars.take wr.createdFARs
  qers := wr.updated.qers.take wr.createdQERs ++
    (wr.updated.qers.drop wr.createdQERs).filter (movedQER before)

def removeStep {α R : Type} (remove : PFCPSession → α → Except GoError (R × PFCPSession))
    (ie : Decoded α) (s : PFCPSession) : Except GoError R × PFCPSession :=
  match ie with
  | .error e => (.error (.decode e), s)
  | .ok id =>
    match remove s id with
    | .error e => (.error e, s)
    | .ok (r, s) => (.ok r, s)

def removeEach {α R : Type} (remove : PFCPSession → α → Except GoError (R × PFCPSession))
    (ies : List (Decoded α)) (s : PFCPSession) : Except GoError (List R) × PFCPSession :=
  readEach (removeStep remove) (fun rs r => rs ++ [r]) ies [] s

def removeRules (smreq : SessionModificationRequest) (s : PFCPSession) :
    Except GoError PacketForwardingRules × PFCPSession :=
  andThen (removeEach (fun s (id : UInt16) => s.removePDR id.toUInt32) smreq.removePDR s)
    fun pdrs s =>
  andThen (removeEach PFCPSession.removeFAR smreq.removeFAR s) fun fars s =>
  andThen (removeEach PFCPSession.removeQER smreq.removeQER s) fun qers s =>
  (.ok { pdrs, fars, qers }, s)

section Handler

variable {σ : Type} (conf : AgentConf) (dp : Datapath σ)

def sendModificationError (remoteSEID : UInt64) (fault : Fault) :
    Reply SessionModificationResponse :=
  match fault with
  | .err e => .answered { seid := remoteSEID, cause := .requestRejected } (some e)
  | .panicked => .panicked

def rollBack (before : PacketForwardingRules) (wr : Write) (w : World σ) : World σ :=
  let w := (w.send dp .del (rollBackRemove before wr) {}).2
  (w.send dp .mod before before).2

def removeAndPublish (smreq : SessionModificationRequest) (before : PacketForwardingRules)
    (wr : Write) (w : World σ) : Reply SessionModificationResponse × World σ :=
  match removeRules smreq wr.session with
  | (.error e, _) =>
    (sendModificationError wr.session.remoteSEID (.err e), rollBack dp before wr w)
  | (.ok deleted, session) =>
    let sent := w.send dp .del deleted {}
    let w := sent.2
    if sent.1.1 = .requestRejected then
      (sendModificationError wr.session.remoteSEID (.err .writeToDatapath),
        rollBack dp before wr w)
    else
      (.answered { seid := wr.session.remoteSEID, cause := .requestAccepted } none,
        { w with conn := w.conn.put session })

/-- The End Markers are sent last, once the store is no longer locked, and
whatever the answer is. -/
def sendEndMarkers (endMarkers : List (List UInt8)) (w : World σ) : World σ :=
  if endMarkers.length = 0 then w
  else { w with upf := { w.upf with datapath := dp.sendEndMarkers endMarkers w.upf.datapath } }

def writeModification (smreq : SessionModificationRequest) (before : PacketForwardingRules)
    (wr : Write) (endMarkerList : List (List UInt8)) (w : World σ) :
    Reply SessionModificationResponse × World σ :=
  let sent := w.send dp .mod wr.session.rules wr.updated
  let w := sent.2
  if sent.1.1 = .requestRejected then
    (sendModificationError wr.session.remoteSEID (.err .writeToDatapath),
      rollBack dp before wr w)
  else
    let endMarkers := if conf.enableEndMarker then endMarkerList else []
    let ended := removeAndPublish dp smreq before wr w
    (ended.1, sendEndMarkers dp endMarkers ended.2)

/-- The session with the peer's new F-SEID, if the message carries one that
decodes, and the address to record in its rules. -/
def updateFSEID (smreq : SessionModificationRequest) (session : PFCPSession) :
    PFCPSession × UInt32 :=
  match smreq.cpFSEID with
  | some (.ok fseid) => ({ session with remoteSEID := fseid.seid }, ip2int fseid.ipv4Address)
  | _ => (session, 0)

def modify (smreq : SessionModificationRequest) (stored : PFCPSession) (w : World σ) :
    Reply SessionModificationResponse × World σ :=
  let before := stored.rules
  let (session, fseidIP) := updateFSEID smreq stored
  if w.conn.isShutdown then
    (.answered { seid := session.remoteSEID, cause := .noEstablishedPFCPAssociation }
      (some .assocReleasing), w)
  else
    let read := readModification conf smreq.seid fseidIP smreq { session }
      (w.upf.ippool, w.upf.fteidGenerator)
    let w := { w with upf := { w.upf with ippool := read.2.1, fteidGenerator := read.2.2 } }
    match read.1 with
    | .error refusal => (sendModificationError session.remoteSEID refusal.fault, w)
    | .ok (created, d) =>
      writeModification conf dp smreq before (writeOf before created d) d.endMarkerList w

def handleSessionModificationRequest (smreq : SessionModificationRequest) (w : World σ) :
    Reply SessionModificationResponse × World σ :=
  match w.conn.store.lookup smreq.seid with
  | none =>
    if w.conn.isShutdown then
      (.answered { seid := 0, cause := .noEstablishedPFCPAssociation }
        (some .assocReleasing), w)
    else
      (.answered { seid := 0, cause := .sessionContextNotFound }
        (some (.notFoundWithParam "PFCP session" "localSEID" (.num smreq.seid.toNat))), w)
  | some stored => modify conf dp smreq stored w

end Handler

end Upf
