import Upf.Session.State

/-!
# Session Deletion Request and Session Report Response

`handleSessionDeletionRequest` gives the address back only after a delete
batch that finished and was not rejected.  `handleSessionReportResponse`, on
a peer that lost the session, gives it back first and does not look whether the
batch finished.
-/

namespace Upf

structure SessionDeletionRequest where
  seid : UInt64
deriving DecidableEq

structure SessionDeletionResponse where
  seid : UInt64
  cause : Cause
deriving DecidableEq

structure SessionReportResponse where
  seid : UInt64
  cause : Option (Decoded Cause)

section Handler

variable {σ : Type} (dp : Datapath σ)

def deleteSession (session : PFCPSession) (w : World σ) :
    Reply SessionDeletionResponse × World σ :=
  let sent := w.send dp .del session.rules {}
  let w := sent.2
  if sent.1.1 = .requestRejected || !sent.1.2 then
    (.answered { seid := session.remoteSEID, cause := .requestRejected }
      (some .writeToDatapath), w)
  else
    (.answered { seid := session.remoteSEID, cause := .requestAccepted } none,
      w.cleanup session)

def handleSessionDeletionRequest (sdreq : SessionDeletionRequest) (w : World σ) :
    Reply SessionDeletionResponse × World σ :=
  match w.conn.store.lookup sdreq.seid with
  | none =>
    if w.conn.isShutdown then
      (.answered { seid := 0, cause := .noEstablishedPFCPAssociation }
        (some .assocReleasing), w)
    else
      (.answered { seid := 0, cause := .sessionContextNotFound }
        (some (.notFoundWithParam "PFCP session" "localSEID" (.num sdreq.seid.toNat))), w)
  | some session =>
    if w.conn.isShutdown then
      (.answered { seid := session.remoteSEID, cause := .noEstablishedPFCPAssociation }
        (some .assocReleasing), w)
    else deleteSession dp session w

/-- A peer that does not know the session any more makes this node forget it
too: address first, then the session, then its rules. -/
def handleSessionReportResponse (srres : SessionReportResponse) (w : World σ) :
    Option GoError × World σ :=
  match srres.cause with
  | none => (some .causeMissing, w)
  | some (.error e) => (some (.decode e), w)
  | some (.ok cause) =>
    if cause = .sessionContextNotFound then
      if w.conn.isShutdown then (none, w)
      else
        match w.conn.store.lookup srres.seid with
        | none =>
          (some (.notFoundWithParam "PFCP session context" "SEID" (.num srres.seid.toNat)), w)
        | some sessItem =>
          let w : World σ :=
            { upf := { w.upf with ippool := releaseIP w.upf.ippool srres.seid }
              conn := w.conn.removeSession sessItem }
          let sent := w.send dp .del sessItem.rules {}
          if sent.1.1 = .requestRejected then
            (some (.operationFailedWithParam "delete session from datapath" "seid"
              (.num srres.seid.toNat)), sent.2)
          else (none, sent.2)
    else (none, w)

end Handler

end Upf
