import Upf.Datapath.Batch
import Upf.Pfcp.EndMarker
import Upf.Pfcp.Fteid
import Upf.Pfcp.ParseFarQer
import Upf.Pfcp.ParsePdr
import Upf.Pfcp.SessionQer

/-!
# State of the agent and of an association

The resources all associations share (address pool, F-TEIDs, datapath) and what
one association owns (its session store, its shutdown flag, its share of the
live-session gauge, its position in the random SEID source), with the small
operations of `sessions.go` and `local_store.go`.

The request logs and the per-session metrics record are left out, apart from the
gauge: a session's metrics count it in when it is made and out when it is
removed.
-/

namespace Upf

open Lib

/-- Settings an association reads and never changes. -/
structure AgentConf where
  maxRetries : Nat
  remoteNodeID : String
  appPFDs : AppPFDs
  addresses : NodeAddresses
  enableEndMarker : Bool
  localIP : IP
  /-- The output of the association's random SEID source. -/
  rng : Nat → UInt64

/-- A small configuration to evaluate the handlers under. -/
def AgentConf.sample : AgentConf where
  maxRetries := 3
  remoteNodeID := "smf"
  appPFDs := ∅
  addresses := { accessIP := [198, 18, 0, 1], coreIP := [198, 19, 0, 1] }
  enableEndMarker := true
  localIP := [10, 0, 0, 1]
  rng i := i.toUInt64 + 1

abbrev Store := AList fun _ : UInt64 => PFCPSession

structure UPF (σ : Type) where
  ippool : Option IPPool
  fteidGenerator : FTEIDGenerator
  datapath : σ

structure PFCPConn where
  store : Store
  isShutdown : Bool
  /-- This association's contribution to the live-session gauge. -/
  sessions : Int
  /-- How many random numbers have been drawn. -/
  rngPos : Nat

/-- An association together with the shared resources. -/
structure World (σ : Type) where
  upf : UPF σ
  conn : PFCPConn

/-- How a handler ends: with a response and an error to log, or with a fault
that takes the process down after the deferred calls have run. -/
inductive Reply (α : Type) where
  | answered (response : α) (err : Option GoError)
  | panicked
deriving DecidableEq

def putSession (store : Store) (session : PFCPSession) : Except GoError Store :=
  if session.localSEID = 0 then
    .error (.invalidArgument "session.localSEID" (.num session.localSEID.toNat))
  else .ok (store.insert session.localSEID session)

namespace PFCPConn

def put (conn : PFCPConn) (session : PFCPSession) : PFCPConn :=
  match putSession conn.store session with
  | .ok store => { conn with store }
  | .error _ => conn

def removeSession (conn : PFCPConn) (session : PFCPSession) : PFCPConn :=
  { conn with sessions := conn.sessions - 1, store := conn.store.erase session.localSEID }

/-- Draw SEIDs until one is new to this association's store, at most
`retries` times. -/
def newPFCPSession (rng : Nat → UInt64) (rseid : UInt64) :
    (retries : Nat) → PFCPConn → Option PFCPSession × PFCPConn
  | 0, conn => (none, conn)
  | retries + 1, conn =>
    let lseid := rng conn.rngPos
    let conn := { conn with rngPos := conn.rngPos + 1 }
    if (conn.store.lookup lseid).isSome then newPFCPSession rng rseid retries conn
    else
      (some { localSEID := lseid, remoteSEID := rseid },
        { conn with sessions := conn.sessions + 1 })

variable {conn conn' : PFCPConn} {session : PFCPSession}

theorem put_of_ne (h : session.localSEID ≠ 0) :
    conn.put session = { conn with store := conn.store.insert session.localSEID session } := by
  simp [put, putSession, h]

theorem put_of_zero (h : session.localSEID = 0) : conn.put session = conn := by
  simp [put, putSession, h]

def drawnSEID (rng : Nat → UInt64) (retries : Nat) (conn : PFCPConn) : Option UInt64 :=
  (newPFCPSession rng 0 retries conn).1.map PFCPSession.localSEID

theorem newPFCPSession_cases (rng : Nat → UInt64) (rseid : UInt64) (retries : Nat)
    (conn : PFCPConn) :
    ∃ n, (newPFCPSession rng rseid retries conn = (none, { conn with rngPos := n })) ∨
      ∃ i, conn.store.lookup (rng i) = none ∧ conn.drawnSEID rng retries = some (rng i) ∧
        newPFCPSession rng rseid retries conn =
          (some { localSEID := rng i, remoteSEID := rseid },
            { conn with rngPos := n, sessions := conn.sessions + 1 }) := by
  induction retries generalizing conn with
  | zero => exact ⟨conn.rngPos, .inl rfl⟩
  | succ retries ih =>
    unfold drawnSEID newPFCPSession
    by_cases hfound : (conn.store.lookup (rng conn.rngPos)).isSome
    · rcases ih { conn with rngPos := conn.rngPos + 1 } with ⟨n, hnone | ⟨i, hi, hdrawn, hsome⟩⟩
      · exact ⟨n, .inl (by simpa [hfound] using hnone)⟩
      · exact ⟨n, .inr ⟨i, hi, by simpa [drawnSEID, hfound] using hdrawn,
          by simpa [hfound] using hsome⟩⟩
    · refine ⟨conn.rngPos + 1, .inr ⟨conn.rngPos, by simpa using hfound, ?_, ?_⟩⟩
      · simp [hfound]
      · simp [hfound]

theorem erase_of_lookup_eq_none {store : Store} {seid : UInt64}
    (h : store.lookup seid = none) : store.erase seid = store := by
  apply AList.ext
  rw [AList.lookup_eq_none, AList.mem_keys] at h
  exact List.kerase_of_notMem_keys h

end PFCPConn

def releaseIP (ippool : Option IPPool) (seid : UInt64) : Option IPPool :=
  ippool.map fun i => (i.release seid).2

namespace World

variable {σ : Type}

/-- Give back what a session that is not stored holds. -/
def cleanup (w : World σ) (session : PFCPSession) : World σ where
  upf := { w.upf with ippool := releaseIP w.upf.ippool session.localSEID }
  conn := w.conn.removeSession session

def send (dp : Datapath σ) (method : UpfMsgType) (rules updated : PacketForwardingRules)
    (w : World σ) : (Cause × Bool) × World σ :=
  let sent := dp.sendMsgToUPFWithCompletion method rules updated w.upf.datapath
  (sent.1, { w with upf := { w.upf with datapath := sent.2 } })

@[simp] theorem send_conn (dp : Datapath σ) (method : UpfMsgType)
    (rules updated : PacketForwardingRules) (w : World σ) :
    (w.send dp method rules updated).2.conn = w.conn := rfl

@[simp] theorem send_ippool (dp : Datapath σ) (method : UpfMsgType)
    (rules updated : PacketForwardingRules) (w : World σ) :
    (w.send dp method rules updated).2.upf.ippool = w.upf.ippool := rfl

@[simp] theorem send_fteidGenerator (dp : Datapath σ) (method : UpfMsgType)
    (rules updated : PacketForwardingRules) (w : World σ) :
    (w.send dp method rules updated).2.upf.fteidGenerator = w.upf.fteidGenerator := rfl

def nextBatch (oracle : Nat → BatchOutcome) (w : World BessState) (method : UpfMsgType)
    (rules updated : PacketForwardingRules) : BatchRecord where
  method
  rules := batchRules method rules updated
  outcome := oracle w.upf.datapath.log.length

def after (conf : BessConf) (w : World BessState) (batch : BatchRecord) : World BessState :=
  { w with upf := { w.upf with datapath := { w.upf.datapath with
      tables := w.upf.datapath.tables.applyAll (batch.ops conf)
      log := w.upf.datapath.log ++ [batch] } } }

def tables (w : World BessState) : Tables := w.upf.datapath.tables

def log (w : World BessState) : List BatchRecord := w.upf.datapath.log

def sent (w w' : World BessState) : List BatchRecord := w'.log.drop w.log.length

variable {conf : BessConf} {oracle : Nat → BatchOutcome} (w : World BessState)
  (batch : BatchRecord)

theorem sent_of_log {w w' : World BessState} {batches : List BatchRecord}
    (h : w'.log = w.log ++ batches) : w.sent w' = batches := by
  simp [sent, h]

theorem send_bess (method : UpfMsgType) (rules updated : PacketForwardingRules) :
    w.send (bess conf oracle) method rules updated =
      ((w.nextBatch oracle method rules updated).result conf,
        w.after conf (w.nextBatch oracle method rules updated)) := rfl

@[simp] theorem after_conn : (w.after conf batch).conn = w.conn := rfl

@[simp] theorem after_ippool : (w.after conf batch).upf.ippool = w.upf.ippool := rfl

@[simp] theorem after_tables :
    (w.after conf batch).tables = w.tables.applyAll (batch.ops conf) := rfl

@[simp] theorem after_log : (w.after conf batch).log = w.log ++ [batch] := rfl

@[simp] theorem nextBatch_method (method : UpfMsgType) (rules updated : PacketForwardingRules) :
    (w.nextBatch oracle method rules updated).method = method := rfl

@[simp] theorem nextBatch_rules (method : UpfMsgType) (rules updated : PacketForwardingRules) :
    (w.nextBatch oracle method rules updated).rules = batchRules method rules updated := rfl

structure Advanced (conf : BessConf) (w w' : World BessState) (batches : List BatchRecord) :
    Prop where
  log : w'.log = w.log ++ batches
  tables : w'.tables = w.tables.applyAll (batches.flatMap fun batch => batch.ops conf)

namespace Advanced

variable {w w' w'' : World BessState} {batches : List BatchRecord}

theorem refl (w : World BessState) : w.Advanced conf w [] := by
  constructor <;> simp

theorem congr (h : w.Advanced conf w' batches) (hlog : w''.log = w'.log)
    (htables : w''.tables = w'.tables) : w.Advanced conf w'' batches :=
  ⟨hlog.trans h.log, htables.trans h.tables⟩

theorem after (h : w.Advanced conf w' batches) (batch : BatchRecord) :
    w.Advanced conf (w'.after conf batch) (batches ++ [batch]) := by
  constructor
  · simp [h.log]
  · simp [h.tables, Table.applyAll_append]

theorem sent (h : w.Advanced conf w' batches) : w.sent w' = batches := sent_of_log h.log

end Advanced

end World

/-- A session as a message builds it, with the rules read so far by the kind of
IE they came from and the End Markers they ask for. -/
structure Draft where
  session : PFCPSession
  addPDRs : List Pdr := []
  addFARs : List Far := []
  addQERs : List Qer := []
  endMarkerList : List (List UInt8) := []

namespace Draft

variable (d : Draft)

def createPDR (p : Pdr) : Draft :=
  { d with session := d.session.createPDR p, addPDRs := d.addPDRs ++ [p] }

def createFAR (f : Far) : Draft :=
  { d with session := d.session.createFAR f, addFARs := d.addFARs ++ [f] }

def createQER (q : Qer) : Draft :=
  { d with session := d.session.createQER q, addQERs := d.addQERs ++ [q] }

/-- An update that finds no rule is logged and skipped. -/
def updatePDR (p : Pdr) : Draft :=
  match d.session.updatePDR p with
  | .ok session => { d with session, addPDRs := d.addPDRs ++ [p] }
  | .error _ => d

def updateFAR (f : Far) : Draft :=
  match d.session.updateFAR f d.endMarkerList with
  | .ok (session, endMarkerList) =>
    { d with session, endMarkerList, addFARs := d.addFARs ++ [f] }
  | .error _ => d

def updateQER (q : Qer) : Draft :=
  match d.session.updateQER q with
  | .ok session => { d with session, addQERs := d.addQERs ++ [q] }
  | .error _ => d

def added : PacketForwardingRules :=
  { pdrs := d.addPDRs, fars := d.addFARs, qers := d.addQERs }

end Draft

def PFCPSession.markSessionQer (s : PFCPSession) : PFCPSession :=
  let marked := Upf.markSessionQer s.rules.pdrs s.rules.qers
  { s with rules := { s.rules with pdrs := marked.1, qers := marked.2 } }

end Upf
