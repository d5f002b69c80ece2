import Upf.Pfcp.Rules

/-!
# Reading FARs and QERs from messages

`parse_far.go` and `parse_qer.go`.  Both are pure.  They differ in what
they forgive: a FAR fails on its ID, its action and its parameter group, and
skips parameters that do not decode; a QER fails on its ID alone, and any other
field that does not decode is zero.
-/

namespace Upf

structure OuterHeaderCreationFields where
  teid : UInt32
  ipv4Address : IP
deriving DecidableEq

/-- The forwarding parameters that are read. -/
inductive FwdIE where
  | outerHeaderCreation (fields : Decoded OuterHeaderCreationFields)
  | destinationInterface (value : Decoded UInt8)
  | pfcpSMReqFlags (flags : Decoded UInt8)
  | other

structure FarIE where
  farID : Decoded UInt32
  applyAction : Decoded (List UInt8)
  forwardingParameters : Decoded (List FwdIE)
  updateForwardingParameters : Decoded (List FwdIE)

structure QerIE where
  qerID : Decoded UInt32
  qfi : Decoded UInt8
  gateStatusUL : Decoded UInt8
  gateStatusDL : Decoded UInt8
  mbrUL : Decoded UInt64
  mbrDL : Decoded UInt64
  gbrUL : Decoded UInt64
  gbrDL : Decoded UInt64

/-- A FAR without forwarding parameters, for evaluation. -/
def FarIE.sample (farID : UInt32) (action : UInt8) : FarIE where
  farID := .ok farID
  applyAction := .ok [action]
  forwardingParameters := .ok []
  updateForwardingParameters := .ok []

/-- A QER with one uplink rate and no guaranteed rates, for evaluation. -/
def QerIE.sample (qerID : UInt32) (mbrUL : UInt64) : QerIE where
  qerID := .ok qerID
  qfi := .ok 9
  gateStatusUL := .ok 0
  gateStatusDL := .ok 0
  mbrUL := .ok mbrUL
  mbrDL := .ok mbrUL
  gbrUL := .ok 0
  gbrDL := .ok 0

inductive Operation where
  | create
  | update
deriving DecidableEq

/-- Addresses of this node a FAR is given as tunnel source. -/
structure NodeAddresses where
  accessIP : IP
  coreIP : IP

def parseFARBasicFields (f : Far) (farIE : FarIE) (op : Operation) :
    Except Fault (Far × List FwdIE) :=
  match farIE.farID, farIE.applyAction with
  | .error e, _ => .error (.err (.decode e))
  | .ok _, .error e => .error (.err (.decode e))
  -- The action is read at index zero whatever its length.
  | .ok _, .ok [] => .error .panicked
  | .ok farID, .ok (action :: rest) =>
    if action = 0 then
      .error (.err (.invalidArgument "FAR Action" (.bytes (action :: rest))))
    else
      let f := { f with farID, applyAction := action }
      if action &&& actionForward ≠ 0 then
        let params :=
          match op with
          | .create => farIE.forwardingParameters
          | .update => farIE.updateForwardingParameters
        match params with
        | .error e => .error (.err (.decode e))
        | .ok fwdIEs => .ok (f, fwdIEs)
      else .ok (f, [])

/-- One forwarding parameter.  A Destination Interface that does not decode
still overwrites the field, with zero. -/
def applyFwdIE (upf : NodeAddresses) (f : Far) : FwdIE → Far
  | .outerHeaderCreation (.ok ohcFields) =>
    { f with
      tunnelTEID := ohcFields.teid
      tunnelIP4Dst := ip2int ohcFields.ipv4Address
      tunnelType := 1
      tunnelPort := tunnelGTPUPort }
  | .outerHeaderCreation (.error _) => f
  | .destinationInterface (.ok dstIntf) =>
    let f := { f with dstIntf }
    if dstIntf = dstInterfaceAccess then { f with tunnelIP4Src := ip2int upf.accessIP }
    else if dstIntf = dstInterfaceCore then { f with tunnelIP4Src := ip2int upf.coreIP }
    else f
  | .destinationInterface (.error _) => { f with dstIntf := 0 }
  | .pfcpSMReqFlags (.ok smReqFlags) =>
    if has2ndBit smReqFlags then { f with sendEndMarker := true } else f
  | .pfcpSMReqFlags (.error _) => f
  | .other => f

def parseFAR (farIE : FarIE) (fseid : UInt64) (upf : NodeAddresses) (op : Operation) :
    Except Fault Far :=
  match parseFARBasicFields { fseID := fseid } farIE op with
  | .error f => .error f
  | .ok (f, fwdIEs) => .ok (fwdIEs.foldl (applyFwdIE upf) { f with sendEndMarker := false })

theorem applyFwdIE_ids (upf : NodeAddresses) (f : Far) (ie : FwdIE) :
    (applyFwdIE upf f ie).fseID = f.fseID ∧ (applyFwdIE upf f ie).farID = f.farID := by
  unfold applyFwdIE
  split <;> try exact ⟨rfl, rfl⟩
  · dsimp only
    split_ifs <;> exact ⟨rfl, rfl⟩
  · split_ifs <;> exact ⟨rfl, rfl⟩

theorem foldl_applyFwdIE_ids (upf : NodeAddresses) (f : Far) (ies : List FwdIE) :
    (ies.foldl (applyFwdIE upf) f).fseID = f.fseID ∧
      (ies.foldl (applyFwdIE upf) f).farID = f.farID := by
  induction ies generalizing f with
  | nil => exact ⟨rfl, rfl⟩
  | cons ie rest ih =>
    have hie := applyFwdIE_ids upf f ie
    have hrest := ih (applyFwdIE upf f ie)
    exact ⟨hrest.1.trans hie.1, hrest.2.trans hie.2⟩

theorem parseFAR_spec {farIE : FarIE} {fseid : UInt64} {upf : NodeAddresses} {op : Operation}
    {f : Far} (h : parseFAR farIE fseid upf op = .ok f) :
    f.fseID = fseid ∧ farIE.farID = .ok f.farID := by
  unfold parseFAR at h
  cases hbasic : parseFARBasicFields { fseID := fseid } farIE op with
  | error e => simp [hbasic] at h
  | ok read =>
    simp only [hbasic, Except.ok.injEq] at h
    have hids := foldl_applyFwdIE_ids upf { read.1 with sendEndMarker := false } read.2
    rw [← h, hids.1, hids.2]
    unfold parseFARBasicFields at hbasic
    split at hbasic
    · simp at hbasic
    · simp at hbasic
    · simp at hbasic
    · rename_i farID action rest hid _
      split at hbasic
      · simp at hbasic
      · dsimp only at hbasic
        split at hbasic
        · split at hbasic
          · simp at hbasic
          · cases hbasic
            exact ⟨rfl, hid⟩
        · cases hbasic
          exact ⟨rfl, hid⟩

def orZero {α : Type} [OfNat α 0] (d : Decoded α) : α :=
  match d with
  | .ok v => v
  | .error _ => 0

def parseQER (ie1 : QerIE) (seid : UInt64) : Except Fault Qer :=
  match ie1.qerID with
  | .error e => .error (.err (.decode e))
  | .ok qerID =>
    .ok
      { qerID
        qfi := orZero ie1.qfi
        ulStatus := orZero ie1.gateStatusUL
        dlStatus := orZero ie1.gateStatusDL
        ulMbr := orZero ie1.mbrUL
        dlMbr := orZero ie1.mbrDL
        ulGbr := orZero ie1.gbrUL
        dlGbr := orZero ie1.gbrDL
        fseID := seid }

theorem parseQER_spec {ie1 : QerIE} {seid : UInt64} {q : Qer} (h : parseQER ie1 seid = .ok q) :
    q.fseID = seid ∧ q.qosLevel = .applicationQos ∧ ie1.qerID = .ok q.qerID := by
  unfold parseQER at h
  cases hid : ie1.qerID with
  | error e => simp [hid] at h
  | ok qerID =>
    simp only [hid, Except.ok.injEq] at h
    rw [← h]
    exact ⟨rfl, rfl, rfl⟩

end Upf
