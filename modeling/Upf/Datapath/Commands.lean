import Upf.Lib.Table
import Upf.Pfcp.Rules

/-!
# From rules to datapath commands

`bess.go` turns each rule into commands for the match modules of the
pipeline: a PDR into one `pdrLookup` entry per port rule, a FAR into one
`farLookup` entry, a QER into an uplink and a downlink entry of one of the
two rate tables.  The four modules are seen here as one table whose keys name
the module.

The burst sizes pass through floating point in `calcBurstSizeFromRate`, so
that function is a parameter of the configuration.
-/

namespace Upf

open Lib

/-- A field of a command, as a number or as bytes. -/
inductive FieldData where
  | valueInt (v : UInt64)
  | valueBin (b : List UInt8)
deriving DecidableEq

def intEnc (u : UInt64) : FieldData := .valueInt u

structure WildcardMatchCommandAddArg where
  gate : UInt64
  priority : Int
  values : List FieldData
  masks : List FieldData
  valuesv : List FieldData
deriving DecidableEq

structure WildcardMatchCommandDeleteArg where
  values : List FieldData
  masks : List FieldData
deriving DecidableEq

structure ExactMatchCommandAddArg where
  gate : UInt64
  fields : List FieldData
  values : List FieldData
deriving DecidableEq

structure ExactMatchCommandDeleteArg where
  fields : List FieldData
deriving DecidableEq

structure QosCommandAddArg where
  gate : UInt64
  cir : UInt64
  pir : UInt64
  cbs : UInt64
  pbs : UInt64
  ebs : UInt64
  fields : List FieldData
  values : List FieldData
deriving DecidableEq

structure QosCommandDeleteArg where
  fields : List FieldData
deriving DecidableEq

/-- The methods a batch is sent with. -/
inductive UpfMsgType where
  | add
  | mod
  | del
deriving DecidableEq

inductive QosTable where
  | appQERLookup
  | sessionQERLookup
deriving DecidableEq

inductive Command where
  | pdrLookupAdd (arg : WildcardMatchCommandAddArg)
  | pdrLookupDelete (arg : WildcardMatchCommandDeleteArg)
  | farLookupAdd (arg : ExactMatchCommandAddArg)
  | farLookupDelete (arg : ExactMatchCommandDeleteArg)
  | qerLookupAdd (table : QosTable) (arg : QosCommandAddArg)
  | qerLookupDelete (table : QosTable) (arg : QosCommandDeleteArg)
  | gtpuPathMonitoring (method : UpfMsgType) (gnbIp : UInt32)
deriving DecidableEq

inductive RuleKey where
  | pdrLookup (values masks : List FieldData)
  | farLookup (fields : List FieldData)
  | qerLookup (table : QosTable) (fields : List FieldData)
deriving DecidableEq

/-- What a match module keeps under a key. -/
inductive RuleEntry where
  | wildcardMatch (gate : UInt64) (priority : Int) (valuesv : List FieldData)
  | exactMatch (gate : UInt64) (values : List FieldData)
  | qos (gate cir pir cbs pbs ebs : UInt64) (values : List FieldData)
deriving DecidableEq

abbrev Tables := Table RuleKey RuleEntry

def Command.op : Command → Option (Table.Op RuleKey RuleEntry)
  | .pdrLookupAdd arg =>
    some (.put (.pdrLookup arg.values arg.masks)
      (.wildcardMatch arg.gate arg.priority arg.valuesv))
  | .pdrLookupDelete arg => some (.del (.pdrLookup arg.values arg.masks))
  | .farLookupAdd arg => some (.put (.farLookup arg.fields) (.exactMatch arg.gate arg.values))
  | .farLookupDelete arg => some (.del (.farLookup arg.fields))
  | .qerLookupAdd table arg =>
    some (.put (.qerLookup table arg.fields)
      (.qos arg.gate arg.cir arg.pir arg.cbs arg.pbs arg.ebs arg.values))
  | .qerLookupDelete table arg => some (.del (.qerLookup table arg.fields))
  | .gtpuPathMonitoring _ _ => none

def matchValues (p : Pdr) (r : PortRangeTernaryCartesianProduct) : List FieldData :=
  [ intEnc p.srcIface.toUInt64, intEnc p.tunnelIP4Dst.toUInt64, intEnc p.tunnelTEID.toUInt64,
    intEnc p.appFilter.srcIP.toUInt64, intEnc p.appFilter.dstIP.toUInt64,
    intEnc r.srcPort.toUInt64, intEnc r.dstPort.toUInt64, intEnc p.appFilter.proto.toUInt64 ]

def matchMasks (p : Pdr) (r : PortRangeTernaryCartesianProduct) : List FieldData :=
  [ intEnc p.srcIfaceMask.toUInt64, intEnc p.tunnelIP4DstMask.toUInt64,
    intEnc p.tunnelTEIDMask.toUInt64, intEnc p.appFilter.srcIPMask.toUInt64,
    intEnc p.appFilter.dstIPMask.toUInt64, intEnc r.srcMask.toUInt64,
    intEnc r.dstMask.toUInt64, intEnc p.appFilter.protoMask.toUInt64 ]

def firstQer (p : Pdr) : UInt32 := p.qerIDList.head?.getD 0

def matchValuesv (p : Pdr) : List FieldData :=
  [ intEnc p.pdrID.toUInt64, intEnc p.fseID, intEnc p.ctrID.toUInt64,
    intEnc (firstQer p).toUInt64, intEnc p.farID.toUInt64 ]

def maxUint32 : UInt32 := 0xFFFFFFFF

def addPDRArg (p : Pdr) (r : PortRangeTernaryCartesianProduct) : WildcardMatchCommandAddArg where
  gate := p.needDecap.toUInt64
  priority := (maxUint32 - p.precedence).toNat
  values := matchValues p r
  masks := matchMasks p r
  valuesv := matchValuesv p

/-- Commands of the worker that writes a PDR, unless its ports do not translate. -/
def addPDR (p : Pdr) : Except GoError (List Command) :=
  (createPortRangeCartesianProduct p.appFilter.srcPortRange p.appFilter.dstPortRange).map
    fun portRules => portRules.map fun r => .pdrLookupAdd (addPDRArg p r)

def delPDR (p : Pdr) : Except GoError (List Command) :=
  (createPortRangeCartesianProduct p.appFilter.srcPortRange p.appFilter.dstPortRange).map
    fun portRules => portRules.map fun r =>
      .pdrLookupDelete { values := matchValues p r, masks := matchMasks p r }

def farForwardD : UInt8 := 0x0
def farForwardU : UInt8 := 0x1
def farDrop : UInt8 := 0x2
def farNotify : UInt8 := 0x4

def setActionValue (f : Far) : UInt8 :=
  if f.applyAction &&& actionForward ≠ 0 then
    if f.dstIntf = dstInterfaceAccess then farForwardD
    else if f.dstIntf = dstInterfaceCore ∨ f.dstIntf = dstInterfaceSGiLANN6LAN then farForwardU
    else farDrop
  else if f.applyAction &&& actionDrop ≠ 0 then farDrop
  else if f.applyAction &&& actionBuffer ≠ 0 then farNotify
  else if f.applyAction &&& actionNotify ≠ 0 then farNotify
  else farDrop

def farFields (f : Far) : List FieldData := [intEnc f.farID.toUInt64, intEnc f.fseID]

def addFARArg (f : Far) : ExactMatchCommandAddArg where
  gate := f.tunnelType.toUInt64
  fields := farFields f
  values :=
    [ intEnc (setActionValue f).toUInt64, intEnc f.tunnelType.toUInt64,
      intEnc f.tunnelIP4Src.toUInt64, intEnc f.tunnelIP4Dst.toUInt64,
      intEnc f.tunnelTEID.toUInt64, intEnc f.tunnelPort.toUInt64 ]

structure QosConfigVal where
  cbs : UInt32
  ebs : UInt32
  burstDurationMs : UInt32
deriving DecidableEq

/-- What the datapath side of the agent is configured with. -/
structure BessConf where
  /-- Rates by QFI; the entry at zero always exists and is the default. -/
  qciQosMap : UInt8 → Option QosConfigVal
  qciDefault : QosConfigVal
  calcBurstSizeFromRate : UInt64 → UInt64 → UInt64
  enableGtpuPathMonitoring : Bool

/-- A small configuration to evaluate commands under. -/
def BessConf.sample : BessConf where
  qciQosMap _ := none
  qciDefault := { cbs := 50000, ebs := 50000, burstDurationMs := 10 }
  calcBurstSizeFromRate kbps ms := kbps * ms / 8
  enableGtpuPathMonitoring := false

def qerGateMeter : UInt64 := 0
def qerGateStatusDrop : UInt64 := 5
def qerGateUnmeter : UInt64 := 6

def gateStatusOpen : UInt8 := 0

def maxUint64 (x y : UInt64) : UInt64 := if x < y then y else x

/-- Gate and meter parameters of one direction of a QER. -/
structure QosRates where
  gate : UInt64
  cir : UInt64
  pir : UInt64
  cbs : UInt64
  pbs : UInt64
  ebs : UInt64
deriving DecidableEq

/-- The computation `handleUplinkQER` and `handleDownlinkQER` share, from
the status and the rates of one direction. -/
def qosRates (conf : BessConf) (qfi status : UInt8) (mbr gbr : UInt64) : QosRates :=
  let qosVal := (conf.qciQosMap qfi).getD conf.qciDefault
  let burst := fun rate => conf.calcBurstSizeFromRate rate qosVal.burstDurationMs.toUInt64
  let cbs := maxUint64 (burst gbr) qosVal.cbs.toUInt64
  let ebs := maxUint64 (burst mbr) qosVal.ebs.toUInt64
  let pbs := maxUint64 (burst mbr) qosVal.ebs.toUInt64
  if status ≠ gateStatusOpen then { gate := qerGateStatusDrop, cir := 0, pir := 0, cbs, pbs, ebs }
  else if mbr ≠ 0 ∨ gbr ≠ 0 then
    let cir := maxUint64 (gbr * 1000 / 8) 1
    let pir := maxUint64 (mbr * 1000 / 8) cir
    { gate := qerGateMeter, cir, pir, cbs, pbs, ebs }
  else { gate := qerGateUnmeter, cir := 0, pir := 0, cbs, pbs, ebs }

def Qer.table (q : Qer) : QosTable :=
  match q.qosLevel with
  | .applicationQos => .appQERLookup
  | .sessionQos => .sessionQERLookup

/-- The key of one direction.  A session-level key does not name the QER. -/
def qerFields (srcIface : UInt8) (q : Qer) : List FieldData :=
  match q.qosLevel with
  | .applicationQos => [intEnc srcIface.toUInt64, intEnc q.qerID.toUInt64, intEnc q.fseID]
  | .sessionQos => [intEnc srcIface.toUInt64, intEnc q.fseID]

def qerValues (q : Qer) : List FieldData :=
  match q.qosLevel with
  | .applicationQos => [intEnc q.qfi.toUInt64]
  | .sessionQos => []

def addQERArg (rates : QosRates) (srcIface : UInt8) (q : Qer) : QosCommandAddArg where
  gate := rates.gate
  cir := rates.cir
  pir := rates.pir
  cbs := rates.cbs
  pbs := rates.pbs
  ebs := rates.ebs
  fields := qerFields srcIface q
  values := qerValues q

def handleUplinkQER (conf : BessConf) (q : Qer) : Command :=
  .qerLookupAdd q.table
    (addQERArg (qosRates conf q.qfi q.ulStatus q.ulMbr q.ulGbr) access q)

def handleDownlinkQER (conf : BessConf) (q : Qer) : Command :=
  .qerLookupAdd q.table
    (addQERArg (qosRates conf q.qfi q.dlStatus q.dlMbr q.dlGbr) core q)

section Batch

variable (conf : BessConf)

def pathMonitoring (method : UpfMsgType) (f : Far) : List Command :=
  if conf.enableGtpuPathMonitoring then [.gtpuPathMonitoring method f.tunnelIP4Dst] else []

def addFAR (f : Far) : List Command :=
  .farLookupAdd (addFARArg f) :: pathMonitoring conf .add f

def delFAR (f : Far) : List Command :=
  .farLookupDelete { fields := farFields f } :: pathMonitoring conf .del f

def addQER (q : Qer) : List Command := [handleUplinkQER conf q, handleDownlinkQER conf q]

def delQER (q : Qer) : List Command :=
  [ .qerLookupDelete q.table { fields := qerFields access q },
    .qerLookupDelete q.table { fields := qerFields core q } ]

/-- The workers of a batch, one for each rule: its commands in order, or the
error that kept it from translating its rule. -/
def workers (method : UpfMsgType) (rules : PacketForwardingRules) :
    List (Except GoError (List Command)) :=
  match method with
  | .add | .mod =>
    rules.pdrs.map addPDR ++ rules.fars.map (fun f => .ok (addFAR conf f)) ++
      rules.qers.map fun q => .ok (addQER conf q)
  | .del =>
    rules.pdrs.map delPDR ++ rules.fars.map (fun f => .ok (delFAR conf f)) ++
      rules.qers.map fun q => .ok (delQER q)

def batchRules (method : UpfMsgType) (rules updated : PacketForwardingRules) :
    PacketForwardingRules :=
  match method with
  | .mod => updated
  | .add | .del => rules

def commands (method : UpfMsgType) (rules : PacketForwardingRules) : List Command :=
  (workers conf method rules).flatMap fun w => w.toOption.getD []

end Batch

end Upf
