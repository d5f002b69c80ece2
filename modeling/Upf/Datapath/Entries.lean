import Upf.Datapath.Commands

/-!
# The entries of a rule set

What the match tables hold for a set of rules once its write batch is through,
as a list of keys and entries, and how the commands of a batch relate to that
list.
-/

namespace Upf

open Lib List Function

def pdrKey (p : Pdr) (r : PortRangeTernaryCartesianProduct) : RuleKey :=
  .pdrLookup (matchValues p r) (matchMasks p r)

def pdrEntry (p : Pdr) : RuleEntry :=
  .wildcardMatch p.needDecap.toUInt64 (maxUint32 - p.precedence).toNat (matchValuesv p)

def portRules (p : Pdr) : List PortRangeTernaryCartesianProduct :=
  PortRange.product p.appFilter.srcPortRange p.appFilter.dstPortRange

def pdrEntries (p : Pdr) : List (RuleKey × RuleEntry) :=
  (portRules p).map fun r => (pdrKey p r, pdrEntry p)

/-- The entry of a FAR: its action, tunnel type, source, destination, TEID and port, under its
ID and F-SEID. -/
def farEntry (f : Far) : RuleKey × RuleEntry :=
  (.farLookup [intEnc f.farID.toUInt64, intEnc f.fseID],
    .exactMatch f.tunnelType.toUInt64
      [ intEnc (setActionValue f).toUInt64, intEnc f.tunnelType.toUInt64,
        intEnc f.tunnelIP4Src.toUInt64, intEnc f.tunnelIP4Dst.toUInt64,
        intEnc f.tunnelTEID.toUInt64, intEnc f.tunnelPort.toUInt64 ])

def qerEntry (rates : QosRates) (srcIface : UInt8) (q : Qer) : RuleKey × RuleEntry :=
  (.qerLookup q.table (qerFields srcIface q),
    .qos rates.gate rates.cir rates.pir rates.cbs rates.pbs rates.ebs (qerValues q))

def qerEntries (conf : BessConf) (q : Qer) : List (RuleKey × RuleEntry) :=
  [ qerEntry (qosRates conf q.qfi q.ulStatus q.ulMbr q.ulGbr) access q,
    qerEntry (qosRates conf q.qfi q.dlStatus q.dlMbr q.dlGbr) core q ]

def PacketForwardingRules.entries (conf : BessConf) (rules : PacketForwardingRules) :
    List (RuleKey × RuleEntry) :=
  rules.pdrs.flatMap pdrEntries ++ rules.fars.map farEntry ++
    rules.qers.flatMap (qerEntries conf)

variable {e : RuleEntry} {seid : UInt64}

theorem mem_pdrEntries {p : Pdr} {k : RuleKey} :
    (k, e) ∈ pdrEntries p ↔ e = pdrEntry p ∧ ∃ r ∈ portRules p, k = pdrKey p r := by
  simp only [pdrEntries, mem_map, Prod.mk.injEq]
  constructor
  · rintro ⟨r, hr, rfl, rfl⟩
    exact ⟨rfl, r, hr, rfl⟩
  · rintro ⟨rfl, r, hr, rfl⟩
    exact ⟨r, hr, rfl, rfl⟩

theorem mem_entries {conf : BessConf} {rules : PacketForwardingRules}
    {x : RuleKey × RuleEntry} :
    x ∈ rules.entries conf ↔
      (∃ p ∈ rules.pdrs, x ∈ pdrEntries p) ∨ (∃ f ∈ rules.fars, farEntry f = x) ∨
        ∃ q ∈ rules.qers, x ∈ qerEntries conf q := by
  simp [PacketForwardingRules.entries]

def carriesFSEID (seid : UInt64) : RuleKey → RuleEntry → Prop
  | .pdrLookup _ _, .wildcardMatch _ _ valuesv => valuesv[1]? = some (intEnc seid)
  | .pdrLookup _ _, _ => False
  | .farLookup fields, _ => fields[1]? = some (intEnc seid)
  | .qerLookup .appQERLookup fields, _ => fields[2]? = some (intEnc seid)
  | .qerLookup .sessionQERLookup fields, _ => fields[1]? = some (intEnc seid)

theorem intEnc_inj {a b : UInt64} : intEnc a = intEnc b ↔ a = b := by
  simp [intEnc]

theorem carriesFSEID_pdr {p : Pdr} {k : RuleKey}
    (h : (k, e) ∈ pdrEntries p) : carriesFSEID seid k e ↔ p.fseID = seid := by
  rcases mem_pdrEntries.mp h with ⟨rfl, r, -, rfl⟩
  change some (intEnc p.fseID) = some (intEnc seid) ↔ _
  rw [Option.some.injEq, intEnc_inj]

theorem carriesFSEID_far {f : Far} :
    carriesFSEID seid (farEntry f).1 e ↔ f.fseID = seid := by
  simp [carriesFSEID, farEntry, intEnc_inj]

theorem carriesFSEID_qerLookup {q : Qer} {srcIface : UInt8} :
    carriesFSEID seid (.qerLookup q.table (qerFields srcIface q)) e ↔ q.fseID = seid := by
  cases hlevel : q.qosLevel <;>
    simp [carriesFSEID, Qer.table, qerFields, hlevel, intEnc_inj]

theorem carriesFSEID_qer {conf : BessConf} {q : Qer} {k : RuleKey}
    {e' : RuleEntry} (h : (k, e) ∈ qerEntries conf q) :
    carriesFSEID seid k e' ↔ q.fseID = seid := by
  simp only [qerEntries, qerEntry, mem_cons, Prod.mk.injEq, not_mem_nil,
    or_false] at h
  rcases h with ⟨rfl, -⟩ | ⟨rfl, -⟩ <;> exact carriesFSEID_qerLookup

section Ops

variable (conf : BessConf)

def workerOps (w : Except GoError (List Command)) : List (Table.Op RuleKey RuleEntry) :=
  (w.toOption.getD []).filterMap Command.op

theorem createPortRangeCartesianProduct_cases (p : Pdr) :
    (createPortRangeCartesianProduct p.appFilter.srcPortRange p.appFilter.dstPortRange =
        .ok (portRules p)) ∨
      ((∃ e, createPortRangeCartesianProduct p.appFilter.srcPortRange p.appFilter.dstPortRange =
        .error e) ∧ portRules p = []) := by
  unfold portRules PortRange.product
  cases createPortRangeCartesianProduct p.appFilter.srcPortRange p.appFilter.dstPortRange with
  | error e => exact .inr ⟨⟨e, rfl⟩, rfl⟩
  | ok => exact .inl rfl

theorem workerOps_addPDR (p : Pdr) : workerOps (addPDR p) = Table.puts (pdrEntries p) := by
  rcases createPortRangeCartesianProduct_cases p with hok | ⟨⟨e, herr⟩, hnone⟩
  · simp only [workerOps, addPDR, hok, Except.map, Except.toOption, Option.getD_some,
      filterMap_map, Table.puts, pdrEntries, map_map]
    rw [← filterMap_eq_map]
    rfl
  · simp [workerOps, addPDR, herr, hnone, Except.map, Except.toOption, Table.puts, pdrEntries]

theorem workerOps_delPDR (p : Pdr) :
    workerOps (delPDR p) = Table.dels ((pdrEntries p).map Prod.fst) := by
  rcases createPortRangeCartesianProduct_cases p with hok | ⟨⟨e, herr⟩, hnone⟩
  · simp only [workerOps, delPDR, hok, Except.map, Except.toOption, Option.getD_some,
      filterMap_map, Table.dels, pdrEntries, map_map]
    rw [← filterMap_eq_map]
    rfl
  · simp [workerOps, delPDR, herr, hnone, Except.map, Except.toOption, Table.dels, pdrEntries]

theorem workerOps_addFAR (f : Far) :
    workerOps (.ok (addFAR conf f)) = Table.puts [farEntry f] := by
  unfold addFAR pathMonitoring
  split <;> rfl

theorem workerOps_delFAR (f : Far) :
    workerOps (.ok (delFAR conf f)) = Table.dels [(farEntry f).1] := by
  unfold delFAR pathMonitoring
  split <;> rfl

theorem workerOps_addQER (q : Qer) :
    workerOps (.ok (addQER conf q)) = Table.puts (qerEntries conf q) := rfl

theorem workerOps_delQER (q : Qer) :
    workerOps (.ok (delQER q)) = Table.dels ((qerEntries conf q).map Prod.fst) := rfl

theorem filterMap_op_commands (method : UpfMsgType) (rules : PacketForwardingRules) :
    (commands conf method rules).filterMap Command.op =
      (workers conf method rules).flatMap workerOps := by
  simp only [commands, filterMap_flatMap]
  rfl

theorem commands_write_ops {method : UpfMsgType} (hmethod : method ≠ .del)
    (rules : PacketForwardingRules) :
    (commands conf method rules).filterMap Command.op = Table.puts (rules.entries conf) := by
  rw [filterMap_op_commands]
  have hworkers : workers conf method rules =
      rules.pdrs.map addPDR ++ rules.fars.map (fun f => .ok (addFAR conf f)) ++
        rules.qers.map (fun q => .ok (addQER conf q)) := by
    cases method with
    | del => exact absurd rfl hmethod
    | _ => rfl
  simp only [hworkers, flatMap_append, flatMap_map, workerOps_addPDR,
    workerOps_addFAR, workerOps_addQER, Table.puts, PacketForwardingRules.entries,
    map_append, map_flatMap, map_map, map_cons, map_nil]
  simp [← map_eq_flatMap, comp_def]

theorem commands_del_ops (rules : PacketForwardingRules) :
    (commands conf .del rules).filterMap Command.op =
      Table.dels ((rules.entries conf).map Prod.fst) := by
  rw [filterMap_op_commands]
  simp only [workers, flatMap_append, flatMap_map, workerOps_delPDR,
    workerOps_delFAR, workerOps_delQER conf, Table.dels, PacketForwardingRules.entries,
    map_append, map_flatMap, map_map, map_cons, map_nil]
  simp [← map_eq_flatMap, comp_def]

end Ops

theorem keys_of_occupiesSameEntryAs {p other : Pdr} (h : p.occupiesSameEntryAs other) :
    (pdrEntries p).map Prod.fst = (pdrEntries other).map Prod.fst := by
  simp only [Pdr.occupiesSameEntryAs, Bool.and_eq_true, beq_iff_eq] at h
  rcases h with ⟨⟨⟨⟨⟨⟨⟨⟨⟨⟨⟨⟨⟨h₁, h₂⟩, h₃⟩, h₄⟩, h₅⟩, h₆⟩, h₇⟩, h₈⟩, h₉⟩, h₁₀⟩, h₁₁⟩, h₁₂⟩,
    hsrc⟩, hdst⟩
  have hports : portRules p = portRules other := PortRange.sameMatch_product hsrc hdst
  simp only [pdrEntries, map_map, hports]
  apply map_congr_left
  intro r _
  simp [pdrKey, matchValues, matchMasks, h₁, h₂, h₃, h₄, h₅, h₆, h₇, h₈, h₉, h₁₀, h₁₁, h₁₂]

end Upf
