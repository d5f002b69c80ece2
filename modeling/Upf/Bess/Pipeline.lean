import Upf.Bess.ExactMatch
import Upf.Bess.Qos
import Upf.Lib.Run

/-!
# The pipeline

The four match modules as `up4.bess` configures them, and the commands of the
agent as they arrive at them.

A packet first meets `pdrLookup`, which writes the identifiers of its PDR, its
session, its first QER and its FAR to metadata.  `appQERLookup` then looks up
the QER of the session and direction, `sessionQERLookup` the session and
direction, and `farLookup` the FAR of the session.
-/

namespace Upf.Bess

open Lib Option

/-- Metadata attributes the match modules read or write. -/
inductive Attr where
  | srcIface
  | tunnelIpv4Dst
  | teid
  | srcIp
  | dstIp
  | srcPort
  | dstPort
  | ipProto
  | pdrId
  | fseid
  | ctrId
  | qerId
  | farId
  | qfi
  | action
  | tunnelOutType
  | tunnelOutSrcIp4addr
  | tunnelOutDstIp4addr
  | tunnelOutTeid
  | tunnelOutUdpPort
deriving DecidableEq

def attrField (a : Attr) (numBytes : Nat) : Field Attr := { position := .attr a, size := numBytes }

def pdrFailGate : GateIdx := 2
def farFailGate : GateIdx := 2
def qerFailGate : GateIdx := 4

def pdrLookupFields : List (Field Attr) :=
  [ attrField .srcIface 1, attrField .tunnelIpv4Dst 4, attrField .teid 4, attrField .srcIp 4,
    attrField .dstIp 4, attrField .srcPort 2, attrField .dstPort 2, attrField .ipProto 1 ]

def pdrLookupValues : List (Field Attr) :=
  [ attrField .pdrId 4, attrField .fseid 8, attrField .ctrId 4, attrField .qerId 4,
    attrField .farId 4 ]

def appQERLookupFields : List (Field Attr) :=
  [attrField .srcIface 1, attrField .qerId 4, attrField .fseid 8]

def sessionQERLookupFields : List (Field Attr) := [attrField .srcIface 1, attrField .fseid 8]

def farLookupFields : List (Field Attr) := [attrField .farId 4, attrField .fseid 8]

def farLookupValues : List (Field Attr) :=
  [ attrField .action 1, attrField .tunnelOutType 1, attrField .tunnelOutSrcIp4addr 4,
    attrField .tunnelOutDstIp4addr 4, attrField .tunnelOutTeid 4, attrField .tunnelOutUdpPort 2 ]

structure Modules where
  pdrLookup : WildcardMatch Attr :=
    { fields := pdrLookupFields, values := pdrLookupValues, defaultGate := pdrFailGate }
  appQERLookup : Qos Attr :=
    { fields := appQERLookupFields, values := [attrField .qfi 1], defaultGate := qerFailGate }
  sessionQERLookup : Qos Attr :=
    { fields := sessionQERLookupFields, values := [], defaultGate := qerFailGate }
  farLookup : ExactMatch Attr :=
    { fields := farLookupFields.map .full, values := farLookupValues,
      defaultGate := farFailGate }

namespace Modules

def qos (mods : Modules) : QosTable → Qos Attr
  | .appQERLookup => mods.appQERLookup
  | .sessionQERLookup => mods.sessionQERLookup

def setQos (mods : Modules) (table : QosTable) (qos : Qos Attr) : Modules :=
  match table with
  | .appQERLookup => { mods with appQERLookup := qos }
  | .sessionQERLookup => { mods with sessionQERLookup := qos }

/-- The layout is the one `up4.bess` gives the modules. -/
structure Configured (mods : Modules) : Prop where
  pdrFields : mods.pdrLookup.fields = pdrLookupFields
  pdrValues : mods.pdrLookup.values = pdrLookupValues
  appFields : mods.appQERLookup.fields = appQERLookupFields
  farFields : mods.farLookup.fields = farLookupFields.map .full

end Modules

/-- What the modules leave to the libraries below them. -/
structure Libraries where
  wmRoom : WmTable → List UInt8 → Bool
  emRoom : ExactMatchRules → List UInt8 → Bool
  qos : QosEnv

def Libraries.willing : Libraries where
  wmRoom _ _ := true
  emRoom _ _ := true
  qos := { profileConfig := fun _ => .ok (), room := fun _ _ => true }

namespace Modules

variable (lib : Libraries)

def command (c : Command) (mods : Modules) : Except Errno Unit × Modules :=
  match c with
  | .pdrLookupAdd arg =>
    let (answer, wm) := mods.pdrLookup.commandAdd lib.wmRoom arg
    (answer, { mods with pdrLookup := wm })
  | .pdrLookupDelete arg =>
    let (answer, wm) := mods.pdrLookup.commandDelete arg
    (answer, { mods with pdrLookup := wm })
  | .farLookupAdd arg =>
    let (answer, em) := mods.farLookup.commandAdd lib.emRoom arg
    (answer, { mods with farLookup := em })
  | .farLookupDelete arg =>
    let (answer, em) := mods.farLookup.commandDelete arg
    (answer, { mods with farLookup := em })
  | .qerLookupAdd table arg =>
    let (answer, qos) := (mods.qos table).commandAdd lib.qos arg
    (answer, mods.setQos table qos)
  | .qerLookupDelete table arg =>
    let (answer, qos) := (mods.qos table).commandDelete arg
    (answer, mods.setQos table qos)
  | .gtpuPathMonitoring _ _ => (.ok (), mods)

def step (c : Command) (mods : Modules) : Option Modules :=
  match mods.command lib c with
  | (.ok (), mods) => some mods
  | (.error _, _) => none

/-- What a command that succeeds does to its module. -/
inductive Stepped (mods : Modules) : Command → Modules → Prop where
  | pdrAdd (arg : WildcardMatchCommandAddArg) (tuples : List WmTuple) :
      Stepped mods (.pdrLookupAdd arg)
        { mods with pdrLookup := { mods.pdrLookup with tuples } }
  | pdrDelete (arg : WildcardMatchCommandDeleteArg) (tuples : List WmTuple) :
      Stepped mods (.pdrLookupDelete arg)
        { mods with pdrLookup := { mods.pdrLookup with tuples } }
  | farAdd (arg : ExactMatchCommandAddArg) (key : List UInt8) (value : ValueTuple)
      (hrule : mods.farLookup.rule arg = .ok (key, value)) :
      Stepped mods (.farLookupAdd arg) { mods with
        farLookup := { mods.farLookup with table := mods.farLookup.table.insert key value } }
  | farDelete (arg : ExactMatchCommandDeleteArg) (key : List UInt8)
      (hkey : mods.farLookup.gatherKey arg.fields = .ok key) :
      Stepped mods (.farLookupDelete arg) { mods with
        farLookup := { mods.farLookup with table := mods.farLookup.table.erase key } }
  | qerAdd (table : QosTable) (arg : QosCommandAddArg) (key : List UInt8) (e : QosEntry)
      (hentry : (mods.qos table).entry lib.qos arg = .ok (key, e)) :
      Stepped mods (.qerLookupAdd table arg)
        (mods.setQos table
          { mods.qos table with table := (mods.qos table).table.insert key e })
  | qerDelete (table : QosTable) (arg : QosCommandDeleteArg) (key : List UInt8)
      (hkey : (mods.qos table).extractKey arg.fields = .ok key) :
      Stepped mods (.qerLookupDelete table arg)
        (mods.setQos table { mods.qos table with table := (mods.qos table).table.erase key })
  | monitoring (method : UpfMsgType) (gnbIp : UInt32) :
      Stepped mods (.gtpuPathMonitoring method gnbIp) mods

variable {lib : Libraries} {c : Command} {mods mods' : Modules}

theorem step_cases (h : mods.step lib c = some mods') : Stepped lib mods c mods' := by
  unfold step at h
  cases c with
  | pdrLookupAdd arg =>
    rcases WildcardMatch.commandAdd_layout lib.wmRoom arg mods.pdrLookup with ⟨tuples, hlayout⟩
    rcases hcmd : mods.pdrLookup.commandAdd lib.wmRoom arg with ⟨answer | answer, wm⟩
    · simp [command, hcmd] at h
    · rw [hcmd] at hlayout
      simp only [command, hcmd, some.injEq, hlayout] at h
      exact h ▸ .pdrAdd arg tuples
  | pdrLookupDelete arg =>
    rcases WildcardMatch.commandDelete_layout arg mods.pdrLookup with ⟨tuples, hlayout⟩
    rcases hcmd : mods.pdrLookup.commandDelete arg with ⟨answer | answer, wm⟩
    · simp [command, hcmd] at h
    · rw [hcmd] at hlayout
      simp only [command, hcmd, some.injEq, hlayout] at h
      exact h ▸ .pdrDelete arg tuples
  | farLookupAdd arg =>
    rcases hcmd : mods.farLookup.commandAdd lib.emRoom arg with ⟨answer | answer, em⟩
    · simp [command, hcmd] at h
    · rcases ExactMatch.commandAdd_ok hcmd with ⟨key, value, hrule, rfl⟩
      simp only [command, hcmd, some.injEq] at h
      exact h ▸ .farAdd arg key value hrule
  | farLookupDelete arg =>
    rcases hcmd : mods.farLookup.commandDelete arg with ⟨answer | answer, em⟩
    · simp [command, hcmd] at h
    · rcases ExactMatch.commandDelete_ok hcmd with ⟨key, hkey, rfl⟩
      simp only [command, hcmd, some.injEq] at h
      exact h ▸ .farDelete arg key hkey
  | qerLookupAdd table arg =>
    rcases hcmd : (mods.qos table).commandAdd lib.qos arg with ⟨answer | answer, qos⟩
    · simp [command, hcmd] at h
    · rcases Qos.commandAdd_ok hcmd with ⟨key, e, hentry, rfl⟩
      simp only [command, hcmd, some.injEq] at h
      exact h ▸ .qerAdd table arg key e hentry
  | qerLookupDelete table arg =>
    rcases hcmd : (mods.qos table).commandDelete arg with ⟨answer | answer, qos⟩
    · simp [command, hcmd] at h
    · rcases Qos.commandDelete_ok hcmd with ⟨key, hkey, rfl⟩
      simp only [command, hcmd, some.injEq] at h
      exact h ▸ .qerDelete table arg key hkey
  | gtpuPathMonitoring method gnbIp =>
    simp only [command, some.injEq] at h
    exact h ▸ .monitoring method gnbIp

theorem Configured.step (hconf : mods.Configured) (h : mods.step lib c = some mods') :
    mods'.Configured := by
  rcases hconf with ⟨hpf, hpv, haf, hff⟩
  cases step_cases h with
  | qerAdd table => cases table <;> exact ⟨hpf, hpv, haf, hff⟩
  | qerDelete table => cases table <;> exact ⟨hpf, hpv, haf, hff⟩
  | _ => exact ⟨hpf, hpv, haf, hff⟩

end Modules

end Upf.Bess
