import Upf.Lib.Loop
import Upf.Pfcp.FlowDesc
import Upf.Pfcp.IPPool
import Upf.Pfcp.Rules

/-!
# Reading PDRs from messages

The second half of `parse_pdr.go`.  A grouped IE is a record of what the
accessors of the message library return for it, so a decoding error can sit at
any of them.  Reading a PDR is not pure: a UE address IE that leaves the choice
to this node takes an address from the pool while it is read.

A fault such as a missing network or an absent pool is the outcome
`Fault.panicked`, not an error.
-/

namespace Upf

structure UEIPAddressFields where
  flags : UInt8
  ipv4Address : IP
deriving DecidableEq

structure FTEIDFields where
  teid : UInt32
  hasCh : Bool
  ipv4Address : IP
deriving DecidableEq

inductive PdiIE where
  | ueIPAddress (fields : Decoded UEIPAddressFields)
  | sourceInterface (value : Decoded UInt8)
  | fteid (fields : Decoded FTEIDFields)
  | applicationID (id : Decoded String)
  | sdfFilter (flowDescription : Decoded Text)
  | other

structure PdrIE where
  pdrID : Decoded UInt16
  precedence : Decoded UInt32
  pdi : Decoded (List PdiIE)
  outerHeaderRemovalDescription : Decoded UInt8
  farID : Decoded UInt32
  /-- The QER ID children, once the group itself decodes. -/
  qerIDs : Decoded (List (Decoded UInt32))

def PdrIE.sample (pdrID : UInt16) (teid : UInt32) (qerIDs : List UInt32) : PdrIE where
  pdrID := .ok pdrID
  precedence := .ok 100
  pdi := .ok [.sourceInterface (.ok srcInterfaceAccess),
    .fteid (.ok { teid, hasCh := false, ipv4Address := [198, 18, 0, 1] })]
  outerHeaderRemovalDescription := .ok 0
  farID := .ok 1
  qerIDs := .ok (qerIDs.map .ok)

/-- An application filter as PFD management stores it. -/
structure AppPFD where
  appID : String
  flowDescs : List Text
deriving DecidableEq

abbrev AppPFDs := AList fun _ : String => AppPFD

/-- The choice is this node's unless the IE carries an IPv4 address. -/
def needAllocIP (ueIPaddr : UEIPAddressFields) : Bool :=
  !(has2ndBit ueIPaddr.flags && !has5thBit ueIPaddr.flags)

/-- The last lines of `parseUEAddressIE`: only a four-byte address will do. -/
def setUEAddress (p : Pdr) (ueIP4 : IP) : Except Fault Pdr :=
  if ueIP4.length ≠ 4 then
    .error (.err (.operationFailedWithParam "parse UE Address IE" "IP address length"
      (.num ueIP4.length)))
  else .ok { p with ueAddress := ip2int ueIP4 }

def parseUEAddressIE (p : Pdr) (ueAddrIE : Decoded UEIPAddressFields)
    (ippool : Option IPPool) : Except Fault Pdr × Option IPPool :=
  match ueAddrIE with
  | .error e => (.error (.err (.decode e)), ippool)
  | .ok ueIPaddr =>
    if needAllocIP ueIPaddr then
      match ippool with
      | none => (.error .panicked, none)
      | some pool =>
        match pool.lookupOrAllocIP p.fseID with
        | (.error e, pool) => (.error (.err e), some pool)
        | (.ok ueIP4, pool) => (setUEAddress { p with allocIPFlag := true } ueIP4, some pool)
    else (setUEAddress p ueIPaddr.ipv4Address, ippool)

def parseSourceInterfaceIE (p : Pdr) (srcIfaceIE : Decoded UInt8) : Except Fault Pdr :=
  match srcIfaceIE with
  | .error e => .error (.err (.decode e))
  | .ok srcIface =>
    if srcIface = srcInterfaceCPFunction then
      .error (.err (.unsupported "Source Interface CP Function" (.num srcIface.toNat)))
    else if srcIface = srcInterfaceAccess then
      .ok { p with srcIface := access, srcIfaceMask := 0xFF }
    else if srcIface = srcInterfaceCore then
      .ok { p with srcIface := core, srcIfaceMask := 0xFF }
    else .ok p

def parseFTEID (p : Pdr) (teidIE : Decoded FTEIDFields) : Except Fault Pdr :=
  match teidIE with
  | .error e => .error (.err (.decode e))
  | .ok fteid =>
    if fteid.hasCh then .ok { p with upAllocateFteid := true }
    else if fteid.teid ≠ 0 then
      .ok { p with
        tunnelTEID := fteid.teid
        tunnelTEIDMask := 0xFFFFFFFF
        tunnelIP4Dst := ip2int fteid.ipv4Address
        tunnelIP4DstMask := 0xFFFFFFFF }
    else .ok p

def basicIE (pdiIE : PdiIE) (p : Pdr) (ippool : Option IPPool) :
    Except Fault Pdr × Option IPPool :=
  match pdiIE with
  | .ueIPAddress fields => parseUEAddressIE p fields ippool
  | .sourceInterface value => (parseSourceInterfaceIE p value, ippool)
  | .fteid fields => (parseFTEID p fields, ippool)
  | _ => (.ok p, ippool)

/-- First pass over a PDI.  It stops at the first IE that fails, with what it
has read so far. -/
def processBasicPDI : List PdiIE → Pdr → Option IPPool → (Pdr × Option Fault) × Option IPPool
  | [], p, ippool => ((p, none), ippool)
  | pdiIE :: rest, p, ippool =>
    match basicIE pdiIE p ippool with
    | (.error f, ippool) => ((p, some f), ippool)
    | (.ok p, ippool) => processBasicPDI rest p ippool

/-- The network of an endpoint as a number and a mask; a network that was never
given faults. -/
def Endpoint.netInts (ep : Endpoint) : Except Fault (UInt32 × UInt32) :=
  match ep.ipNet with
  | none => .error .panicked
  | some net =>
    match ipMask2int net.mask with
    | .error f => .error f
    | .ok mask => .ok (ip2int net.ip, mask)

/-- Set the protocol unless the description leaves it open. -/
def ApplicationFilter.setProto (af : ApplicationFilter) (proto : UInt8) : ApplicationFilter :=
  if proto ≠ reservedProto then { af with proto := proto, protoMask := 0xFF } else af

def parseAppFlows (p : Pdr) : List Text → Except Fault Pdr
  | [] => .ok p
  | flowDesc :: rest =>
    match parseFlowDesc flowDesc (ipv4String p.ueAddress) with
    | .error _ => .error (.err .badFilterDesc)
    | .ok ipf =>
      if (p.srcIface = access ∧ ipf.direction = .out) ∨
          (p.srcIface = core ∧ ipf.direction = .in) then do
        let (dstIP, dstIPMask) ← ipf.dst.netInts
        let (srcIP, srcIPMask) ← ipf.src.netInts
        return { p with appFilter := { p.appFilter.setProto ipf.proto with
          dstIP, dstIPMask, srcIP, srcIPMask,
          dstPortRange := ipf.dst.ports, srcPortRange := ipf.src.ports } }
      else parseAppFlows p rest

def parseApplicationID (p : Pdr) (ie : Decoded String) (appPFDs : AppPFDs) :
    Except Fault Pdr :=
  match ie with
  | .error e => .error (.err (.decode e))
  | .ok appID =>
    match appPFDs.lookup appID with
    | none => .error (.err (.notFoundWithParam "Application PFD for ApplicationID"
        "application ID" (.text appID)))
    | some apfd =>
      -- A table entry under another name ends the process.
      if appID ≠ apfd.appID then .error .panicked else parseAppFlows p apfd.flowDescs

/-- Ports on the UE side of an SDF filter are moved to the remote side. -/
def flipPorts (ue remote : PortRange) : PortRange × PortRange :=
  if ue.isWildcardMatch then (ue, remote) else (newWildcardPortRange, ue)

def parseSDFFilter (p : Pdr) (ie : Decoded Text) : Except Fault Pdr :=
  match ie with
  | .error e => .error (.err (.decode e))
  | .ok flowDesc =>
    if flowDesc = [] then
      .error (.err (.operationFailedWithReason "parse SDF Filter" "empty filter description"))
    else
      match parseFlowDesc flowDesc (ipv4String p.ueAddress) with
      | .error _ => .error (.err .badFilterDesc)
      | .ok ipf =>
        let af := p.appFilter.setProto ipf.proto
        if p.srcIface = core then do
          let (dstIP, dstIPMask) ← ipf.dst.netInts
          let (srcIP, srcIPMask) ← ipf.src.netInts
          let (dstPortRange, srcPortRange) := flipPorts ipf.dst.ports ipf.src.ports
          return { p with appFilter := { af with
            dstIP, dstIPMask, srcIP, srcIPMask, dstPortRange, srcPortRange } }
        else if p.srcIface = access then do
          let (srcIP, srcIPMask) ← ipf.dst.netInts
          let (dstIP, dstIPMask) ← ipf.src.netInts
          let (srcPortRange, dstPortRange) := flipPorts ipf.dst.ports ipf.src.ports
          return { p with appFilter := { af with
            dstIP, dstIPMask, srcIP, srcIPMask, dstPortRange, srcPortRange } }
        else .ok { p with appFilter := af }

def filterIE (appPFDs : AppPFDs) (ie2 : PdiIE) (p : Pdr) : Except Fault Pdr :=
  match ie2 with
  | .applicationID id => parseApplicationID p id appPFDs
  | .sdfFilter flowDescription => parseSDFFilter p flowDescription
  | _ => .ok p

def parsePDIFilters (appPFDs : AppPFDs) : List PdiIE → Pdr → Pdr × Option Fault
  | [], p => (p, none)
  | ie2 :: rest, p =>
    match filterIE appPFDs ie2 p with
    | .error f => (p, some f)
    | .ok p => parsePDIFilters appPFDs rest p

def setUEFilter (p : Pdr) : Pdr :=
  if p.isDownlink && p.ueAddress != 0 then
    { p with appFilter := { p.appFilter with dstIP := p.ueAddress, dstIPMask := 0xFFFFFFFF } }
  else if p.isUplink && p.ueAddress != 0 then
    { p with appFilter := { p.appFilter with srcIP := p.ueAddress, srcIPMask := 0xFFFFFFFF } }
  else p

def parsePDI (p : Pdr) (pdiIEs : List PdiIE) (appPFDs : AppPFDs) (ippool : Option IPPool) :
    (Pdr × Option Fault) × Option IPPool :=
  match processBasicPDI pdiIEs p ippool with
  | ((p, some f), ippool) => ((p, some f), ippool)
  | ((p, none), ippool) => (parsePDIFilters appPFDs pdiIEs (setUEFilter p), ippool)

/-- A filter description that does not parse is not held against the PDR; any
other failure is. -/
def fatalPDI : Option Fault → Option Fault
  | some (.err .badFilterDesc) => none
  | f => f

/-- The fields read past the PDI, stored into the PDR. -/
def finishPDR (p : Pdr) (ie1 : PdrIE) (pdrID : UInt16) (precedence : UInt32) :
    Except Fault Pdr :=
  match ie1.farID with
  | .error e => .error (.err (.decode e))
  | .ok farID =>
    match ie1.qerIDs with
    | .error e => .error (.err (.decode e))
    | .ok ies =>
      .ok { p with
        qerIDList := ies.filterMap Except.toOption
        precedence
        pdrID := pdrID.toUInt32
        farID
        needDecap :=
          match ie1.outerHeaderRemovalDescription with
          | .ok 0 => 1
          | _ => 0 }

def parsePDR (ie1 : PdrIE) (seid : UInt64) (appPFDs : AppPFDs) (ippool : Option IPPool) :
    Except Fault Pdr × Option IPPool :=
  match ie1.pdrID, ie1.precedence, ie1.pdi with
  | .error e, _, _ => (.error (.err (.decode e)), ippool)
  | .ok _, .error e, _ => (.error (.err (.decode e)), ippool)
  | .ok _, .ok _, .error e => (.error (.err (.decode e)), ippool)
  | .ok pdrID, .ok precedence, .ok pdi =>
    match parsePDI { fseID := seid } pdi appPFDs ippool with
    | ((p, err), ippool) =>
      match fatalPDI err with
      | some f => (.error f, ippool)
      | none => (finishPDR p ie1 pdrID precedence, ippool)

def chosenAfter (chosen : Bool) : PdiIE → Bool
  | .ueIPAddress (.ok fields) => needAllocIP fields
  | _ => chosen

/-- Whether the last UE address IE of a PDI leaves the choice to this node. -/
def ueAddressChosen (pdiIEs : List PdiIE) : Bool := pdiIEs.foldl chosenAfter false

/-- A PDR that has been read up to some IE: it carries the SEID, an allocation
it recorded is in the pool, and a chosen address is the recorded one. -/
structure ReadSoFar (seid : UInt64) (p : Pdr) (chosen : Bool) (ippool : Option IPPool) :
    Prop where
  fseID : p.fseID = seid
  alloc : p.allocIPFlag = true → (IPPool.leased ippool seid).isSome
  address : chosen = true → ∃ ip, IPPool.leased ippool seid = some ip ∧ p.ueAddress = ip2int ip

variable {appPFDs : AppPFDs} {chosen : Bool} {ies : List PdiIE} {ippool ippool' : Option IPPool}
  {p p' : Pdr} {ie1 : PdrIE} {seid : UInt64}

theorem setUEAddress_eq_ok {ip : IP} (h : setUEAddress p ip = .ok p') :
    p' = { p with ueAddress := ip2int ip } := by
  unfold setUEAddress at h
  split at h
  · cases h
  · exact (Except.ok.inj h).symm

theorem parseUEAddressIE_pool (p : Pdr) (ie : Decoded UEIPAddressFields)
    (ippool : Option IPPool) :
    IPPool.Looked p.fseID ippool (parseUEAddressIE p ie ippool).2 := by
  unfold parseUEAddressIE
  cases ie with
  | error => exact .refl _ _
  | ok fields =>
    by_cases hneed : needAllocIP fields
    · cases ippool with
      | none => simpa [hneed] using IPPool.Looked.refl _ _
      | some pool =>
        right
        refine ⟨pool, rfl, ?_⟩
        rcases hlook : pool.lookupOrAllocIP p.fseID with ⟨_ | _, pool'⟩ <;> simp [hneed, hlook]
    · simpa [hneed] using IPPool.Looked.refl _ _

/-- A UE address is drawn from the pool, or it is the one given. -/
theorem parseUEAddressIE_eq_ok {ie : Decoded UEIPAddressFields}
    (h : parseUEAddressIE p ie ippool = (.ok p', ippool')) :
    ∃ fields ip, ie = .ok fields ∧
      ((∃ (pool pool' : IPPool), needAllocIP fields = true ∧
        pool.lookupOrAllocIP p.fseID = (.ok ip, pool') ∧ ippool' = some pool' ∧
        p' = { p with allocIPFlag := true, ueAddress := ip2int ip }) ∨
      (needAllocIP fields = false ∧ ippool' = ippool ∧
        p' = { p with ueAddress := ip2int ip })) := by
  unfold parseUEAddressIE at h
  cases ie with
  | error => simp at h
  | ok fields =>
    by_cases hneed : needAllocIP fields
    · cases ippool with
      | none => simp [hneed] at h
      | some pool =>
        rcases hlook : pool.lookupOrAllocIP p.fseID with ⟨e | ueIP4, pool'⟩
        · simp [hneed, hlook] at h
        · simp only [hneed, hlook, if_true, Prod.mk.injEq] at h
          exact ⟨fields, ueIP4, rfl,
            .inl ⟨pool, pool', hneed, hlook, h.2.symm, setUEAddress_eq_ok h.1⟩⟩
    · simp only [hneed, Bool.false_eq_true, if_false, Prod.mk.injEq] at h
      exact ⟨fields, _, rfl, .inr ⟨by simpa using hneed, h.2.symm, setUEAddress_eq_ok h.1⟩⟩

theorem parseUEAddressIE_read {ie : Decoded UEIPAddressFields}
    (hread : ReadSoFar seid p chosen ippool)
    (h : parseUEAddressIE p ie ippool = (.ok p', ippool')) :
    ReadSoFar seid p' (chosenAfter chosen (.ueIPAddress ie)) ippool' := by
  rcases parseUEAddressIE_eq_ok h with
    ⟨fields, ip, rfl, ⟨pool, pool', -, hlook, rfl, rfl⟩ | ⟨hneed, rfl, rfl⟩⟩
  · rw [hread.fseID] at hlook
    have hlease : IPPool.leased (some pool') seid = some ip :=
      IPPool.lookup_of_lookupOrAllocIP hlook
    exact ⟨hread.fseID, fun _ => by simp [hlease], fun _ => ⟨ip, hlease, rfl⟩⟩
  · refine ⟨hread.fseID, hread.alloc, fun hchosen => ?_⟩
    simp [chosenAfter, hneed] at hchosen

/-- Two stages of reading one PDR that agree on SEID, allocation flag and
address. -/
structure AddressKept (p p' : Pdr) : Prop where
  fseID : p'.fseID = p.fseID
  allocIPFlag : p'.allocIPFlag = p.allocIPFlag
  ueAddress : p'.ueAddress = p.ueAddress

theorem ReadSoFar.of_kept (h : ReadSoFar seid p chosen ippool) (hkept : AddressKept p p') :
    ReadSoFar seid p' chosen ippool := by
  refine ⟨hkept.fseID.trans h.fseID, ?_, ?_⟩
  · rw [hkept.allocIPFlag]
    exact h.alloc
  · rw [hkept.ueAddress]
    exact h.address

theorem parseSourceInterfaceIE_kept {ie : Decoded UInt8}
    (h : parseSourceInterfaceIE p ie = .ok p') : AddressKept p p' := by
  unfold parseSourceInterfaceIE at h
  cases ie with
  | error => simp at h
  | ok =>
    simp only at h
    split_ifs at h <;> cases h <;> exact ⟨rfl, rfl, rfl⟩

theorem parseFTEID_kept {ie : Decoded FTEIDFields}
    (h : parseFTEID p ie = .ok p') : AddressKept p p' := by
  unfold parseFTEID at h
  cases ie with
  | error => simp at h
  | ok =>
    simp only at h
    split_ifs at h <;> cases h <;> exact ⟨rfl, rfl, rfl⟩

theorem basicIE_pool (ie : PdiIE) (p : Pdr) (ippool : Option IPPool) :
    IPPool.Looked p.fseID ippool (basicIE ie p ippool).2 := by
  cases ie with
  | ueIPAddress fields => exact parseUEAddressIE_pool p fields ippool
  | _ => exact .refl _ _

theorem basicIE_read {ie : PdiIE} (hread : ReadSoFar seid p chosen ippool)
    (h : basicIE ie p ippool = (.ok p', ippool')) :
    ReadSoFar seid p' (chosenAfter chosen ie) ippool' := by
  cases ie with
  | ueIPAddress => exact parseUEAddressIE_read hread h
  | sourceInterface =>
    simp only [basicIE, Prod.mk.injEq] at h
    rcases h with ⟨hp', rfl⟩
    exact hread.of_kept (parseSourceInterfaceIE_kept hp')
  | fteid =>
    simp only [basicIE, Prod.mk.injEq] at h
    rcases h with ⟨hp', rfl⟩
    exact hread.of_kept (parseFTEID_kept hp')
  | _ =>
    simp only [basicIE, Prod.mk.injEq, Except.ok.injEq] at h
    rcases h with ⟨rfl, rfl⟩
    exact hread

theorem processBasicPDI_pool (hread : ReadSoFar seid p chosen ippool) :
    IPPool.Looked seid ippool (processBasicPDI ies p ippool).2 := by
  induction ies generalizing p ippool chosen with
  | nil => exact .refl _ _
  | cons ie rest ih =>
    have hpool := basicIE_pool ie p ippool
    rw [hread.fseID] at hpool
    unfold processBasicPDI
    rcases hie : basicIE ie p ippool with ⟨f | p', ippool'⟩
    · rw [hie] at hpool
      exact hpool
    · rw [hie] at hpool
      exact hpool.trans (ih (basicIE_read hread hie))

theorem processBasicPDI_read (hread : ReadSoFar seid p chosen ippool)
    (h : processBasicPDI ies p ippool = ((p', none), ippool')) :
    ReadSoFar seid p' (ies.foldl chosenAfter chosen) ippool' := by
  induction ies generalizing p ippool chosen with
  | nil =>
    simp only [processBasicPDI, Prod.mk.injEq] at h
    rcases h with ⟨⟨rfl, -⟩, rfl⟩
    exact hread
  | cons ie rest ih =>
    unfold processBasicPDI at h
    rcases hie : basicIE ie p ippool with ⟨f | p₁, ippool₁⟩
    · simp [hie] at h
    · simp only [hie] at h
      exact ih (basicIE_read hread hie) h

theorem setUEAddress_fatal {ip : IP} {f : Fault} (h : setUEAddress p ip = .error f) :
    fatalPDI (some f) = some f := by
  unfold setUEAddress at h
  split at h
  · cases h
    rfl
  · cases h

theorem basicIE_fatal {ie : PdiIE} {f : Fault}
    (h : basicIE ie p ippool = (.error f, ippool')) : fatalPDI (some f) = some f := by
  cases ie with
  | ueIPAddress =>
    simp only [basicIE, parseUEAddressIE] at h
    split at h
    · cases h
      rfl
    · split at h
      · split at h
        · cases h
          rfl
        · rename_i pool
          rcases IPPool.lookupOrAllocIP_cases pool p.fseID with
            ⟨_, _, heq⟩ | ⟨_, _, _, _, heq⟩ | ⟨_, _, heq⟩
          · simp only [heq, Prod.mk.injEq] at h
            exact setUEAddress_fatal h.1
          · simp only [heq, Prod.mk.injEq] at h
            exact setUEAddress_fatal h.1
          · rw [heq] at h
            cases h
            rfl
      · simp only [Prod.mk.injEq] at h
        exact setUEAddress_fatal h.1
  | sourceInterface value =>
    cases value with
    | error =>
      cases h
      rfl
    | ok =>
      simp only [basicIE, parseSourceInterfaceIE, Prod.mk.injEq] at h
      split_ifs at h <;> simp at h
      rw [← h.1]
      rfl
  | fteid fields =>
    cases fields with
    | error =>
      cases h
      rfl
    | ok =>
      simp only [basicIE, parseFTEID, Prod.mk.injEq] at h
      split_ifs at h <;> simp at h
  | _ => simp [basicIE] at h

theorem processBasicPDI_fatal
    {f : Fault} (h : processBasicPDI ies p ippool = ((p', some f), ippool')) :
    fatalPDI (some f) = some f := by
  induction ies generalizing p ippool with
  | nil => simp [processBasicPDI] at h
  | cons ie rest ih =>
    unfold processBasicPDI at h
    rcases hie : basicIE ie p ippool with ⟨f' | p₁, ippool₁⟩
    · simp only [hie, Prod.mk.injEq, Option.some.injEq] at h
      rcases h with ⟨⟨-, rfl⟩, -⟩
      exact basicIE_fatal hie
    · simp only [hie] at h
      exact ih h

def FiltersOnly (p p' : Pdr) : Prop := ∃ appFilter, p' = { p with appFilter }

theorem FiltersOnly.refl (p : Pdr) : FiltersOnly p p := ⟨p.appFilter, rfl⟩

theorem FiltersOnly.trans {p₁ p₂ p₃ : Pdr} (h₁ : FiltersOnly p₁ p₂) (h₂ : FiltersOnly p₂ p₃) :
    FiltersOnly p₁ p₃ := by
  rcases h₁ with ⟨f₁, rfl⟩
  rcases h₂ with ⟨f₂, rfl⟩
  exact ⟨f₂, rfl⟩

theorem FiltersOnly.kept (h : FiltersOnly p p') : AddressKept p p' := by
  rcases h with ⟨f, rfl⟩
  exact ⟨rfl, rfl, rfl⟩

theorem parseAppFlows_filtersOnly {flows : List Text}
    (h : parseAppFlows p flows = .ok p') : FiltersOnly p p' := by
  induction flows with
  | nil =>
    cases h
    exact .refl p
  | cons flowDesc rest ih =>
    unfold parseAppFlows at h
    cases hflow : parseFlowDesc flowDesc (ipv4String p.ueAddress) with
    | error => simp [hflow] at h
    | ok =>
      simp only [hflow] at h
      split at h
      · obtain ⟨_, _, h⟩ := Lib.bind_ok h
        obtain ⟨_, _, h⟩ := Lib.bind_ok h
        cases h
        exact ⟨_, rfl⟩
      · exact ih h

theorem parseApplicationID_filtersOnly {ie : Decoded String}
    (h : parseApplicationID p ie appPFDs = .ok p') : FiltersOnly p p' := by
  unfold parseApplicationID at h
  cases ie with
  | error => simp at h
  | ok appID =>
    cases hpfd : appPFDs.lookup appID with
    | none => simp [hpfd] at h
    | some =>
      simp only [hpfd] at h
      split at h
      · cases h
      · exact parseAppFlows_filtersOnly h

theorem parseSDFFilter_filtersOnly {ie : Decoded Text}
    (h : parseSDFFilter p ie = .ok p') : FiltersOnly p p' := by
  unfold parseSDFFilter at h
  cases ie with
  | error => simp at h
  | ok flowDesc =>
    simp only at h
    split at h
    · cases h
    · cases hflow : parseFlowDesc flowDesc (ipv4String p.ueAddress) with
      | error => simp [hflow] at h
      | ok =>
        simp only [hflow] at h
        split_ifs at h
        · obtain ⟨_, _, h⟩ := Lib.bind_ok h
          obtain ⟨_, _, h⟩ := Lib.bind_ok h
          cases h
          exact ⟨_, rfl⟩
        · obtain ⟨_, _, h⟩ := Lib.bind_ok h
          obtain ⟨_, _, h⟩ := Lib.bind_ok h
          cases h
          exact ⟨_, rfl⟩
        · cases h
          exact ⟨_, rfl⟩

theorem filterIE_filtersOnly {ie : PdiIE}
    (h : filterIE appPFDs ie p = .ok p') : FiltersOnly p p' := by
  cases ie with
  | applicationID => exact parseApplicationID_filtersOnly h
  | sdfFilter => exact parseSDFFilter_filtersOnly h
  | _ =>
    cases h
    exact .refl p

theorem parsePDIFilters_filtersOnly (appPFDs : AppPFDs) (ies : List PdiIE) (p : Pdr) :
    FiltersOnly p (parsePDIFilters appPFDs ies p).1 := by
  induction ies generalizing p with
  | nil => exact .refl p
  | cons ie rest ih =>
    unfold parsePDIFilters
    cases hie : filterIE appPFDs ie p with
    | error => exact .refl p
    | ok p' => exact (filterIE_filtersOnly hie).trans (ih p')

theorem setUEFilter_filtersOnly (p : Pdr) : FiltersOnly p (setUEFilter p) := by
  unfold setUEFilter
  split
  · exact ⟨_, rfl⟩
  · split <;> exact ⟨_, rfl⟩

theorem readSoFar_init (seid : UInt64) (ippool : Option IPPool) :
    ReadSoFar seid { fseID := seid } false ippool :=
  ⟨rfl, by simp, by simp⟩

theorem parsePDI_pool (seid : UInt64) (ies : List PdiIE) (appPFDs : AppPFDs)
    (ippool : Option IPPool) :
    IPPool.Looked seid ippool (parsePDI { fseID := seid } ies appPFDs ippool).2 := by
  have hpool : IPPool.Looked seid ippool (processBasicPDI ies { fseID := seid } ippool).2 :=
    processBasicPDI_pool (readSoFar_init seid ippool)
  unfold parsePDI
  rcases hbasic : processBasicPDI ies { fseID := seid } ippool with ⟨⟨p, _ | f⟩, ippool'⟩ <;>
    rwa [hbasic] at hpool

theorem parsePDI_survives {err : Option Fault}
    (h : parsePDI p ies appPFDs ippool = ((p', err), ippool')) (herr : fatalPDI err = none) :
    ∃ p₁, processBasicPDI ies p ippool = ((p₁, none), ippool') ∧ FiltersOnly p₁ p' := by
  unfold parsePDI at h
  rcases hbasic : processBasicPDI ies p ippool with ⟨⟨p₁, _ | f⟩, ippool₁⟩
  · simp only [hbasic, Prod.mk.injEq] at h
    rcases h with ⟨hp, rfl⟩
    have hfilters :=
      (setUEFilter_filtersOnly p₁).trans (parsePDIFilters_filtersOnly appPFDs ies (setUEFilter p₁))
    rw [hp] at hfilters
    exact ⟨p₁, rfl, hfilters⟩
  · -- Only the filters fail with the error that is not held against the PDR.
    have hfatal := processBasicPDI_fatal hbasic
    simp only [hbasic, Prod.mk.injEq] at h
    rcases h with ⟨⟨rfl, rfl⟩, rfl⟩
    rw [hfatal] at herr
    cases herr

/-- What is read from a PDI that the PDR survives carries the SEID, and the
leased address where the last UE address IE leaves the choice to this node. -/
theorem parsePDI_read {err : Option Fault}
    (h : parsePDI { fseID := seid } ies appPFDs ippool = ((p, err), ippool'))
    (herr : fatalPDI err = none) : ReadSoFar seid p (ueAddressChosen ies) ippool' := by
  rcases parsePDI_survives h herr with ⟨p₁, hbasic, hfilters⟩
  exact (processBasicPDI_read (readSoFar_init seid ippool) hbasic).of_kept hfilters.kept

theorem finishPDR_eq_ok {pdrID : UInt16} {precedence : UInt32}
    (h : finishPDR p ie1 pdrID precedence = .ok p') :
    ∃ qerIDList farID needDecap, p' =
      { p with qerIDList, precedence, pdrID := pdrID.toUInt32, farID, needDecap } := by
  unfold finishPDR at h
  cases hfar : ie1.farID with
  | error => simp [hfar] at h
  | ok =>
    cases hqer : ie1.qerIDs with
    | error => simp [hfar, hqer] at h
    | ok =>
      simp only [hfar, hqer, Except.ok.injEq] at h
      exact ⟨_, _, _, h.symm⟩

theorem parsePDR_eq_ok
    (h : parsePDR ie1 seid appPFDs ippool = (.ok p, ippool')) :
    ∃ pdrID precedence pdi p₀ err, ie1.pdrID = .ok pdrID ∧ ie1.pdi = .ok pdi ∧
      parsePDI { fseID := seid } pdi appPFDs ippool = ((p₀, err), ippool') ∧
      fatalPDI err = none ∧ finishPDR p₀ ie1 pdrID precedence = .ok p := by
  unfold parsePDR at h
  split at h
  · simp at h
  · simp at h
  · simp at h
  · rename_i pdrID precedence pdi hid _ hpdi
    rcases hparse : parsePDI { fseID := seid } pdi appPFDs ippool with ⟨⟨p₀, err⟩, ippool₁⟩
    simp only [hparse] at h
    cases hfatal : fatalPDI err with
    | some => simp [hfatal] at h
    | none =>
      simp only [hfatal, Prod.mk.injEq] at h
      rcases h with ⟨hfinish, rfl⟩
      exact ⟨pdrID, precedence, pdi, p₀, err, hid, hpdi, hparse, hfatal, hfinish⟩

theorem parsePDR_pool (ie1 : PdrIE) (seid : UInt64) (appPFDs : AppPFDs)
    (ippool : Option IPPool) :
    IPPool.Looked seid ippool (parsePDR ie1 seid appPFDs ippool).2 := by
  unfold parsePDR
  split
  · exact .refl _ _
  · exact .refl _ _
  · exact .refl _ _
  · rename_i pdrID precedence pdi _ _ _
    have hpool := parsePDI_pool seid pdi appPFDs ippool
    rcases hparse : parsePDI { fseID := seid } pdi appPFDs ippool with ⟨⟨p₀, err⟩, ippool₁⟩
    rw [hparse] at hpool
    cases hfatal : fatalPDI err <;> simpa [hfatal] using hpool

theorem parsePDR_read
    (h : parsePDR ie1 seid appPFDs ippool = (.ok p, ippool')) :
    ∃ pdi, ie1.pdi = .ok pdi ∧ ReadSoFar seid p (ueAddressChosen pdi) ippool' := by
  rcases parsePDR_eq_ok h with ⟨_, _, pdi, p₀, err, -, hpdi, hparse, hfatal, hfinish⟩
  rcases finishPDR_eq_ok hfinish with ⟨_, _, _, rfl⟩
  exact ⟨pdi, hpdi, (parsePDI_read hparse hfatal).of_kept ⟨rfl, rfl, rfl⟩⟩

theorem parsePDR_pdrID
    (h : parsePDR ie1 seid appPFDs ippool = (.ok p, ippool')) :
    ∃ pdrID, ie1.pdrID = .ok pdrID ∧ p.pdrID = pdrID.toUInt32 := by
  rcases parsePDR_eq_ok h with ⟨pdrID, _, _, _, _, hid, -, -, -, hfinish⟩
  rcases finishPDR_eq_ok hfinish with ⟨_, _, _, rfl⟩
  exact ⟨pdrID, hid, rfl⟩

end Upf
