import Upf.Pfcp.ParsePdr

/-!
# The tunnel a PDR matches

What the F-TEID IEs of a PDI make of a PDR: a TEID and an address the control
plane gives, or the mark that the choice is this node's.  A mark alone leaves the
match on any tunnel; `parsePDR` never fills it in.
-/

namespace Upf

open List

structure Tunnel where
  upAllocateFteid : Bool := false
  tunnelTEID : UInt32 := 0
  tunnelTEIDMask : UInt32 := 0
  tunnelIP4Dst : UInt32 := 0
  tunnelIP4DstMask : UInt32 := 0
deriving DecidableEq

def Pdr.tunnel (p : Pdr) : Tunnel where
  upAllocateFteid := p.upAllocateFteid
  tunnelTEID := p.tunnelTEID
  tunnelTEIDMask := p.tunnelTEIDMask
  tunnelIP4Dst := p.tunnelIP4Dst
  tunnelIP4DstMask := p.tunnelIP4DstMask

def Tunnel.read (t : Tunnel) (fteid : FTEIDFields) : Tunnel :=
  if fteid.hasCh then { t with upAllocateFteid := true }
  else if fteid.teid ≠ 0 then
    { t with
      tunnelTEID := fteid.teid
      tunnelTEIDMask := 0xFFFFFFFF
      tunnelIP4Dst := ip2int fteid.ipv4Address
      tunnelIP4DstMask := 0xFFFFFFFF }
  else t

def PdiIE.fteid? : PdiIE → Option FTEIDFields
  | .fteid (.ok fields) => some fields
  | _ => none

def PdrIE.fteids (ie : PdrIE) : List FTEIDFields :=
  match ie.pdi with
  | .ok pdi => pdi.filterMap PdiIE.fteid?
  | .error _ => []

/-- Whether a PDR leaves its F-TEID to this node. -/
def PdrIE.choosesFteid (ie : PdrIE) : Bool := ie.fteids.any FTEIDFields.hasCh

theorem Tunnel.foldl_read_upAllocateFteid (fteids : List FTEIDFields) (t : Tunnel) :
    (fteids.foldl Tunnel.read t).upAllocateFteid =
      (t.upAllocateFteid || fteids.any FTEIDFields.hasCh) := by
  induction fteids generalizing t with
  | nil => simp
  | cons fteid rest ih =>
    rw [foldl_cons, ih, any_cons]
    cases hch : fteid.hasCh with
    | true => simp [read, hch]
    | false =>
      have hread : (t.read fteid).upAllocateFteid = t.upAllocateFteid := by
        simp only [read, hch, Bool.false_eq_true, if_false]
        split <;> rfl
      rw [hread, Bool.false_or]

variable {ippool ippool' : Option IPPool} {p p' : Pdr}

theorem FiltersOnly.tunnel (h : FiltersOnly p p') : p'.tunnel = p.tunnel := by
  rcases h with ⟨f, rfl⟩
  rfl

theorem parseUEAddressIE_tunnel {ie : Decoded UEIPAddressFields}
    (h : parseUEAddressIE p ie ippool = (.ok p', ippool')) :
    p'.tunnel = p.tunnel := by
  rcases parseUEAddressIE_eq_ok h with
    ⟨fields, ip, rfl, ⟨pool, pool', -, -, -, rfl⟩ | ⟨-, -, rfl⟩⟩ <;>
  rfl

theorem parseSourceInterfaceIE_tunnel {ie : Decoded UInt8}
    (h : parseSourceInterfaceIE p ie = .ok p') : p'.tunnel = p.tunnel := by
  unfold parseSourceInterfaceIE at h
  cases ie with
  | error => simp at h
  | ok =>
    simp only at h
    split_ifs at h <;> cases h <;> rfl

theorem parseFTEID_tunnel {fteid : FTEIDFields}
    (h : parseFTEID p (.ok fteid) = .ok p') : p'.tunnel = p.tunnel.read fteid := by
  simp only [parseFTEID] at h
  unfold Tunnel.read
  split_ifs at h ⊢ <;> cases h <;> rfl

theorem basicIE_tunnel {ie : PdiIE}
    (h : basicIE ie p ippool = (.ok p', ippool')) :
    p'.tunnel = ie.fteid?.toList.foldl Tunnel.read p.tunnel := by
  cases ie with
  | ueIPAddress => exact parseUEAddressIE_tunnel h
  | sourceInterface => exact parseSourceInterfaceIE_tunnel (Prod.mk.inj h).1
  | fteid fields =>
    cases fields with
    | error => simp [basicIE, parseFTEID] at h
    | ok => exact parseFTEID_tunnel (Prod.mk.inj h).1
  | _ =>
    cases h
    rfl

theorem processBasicPDI_tunnel {ies : List PdiIE}
    (h : processBasicPDI ies p ippool = ((p', none), ippool')) :
    p'.tunnel = (ies.filterMap PdiIE.fteid?).foldl Tunnel.read p.tunnel := by
  induction ies generalizing p ippool with
  | nil =>
    cases h
    rfl
  | cons ie rest ih =>
    unfold processBasicPDI at h
    rcases hie : basicIE ie p ippool with ⟨f | p₁, ippool₁⟩
    · simp [hie] at h
    · simp only [hie] at h
      rw [ih h, basicIE_tunnel hie, ← foldl_append]
      cases hf : ie.fteid? <;> simp [hf]

theorem parsePDR_tunnel {ie1 : PdrIE} {seid : UInt64} {appPFDs : AppPFDs}
    (h : parsePDR ie1 seid appPFDs ippool = (.ok p, ippool')) :
    p.tunnel = ie1.fteids.foldl Tunnel.read {} := by
  rcases parsePDR_eq_ok h with ⟨_, _, pdi, p₀, err, -, hpdi, hparse, hfatal, hfinish⟩
  rcases finishPDR_eq_ok hfinish with ⟨_, _, _, rfl⟩
  rcases parsePDI_survives hparse hfatal with ⟨p₁, hbasic, hfilters⟩
  rw [PdrIE.fteids, hpdi]
  exact hfilters.tunnel.trans (processBasicPDI_tunnel hbasic)

theorem parsePDR_upAllocateFteid {ie1 : PdrIE} {seid : UInt64} {appPFDs : AppPFDs}
    (h : parsePDR ie1 seid appPFDs ippool = (.ok p, ippool')) :
    p.upAllocateFteid = ie1.choosesFteid := by
  have htunnel := congrArg Tunnel.upAllocateFteid (parsePDR_tunnel h)
  rw [Tunnel.foldl_read_upAllocateFteid, Bool.false_or] at htunnel
  exact htunnel

end Upf
