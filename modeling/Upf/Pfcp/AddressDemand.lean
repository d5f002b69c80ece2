import Upf.Pfcp.ParsePdr

/-!
# When reading a PDR takes an address

Reading stops at the first element that fails, so whether the pool is asked
depends on what stands before the element that leaves the choice to this node.
Up to that element reading does not depend on the pool at all.
-/

namespace Upf

def IPPool.draw (seid : UInt64) (asks : Bool) (ippool : Option IPPool) : Option IPPool :=
  if asks then ippool.map fun i => (i.lookupOrAllocIP seid).2 else ippool

/-- An element that leaves the choice of the address to this node. -/
def PdiIE.asks : PdiIE → Bool
  | .ueIPAddress (.ok fields) => needAllocIP fields
  | _ => false

/-- Whether the first pass over a PDI reaches an element that asks.  The pass
goes on over the elements that read. -/
def asksAddress : List PdiIE → Bool
  | [] => false
  | ie :: rest => ie.asks || ((basicIE ie {} none).1.isOk && asksAddress rest)

/-- Whether reading a PDR reaches an element that asks. -/
def PdrIE.asks (ie1 : PdrIE) : Bool :=
  match ie1.pdrID, ie1.precedence, ie1.pdi with
  | .ok _, .ok _, .ok pdi => asksAddress pdi
  | _, _, _ => false

namespace IPPool

theorem draw_draw (seid : UInt64) (asks asks' : Bool) (ippool : Option IPPool) :
    draw seid asks' (draw seid asks ippool) = draw seid (asks || asks') ippool := by
  cases asks <;> cases asks' <;> cases ippool <;> simp [draw, lookupOrAllocIP_twice]

end IPPool

variable {ie : PdiIE}

theorem basicIE_fseID {p p' : Pdr} {ippool ippool' : Option IPPool}
    (h : basicIE ie p ippool = (.ok p', ippool')) : p'.fseID = p.fseID := by
  cases ie with
  | ueIPAddress fields =>
    rcases parseUEAddressIE_eq_ok h with
      ⟨fields, ip, rfl, ⟨pool, pool', -, -, -, rfl⟩ | ⟨-, -, rfl⟩⟩ <;>
    rfl
  | sourceInterface =>
    simp only [basicIE, Prod.mk.injEq] at h
    exact (parseSourceInterfaceIE_kept h.1).fseID
  | fteid =>
    simp only [basicIE, Prod.mk.injEq] at h
    exact (parseFTEID_kept h.1).fseID
  | _ =>
    simp only [basicIE, Prod.mk.injEq, Except.ok.injEq] at h
    rw [h.1]

theorem basicIE_of_asks (h : ie.asks = true) (p : Pdr) (ippool : Option IPPool) :
    (basicIE ie p ippool).2 = IPPool.draw p.fseID true ippool := by
  cases ie with
  | ueIPAddress fields =>
    cases fields with
    | error => simp [PdiIE.asks] at h
    | ok =>
      simp only [PdiIE.asks] at h
      cases ippool with
      | none => simp [basicIE, parseUEAddressIE, h, IPPool.draw]
      | some pool =>
        rcases hlook : pool.lookupOrAllocIP p.fseID with ⟨e | ip, pool'⟩ <;>
          simp [basicIE, parseUEAddressIE, h, IPPool.draw, hlook]
  | _ => simp [PdiIE.asks] at h

/-- An element that does not ask leaves the pool alone and does not depend on
it. -/
theorem basicIE_of_not_asks (h : ie.asks = false) (p : Pdr)
    (ippool : Option IPPool) : basicIE ie p ippool = ((basicIE ie p none).1, ippool) := by
  cases ie with
  | ueIPAddress fields =>
    cases fields with
    | error => simp [basicIE, parseUEAddressIE]
    | ok =>
      simp only [PdiIE.asks] at h
      simp [basicIE, parseUEAddressIE, h]
  | _ => simp [basicIE]

theorem setUEAddress_isOk (p p' : Pdr) (ip : IP) :
    (setUEAddress p ip).isOk = (setUEAddress p' ip).isOk := by
  unfold setUEAddress
  split <;> rfl

/-- Whether such an element reads does not depend on what was read before it. -/
theorem basicIE_isOk (h : ie.asks = false) (p : Pdr) :
    (basicIE ie p none).1.isOk = (basicIE ie {} none).1.isOk := by
  cases ie with
  | ueIPAddress fields =>
    cases fields with
    | error => simp [basicIE, parseUEAddressIE]
    | ok =>
      simp only [PdiIE.asks] at h
      simp [basicIE, parseUEAddressIE, h, setUEAddress_isOk p {}]
  | sourceInterface value =>
    cases value with
    | error => rfl
    | ok =>
      simp only [basicIE, parseSourceInterfaceIE]
      split_ifs <;> rfl
  | fteid fields =>
    cases fields with
    | error => rfl
    | ok =>
      simp only [basicIE, parseFTEID]
      split_ifs <;> rfl
  | _ => rfl

theorem processBasicPDI_draws (ies : List PdiIE) (p : Pdr) (ippool : Option IPPool) :
    (processBasicPDI ies p ippool).2 = IPPool.draw p.fseID (asksAddress ies) ippool := by
  induction ies generalizing p ippool with
  | nil => rfl
  | cons ie rest ih =>
    unfold processBasicPDI asksAddress
    cases hasks : ie.asks with
    | true =>
      have hpool := basicIE_of_asks hasks p ippool
      rcases hie : basicIE ie p ippool with ⟨f | p', ippool'⟩
      · rw [hie] at hpool
        exact hpool
      · rw [hie] at hpool
        dsimp only at hpool ⊢
        rw [ih, basicIE_fseID hie, hpool, IPPool.draw_draw, Bool.true_or, Bool.true_or]
    | false =>
      have hok := basicIE_isOk hasks p
      rw [basicIE_of_not_asks hasks]
      rcases hie : basicIE ie p none with ⟨f | p', ippool'⟩
      · rw [hie] at hok
        rw [← hok]
        rfl
      · rw [hie] at hok
        dsimp only
        rw [ih, basicIE_fseID hie, ← hok]
        rfl

/-- A first pass that does not ask reads the same whatever the pool is. -/
theorem processBasicPDI_of_not_asks {ies : List PdiIE} (h : asksAddress ies = false) (p : Pdr)
    (ippool : Option IPPool) :
    (processBasicPDI ies p ippool).1 = (processBasicPDI ies p none).1 := by
  induction ies generalizing p with
  | nil => rfl
  | cons ie rest ih =>
    simp only [asksAddress, Bool.or_eq_false_iff, Bool.and_eq_false_iff] at h
    rcases h with ⟨hasks, hrest⟩
    have hok := basicIE_isOk hasks p
    unfold processBasicPDI
    rw [basicIE_of_not_asks hasks p ippool, basicIE_of_not_asks hasks p none]
    rcases hie : basicIE ie p none with ⟨f | p', ippool'⟩
    · rfl
    · rw [hie] at hok
      dsimp only
      refine ih (hrest.resolve_left ?_) p'
      rw [← hok]
      simp [Except.isOk, Except.toBool]

variable (ie1 : PdrIE) (seid : UInt64) (appPFDs : AppPFDs) (ippool : Option IPPool)

theorem parsePDI_draws (pdi : List PdiIE) :
    (parsePDI { fseID := seid } pdi appPFDs ippool).2 =
      IPPool.draw seid (asksAddress pdi) ippool := by
  have hdraws := processBasicPDI_draws pdi { fseID := seid } ippool
  unfold parsePDI
  rcases hbasic : processBasicPDI pdi { fseID := seid } ippool with ⟨⟨p, _ | f⟩, ippool'⟩ <;>
    rwa [hbasic] at hdraws

theorem parsePDI_of_not_asks {pdi : List PdiIE} (h : asksAddress pdi = false) :
    (parsePDI { fseID := seid } pdi appPFDs ippool).1 =
      (parsePDI { fseID := seid } pdi appPFDs none).1 := by
  have hbasic := processBasicPDI_of_not_asks h { fseID := seid } ippool
  unfold parsePDI
  rcases hfirst : processBasicPDI pdi { fseID := seid } ippool with ⟨⟨p, err⟩, _⟩
  rcases hsecond : processBasicPDI pdi { fseID := seid } none with ⟨⟨p', err'⟩, _⟩
  rw [hfirst, hsecond, Prod.mk.injEq] at hbasic
  rcases hbasic with ⟨rfl, rfl⟩
  cases err <;> rfl

theorem parsePDR_draws :
    (parsePDR ie1 seid appPFDs ippool).2 = IPPool.draw seid ie1.asks ippool := by
  unfold parsePDR PdrIE.asks
  cases ie1.pdrID with
  | error => rfl
  | ok =>
    cases ie1.precedence with
    | error => rfl
    | ok =>
      cases ie1.pdi with
      | error => rfl
      | ok pdi =>
        have hdraws := parsePDI_draws seid appPFDs ippool pdi
        rcases hparse : parsePDI { fseID := seid } pdi appPFDs ippool with
          ⟨⟨p, err⟩, ippool'⟩
        rw [hparse] at hdraws
        simp only [hparse]
        cases fatalPDI err <;> exact hdraws

theorem parsePDR_of_not_asks (h : ie1.asks = false) :
    (parsePDR ie1 seid appPFDs ippool).1 = (parsePDR ie1 seid appPFDs none).1 := by
  unfold parsePDR
  unfold PdrIE.asks at h
  cases hid : ie1.pdrID with
  | error => rfl
  | ok =>
    cases hprec : ie1.precedence with
    | error => rfl
    | ok =>
      cases hpdi : ie1.pdi with
      | error => rfl
      | ok pdi =>
        simp only [hid, hprec, hpdi] at h
        have hpdi := parsePDI_of_not_asks seid appPFDs ippool h
        rcases hfirst : parsePDI { fseID := seid } pdi appPFDs ippool with ⟨⟨p, err⟩, _⟩
        rcases hsecond : parsePDI { fseID := seid } pdi appPFDs none with ⟨⟨p', err'⟩, _⟩
        rw [hfirst, hsecond, Prod.mk.injEq] at hpdi
        simp only [hfirst, hsecond, hpdi.1, hpdi.2]
        cases fatalPDI err' <;> rfl

end Upf
