import Upf.Pfcp.Basic

/-!
# Port ranges and their ternary rules

Ports of a PDR are ranges; the match tables know values and masks.  This module
follows the first half of `parse_pdr.go`: the three kinds of range, their
translation to ternary rules, and the product of a source and a destination
range.
-/

namespace Upf

/-- A range of ports, both ends included. -/
structure PortRange where
  low : UInt16
  high : UInt16
deriving DecidableEq, Inhabited

/-- A port value and the bits of it that count. -/
structure PortRangeTernaryRule where
  port : UInt16
  mask : UInt16
deriving DecidableEq

/-- A ternary rule on the source and on the destination port. -/
structure PortRangeTernaryCartesianProduct where
  srcPort : UInt16
  srcMask : UInt16
  dstPort : UInt16
  dstMask : UInt16
deriving DecidableEq

/-- How a range is turned into ternary rules. -/
inductive RangeConversionStrategy where
  | exact
  | ternary
deriving DecidableEq

def maxUint16 : UInt16 := 0xFFFF

def newWildcardPortRange : PortRange := { low := 0, high := maxUint16 }

def newRangeMatchPortRange (low high : UInt16) : PortRange :=
  if high < low then { low := 0, high := 0 } else { low, high }

namespace PortRange

variable (pr : PortRange)

/-- Both the full range and the zero value stand for every port. -/
def isWildcardMatch : Bool :=
  (pr.low == 0 && pr.high == maxUint16) || (pr.low == 0 && pr.high == 0)

def isExactMatch : Bool := pr.low == pr.high && pr.high != 0

def isRangeMatch : Bool := !pr.isExactMatch && !pr.isWildcardMatch

/-- The number of ports, in sixteen bits. -/
def width : UInt16 :=
  if pr.isWildcardMatch then maxUint16 else pr.high - pr.low + 1

def sameMatch (other : PortRange) : Bool :=
  pr == other || (pr.isWildcardMatch && other.isWildcardMatch)

/-- The range as an error text prints it. -/
def param : Param := .ports pr.low pr.high

def asExactMatchUnchecked : PortRangeTernaryRule := { port := pr.low, mask := maxUint16 }

def asTrivialTernaryMatch : Except GoError PortRangeTernaryRule :=
  if pr.isWildcardMatch then .ok { port := 0, mask := 0 }
  else if pr.isExactMatch then .ok pr.asExactMatchUnchecked
  else .error (.invalidArgumentWithReason "asTrivialTernaryMatch" pr.param
    "not trivially convertible")

def maxPort (port mask : UInt16) : UInt16 := (port &&& mask) + (maxUint16 - mask)

/-- State of the loop that widens a mask while it stays inside the range. -/
structure MaskSearch where
  bit : UInt16
  mask : UInt16
  testMask : UInt16
  netPort : UInt16
  maximumPort : UInt16

/-- The widening loop.  The test mask loses one bit a round, so it has lost all
sixteen, and with them every set bit of a non-zero port, within the rounds
`portMask` gives it. -/
def portMaskLoop (port last : UInt16) : Nat → MaskSearch → UInt16
  | 0, s => s.mask
  | fuel + 1, s =>
    if s.netPort > 0 && s.maximumPort < last then
      let netPort := port &&& s.testMask
      if netPort < port then s.mask
      else
        let maximumPort := maxPort netPort s.testMask
        portMaskLoop port last fuel
          { bit := s.bit <<< 1
            mask := if maximumPort ≤ last then s.testMask else s.mask
            testMask := s.testMask - s.bit
            netPort, maximumPort }
    else s.mask

def portMask (port last : UInt16) : UInt16 :=
  portMaskLoop port last 18
    { bit := 1, mask := maxUint16, testMask := maxUint16, netPort := port &&& maxUint16,
      maximumPort := maxPort (port &&& maxUint16) maxUint16 }

/-- Walk the range upwards, one ternary rule at a time.  The port is a 32-bit
number in the source so that it can pass the largest port. -/
def buildTernaryRulesLoop (last : UInt16) : Nat → Nat → List PortRangeTernaryRule
  | 0, _ => []
  | fuel + 1, port =>
    if port ≤ last.toNat then
      let mask := portMask (UInt16.ofNat port) last
      { port := UInt16.ofNat port, mask } ::
        buildTernaryRulesLoop last fuel ((maxPort (UInt16.ofNat port) mask).toNat + 1)
    else []

def buildTernaryRules : List PortRangeTernaryRule :=
  buildTernaryRulesLoop pr.high (2 ^ 16) pr.low.toNat

def exactRules : List PortRangeTernaryRule :=
  (List.range' pr.low.toNat (pr.high.toNat + 1 - pr.low.toNat)).map fun port =>
    { port := UInt16.ofNat port, mask := maxUint16 }

def asComplexTernaryMatches (strategy : RangeConversionStrategy) :
    Except GoError (List PortRangeTernaryRule) :=
  if pr.isExactMatch then .ok [pr.asExactMatchUnchecked]
  else if pr.isWildcardMatch then .ok [{ port := 0, mask := 0 }]
  else
    match strategy with
    | .exact =>
      if pr.width > 100 then
        .error (.invalidArgumentWithReason "asComplexTernaryMatches" pr.param
          "port range too wide for exact match strategy")
      else .ok pr.exactRules
    | .ternary => .ok pr.buildTernaryRules

end PortRange

def buildRulesFromRange (rangeRules : List PortRangeTernaryRule)
    (fixedRule : PortRangeTernaryRule) (isSrcRange : Bool) :
    List PortRangeTernaryCartesianProduct :=
  rangeRules.map fun r =>
    if isSrcRange then
      { srcPort := r.port, srcMask := r.mask,
        dstPort := fixedRule.port, dstMask := fixedRule.mask }
    else
      { srcPort := fixedRule.port, srcMask := fixedRule.mask,
        dstPort := r.port, dstMask := r.mask }

/-- The rules for a source and a destination range, at most one of which may
be a proper range. -/
def createPortRangeCartesianProduct (src dst : PortRange) :
    Except GoError (List PortRangeTernaryCartesianProduct) :=
  if src.isRangeMatch && dst.isRangeMatch then
    .error (.invalidArgumentWithReason "CreatePortRangeCartesianProduct" src.param
      "src and dst ports cannot both be a range match")
  else if src.isRangeMatch then do
    let srcTernaryRules ← src.asComplexTernaryMatches .exact
    let dstTernary ← dst.asTrivialTernaryMatch
    return buildRulesFromRange srcTernaryRules dstTernary true
  else if dst.isRangeMatch then do
    let dstTernaryRules ← dst.asComplexTernaryMatches .exact
    let srcTernary ← src.asTrivialTernaryMatch
    return buildRulesFromRange dstTernaryRules srcTernary false
  else do
    let srcTernary ← src.asTrivialTernaryMatch
    let dstTernary ← dst.asTrivialTernaryMatch
    return [{ srcPort := srcTernary.port, srcMask := srcTernary.mask,
              dstPort := dstTernary.port, dstMask := dstTernary.mask }]

namespace PortRange

/-- The rules a pair of ranges compiles to; none if it does not compile. -/
def product (src dst : PortRange) : List PortRangeTernaryCartesianProduct :=
  (createPortRangeCartesianProduct src dst).toOption.getD []

/-- Two spellings of every port are compiled alike: neither is a proper range,
and both translate to the rule with an empty mask. -/
theorem sameMatch_cases {pr other : PortRange} (h : pr.sameMatch other) :
    pr = other ∨ (pr.isRangeMatch = false ∧ other.isRangeMatch = false ∧
      pr.asTrivialTernaryMatch = other.asTrivialTernaryMatch) := by
  simp only [sameMatch, Bool.or_eq_true, Bool.and_eq_true, beq_iff_eq] at h
  rcases h with heq | ⟨hpr, hother⟩
  · exact .inl heq
  · refine .inr ⟨?_, ?_, ?_⟩
    · simp [isRangeMatch, hpr]
    · simp [isRangeMatch, hother]
    · simp [asTrivialTernaryMatch, hpr, hother]

theorem sameMatch_product {src src' dst dst' : PortRange} (hsrc : src.sameMatch src')
    (hdst : dst.sameMatch dst') : product src dst = product src' dst' := by
  rcases sameMatch_cases hsrc with rfl | ⟨hs, hs', hsrc⟩
  · rcases sameMatch_cases hdst with rfl | ⟨hd, hd', hdst⟩
    · rfl
    · simp [product, createPortRangeCartesianProduct, hd, hd', hdst]
  · rcases sameMatch_cases hdst with rfl | ⟨hd, hd', hdst⟩
    · simp [product, createPortRangeCartesianProduct, hs, hs', hsrc]
    · simp [product, createPortRangeCartesianProduct, hs, hs', hsrc, hd, hd', hdst]

end PortRange

end Upf
