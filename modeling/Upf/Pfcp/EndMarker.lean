import Upf.Pfcp.Rules

/-!
# End Markers and FAR updates

An Update FAR may ask for an End Marker on the tunnel its FAR is leaving.  This
module builds the packet of `addEndMarker` byte for byte and gives
`UpdateFAR`, which appends it.
-/

namespace Upf

open Lib

/-- A 16-bit number in network order. -/
def putUint16 (x : UInt16) : List UInt8 := [(x >>> 8).toUInt8, x.toUInt8]

/-- A 32-bit number in network order. -/
def putUint32 (x : UInt32) : List UInt8 :=
  [(x >>> 24).toUInt8, (x >>> 16).toUInt8, (x >>> 8).toUInt8, x.toUInt8]

/-- The 16-bit words of a header, in network order. -/
def words16 : List UInt8 → List UInt32
  | hi :: lo :: rest => (hi.toUInt32 <<< 8 ||| lo.toUInt32) :: words16 rest
  | _ => []

def ipv4HeaderSize : Nat := 20
def udpHeaderSize : Nat := 8
def gtpHeaderSize : Nat := 8
def gtpEndMarkerType : UInt8 := 254

/-- Header checksum: two folds of the word sum, complemented.  A header that is
too short gets zero. -/
def calculateIPv4Checksum (header : List UInt8) : UInt16 :=
  if header.length < ipv4HeaderSize then 0
  else
    let sum := (words16 (header.take ipv4HeaderSize)).foldl (· + ·) (0 : UInt32)
    let sum := (sum >>> 16) + (sum &&& 0xffff)
    let sum := sum + (sum >>> 16)
    ~~~ sum.toUInt16

def endMarkerDstMAC : List UInt8 := [0xBD, 0xBD, 0xBD, 0xBD, 0xBD, 0xBD]

def endMarkerSrcMAC : List UInt8 := [0xFF, 0xAA, 0xFA, 0xAA, 0xFF, 0xAA]

def endMarkerIPv4Header (farItem : Far) (checksum : UInt16) : List UInt8 :=
  [0x45, 0] ++
  putUint16 (UInt16.ofNat (ipv4HeaderSize + udpHeaderSize + gtpHeaderSize)) ++
  putUint16 0 ++ putUint16 0 ++ [64, 17] ++ putUint16 checksum ++
  putUint32 farItem.tunnelIP4Src ++ putUint32 farItem.tunnelIP4Dst

def endMarkerPacket (farItem : Far) : List UInt8 :=
  endMarkerDstMAC ++ endMarkerSrcMAC ++ putUint16 0x0800 ++
  -- The checksum is taken over the header while its own field is still zero.
  endMarkerIPv4Header farItem (calculateIPv4Checksum (endMarkerIPv4Header farItem 0)) ++
  putUint16 tunnelGTPUPort ++ putUint16 tunnelGTPUPort ++
  putUint16 (UInt16.ofNat (udpHeaderSize + gtpHeaderSize)) ++ putUint16 0 ++
  [0x30, gtpEndMarkerType] ++ putUint16 0 ++ putUint32 farItem.tunnelTEID

def addEndMarker (farItem : Far) (endMarkerList : List (List UInt8)) : List (List UInt8) :=
  endMarkerList ++ [endMarkerPacket farItem]

def PFCPSession.updateFAR (s : PFCPSession) (f : Far) (endMarkerList : List (List UInt8)) :
    Except GoError (PFCPSession × List (List UInt8)) :=
  match s.rules.fars.find? (fun v => v.farID == f.farID),
      KeyedList.replaceFirst Far.farID f s.rules.fars with
  | some v, some fars =>
    .ok ({ s with rules := { s.rules with fars } },
      if f.sendEndMarker then addEndMarker v endMarkerList else endMarkerList)
  | _, _ => .error (.notFound "FAR")

namespace PFCPSession

theorem updateFAR_of_replaceFirst {s : PFCPSession} {f : Far} {fars : List Far}
    (ms : List (List UInt8)) (h : KeyedList.replaceFirst Far.farID f s.rules.fars = some fars) :
    ∃ v ∈ s.rules.fars, s.updateFAR f ms =
      .ok ({ s with rules := { s.rules with fars } },
        if f.sendEndMarker then addEndMarker v ms else ms) := by
  have hmem : f.farID ∈ s.rules.fars.map Far.farID := by
    by_contra hnot
    rw [KeyedList.replaceFirst_eq_none.mpr hnot] at h
    cases h
  rcases List.mem_map.mp hmem with ⟨x, hx, hid⟩
  cases hfind : s.rules.fars.find? (fun v => v.farID == f.farID) with
  | none =>
    have hnone := List.find?_eq_none.mp hfind x hx
    exact absurd (beq_iff_eq.mpr hid) hnone
  | some v => exact ⟨v, List.mem_of_find?_eq_some hfind, by simp [updateFAR, hfind, h]⟩

theorem updateFAR_of_replaceFirst_none {s : PFCPSession} {f : Far} {ms : List (List UInt8)}
    (h : KeyedList.replaceFirst Far.farID f s.rules.fars = none) :
    s.updateFAR f ms = .error (.notFound "FAR") := by
  cases hfind : s.rules.fars.find? (fun v => v.farID == f.farID) <;>
    simp [updateFAR, hfind, h]

end PFCPSession

end Upf
