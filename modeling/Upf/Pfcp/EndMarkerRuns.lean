import Upf.Lib.OnesComplement
import Upf.Pfcp.EndMarker

/-!
# The End Markers of a message

Which packets the Update FARs of one message leave behind, and that each decodes as an
End Marker of the tunnel its FAR had until then.

Main result: `updateFAR_endMarkers`.
-/

namespace Upf

open Lib List Nat

structure EndMarkerFields where
  source : Nat
  destination : Nat
  teid : Nat
deriving DecidableEq

def ofBE (bytes : List UInt8) : Nat := bytes.foldl (fun n b => n * 256 + b.toNat) 0

def numberAt (bytes : List UInt8) (offset len : Nat) : Nat := ofBE ((bytes.drop offset).take len)

/-- A receiver of End Markers: Ethernet and IPv4 without options, whose header sums up to
all ones, then UDP between GTP-U ports, then a GTP-U header of version 1 without optional
fields.  Each of the three lengths has to cover what is there. -/
def decodeEndMarker (packet : List UInt8) : Option EndMarkerFields :=
  let ip := packet.drop 14
  let udp := ip.drop 20
  let gtp := udp.drop 8
  if numberAt packet 12 2 = 0x0800 ∧ numberAt ip 0 1 = 0x45 ∧ numberAt ip 2 2 = ip.length ∧
      numberAt ip 9 1 = 17 ∧
      Ones.addChain 65535 0 ((List.range 10).map fun i => numberAt ip (2 * i) 2) = 65535 ∧
      numberAt udp 0 2 = 2152 ∧ numberAt udp 2 2 = 2152 ∧ numberAt udp 4 2 = udp.length ∧
      numberAt gtp 0 1 = 0x30 ∧ numberAt gtp 1 1 = 254 ∧ numberAt gtp 2 2 + 8 = gtp.length then
    some { source := numberAt ip 12 4, destination := numberAt ip 16 4, teid := numberAt gtp 4 4 }
  else none

theorem ofBE_putUint32 (x : UInt32) : ofBE (putUint32 x) = x.toNat := by
  have hlt := x.toNat_lt
  simp [ofBE, putUint32, Nat.shiftRight_eq_div_pow]
  omega

theorem word16_toNat (hi lo : UInt8) :
    (hi.toUInt32 <<< 8 ||| lo.toUInt32).toNat = hi.toNat * 256 + lo.toNat := by
  have hhi := hi.toNat_lt
  have hlo := lo.toNat_lt
  have hor : hi.toNat <<< 8 + lo.toNat = hi.toNat <<< 8 ||| lo.toNat :=
    shiftLeft_add_eq_or_of_lt hlo _
  have hfit : hi.toNat <<< 8 % 2 ^ 32 = hi.toNat <<< 8 := by
    apply mod_eq_of_lt
    rw [Nat.shiftLeft_eq]
    omega
  rw [UInt32.toNat_or, UInt32.toNat_shiftLeft, UInt8.toNat_toUInt32, UInt8.toNat_toUInt32]
  change hi.toNat <<< 8 % 2 ^ 32 ||| lo.toNat = _
  rw [hfit, ← hor, Nat.shiftLeft_eq]

theorem words16_cons_toNat (hi lo : UInt8) (rest : List UInt8) :
    (words16 (hi :: lo :: rest)).map UInt32.toNat =
      (hi.toNat * 256 + lo.toNat) :: (words16 rest).map UInt32.toNat := by
  simp only [words16, map_cons, word16_toNat]

/-- Words that fit are summed without a carry out of 32 bits. -/
theorem foldl_add_toNat (ws : List UInt32) (a : UInt32) :
    (ws.foldl (· + ·) a).toNat = (a.toNat + (ws.map UInt32.toNat).sum) % 2 ^ 32 := by
  induction ws generalizing a with
  | nil => simp [mod_eq_of_lt a.toNat_lt]
  | cons w ws ih =>
    rw [foldl_cons, ih, UInt32.toNat_add, map_cons, sum_cons, mod_add_mod,
      Nat.add_assoc]

theorem calculateIPv4Checksum_toNat {header : List UInt8} (h : header.length = ipv4HeaderSize)
    (hsum : ((words16 header).map UInt32.toNat).sum < 2 ^ 32) :
    (calculateIPv4Checksum header).toNat =
      65535 - Ones.norm 65535 ((words16 header).map UInt32.toNat).sum := by
  have hn : ((words16 header).foldl (· + ·) (0 : UInt32)).toNat =
      ((words16 header).map UInt32.toNat).sum := by
    rw [foldl_add_toNat, UInt32.toNat_zero, Nat.zero_add, mod_eq_of_lt hsum]
  have hshort : ¬ header.length < ipv4HeaderSize := by omega
  rw [calculateIPv4Checksum, if_neg hshort, take_of_length_le h.le, ← hn]
  exact Ones.complement_foldTwice _

theorem words16_endMarkerIPv4Header (farItem : Far) (checksum : UInt16) :
    (words16 (endMarkerIPv4Header farItem checksum)).map UInt32.toNat =
      [0x4500, 36, 0, 0, 0x4011, checksum.toNat, farItem.tunnelIP4Src.toNat / 65536,
        farItem.tunnelIP4Src.toNat % 65536, farItem.tunnelIP4Dst.toNat / 65536,
        farItem.tunnelIP4Dst.toNat % 65536] := by
  have hsrc := farItem.tunnelIP4Src.toNat_lt
  have hdst := farItem.tunnelIP4Dst.toNat_lt
  have hck := checksum.toNat_lt
  simp only [endMarkerIPv4Header, putUint16, putUint32, cons_append, nil_append,
    words16_cons_toNat]
  simp [words16, ipv4HeaderSize, udpHeaderSize, gtpHeaderSize, Nat.shiftRight_eq_div_pow]
  omega

theorem addChain_endMarkerIPv4Header (farItem : Far) :
    Ones.addChain 65535 0 ((words16 (endMarkerIPv4Header farItem
      (calculateIPv4Checksum (endMarkerIPv4Header farItem 0)))).map UInt32.toNat) = 65535 := by
  have hsrc := farItem.tunnelIP4Src.toNat_lt
  have hdst := farItem.tunnelIP4Dst.toNat_lt
  have hck := (calculateIPv4Checksum (endMarkerIPv4Header farItem 0)).toNat_lt
  have hzero := words16_endMarkerIPv4Header farItem 0
  have hsum : ((words16 (endMarkerIPv4Header farItem 0)).map UInt32.toNat).sum < 2 ^ 32 := by
    rw [hzero]
    simp only [sum_cons, sum_nil, UInt16.toNat_zero]
    omega
  have hlen : (endMarkerIPv4Header farItem 0).length = ipv4HeaderSize := rfl
  have hcomplement := calculateIPv4Checksum_toNat hlen hsum
  rw [words16_endMarkerIPv4Header, Ones.addChain_eq (by decide) (by decide)]
  · have hall := Ones.norm_add_complement (m := 65535) (by decide)
      ((words16 (endMarkerIPv4Header farItem 0)).map UInt32.toNat).sum
    rw [← hcomplement, hzero] at hall
    simp only [sum_cons, sum_nil, UInt16.toNat_zero] at hall ⊢
    rw [← hall]
    congr 1
    omega
  · simp only [forall_mem_cons]
    refine ⟨by decide, by decide, by decide, by decide, by decide, ?_, ?_, ?_, ?_, ?_, ?_⟩ <;>
      first | omega | simp

theorem decodeEndMarker_packet (farItem : Far) :
    decodeEndMarker (endMarkerPacket farItem) =
      some { source := farItem.tunnelIP4Src.toNat, destination := farItem.tunnelIP4Dst.toNat,
             teid := farItem.tunnelTEID.toNat } := by
  have hsrc := ofBE_putUint32 farItem.tunnelIP4Src
  have hdst := ofBE_putUint32 farItem.tunnelIP4Dst
  have hteid := ofBE_putUint32 farItem.tunnelTEID
  have hsum := addChain_endMarkerIPv4Header farItem
  generalize hck : calculateIPv4Checksum (endMarkerIPv4Header farItem 0) = checksum at hsum
  have hwords : ((List.range 10).map fun i =>
      numberAt ((endMarkerPacket farItem).drop 14) (2 * i) 2) =
        (words16 (endMarkerIPv4Header farItem checksum)).map UInt32.toNat := by
    rw [endMarkerPacket, hck]
    simp only [endMarkerIPv4Header, putUint16, putUint32, cons_append, nil_append,
      words16_cons_toNat]
    simp [words16, range_succ, numberAt, ofBE, endMarkerDstMAC, endMarkerSrcMAC]
  unfold decodeEndMarker
  dsimp only
  rw [if_pos]
  · rw [← hsrc, ← hdst, ← hteid]
    rfl
  · refine ⟨?_, ?_, ?_, ?_, hwords ▸ hsum, ?_⟩ <;>
      simp [endMarkerPacket, endMarkerIPv4Header, putUint16, putUint32, endMarkerDstMAC,
        endMarkerSrcMAC, numberAt, ofBE, ipv4HeaderSize, udpHeaderSize, gtpHeaderSize,
        gtpEndMarkerType, tunnelGTPUPort]

def applyUpdateFAR (acc : PFCPSession × List (List UInt8)) (f : Far) :
    PFCPSession × List (List UInt8) :=
  match acc.1.updateFAR f acc.2 with
  | .ok updated => updated
  | .error _ => acc

/-- The version of a FAR right before an update: that of the latest earlier update of its ID,
or the session's own.  An update finds the FARs the session has, and no other. -/
def versionBefore (fars earlier : List Far) (farID : UInt32) : Option Far :=
  (fars.find? fun v => v.farID == farID).map fun v =>
    (earlier.find? fun f => f.farID == farID).getD v

/-- The versions left by the updates that ask for an End Marker and find their FAR, in order.
The earlier updates are listed latest first. -/
def leftTunnels (fars : List Far) : (earlier updates : List Far) → List Far
  | _, [] => []
  | earlier, f :: fs =>
    (if f.sendEndMarker then (versionBefore fars earlier f.farID).toList else []) ++
      leftTunnels fars (f :: earlier) fs

theorem applyUpdateFAR_eq (s : PFCPSession) (ms : List (List UInt8)) (f : Far) :
    applyUpdateFAR (s, ms) f = ((applyUpdateFAR (s, []) f).1,
      ms ++ (if f.sendEndMarker then (s.rules.fars.find? fun v => v.farID == f.farID).toList
        else []).map endMarkerPacket) ∧
    ∀ id, ((applyUpdateFAR (s, []) f).1.rules.fars.find? fun v => v.farID == id) =
      (s.rules.fars.find? fun v => v.farID == id).map fun v => if f.farID = id then f else v := by
  cases hfind : s.rules.fars.find? fun v => v.farID == f.farID with
  | none =>
    have hsame : applyUpdateFAR (s, ms) f = (s, ms) ∧ applyUpdateFAR (s, []) f = (s, []) := by
      simp [applyUpdateFAR, PFCPSession.updateFAR, hfind]
    refine ⟨by cases f.sendEndMarker <;> simp [hsame], fun id => ?_⟩
    by_cases hid : f.farID = id
    · subst hid
      simp [hsame, hfind]
    · simp [hsame, hid]
  | some v =>
    have hmem : f.farID ∈ s.rules.fars.map Far.farID := by
      have hid := find?_some hfind
      exact mem_map.mpr ⟨v, mem_of_find?_eq_some hfind, by simpa using hid⟩
    rcases hrep : KeyedList.replaceFirst Far.farID f s.rules.fars with _ | fars
    · exact absurd hmem (KeyedList.replaceFirst_eq_none.mp hrep)
    · have hfars : (applyUpdateFAR (s, []) f).1.rules.fars = fars := by
        simp [applyUpdateFAR, PFCPSession.updateFAR, hfind, hrep]
      refine ⟨?_, fun id => by rw [hfars, KeyedList.find?_replaceFirst hrep]⟩
      cases hmarker : f.sendEndMarker <;>
        simp [applyUpdateFAR, PFCPSession.updateFAR, hfind, hrep, hmarker, addEndMarker]

/-- The End Markers of a sequence of updates, and that each decodes as one for the tunnel
that the FAR had right before its update. -/
theorem updateFAR_endMarkers (s : PFCPSession) (ms : List (List UInt8)) (updates : List Far) :
    (updates.foldl applyUpdateFAR (s, ms)).2 =
      ms ++ (leftTunnels s.rules.fars [] updates).map endMarkerPacket ∧
    ∀ v ∈ leftTunnels s.rules.fars [] updates, decodeEndMarker (endMarkerPacket v) =
      some { source := v.tunnelIP4Src.toNat, destination := v.tunnelIP4Dst.toNat,
             teid := v.tunnelTEID.toNat } := by
  refine ⟨?_, fun v _ => decodeEndMarker_packet v⟩
  -- What a session finds after some updates are the versions right before the next one.
  suffices h : ∀ (earlier : List Far) (s' : PFCPSession) (ms : List (List UInt8)),
      (∀ id, (s'.rules.fars.find? fun v => v.farID == id) =
        versionBefore s.rules.fars earlier id) →
      (updates.foldl applyUpdateFAR (s', ms)).2 =
        ms ++ (leftTunnels s.rules.fars earlier updates).map endMarkerPacket from
    h [] s ms fun id => by simp [versionBefore]
  induction updates with
  | nil => simp [leftTunnels]
  | cons f fs ih =>
    intro earlier s' ms hfinds
    rcases applyUpdateFAR_eq s' ms f with ⟨happly, hnext⟩
    rw [foldl_cons, happly, ih (f :: earlier), leftTunnels, hfinds, map_append,
      append_assoc]
    intro id
    rw [hnext, hfinds, versionBefore, versionBefore, Option.map_map]
    by_cases hid : f.farID = id <;> simp [hid, Function.comp_def]

end Upf
