import Upf.Lib.OnesComplement

/-!
# Checksums of translated packets

`NAT` and `StaticNAT` change addresses and ports of a packet and update its
checksums by what changed.  All numbers are the raw values of the fields, read in the byte
order of the host; a one's complement sum does not depend on it.

Main result: `translation_verifies_iff`.
-/

namespace Upf.Bess

open Lib

/-! ## Incremental updates -/

def checksumIncrement32 (oldValue newValue : UInt32) : UInt32 :=
  let sum := (~~~oldValue >>> 16) + (~~~oldValue &&& (0xFFFF : UInt32))
  sum + ((newValue >>> 16) + (newValue &&& (0xFFFF : UInt32)))

def checksumIncrement16 (oldValue newValue : UInt16) : UInt32 :=
  (~~~oldValue).toUInt32 + newValue.toUInt32

def foldChecksum (cksum : UInt32) : UInt16 :=
  let cksum := (cksum >>> 16) + (cksum &&& (0xFFFF : UInt32))
  ~~~(cksum + (cksum >>> 16)).toUInt16

def updateChecksumWithIncrement (oldChecksum : UInt16) (increment : UInt32) : UInt16 :=
  foldChecksum ((~~~oldChecksum).toUInt32 + increment)

/-- The update of a UDP checksum: none if it is not in use, and never to zero. -/
def updateUdpChecksum (oldChecksum : UInt16) (increment : UInt32) : UInt16 :=
  if oldChecksum = 0 then 0
  else
    let updated := updateChecksumWithIncrement oldChecksum increment
    if updated = 0 then 0xffff else updated

/-! ## Packets -/

/-- What follows the IP header: ports or an identifier, the checksum and the other words it
covers, a pseudo header's length and an odd last byte included. -/
inductive Transport where
  | tcp (srcPort dstPort checksum : UInt16) (rest : List UInt16)
  | udp (srcPort dstPort checksum : UInt16) (rest : List UInt16)
  | icmp (typeCode checksum ident : UInt16) (rest : List UInt16)
  | other
deriving DecidableEq

def wordSum (ws : List UInt16) : Nat := (ws.map UInt16.toNat).sum

structure NatPacket where
  header : List UInt16
  src : UInt32
  dst : UInt32
  checksum : UInt16
  transport : Transport
  version : wordSum header ≠ 0

/-- The two 16-bit words of an address, added up. -/
def halves (x : UInt32) : Nat := x.toNat / 65536 + x.toNat % 65536

def Verifies (sum : Nat) : Prop := Ones.norm 65535 sum = 65535

instance (sum : Nat) : Decidable (Verifies sum) := inferInstanceAs (Decidable (_ = _))

namespace NatPacket

def ipSum (p : NatPacket) : Nat :=
  wordSum p.header + halves p.src + halves p.dst + p.checksum.toNat

/-- The transport checksum verifies: over a pseudo header of addresses and protocol too for
TCP and UDP, where a UDP checksum of zero is not in use. -/
def L4Verifies (p : NatPacket) : Prop :=
  match p.transport with
  | .tcp s d c rest =>
    Verifies (halves p.src + halves p.dst + 0x0600 + s.toNat + d.toNat + wordSum rest + c.toNat)
  | .udp s d c rest => c = 0 ∨
    Verifies (halves p.src + halves p.dst + 0x1100 + s.toNat + d.toNat + wordSum rest + c.toNat)
  | .icmp t c i rest => Verifies (t.toNat + i.toNat + wordSum rest + c.toNat)
  | .other => True

instance (p : NatPacket) : Decidable p.L4Verifies := by
  unfold L4Verifies
  split <;> infer_instance

def KeepsUdpUse (p q : NatPacket) : Prop :=
  match p.transport, q.transport with
  | .udp _ _ c _, .udp _ _ c' _ => c' = 0 ↔ c = 0
  | _, _ => True

def addr (forward : Bool) (p : NatPacket) : UInt32 := if forward then p.src else p.dst

def setAddr (forward : Bool) (a : UInt32) (p : NatPacket) : NatPacket :=
  if forward then { p with src := a } else { p with dst := a }

def port (forward : Bool) (p : NatPacket) : UInt16 :=
  match p.transport with
  | .tcp s d _ _ => if forward then s else d
  | .udp s d _ _ => if forward then s else d
  | .icmp _ _ i _ => i
  | .other => 0

def stamp (forward : Bool) (before after : UInt32 × UInt16) (p : NatPacket) : NatPacket :=
  let l3Increment := checksumIncrement32 before.1 after.1
  let l4Increment := l3Increment + checksumIncrement16 before.2 after.2
  let transport := match p.transport with
    | .tcp s d c rest =>
      .tcp (if forward then after.2 else s) (if forward then d else after.2)
        (updateChecksumWithIncrement c l4Increment) rest
    | .udp s d c rest =>
      .udp (if forward then after.2 else s) (if forward then d else after.2)
        (updateUdpChecksum c l4Increment) rest
    -- An ICMP checksum is not over the addresses.
    | .icmp t c _ rest =>
      .icmp t (updateChecksumWithIncrement c (checksumIncrement16 before.2 after.2)) after.2 rest
    | .other => .other
  { p.setAddr forward after.1 with
    checksum := updateChecksumWithIncrement p.checksum l3Increment, transport
    version := by unfold setAddr; split <;> exact p.version }

def staticTranslate (forward : Bool) (newAddr : UInt32) (p : NatPacket) : NatPacket :=
  let incr := checksumIncrement32 (p.addr forward) newAddr
  let transport := match p.transport with
    | .tcp s d c rest => .tcp s d (updateChecksumWithIncrement c incr) rest
    | .udp s d c rest => .udp s d (updateUdpChecksum c incr) rest
    | .icmp t c i rest => .icmp t c i rest
    | .other => .other
  { p.setAddr forward newAddr with
    checksum := updateChecksumWithIncrement p.checksum incr, transport
    version := by unfold setAddr; split <;> exact p.version }

end NatPacket

/-! ## What an update does to a sum -/

theorem halves_le (x : UInt32) : halves x ≤ 2 * 65535 := by
  have hlt := x.toNat_lt
  unfold halves
  omega

theorem checksumIncrement32_toNat (old new : UInt32) :
    (checksumIncrement32 old new).toNat = 2 * 65535 - halves old + halves new := by
  have hold := old.toNat_lt
  have hnew := new.toNat_lt
  have hmask : ∀ n, n &&& 65535 = n % 65536 := fun n => Nat.and_two_pow_sub_one_eq_mod n 16
  simp [checksumIncrement32, halves, Nat.shiftRight_eq_div_pow, hmask]
  omega

theorem checksumIncrement16_toNat (old new : UInt16) :
    (checksumIncrement16 old new).toNat = 65535 - old.toNat + new.toNat := by
  have hold := old.toNat_lt
  have hnew := new.toNat_lt
  simp [checksumIncrement16]
  omega

theorem l4Increment_toNat (old new : UInt32) (oldPort newPort : UInt16) :
    (checksumIncrement32 old new + checksumIncrement16 oldPort newPort).toNat =
      3 * 65535 - (halves old + oldPort.toNat) + (halves new + newPort.toNat) := by
  have hold := halves_le old
  have hnew := halves_le new
  have holdPort := oldPort.toNat_lt
  have hnewPort := newPort.toNat_lt
  rw [UInt32.toNat_add, checksumIncrement32_toNat, checksumIncrement16_toNat]
  omega

/-- The words of a sum that changed, at most `k` of them, and the others. -/
structure Update (k old new : Nat) (increment : UInt32) : Prop where
  few : k ≤ 3
  old_le : old ≤ k * 65535
  new_le : new ≤ k * 65535
  increment_eq : increment.toNat = k * 65535 - old + new

section

variable {k old new others : Nat} {increment : UInt32} {c : UInt16}

theorem updateChecksum_toNat (h : Update k old new increment) :
    (updateChecksumWithIncrement c increment).toNat =
      65535 - Ones.norm 65535 (65535 - c.toNat + increment.toNat) := by
  have hc := c.toNat_lt
  obtain ⟨hfew, hold, hnew, hinc⟩ := h
  have hsum : ((~~~c).toUInt32 + increment).toNat = 65535 - c.toNat + increment.toNat := by
    simp
    omega
  rw [← hsum]
  exact Ones.complement_foldTwice _

theorem update_modEq (h : Update k old new increment) :
    others + new + (updateChecksumWithIncrement c increment).toNat ≡
      others + old + c.toNat [MOD 65535] := by
  have hc := c.toNat_lt
  rw [updateChecksum_toNat h]
  obtain ⟨hfew, hold, hnew, hinc⟩ := h
  generalize hA : 65535 - c.toNat + increment.toNat = A
  have hle := Ones.norm_le (by decide : 0 < 65535) A
  have hleft : others + new + (65535 - Ones.norm 65535 A) + A ≡ others + new [MOD 65535] := by
    refine ((Ones.norm_modEq 65535 A).symm.add_left _).trans ?_
    rw [Nat.add_assoc, Nat.sub_add_cancel hle]
    exact Nat.add_modulus_modEq_iff.mpr rfl
  have hright : others + old + c.toNat + A = others + new + 65535 * (k + 1) := by omega
  refine Nat.ModEq.add_right_cancel' A (hleft.trans ?_)
  rw [hright]
  exact (Nat.add_modEq_left_iff.mpr (Nat.dvd_mul_right _ _)).symm

/-- A sum verifies after an update unless all its words are zero and the checksum is too. -/
theorem update_verifies_iff (h : Update k old new increment)
    (hv : Verifies (others + old + c.toNat)) :
    Verifies (others + new + (updateChecksumWithIncrement c increment).toNat) ↔
      ¬(others + new = 0 ∧ old + c.toNat < (k + 1) * 65535) := by
  have hc := c.toNat_lt
  obtain ⟨hmod, -⟩ := (Ones.norm_eq_ones (by decide)).mp hv
  have hnewMod := (update_modEq h).trans hmod
  rw [Verifies, Ones.norm_eq_ones (by decide), and_iff_right hnewMod]
  apply not_congr
  rw [Nat.add_eq_zero_iff, and_congr_right_iff]
  intro hzero
  rw [updateChecksum_toNat h]
  obtain ⟨hfew, hold, hnew, hinc⟩ := h
  generalize hA : 65535 - c.toNat + increment.toNat = A
  have hle := Ones.norm_le (by decide : 0 < 65535) A
  have hAmod : A ≡ 0 [MOD 65535] := by
    refine Nat.ModEq.add_right_cancel hmod ?_
    have hsum : A + (others + old + c.toNat) = 0 + 65535 * (k + 1) := by omega
    rw [hsum]
    exact Nat.add_modEq_left_iff.mpr (Nat.dvd_mul_right _ _)
  have hones : Ones.norm 65535 A = 65535 ↔ A ≠ 0 :=
    (Ones.norm_eq_ones (by decide)).trans (and_iff_right hAmod)
  constructor
  · intro hsub
    have := hones.mp (by omega)
    omega
  · intro hlt
    have := hones.mpr (by omega)
    omega

theorem update_verifies (h : Update k old new increment) (hothers : others ≠ 0)
    (hv : Verifies (others + old + c.toNat)) :
    Verifies (others + new + (updateChecksumWithIncrement c increment).toNat) :=
  (update_verifies_iff h hv).mpr fun hzero => hothers (by omega)

@[simp] theorem updateUdpChecksum_eq_zero : updateUdpChecksum c increment = 0 ↔ c = 0 := by
  unfold updateUdpChecksum
  split
  · simp [*]
  · simp only [*, iff_false]
    split
    · decide
    · assumption

theorem updateUdp_verifies (h : Update k old new increment) (hothers : others ≠ 0)
    (hv : c = 0 ∨ Verifies (others + old + c.toNat)) :
    updateUdpChecksum c increment = 0 ∨
      Verifies (others + new + (updateUdpChecksum c increment).toNat) := by
  rcases eq_or_ne c 0 with hc | hc
  · exact .inl (updateUdpChecksum_eq_zero.mpr hc)
  · right
    have hupdated := update_verifies h hothers (hv.resolve_left hc)
    simp only [updateUdpChecksum, if_neg hc]
    split
    next hzero =>
      -- All ones in the place of zero is the same modulo all ones.
      rw [hzero] at hupdated
      obtain ⟨hmod, -⟩ := (Ones.norm_eq_ones (by decide)).mp hupdated
      refine (Ones.norm_eq_ones (by decide)).mpr ⟨?_, by omega⟩
      exact Nat.add_modulus_modEq_iff.mpr hmod
    next => exact hupdated

end

/-! ## Translations -/

theorem Verifies.of_eq {m n : Nat} (h : Verifies m) (heq : m = n) : Verifies n := heq ▸ h

theorem update32 (old new : UInt32) :
    Update 2 (halves old) (halves new) (checksumIncrement32 old new) :=
  ⟨by decide, halves_le old, halves_le new, checksumIncrement32_toNat old new⟩

theorem update16 (old new : UInt16) :
    Update 1 old.toNat new.toNat (checksumIncrement16 old new) := by
  have hold := old.toNat_lt
  have hnew := new.toNat_lt
  refine ⟨by decide, by omega, by omega, ?_⟩
  rw [checksumIncrement16_toNat, Nat.one_mul]

theorem update48 (old new : UInt32) (oldPort newPort : UInt16) :
    Update 3 (halves old + oldPort.toNat) (halves new + newPort.toNat)
      (checksumIncrement32 old new + checksumIncrement16 oldPort newPort) := by
  have hold := halves_le old
  have hnew := halves_le new
  have holdPort := oldPort.toNat_lt
  have hnewPort := newPort.toNat_lt
  exact ⟨by decide, by omega, by omega, l4Increment_toNat old new oldPort newPort⟩

namespace NatPacket

variable {p : NatPacket} {forward : Bool}

def Good (p q : NatPacket) : Prop :=
  Verifies q.ipSum ∧ q.L4Verifies ∧ p.KeepsUdpUse q

/-- An ICMP message that is all zero once the identifier is `newIdent`, unless its
identifier and checksum were all ones. -/
def BecomesZero (p : NatPacket) (newIdent : UInt16) : Prop :=
  match p.transport with
  | .icmp t c i rest =>
    t = 0 ∧ newIdent = 0 ∧ (∀ w ∈ rest, w = 0) ∧ ¬(i = 0xFFFF ∧ c = 0xFFFF)
  | _ => False

def otherAddr (forward : Bool) (p : NatPacket) : UInt32 := if forward then p.dst else p.src

theorem halves_add (forward : Bool) (p : NatPacket) :
    halves p.src + halves p.dst = halves (p.otherAddr forward) + halves (p.addr forward) := by
  cases forward
  · rfl
  · exact Nat.add_comm _ _

theorem halves_setAddr (forward : Bool) (a : UInt32) (p : NatPacket) :
    halves (p.setAddr forward a).src + halves (p.setAddr forward a).dst =
      halves (p.otherAddr forward) + halves a := by
  cases forward
  · rfl
  · exact Nat.add_comm _ _

@[simp] theorem setAddr_header (forward : Bool) (a : UInt32) (p : NatPacket) :
    (p.setAddr forward a).header = p.header := by
  cases forward <;> rfl

theorem ip_verifies (a : UInt32) (h : Verifies p.ipSum) :
    Verifies (wordSum (p.setAddr forward a).header + halves (p.setAddr forward a).src +
      halves (p.setAddr forward a).dst + (updateChecksumWithIncrement p.checksum
        (checksumIncrement32 (p.addr forward) a)).toNat) := by
  have hold := halves_add forward p
  have hnew := halves_setAddr forward a p
  have hversion := p.version
  rw [setAddr_header]
  unfold ipSum at h
  exact (update_verifies (c := p.checksum) (update32 (p.addr forward) a)
    (show wordSum p.header + halves (p.otherAddr forward) ≠ 0 by omega)
    (h.of_eq (by omega))).of_eq (by omega)

theorem wordSum_eq_zero {ws : List UInt16} : wordSum ws = 0 ↔ ∀ w ∈ ws, w = 0 := by
  induction ws with
  | nil => simp [wordSum]
  | cons w ws ih =>
    rw [List.forall_mem_cons, ← ih, ← UInt16.toNat_inj]
    exact Nat.add_eq_zero_iff

theorem ports_add (forward : Bool) (s d : UInt16) : s.toNat + d.toNat =
    (if forward then d else s).toNat + (if forward then s else d).toNat := by
  cases forward
  · rfl
  · exact Nat.add_comm _ _

theorem ports_stamped (forward : Bool) (s d port : UInt16) :
    (if forward then port else s).toNat + (if forward then d else port).toNat =
      (if forward then d else s).toNat + port.toNat := by
  cases forward
  · rfl
  · exact Nat.add_comm _ _

theorem stamp_good_iff (after : UInt32 × UInt16) (hip : Verifies p.ipSum) (hl4 : p.L4Verifies) :
    p.Good (p.stamp forward (p.addr forward, p.port forward) after) ↔
      ¬p.BecomesZero after.2 := by
  have hold := halves_add forward p
  have hnew := halves_setAddr forward after.1 p
  refine (and_iff_right (ip_verifies after.1 hip)).trans ?_
  unfold L4Verifies at hl4
  cases htransport : p.transport with
  | tcp s d c rest =>
    simp only [htransport] at hl4
    simp only [BecomesZero, L4Verifies, KeepsUdpUse, stamp, port, htransport, and_true,
      not_false_eq_true, iff_true]
    have hp := ports_add forward s d
    have hs := ports_stamped forward s d after.2
    exact (update_verifies (c := c)
      (update48 (p.addr forward) after.1 (if forward then s else d) after.2)
      (show halves (p.otherAddr forward) + 0x0600 + (if forward then d else s).toNat +
        wordSum rest ≠ 0 by omega) (hl4.of_eq (by omega))).of_eq (by omega)
  | udp s d c rest =>
    simp only [htransport] at hl4
    simp only [BecomesZero, L4Verifies, KeepsUdpUse, stamp, port, htransport,
      updateUdpChecksum_eq_zero, and_true, not_false_eq_true, iff_true]
    have hp := ports_add forward s d
    have hs := ports_stamped forward s d after.2
    have hudp := updateUdp_verifies (c := c)
      (update48 (p.addr forward) after.1 (if forward then s else d) after.2)
      (show halves (p.otherAddr forward) + 0x1100 + (if forward then d else s).toNat +
        wordSum rest ≠ 0 by omega) (hl4.imp_right fun h => h.of_eq (by omega))
    rw [updateUdpChecksum_eq_zero] at hudp
    exact hudp.imp_right fun h => h.of_eq (by omega)
  | icmp t c i rest =>
    simp only [htransport] at hl4
    simp only [BecomesZero, L4Verifies, KeepsUdpUse, stamp, port, htransport, and_true]
    have hi := i.toNat_lt
    have hc := c.toNat_lt
    have hiff := update_verifies_iff (update16 i after.2)
      (hl4.of_eq (show _ = t.toNat + wordSum rest + i.toNat + c.toNat by omega))
    rw [Nat.add_right_comm _ (wordSum rest)] at hiff
    rw [hiff, not_iff_not, ← wordSum_eq_zero]
    simp only [← UInt16.toNat_inj, UInt16.toNat_ofNat]
    omega
  | other => simp [BecomesZero, L4Verifies, KeepsUdpUse, stamp, htransport]

theorem staticTranslate_good (a : UInt32) (hip : Verifies p.ipSum) (hl4 : p.L4Verifies) :
    p.Good (p.staticTranslate forward a) := by
  have hold := halves_add forward p
  have hnew := halves_setAddr forward a p
  refine ⟨ip_verifies a hip, ?_⟩
  unfold L4Verifies at hl4
  cases htransport : p.transport with
  | tcp s d c rest =>
    simp only [htransport] at hl4
    simp only [L4Verifies, KeepsUdpUse, staticTranslate, htransport, and_true]
    exact (update_verifies (c := c) (update32 (p.addr forward) a)
      (show halves (p.otherAddr forward) + 0x0600 + s.toNat + d.toNat + wordSum rest ≠ 0 by
        omega) (hl4.of_eq (by omega))).of_eq (by omega)
  | udp s d c rest =>
    simp only [htransport] at hl4
    simp only [L4Verifies, KeepsUdpUse, staticTranslate, htransport, updateUdpChecksum_eq_zero,
      and_true]
    have hudp := updateUdp_verifies (c := c) (update32 (p.addr forward) a)
      (show halves (p.otherAddr forward) + 0x1100 + s.toNat + d.toNat + wordSum rest ≠ 0 by
        omega) (hl4.imp_right fun h => h.of_eq (by omega))
    rw [updateUdpChecksum_eq_zero] at hudp
    exact hudp.imp_right fun h => h.of_eq (by omega)
  | icmp =>
    simp only [htransport] at hl4
    simpa only [L4Verifies, KeepsUdpUse, staticTranslate, htransport, and_true] using hl4
  | other => simp [L4Verifies, KeepsUdpUse, staticTranslate, htransport]

/-- The translations of both modules, in both directions, leave checksums that verify and a
UDP checksum in use or not as it was, but for an ICMP message that becomes all zero. -/
theorem translation_verifies_iff (p : NatPacket) (hip : Verifies p.ipSum) (hl4 : p.L4Verifies)
    (forward : Bool) (newAddr : UInt32) (newPort : UInt16) :
    (p.Good (p.stamp forward (p.addr forward, p.port forward) (newAddr, newPort)) ∧
        p.Good (p.staticTranslate forward newAddr)) ↔
      ¬p.BecomesZero newPort :=
  (and_iff_left (staticTranslate_good newAddr hip hl4)).trans
    (stamp_good_iff (newAddr, newPort) hip hl4)

def echoReply : NatPacket where
  header := [0x0045, 0x1C00, 0, 0, 0x0140]
  src := 0x0100000A
  dst := 0x0200000A
  checksum := 0xDF66
  transport := .icmp 0 0xFEFF 0x0100 [0]
  version := by decide

theorem translation_verifies_echoReply :
    echoReply.Good (echoReply.stamp false (0x0200000A, 0x0100) (0x0300000A, 0x0700)) ∧
      echoReply.Good (echoReply.staticTranslate false 0x0300000A) :=
  (translation_verifies_iff echoReply (by decide +kernel) (by decide +kernel) false 0x0300000A
    0x0700).mpr (by simp [BecomesZero, echoReply])

/-- Identifier zero makes the message all zero, its checksum too, which does not verify. -/
theorem stamp_echoReply_zero :
    Verifies echoReply.ipSum ∧ echoReply.L4Verifies ∧
      (echoReply.stamp false (0x0200000A, 0x0100) (0x0300000A, 0)).transport = .icmp 0 0 0 [0] ∧
      ¬(echoReply.stamp false (0x0200000A, 0x0100) (0x0300000A, 0)).L4Verifies := by
  decide +kernel

end NatPacket

end Upf.Bess
