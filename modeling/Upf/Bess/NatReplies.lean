import Upf.Bess.NatChecksums
import Upf.Bess.NatMappings

/-!
# Replies to translated packets

A reply goes to the endpoint a packet out seemed to come from, and the entry of that
endpoint leads back.  Of the ICMP messages the module takes requests for a timestamp and
not the replies to them.

Main result: `replies_come_back_iff`.
-/

namespace Upf.Bess

open Lib AList

/-! ## Packets -/

/-- A field of 16 bits in network byte order, read or written. -/
def swap16 (x : UInt16) : UInt16 := x % 256 * 256 + x / 256

theorem toNat_swap16 (x : UInt16) : (swap16 x).toNat = x.toNat % 256 * 256 + x.toNat / 256 := by
  have hx := x.toNat_lt
  simp [swap16]
  omega

theorem swap16_swap16 (x : UInt16) : swap16 (swap16 x) = x := by
  have hx := x.toNat_lt
  apply UInt16.toNat_inj.mp
  rw [toNat_swap16, toNat_swap16]
  omega

def NAT.Direction.isForward : Direction → Bool
  | .forward => true
  | .reverse => false

def Endpoint.raw (e : Endpoint) : UInt32 × UInt16 := (e.addr, swap16 e.port)

/-- The protocol of what the module takes.  The first byte of an ICMP message, its type, is
the low one. -/
def Transport.accepted : Transport → Option IpProto
  | .tcp .. => some .tcp
  | .udp .. => some .udp
  | .icmp typeCode _ _ _ =>
    if typeCode.toUInt8 ∈ [0, 8, 13, 15, 16] then some .icmp else none
  | .other => none

namespace NatPacket

def extractEndpoint (forward : Bool) (p : NatPacket) : Option Endpoint :=
  p.transport.accepted.map fun protocol => ⟨p.addr forward, swap16 (p.port forward), protocol⟩

def replyType (type : UInt8) : Option UInt8 :=
  if type = 8 then some 0 else if type = 13 then some 14 else if type = 15 then some 16 else none

def Answers (r q : NatPacket) : Prop :=
  r.src = q.dst ∧ r.dst = q.src ∧ match q.transport, r.transport with
  | .tcp s d _ _, .tcp s' d' _ _ => s' = d ∧ d' = s
  | .udp s d _ _, .udp s' d' _ _ => s' = d ∧ d' = s
  | .icmp t _ i _, .icmp t' _ i' _ => replyType t.toUInt8 = some t'.toUInt8 ∧ i' = i
  | _, _ => False

/-- A packet is another one, to the source of a third; checksums may differ. -/
def Redirects (r' r p : NatPacket) : Prop :=
  r'.header = r.header ∧ r'.src = r.src ∧ r'.dst = p.src ∧ match r.transport, r'.transport with
  | .tcp s _ _ rest, .tcp s' d' _ rest' => s' = s ∧ d' = p.port true ∧ rest' = rest
  | .udp s _ _ rest, .udp s' d' _ rest' => s' = s ∧ d' = p.port true ∧ rest' = rest
  | .icmp t _ _ rest, .icmp t' _ i' rest' => t' = t ∧ i' = p.port true ∧ rest' = rest
  | _, _ => False

def AsksTimestamp (p : NatPacket) : Prop :=
  match p.transport with
  | .icmp typeCode _ _ _ => typeCode.toUInt8 = 13
  | _ => False

variable {p r : NatPacket} {before after : Endpoint}

theorem extractEndpoint_eq_some {forward : Bool} :
    p.extractEndpoint forward = some before ↔ p.transport.accepted = some before.protocol ∧
      before.raw = (p.addr forward, p.port forward) := by
  rw [extractEndpoint, Option.map_eq_some_iff]
  constructor
  · rintro ⟨protocol, haccepted, rfl⟩
    exact ⟨haccepted, Prod.ext rfl (swap16_swap16 _)⟩
  · rintro ⟨haccepted, hraw⟩
    obtain ⟨haddr, hport⟩ := Prod.mk.inj hraw
    refine ⟨before.protocol, haccepted, ?_⟩
    rw [← haddr, ← hport, swap16_swap16]

theorem Answers.accepted {old new : UInt32 × UInt16} (h : r.Answers (p.stamp true old new)) :
    r.port false = new.2 ∧ r.transport ≠ .other ∧
      (¬p.AsksTimestamp → r.transport.accepted = p.transport.accepted) ∧
      (p.AsksTimestamp → r.transport.accepted = none) := by
  obtain ⟨-, -, h⟩ := h
  cases hp : p.transport <;> cases hr : r.transport <;> simp only [stamp, hp, hr] at h
  case tcp.tcp =>
    simp only [port, hr, AsksTimestamp, hp]
    exact ⟨h.2, by simp, fun _ => rfl, False.elim⟩
  case udp.udp =>
    simp only [port, hr, AsksTimestamp, hp]
    exact ⟨h.2, by simp, fun _ => rfl, False.elim⟩
  case icmp.icmp =>
    simp only [port, hr, AsksTimestamp, hp, Transport.accepted]
    refine ⟨h.2, by simp, ?_⟩
    obtain ⟨h, -⟩ := h
    unfold replyType at h
    split_ifs at h with h8 h13 h15
    · rw [← Option.some.inj h]
      simp [h8]
    · rw [← Option.some.inj h]
      simp [h13]
    · rw [← Option.some.inj h]
      simp [h15]

theorem redirects_stamp (hother : r.transport ≠ .other) {old new : UInt32 × UInt16}
    (hnew : new = (p.src, p.port true)) : (r.stamp false old new).Redirects r p := by
  subst hnew
  refine ⟨rfl, rfl, rfl, ?_⟩
  cases hr : r.transport with
  | other => exact absurd hr hother
  | _ => simp [stamp, hr]

end NatPacket

namespace NAT

/-- A packet at an input gate, and what the module asks others for. -/
structure Arrival where
  dir : Direction
  packet : NatPacket
  now : UInt64
  rand : Nat → Nat := fun _ => 0
  garbage : UInt64 := 0

inductive Outcome where
  | drop
  | fault
  | emit (packet : NatPacket)

def Arrival.event (a : Arrival) (before : Endpoint) : Event where
  dir := a.dir
  before
  now := a.now
  rand := a.rand
  garbage := a.garbage

/-- The part of `DoProcessBatch` about one packet. -/
def doProcess (hash : UInt32 → Nat) (a : Arrival) (nat : NAT) : Outcome × NAT :=
  match a.packet.extractEndpoint a.dir.isForward with
  | none => (.drop, nat)
  | some before =>
    let found := nat.processPacket hash (a.event before)
    (match found.1 with
      | .drop => .drop
      | .fault => .fault
      | .emit after => .emit (a.packet.stamp a.dir.isForward before.raw after.raw), found.2)

def doProcessAll (hash : UInt32 → Nat) (as : List Arrival) (nat : NAT) : NAT :=
  as.foldl (fun nat a => (nat.doProcess hash a).2) nat

/-- The mapping of an endpoint is given up for the source of a packet. -/
def Reclaims (hash : UInt32 → Nat) (nat : NAT) (ev : Event) (x : Endpoint) : Prop :=
  ev.dir = .forward ∧ nat.map.lookup ev.before = none ∧ ∃ external old,
    nat.select hash ev.before ev.now ev.rand = .found external (some old) ∧
      (x = external ∨ x = old)

def Spares (hash : UInt32 → Nat) (x : Endpoint) : List Arrival → NAT → Prop
  | [], _ => True
  | a :: as, nat =>
    (∀ before ∈ a.packet.extractEndpoint a.dir.isForward,
      ¬Reclaims hash nat (a.event before) x) ∧ Spares hash x as (nat.doProcess hash a).2

/-! ## The table -/

structure Matched (map : NatTable) : Prop where
  paired : Paired NatEntry.endpoint map
  protocol : ∀ x e, map.lookup x = some e → e.endpoint.protocol = x.protocol

def Maps (nat : NAT) (x y : Endpoint) : Prop := ∃ e, nat.map.lookup x = some e ∧ e.endpoint = y

variable {hash : UInt32 → Nat} {nat : NAT} {ev : Event} {x y : Endpoint} {r : Verdict × NAT}

theorem Step.matched (hstep : Step hash nat ev r) (h : Matched nat.map) : Matched r.2.map := by
  cases hstep with
  | pass => exact h
  | @refresh entry hlook =>
    refine ⟨h.paired.update hlook rfl, fun y e hy => ?_⟩
    rcases lookup_insert_cases hy with ⟨rfl, rfl⟩ | ⟨-, hy⟩
    · exact h.protocol _ entry hlook
    · exact h.protocol y e hy
  | @create external _ _ hlook hselect =>
    obtain ⟨_, -, _, -, hexternal, havailable⟩ := selectFrom_found hselect
    obtain ⟨hpaired, hfree⟩ := reclaim_paired h.paired havailable
    have hprotocol : external.protocol = ev.before.protocol := by
      rw [hexternal]
      rfl
    refine ⟨hpaired.insert_pair (lookup_reclaim_none hlook) hfree rfl rfl, fun y e hy => ?_⟩
    rcases lookup_create hy with ⟨rfl, rfl⟩ | ⟨rfl, rfl⟩ | hy
    · exact hprotocol
    · exact hprotocol.symm
    · exact h.protocol y e (lookup_reclaim hy)
  | refuse _ hselect =>
    obtain ⟨_, -, _, -, -, havailable⟩ := selectFrom_found hselect
    exact ⟨(reclaim_paired h.paired havailable).1,
      fun y e hy => h.protocol y e (lookup_reclaim hy)⟩

theorem Step.emits (hstep : Step hash nat ev r) (hemit : r.1 = .emit y) :
    r.2.Maps ev.before y := by
  cases hstep with
  | pass _ hpass => exact hpass y hemit
  | refresh _ =>
    cases hemit
    exact ⟨_, lookup_insert _, rfl⟩
  | create _ _ _ =>
    cases hemit
    exact ⟨_, lookup_insert _, rfl⟩
  | refuse => cases hemit

theorem Step.stays (hstep : Step hash nat ev r) (htakes : ev.takesForward = true)
    (hkept : ¬Reclaims hash nat ev x) (hmaps : nat.Maps x y) : r.2.Maps x y := by
  obtain ⟨e, hx, rfl⟩ := hmaps
  cases hstep with
  | pass => exact ⟨e, hx, rfl⟩
  | refresh hlook =>
    by_cases hxb : x = ev.before
    · subst hxb
      cases hlook.symm.trans hx
      exact ⟨_, lookup_insert _, rfl⟩
    · exact ⟨e, (lookup_insert_ne hxb).trans hx, rfl⟩
  | @create external expired hdir hlook hselect =>
    obtain ⟨_, -, _, -, -, havailable⟩ := selectFrom_found hselect
    have hxb : x ≠ ev.before := by
      rintro rfl
      cases hlook.symm.trans hx
    refine ⟨e, (lookup_insert_ne hxb).trans ?_, rfl⟩
    cases expired with
    | none =>
      have hxe : x ≠ external := by
        rintro rfl
        cases havailable.symm.trans hx
      exact (lookup_insert_ne hxe).trans hx
    | some old =>
      have hapart (z : Endpoint) (hz : z = external ∨ z = old) : x ≠ z := by
        rintro rfl
        exact hkept ⟨hdir, hlook, external, old, hselect, hz⟩
      have hxe := hapart external (.inl rfl)
      rw [lookup_insert_ne hxe, reclaim, lookup_erase_ne hxe,
        lookup_erase_ne (hapart old (.inr rfl)), hx]
  | refuse hrefused => cases hrefused.symm.trans htakes

theorem Matched.step (h : Matched nat.map) (a : Arrival) (before : Endpoint) :
    Step hash nat (a.event before) (nat.processPacket hash (a.event before)) :=
  .of_processPacket h.paired rfl

theorem Matched.doProcess (h : Matched nat.map) (hash : UInt32 → Nat) (a : Arrival) :
    Matched (nat.doProcess hash a).2.map := by
  unfold NAT.doProcess
  split
  · exact h
  · exact (h.step a _).matched h

theorem Matched.doProcessAll (h : Matched nat.map) (hash : UInt32 → Nat) (as : List Arrival) :
    Matched (nat.doProcessAll hash as).map := by
  induction as generalizing nat with
  | nil => exact h
  | cons a as ih => exact ih (h.doProcess hash a)

theorem Spares.maps {as : List Arrival} (hspares : Spares hash x as nat) (h : Matched nat.map)
    (hmaps : nat.Maps x y) : (nat.doProcessAll hash as).Maps x y := by
  induction as generalizing nat with
  | nil => exact hmaps
  | cons a as ih =>
    obtain ⟨hhead, htail⟩ := hspares
    refine ih htail (h.doProcess hash a) ?_
    show (nat.doProcess hash a).2.Maps x y
    unfold NAT.doProcess
    split
    · exact hmaps
    · rename_i before hbefore
      exact (h.step a before).stays rfl (hhead before hbefore) hmaps

/-! ## There and back -/

theorem doProcess_emit (h : Matched nat.map) {a : Arrival} {q : NatPacket}
    (hsent : (nat.doProcess hash a).1 = .emit q) :
    ∃ before after, a.packet.extractEndpoint a.dir.isForward = some before ∧
      (nat.doProcess hash a).2.Maps before after ∧
      a.packet.stamp a.dir.isForward before.raw after.raw = q := by
  unfold doProcess at hsent ⊢
  split at hsent
  · cases hsent
  · rename_i before hbefore
    dsimp only at hsent
    split at hsent
    · cases hsent
    · cases hsent
    · rename_i after hemit
      cases hsent
      exact ⟨before, after, hbefore, (h.step a before).emits hemit, rfl⟩

/-- However a reply to a packet that was sent on arrives, before the mapping of its source is
given up: it comes back to that source, unless a timestamp was asked for. -/
theorem replies_come_back_iff (parseIpv4Address : String → Option UInt32)
    (arg : List ExternalAddress) (nat : NAT) (hinit : init parseIpv4Address arg = .ok nat)
    (hash : UInt32 → Nat) (earlier between : List Arrival) (query reply : Arrival) (q : NatPacket)
    (hquery : query.dir = .forward) (hreply : reply.dir = .reverse)
    (hsent : ((nat.doProcessAll hash earlier).doProcess hash query).1 = .emit q)
    (hanswers : reply.packet.Answers q)
    (hspares : ∀ x ∈ query.packet.extractEndpoint true,
      Spares hash x between ((nat.doProcessAll hash earlier).doProcess hash query).2) :
    (∃ r, ((nat.doProcessAll hash (earlier ++ query :: between)).doProcess hash reply).1 =
        .emit r ∧ r.Redirects reply.packet query.packet) ↔
      ¬query.packet.AsksTimestamp := by
  have hstart : Matched nat.map := by
    rw [(init_ok hinit).2.2.2.1]
    exact ⟨.empty, fun x e hx => nomatch hx⟩
  have hearlier := hstart.doProcessAll hash earlier
  have hsecond := hearlier.doProcess hash query
  obtain ⟨before, after, hbefore, hmaps, rfl⟩ := doProcess_emit hearlier hsent
  rw [hquery] at hbefore hanswers
  have hthen : nat.doProcessAll hash (earlier ++ query :: between) =
      ((nat.doProcessAll hash earlier).doProcess hash query).2.doProcessAll hash between :=
    List.foldl_append ..
  rw [hthen]
  -- The mapping is still there, in both directions.
  have hthird := hsecond.doProcessAll hash between
  obtain ⟨e, he, rfl⟩ := (hspares before hbefore).maps hsecond hmaps
  obtain ⟨w, hw, hback⟩ := hthird.paired before e he
  have hprotocol := hthird.protocol before e he
  generalize ((nat.doProcessAll hash earlier).doProcess hash query).2.doProcessAll hash between =
    nat₂ at hw
  obtain ⟨haccepted, hraw⟩ := NatPacket.extractEndpoint_eq_some.mp hbefore
  obtain ⟨hport, hother, hkeeps, hrefuses⟩ := hanswers.accepted
  by_cases hasks : query.packet.AsksTimestamp
  · refine iff_of_false ?_ (not_not.mpr hasks)
    rintro ⟨r, hr, -⟩
    unfold doProcess at hr
    rw [NatPacket.extractEndpoint, hrefuses hasks] at hr
    cases hr
  · refine iff_of_true ⟨reply.packet.stamp false e.endpoint.raw before.raw, ?_,
      NatPacket.redirects_stamp hother hraw⟩ hasks
    have hextract : reply.packet.extractEndpoint false = some e.endpoint := by
      rw [NatPacket.extractEndpoint_eq_some, hkeeps hasks, hprotocol]
      exact ⟨haccepted, Prod.ext hanswers.2.1.symm hport.symm⟩
    simp only [doProcess, hreply, Direction.isForward, hextract, processPacket, Arrival.event, hw,
      hback]

def icmpPacket (src dst : UInt32) (typeCode ident : UInt16) : NatPacket where
  header := [0x0045]
  src
  dst
  checksum := 0
  transport := .icmp typeCode 0 ident []
  version := by decide

/-- A message from an internal endpoint, and one to port 2000 of the external address. -/
def messageOut (typeCode : UInt16) : Arrival where
  dir := .forward
  packet := icmpPacket 7 9 typeCode 5
  now := 1

def messageIn (typeCode : UInt16) : Arrival where
  dir := .reverse
  packet := icmpPacket 9 1 typeCode 0xD007
  now := 2

theorem echo_reply_comes_back :
    ∃ r, ((tenPortsNat.doProcessAll (fun _ => 0) [messageOut 8]).doProcess (fun _ => 0)
      (messageIn 0)).1 = .emit r ∧ r.Redirects (messageIn 0).packet (messageOut 8).packet :=
  (replies_come_back_iff onlyAddress tenPorts tenPortsNat rfl (fun _ => 0) [] [] (messageOut 8)
    (messageIn 0) _ rfl rfl rfl ⟨rfl, rfl, by decide, by decide⟩ fun _ _ => trivial).mpr
      (show ¬(8 : UInt16).toUInt8 = 13 by decide)

theorem timestamp_reply_dropped :
    ∃ q, (tenPortsNat.doProcess (fun _ => 0) (messageOut 13)).1 = .emit q ∧
      (messageIn 14).packet.Answers q ∧
      ((tenPortsNat.doProcessAll (fun _ => 0) [messageOut 13]).doProcess (fun _ => 0)
        (messageIn 14)).1 = .drop :=
  ⟨_, rfl, ⟨rfl, rfl, by decide, by decide⟩, rfl⟩

end NAT

end Upf.Bess
