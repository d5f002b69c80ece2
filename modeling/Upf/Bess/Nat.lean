import Mathlib.Algebra.Order.Ring.Nat
import Mathlib.Data.List.Sort
import Upf.Lib.TwoWay

/-!
# The address translation module

`NAT` maps internal endpoints to ports of its external addresses.  One table
holds both directions: the entry of an internal endpoint names its external one, and
the other way round.  A packet from an internal endpoint without an entry has the
module look for a port, by probing from a random one on in each range of ports; a
mapping that was not used for long is given up to the newcomer.

The hash of an address, the random choices, the clock and whether the table takes an
insertion are parameters.
-/

namespace Upf.Bess

open Lib Nat List

inductive IpProto where
  | tcp
  | udp
  | icmp
deriving DecidableEq

structure Endpoint where
  addr : UInt32
  /-- TCP or UDP port, or ICMP identifier. -/
  port : UInt16
  protocol : IpProto
deriving DecidableEq

structure NatEntry where
  endpoint : Endpoint
  /-- Time of the last packet out; anything in the entry of an external endpoint. -/
  lastRefresh : UInt64
deriving DecidableEq

abbrev NatTable := AList fun _ : Endpoint => NatEntry

structure PortRange where
  beginPort : Nat
  endPort : Nat
  suspended : Bool
  nonempty : beginPort < endPort
  fits : endPort ≤ 65535
deriving DecidableEq

structure NAT where
  extAddrs : List UInt32
  /-- The ranges for each address. -/
  portRanges : List (List PortRange)
  map : NatTable := ∅

structure PbPortRange where
  beginPort : UInt32
  endPort : UInt32
  suspended : Bool := false
deriving DecidableEq

structure ExternalAddress where
  extAddr : String
  portRanges : List PbPortRange := []
deriving DecidableEq

inductive NatInitError where
  | malformedRange (extAddr : String)
  | invalidAddress (extAddr : String)
  | noAddress
deriving DecidableEq

def NatInitError.message : NatInitError → String
  | .malformedRange extAddr => "Port range for address " ++ extAddr ++ " is malformed"
  | .invalidAddress extAddr => "invalid IP address " ++ extAddr
  | .noAddress => "at least one external IP address must be specified"

def PbPortRange.toRange (r : PbPortRange) : Option PortRange :=
  if h : r.beginPort.toNat < r.endPort.toNat ∧ r.endPort.toNat ≤ 65535 then
    some
      { beginPort := r.beginPort.toNat
        endPort := r.endPort.toNat
        suspended := r.suspended
        nonempty := h.1
        fits := h.2 }
  else none

def ExternalAddress.ranges (a : ExternalAddress) : List PortRange :=
  if a.portRanges = [] then [⟨0, 65535, false, by decide, by decide⟩]
  else a.portRanges.filterMap PbPortRange.toRange

namespace NAT

def init (parseIpv4Address : String → Option UInt32) (arg : List ExternalAddress) :
    Except NatInitError NAT :=
  match arg.find? fun a => a.portRanges.any fun r => r.toRange.isNone with
  | some a => .error (.malformedRange a.extAddr)
  | none =>
    match arg.find? fun a => (parseIpv4Address a.extAddr).isNone with
    | some a => .error (.invalidAddress a.extAddr)
    | none =>
      if arg = [] then .error .noAddress
      else
        .ok
          { extAddrs :=
              (arg.filterMap fun a => parseIpv4Address a.extAddr).insertionSort (· ≤ ·)
            portRanges := arg.map ExternalAddress.ranges }

def kTimeOutNs : UInt64 := 300 * 1000 * 1000 * 1000

def kMaxTrials : Nat := 128

inductive Offer where
  | skip
  /-- No port at all for this endpoint. -/
  | giveUp
  /-- The ports from `min` up to, not including, `min + range`. -/
  | ports (min range : Nat)
deriving DecidableEq

def unprivileged (port : UInt16) : Bool := port &&& ~~~1023 ≠ 0

def offer (internal : Endpoint) (r : PortRange) : Offer :=
  if r.suspended then .skip
  else if internal.protocol = .icmp then .ports r.beginPort (r.endPort - r.beginPort)
  else if internal.port = 0 then .giveUp
  else if unprivileged internal.port then
    if r.endPort ≤ 1024 then .skip
    else .ports (max 1024 r.beginPort) ((r.endPort - max 1024 r.beginPort + 1) % 2 ^ 16)
  else if 1023 ≤ r.beginPort then .skip
  else .ports r.beginPort (min 1023 r.endPort - r.beginPort)

def nextPort (min range port : Nat) : Nat :=
  let port := (port + 1) % 2 ^ 16
  if port = 0 ∨ min + range ≤ port then min else port

/-- How the choice of an external endpoint ends. -/
inductive Selection where
  | none
  /-- An entry without one in the other direction. -/
  | fault
  /-- An endpoint, and the internal endpoint it is taken from. -/
  | found (external : Endpoint) (expired : Option Endpoint)
deriving DecidableEq

section Select

variable (map : NatTable) (now : UInt64) (addr : UInt32) (internal : Endpoint)

def externalAt (port : Nat) : Endpoint := ⟨addr, UInt16.ofNat port, internal.protocol⟩

def probe (min range start : Nat) : (trials : Nat) → (port : Nat) → Selection
  | 0, _ => .none
  | trials + 1, port =>
    match map.lookup (externalAt addr internal port) with
    | none => .found (externalAt addr internal port) none
    | some hashReverse =>
      match map.lookup hashReverse.endpoint with
      | none => .fault
      | some hashForward =>
        if now - hashForward.lastRefresh > kTimeOutNs then
          .found (externalAt addr internal port) (some hashReverse.endpoint)
        else if nextPort min range port = start then .none
        else probe min range start trials (nextPort min range port)

def selectFrom (rand : Nat → Nat) : (idx : Nat) → List PortRange → Selection
  | _, [] => .none
  | idx, r :: rs =>
    match offer internal r with
    | .skip => selectFrom rand (idx + 1) rs
    | .giveUp => .none
    | .ports min range =>
      match probe map now addr internal min range (min + rand idx % range) kMaxTrials
          (min + rand idx % range) with
      | .none => selectFrom rand (idx + 1) rs
      | selection => selection

end Select

def extAddrIndex (hash : UInt32 → Nat) (nat : NAT) (addr : UInt32) : Nat :=
  hash addr % nat.extAddrs.length

def select (hash : UInt32 → Nat) (nat : NAT) (internal : Endpoint) (now : UInt64)
    (rand : Nat → Nat) : Selection :=
  let idx := nat.extAddrIndex hash internal.addr
  selectFrom nat.map now (nat.extAddrs.getD idx 0) internal rand 0 (nat.portRanges.getD idx [])

inductive Direction where
  | forward
  | reverse
deriving DecidableEq

/-- A packet at the module: the endpoint that is looked up, the time, and what the
module asks others for.  That is its random choices, whether its table takes the entry
of an external endpoint and then that of an internal one, and what happens to be in a
new entry. -/
structure Event where
  dir : Direction
  before : Endpoint
  now : UInt64
  rand : Nat → Nat := fun _ => 0
  takesReverse : Bool := true
  takesForward : Bool := true
  garbage : UInt64 := 0

inductive Verdict where
  | drop
  | fault
  | emit (after : Endpoint)
deriving DecidableEq

def reclaim (external : Endpoint) (expired : Option Endpoint) (map : NatTable) : NatTable :=
  match expired with
  | none => map
  | some old => (map.erase old).erase external

def insertIf (takes : Bool) (key : Endpoint) (entry : NatEntry) (map : NatTable) : NatTable :=
  if takes then map.insert key entry else map

/-- Create a mapping.  Its two entries are inserted one after the other, and only the
second answer is looked at. -/
def createNewEntry (hash : UInt32 → Nat) (ev : Event) (nat : NAT) : Selection × NAT :=
  match nat.select hash ev.before ev.now ev.rand with
  | .none => (.none, nat)
  | .fault => (.fault, nat)
  | .found external expired =>
    let map := insertIf ev.takesReverse external ⟨ev.before, ev.garbage⟩
      (reclaim external expired nat.map)
    if ev.takesForward then
      (.found external expired,
        { nat with map := map.insert ev.before ⟨external, ev.garbage⟩ })
    else (.none, { nat with map })

def processPacket (hash : UInt32 → Nat) (ev : Event) (nat : NAT) : Verdict × NAT :=
  match nat.map.lookup ev.before with
  | some entry =>
    match ev.dir with
    | .forward =>
      (.emit entry.endpoint,
        { nat with map := nat.map.insert ev.before { entry with lastRefresh := ev.now } })
    | .reverse => (.emit entry.endpoint, nat)
  | none =>
    match ev.dir with
    | .reverse => (.drop, nat)
    | .forward =>
      match nat.createNewEntry hash ev with
      | (.none, nat) => (.drop, nat)
      | (.fault, nat) => (.fault, nat)
      | (.found external _, nat) =>
        (.emit external, { nat with map := nat.map.insert ev.before ⟨external, ev.now⟩ })

def Candidate (internal : Endpoint) (r : PortRange) (port : Nat) : Prop :=
  ∃ min range, offer internal r = .ports min range ∧ min ≤ port ∧ port < min + range

theorem offer_ports {internal : Endpoint} {r : PortRange} {min range : Nat}
    (h : offer internal r = .ports min range) : 0 < range ∧ min + range ≤ 2 ^ 16 := by
  have hlt := r.nonempty
  have hle := r.fits
  unfold offer at h
  split_ifs at h
  · cases h
    omega
  · rename_i hend
    rcases Offer.ports.inj h with ⟨rfl, rfl⟩
    rw [mod_eq_of_lt (by omega)]
    omega
  · cases h
    omega

theorem nextPort_mem {min range port : Nat} (hfits : min + range ≤ 2 ^ 16) (hmin : min ≤ port)
    (hlt : port < min + range) :
    min ≤ nextPort min range port ∧ nextPort min range port < min + range := by
  unfold nextPort
  dsimp only
  split_ifs with hout
  · omega
  · omega

variable {map : NatTable} {now : UInt64} {addr : UInt32} {internal : Endpoint}

def Available (map : NatTable) (now : UInt64) (external : Endpoint) (expired : Option Endpoint) :
    Prop :=
  match expired with
  | none => map.lookup external = none
  | some old => ∃ reverse forward, map.lookup external = some reverse ∧ reverse.endpoint = old ∧
      map.lookup old = some forward ∧ now - forward.lastRefresh > kTimeOutNs

variable {port range start trials : Nat}

theorem probe_found {min : Nat} {external : Endpoint}
    {expired : Option Endpoint} (hfits : min + range ≤ 2 ^ 16) (hmin : min ≤ port)
    (hlt : port < min + range)
    (h : probe map now addr internal min range start trials port = .found external expired) :
    ∃ q, min ≤ q ∧ q < min + range ∧ external = externalAt addr internal q ∧
      Available map now external expired := by
  induction trials generalizing port with
  | zero => cases h
  | succ trials ih =>
    unfold probe at h
    split at h
    · rename_i hfree
      cases h
      exact ⟨port, hmin, hlt, rfl, hfree⟩
    · rename_i reverse hreverse
      split at h
      · cases h
      · rename_i forward hforward
        split_ifs at h with hexpired hstart
        · cases h
          exact ⟨port, hmin, hlt, rfl, reverse, forward, hreverse, rfl, hforward, hexpired⟩
        · rcases nextPort_mem hfits hmin hlt with ⟨hmin', hlt'⟩
          exact ih hmin' hlt' h

theorem probe_fault {min : Nat}
    (h : probe map now addr internal min range start trials port = .fault) :
    ∃ x reverse, map.lookup x = some reverse ∧ map.lookup reverse.endpoint = none := by
  induction trials generalizing port with
  | zero => cases h
  | succ trials ih =>
    unfold probe at h
    split at h
    · cases h
    · rename_i reverse hreverse
      split at h
      · rename_i hnone
        exact ⟨_, reverse, hreverse, hnone⟩
      · split_ifs at h
        exact ih h

theorem probe_none {min : Nat} (hfits : min + range ≤ 2 ^ 16)
    (hmin : min ≤ port) (hlt : port < min + range)
    (htaken : ∀ q, min ≤ q → q < min + range → ∃ reverse forward,
      map.lookup (externalAt addr internal q) = some reverse ∧
      map.lookup reverse.endpoint = some forward ∧ ¬ now - forward.lastRefresh > kTimeOutNs) :
    probe map now addr internal min range start trials port = .none := by
  induction trials generalizing port with
  | zero => rfl
  | succ trials ih =>
    rcases htaken port hmin hlt with ⟨reverse, forward, hreverse, hforward, hfresh⟩
    unfold probe
    rw [hreverse]
    dsimp only
    rw [hforward]
    dsimp only
    rw [if_neg hfresh]
    split_ifs
    · rfl
    · rcases nextPort_mem hfits hmin hlt with ⟨hmin', hlt'⟩
      exact ih hmin' hlt'

theorem start_mem (min : Nat) (hrange : 0 < range) (n : Nat) :
    min ≤ min + n % range ∧ min + n % range < min + range :=
  ⟨Nat.le_add_right _ _, Nat.add_lt_add_left (mod_lt n hrange) min⟩

theorem selectFrom_found {rand : Nat → Nat} {idx : Nat} {rs : List PortRange}
    {external : Endpoint} {expired : Option Endpoint}
    (h : selectFrom map now addr internal rand idx rs = .found external expired) :
    ∃ r ∈ rs, ∃ q, Candidate internal r q ∧ external = externalAt addr internal q ∧
      Available map now external expired := by
  induction rs generalizing idx with
  | nil => cases h
  | cons r rs ih =>
    have hrest : selectFrom map now addr internal rand (idx + 1) rs = .found external expired →
        ∃ r' ∈ r :: rs, ∃ q, Candidate internal r' q ∧ external = externalAt addr internal q ∧
          Available map now external expired := by
      intro h
      rcases ih h with ⟨r', hr', hfound⟩
      exact ⟨r', mem_cons_of_mem _ hr', hfound⟩
    unfold selectFrom at h
    split at h
    · exact hrest h
    · cases h
    · rename_i min range hoffer
      rcases offer_ports hoffer with ⟨hrange, hfits⟩
      rcases start_mem min hrange (rand idx) with ⟨hmin, hlt⟩
      split at h
      · exact hrest h
      · rcases probe_found hfits hmin hlt h with ⟨q, hq, hq', hexternal, havailable⟩
        exact ⟨r, mem_cons_self, q, ⟨min, range, hoffer, hq, hq'⟩, hexternal, havailable⟩

theorem selectFrom_fault {rand : Nat → Nat} {idx : Nat} {rs : List PortRange}
    (h : selectFrom map now addr internal rand idx rs = .fault) :
    ∃ x reverse, map.lookup x = some reverse ∧ map.lookup reverse.endpoint = none := by
  induction rs generalizing idx with
  | nil => cases h
  | cons r rs ih =>
    unfold selectFrom at h
    split at h
    · exact ih h
    · cases h
    · split at h
      · exact ih h
      · exact probe_fault h

end NAT

end Upf.Bess
