import Upf.Lib.LongestPrefix

/-!
# The route lookup module

`IPLookup` keeps the routes of length one to 32 in a table of the packet
library, and the gate of the default route in a variable of its own.  The table
answers `DROP_GATE` where no route covers an address, and the module then takes
the default gate.

The library's table is a parameter with what is assumed of it: a longest-prefix
match whose additions and deletions may fail.

Main result: `emits_longest_route`.
-/

namespace Upf.Bess

open Lib UInt32 Function Option Nat

/-- A module has gates below this number; the number itself drops a packet. -/
def IPLookup.maxGates : Nat := 8192
def IPLookup.dropGate : Nat := maxGates

/-- The forwarding table of the packet library, created with `DROP_GATE` as its
default next hop.  A failure is an error number. -/
structure RteFib where
  Fib : Type
  create : Except Nat Fib
  /-- Free the table and create another. -/
  recreate : Fib → Except Nat Fib
  add : Fib → Prefix 32 → Nat → Except Nat Fib
  delete : Fib → Prefix 32 → Except Nat Fib
  lookup : Fib → Nat → Nat
  routes : Fib → Table (Prefix 32) Nat
  routes_create : ∀ {f}, create = .ok f → routes f = fun _ => none
  routes_recreate : ∀ {f f'}, recreate f = .ok f' → routes f' = fun _ => none
  routes_add : ∀ {f f' p nextHop}, add f p nextHop = .ok f' →
    routes f' = Function.update (routes f) p (some nextHop)
  routes_delete : ∀ {f f' p}, delete f p = .ok f' → routes f' = Function.update (routes f) p none
  lpm : ∀ f, Lpm (routes f) IPLookup.dropGate (lookup f)

def RteFib.plain : RteFib where
  Fib := Table (Prefix 32) Nat
  create := .ok fun _ => none
  recreate := fun _ => .ok fun _ => none
  add := fun f p nextHop => .ok (Function.update f p (some nextHop))
  delete := fun f p => .ok (Function.update f p none)
  lookup := fun f => longestMatch f IPLookup.dropGate
  routes := id
  routes_create := fun h => (Except.ok.inj h).symm
  routes_recreate := fun h => (Except.ok.inj h).symm
  routes_add := fun h => (Except.ok.inj h).symm
  routes_delete := fun h => (Except.ok.inj h).symm
  lpm := fun f => lpm_longestMatch f IPLookup.dropGate

/-- A failed command: an error number and a text. -/
structure Failure where
  errno : Nat
  text : String
deriving DecidableEq

def einval : Nat := 22

/-- `SetBitsLow<uint32_t>`: the mask of the first `n` bits. -/
def setBitsLow (n : Nat) : UInt32 :=
  if n = 0 then 0
  else if n ≥ 32 then ~~~(0 : UInt32)
  else ~~~(((1 : UInt32) <<< UInt32.ofNat (32 - n)) - 1)

def hexText (n : UInt32) : String := String.ofList (Nat.toDigits 16 n.toNat)

theorem and_not_setBitsLow (addr : UInt32) {n : Nat} (hn : n ≤ 32) :
    (addr &&& ~~~ setBitsLow n).toNat = addr.toNat % 2 ^ (32 - n) := by
  have hmask : (~~~ setBitsLow n).toNat = 2 ^ (32 - n) - 1 := by
    unfold setBitsLow
    split_ifs with h0 h32
    · subst h0
      decide
    · obtain rfl : n = 32 := by omega
      decide
    · have hlt : 2 ^ (32 - n) < 2 ^ 32 := Nat.pow_lt_pow_right (by decide) (by omega)
      have hsize : 32 - n < UInt32.size := by
        rw [UInt32.size]
        omega
      have hpow : ((1 : UInt32) <<< UInt32.ofNat (32 - n)).toNat = 2 ^ (32 - n) := by
        rw [UInt32.toNat_shiftLeft, UInt32.toNat_ofNat_of_lt' hsize,
          mod_eq_of_lt (by omega : 32 - n < 32), UInt32.toNat_one, Nat.one_shiftLeft,
          mod_eq_of_lt hlt]
      have hle : (1 : UInt32) ≤ (1 : UInt32) <<< UInt32.ofNat (32 - n) := by
        rw [le_iff_toNat_le, hpow]
        exact Nat.two_pow_pos _
      rw [UInt32.not_not, UInt32.toNat_sub_of_le _ _ hle, hpow]
      rfl
  rw [UInt32.toNat_and, hmask, and_two_pow_sub_one_eq_mod]

/-- The prefix that a text and a length stand for.  Reading the text as an address
is a parameter. -/
def parseIpv4Prefix (parseIpv4Address : String → Option UInt32) (text : String)
    (prefixLen : UInt64) : Except Failure (Prefix 32) :=
  if text = "" then .error { errno := einval, text := "prefix' is missing" }
  else
    match parseIpv4Address text with
    | none => .error { errno := einval, text := "Invalid IP prefix: " ++ text }
    | some netAddr =>
      if hlen : 32 < prefixLen.toNat then
        .error { errno := einval, text := s!"Invalid prefix length: {prefixLen.toNat}" }
      else
        let netMask := setBitsLow prefixLen.toNat
        if hbits : (netAddr &&& ~~~ netMask).toNat ≠ 0 then
          .error {
            errno := einval
            text := "Invalid IP prefix " ++ text ++ "/" ++ toString prefixLen.toNat ++ " " ++
              hexText netAddr ++ " " ++ hexText netMask }
        else .ok {
          addr := netAddr.toNat
          len := prefixLen.toNat
          addr_lt := netAddr.toNat_lt
          len_le := Nat.le_of_not_lt hlen
          aligned := by
            rw [← and_not_setBitsLow netAddr (Nat.le_of_not_lt hlen)]
            exact not_not.mp hbits }

/-- What is accepted as a prefix is the address that was read, with the length
given; its bits behind the length are zero by its type. -/
theorem parseIpv4Prefix_ok {parseIpv4Address : String → Option UInt32} {text : String}
    {prefixLen : UInt64} {p : Prefix 32}
    (h : parseIpv4Prefix parseIpv4Address text prefixLen = .ok p) :
    ∃ netAddr, parseIpv4Address text = some netAddr ∧ p.addr = netAddr.toNat ∧
      p.len = prefixLen.toNat := by
  unfold parseIpv4Prefix at h
  split at h
  · cases h
  · split at h
    · cases h
    case h_2 netAddr hparse =>
      simp only at h
      split at h
      · cases h
      · split at h
        · cases h
        · cases h
          exact ⟨netAddr, hparse, rfl, rfl⟩

structure AddArg where
  text : String
  prefixLen : UInt64
  gate : UInt64
deriving DecidableEq

structure DeleteArg where
  text : String
  prefixLen : UInt64
deriving DecidableEq

inductive RouteCommand where
  | add (arg : AddArg)
  | delete (arg : DeleteArg)
  | clear
deriving DecidableEq

def IPLookup.isValidGate (gate : Nat) : Bool := gate < maxGates || gate == dropGate

theorem IPLookup.isValidGate_le {gate : Nat} (h : isValidGate gate = true) : gate ≤ maxGates := by
  rcases Bool.or_eq_true_iff.mp h with hlt | heq
  · exact Nat.le_of_lt (decide_eq_true_eq.mp hlt)
  · exact Nat.le_of_eq (beq_iff_eq.mp heq)

structure IPLookup (fib : RteFib) where
  lpm : fib.Fib
  defaultGate : Nat

namespace IPLookup

variable (fib : RteFib) (parseIpv4Address : String → Option UInt32)

def init : Except Failure (IPLookup fib) :=
  match fib.create with
  | .error e => .error { errno := e, text := "DPDK error" }
  | .ok lpm => .ok { lpm, defaultGate := dropGate }

variable {fib}

/-- A prefix of length zero is the default route.  The gate is narrowed to sixteen
bits first. -/
def commandAdd (m : IPLookup fib) (arg : AddArg) : Except Failure (IPLookup fib) :=
  let gate := arg.gate.toNat % 2 ^ 16
  match parseIpv4Prefix parseIpv4Address arg.text arg.prefixLen with
  | .error e => .error e
  | .ok netPrefix =>
    if !isValidGate gate then
      .error { errno := einval, text := s!"Invalid gate: {gate}" }
    else if netPrefix.len = 0 then .ok { m with defaultGate := gate }
    else
      match fib.add m.lpm netPrefix gate with
      | .error e => .error { errno := e, text := "rpm_lpm_add() failed" }
      | .ok lpm => .ok { m with lpm }

def commandDelete (m : IPLookup fib) (arg : DeleteArg) : Except Failure (IPLookup fib) :=
  match parseIpv4Prefix parseIpv4Address arg.text arg.prefixLen with
  | .error e => .error e
  | .ok netPrefix =>
    if netPrefix.len = 0 then .ok { m with defaultGate := dropGate }
    else
      match fib.delete m.lpm netPrefix with
      | .error e => .error { errno := e, text := "rpm_lpm_delete() failed" }
      | .ok lpm => .ok { m with lpm }

/-- The table is created anew; the default gate stays. -/
def commandClear (m : IPLookup fib) : Except Failure (IPLookup fib) :=
  match fib.recreate m.lpm with
  | .error e => .error { errno := e, text := "DPDK error" }
  | .ok lpm => .ok { m with lpm }

def command (m : IPLookup fib) : RouteCommand → Except Failure (IPLookup fib)
  | .add arg => m.commandAdd parseIpv4Address arg
  | .delete arg => m.commandDelete parseIpv4Address arg
  | .clear => m.commandClear

/-- The gate of `ProcessBatch` for a packet to an address. -/
def emit (m : IPLookup fib) (dst : UInt32) : Nat :=
  if fib.lookup m.lpm dst.toNat = dropGate then m.defaultGate else fib.lookup m.lpm dst.toNat

/-! What an accepted command did. -/

variable {parseIpv4Address} {m m' : IPLookup fib}

theorem commandAdd_ok {arg : AddArg} (h : m.commandAdd parseIpv4Address arg = .ok m') :
    ∃ p, parseIpv4Prefix parseIpv4Address arg.text arg.prefixLen = .ok p ∧
      ((p.len = 0 ∧ m' = { m with defaultGate := arg.gate.toNat % 2 ^ 16 }) ∨
        (p.len ≠ 0 ∧ ∃ lpm, fib.add m.lpm p (arg.gate.toNat % 2 ^ 16) = .ok lpm ∧
          m' = { m with lpm })) := by
  unfold commandAdd at h
  cases hparse : parseIpv4Prefix parseIpv4Address arg.text arg.prefixLen with
  | error =>
    simp only [hparse] at h
    cases h
  | ok p =>
    simp only [hparse] at h
    refine ⟨p, rfl, ?_⟩
    split at h
    · cases h
    · split at h
      case isTrue hlen => exact .inl ⟨hlen, (Except.ok.inj h).symm⟩
      case isFalse hlen =>
        refine .inr ⟨hlen, ?_⟩
        cases hadd : fib.add m.lpm p (arg.gate.toNat % 2 ^ 16) with
        | error =>
          rw [hadd] at h
          cases h
        | ok lpm =>
          rw [hadd] at h
          exact ⟨lpm, rfl, (Except.ok.inj h).symm⟩

theorem commandDelete_ok {arg : DeleteArg} (h : m.commandDelete parseIpv4Address arg = .ok m') :
    ∃ p, parseIpv4Prefix parseIpv4Address arg.text arg.prefixLen = .ok p ∧
      ((p.len = 0 ∧ m' = { m with defaultGate := dropGate }) ∨
        (p.len ≠ 0 ∧ ∃ lpm, fib.delete m.lpm p = .ok lpm ∧ m' = { m with lpm })) := by
  unfold commandDelete at h
  cases hparse : parseIpv4Prefix parseIpv4Address arg.text arg.prefixLen with
  | error =>
    simp only [hparse] at h
    cases h
  | ok p =>
    simp only [hparse] at h
    refine ⟨p, rfl, ?_⟩
    split at h
    case isTrue hlen => exact .inl ⟨hlen, (Except.ok.inj h).symm⟩
    case isFalse hlen =>
      refine .inr ⟨hlen, ?_⟩
      cases hdelete : fib.delete m.lpm p with
      | error =>
        rw [hdelete] at h
        cases h
      | ok lpm =>
        rw [hdelete] at h
        exact ⟨lpm, rfl, (Except.ok.inj h).symm⟩

theorem commandClear_ok (h : m.commandClear = .ok m') :
    ∃ lpm, fib.recreate m.lpm = .ok lpm ∧ m' = { m with lpm } := by
  unfold commandClear at h
  cases hclear : fib.recreate m.lpm with
  | error =>
    rw [hclear] at h
    cases h
  | ok lpm =>
    rw [hclear] at h
    exact ⟨lpm, rfl, (Except.ok.inj h).symm⟩

end IPLookup

section Routes

variable (parseIpv4Address : String → Option UInt32)

def RouteCommand.update (routes : Table (Prefix 32) Nat) :
    RouteCommand → Table (Prefix 32) Nat
  | .add arg =>
    match parseIpv4Prefix parseIpv4Address arg.text arg.prefixLen with
    | .error _ => routes
    | .ok p => Function.update routes p (some arg.gate.toNat)
  | .delete arg =>
    match parseIpv4Prefix parseIpv4Address arg.text arg.prefixLen with
    | .error _ => routes
    | .ok p => Function.update routes p none
  | .clear => fun _ => none

def routesAfter (cmds : List RouteCommand) : Table (Prefix 32) Nat :=
  cmds.foldl (RouteCommand.update parseIpv4Address) fun _ => none

def RouteCommand.ValidGate : RouteCommand → Prop
  | .add arg => IPLookup.isValidGate arg.gate.toNat = true
  | _ => True

/-- A default route is not there when the table is cleared, and no prefix of
positive length is added with the gate that drops. -/
def RouteCommand.Careful {fib : RteFib} (m : IPLookup fib) : RouteCommand → Prop
  | .add arg => arg.prefixLen ≠ 0 → arg.gate.toNat ≠ IPLookup.dropGate
  | .delete _ => True
  | .clear => m.defaultGate = IPLookup.dropGate

/-- The module after a run of accepted commands that are each `allowed` where
they come. -/
inductive RouteRuns (fib : RteFib) (allowed : IPLookup fib → RouteCommand → Prop) :
    List RouteCommand → IPLookup fib → Prop where
  | init {m} (h : IPLookup.init fib = .ok m) : RouteRuns fib allowed [] m
  | command {cmds m m' c} (h : RouteRuns fib allowed cmds m) (hallowed : allowed m c)
      (hvalid : c.ValidGate) (hok : m.command parseIpv4Address c = .ok m') :
      RouteRuns fib allowed (cmds ++ [c]) m'

structure RoutesPackets {fib : RteFib} (m : IPLookup fib) (routes : Table (Prefix 32) Nat) :
    Prop where
  longest : ∀ (dst : UInt32) p gate, Longest routes dst.toNat p gate → m.emit dst = gate
  none : ∀ dst : UInt32, Uncovered routes dst.toNat → m.emit dst = IPLookup.dropGate

end Routes

variable {fib : RteFib} {parseIpv4Address : String → Option UInt32}

/-- The table has the routes of positive length, none of them with the gate that
drops, and the variable the default route. -/
structure Serves (m : IPLookup fib) (routes : Table (Prefix 32) Nat) : Prop where
  table : ∀ p, p.len ≠ 0 → fib.routes m.lpm p = routes p
  default_absent : fib.routes m.lpm Prefix.all = none
  default_gate : m.defaultGate = (routes Prefix.all).getD IPLookup.dropGate
  not_drop : ∀ p, fib.routes m.lpm p ≠ some IPLookup.dropGate

namespace Serves

variable {m : IPLookup fib} {routes : Table (Prefix 32) Nat}

theorem longest_of_pos (h : Serves m routes) {a : Nat} {p : Prefix 32} {gate : Nat}
    (hp : Longest routes a p gate) (hlen : p.len ≠ 0) :
    Longest (fib.routes m.lpm) a p gate := by
  refine ⟨(h.table p hlen).trans hp.route, hp.covers, fun q w hq hcovers => ?_⟩
  by_cases hzero : q.len = 0
  · rw [hzero]
    exact Nat.zero_le _
  · rw [h.table q hzero] at hq
    exact hp.longest q w hq hcovers

theorem uncovered (h : Serves m routes) {a : Nat}
    (hnone : ∀ p gate, routes p = some gate → p.Covers a → p.len = 0) :
    Uncovered (fib.routes m.lpm) a := by
  intro p gate hp hcovers
  by_cases hzero : p.len = 0
  · rw [Prefix.eq_all hzero, h.default_absent] at hp
    cases hp
  · rw [h.table p hzero] at hp
    exact hzero (hnone p gate hp hcovers)

theorem routesPackets (h : Serves m routes) : RoutesPackets m routes := by
  have hlpm := fib.lpm m.lpm
  constructor
  · intro dst p gate hp
    unfold IPLookup.emit
    by_cases hlen : p.len = 0
    · have hshort : ∀ q w, routes q = some w → q.Covers dst.toNat → q.len = 0 := fun q w hq hc =>
        le_zero.mp (hlen ▸ hp.longest q w hq hc)
      rw [if_pos (hlpm.missed dst.toNat dst.toNat_lt (h.uncovered hshort)), h.default_gate,
        ← Prefix.eq_all hlen, hp.route, getD_some]
    · have htable := h.longest_of_pos hp hlen
      have hlookup := hlpm.found dst.toNat p gate dst.toNat_lt htable
      have hgate : gate ≠ IPLookup.dropGate := fun heq => h.not_drop p (heq ▸ htable.route)
      rw [hlookup, if_neg hgate]
  · intro dst hnone
    have hall : routes Prefix.all = none := by
      by_contra hsome
      obtain ⟨gate, hgate⟩ := ne_none_iff_exists'.mp hsome
      exact hnone _ gate hgate (Prefix.covers_all dst.toNat_lt)
    have htable : Uncovered (fib.routes m.lpm) dst.toNat :=
      h.uncovered fun p gate hp hcovers => absurd hcovers (hnone p gate hp)
    rw [IPLookup.emit, if_pos (hlpm.missed dst.toNat dst.toNat_lt htable), h.default_gate, hall]
    rfl

theorem change (h : Serves m routes) {lpm : fib.Fib} {p : Prefix 32} {gate : Option Nat}
    (hlen : p.len ≠ 0) (hgate : gate ≠ some IPLookup.dropGate)
    (hlpm : fib.routes lpm = Function.update (fib.routes m.lpm) p gate) :
    Serves { m with lpm } (Function.update routes p gate) := by
  have hall : Prefix.all ≠ p := fun heq => hlen (by rw [← heq]; rfl)
  constructor
  · intro q hq
    simp only [hlpm]
    by_cases hqp : q = p
    · subst hqp
      rw [update_self, update_self]
    · rw [update_of_ne hqp, update_of_ne hqp, h.table q hq]
  · simp only [hlpm]
    rw [update_of_ne hall, h.default_absent]
  · rw [update_of_ne hall]
    exact h.default_gate
  · intro q
    simp only [hlpm]
    by_cases hqp : q = p
    · subst hqp
      rw [update_self]
      exact hgate
    · rw [update_of_ne hqp]
      exact h.not_drop q

theorem changeDefault (h : Serves m routes) (gate : Option Nat) :
    Serves { m with defaultGate := gate.getD IPLookup.dropGate }
      (Function.update routes Prefix.all gate) := by
  refine ⟨fun p hp => ?_, h.default_absent, ?_, h.not_drop⟩
  · have hne : p ≠ Prefix.all := fun heq => hp (by rw [heq]; rfl)
    rw [update_of_ne hne]
    exact h.table p hp
  · rw [update_self]

theorem init (hinit : IPLookup.init fib = .ok m) : Serves m fun _ => none := by
  unfold IPLookup.init at hinit
  cases hcreate : fib.create with
  | error =>
    rw [hcreate] at hinit
    cases hinit
  | ok =>
    rw [hcreate] at hinit
    cases hinit
    have hroutes := fib.routes_create hcreate
    exact ⟨fun p _ => by rw [hroutes], by rw [hroutes], rfl, fun p => by rw [hroutes]; exact nofun⟩

variable {m' : IPLookup fib}

theorem add (h : Serves m routes) {arg : AddArg}
    (hcareful : (RouteCommand.add arg).Careful m) (hvalid : (RouteCommand.add arg).ValidGate)
    (hok : m.commandAdd parseIpv4Address arg = .ok m') :
    Serves m' ((RouteCommand.add arg).update parseIpv4Address routes) := by
  have hgate : arg.gate.toNat % 2 ^ 16 = arg.gate.toNat := by
    have hle := IPLookup.isValidGate_le hvalid
    rw [IPLookup.maxGates] at hle
    exact mod_eq_of_lt (by omega)
  obtain ⟨p, hparse, ⟨hlen, rfl⟩ | ⟨hlen, lpm, hadd, rfl⟩⟩ := IPLookup.commandAdd_ok hok
  · rw [hgate, RouteCommand.update, hparse, Prefix.eq_all hlen]
    exact h.changeDefault (some arg.gate.toNat)
  · rw [hgate] at hadd
    rw [RouteCommand.update, hparse]
    apply h.change hlen _ (fib.routes_add hadd)
    obtain ⟨-, -, -, hplen⟩ := parseIpv4Prefix_ok hparse
    have hpos : arg.prefixLen ≠ 0 := fun hzero => hlen (by rw [hplen, hzero]; rfl)
    exact fun heq => hcareful hpos (Option.some.inj heq)

theorem delete (h : Serves m routes) {arg : DeleteArg}
    (hok : m.commandDelete parseIpv4Address arg = .ok m') :
    Serves m' ((RouteCommand.delete arg).update parseIpv4Address routes) := by
  obtain ⟨p, hparse, ⟨hlen, rfl⟩ | ⟨hlen, lpm, hdelete, rfl⟩⟩ := IPLookup.commandDelete_ok hok
  · rw [RouteCommand.update, hparse, Prefix.eq_all hlen]
    exact h.changeDefault none
  · rw [RouteCommand.update, hparse]
    exact h.change hlen nofun (fib.routes_delete hdelete)

theorem clear (hdefault : m.defaultGate = IPLookup.dropGate)
    (hok : m.commandClear = .ok m') : Serves m' fun _ => none := by
  obtain ⟨lpm, hclear, rfl⟩ := IPLookup.commandClear_ok hok
  have hroutes := fib.routes_recreate hclear
  refine ⟨fun p _ => ?_, ?_, hdefault, fun p => ?_⟩
  · rw [hroutes]
  · rw [hroutes]
  · rw [hroutes]
    exact nofun

theorem step (h : Serves m routes) {c : RouteCommand} (hcareful : c.Careful m)
    (hvalid : c.ValidGate) (hok : m.command parseIpv4Address c = .ok m') :
    Serves m' (c.update parseIpv4Address routes) := by
  cases c with
  | add => exact h.add hcareful hvalid hok
  | delete => exact h.delete hok
  | clear => exact clear hcareful hok

end Serves

/-- In every run of accepted commands with valid gates in which the table is only
cleared without a default route, and no prefix of positive length is added with the
gate that drops, every packet leaves by the gate of its longest route. -/
theorem emits_longest_route (fib : RteFib) (parseIpv4Address : String → Option UInt32)
    (cmds : List RouteCommand) (m : IPLookup fib)
    (h : RouteRuns parseIpv4Address fib (fun m c => c.Careful m) cmds m) :
    RoutesPackets m (routesAfter parseIpv4Address cmds) := by
  suffices hserves : Serves m (routesAfter parseIpv4Address cmds) from hserves.routesPackets
  induction h with
  | init hinit => exact .init hinit
  | command _ hcareful hvalid hok ih =>
    rw [routesAfter, List.foldl_append]
    exact ih.step hcareful hvalid hok

def sampleAddress (text : String) : Option UInt32 :=
  if text = "0.0.0.0" then some 0
  else if text = "10.0.0.0" then some 0x0A000000
  else none

def addDefault : RouteCommand := .add { text := "0.0.0.0", prefixLen := 0, gate := 5 }

def addTen (gate : UInt64) : RouteCommand := .add { text := "10.0.0.0", prefixLen := 8, gate }

theorem emits_longest_route_ten :
    ∃ m : IPLookup .plain,
      RouteRuns sampleAddress .plain (fun m c => c.Careful m) [addDefault, addTen 3] m ∧
        RoutesPackets m (routesAfter sampleAddress [addDefault, addTen 3]) := by
  have hrun : ∃ m : IPLookup .plain, RouteRuns sampleAddress .plain (fun m c => c.Careful m)
      [addDefault, addTen 3] m :=
    ⟨_, .command (c := addTen 3)
      (.command (c := addDefault) (.init rfl) (fun h => absurd rfl h) rfl rfl)
      (fun _ => by decide) rfl rfl⟩
  obtain ⟨m, hm⟩ := hrun
  exact ⟨m, hm, emits_longest_route _ _ _ m hm⟩

/-- A cleared module sends packets by the default route it had before, and a
prefix with the gate that drops sends them by the default route too. -/
theorem default_gate_survives :
    (∃ m : IPLookup .plain,
      RouteRuns sampleAddress .plain (fun _ _ => True) [addDefault, .clear] m ∧
        Uncovered (routesAfter sampleAddress [addDefault, .clear]) 1 ∧ m.emit 1 = 5) ∧
    (∃ (m : IPLookup .plain) (p : Prefix 32),
      RouteRuns sampleAddress .plain (fun _ _ => True) [addDefault, addTen 8192] m ∧
        routesAfter sampleAddress [addDefault, addTen 8192] p = some IPLookup.dropGate ∧
        p.len = 8 ∧ p.Covers 0x0A000001 ∧ m.emit 0x0A000001 = 5) := by
  constructor
  · refine ⟨_, .command (c := .clear) (.command (c := addDefault) (.init rfl) trivial rfl rfl)
      trivial trivial rfl, ?_, ?_⟩
    · exact fun p gate hroute => (nomatch hroute)
    · decide +kernel
  · refine ⟨_, ⟨0x0A000000, 8, by decide, by decide, by decide⟩,
      .command (c := addTen 8192) (.command (c := addDefault) (.init rfl) trivial rfl rfl)
        trivial rfl rfl, ?_, rfl, ?_, ?_⟩
    · decide +kernel
    · decide +kernel
    · decide +kernel

end Upf.Bess
