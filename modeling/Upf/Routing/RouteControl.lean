import Upf.Lib.Census
import Upf.Lib.Run
import Upf.Routing.Names

/-!
# The route controller

The controller follows the routes and neighbours of the kernel and programs them in
BESS: a route module for each interface maps prefixes to gates, and behind each gate
an Update module writes the link layer address of one next hop. The controller keeps
what it has done in two caches, both keyed by the next hop.

What BESS answers about something that is not there is a parameter: a prefix that was
never added and a module that was never created can be deleted with an error (as the
daemon does) or without one.
-/

namespace Upf.Routing

open Function Lib

structure RouteEntry where
  nextHopIp : UInt32
  interface : String
  destPrefix : UInt32
  prefixLen : Nat
  deriving DecidableEq

abbrev RouteKey := String × UInt32 × Nat

def RouteEntry.key (r : RouteEntry) : RouteKey :=
  (getRouteModuleName r.interface, r.destPrefix, r.prefixLen)

/-- A route in a route module. BESS has the gate; the next hop it was added for is kept
beside it, to speak of the routes through a next hop. -/
structure ProgrammedRoute where
  gate : Nat
  nextHop : UInt32
  deriving DecidableEq

structure Pipeline where
  routes : AList (fun _ : RouteKey => ProgrammedRoute) := ∅
  /-- Update modules, with the address each writes. -/
  updates : String → Option Mac := fun _ => none
  /-- The module behind an output gate. -/
  links : String × Nat → Option String := fun _ => none

namespace Pipeline

def addRoute (b : Pipeline) (r : RouteEntry) (gate : Nat) : Pipeline :=
  { b with routes := b.routes.insert r.key ⟨gate, r.nextHopIp⟩ }

def eraseRoute (b : Pipeline) (r : RouteEntry) : Pipeline :=
  { b with routes := b.routes.erase r.key }

def deleteRoute (strict : Bool) (b : Pipeline) (r : RouteEntry) : Option Pipeline :=
  if strict && (b.routes.lookup r.key).isNone && r.prefixLen != 0 then none
  else some (b.eraseRoute r)

def createModule (b : Pipeline) (name : String) (mac : Mac) : Pipeline :=
  match b.updates name with
  | some _ => b
  | none => { b with updates := update b.updates name (some mac) }

/-- Connect an output gate, unless something is connected to it. -/
def connectModules (b : Pipeline) (module next : String) (ogate : Nat) : Option Pipeline :=
  match b.links (module, ogate) with
  | some _ => none
  | none => some { b with links := update b.links (module, ogate) (some next) }

def destroyModule (strict : Bool) (b : Pipeline) (name : String) : Option Pipeline :=
  match b.updates name with
  | some _ => some
      { b with
        updates := update b.updates name none
        links := fun from_ =>
          if from_.1 = name ∨ b.links from_ = some name then none else b.links from_ }
  | none => if strict then none else some b

def createModuleLinks (b : Pipeline) (gateIdx : Nat)
    (updateModuleName routeModuleName mergeModuleName : String) : Pipeline :=
  match b.connectModules routeModuleName updateModuleName gateIdx with
  | none => b
  | some b => (b.connectModules updateModuleName mergeModuleName 0).getD b

def via (b : Pipeline) (nextHop : UInt32) : Nat :=
  census (fun route => decide (route.nextHop = nextHop)) b.routes

end Pipeline

/-- A next hop with routes in BESS. -/
structure NeighborEntry where
  gateIdx : Nat
  macAddress : Mac
  routeCount : Int
  deriving DecidableEq

structure RouteController where
  unresolvedArpQueriesCache : UInt32 → Option RouteEntry := fun _ => none
  neighborCache : UInt32 → Option NeighborEntry := fun _ => none
  moduleGateCountCache : String → Nat := fun _ => 0
  bess : Pipeline := {}

namespace RouteController

def getGateIdx (c : RouteController) (r : RouteEntry) (moduleName : String) : Nat :=
  match c.neighborCache r.nextHopIp with
  | some entry => entry.gateIdx
  | none => c.moduleGateCountCache moduleName

def addNeighbor (c : RouteController) (r : RouteEntry) (nextHopMac : Mac) : RouteController :=
  let routeModuleName := getRouteModuleName r.interface
  let gateIdx := c.getGateIdx r routeModuleName
  let bess := c.bess.addRoute r gateIdx
  match c.neighborCache r.nextHopIp with
  | none =>
    -- The name is made from the interface here, not from the route module.
    let updateModuleName := getUpdateModuleName r.interface nextHopMac
    let bess := bess.createModule updateModuleName nextHopMac
    { c with
      bess := bess.createModuleLinks gateIdx updateModuleName routeModuleName
        (getMergeModuleName r.interface)
      neighborCache := update c.neighborCache r.nextHopIp (some ⟨gateIdx, nextHopMac, 0 + 1⟩)
      moduleGateCountCache := update c.moduleGateCountCache routeModuleName
        (c.moduleGateCountCache routeModuleName + 1) }
  | some entry =>
    { c with
      bess := bess
      neighborCache := update c.neighborCache r.nextHopIp
        (some { entry with routeCount := entry.routeCount + 1 }) }

def probeAddr (c : RouteController) (r : RouteEntry) : RouteController :=
  { c with
    unresolvedArpQueriesCache := update c.unresolvedArpQueriesCache r.nextHopIp (some r) }

def addNewRouteEntry (c : RouteController) (r : RouteEntry) (mac : Option Mac) :
    RouteController :=
  match mac with
  | none => c.probeAddr r
  | some nextHopMac => c.addNeighbor r nextHopMac

def addUnresolvedNewNeighbor (c : RouteController) (address : UInt32) (gatewayMac : Mac) :
    RouteController :=
  match c.unresolvedArpQueriesCache address with
  | none => c
  | some r =>
    let c := c.addNeighbor r gatewayMac
    { c with
      unresolvedArpQueriesCache := update c.unresolvedArpQueriesCache r.nextHopIp none }

def deleteRouteEntry (strict : Bool) (c : RouteController) (r : RouteEntry) : RouteController :=
  match c.neighborCache r.nextHopIp with
  | none => c
  | some nextHop =>
    match c.bess.deleteRoute strict r with
    | none => c
    | some bess =>
      let nextHop := { nextHop with routeCount := nextHop.routeCount - 1 }
      let cached := update c.neighborCache r.nextHopIp (some nextHop)
      if nextHop.routeCount = 0 then
        -- And from the route module here.
        let updateModuleName :=
          getUpdateModuleName (getRouteModuleName r.interface) nextHop.macAddress
        match bess.destroyModule strict updateModuleName with
        | none => { c with bess := bess, neighborCache := cached }
        | some bess =>
          { c with bess := bess, neighborCache := update c.neighborCache r.nextHopIp none }
      else { c with bess := bess, neighborCache := cached }

end RouteController

/-! ## The kernel -/

inductive KernelEvent where
  | routeAdded (r : RouteEntry)
  | routeRemoved (r : RouteEntry)
  | neighborResolved (nextHop : UInt32)
  deriving DecidableEq

structure World where
  controller : RouteController := {}
  announced : List RouteEntry := []
  resolved : List UInt32 := []

structure Network where
  mac : UInt32 → Mac
  interface : UInt32 → String

namespace World

variable (strict : Bool) (net : Network)

def fetchMac (w : World) (nextHop : UInt32) : Option Mac :=
  if nextHop ∈ w.resolved then some (net.mac nextHop) else none

def step (w : World) : KernelEvent → World
  | .routeAdded r =>
    { w with
      announced := r :: w.announced
      controller := w.controller.addNewRouteEntry r (w.fetchMac net r.nextHopIp) }
  | .routeRemoved r =>
    { w with
      announced := w.announced.filter (· ≠ r)
      controller := w.controller.deleteRouteEntry strict r }
  | .neighborResolved nextHop =>
    { w with
      resolved := nextHop :: w.resolved
      controller := w.controller.addUnresolvedNewNeighbor nextHop (net.mac nextHop) }

def run (events : List KernelEvent) : World := events.foldl (step strict net) {}

end World

/-! ## What the operations do -/

namespace Pipeline

variable {b : Pipeline} {r : RouteEntry} {gate : Nat} {name module next : String} {mac : Mac}

theorem createModule_updates (h : ∀ m, b.updates name = some m → m = mac) :
    (b.createModule name mac).updates = update b.updates name (some mac) := by
  unfold createModule
  cases hname : b.updates name with
  | none => rfl
  | some m =>
    rw [h m hname] at hname
    rw [← hname, update_eq_self]

@[simp] theorem createModule_routes : (b.createModule name mac).routes = b.routes := by
  unfold createModule
  split <;> rfl

@[simp] theorem createModule_links : (b.createModule name mac).links = b.links := by
  unfold createModule
  split <;> rfl

theorem connectModules_routes {b' : Pipeline}
    (h : b.connectModules module next gate = some b') :
    b'.routes = b.routes ∧ b'.updates = b.updates := by
  unfold connectModules at h
  split at h
  · cases h
  · cases h
    exact ⟨rfl, rfl⟩

theorem createModuleLinks_unchanged (merge : String) :
    (b.createModuleLinks gate name module merge).routes = b.routes ∧
      (b.createModuleLinks gate name module merge).updates = b.updates := by
  unfold createModuleLinks
  cases hfirst : b.connectModules module name gate with
  | none => exact ⟨rfl, rfl⟩
  | some b' =>
    rcases connectModules_routes hfirst with ⟨hroutes, hupdates⟩
    show ((b'.connectModules name merge 0).getD b').routes = b.routes ∧
      ((b'.connectModules name merge 0).getD b').updates = b.updates
    cases hsecond : b'.connectModules name merge 0 with
    | none => exact ⟨hroutes, hupdates⟩
    | some b'' =>
      rcases connectModules_routes hsecond with ⟨hroutes', hupdates'⟩
      exact ⟨hroutes'.trans hroutes, hupdates'.trans hupdates⟩

theorem createModuleLinks_links (merge : String) (hfree : b.links (module, gate) = none)
    {from_ : String × Nat} (hfrom : from_.1 ≠ name) :
    (b.createModuleLinks gate name module merge).links from_ =
      update b.links (module, gate) (some name) from_ := by
  unfold createModuleLinks
  rw [connectModules, hfree]
  show ((connectModules _ name merge 0).getD _).links from_ = _
  unfold connectModules
  split
  · rfl
  · exact update_of_ne (fun heq => hfrom (congrArg Prod.fst heq)) _ _

@[simp] theorem createModuleLinks_routes (merge : String) :
    (b.createModuleLinks gate name module merge).routes = b.routes :=
  (createModuleLinks_unchanged merge).1

@[simp] theorem createModuleLinks_updates (merge : String) :
    (b.createModuleLinks gate name module merge).updates = b.updates :=
  (createModuleLinks_unchanged merge).2

theorem via_addRoute_new (gate : Nat) (h : b.routes.lookup r.key = none) (nextHop : UInt32) :
    (b.addRoute r gate).via nextHop = b.via nextHop + if r.nextHopIp = nextHop then 1 else 0 := by
  have hbefore := census_erase (fun route => decide (route.nextHop = nextHop)) r.key b.routes
  rw [h, share] at hbefore
  rw [via, addRoute, census_insert, via, hbefore]
  simp [share]

theorem via_addRoute_known {old : Nat} (h : b.routes.lookup r.key = some ⟨old, r.nextHopIp⟩)
    (nextHop : UInt32) : (b.addRoute r gate).via nextHop = b.via nextHop := by
  have hbefore := census_erase (fun route => decide (route.nextHop = nextHop)) r.key b.routes
  rw [h] at hbefore
  rw [via, addRoute, census_insert, via, hbefore]
  rfl

theorem via_eraseRoute {g : Nat} (h : b.routes.lookup r.key = some ⟨g, r.nextHopIp⟩)
    (nextHop : UInt32) :
    b.via nextHop = (b.eraseRoute r).via nextHop + if r.nextHopIp = nextHop then 1 else 0 := by
  have hbefore := census_erase (fun route => decide (route.nextHop = nextHop)) r.key b.routes
  rw [h] at hbefore
  rw [via, hbefore, via]
  simp [share, eraseRoute]

theorem deleteRoute_programmed {strict : Bool} {route : ProgrammedRoute}
    (h : b.routes.lookup r.key = some route) :
    b.deleteRoute strict r = some (b.eraseRoute r) := by
  unfold deleteRoute
  rw [h]
  simp

theorem via_pos_iff {nextHop : UInt32} :
    0 < b.via nextHop ↔ ∃ key g, b.routes.lookup key = some ⟨g, nextHop⟩ := by
  constructor
  · intro h
    rcases exists_of_census_pos h with ⟨key, ⟨g, through⟩, hlookup, hthrough⟩
    exact ⟨key, g, of_decide_eq_true hthrough ▸ hlookup⟩
  · rintro ⟨key, g, hlookup⟩
    exact census_pos hlookup (decide_eq_true rfl)

end Pipeline

namespace RouteController

variable {c : RouteController} {r : RouteEntry} {mac : Mac} {strict : Bool}

@[simp] theorem addNeighbor_waiting :
    (c.addNeighbor r mac).unresolvedArpQueriesCache = c.unresolvedArpQueriesCache := by
  unfold addNeighbor
  split <;> rfl

theorem addNeighbor_routes :
    (c.addNeighbor r mac).bess.routes = c.bess.routes.insert r.key
      ⟨c.getGateIdx r (getRouteModuleName r.interface), r.nextHopIp⟩ := by
  unfold addNeighbor
  split
  · simp [Pipeline.addRoute]
  · rfl

variable {entry : NeighborEntry}

theorem deleteRouteEntry_counted {route : ProgrammedRoute}
    (hentry : c.neighborCache r.nextHopIp = some entry)
    (hroute : c.bess.routes.lookup r.key = some route) (hcount : entry.routeCount ≠ 1) :
    c.deleteRouteEntry strict r =
      { c with
        bess := c.bess.eraseRoute r
        neighborCache := update c.neighborCache r.nextHopIp
          (some { entry with routeCount := entry.routeCount - 1 }) } := by
  have hzero : ¬ entry.routeCount - 1 = 0 := by omega
  unfold deleteRouteEntry
  simp only [hentry, Pipeline.deleteRoute_programmed hroute, if_neg hzero]

theorem deleteRouteEntry_last {route : ProgrammedRoute}
    (hentry : c.neighborCache r.nextHopIp = some entry)
    (hroute : c.bess.routes.lookup r.key = some route) (hcount : entry.routeCount = 1)
    (hname : c.bess.updates
      (getUpdateModuleName (getRouteModuleName r.interface) entry.macAddress) = none) :
    c.deleteRouteEntry strict r =
      { c with
        bess := c.bess.eraseRoute r
        neighborCache := update c.neighborCache r.nextHopIp
          (if strict then some { entry with routeCount := 0 } else none) } := by
  have hzero : entry.routeCount - 1 = 0 := by omega
  unfold deleteRouteEntry
  simp only [hentry, Pipeline.deleteRoute_programmed hroute, hzero, if_true,
    Pipeline.destroyModule, Pipeline.eraseRoute, hname]
  cases strict <;> rfl

theorem addNeighbor_known
    (hentry : c.neighborCache r.nextHopIp = some entry) :
    c.addNeighbor r mac =
      { c with
        bess := c.bess.addRoute r entry.gateIdx
        neighborCache := update c.neighborCache r.nextHopIp
          (some { entry with routeCount := entry.routeCount + 1 }) } := by
  simp only [addNeighbor, getGateIdx, hentry]

theorem addNeighbor_new (hentry : c.neighborCache r.nextHopIp = none) :
    c.addNeighbor r mac =
      { c with
        bess := ((c.bess.addRoute r
            (c.moduleGateCountCache (getRouteModuleName r.interface))).createModule
            (getUpdateModuleName r.interface mac) mac).createModuleLinks
          (c.moduleGateCountCache (getRouteModuleName r.interface))
          (getUpdateModuleName r.interface mac) (getRouteModuleName r.interface)
          (getMergeModuleName r.interface)
        neighborCache := update c.neighborCache r.nextHopIp
          (some ⟨c.moduleGateCountCache (getRouteModuleName r.interface), mac, 1⟩)
        moduleGateCountCache := update c.moduleGateCountCache (getRouteModuleName r.interface)
          (c.moduleGateCountCache (getRouteModuleName r.interface) + 1) } := by
  simp only [addNeighbor, getGateIdx, hentry, Int.zero_add]

end RouteController

end Upf.Routing
