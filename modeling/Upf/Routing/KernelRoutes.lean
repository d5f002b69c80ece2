import Upf.Routing.Wiring

/-!
# Routes in BESS follow the kernel

A route should be programmed exactly as long as the kernel has it and its next hop is
resolved. The cache of routes that wait for their next hop has one place for each next
hop, and a withdrawal does not look there: a second route that waits displaces the
first, and a route withdrawn while it waits is programmed later all the same.

Main result: `routes_follow_kernel`.
-/

namespace Upf.Routing

open Function Lib List RouteController AList

def Pipeline.Programmed (b : Pipeline) (r : RouteEntry) : Prop :=
  ∃ g, b.routes.lookup r.key = some ⟨g, r.nextHopIp⟩

def Pipeline.LeadsTo (b : Pipeline) (r : RouteEntry) (mac : Mac) : Prop :=
  ∃ route name, b.routes.lookup r.key = some route ∧
    b.links (getRouteModuleName r.interface, route.gate) = some name ∧
    b.updates name = some mac

namespace World

variable (strict : Bool) (net : Network)

/-- BESS has exactly the routes of the kernel whose next hop is resolved, and they lead
to their next hops. -/
structure Follows (w : World) : Prop where
  programmed : ∀ r : RouteEntry, r.interface = net.interface r.nextHopIp →
    (w.controller.bess.Programmed r ↔ r ∈ w.announced ∧ r.nextHopIp ∈ w.resolved)
  leads : ∀ r ∈ w.announced, r.nextHopIp ∈ w.resolved →
    w.controller.bess.LeadsTo r (net.mac r.nextHopIp)

/-- No route waits for a next hop that another waits for, none is withdrawn while it
waits, and no prefix of an interface has two routes. -/
def Orderly (w : World) : KernelEvent → Prop
  | .routeAdded r =>
    r.interface = net.interface r.nextHopIp ∧
    (∀ other ∈ w.announced, other.key = r.key → other = r) ∧
    (r.nextHopIp ∉ w.resolved →
      ∀ other ∈ w.announced, other.nextHopIp = r.nextHopIp → other = r)
  | .routeRemoved r => r ∈ w.announced ∧ r.nextHopIp ∈ w.resolved
  | .neighborResolved _ => True

end World

/-! ## What a run keeps -/

theorem RouteEntry.ext_key {r r' : RouteEntry} (hkey : r.key = r'.key)
    (hnext : r.nextHopIp = r'.nextHopIp) : r = r' := by
  rcases r with ⟨nextHopIp, interface, destPrefix, prefixLen⟩
  rcases r' with ⟨nextHopIp', interface', destPrefix', prefixLen'⟩
  simp only [RouteEntry.key, Prod.mk.injEq] at hkey hnext
  rcases hkey with ⟨hname, hprefix, hlen⟩
  rw [getRouteModuleName_inj hname, hprefix, hlen, hnext]

structure Sound (net : Network) (w : World) : Prop where
  wired : Wired net w.controller
  waiting : ∀ nextHop r, w.controller.unresolvedArpQueriesCache nextHop = some r ↔
    r ∈ w.announced ∧ r.nextHopIp = nextHop ∧ nextHop ∉ w.resolved
  interface : ∀ r ∈ w.announced, r.interface = net.interface r.nextHopIp
  keys : ∀ r ∈ w.announced, ∀ r' ∈ w.announced, r.key = r'.key → r = r'
  programmed : ∀ key nextHop,
    (∃ g, w.controller.bess.routes.lookup key = some ⟨g, nextHop⟩) ↔
      ∃ r ∈ w.announced, r.key = key ∧ r.nextHopIp = nextHop ∧ nextHop ∈ w.resolved

namespace Sound

variable {strict : Bool} {net : Network} {w : World} {r : RouteEntry}

theorem init (net : Network) : Sound net {} where
  wired := Wired.init net
  waiting _ _ := ⟨fun h => (nomatch h), fun h => absurd h.1 not_mem_nil⟩
  interface _ h := absurd h not_mem_nil
  keys _ h := absurd h not_mem_nil
  programmed _ _ :=
    ⟨fun ⟨_, h⟩ => (nomatch h), fun ⟨_, h, _⟩ => absurd h not_mem_nil⟩

theorem through (h : Sound net w)
    (hkeys : ∀ other ∈ w.announced, other.key = r.key → other = r) {route : ProgrammedRoute}
    (hroute : w.controller.bess.routes.lookup r.key = some route) :
    route.nextHop = r.nextHopIp := by
  rcases (h.programmed r.key route.nextHop).mp ⟨route.gate, hroute⟩ with
    ⟨other, hmem, hkey, hnext, -⟩
  rw [← hnext, hkeys other hmem hkey]

theorem keys_cons (h : Sound net w)
    (hkeys : ∀ other ∈ w.announced, other.key = r.key → other = r) :
    ∀ r₁ ∈ r :: w.announced, ∀ r₂ ∈ r :: w.announced, r₁.key = r₂.key → r₁ = r₂ := by
  intro r₁ h₁ r₂ h₂ hkey
  rcases mem_cons.mp h₁ with rfl | hold₁
  · rcases mem_cons.mp h₂ with rfl | hold₂
    · rfl
    · exact (hkeys r₂ hold₂ hkey.symm).symm
  · rcases mem_cons.mp h₂ with rfl | hold₂
    · exact hkeys r₁ hold₁ hkey
    · exact h.keys r₁ hold₁ r₂ hold₂ hkey

theorem wired_addNeighbor (h : Sound net w) (hinterface : r.interface = net.interface r.nextHopIp)
    (hkeys : ∀ other ∈ w.announced, other.key = r.key → other = r) :
    Wired net (w.controller.addNeighbor r (net.mac r.nextHopIp)) := by
  cases hentry : w.controller.neighborCache r.nextHopIp with
  | some => exact h.wired.addNeighbor_known hentry fun route => h.through hkeys
  | none =>
    apply h.wired.addNeighbor_new hentry hinterface
    cases hroute : w.controller.bess.routes.lookup r.key with
    | none => rfl
    | some route =>
      have hnext := h.through hkeys hroute
      rcases h.wired.cached r.key route.gate route.nextHop hroute with ⟨entry, hcached, -⟩
      rw [hnext, hentry] at hcached
      cases hcached

theorem programmed_addNeighbor (h : Sound net w) {mac : Mac}
    (hkeys : ∀ other ∈ w.announced, other.key = r.key → other = r) (key : RouteKey)
    (nextHop : UInt32) :
    (∃ g, (w.controller.addNeighbor r mac).bess.routes.lookup key = some ⟨g, nextHop⟩) ↔
      r.key = key ∧ r.nextHopIp = nextHop ∨
        ∃ g, w.controller.bess.routes.lookup key = some ⟨g, nextHop⟩ := by
  rw [addNeighbor_routes]
  by_cases hk : key = r.key
  · subst hk
    rw [lookup_insert]
    constructor
    · rintro ⟨g, hg⟩
      cases hg
      exact .inl ⟨rfl, rfl⟩
    · rintro (⟨-, rfl⟩ | ⟨g, hg⟩)
      · exact ⟨_, rfl⟩
      · have hnext := h.through hkeys hg
        exact ⟨_, by rw [← hnext]⟩
  · rw [lookup_insert_ne hk]
    constructor
    · exact .inr
    · rintro (⟨hkey, -⟩ | hg)
      · exact absurd hkey.symm hk
      · exact hg

theorem routeAdded_resolved (h : Sound net w) (horder : w.Orderly net (.routeAdded r))
    (hresolved : r.nextHopIp ∈ w.resolved) : Sound net (w.step strict net (.routeAdded r)) := by
  rcases horder with ⟨hinterface, hkeys, -⟩
  have hstep : w.step strict net (.routeAdded r) =
      { w with
        announced := r :: w.announced
        controller := w.controller.addNeighbor r (net.mac r.nextHopIp) } := by
    rw [World.step, World.fetchMac, if_pos hresolved]
    rfl
  rw [hstep]
  refine ⟨h.wired_addNeighbor hinterface hkeys, ?_, ?_, ?_, ?_⟩
  · intro nextHop r'
    simp only [addNeighbor_waiting, mem_cons]
    rw [h.waiting nextHop r']
    constructor
    · rintro ⟨hmem, hrest⟩
      exact ⟨.inr hmem, hrest⟩
    · rintro ⟨rfl | hmem, hnext, hun⟩
      · exact absurd (hnext ▸ hresolved) hun
      · exact ⟨hmem, hnext, hun⟩
  · exact forall_mem_cons.mpr ⟨hinterface, h.interface⟩
  · exact h.keys_cons hkeys
  · intro key nextHop
    rw [h.programmed_addNeighbor hkeys, h.programmed]
    constructor
    · rintro (⟨hkey, hnext⟩ | ⟨r', hr', hrest⟩)
      · exact ⟨r, mem_cons_self, hkey, hnext, hnext ▸ hresolved⟩
      · exact ⟨r', mem_cons_of_mem _ hr', hrest⟩
    · rintro ⟨r', hr', hkey, hnext, hin⟩
      rcases mem_cons.mp hr' with rfl | hr'
      · exact .inl ⟨hkey, hnext⟩
      · exact .inr ⟨r', hr', hkey, hnext, hin⟩

theorem routeAdded_waits (h : Sound net w) (horder : w.Orderly net (.routeAdded r))
    (hun : r.nextHopIp ∉ w.resolved) : Sound net (w.step strict net (.routeAdded r)) := by
  rcases horder with ⟨hinterface, hkeys, halone⟩
  have hstep : w.step strict net (.routeAdded r) =
      { w with announced := r :: w.announced, controller := w.controller.probeAddr r } := by
    rw [World.step, World.fetchMac, if_neg hun]
    rfl
  rw [hstep]
  refine ⟨h.wired.waiting _, ?_, ?_, ?_, ?_⟩
  · intro nextHop r'
    show update w.controller.unresolvedArpQueriesCache r.nextHopIp (some r) nextHop = some r' ↔ _
    by_cases hn : nextHop = r.nextHopIp
    · subst hn
      rw [update_self, Option.some.injEq]
      constructor
      · rintro rfl
        exact ⟨mem_cons_self, rfl, hun⟩
      · rintro ⟨hmem, hnext, -⟩
        rcases mem_cons.mp hmem with rfl | hmem
        · rfl
        · exact (halone hun r' hmem hnext).symm
    · rw [update_of_ne hn, h.waiting, mem_cons]
      constructor
      · rintro ⟨hmem, hrest⟩
        exact ⟨.inr hmem, hrest⟩
      · rintro ⟨rfl | hmem, hnext, hrest⟩
        · exact absurd hnext.symm hn
        · exact ⟨hmem, hnext, hrest⟩
  · exact forall_mem_cons.mpr ⟨hinterface, h.interface⟩
  · exact h.keys_cons hkeys
  · intro key nextHop
    refine (h.programmed key nextHop).trans ⟨?_, ?_⟩
    · rintro ⟨r', hr', hrest⟩
      exact ⟨r', mem_cons_of_mem _ hr', hrest⟩
    · rintro ⟨r', hr', hkey, hnext, hin⟩
      rcases mem_cons.mp hr' with rfl | hr'
      · exact absurd (hnext ▸ hin) hun
      · exact ⟨r', hr', hkey, hnext, hin⟩

theorem neighborResolved (h : Sound net w) (nextHop : UInt32) :
    Sound net (w.step strict net (.neighborResolved nextHop)) := by
  cases hwait : w.controller.unresolvedArpQueriesCache nextHop with
  | none =>
    have hstep : w.step strict net (.neighborResolved nextHop) =
        { w with resolved := nextHop :: w.resolved } := by
      rw [World.step, RouteController.addUnresolvedNewNeighbor, hwait]
    -- Nothing announced waits, so every route through it was programmed already.
    have hnone : ∀ r ∈ w.announced, r.nextHopIp = nextHop → nextHop ∈ w.resolved := by
      intro r hr hnext
      by_contra hun
      rw [(h.waiting nextHop r).mpr ⟨hr, hnext, hun⟩] at hwait
      cases hwait
    have hin : ∀ r ∈ w.announced, (r.nextHopIp ∈ nextHop :: w.resolved ↔
        r.nextHopIp ∈ w.resolved) := by
      intro r hr
      rw [mem_cons]
      exact ⟨fun hor => hor.elim (fun hnext => hnext ▸ hnone r hr hnext) id, .inr⟩
    rw [hstep]
    refine ⟨h.wired, ?_, h.interface, h.keys, ?_⟩
    · intro other r
      refine (h.waiting other r).trans ?_
      constructor
      · rintro ⟨hr, rfl, hun⟩
        exact ⟨hr, rfl, fun hmem => hun ((hin r hr).mp hmem)⟩
      · rintro ⟨hr, rfl, hun⟩
        exact ⟨hr, rfl, fun hmem => hun ((hin r hr).mpr hmem)⟩
    · intro key other
      refine (h.programmed key other).trans ?_
      constructor
      · rintro ⟨r, hr, hkey, rfl, hmem⟩
        exact ⟨r, hr, hkey, rfl, (hin r hr).mpr hmem⟩
      · rintro ⟨r, hr, hkey, rfl, hmem⟩
        exact ⟨r, hr, hkey, rfl, (hin r hr).mp hmem⟩
  | some r =>
    rcases (h.waiting nextHop r).mp hwait with ⟨hr, rfl, hun⟩
    have hkeys : ∀ other ∈ w.announced, other.key = r.key → other = r :=
      fun other hother => h.keys other hother r hr
    -- It is the only one announced through this next hop.
    have honly : ∀ r' ∈ w.announced, r'.nextHopIp = r.nextHopIp → r' = r := by
      intro r' hr' hnext
      have hwait' := (h.waiting r.nextHopIp r').mpr ⟨hr', hnext, hun⟩
      rw [hwait, Option.some.injEq] at hwait'
      exact hwait'.symm
    have hstep : w.step strict net (.neighborResolved r.nextHopIp) =
        { w with
          resolved := r.nextHopIp :: w.resolved
          controller :=
            { w.controller.addNeighbor r (net.mac r.nextHopIp) with
              unresolvedArpQueriesCache := update
                (w.controller.addNeighbor r (net.mac r.nextHopIp)).unresolvedArpQueriesCache
                r.nextHopIp none } } := by
      rw [World.step, RouteController.addUnresolvedNewNeighbor, hwait]
    rw [hstep]
    refine ⟨(h.wired_addNeighbor (h.interface r hr) hkeys).waiting _, ?_, h.interface, h.keys,
      ?_⟩
    · intro other r'
      simp only [addNeighbor_waiting, mem_cons, not_or]
      by_cases hn : other = r.nextHopIp
      · subst hn
        rw [update_self]
        exact ⟨fun hfalse => (nomatch hfalse), fun hfalse => absurd rfl hfalse.2.2.1⟩
      · rw [update_of_ne hn, h.waiting]
        exact ⟨fun ⟨h₁, h₂, h₃⟩ => ⟨h₁, h₂, hn, h₃⟩, fun ⟨h₁, h₂, _, h₃⟩ => ⟨h₁, h₂, h₃⟩⟩
    · intro key other
      refine (h.programmed_addNeighbor hkeys key other).trans ?_
      rw [h.programmed]
      constructor
      · rintro (⟨hkey, hnext⟩ | ⟨r', hr', hkey, hnext, hmem⟩)
        · exact ⟨r, hr, hkey, hnext, hnext ▸ mem_cons_self⟩
        · exact ⟨r', hr', hkey, hnext, mem_cons_of_mem _ hmem⟩
      · rintro ⟨r', hr', hkey, hnext, hmem⟩
        rcases mem_cons.mp hmem with hother | hmem
        · rw [honly r' hr' (hnext.trans hother)] at hkey
          exact .inl ⟨hkey, hother.symm⟩
        · exact .inr ⟨r', hr', hkey, hnext, hmem⟩

theorem wired_deleteRouteEntry (strict : Bool) (h : Wired net w.controller)
    (hnames : ∀ nextHop, net.interface nextHop ≠ getRouteModuleName r.interface) {g : Nat}
    (hroute : w.controller.bess.routes.lookup r.key = some ⟨g, r.nextHopIp⟩) :
    Wired net (w.controller.deleteRouteEntry strict r) ∧
      (w.controller.deleteRouteEntry strict r).bess.routes =
        w.controller.bess.routes.erase r.key ∧
      (w.controller.deleteRouteEntry strict r).unresolvedArpQueriesCache =
        w.controller.unresolvedArpQueriesCache := by
  rcases h.cached r.key g r.nextHopIp hroute with ⟨entry, hentry, -⟩
  by_cases hcount : entry.routeCount = 1
  · -- No module has the name that is looked for.
    have hname : w.controller.bess.updates
        (getUpdateModuleName (getRouteModuleName r.interface) entry.macAddress) = none := by
      cases hupdate : w.controller.bess.updates
          (getUpdateModuleName (getRouteModuleName r.interface) entry.macAddress) with
      | none => rfl
      | some mac =>
        rcases h.names _ mac hupdate with ⟨nextHop, hsame⟩
        exact absurd (getUpdateModuleName_inj hsame).1.symm (hnames nextHop)
    rw [deleteRouteEntry_last hentry hroute hcount hname]
    refine ⟨h.withdraw hentry hroute ?_, rfl, rfl⟩
    cases strict with
    | true => exact .inl (by rw [hcount]; rfl)
    | false => exact .inr ⟨rfl, hcount⟩
  · rw [deleteRouteEntry_counted hentry hroute hcount]
    exact ⟨h.withdraw hentry hroute (.inl rfl), rfl, rfl⟩

theorem routeRemoved (h : Sound net w)
    (hnames : ∀ nextHop, net.interface nextHop ≠ getRouteModuleName r.interface)
    (horder : w.Orderly net (.routeRemoved r)) :
    Sound net (w.step strict net (.routeRemoved r)) := by
  rcases horder with ⟨hr, hresolved⟩
  rcases (h.programmed r.key r.nextHopIp).mpr ⟨r, hr, rfl, rfl, hresolved⟩ with ⟨g, hroute⟩
  rcases wired_deleteRouteEntry strict h.wired hnames hroute with
    ⟨hwired, hroutes, hwaiting⟩
  have hmem : ∀ r', r' ∈ w.announced.filter (· ≠ r) ↔ r' ∈ w.announced ∧ r' ≠ r := by
    intro r'
    rw [mem_filter, decide_eq_true_iff]
  refine ⟨hwired, ?_, ?_, ?_, ?_⟩
  · intro nextHop r'
    show (w.controller.deleteRouteEntry strict r).unresolvedArpQueriesCache nextHop = _ ↔
      r' ∈ w.announced.filter (· ≠ r) ∧ _
    rw [hwaiting, h.waiting, hmem]
    constructor
    · rintro ⟨hr', rfl, hun⟩
      exact ⟨⟨hr', fun hsame => hun (hsame ▸ hresolved)⟩, rfl, hun⟩
    · rintro ⟨⟨hr', -⟩, hrest⟩
      exact ⟨hr', hrest⟩
  · exact fun r' hr' => h.interface r' ((hmem r').mp hr').1
  · exact fun r₁ h₁ r₂ h₂ => h.keys r₁ ((hmem r₁).mp h₁).1 r₂ ((hmem r₂).mp h₂).1
  · intro key nextHop
    show (∃ g, (w.controller.deleteRouteEntry strict r).bess.routes.lookup key = _) ↔
      ∃ r' ∈ w.announced.filter (· ≠ r), _
    rw [hroutes]
    by_cases hk : key = r.key
    · subst hk
      rw [lookup_erase _ _]
      constructor
      · rintro ⟨g, hg⟩
        cases hg
      · rintro ⟨r', hr', hkey, -⟩
        rcases (hmem r').mp hr' with ⟨hannounced, hne⟩
        exact absurd (h.keys r' hannounced r hr hkey) hne
    · rw [lookup_erase_ne hk, h.programmed]
      constructor
      · rintro ⟨r', hr', hkey, hrest⟩
        exact ⟨r', (hmem r').mpr ⟨hr', fun hsame => hk (hsame ▸ hkey.symm)⟩, hkey, hrest⟩
      · rintro ⟨r', hr', hkey, hrest⟩
        exact ⟨r', ((hmem r').mp hr').1, hkey, hrest⟩

theorem step (h : Sound net w)
    (hnames : ∀ nextHop other, net.interface nextHop ≠ getRouteModuleName (net.interface other))
    {event : KernelEvent} (horder : w.Orderly net event) :
    Sound net (w.step strict net event) := by
  cases event with
  | routeAdded r =>
    by_cases hresolved : r.nextHopIp ∈ w.resolved
    · exact h.routeAdded_resolved horder hresolved
    · exact h.routeAdded_waits horder hresolved
  | routeRemoved r =>
    refine h.routeRemoved (fun nextHop => ?_) horder
    rw [h.interface r horder.1]
    exact hnames nextHop r.nextHopIp
  | neighborResolved nextHop => exact h.neighborResolved nextHop

theorem follows (h : Sound net w) : w.Follows net where
  programmed r hinterface := by
    refine (h.programmed r.key r.nextHopIp).trans ⟨?_, fun ⟨hr, hin⟩ => ⟨r, hr, rfl, rfl, hin⟩⟩
    rintro ⟨r', hr', hkey, hnext, hin⟩
    exact ⟨RouteEntry.ext_key hkey hnext ▸ hr', hin⟩
  leads r hr hin := by
    rcases (h.programmed r.key r.nextHopIp).mpr ⟨r, hr, rfl, rfl, hin⟩ with ⟨g, hroute⟩
    rcases h.wired.cached r.key g r.nextHopIp hroute with ⟨entry, hentry, hgate⟩
    refine ⟨_, _, hroute, ?_, h.wired.writes r.nextHopIp entry hentry⟩
    rw [h.interface r hr]
    exact hgate ▸ h.wired.linked r.nextHopIp entry hentry

end Sound

/-! ## Routes follow the kernel -/

/-- Along every run in which routes wait alone for an unresolved next hop and are not
withdrawn before it is resolved, and no prefix of an interface has two routes, BESS has
exactly the announced routes with a resolved next hop, and each leads to the module that
writes its next hop's address. -/
theorem routes_follow_kernel (strict : Bool) (net : Network)
    (hnames : ∀ nextHop other, net.interface nextHop ≠ getRouteModuleName (net.interface other))
    (events : List KernelEvent)
    (horderly : eachStep (World.step strict net) (World.Orderly net) {} events) :
    (World.run strict net events).Follows net := by
  refine Sound.follows ?_
  exact foldl_invariant_of_eachStep (fun w event horder hw => hw.step hnames horder) horderly
    (Sound.init net)

def accessNetwork : Network := ⟨fun nextHop => Fin.ofNat _ nextHop.toNat, fun _ => "access"⟩

/-- Routes to two prefixes through one next hop. -/
def routeA : RouteEntry := ⟨1, "access", 0x0A000000, 8⟩
def routeB : RouteEntry := ⟨1, "access", 0x0B000000, 8⟩

theorem routes_follow_kernel_two :
    (World.run true accessNetwork [.routeAdded routeA, .neighborResolved 1, .routeAdded routeB,
      .routeRemoved routeA]).Follows accessNetwork := by
  apply routes_follow_kernel
  · show ∀ _ _ : UInt32, "access" ≠ getRouteModuleName "access"
    exact fun _ _ => by decide
  · refine ⟨⟨rfl, ?_, ?_⟩, trivial, ⟨rfl, ?_, ?_⟩, ⟨?_, ?_⟩, trivial⟩ <;> decide

/-- Two routes are announced before their next hop is resolved: only the second is
programmed when it is. A route withdrawn before that is programmed as well. -/
theorem second_waiting_route_displaces :
    ¬ (World.run true accessNetwork [.routeAdded routeA, .routeAdded routeB,
        .neighborResolved 1]).Follows accessNetwork ∧
      ¬ (World.run true accessNetwork [.routeAdded routeA, .routeRemoved routeA,
        .neighborResolved 1]).Follows accessNetwork := by
  constructor
  · intro h
    rcases (h.programmed routeA rfl).mpr (by decide) with ⟨g, hg⟩
    revert hg
    exact nofun
  · intro h
    have hwithdrawn := (h.programmed routeA rfl).mp ⟨0, by decide⟩
    revert hwithdrawn
    decide

end Upf.Routing
