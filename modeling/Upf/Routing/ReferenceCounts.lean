import Upf.Routing.KernelRoutes

/-!
# Reference counts of next hops

The neighbour cache counts the routes through each next hop, to take the next hop's
module away with its last route. It counts announcements and withdrawals, not routes,
and looks for the module under another name than it was created with: the module is
never found.

Main result: `routes_counted`.
-/

namespace Upf.Routing

open Function Lib RouteController

namespace World

variable (net : Network)

structure Counted (c : RouteController) : Prop where
  cached : ∀ nextHop, (c.neighborCache nextHop).isSome ↔ 0 < c.bess.via nextHop
  counts : ∀ nextHop entry, c.neighborCache nextHop = some entry →
    entry.routeCount = c.bess.via nextHop
  modules : ∀ name, (c.bess.updates name).isSome ↔
    ∃ nextHop entry, c.neighborCache nextHop = some entry ∧
      name = getUpdateModuleName (net.interface nextHop) entry.macAddress
  /-- One module each. -/
  separate : ∀ nextHop other entry entry', c.neighborCache nextHop = some entry →
    c.neighborCache other = some entry' →
    getUpdateModuleName (net.interface nextHop) entry.macAddress =
      getUpdateModuleName (net.interface other) entry'.macAddress → nextHop = other
  gates : ∀ nextHop other entry entry', c.neighborCache nextHop = some entry →
    c.neighborCache other = some entry' →
    getRouteModuleName (net.interface nextHop) = getRouteModuleName (net.interface other) →
    entry.gateIdx = entry'.gateIdx → nextHop = other

/-- A route that is programmed now takes a prefix nothing is programmed for, and a next
hop with routes keeps one: what is withdrawn through it is programmed and not the last. -/
def Careful (w : World) : KernelEvent → Prop
  | .routeAdded r =>
    r.interface = net.interface r.nextHopIp ∧
    (r.nextHopIp ∈ w.resolved → w.controller.bess.routes.lookup r.key = none)
  | .routeRemoved r =>
    0 < w.controller.bess.via r.nextHopIp →
      w.controller.bess.Programmed r ∧ 1 < w.controller.bess.via r.nextHopIp
  | .neighborResolved nextHop =>
    ∀ r, w.controller.unresolvedArpQueriesCache nextHop = some r →
      w.controller.bess.routes.lookup r.key = none

end World

/-! ## What a run keeps -/

structure Exact (net : Network) (c : RouteController) : Prop where
  wired : Wired net c
  waiting : ∀ nextHop r, c.unresolvedArpQueriesCache nextHop = some r →
    r.nextHopIp = nextHop ∧ r.interface = net.interface nextHop
  counts : ∀ nextHop entry, c.neighborCache nextHop = some entry →
    entry.routeCount = c.bess.via nextHop ∧ 0 < c.bess.via nextHop
  modules : ∀ name mac, c.bess.updates name = some mac →
    ∃ nextHop entry, c.neighborCache nextHop = some entry ∧
      name = getUpdateModuleName (net.interface nextHop) (net.mac nextHop)

namespace Exact

variable {strict : Bool} {net : Network} {c : RouteController} {r : RouteEntry}

theorem init (net : Network) : Exact net {} where
  wired := Wired.init net
  waiting _ _ h := nomatch h
  counts _ _ h := nomatch h
  modules _ _ h := nomatch h

theorem addNeighbor (h : Exact net c) (hinterface : r.interface = net.interface r.nextHopIp)
    (hkey : c.bess.routes.lookup r.key = none) :
    Exact net (c.addNeighbor r (net.mac r.nextHopIp)) := by
  have hvia : ∀ nextHop, (c.addNeighbor r (net.mac r.nextHopIp)).bess.via nextHop =
      c.bess.via nextHop + if r.nextHopIp = nextHop then 1 else 0 := by
    intro nextHop
    rw [← Pipeline.via_addRoute_new _ hkey nextHop]
    exact Wired.via_congr addNeighbor_routes nextHop
  have hwaiting : ∀ nextHop r',
      (c.addNeighbor r (net.mac r.nextHopIp)).unresolvedArpQueriesCache nextHop = some r' →
      r'.nextHopIp = nextHop ∧ r'.interface = net.interface nextHop := by
    intro nextHop r' hr'
    rw [addNeighbor_waiting] at hr'
    exact h.waiting nextHop r' hr'
  cases hentry : c.neighborCache r.nextHopIp with
  | some entry =>
    have hcache : (c.addNeighbor r (net.mac r.nextHopIp)).neighborCache =
        update c.neighborCache r.nextHopIp
          (some { entry with routeCount := entry.routeCount + 1 }) := by
      rw [addNeighbor_known hentry]
    refine ⟨h.wired.addNeighbor_known hentry (fun route hroute => ?_), hwaiting, ?_, ?_⟩
    · rw [hkey] at hroute
      cases hroute
    · intro nextHop entry' hentry'
      rw [hvia]
      rw [hcache] at hentry'
      rcases Wired.addNeighbor_new_cases hentry' with ⟨rfl, rfl⟩ | ⟨hn, hold⟩
      · rcases h.counts _ entry hentry with ⟨hcount, hpos⟩
        rw [if_pos rfl]
        exact ⟨by simp [hcount], by omega⟩
      · rw [if_neg (Ne.symm hn)]
        exact h.counts nextHop entry' hold
    · intro name mac hmac
      rw [addNeighbor_known hentry] at hmac
      rcases h.modules name mac hmac with ⟨nextHop, old, hold, hname⟩
      rw [hcache]
      by_cases hn : nextHop = r.nextHopIp
      · subst hn
        exact ⟨_, _, update_self _ _ _, hname⟩
      · exact ⟨nextHop, old, (update_of_ne hn _ _).trans hold, hname⟩
  | none =>
    have hcache : (c.addNeighbor r (net.mac r.nextHopIp)).neighborCache =
        update c.neighborCache r.nextHopIp
          (some ⟨c.moduleGateCountCache (getRouteModuleName r.interface),
            net.mac r.nextHopIp, 1⟩) := by
      rw [addNeighbor_new hentry]
    have hwired := h.wired.addNeighbor_new hentry hinterface hkey
    refine ⟨hwired, hwaiting, ?_, ?_⟩
    · intro nextHop entry' hentry'
      rw [hvia]
      rw [hcache] at hentry'
      rcases Wired.addNeighbor_new_cases hentry' with ⟨rfl, rfl⟩ | ⟨hn, hold⟩
      · rw [if_pos rfl, h.wired.via_uncached hentry]
        exact ⟨rfl, Nat.one_pos⟩
      · rw [if_neg (Ne.symm hn)]
        exact h.counts nextHop entry' hold
    · intro name mac hmac
      rw [addNeighbor_new hentry] at hmac
      simp only [Pipeline.createModuleLinks_updates,
        h.wired.createModule_updates _ hinterface] at hmac
      rw [hcache]
      by_cases hname :
          name = getUpdateModuleName (net.interface r.nextHopIp) (net.mac r.nextHopIp)
      · exact ⟨_, _, update_self _ _ _, hname⟩
      · rw [update_of_ne hname] at hmac
        rcases h.modules name mac hmac with ⟨nextHop, old, hold, hname'⟩
        have hn : nextHop ≠ r.nextHopIp := fun hn => hname (hn ▸ hname')
        exact ⟨nextHop, old, (update_of_ne hn _ _).trans hold, hname'⟩

theorem deleteRouteEntry (h : Exact net c) {g : Nat}
    (hroute : c.bess.routes.lookup r.key = some ⟨g, r.nextHopIp⟩)
    (hmore : 1 < c.bess.via r.nextHopIp) : Exact net (c.deleteRouteEntry strict r) := by
  rcases h.wired.cached r.key g r.nextHopIp hroute with ⟨entry, hentry, -⟩
  rcases h.counts r.nextHopIp entry hentry with ⟨hcount, -⟩
  have hvia := Pipeline.via_eraseRoute hroute
  rw [deleteRouteEntry_counted hentry hroute (by omega)]
  refine ⟨h.wired.withdraw hentry hroute (.inl rfl), h.waiting, ?_, ?_⟩
  · intro nextHop entry' hentry'
    have hless := hvia nextHop
    show entry'.routeCount = ((c.bess.eraseRoute r).via nextHop : Int) ∧
      0 < (c.bess.eraseRoute r).via nextHop
    rcases Wired.addNeighbor_new_cases hentry' with ⟨rfl, rfl⟩ | ⟨hn, hold⟩
    · rw [if_pos rfl] at hless
      refine ⟨?_, by omega⟩
      show entry.routeCount - 1 = _
      omega
    · rw [if_neg (Ne.symm hn), Nat.add_zero] at hless
      rw [← hless]
      exact h.counts nextHop entry' hold
  · intro name mac hmac
    rcases h.modules name mac hmac with ⟨nextHop, old, hold, hname⟩
    show ∃ nextHop entry', update c.neighborCache _ _ nextHop = some entry' ∧ _
    by_cases hn : nextHop = r.nextHopIp
    · subst hn
      exact ⟨_, _, update_self _ _ _, hname⟩
    · exact ⟨nextHop, old, (update_of_ne hn _ _).trans hold, hname⟩

theorem step {w : World} (h : Exact net w.controller) {event : KernelEvent}
    (hcareful : w.Careful net event) : Exact net (w.step strict net event).controller := by
  cases event with
  | routeAdded r =>
    rcases hcareful with ⟨hinterface, hkey⟩
    show Exact net (w.controller.addNewRouteEntry r (w.fetchMac net r.nextHopIp))
    by_cases hresolved : r.nextHopIp ∈ w.resolved
    · rw [World.fetchMac, if_pos hresolved]
      exact h.addNeighbor hinterface (hkey hresolved)
    · rw [World.fetchMac, if_neg hresolved]
      refine ⟨h.wired.waiting _, ?_, h.counts, h.modules⟩
      intro nextHop r' hr'
      simp only [RouteController.addNewRouteEntry, RouteController.probeAddr] at hr'
      by_cases hn : nextHop = r.nextHopIp
      · subst hn
        rw [update_self, Option.some.injEq] at hr'
        subst hr'
        exact ⟨rfl, hinterface⟩
      · rw [update_of_ne hn] at hr'
        exact h.waiting nextHop r' hr'
  | routeRemoved r =>
    show Exact net (w.controller.deleteRouteEntry strict r)
    cases hentry : w.controller.neighborCache r.nextHopIp with
    | none =>
      rw [RouteController.deleteRouteEntry, hentry]
      exact h
    | some entry =>
      rcases hcareful (h.counts _ entry hentry).2 with ⟨⟨g, hroute⟩, hmore⟩
      exact h.deleteRouteEntry hroute hmore
  | neighborResolved nextHop =>
    show Exact net (w.controller.addUnresolvedNewNeighbor nextHop (net.mac nextHop))
    cases hwait : w.controller.unresolvedArpQueriesCache nextHop with
    | none =>
      rw [RouteController.addUnresolvedNewNeighbor, hwait]
      exact h
    | some r =>
      rcases h.waiting nextHop r hwait with ⟨rfl, hinterface⟩
      have hadded := h.addNeighbor hinterface (hcareful r hwait)
      rw [RouteController.addUnresolvedNewNeighbor, hwait]
      refine ⟨hadded.wired.waiting _, ?_, hadded.counts, hadded.modules⟩
      intro other r' hr'
      by_cases hn : other = r.nextHopIp
      · subst hn
        cases (update_self _ _ _).symm.trans hr'
      · exact hadded.waiting other r' ((update_of_ne hn _ _).symm.trans hr')

theorem counted (h : Exact net c)
    (hmacs : ∀ nextHop other, net.interface nextHop = net.interface other →
      net.mac nextHop = net.mac other → nextHop = other) : World.Counted net c where
  cached nextHop := by
    cases hentry : c.neighborCache nextHop with
    | none => simp [h.wired.via_uncached hentry]
    | some entry => simpa using (h.counts nextHop entry hentry).2
  counts nextHop entry hentry := (h.counts nextHop entry hentry).1
  modules name := by
    rw [Option.isSome_iff_exists]
    constructor
    · rintro ⟨mac, hmac⟩
      rcases h.modules name mac hmac with ⟨nextHop, entry, hentry, hname⟩
      exact ⟨nextHop, entry, hentry, (h.wired.address nextHop entry hentry).symm ▸ hname⟩
    · rintro ⟨nextHop, entry, hentry, rfl⟩
      rw [h.wired.address nextHop entry hentry]
      exact ⟨_, h.wired.writes nextHop entry hentry⟩
  separate nextHop other entry entry' hentry hentry' hname := by
    rw [h.wired.address nextHop entry hentry, h.wired.address other entry' hentry'] at hname
    rcases getUpdateModuleName_inj hname with ⟨hinterface, hmac⟩
    exact hmacs nextHop other hinterface hmac
  gates nextHop other entry entry' hentry hentry' hmodule hgate := by
    have hlinked := h.wired.linked nextHop entry hentry
    rw [hmodule, hgate, h.wired.linked other entry' hentry', Option.some.injEq] at hlinked
    rcases getUpdateModuleName_inj hlinked with ⟨hinterface, hmac⟩
    exact hmacs nextHop other hinterface.symm hmac.symm

end Exact

/-! ## Counts are those of the programmed routes -/

/-- Along every run in which a route is programmed under a free prefix only, what is
withdrawn through a next hop with routes is one of them and not the last, and next hops
on an interface have different addresses: the cache has the next hops with programmed
routes and their number, and BESS one module for each, behind a gate of its own. -/
theorem routes_counted (strict : Bool) (net : Network)
    (hmacs : ∀ nextHop other, net.interface nextHop = net.interface other →
      net.mac nextHop = net.mac other → nextHop = other)
    (events : List KernelEvent)
    (hcareful : eachStep (World.step strict net) (World.Careful net) {} events) :
    World.Counted net (World.run strict net events).controller := by
  refine Exact.counted ?_ hmacs
  exact foldl_invariant_of_eachStep (P := fun w => Exact net w.controller)
    (fun w event hevent hw => hw.step hevent) hcareful (Exact.init net)

theorem routes_counted_two :
    World.Counted accessNetwork (World.run true accessNetwork [.routeAdded routeA,
      .neighborResolved 1, .routeAdded routeB, .routeRemoved routeA]).controller := by
  apply routes_counted
  · intro nextHop other _ hmac
    have hval : nextHop.toNat % 2 ^ 48 = other.toNat % 2 ^ 48 := congrArg Fin.val hmac
    have hlt := nextHop.toNat_lt
    have hlt' := other.toNat_lt
    exact UInt32.toNat_inj.mp (by omega)
  · refine ⟨⟨rfl, fun hin => absurd hin (by decide)⟩, ?_, ⟨rfl, fun _ => by decide⟩, ?_, trivial⟩
    · intro r hr
      cases hr
      decide
    · exact fun _ => ⟨⟨0, by decide⟩, by decide⟩

/-- The only route of a next hop is withdrawn: its module stays, under the name it was
created with. Where BESS reports that the other name is unknown the next hop stays cached
without a route; where it does not, the module is left without a cached next hop. -/
theorem last_withdrawal_keeps_module :
    ¬ World.Counted accessNetwork (World.run true accessNetwork [.neighborResolved 1,
        .routeAdded routeA, .routeRemoved routeA]).controller ∧
      ¬ World.Counted accessNetwork (World.run false accessNetwork [.neighborResolved 1,
        .routeAdded routeA, .routeRemoved routeA]).controller := by
  constructor
  · intro h
    have hroute := (h.cached 1).mp (by decide)
    revert hroute
    decide
  · intro h
    rcases (h.modules "accessDstMAC000000000001").mp (by decide) with ⟨nextHop, entry, hentry, -⟩
    have hvia := (h.cached nextHop).mp (by rw [hentry]; rfl)
    have hroutes : (World.run false accessNetwork [.neighborResolved 1, .routeAdded routeA,
        .routeRemoved routeA]).controller.bess.routes.entries = [] := by
      decide
    rw [Pipeline.via, census, hroutes] at hvia
    exact absurd hvia (Nat.lt_irrefl 0)

end Upf.Routing
