import Upf.Routing.RouteControl

/-!
# The caches and BESS agree

What holds between the route controller's caches and BESS as routes are added and
deleted: every route in BESS goes through a cached next hop, at its gate, and behind
that gate is the module that writes the next hop's address.
-/

namespace Upf.Routing

open Function Lib Option AList Pipeline

structure Wired (net : Network) (c : RouteController) : Prop where
  cached : ∀ key g nextHop, c.bess.routes.lookup key = some ⟨g, nextHop⟩ →
    ∃ entry, c.neighborCache nextHop = some entry ∧ entry.gateIdx = g
  counted : ∀ nextHop entry, c.neighborCache nextHop = some entry →
    (c.bess.via nextHop : Int) ≤ entry.routeCount
  address : ∀ nextHop entry, c.neighborCache nextHop = some entry →
    entry.macAddress = net.mac nextHop
  linked : ∀ nextHop entry, c.neighborCache nextHop = some entry →
    c.bess.links (getRouteModuleName (net.interface nextHop), entry.gateIdx) =
      some (getUpdateModuleName (net.interface nextHop) (net.mac nextHop))
  writes : ∀ nextHop entry, c.neighborCache nextHop = some entry →
    c.bess.updates (getUpdateModuleName (net.interface nextHop) (net.mac nextHop)) =
      some (net.mac nextHop)
  gates : ∀ interface g name, c.bess.links (getRouteModuleName interface, g) = some name →
    g < c.moduleGateCountCache (getRouteModuleName interface)
  names : ∀ name mac, c.bess.updates name = some mac →
    ∃ nextHop, name = getUpdateModuleName (net.interface nextHop) mac

namespace Wired

variable {net : Network} {c : RouteController} {r : RouteEntry}

theorem init (net : Network) : Wired net {} where
  cached _ _ _ h := nomatch h
  counted _ _ h := nomatch h
  address _ _ h := nomatch h
  linked _ _ h := nomatch h
  writes _ _ h := nomatch h
  gates _ _ _ h := nomatch h
  names _ _ h := nomatch h

theorem waiting (h : Wired net c) (unresolved : UInt32 → Option RouteEntry) :
    Wired net { c with unresolvedArpQueriesCache := unresolved } where
  cached := h.cached
  counted := h.counted
  address := h.address
  linked := h.linked
  writes := h.writes
  gates := h.gates
  names := h.names

theorem via_congr {b b' : Pipeline} (h : b.routes = b'.routes) (nextHop : UInt32) :
    b.via nextHop = b'.via nextHop := by
  rw [Pipeline.via, h]
  rfl

theorem via_uncached (h : Wired net c) {nextHop : UInt32}
    (huncached : c.neighborCache nextHop = none) : c.bess.via nextHop = 0 := by
  by_contra hpos
  rcases via_pos_iff.mp (Nat.pos_of_ne_zero hpos) with ⟨key, g, hlookup⟩
  rcases h.cached key g _ hlookup with ⟨entry, hcached, -⟩
  rw [huncached] at hcached
  cases hcached

theorem via_addRoute_le {b : Pipeline} (gate : Nat)
    (hkey : ∀ route, b.routes.lookup r.key = some route → route.nextHop = r.nextHopIp)
    (nextHop : UInt32) :
    (b.addRoute r gate).via nextHop ≤ b.via nextHop + if r.nextHopIp = nextHop then 1 else 0 := by
  cases hold : b.routes.lookup r.key with
  | none => exact Nat.le_of_eq (via_addRoute_new gate hold nextHop)
  | some route =>
    have hsame : b.routes.lookup r.key = some ⟨route.gate, r.nextHopIp⟩ := by
      rw [hold, ← hkey route hold]
    rw [via_addRoute_known hsame]
    exact Nat.le_add_right _ _

theorem addNeighbor_new_cases {nextHop : UInt32} {new entry : NeighborEntry}
    (hentry : update c.neighborCache r.nextHopIp (some new) nextHop = some entry) :
    nextHop = r.nextHopIp ∧ entry = new ∨
      nextHop ≠ r.nextHopIp ∧ c.neighborCache nextHop = some entry := by
  by_cases hn : nextHop = r.nextHopIp
  · subst hn
    rw [update_self, some.injEq] at hentry
    exact .inl ⟨rfl, hentry.symm⟩
  · rw [update_of_ne hn] at hentry
    exact .inr ⟨hn, hentry⟩

/-- The cache counts other numbers of routes, through next hops it had before. -/
theorem recount (h : Wired net c) {bess : Pipeline} {cache : UInt32 → Option NeighborEntry}
    (hlinks : bess.links = c.bess.links) (hupdates : bess.updates = c.bess.updates)
    (hcached : ∀ key g nextHop, bess.routes.lookup key = some ⟨g, nextHop⟩ →
      ∃ entry, cache nextHop = some entry ∧ entry.gateIdx = g)
    (hbefore : ∀ nextHop entry, cache nextHop = some entry →
      ∃ old, c.neighborCache nextHop = some old ∧ old.gateIdx = entry.gateIdx ∧
        old.macAddress = entry.macAddress ∧
        old.routeCount - c.bess.via nextHop ≤ entry.routeCount - bess.via nextHop) :
    Wired net { c with bess, neighborCache := cache } := by
  refine ⟨hcached, ?_, ?_, ?_, ?_, hlinks ▸ h.gates, hupdates ▸ h.names⟩ <;>
    intro nextHop entry hentry <;>
    rcases hbefore nextHop entry hentry with ⟨old, hold, hgate, hmac, hcount⟩
  · have hle := h.counted nextHop old hold
    dsimp only
    omega
  · exact hmac ▸ h.address nextHop old hold
  · dsimp only
    rw [hlinks, ← hgate]
    exact h.linked nextHop old hold
  · dsimp only
    rw [hupdates]
    exact h.writes nextHop old hold

theorem addNeighbor_known (h : Wired net c) {mac : Mac} {entry : NeighborEntry}
    (hentry : c.neighborCache r.nextHopIp = some entry)
    (hkey : ∀ route, c.bess.routes.lookup r.key = some route → route.nextHop = r.nextHopIp) :
    Wired net (c.addNeighbor r mac) := by
  rw [RouteController.addNeighbor_known hentry]
  refine h.recount rfl rfl ?_ ?_
  · intro key g nextHop hlookup
    by_cases hn : nextHop = r.nextHopIp
    · subst hn
      refine ⟨_, update_self _ _ _, ?_⟩
      by_cases hk : key = r.key
      · subst hk
        rw [Pipeline.addRoute, lookup_insert, some.injEq] at hlookup
        exact congrArg ProgrammedRoute.gate hlookup
      · rw [Pipeline.addRoute, lookup_insert_ne hk] at hlookup
        rcases h.cached key g _ hlookup with ⟨old, hold, hg⟩
        rw [hentry, some.injEq] at hold
        exact hold ▸ hg
    · rw [update_of_ne hn]
      have hk : key ≠ r.key := by
        rintro rfl
        rw [Pipeline.addRoute, lookup_insert, some.injEq] at hlookup
        exact hn (congrArg ProgrammedRoute.nextHop hlookup).symm
      rw [Pipeline.addRoute, lookup_insert_ne hk] at hlookup
      exact h.cached key g nextHop hlookup
  · intro nextHop entry' hentry'
    have hvia := via_addRoute_le entry.gateIdx hkey nextHop
    rcases addNeighbor_new_cases hentry' with ⟨rfl, rfl⟩ | ⟨hn, hold⟩
    · rw [if_pos rfl] at hvia
      exact ⟨entry, hentry, rfl, rfl, by dsimp only; omega⟩
    · rw [if_neg (Ne.symm hn)] at hvia
      exact ⟨entry', hold, rfl, rfl, by omega⟩

theorem createModule_updates (h : Wired net c) (gate : Nat)
    (hinterface : r.interface = net.interface r.nextHopIp) :
    ((c.bess.addRoute r gate).createModule (getUpdateModuleName r.interface (net.mac r.nextHopIp))
        (net.mac r.nextHopIp)).updates =
      update c.bess.updates
        (getUpdateModuleName (net.interface r.nextHopIp) (net.mac r.nextHopIp))
        (some (net.mac r.nextHopIp)) := by
  rw [hinterface]
  apply Pipeline.createModule_updates
  intro mac hmac
  rcases h.names _ mac hmac with ⟨nextHop, hsame⟩
  exact (getUpdateModuleName_inj hsame).2.symm

theorem addNeighbor_new (h : Wired net c) (hentry : c.neighborCache r.nextHopIp = none)
    (hinterface : r.interface = net.interface r.nextHopIp)
    (hkey : c.bess.routes.lookup r.key = none) :
    Wired net (c.addNeighbor r (net.mac r.nextHopIp)) := by
  rw [RouteController.addNeighbor_new hentry, hinterface]
  set gate := c.moduleGateCountCache (getRouteModuleName (net.interface r.nextHopIp))
    with hgate
  set name := getUpdateModuleName (net.interface r.nextHopIp) (net.mac r.nextHopIp) with hname
  -- The gate is free: those in use are below it.
  have hfree : c.bess.links (getRouteModuleName (net.interface r.nextHopIp), gate) = none := by
    cases hlink : c.bess.links (getRouteModuleName (net.interface r.nextHopIp), gate) with
    | none => rfl
    | some => exact absurd (h.gates _ _ _ hlink) (Nat.lt_irrefl _)
  have hupdates := h.createModule_updates gate hinterface
  rw [hinterface, ← hname] at hupdates
  have hlinks : ∀ interface g, (((c.bess.addRoute r gate).createModule name
      (net.mac r.nextHopIp)).createModuleLinks gate name
      (getRouteModuleName (net.interface r.nextHopIp))
      (getMergeModuleName (net.interface r.nextHopIp))).links (getRouteModuleName interface, g) =
      update c.bess.links (getRouteModuleName (net.interface r.nextHopIp), gate) (some name)
        (getRouteModuleName interface, g) := by
    intro interface g
    rw [createModuleLinks_links _ (by rw [createModule_links]; exact hfree)
      (Ne.symm (getUpdateModuleName_ne_route _ _ _)), createModule_links]
    rfl
  refine ⟨?_, ?_, ?_, ?_, ?_, ?_, ?_⟩
  · intro key g nextHop hlookup
    simp only [createModuleLinks_routes, createModule_routes] at hlookup
    show ∃ entry, update c.neighborCache _ _ nextHop = some entry ∧ _
    by_cases hk : key = r.key
    · subst hk
      rw [Pipeline.addRoute, lookup_insert, some.injEq] at hlookup
      cases hlookup
      exact ⟨_, update_self _ _ _, rfl⟩
    · rw [Pipeline.addRoute, lookup_insert_ne hk] at hlookup
      rcases h.cached key g nextHop hlookup with ⟨entry, hcached, hg⟩
      have hn : nextHop ≠ r.nextHopIp := by
        rintro rfl
        rw [hentry] at hcached
        cases hcached
      exact ⟨entry, (update_of_ne hn _ _).trans hcached, hg⟩
  · intro nextHop entry hcached
    have hvia := via_addRoute_new gate hkey nextHop
    rw [via_congr ((createModuleLinks_routes _).trans createModule_routes), hvia]
    rcases addNeighbor_new_cases hcached with ⟨rfl, rfl⟩ | ⟨hn, hold⟩
    · rw [h.via_uncached hentry, if_pos rfl]
      exact Int.le_refl 1
    · rw [if_neg (Ne.symm hn)]
      exact h.counted nextHop entry hold
  · intro nextHop entry hcached
    rcases addNeighbor_new_cases hcached with ⟨rfl, rfl⟩ | ⟨-, hold⟩
    · rfl
    · exact h.address nextHop entry hold
  · intro nextHop entry hcached
    refine (hlinks _ _).trans ?_
    rcases addNeighbor_new_cases hcached with ⟨rfl, rfl⟩ | ⟨-, hold⟩
    · exact update_self _ _ _
    · have hlink := h.linked nextHop entry hold
      rw [update_of_ne _ _ _]
      · exact hlink
      · intro hsame
        rw [hsame, hfree] at hlink
        cases hlink
  · intro nextHop entry hcached
    simp only [createModuleLinks_updates, hupdates]
    rcases addNeighbor_new_cases hcached with ⟨rfl, rfl⟩ | ⟨-, hold⟩
    · exact update_self _ _ _
    · by_cases hsame : getUpdateModuleName (net.interface nextHop) (net.mac nextHop) = name
      · rw [hsame, update_self, (getUpdateModuleName_inj hsame).2]
      · rw [update_of_ne hsame]
        exact h.writes nextHop entry hold
  · intro interface g other hlink
    rw [hlinks] at hlink
    show g < update c.moduleGateCountCache _ _ _
    by_cases hmodule : getRouteModuleName interface =
        getRouteModuleName (net.interface r.nextHopIp)
    · rw [hmodule, update_self]
      by_cases hg : g = gate
      · omega
      · rw [update_of_ne (fun hsame => hg (congrArg Prod.snd hsame))] at hlink
        have hlt := h.gates interface g other hlink
        rw [hmodule] at hlt
        omega
    · rw [update_of_ne hmodule]
      rw [update_of_ne (fun hsame => hmodule (congrArg Prod.fst hsame))] at hlink
      exact h.gates interface g other hlink
  · intro other mac hother
    simp only [createModuleLinks_updates, hupdates] at hother
    by_cases hsame : other = name
    · rw [hsame, update_self, some.injEq] at hother
      exact ⟨r.nextHopIp, by rw [hsame, ← hother]⟩
    · rw [update_of_ne hsame] at hother
      exact h.names other mac hother

/-- A programmed route is deleted. Its next hop stays cached, counted once less, unless
nothing was counted but this route. -/
theorem withdraw (h : Wired net c) {entry : NeighborEntry} {g : Nat}
    (hentry : c.neighborCache r.nextHopIp = some entry)
    (hroute : c.bess.routes.lookup r.key = some ⟨g, r.nextHopIp⟩)
    {kept : Option NeighborEntry}
    (hkept : kept = some { entry with routeCount := entry.routeCount - 1 } ∨
      kept = none ∧ entry.routeCount = 1) :
    Wired net
      { c with
        bess := c.bess.eraseRoute r
        neighborCache := update c.neighborCache r.nextHopIp kept } := by
  have hvia := via_eraseRoute hroute
  refine h.recount rfl rfl ?_ ?_
  · intro key g' nextHop hlookup
    have hk : key ≠ r.key := by
      rintro rfl
      exact nomatch (lookup_erase _ _).symm.trans hlookup
    have hold := (lookup_erase_ne hk).symm.trans hlookup
    rcases h.cached key g' nextHop hold with ⟨old, hcached, hg⟩
    by_cases hn : nextHop = r.nextHopIp
    · subst hn
      rw [update_self]
      rw [hentry, some.injEq] at hcached
      rcases hkept with rfl | ⟨-, hone⟩
      · exact ⟨_, rfl, by rw [← hg, ← hcached]⟩
      · -- Another route through it was counted as well.
        have hpos : 0 < (c.bess.eraseRoute r).via r.nextHopIp :=
          via_pos_iff.mpr ⟨key, g', hlookup⟩
        have hcount := h.counted _ entry hentry
        have hone' := hvia r.nextHopIp
        rw [if_pos rfl] at hone'
        omega
    · exact ⟨old, (update_of_ne hn _ _).trans hcached, hg⟩
  · intro nextHop entry' hentry'
    have hless := hvia nextHop
    by_cases hn : nextHop = r.nextHopIp
    · subst hn
      rw [update_self] at hentry'
      rcases hkept with rfl | ⟨rfl, -⟩
      · cases hentry'
        rw [if_pos rfl] at hless
        exact ⟨entry, hentry, rfl, rfl, by dsimp only; omega⟩
      · exact nomatch hentry'
    · rw [update_of_ne hn] at hentry'
      rw [if_neg (Ne.symm hn)] at hless
      exact ⟨entry', hentry', rfl, rfl, by omega⟩

end Wired

end Upf.Routing
