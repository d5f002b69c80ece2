import Upf.Bess.NatPorts

/-!
# The mappings of the address translation

The table of the module is to be a one-to-one mapping of internal to external
endpoints, with both directions in it, over every sequence of packets.  A mapping in
use stays, and the search for a port finds the internal endpoint of every external
one that is taken.

The two entries of a mapping are inserted one after the other.  If the table takes one
of them and not the other, half a mapping is left behind.

Main result: `mappings_one_to_one`.
-/

namespace Upf.Bess

open Lib List AList

namespace NAT

def run (hash : UInt32 → Nat) (evs : List Event) (nat : NAT) : NAT :=
  evs.foldl (fun nat ev => (nat.processPacket hash ev).2) nat

/-- Packets out have internal sources, and the clock does not go backwards. -/
def Admissible (extAddrs : List UInt32) : (clock : UInt64) → List Event → Prop
  | _, [] => True
  | clock, ev :: evs =>
    (ev.dir = .forward → ev.before.addr ∉ extAddrs) ∧ clock ≤ ev.now ∧
      Admissible extAddrs ev.now evs

structure OneToOne (map : NatTable) : Prop where
  inverse : ∀ x e, map.lookup x = some e → ∃ e', map.lookup e.endpoint = some e' ∧ e'.endpoint = x
  distinct : ∀ x y e e', map.lookup x = some e → map.lookup y = some e' → x ≠ y →
    e.endpoint ≠ e'.endpoint

/-- What a packet leaves alone: a mapping in use; and no entry lacks its inverse when
the search for a port looks for it. -/
structure Undisturbed (hash : UInt32 → Nat) (nat : NAT) (ev : Event) : Prop where
  noFault : (nat.processPacket hash ev).1 ≠ .fault
  kept : ∀ x e, x.addr ∉ nat.extAddrs → nat.map.lookup x = some e →
    ev.now.toNat ≤ e.lastRefresh.toNat + kTimeOutNs.toNat →
    ∃ e', (nat.processPacket hash ev).2.map.lookup x = some e' ∧ e'.endpoint = e.endpoint

/-! ## One packet -/

/-- A table in both directions between internal and external endpoints, refreshed in
the past. -/
structure Sound (extAddrs : List UInt32) (clock : UInt64) (map : NatTable) : Prop where
  paired : Paired NatEntry.endpoint map
  crossing : ∀ x e, map.lookup x = some e → (x.addr ∈ extAddrs ↔ e.endpoint.addr ∉ extAddrs)
  refreshed : ∀ x e, map.lookup x = some e → x.addr ∉ extAddrs → e.lastRefresh ≤ clock

variable {extAddrs : List UInt32} {clock now : UInt64} {map : NatTable} {external : Endpoint}
  {expired : Option Endpoint}

theorem OneToOne.of_paired (h : Paired NatEntry.endpoint map) : OneToOne map where
  inverse := h
  distinct _ _ _ _ hx hy hne heq := hne (h.inj hx hy heq)

theorem lookup_reclaim {x : Endpoint} {e : NatEntry}
    (h : (reclaim external expired map).lookup x = some e) : map.lookup x = some e := by
  cases expired with
  | none => exact h
  | some old =>
    change ((map.erase old).erase external).lookup x = some e at h
    have hx : x ≠ external := by
      rintro rfl
      rw [lookup_erase] at h
      cases h
    rw [lookup_erase_ne hx] at h
    have hx' : x ≠ old := by
      rintro rfl
      rw [lookup_erase] at h
      cases h
    rwa [lookup_erase_ne hx'] at h

theorem lookup_reclaim_none {x : Endpoint} (h : map.lookup x = none) :
    (reclaim external expired map).lookup x = none := by
  by_contra hsome
  obtain ⟨e, he⟩ := Option.ne_none_iff_exists'.mp hsome
  cases h.symm.trans (lookup_reclaim he)

theorem reclaim_paired (h : Paired NatEntry.endpoint map)
    (havailable : Available map now external expired) :
    Paired NatEntry.endpoint (reclaim external expired map) ∧
      (reclaim external expired map).lookup external = none := by
  cases expired with
  | none => exact ⟨h, havailable⟩
  | some =>
    rcases havailable with ⟨reverse, forward, hreverse, rfl, -⟩
    exact ⟨h.erase_pair hreverse, lookup_erase _ _⟩

theorem reclaim_kept (havailable : Available map now external expired) {x : Endpoint}
    {e : NatEntry} (hx : x ≠ external) (hlook : map.lookup x = some e)
    (hfresh : ¬ now - e.lastRefresh > kTimeOutNs) :
    (reclaim external expired map).lookup x = some e := by
  cases expired with
  | none => exact hlook
  | some old =>
    rcases havailable with ⟨reverse, forward, -, -, hforward, hexpired⟩
    have hold : x ≠ old := by
      rintro rfl
      rw [hlook, Option.some.injEq] at hforward
      exact hfresh (hforward ▸ hexpired)
    change ((map.erase old).erase external).lookup x = some e
    rw [lookup_erase_ne hx, lookup_erase_ne hold, hlook]

theorem not_expired {last : UInt64} (hle : last ≤ now)
    (hfresh : now.toNat ≤ last.toNat + kTimeOutNs.toNat) : ¬ now - last > kTimeOutNs := by
  rw [gt_iff_lt, UInt64.lt_iff_toNat_lt, UInt64.toNat_sub_of_le now last hle]
  omega

theorem Sound.mono (h : Sound extAddrs clock map) (hclock : clock ≤ now) :
    Sound extAddrs now map where
  paired := h.paired
  crossing := h.crossing
  refreshed x e hx haddr := UInt64.le_trans (h.refreshed x e hx haddr) hclock

theorem Sound.reclaim (h : Sound extAddrs clock map)
    (havailable : Available map now external expired) :
    Sound extAddrs clock (reclaim external expired map) where
  paired := (reclaim_paired h.paired havailable).1
  crossing x e hx := h.crossing x e (lookup_reclaim hx)
  refreshed x e hx := h.refreshed x e (lookup_reclaim hx)

theorem Sound.refresh (h : Sound extAddrs now map) {x : Endpoint} {e : NatEntry}
    (hx : map.lookup x = some e) :
    Sound extAddrs now (map.insert x { e with lastRefresh := now }) where
  paired := h.paired.update hx rfl
  crossing y e' hy := by
    rcases lookup_insert_cases hy with ⟨rfl, rfl⟩ | ⟨-, hy⟩
    · exact h.crossing y e hx
    · exact h.crossing y e' hy
  refreshed y e' hy haddr := by
    rcases lookup_insert_cases hy with ⟨rfl, rfl⟩ | ⟨-, hy⟩
    · exact UInt64.le_refl now
    · exact h.refreshed y e' hy haddr

theorem lookup_create {internal x : Endpoint} {e e₁ e₂ : NatEntry}
    (h : ((map.insert external e₁).insert internal e₂).lookup x = some e) :
    x = internal ∧ e = e₂ ∨ x = external ∧ e = e₁ ∨ map.lookup x = some e := by
  rcases lookup_insert_cases h with hnew | ⟨-, h⟩
  · exact .inl hnew
  · rcases lookup_insert_cases h with hnew | ⟨-, h⟩
    · exact .inr (.inl hnew)
    · exact .inr (.inr h)

theorem Sound.create (h : Sound extAddrs now map) {internal : Endpoint} {garbage : UInt64}
    (hinternal : internal.addr ∉ extAddrs) (hexternal : external.addr ∈ extAddrs)
    (hfree : map.lookup internal = none) (hfree' : map.lookup external = none) :
    Sound extAddrs now
      ((map.insert external ⟨internal, garbage⟩).insert internal ⟨external, now⟩) := by
  refine ⟨h.paired.insert_pair hfree hfree' rfl rfl, fun x e hx => ?_, fun x e hx haddr => ?_⟩
  · rcases lookup_create hx with ⟨rfl, rfl⟩ | ⟨rfl, rfl⟩ | hx
    · exact ⟨fun hmem => absurd hmem hinternal, fun hnot => absurd hexternal hnot⟩
    · exact ⟨fun _ => hinternal, fun _ => hexternal⟩
    · exact h.crossing x e hx
  · rcases lookup_create hx with ⟨rfl, rfl⟩ | ⟨rfl, rfl⟩ | hx
    · exact UInt64.le_refl now
    · exact absurd hexternal haddr
    · exact h.refreshed x e hx haddr

variable {hash : UInt32 → Nat} {nat : NAT} {ev : Event}

theorem select_found (hne : nat.extAddrs ≠ []) {internal : Endpoint} {rand : Nat → Nat}
    (h : nat.select hash internal now rand = .found external expired) :
    external.addr ∈ nat.extAddrs ∧ Available nat.map now external expired := by
  have hidx : nat.extAddrIndex hash internal.addr < nat.extAddrs.length :=
    Nat.mod_lt _ (length_pos_of_ne_nil hne)
  unfold select at h
  rcases selectFrom_found h with ⟨r, -, q, -, rfl, havailable⟩
  refine ⟨?_, havailable⟩
  change nat.extAddrs.getD (nat.extAddrIndex hash internal.addr) 0 ∈ nat.extAddrs
  rw [getD_eq_getElem?_getD, getElem?_eq_getElem hidx]
  exact getElem_mem hidx

theorem select_ne_fault (h : Paired NatEntry.endpoint nat.map) {internal : Endpoint}
    {rand : Nat → Nat} : nat.select hash internal now rand ≠ .fault := by
  intro hfault
  rcases selectFrom_fault hfault with ⟨x, reverse, hx, hnone⟩
  rcases h x reverse hx with ⟨forward, hforward, -⟩
  rw [hnone] at hforward
  cases hforward

/-- What a packet can do to a table in both directions that takes both entries of a mapping
or none. -/
inductive Step (hash : UInt32 → Nat) (nat : NAT) (ev : Event) : Verdict × NAT → Prop
  | pass {verdict : Verdict} (hfault : verdict ≠ .fault)
      (hemit : ∀ after, verdict = .emit after →
        ∃ e, nat.map.lookup ev.before = some e ∧ e.endpoint = after) :
      Step hash nat ev (verdict, nat)
  | refresh {entry : NatEntry} (hlook : nat.map.lookup ev.before = some entry) :
      Step hash nat ev (.emit entry.endpoint,
        { nat with map := nat.map.insert ev.before { entry with lastRefresh := ev.now } })
  | create {external : Endpoint} {expired : Option Endpoint} (hdir : ev.dir = .forward)
      (hlook : nat.map.lookup ev.before = none)
      (hselect : nat.select hash ev.before ev.now ev.rand = .found external expired) :
      Step hash nat ev (.emit external,
        { nat with
          map := ((NAT.reclaim external expired nat.map).insert external
            ⟨ev.before, ev.garbage⟩).insert ev.before ⟨external, ev.now⟩ })
  | refuse {external : Endpoint} {expired : Option Endpoint} (hrefused : ev.takesForward = false)
      (hselect : nat.select hash ev.before ev.now ev.rand = .found external expired) :
      Step hash nat ev (.drop, { nat with map := NAT.reclaim external expired nat.map })

theorem Step.of_processPacket (hpaired : Paired NatEntry.endpoint nat.map)
    (hboth : ev.takesReverse = ev.takesForward) :
    Step hash nat ev (nat.processPacket hash ev) := by
  have hdrop : Step hash nat ev (.drop, nat) := .pass nofun nofun
  unfold NAT.processPacket
  cases hlook : nat.map.lookup ev.before with
  | some entry =>
    cases ev.dir with
    | reverse =>
      refine .pass nofun ?_
      rintro _ ⟨rfl⟩
      exact ⟨entry, hlook, rfl⟩
    | forward => exact .refresh hlook
  | none =>
    cases hdir : ev.dir with
    | reverse => exact hdrop
    | forward =>
      cases hselect : nat.select hash ev.before ev.now ev.rand with
      | none =>
        simp only [createNewEntry, hselect]
        exact hdrop
      | fault => exact absurd hselect (select_ne_fault hpaired)
      | found =>
        simp only [createNewEntry, insertIf, hselect, hboth]
        cases htakes : ev.takesForward with
        | false => exact .refuse htakes hselect
        | true =>
          simp only [if_true, insert_insert]
          exact .create hdir hlook hselect

structure Keeps (hash : UInt32 → Nat) (nat : NAT) (ev : Event) : Prop where
  extAddrs : (nat.processPacket hash ev).2.extAddrs = nat.extAddrs
  sound : Sound nat.extAddrs ev.now (nat.processPacket hash ev).2.map
  undisturbed : Undisturbed hash nat ev

theorem Keeps.of_step {verdict : Verdict} {map : NatTable}
    (hstep : (verdict, { nat with map }) = nat.processPacket hash ev) (hverdict : verdict ≠ .fault)
    (hsound : Sound nat.extAddrs ev.now map)
    (hkept : ∀ x e, x.addr ∉ nat.extAddrs → nat.map.lookup x = some e →
      ev.now.toNat ≤ e.lastRefresh.toNat + kTimeOutNs.toNat →
      ∃ e', map.lookup x = some e' ∧ e'.endpoint = e.endpoint) :
    Keeps hash nat ev := by
  refine ⟨?_, ?_, ?_, ?_⟩
  · rw [← hstep]
  · rw [← hstep]
    exact hsound
  · rw [← hstep]
    exact hverdict
  · rw [← hstep]
    exact hkept

theorem Sound.processPacket (h : Sound nat.extAddrs clock nat.map) (hne : nat.extAddrs ≠ [])
    (hinternal : ev.dir = .forward → ev.before.addr ∉ nat.extAddrs) (hclock : clock ≤ ev.now)
    (hboth : ev.takesReverse = ev.takesForward) : Keeps hash nat ev := by
  have hnow := h.mono hclock
  -- A mapping in use is not given up.
  have hkept {external : Endpoint} {expired : Option Endpoint}
      (hselect : nat.select hash ev.before ev.now ev.rand = .found external expired) (x : Endpoint)
      (e : NatEntry) (hx : x.addr ∉ nat.extAddrs) (hxe : nat.map.lookup x = some e)
      (hfresh : ev.now.toNat ≤ e.lastRefresh.toNat + kTimeOutNs.toNat) :
      x ≠ external ∧ (NAT.reclaim external expired nat.map).lookup x = some e := by
    obtain ⟨hexternal, havailable⟩ := select_found hne hselect
    have hxexternal : x ≠ external := by
      rintro rfl
      exact hx hexternal
    exact ⟨hxexternal,
      reclaim_kept havailable hxexternal hxe (not_expired (hnow.refreshed x e hxe hx) hfresh)⟩
  have hstep : Step hash nat ev (nat.processPacket hash ev) := .of_processPacket h.paired hboth
  generalize hr : nat.processPacket hash ev = r at hstep
  cases hstep with
  | pass hfault _ => exact .of_step hr.symm hfault hnow fun _ e _ hx _ => ⟨e, hx, rfl⟩
  | refresh hlook =>
    refine .of_step hr.symm nofun (hnow.refresh hlook) fun x e _ hx _ => ?_
    by_cases hxb : x = ev.before
    · subst hxb
      rw [hlook, Option.some.injEq] at hx
      rw [lookup_insert, hx]
      exact ⟨_, rfl, rfl⟩
    · rw [lookup_insert_ne hxb]
      exact ⟨e, hx, rfl⟩
  | create hdir hlook hselect =>
    obtain ⟨hexternal, havailable⟩ := select_found hne hselect
    refine .of_step hr.symm nofun ((hnow.reclaim havailable).create (hinternal hdir) hexternal
      (lookup_reclaim_none hlook) (reclaim_paired h.paired havailable).2)
      fun x e hx hxe hfresh => ⟨e, ?_, rfl⟩
    obtain ⟨hxexternal, hreclaim⟩ := hkept hselect x e hx hxe hfresh
    have hxb : x ≠ ev.before := by
      rintro rfl
      cases hlook.symm.trans hxe
    rw [lookup_insert_ne hxb, lookup_insert_ne hxexternal, hreclaim]
  | refuse _ hselect =>
    exact .of_step hr.symm nofun (hnow.reclaim (select_found hne hselect).2)
      fun x e hx hxe hfresh => ⟨e, (hkept hselect x e hx hxe hfresh).2, rfl⟩

/-! ## All packets -/

theorem Sound.run {evs : List Event} {last : Event} (h : Sound nat.extAddrs clock nat.map)
    (hne : nat.extAddrs ≠ []) (hadmissible : Admissible nat.extAddrs clock (evs ++ [last]))
    (hboth : ∀ ev ∈ evs ++ [last], ev.takesReverse = ev.takesForward) :
    (nat.run hash evs).extAddrs = nat.extAddrs ∧
      Sound nat.extAddrs last.now (nat.run hash evs).map ∧ Keeps hash (nat.run hash evs) last := by
  induction evs generalizing nat clock with
  | nil =>
    rcases hadmissible with ⟨hinternal, hclock, -⟩
    exact ⟨rfl, h.mono hclock,
      h.processPacket hne hinternal hclock (hboth last mem_cons_self)⟩
  | cons ev evs ih =>
    rcases hadmissible with ⟨hinternal, hclock, hadmissible⟩
    have hkeeps : Keeps hash nat ev :=
      h.processPacket hne hinternal hclock (hboth ev mem_cons_self)
    have hsound := hkeeps.sound
    rw [← hkeeps.extAddrs] at hsound hadmissible hne
    rcases ih hsound hne hadmissible fun ev' hev' =>
      hboth ev' (mem_cons_of_mem _ hev') with ⟨haddrs, hrun, hlast⟩
    rw [hkeeps.extAddrs] at haddrs hrun
    exact ⟨haddrs, hrun, hlast⟩

/-- Over every sequence of packets whose insertions both succeed or both fail: in every
state that is reached, before and after a packet, the table is one-to-one; and the
packet disturbs no mapping in use, nor does it come upon half a mapping. -/
theorem mappings_one_to_one (parseIpv4Address : String → Option UInt32)
    (arg : List ExternalAddress) (nat : NAT) (hinit : init parseIpv4Address arg = .ok nat)
    (hash : UInt32 → Nat) (evs : List Event) (ev : Event)
    (hadmissible : Admissible nat.extAddrs 0 (evs ++ [ev]))
    (hboth : ∀ ev' ∈ evs ++ [ev], ev'.takesReverse = ev'.takesForward) :
    OneToOne (nat.run hash evs).map ∧ OneToOne (nat.run hash (evs ++ [ev])).map ∧
      Undisturbed hash (nat.run hash evs) ev := by
  rcases init_ok hinit with ⟨-, hlength, -, hempty, harg⟩
  have hne : nat.extAddrs ≠ [] := by
    rw [← length_pos_iff, hlength, length_pos_iff]
    exact harg
  have hstart : Sound nat.extAddrs 0 nat.map := by
    rw [hempty]
    refine ⟨Paired.empty, fun x e hx => ?_, fun x e hx => ?_⟩ <;>
    · rw [lookup_empty] at hx
      cases hx
  rcases hstart.run hne hadmissible hboth with ⟨-, hbefore, hkeeps⟩
  refine ⟨.of_paired hbefore.paired, ?_, hkeeps.undisturbed⟩
  have hlast : nat.run hash (evs ++ [ev]) = ((nat.run hash evs).processPacket hash ev).2 := by
    unfold NAT.run
    rw [foldl_append]
    rfl
  rw [hlast]
  exact .of_paired hkeeps.sound.paired

/-! ## One address -/

def packetOut (port : UInt16) (takesForward : Bool) : Event where
  dir := .forward
  before := ⟨7, port, .udp⟩
  now := 1
  takesForward

/-- Two endpoints get their mappings. -/
theorem mappings_one_to_one_two :
    OneToOne (tenPortsNat.run (fun _ => 0) [packetOut 5000 true, packetOut 5001 true]).map := by
  apply (mappings_one_to_one onlyAddress tenPorts tenPortsNat rfl (fun _ => 0)
    [packetOut 5000 true] (packetOut 5001 true) ?_ ?_).2.1
  · exact ⟨by decide, by decide, by decide, by decide, trivial⟩
  · decide

/-- The table takes the entry of an external endpoint and not that of the internal one:
half a mapping is left behind, and the next packet comes upon it. -/
theorem half_a_mapping :
    init onlyAddress tenPorts = .ok tenPortsNat ∧
      Admissible tenPortsNat.extAddrs 0 [packetOut 5000 false, packetOut 5001 true] ∧
      ¬ OneToOne (tenPortsNat.run (fun _ => 0) [packetOut 5000 false]).map ∧
      ((tenPortsNat.run (fun _ => 0) [packetOut 5000 false]).processPacket (fun _ => 0)
        (packetOut 5001 true)).1 = .fault := by
  refine ⟨rfl, ⟨by decide, by decide, by decide, by decide, trivial⟩, fun h => ?_, by decide⟩
  have hentry : (tenPortsNat.run (fun _ => 0) [packetOut 5000 false]).map.lookup
      ⟨1, 2000, .udp⟩ = some ⟨⟨7, 5000, .udp⟩, 0⟩ := by decide
  rcases h.inverse _ _ hentry with ⟨e, he, -⟩
  have hnone : (tenPortsNat.run (fun _ => 0) [packetOut 5000 false]).map.lookup
      ⟨7, 5000, .udp⟩ = none := by decide
  rw [hnone] at he
  cases he

end NAT

end Upf.Bess
