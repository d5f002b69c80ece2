import Mathlib.Data.List.Dedup
import Upf.Bess.Nat

/-!
# The ports the address translation gives out

A port that is given to an endpoint is to be one the configuration has for the
external address, other than zero, and privileged just if the internal port is.  It is
not always: the addresses are sorted when the module is set up and the ranges are not,
the last candidate for an unprivileged port is the end of the range, and a range may
begin at zero.

Main result: `ports_given`.
-/

namespace Upf.Bess

open Lib List AList Nat

namespace NAT

theorem unprivileged_iff (port : UInt16) : unprivileged port = true ↔ 1024 ≤ port.toNat := by
  have hnot : (~~~(1023 : UInt16)).toNat = 64512 := by decide
  have hlt : port.toNat < 65536 := port.toNat_lt
  have hhigh : (port.toNat &&& 64512) / 1024 = port.toNat / 1024 := by
    have hshift := shiftRight_and_distrib (a := port.toNat) (b := 64512) (i := 10)
    have hmod := and_two_pow_sub_one_eq_mod (port.toNat >>> 10) 6
    rw [Nat.shiftRight_eq_div_pow, Nat.shiftRight_eq_div_pow, Nat.shiftRight_eq_div_pow] at hshift
    rw [Nat.shiftRight_eq_div_pow] at hmod
    have hsmall : port.toNat / 2 ^ 10 % 2 ^ 6 = port.toNat / 2 ^ 10 := by omega
    exact hshift.trans (hmod.trans hsmall)
  have hlow : (port.toNat &&& 64512) % 1024 = 0 := by
    have hmod := and_two_pow_sub_one_eq_mod (port.toNat &&& 64512) 10
    rw [Nat.and_assoc] at hmod
    exact hmod.symm.trans (and_zero _)
  unfold unprivileged
  rw [decide_eq_true_iff, ne_eq, ← UInt16.toNat_inj, UInt16.toNat_and, hnot, UInt16.toNat_zero]
  omega

section Configuration

variable (parseIpv4Address : String → Option UInt32) (arg : List ExternalAddress)

def Configured (addr : UInt32) (port : Nat) : Prop :=
  ∃ a ∈ arg, parseIpv4Address a.extAddr = some addr ∧
    ∃ r ∈ a.ranges, r.suspended = false ∧ r.beginPort ≤ port ∧ port < r.endPort

instance (addr : UInt32) (port : Nat) : Decidable (Configured parseIpv4Address arg addr port) :=
  inferInstanceAs (Decidable (∃ a ∈ arg, _))

def Proper (internal external : Endpoint) : Prop :=
  Configured parseIpv4Address arg external.addr external.port.toNat ∧
    (internal.protocol ≠ .icmp →
      external.port ≠ 0 ∧ (external.port.toNat < 1024 ↔ internal.port.toNat < 1024))

instance (internal external : Endpoint) :
    Decidable (Proper parseIpv4Address arg internal external) :=
  inferInstanceAs (Decidable (_ ∧ _))

/-- The ports of a range that an endpoint may get are configured for an address: for an
unprivileged port also the end of the range, and for a privileged one none is zero. -/
def RangeCovered (internal : Endpoint) (addr : UInt32) (r : PortRange) : Prop :=
  if internal.protocol = .icmp then
    ∀ p, r.beginPort ≤ p → p < r.endPort → Configured parseIpv4Address arg addr p
  else if internal.port = 0 then True
  else if 1024 ≤ internal.port.toNat then
    1024 < r.endPort → ∀ p, max 1024 r.beginPort ≤ p → p ≤ r.endPort →
      Configured parseIpv4Address arg addr p
  else
    r.beginPort < 1023 → 0 < r.beginPort ∧ ∀ p, r.beginPort ≤ p → p < min 1023 r.endPort →
      Configured parseIpv4Address arg addr p

/-- The address the module takes is the one at the index of the internal endpoint once
the addresses are sorted, and the ranges are those given at that index. -/
def Covered (hash : UInt32 → Nat) (internal : Endpoint) : Prop :=
  ∀ a addr, arg[hash internal.addr % arg.length]? = some a →
    ((arg.filterMap fun a => parseIpv4Address a.extAddr).insertionSort
      (· ≤ ·))[hash internal.addr % arg.length]? = some addr →
    ∀ r ∈ a.ranges, r.suspended = false → RangeCovered parseIpv4Address arg internal addr r

end Configuration

variable {parseIpv4Address : String → Option UInt32} {arg : List ExternalAddress}
  {internal : Endpoint} {addr : UInt32}

theorem proper_externalAt {port : Nat} (h : port < 2 ^ 16) :
    Proper parseIpv4Address arg internal (externalAt addr internal port) ↔
      Configured parseIpv4Address arg addr port ∧
        (internal.protocol ≠ .icmp →
          port ≠ 0 ∧ (port < 1024 ↔ internal.port.toNat < 1024)) := by
  have hport : (externalAt addr internal port).port.toNat = port := UInt16.toNat_ofNat_of_lt' h
  have hzero : (externalAt addr internal port).port = 0 ↔ port = 0 := by
    rw [← UInt16.toNat_inj, hport, UInt16.toNat_zero]
  unfold Proper
  rw [hport, ne_eq, ne_eq, hzero]
  rfl

theorem candidate_lt {r : PortRange} {port : Nat} (h : Candidate internal r port) :
    port < 2 ^ 16 := by
  rcases h with ⟨min, range, hoffer, -, hlt⟩
  exact hlt.trans_le (offer_ports hoffer).2

theorem candidate_suspended {r : PortRange} {port : Nat} (h : Candidate internal r port) :
    r.suspended = false := by
  rcases h with ⟨min, range, hoffer, -⟩
  unfold offer at hoffer
  split_ifs at hoffer with hsuspended <;> simpa using hsuspended

theorem forall_ports {P : Nat → Prop} {m n : Nat} {o : Offer} (ho : o = .ports m n) :
    (∀ p, (∃ min range, o = .ports min range ∧ min ≤ p ∧ p < min + range) → P p) ↔
      ∀ p, m ≤ p → p < m + n → P p := by
  subst ho
  constructor
  · intro h p hm hn
    exact h p ⟨m, n, rfl, hm, hn⟩
  · rintro h p ⟨min, range, heq, hm, hn⟩
    cases heq
    exact h p hm hn

theorem rangeCovered_iff {r : PortRange} (hr : r.suspended = false) :
    RangeCovered parseIpv4Address arg internal addr r ↔
      ∀ p, Candidate internal r p →
        Proper parseIpv4Address arg internal (externalAt addr internal p) := by
  have hlt := r.nonempty
  have hle := r.fits
  have hpriv := unprivileged_iff internal.port
  have hsuspended : ¬ r.suspended = true := by simp [hr]
  unfold RangeCovered Candidate
  generalize hoffer : offer internal r = o
  unfold offer at hoffer
  rw [if_neg hsuspended] at hoffer
  by_cases hicmp : internal.protocol = .icmp
  · rw [if_pos hicmp] at hoffer ⊢
    rw [forall_ports hoffer.symm]
    refine forall_congr' fun p => forall_congr' fun hmin => ?_
    have hend : p < r.beginPort + (r.endPort - r.beginPort) ↔ p < r.endPort := by omega
    rw [hend]
    refine forall_congr' fun hp => ?_
    rw [proper_externalAt (by omega)]
    simp [hicmp]
  · rw [if_neg hicmp] at hoffer ⊢
    by_cases hzero : internal.port = 0
    · rw [if_pos hzero] at hoffer ⊢
      simp [← hoffer]
    · rw [if_neg hzero] at hoffer ⊢
      by_cases hu : 1024 ≤ internal.port.toNat
      · rw [if_pos (hpriv.mpr hu)] at hoffer
        rw [if_pos hu]
        by_cases hend : r.endPort ≤ 1024
        · rw [if_pos hend] at hoffer
          simp [← hoffer, hend]
        · rw [if_neg hend] at hoffer
          rw [forall_ports hoffer.symm, mod_eq_of_lt (by omega)]
          constructor
          · intro h p hmin hp
            rw [proper_externalAt (by omega)]
            exact ⟨h (by omega) p hmin (by omega), fun _ => by omega⟩
          · intro h _ p hmin hp
            have hproper := h p hmin (by omega)
            rw [proper_externalAt (by omega)] at hproper
            exact hproper.1
      · rw [if_neg (fun h => hu (hpriv.mp h))] at hoffer
        rw [if_neg hu]
        by_cases hbegin : 1023 ≤ r.beginPort
        · rw [if_pos hbegin] at hoffer
          simp [← hoffer, hbegin]
        · rw [if_neg hbegin] at hoffer
          rw [forall_ports hoffer.symm]
          constructor
          · intro h p hmin hp
            rcases h (by omega) with ⟨hpos, hconf⟩
            rw [proper_externalAt (by omega)]
            exact ⟨hconf p hmin (by omega), fun _ => by omega⟩
          · intro h _
            have hproper : ∀ p, r.beginPort ≤ p → p < min 1023 r.endPort →
                Configured parseIpv4Address arg addr p ∧ p ≠ 0 := by
              intro p hmin hp
              have hproper := h p hmin (by omega)
              rw [proper_externalAt (by omega)] at hproper
              exact ⟨hproper.1, (hproper.2 hicmp).1⟩
            have hfirst := (hproper r.beginPort (le_refl _) (by omega)).2
            exact ⟨by omega, fun p hmin hp => (hproper p hmin hp).1⟩

/-! ## Every candidate can be chosen -/

/-- Endpoints at some ports are taken, by fresh mappings to endpoints of another
address. -/
def crowded (addr other : UInt32) (protocol : IpProto) (now : UInt64) : List UInt16 → NatTable
  | [] => ∅
  | q :: qs =>
    ((crowded addr other protocol now qs).insert ⟨addr, q, protocol⟩
      ⟨⟨other, q, protocol⟩, now⟩).insert ⟨other, q, protocol⟩ ⟨⟨addr, q, protocol⟩, now⟩

section Crowded

variable {other : UInt32} {protocol : IpProto} {now : UInt64} {qs : List UInt16}

theorem lookup_crowded_other {x : Endpoint} (hx : x.addr ≠ addr) (hx' : x.addr ≠ other) :
    (crowded addr other protocol now qs).lookup x = none := by
  induction qs with
  | nil => exact lookup_empty x
  | cons p qs ih =>
    have hne : x ≠ ⟨addr, p, protocol⟩ := fun heq => hx (congrArg Endpoint.addr heq)
    have hne' : x ≠ ⟨other, p, protocol⟩ := fun heq => hx' (congrArg Endpoint.addr heq)
    rw [crowded, lookup_insert_ne hne', lookup_insert_ne hne, ih]

theorem lookup_crowded (haddr : other ≠ addr) (protocol : IpProto) (now : UInt64)
    (qs : List UInt16) (q : UInt16) :
    ((crowded addr other protocol now qs).lookup ⟨addr, q, protocol⟩ =
        if q ∈ qs then some ⟨⟨other, q, protocol⟩, now⟩ else none) ∧
      ((crowded addr other protocol now qs).lookup ⟨other, q, protocol⟩ =
        if q ∈ qs then some ⟨⟨addr, q, protocol⟩, now⟩ else none) := by
  induction qs with
  | nil => exact ⟨lookup_empty _, lookup_empty _⟩
  | cons p qs ih =>
    have hcross : (⟨addr, q, protocol⟩ : Endpoint) ≠ ⟨other, p, protocol⟩ :=
      fun heq => haddr (congrArg Endpoint.addr heq).symm
    have hcross' : (⟨other, q, protocol⟩ : Endpoint) ≠ ⟨addr, p, protocol⟩ :=
      fun heq => haddr (congrArg Endpoint.addr heq)
    by_cases hqp : q = p
    · subst hqp
      rw [crowded, lookup_insert_ne hcross, lookup_insert, lookup_insert,
        if_pos mem_cons_self, if_pos mem_cons_self]
      exact ⟨rfl, rfl⟩
    · have hne : (⟨addr, q, protocol⟩ : Endpoint) ≠ ⟨addr, p, protocol⟩ :=
        fun heq => hqp (congrArg Endpoint.port heq)
      have hne' : (⟨other, q, protocol⟩ : Endpoint) ≠ ⟨other, p, protocol⟩ :=
        fun heq => hqp (congrArg Endpoint.port heq)
      rw [crowded, lookup_insert_ne hcross, lookup_insert_ne hne,
        lookup_insert_ne hne', lookup_insert_ne hcross']
      simpa [hqp] using ih

theorem paired_crowded (haddr : other ≠ addr) (protocol : IpProto) (now : UInt64)
    (hnodup : qs.Nodup) :
    Paired NatEntry.endpoint (crowded addr other protocol now qs) := by
  induction qs with
  | nil => exact Paired.empty
  | cons q qs ih =>
    rcases nodup_cons.mp hnodup with ⟨hq, hnodup⟩
    rcases lookup_crowded haddr protocol now qs q with ⟨hhere, hthere⟩
    rw [if_neg hq] at hhere hthere
    exact (ih hnodup).insert_pair hthere hhere rfl rfl

end Crowded

def portsBut (p : UInt16) : List UInt16 :=
  ((List.range (2 ^ 16)).map UInt16.ofNat).dedup.filter fun q => q ≠ p

theorem mem_portsBut {p q : UInt16} : q ∈ portsBut p ↔ q ≠ p := by
  have hall : q ∈ (List.range (2 ^ 16)).map UInt16.ofNat :=
    mem_map.mpr ⟨q.toNat, mem_range.mpr q.toNat_lt, UInt16.ofNat_toNat⟩
  simp only [portsBut, mem_filter, mem_dedup, hall, true_and, decide_eq_true_iff]

theorem not_candidate_of_giveUp {r₀ r : PortRange} (h : offer internal r₀ = .giveUp) (p : Nat) :
    ¬ Candidate internal r p := by
  have hnone : internal.protocol ≠ .icmp ∧ internal.port = 0 := by
    unfold offer at h
    split_ifs at h with _ hicmp hzero
    exact ⟨hicmp, hzero⟩
  rintro ⟨m, n, hoffer, -⟩
  unfold offer at hoffer
  rw [if_neg hnone.1, if_pos hnone.2] at hoffer
  split_ifs at hoffer

theorem selectFrom_candidate {map : NatTable} {now : UInt64} {rs : List PortRange}
    {r : PortRange} (hr : r ∈ rs) {p : Nat} (hp : Candidate internal r p)
    (hfree : map.lookup (externalAt addr internal p) = none)
    (htaken : ∀ q, q < 2 ^ 16 → q ≠ p → ∃ reverse forward,
      map.lookup (externalAt addr internal q) = some reverse ∧
      map.lookup reverse.endpoint = some forward ∧ ¬ now - forward.lastRefresh > kTimeOutNs) :
    ∃ n, ∀ idx, selectFrom map now addr internal (fun _ => n) idx rs =
      .found (externalAt addr internal p) none := by
  induction rs with
  | nil => cases hr
  | cons r₀ rs ih =>
    have hrest : ¬ Candidate internal r₀ p → ∃ n, ∀ idx,
        selectFrom map now addr internal (fun _ => n) idx rs =
          .found (externalAt addr internal p) none := by
      intro hnot
      rcases mem_cons.mp hr with rfl | hr
      · exact absurd hp hnot
      · exact ih hr
    unfold selectFrom
    cases hoffer : offer internal r₀ with
    | skip =>
      rcases hrest (by rintro ⟨m, n, h, -⟩; rw [hoffer] at h; cases h) with ⟨n, hn⟩
      exact ⟨n, fun idx => hn (idx + 1)⟩
    | giveUp => exact absurd hp (not_candidate_of_giveUp hoffer p)
    | ports m n =>
      rcases offer_ports hoffer with ⟨hpos, hfits⟩
      by_cases hmem : m ≤ p ∧ p < m + n
      · refine ⟨p - m, fun idx => ?_⟩
        have hstart : m + (p - m) % n = p := by
          rw [mod_eq_of_lt (by omega)]
          omega
        dsimp only
        rw [hstart, kMaxTrials]
        unfold probe
        rw [hfree]
      · -- Its ports are all taken.
        have hnot : ¬ Candidate internal r₀ p := by
          rintro ⟨m', n', h, hmem'⟩
          rw [hoffer] at h
          cases h
          exact hmem hmem'
        rcases hrest hnot with ⟨k, hk⟩
        refine ⟨k, fun idx => ?_⟩
        rcases start_mem m hpos k with ⟨hmin, hlt⟩
        have hnone : probe map now addr internal m n (m + k % n) kMaxTrials (m + k % n) =
            .none := by
          apply probe_none hfits hmin hlt
          intro q hq hq'
          exact htaken q (hq'.trans_le hfits) (by rintro rfl; exact hmem ⟨hq, hq'⟩)
        dsimp only
        rw [hnone]
        exact hk (idx + 1)

theorem exists_selected (addr : UInt32) {rs : List PortRange} {r : PortRange} (hr : r ∈ rs)
    {p : Nat}
    (hp : Candidate internal r p) :
    ∃ (map : NatTable) (now : UInt64) (rand : Nat → Nat), Paired NatEntry.endpoint map ∧
      (internal.addr ≠ addr → map.lookup internal = none) ∧
      selectFrom map now addr internal rand 0 rs = .found (externalAt addr internal p) none := by
  -- An address apart from the external one and that of the endpoint.
  have hother : ∃ other : UInt32, other ≠ addr ∧ other ≠ internal.addr := by
    by_cases h0 : (0 : UInt32) ≠ addr ∧ (0 : UInt32) ≠ internal.addr
    · exact ⟨0, h0⟩
    by_cases h1 : (1 : UInt32) ≠ addr ∧ (1 : UInt32) ≠ internal.addr
    · exact ⟨1, h1⟩
    refine ⟨2, ?_, ?_⟩ <;> grind
  rcases hother with ⟨other, haddr, hinternal⟩
  have hlook := lookup_crowded haddr internal.protocol 0 (portsBut (UInt16.ofNat p))
  have hnodup : (portsBut (UInt16.ofNat p)).Nodup := (nodup_dedup _).filter _
  have hpaired := paired_crowded haddr internal.protocol 0 hnodup
  have hfree : (crowded addr other internal.protocol 0 (portsBut (UInt16.ofNat p))).lookup
      (externalAt addr internal p) = none :=
    (hlook _).1.trans (if_neg fun h => mem_portsBut.mp h rfl)
  have htaken : ∀ q, q < 2 ^ 16 → q ≠ p → ∃ reverse forward,
      (crowded addr other internal.protocol 0 (portsBut (UInt16.ofNat p))).lookup
        (externalAt addr internal q) = some reverse ∧
      (crowded addr other internal.protocol 0 (portsBut (UInt16.ofNat p))).lookup
        reverse.endpoint = some forward ∧ ¬ (0 : UInt64) - forward.lastRefresh > kTimeOutNs := by
    intro q hq hqp
    have hne : UInt16.ofNat q ≠ UInt16.ofNat p := by
      intro heq
      have hnat := congrArg UInt16.toNat heq
      rw [UInt16.toNat_ofNat_of_lt' hq, UInt16.toNat_ofNat_of_lt' (candidate_lt hp)] at hnat
      exact hqp hnat
    rcases hlook (UInt16.ofNat q) with ⟨hhere, hthere⟩
    rw [if_pos (mem_portsBut.mpr hne)] at hhere hthere
    exact ⟨_, _, hhere, hthere, (by decide : ¬ (0 : UInt64) - 0 > kTimeOutNs)⟩
  rcases selectFrom_candidate hr hp hfree htaken with ⟨n, hn⟩
  exact ⟨_, 0, fun _ => n, hpaired, fun h => lookup_crowded_other h hinternal.symm, hn 0⟩

/-! ## The ports of a module -/

theorem init_ok {nat : NAT} (h : init parseIpv4Address arg = .ok nat) :
    nat.extAddrs =
        (arg.filterMap fun a => parseIpv4Address a.extAddr).insertionSort (· ≤ ·) ∧
      nat.extAddrs.length = arg.length ∧ nat.portRanges = arg.map ExternalAddress.ranges ∧
      nat.map = ∅ ∧ arg ≠ [] := by
  unfold init at h
  split at h
  · cases h
  split at h
  · cases h
  rename_i hparse
  split_ifs at h with hnil
  cases h
  refine ⟨rfl, ?_, rfl, rfl, hnil⟩
  have hall : ∀ a ∈ arg, (parseIpv4Address a.extAddr).isSome = true := by
    intro a ha
    have hsome := find?_eq_none.mp hparse a ha
    rwa [Bool.not_eq_true, Option.isNone_eq_false_iff] at hsome
  rw [length_insertionSort]
  exact filterMap_length_eq_length.mpr hall

theorem select_eq {nat : NAT} (h : init parseIpv4Address arg = .ok nat) (hash : UInt32 → Nat)
    (internal : Endpoint) :
    ∃ a addr, arg[hash internal.addr % arg.length]? = some a ∧
      ((arg.filterMap fun a => parseIpv4Address a.extAddr).insertionSort
        (· ≤ ·))[hash internal.addr % arg.length]? = some addr ∧ addr ∈ nat.extAddrs ∧
      ∀ map now rand, select hash { nat with map } internal now rand =
        selectFrom map now addr internal rand 0 a.ranges := by
  rcases init_ok h with ⟨haddrs, hlength, hranges, -, hne⟩
  have hidx : hash internal.addr % arg.length < arg.length :=
    mod_lt _ (length_pos_of_ne_nil hne)
  have hidx' : hash internal.addr % arg.length < nat.extAddrs.length := hidx.trans_eq hlength.symm
  refine ⟨arg[hash internal.addr % arg.length], nat.extAddrs[hash internal.addr % arg.length],
    getElem?_eq_getElem hidx, ?_, getElem_mem _, fun map now rand => ?_⟩
  · rw [← haddrs, getElem?_eq_getElem hidx']
  · have hranges' : (nat.portRanges.getD (hash internal.addr % arg.length) []) =
        arg[hash internal.addr % arg.length].ranges := by
      rw [hranges, getD_eq_getElem?_getD, getElem?_map, getElem?_eq_getElem hidx]
      rfl
    unfold select extAddrIndex
    dsimp only
    rw [hlength, hranges', getD_eq_getElem?_getD, getElem?_eq_getElem hidx']
    rfl

/-- Whatever the table, the clock and the random choices, all that can be chosen for an
endpoint is proper if its ranges are covered.  If not, something improper can be
chosen, with a table in order. -/
theorem ports_given (parseIpv4Address : String → Option UInt32) (arg : List ExternalAddress)
    (nat : NAT) (hinit : init parseIpv4Address arg = .ok nat) (hash : UInt32 → Nat)
    (internal : Endpoint) :
    (Covered parseIpv4Address arg hash internal → ∀ map now rand external expired,
      select hash { nat with map } internal now rand = .found external expired →
      Proper parseIpv4Address arg internal external) ∧
    (¬ Covered parseIpv4Address arg hash internal → ∃ map now rand external expired,
      Paired NatEntry.endpoint map ∧
      (internal.addr ∉ nat.extAddrs → map.lookup internal = none) ∧
      select hash { nat with map } internal now rand = .found external expired ∧
      ¬ Proper parseIpv4Address arg internal external) := by
  rcases select_eq hinit hash internal with ⟨a, addr, ha, haddr, hmem, hselect⟩
  constructor
  · intro hcovered map now rand external expired hfound
    rw [hselect] at hfound
    rcases selectFrom_found hfound with ⟨r, hr, p, hp, rfl, -⟩
    have hr' := candidate_suspended hp
    exact (rangeCovered_iff hr').mp (hcovered a addr ha haddr r hr hr') p hp
  · intro hcovered
    -- A range whose candidates are not all proper.
    have hbad : ∃ r ∈ a.ranges, ∃ p, Candidate internal r p ∧
        ¬ Proper parseIpv4Address arg internal (externalAt addr internal p) := by
      by_contra hnone
      push Not at hnone
      apply hcovered
      intro a' addr' ha' haddr' r hr hr'
      cases ha.symm.trans ha'
      cases haddr.symm.trans haddr'
      exact (rangeCovered_iff hr').mpr (hnone r hr)
    rcases hbad with ⟨r, hr, p, hp, himproper⟩
    rcases exists_selected addr hr hp with ⟨map, now, rand, hpaired, hfree, hfound⟩
    refine ⟨map, now, rand, _, none, hpaired, fun hinternal => hfree ?_, ?_, himproper⟩
    · rintro heq
      exact hinternal (heq ▸ hmem)
    · rw [hselect]
      exact hfound

/-! ## One address -/

def tenPorts : List ExternalAddress :=
  [{ extAddr := "0.0.0.1", portRanges := [⟨2000, 2010, false⟩] }]

def onlyAddress : String → Option UInt32 := fun _ => some 1

def tenPortsNat : NAT where
  extAddrs := [1]
  portRanges := [[⟨2000, 2010, false, by decide, by decide⟩]]

/-- Identifiers are all proper. -/
theorem ports_given_icmp :
    init onlyAddress tenPorts = .ok tenPortsNat ∧
      ∀ map now rand external expired,
        select (fun _ => 0) { tenPortsNat with map } ⟨7, 5, .icmp⟩ now rand =
          .found external expired →
        Proper onlyAddress tenPorts ⟨7, 5, .icmp⟩ external := by
  refine ⟨rfl, (ports_given onlyAddress tenPorts tenPortsNat rfl (fun _ => 0) ⟨7, 5, .icmp⟩).1 ?_⟩
  intro a addr ha haddr r hr _ p hmin hmax
  cases ha
  cases haddr
  exact ⟨_, mem_cons_self, rfl, r, hr, mem_singleton.mp hr ▸ rfl, hmin, hmax⟩

/-- The end of the range can be chosen for an unprivileged port. -/
theorem end_of_range_is_given :
    init onlyAddress tenPorts = .ok tenPortsNat ∧
      select (fun _ => 0) tenPortsNat ⟨7, 5000, .udp⟩ 0 (fun _ => 10) =
        .found ⟨1, 2010, .udp⟩ none ∧
      ¬ Proper onlyAddress tenPorts ⟨7, 5000, .udp⟩ ⟨1, 2010, .udp⟩ := by
  refine ⟨rfl, by decide, by decide⟩

end NAT

end Upf.Bess
