import Mathlib.Data.List.Induction
import Mathlib.Data.Nat.ModEq
import Upf.Pfcp.FlowDesc
import Upf.Pfcp.Subnet

/-!
# Setting the UE address pool up and calling it

The loop of `NewIPPool` counts through a subnet until the counter leaves it, and
the pool it builds is then looked up in and released to in any order.

Main results: `newIPPool_builds_iff`, `leases_sound`.
-/

namespace Upf

open List Nat AList

/-! ## The addresses of a subnet -/

def addressVal (ip : IP) : Nat := lowVal ip.reverse

theorem addressVal_lt (ip : IP) : addressVal ip < 256 ^ ip.length := by
  simpa [addressVal] using lowVal_lt ip.reverse

@[simp] theorem addressVal_nil : addressVal [] = 0 := rfl

theorem addressVal_cons (b : UInt8) (ip : IP) :
    addressVal (b :: ip) = b.toNat * 256 ^ ip.length + addressVal ip := by
  simp [addressVal, lowVal, ofDigits_append]
  ring

@[simp] theorem length_inc (ip : IP) : (inc ip).length = ip.length := by
  simp [inc]

theorem addressVal_inc (ip : IP) : addressVal (inc ip) = (addressVal ip + 1) % 256 ^ ip.length := by
  simp [addressVal, inc, lowVal_incLow]

theorem addressVal_inj {ip ip' : IP} (hlen : ip.length = ip'.length)
    (h : addressVal ip = addressVal ip') : ip = ip' := by
  have hdigits : ip.reverse.map UInt8.toNat = ip'.reverse.map UInt8.toNat := by
    refine ofDigits_inj_of_len_eq (by decide) (by simp [hlen]) ?_ ?_ h
    · simp only [forall_mem_map]
      exact fun b _ => b.toNat_lt
    · simp only [forall_mem_map]
      exact fun b _ => b.toNat_lt
  have hinj : Function.Injective UInt8.toNat := fun _ _ => UInt8.toNat_inj.mp
  exact reverse_injective (map_injective_iff.mpr hinj hdigits)

theorem toNat_and_maskByte (bits : Nat) (b : UInt8) :
    (b &&& maskByte bits 0).toNat = b.toNat / 2 ^ (8 - min 8 bits) * 2 ^ (8 - min 8 bits) := by
  have hall : ∀ ones : Fin 9, ∀ b : Fin 256,
      (UInt8.ofFin b &&& UInt8.ofNat (256 - 2 ^ (8 - ones.val))).toNat =
        b.val / 2 ^ (8 - ones.val) * 2 ^ (8 - ones.val) := by decide +kernel
  exact hall ⟨min 8 bits, by omega⟩ b.toFin

theorem cidrMask_succ (bits len : Nat) :
    cidrMask bits (len + 1) = maskByte bits 0 :: cidrMask (bits - 8) len := by
  rw [cidrMask, range_succ_eq_map, map_cons, map_map]
  have hnext : ∀ i, maskByte bits (i + 1) = maskByte (bits - 8) i := by
    intro i
    rw [maskByte, maskByte, show bits - 8 * (i + 1) = bits - 8 - 8 * i by omega]
  exact congrArg _ (map_congr_left fun i _ => hnext i)

@[simp] theorem length_maskIP {mask ip : IP} (h : mask.length = ip.length) :
    (maskIP mask ip).length = ip.length := by
  simp [maskIP, h]

@[simp] theorem length_cidrMask (bits len : Nat) : (cidrMask bits len).length = len := by
  simp [cidrMask]

/-- Masking an address rounds it down to a multiple of the size of the subnet. -/
theorem addressVal_maskIP {ip : IP} {bits : Nat} (h : bits ≤ 8 * ip.length) :
    addressVal (maskIP (cidrMask bits ip.length) ip) =
      addressVal ip / 2 ^ (8 * ip.length - bits) * 2 ^ (8 * ip.length - bits) := by
  induction ip generalizing bits with
  | nil => simp [maskIP, cidrMask]
  | cons b ip ih =>
    have hpow : (256 : Nat) ^ ip.length = 2 ^ (8 * ip.length) := by
      rw [Nat.pow_mul]
    have hlt := addressVal_lt ip
    rw [length_cons] at h ⊢
    have hlen : (maskIP (cidrMask (bits - 8) ip.length) ip).length = ip.length := by simp
    rw [cidrMask_succ]
    change addressVal ((b &&& maskByte bits 0) :: maskIP (cidrMask (bits - 8) ip.length) ip) = _
    rw [addressVal_cons, addressVal_cons, hlen, toNat_and_maskByte, ih (by omega)]
    rcases Nat.lt_or_ge bits 8 with hpart | hfull
    · have hhost : 8 * (ip.length + 1) - bits = 8 * ip.length + (8 - bits) := by omega
      have hhigh : (b.toNat * 256 ^ ip.length + addressVal ip) / 256 ^ ip.length = b.toNat := by
        rw [Nat.mul_comm, mul_add_div (by positivity), div_eq_of_lt hlt, Nat.add_zero]
      rw [Nat.sub_eq_zero_of_le hpart.le, Nat.sub_zero, min_eq_right hpart.le, hhost, pow_add,
        ← hpow, div_eq_of_lt hlt, ← Nat.div_div_eq_div_mul, hhigh]
      ring
    · -- The whole byte is in the prefix.
      have hhost : 8 * (ip.length + 1) - bits = 8 * ip.length - (bits - 8) := by omega
      have hdvd : 2 ^ (8 * ip.length - (bits - 8)) ∣ b.toNat * 256 ^ ip.length := by
        rw [hpow]
        exact Dvd.dvd.mul_left (Nat.pow_dvd_pow 2 (by omega)) _
      rw [min_eq_left hfull, hhost, Nat.add_div_of_dvd_right hdvd, Nat.add_mul,
        Nat.div_mul_cancel hdvd]
      simp

theorem maskIP_eq_iff {ip a : IP} {bits : Nat} (hlen : a.length = ip.length)
    (h : bits ≤ 8 * ip.length) :
    maskIP (cidrMask bits ip.length) a = maskIP (cidrMask bits ip.length) ip ↔
      addressVal a / 2 ^ (8 * ip.length - bits) = addressVal ip / 2 ^ (8 * ip.length - bits) := by
  have ha : addressVal (maskIP (cidrMask bits ip.length) a) =
      addressVal a / 2 ^ (8 * ip.length - bits) * 2 ^ (8 * ip.length - bits) := by
    have hbits : bits ≤ 8 * a.length := by omega
    have hmasked := addressVal_maskIP hbits
    rwa [hlen] at hmasked
  constructor
  · intro heq
    have hval := congrArg addressVal heq
    rw [ha, addressVal_maskIP h] at hval
    exact eq_of_mul_eq_mul_right (by positivity) hval
  · intro heq
    apply addressVal_inj
    · rw [length_maskIP (by simp [hlen]), length_maskIP (by simp), hlen]
    · rw [ha, addressVal_maskIP h, heq]

/-! ## Building a pool -/

/-- The loop of `NewIPPool`: `none` while it is still going after so many
rounds. -/
def subnetLoop (network mask : IP) : (rounds : Nat) → IP → Option (List IP)
  | 0, _ => none
  | rounds + 1, ip =>
    if maskIP mask ip = network then (subnetLoop network mask rounds (inc ip)).map (ip :: ·)
    else some []

def IPPool.answer (poolSubnet : String) (freePool : List IP) : Except GoError IPPool :=
  if freePool.length < 2 then
    .error (.invalidArgumentWithReason "NewIPPool" (.text poolSubnet)
      "pool subnet is too small to use as a pool")
  else .ok { freePool := (freePool.drop 1).dropLast, inventory := ∅ }

/-- What `NewIPPool` has returned once its loop had so many rounds. -/
def IPPool.newIPPoolWithin (rounds : Nat) (parseCIDR : String → Decoded (IP × IP))
    (poolSubnet : String) : Option (Except GoError IPPool) :=
  match parseCIDR poolSubnet with
  | .error e => some (.error (.decode e))
  | .ok (ip, mask) =>
    (subnetLoop (maskIP mask ip) mask rounds (maskIP mask ip)).map (IPPool.answer poolSubnet)

section Subnets

variable {ip : IP} {bits : Nat}

theorem block_le (h : bits ≤ 8 * ip.length) :
    (addressVal ip / 2 ^ (8 * ip.length - bits) + 1) * 2 ^ (8 * ip.length - bits) ≤
      256 ^ ip.length := by
  have hpow : (256 : Nat) ^ ip.length = 2 ^ bits * 2 ^ (8 * ip.length - bits) := by
    rw [← pow_add, Nat.add_sub_cancel' h, Nat.pow_mul]
  have hlt : addressVal ip / 2 ^ (8 * ip.length - bits) < 2 ^ bits :=
    Nat.div_lt_of_lt_mul (by rw [Nat.mul_comm, ← hpow]; exact addressVal_lt ip)
  rw [hpow]
  exact Nat.mul_le_mul_right _ hlt

theorem maskIP_of_block (h : bits ≤ 8 * ip.length) {a : IP} (ha : a.length = ip.length)
    {left : Nat}
    (hval : addressVal a + (left + 1) =
      (addressVal ip / 2 ^ (8 * ip.length - bits) + 1) * 2 ^ (8 * ip.length - bits))
    (hle : left + 1 ≤ 2 ^ (8 * ip.length - bits)) :
    maskIP (cidrMask bits ip.length) a = maskIP (cidrMask bits ip.length) ip := by
  rw [maskIP_eq_iff ha h]
  apply Nat.div_eq_of_lt_le <;> nlinarith

/-- The counter leaves a subnet at its end, or by wrapping around: the block at the end of
the address space is not the one at its start, if there is a prefix at all. -/
theorem block_left (hbits : 0 < bits) (h : bits ≤ 8 * ip.length) {a : IP}
    (ha : a.length = ip.length)
    (hval : addressVal a + 1 =
      (addressVal ip / 2 ^ (8 * ip.length - bits) + 1) * 2 ^ (8 * ip.length - bits)) :
    maskIP (cidrMask bits ip.length) (inc a) ≠ maskIP (cidrMask bits ip.length) ip := by
  rw [ne_eq, maskIP_eq_iff (by simp [ha]) h, addressVal_inc, hval, ha]
  have hpow : (256 : Nat) ^ ip.length = 2 ^ bits * 2 ^ (8 * ip.length - bits) := by
    rw [← pow_add, Nat.add_sub_cancel' h, Nat.pow_mul]
  have hsize : 0 < 2 ^ (8 * ip.length - bits) := by positivity
  rcases (block_le h).lt_or_eq with hlt | heq
  · rw [mod_eq_of_lt hlt, Nat.mul_div_cancel _ hsize]
    omega
  · rw [heq, mod_self, Nat.zero_div]
    rw [hpow] at heq
    have hlast := eq_of_mul_eq_mul_right hsize heq
    have htwo : 2 ≤ 2 ^ bits := Nat.le_self_pow (by omega) 2
    omega

theorem subnetLoop_ends (hbits : 0 < bits) (h : bits ≤ 8 * ip.length) {a : IP}
    (ha : a.length = ip.length) {left : Nat}
    (hval : addressVal a + (left + 1) =
      (addressVal ip / 2 ^ (8 * ip.length - bits) + 1) * 2 ^ (8 * ip.length - bits))
    (hle : left + 1 ≤ 2 ^ (8 * ip.length - bits)) :
    ∃ l, subnetLoop (maskIP (cidrMask bits ip.length) ip) (cidrMask bits ip.length) (left + 2) a =
        some l ∧ (∀ x ∈ l, x.length = ip.length) ∧
      l.map addressVal = List.range' (addressVal a) (left + 1) := by
  induction left generalizing a with
  | zero =>
    have hin := maskIP_of_block h ha hval hle
    refine ⟨[a], ?_, by simpa using ha, rfl⟩
    rw [subnetLoop, if_pos hin, subnetLoop, if_neg (block_left hbits h ha hval), Option.map_some]
  | succ left ih =>
    have hin := maskIP_of_block h ha hval hle
    have hnext : addressVal (inc a) = addressVal a + 1 := by
      rw [addressVal_inc, mod_eq_of_lt]
      have hend := block_le h
      rw [ha]
      omega
    rcases ih (a := inc a) (by simp [ha]) (by rw [hnext, ← hval]; omega) (by omega) with
      ⟨l, hloop, hlen, hvals⟩
    refine ⟨a :: l, ?_, ?_, ?_⟩
    · rw [subnetLoop, if_pos hin, hloop, Option.map_some]
    · simpa [ha] using hlen
    · rw [map_cons, hvals, hnext, ← range'_succ]

theorem subnetLoop_none (rounds : Nat) {a : IP} (ha : a.length = ip.length) :
    subnetLoop (maskIP (cidrMask 0 ip.length) ip) (cidrMask 0 ip.length) rounds a = none := by
  induction rounds generalizing a with
  | zero => rfl
  | succ rounds ih =>
    have hin : maskIP (cidrMask 0 ip.length) a = maskIP (cidrMask 0 ip.length) ip := by
      have hpow : (256 : Nat) ^ ip.length = 2 ^ (8 * ip.length) := by
        rw [Nat.pow_mul]
      rw [maskIP_eq_iff ha (by omega), Nat.sub_zero, ← hpow, div_eq_of_lt (addressVal_lt ip),
        div_eq_of_lt (ha ▸ addressVal_lt a)]
    rw [subnetLoop, if_pos hin, ih (by simp [ha]), Option.map_none]

theorem subnetLoop_mono {network mask a : IP} {l : List IP} {rounds : Nat} (more : Nat)
    (h : subnetLoop network mask rounds a = some l) :
    subnetLoop network mask (rounds + more) a = some l := by
  induction rounds generalizing a l with
  | zero => cases h
  | succ rounds ih =>
    rw [subnetLoop] at h
    rw [Nat.add_right_comm, subnetLoop]
    split
    · next hin =>
      rw [if_pos hin, Option.map_eq_some_iff] at h
      rcases h with ⟨rest, hrest, rfl⟩
      rw [ih hrest, Option.map_some]
    · next hout => rwa [if_neg hout] at h

theorem subnetLoop_network (hbits : 0 < bits) (h : bits ≤ 8 * ip.length) :
    ∃ rounds l, subnetLoop (maskIP (cidrMask bits ip.length) ip) (cidrMask bits ip.length) rounds
        (maskIP (cidrMask bits ip.length) ip) = some l ∧ (∀ x ∈ l, x.length = ip.length) ∧
      l.map addressVal = List.range' (addressVal (maskIP (cidrMask bits ip.length) ip))
        (2 ^ (8 * ip.length - bits)) := by
  have hsize : 0 < 2 ^ (8 * ip.length - bits) := by positivity
  rcases Nat.exists_eq_add_of_lt hsize with ⟨left, hleft⟩
  rw [Nat.zero_add] at hleft
  rcases subnetLoop_ends hbits h (a := maskIP (cidrMask bits ip.length) ip) (by simp)
    (by rw [addressVal_maskIP h, ← hleft, Nat.add_mul, Nat.one_mul]) hleft.ge with
    ⟨l, hloop, hlen, hvals⟩
  exact ⟨left + 2, l, hloop, hlen, hleft ▸ hvals⟩

/-- What `NewIPPool` is to return for a prefix: an ascending pool of the addresses
strictly between the network and the broadcast address, or an error where the prefix is
longer than 30 bits. -/
def IPPool.Builds (parseCIDR : String → Decoded (IP × IP)) (poolSubnet : String) (ip : IP)
    (bits : Nat) : Prop :=
  let network := addressVal (maskIP (cidrMask bits 4) ip)
  let broadcast := network + (2 ^ (32 - bits) - 1)
  ∃ rounds result, IPPool.newIPPoolWithin rounds parseCIDR poolSubnet = some result ∧
    (bits ≤ 30 → ∃ i, result = .ok i ∧
      i.freePool.Pairwise (fun a b => addressVal a < addressVal b) ∧
      ∀ a, a ∈ i.freePool ↔ a.length = 4 ∧ network < addressVal a ∧ addressVal a < broadcast) ∧
    (30 < bits → ∃ e, result = .error e)

theorem mem_inner {l : List IP} {network size len : Nat}
    (hlen : ∀ x ∈ l, x.length = len) (hvals : l.map addressVal = List.range' network size)
    (a : IP) :
    a ∈ (l.drop 1).dropLast ↔
      a.length = len ∧ network < addressVal a ∧ addressVal a < network + (size - 1) := by
  have hinner :
      ((l.drop 1).dropLast).map addressVal = List.range' (network + 1) (size - 1 - 1) := by
    have htail : (List.range' network size).drop 1 = List.range' (network + 1) (size - 1) := by
      cases size <;> rfl
    rw [map_dropLast, map_drop, hvals, htail]
    cases size - 1 with
    | zero => rfl
    | succ => rw [range'_concat, dropLast_concat, Nat.add_sub_cancel]
  have hrange : ∀ v, v ∈ ((l.drop 1).dropLast).map addressVal ↔
      network < v ∧ v < network + (size - 1) := by
    intro v
    rw [hinner, mem_range'_1]
    omega
  have hinnerLen : ∀ x ∈ (l.drop 1).dropLast, x.length = len := fun x hx =>
    hlen x (mem_of_mem_drop ((dropLast_sublist _).subset hx))
  constructor
  · intro ha
    exact ⟨hinnerLen a ha, (hrange _).mp (mem_map_of_mem ha)⟩
  · rintro ⟨halen, hbetween⟩
    rcases mem_map.mp ((hrange _).mpr hbetween) with ⟨x, hx, hxa⟩
    rwa [← addressVal_inj ((hinnerLen x hx).trans halen.symm) hxa]

section Answers

variable {parseCIDR : String → Decoded (IP × IP)} {poolSubnet : String}

theorem newIPPoolWithin_eq (hparse : parseCIDR poolSubnet = .ok (ip, cidrMask bits 4))
    (hlen : ip.length = 4) (hbits : bits ≤ 32) (hpos : bits ≠ 0) :
    ∃ l : List IP, (∀ x ∈ l, x.length = 4) ∧
      l.map addressVal =
        List.range' (addressVal (maskIP (cidrMask bits 4) ip)) (2 ^ (32 - bits)) ∧
      (∃ rounds, IPPool.newIPPoolWithin rounds parseCIDR poolSubnet =
        some (IPPool.answer poolSubnet l)) ∧
      ∀ rounds result, IPPool.newIPPoolWithin rounds parseCIDR poolSubnet = some result →
        result = IPPool.answer poolSubnet l := by
  have hlong : bits ≤ 8 * ip.length := by omega
  rcases subnetLoop_network (Nat.pos_of_ne_zero hpos) hlong with
    ⟨rounds, l, hloop, hlens, hvals⟩
  rw [hlen] at hloop hvals
  refine ⟨l, hlen ▸ hlens, hvals, ⟨rounds, ?_⟩, ?_⟩
  · simp only [IPPool.newIPPoolWithin, hparse, hloop, Option.map_some, IPPool.answer]
  · intro rounds' result hresult
    simp only [IPPool.newIPPoolWithin, hparse, Option.map_eq_some_iff] at hresult
    rcases hresult with ⟨l', hloop', rfl⟩
    have hsame := (subnetLoop_mono rounds' hloop).symm.trans
      (Nat.add_comm rounds' rounds ▸ subnetLoop_mono rounds hloop')
    rw [Option.some.injEq] at hsame
    rw [hsame, IPPool.answer]

theorem not_builds_thirty_one (hparse : parseCIDR poolSubnet = .ok (ip, cidrMask 31 4))
    (hlen : ip.length = 4) : ¬ IPPool.Builds parseCIDR poolSubnet ip 31 := by
  rintro ⟨rounds, result, hresult, -, hrefused⟩
  rcases newIPPoolWithin_eq hparse hlen (by decide) (by decide) with ⟨l, -, hvals, -, hunique⟩
  have hsize : l.length = 2 := by simpa using congrArg List.length hvals
  rcases hrefused (by decide) with ⟨e, rfl⟩
  have hok := hunique rounds _ hresult
  rw [IPPool.answer, if_neg (by omega)] at hok
  cases hok

theorem not_builds_zero (hparse : parseCIDR poolSubnet = .ok (ip, cidrMask 0 4))
    (hlen : ip.length = 4) : ¬ IPPool.Builds parseCIDR poolSubnet ip 0 := by
  rintro ⟨rounds, result, hresult, -⟩
  have hmasked : (maskIP (cidrMask 0 4) ip).length = ip.length := by simp [hlen]
  have hnone := subnetLoop_none rounds hmasked
  rw [hlen] at hnone
  simp only [IPPool.newIPPoolWithin, hparse, hnone, Option.map_none] at hresult
  cases hresult

/-- `NewIPPool` does what it is to do for every IPv4 subnet but those of 0 and of 31
bits of prefix. -/
theorem newIPPool_builds_iff (hparse : parseCIDR poolSubnet = .ok (ip, cidrMask bits 4))
    (hlen : ip.length = 4) (hbits : bits ≤ 32) :
    IPPool.Builds parseCIDR poolSubnet ip bits ↔ bits ≠ 0 ∧ bits ≠ 31 := by
  constructor
  · intro hbuilds
    refine ⟨?_, ?_⟩
    · rintro rfl
      exact not_builds_zero hparse hlen hbuilds
    · rintro rfl
      exact not_builds_thirty_one hparse hlen hbuilds
  · rintro ⟨hzero, hlast⟩
    rcases newIPPoolWithin_eq hparse hlen hbits hzero with ⟨l, hlens, hvals, ⟨rounds, hret⟩, -⟩
    have hsize : l.length = 2 ^ (32 - bits) := by simpa using congrArg List.length hvals
    refine ⟨rounds, _, hret, fun hshort => ?_, fun hlong => ?_⟩
    · have htwo : 2 ≤ l.length := by
        rw [hsize]
        exact Nat.le_self_pow (by omega) 2
      refine ⟨_, by rw [IPPool.answer, if_neg (by omega)], ?_, mem_inner hlens hvals⟩
      have hascending : l.Pairwise fun a b => addressVal a < addressVal b := by
        rw [← pairwise_map, hvals]
        exact pairwise_lt_range'
      exact (hascending.sublist (drop_sublist 1 l)).sublist (dropLast_sublist _)
    · have hfull : bits = 32 := by omega
      rw [hfull] at hsize
      exact ⟨_, by rw [IPPool.answer, if_pos (by omega)]⟩

theorem newIPPool_builds_slash_30 :
    IPPool.Builds (fun _ => .ok ([10, 0, 0, 0], cidrMask 30 4)) "10.0.0.0/30" [10, 0, 0, 0] 30 :=
  (newIPPool_builds_iff rfl rfl (by decide)).mpr ⟨by decide, by decide⟩

/-- The pool of `10.0.0.0/31` is accepted and empty, and the loop of
`0.0.0.0/0` never ends. -/
theorem newIPPool_slash_31_and_0 :
    (IPPool.newIPPoolWithin 3 (fun _ => .ok ([10, 0, 0, 0], cidrMask 31 4)) "10.0.0.0/31" =
      some (.ok { freePool := [], inventory := ∅ })) ∧
    ¬ IPPool.Builds (fun _ => .ok ([10, 0, 0, 0], cidrMask 31 4)) "10.0.0.0/31" [10, 0, 0, 0] 31 ∧
    ¬ IPPool.Builds (fun _ => .ok ([0, 0, 0, 0], cidrMask 0 4)) "0.0.0.0/0" [0, 0, 0, 0] 0 :=
  ⟨rfl, not_builds_thirty_one rfl rfl, not_builds_zero rfl rfl⟩

end Answers

end Subnets

/-! ## Sequences of calls -/

namespace IPPool

inductive Call where
  | lookupOrAllocIP (seid : UInt64)
  | release (seid : UInt64)
deriving DecidableEq

def carryOut (i : IPPool) : Call → IPPool
  | .lookupOrAllocIP seid => (i.lookupOrAllocIP seid).2
  | .release seid => (i.release seid).2

def afterCalls (i : IPPool) (calls : List Call) : IPPool := calls.foldl carryOut i

def ofAddresses (addresses : List IP) : IPPool := { freePool := addresses, inventory := ∅ }

def leasedAddresses (i : IPPool) : List IP := i.inventory.entries.map Sigma.snd

def Leased (i : IPPool) (ip : IP) : Prop := ∃ seid, i.inventory.lookup seid = some ip

variable {i : IPPool}

theorem afterCalls_append (i : IPPool) (calls : List Call) (c : Call) :
    i.afterCalls (calls ++ [c]) = (i.afterCalls calls).carryOut c := by
  simp [afterCalls]

theorem exclusive_ofAddresses {addresses : List IP} (h : addresses.Nodup) :
    (ofAddresses addresses).Exclusive :=
  ⟨h, by simp [ofAddresses], by simp [ofAddresses]⟩

theorem Exclusive.afterCalls (h : i.Exclusive) (calls : List Call) :
    (i.afterCalls calls).Exclusive := by
  refine List.foldlRecOn calls carryOut h fun j hj c _ => ?_
  cases c with
  | lookupOrAllocIP seid => exact hj.lookupOrAllocIP seid
  | release seid => exact hj.release seid

theorem perm_carryOut (i : IPPool) (c : Call) :
    ((i.carryOut c).freePool ++ (i.carryOut c).leasedAddresses).Perm
      (i.freePool ++ i.leasedAddresses) := by
  cases c with
  | lookupOrAllocIP seid =>
    rcases lookupOrAllocIP_cases i seid with
      ⟨_, _, heq⟩ | ⟨ip, rest, hnone, hfree, heq⟩ | ⟨_, _, heq⟩
    · simp [carryOut, heq]
    · have hentries : (i.inventory.insert seid ip).entries = ⟨seid, ip⟩ :: i.inventory.entries :=
        entries_insert_of_notMem (lookup_eq_none.mp hnone)
      simp only [carryOut, heq, leasedAddresses, hentries, hfree, map_cons]
      exact perm_middle
    · simp [carryOut, heq]
  | release seid =>
    rcases release_cases i seid with ⟨_, heq⟩ | ⟨ip, hip, heq⟩
    · simp [carryOut, heq]
    · have herase : i.inventory.entries.Perm (⟨seid, ip⟩ :: (i.inventory.erase seid).entries) := by
        have hmem : seid ∈ i.inventory.entries.keys :=
          lookup_isSome.mp (by rw [hip]; rfl)
        rcases exists_of_kerase hmem with ⟨ip', front, back, -, hentries, hrest⟩
        have hsame : i.inventory.lookup seid = some ip' :=
          mem_lookup_iff.mpr (by simp [hentries])
        rw [hip, Option.some.injEq] at hsame
        subst hsame
        have hkept : (i.inventory.erase seid).entries = front ++ back := hrest
        rw [hentries, hkept]
        exact perm_middle
      simp only [carryOut, heq, leasedAddresses, append_assoc, singleton_append]
      exact ((herase.map Sigma.snd).append_left i.freePool).symm

theorem perm_afterCalls (addresses : List IP) (calls : List Call) :
    (((ofAddresses addresses).afterCalls calls).freePool ++
      ((ofAddresses addresses).afterCalls calls).leasedAddresses).Perm addresses := by
  refine List.foldlRecOn calls carryOut ?_ fun j hj c _ => (perm_carryOut j c).trans hj
  simp [ofAddresses, leasedAddresses]

theorem lookup_afterCalls {seid : UInt64} {ip : IP} {calls : List Call}
    (h : i.inventory.lookup seid = some ip) (hkept : .release seid ∉ calls) :
    (i.afterCalls calls).inventory.lookup seid = some ip := by
  refine List.foldlRecOn (motive := fun j => j.inventory.lookup seid = some ip) calls carryOut h
    fun j hj c hc => ?_
  cases c with
  | lookupOrAllocIP => exact lookup_lookupOrAllocIP_of_some hj
  | release k =>
    have hne : seid ≠ k := by
      rintro rfl
      exact hkept hc
    have hsame := leased_release_of_ne (some j) hne
    exact hsame.trans hj

/-- A queue is served in order: where `ip` stands behind the addresses
`front`, a call either leaves it behind those of them not yet leased, or leases
it once all of them have been. -/
theorem queue_order {front : List IP} {ip : IP} (hqueue : i.freePool = front ++ [ip])
    (calls : List Call) :
    (∃ ahead behind, (i.afterCalls calls).freePool = ahead ++ ip :: behind ∧
      ∀ a ∈ front, a ∈ ahead ∨ ∃ earlier, earlier <+: calls ∧ (i.afterCalls earlier).Leased a) ∨
    ∀ a ∈ front, ∃ earlier, earlier <+: calls ∧ earlier ≠ calls ∧
      (i.afterCalls earlier).Leased a := by
  induction calls using List.reverseRecOn with
  | nil => exact .inl ⟨front, [], hqueue, fun a ha => Or.inl ha⟩
  | append_singleton calls c ih =>
    have hlonger : ∀ {earlier : List Call}, earlier <+: calls →
        earlier <+: calls ++ [c] ∧ earlier ≠ calls ++ [c] := by
      intro earlier hpre
      refine ⟨hpre.trans (prefix_append calls [c]), ?_⟩
      rintro rfl
      have := hpre.length_le
      simp at this
    rcases ih with ⟨ahead, behind, hfree, hahead⟩ | hdone
    · have hkeep : ∀ behind', (i.afterCalls (calls ++ [c])).freePool = ahead ++ ip :: behind' →
          ∃ ahead behind, (i.afterCalls (calls ++ [c])).freePool = ahead ++ ip :: behind ∧
            ∀ a ∈ front, a ∈ ahead ∨
              ∃ earlier, earlier <+: calls ++ [c] ∧ (i.afterCalls earlier).Leased a := by
        intro behind' hfree'
        refine ⟨ahead, behind', hfree', fun a ha => (hahead a ha).imp_right ?_⟩
        rintro ⟨earlier, hpre, hleased⟩
        exact ⟨earlier, (hlonger hpre).1, hleased⟩
      cases c with
      | lookupOrAllocIP seid =>
        rcases lookupOrAllocIP_cases (i.afterCalls calls) seid with
          ⟨_, _, heq⟩ | ⟨taken, rest, _, htaken, heq⟩ | ⟨_, hempty, _⟩
        · exact .inl (hkeep behind (by simp [afterCalls_append, carryOut, heq, hfree]))
        · rw [hfree] at htaken
          cases ahead with
          | nil =>
            -- It is the turn of the address itself.
            right
            intro a ha
            rcases hahead a ha with hnil | ⟨earlier, hpre, hleased⟩
            · simp at hnil
            · exact ⟨earlier, (hlonger hpre).1, (hlonger hpre).2, hleased⟩
          | cons b ahead =>
            rw [cons_append, List.cons.injEq] at htaken
            rcases htaken with ⟨rfl, rfl⟩
            refine .inl ⟨ahead, behind, by simp [afterCalls_append, carryOut, heq], ?_⟩
            intro a ha
            rcases hahead a ha with hmem | ⟨earlier, hpre, hleased⟩
            · rcases mem_cons.mp hmem with rfl | hmem
              · refine .inr ⟨_, prefix_rfl, seid, ?_⟩
                simp [afterCalls_append, carryOut, heq]
              · exact .inl hmem
            · exact .inr ⟨earlier, (hlonger hpre).1, hleased⟩
        · simp [hfree] at hempty
      | release seid =>
        rcases release_cases (i.afterCalls calls) seid with ⟨_, heq⟩ | ⟨back, _, heq⟩
        · exact .inl (hkeep behind (by simp [afterCalls_append, carryOut, heq, hfree]))
        · exact .inl (hkeep (behind ++ [back])
            (by simp [afterCalls_append, carryOut, heq, hfree]))
    · right
      intro a ha
      rcases hdone a ha with ⟨earlier, hpre, -, hleased⟩
      exact ⟨earlier, (hlonger hpre).1, (hlonger hpre).2, hleased⟩

end IPPool

end Upf
