import Mathlib.Data.Nat.Digits.Defs
import Upf.Pfcp.IPPool

/-!
# A pool over a subnet

How `NewIPPool` fills the queue of free addresses, and what lookups and
releases keep of it: no address is ever in the pool's books twice.
-/

namespace Upf

open List AList Nat

/-- Count a number up by one, its lowest byte first; it wraps around. -/
def incLow : List UInt8 → List UInt8
  | [] => []
  | b :: bs => if b + 1 = 0 then 0 :: incLow bs else (b + 1) :: bs

def inc (ip : IP) : IP := (incLow ip.reverse).reverse

def maskIP (mask ip : IP) : IP := List.zipWith (· &&& ·) ip mask

def subnetFrom (network mask : IP) : (fuel : Nat) → IP → List IP
  | 0, _ => []
  | fuel + 1, ip =>
    if maskIP mask ip = network then ip :: subnetFrom network mask fuel (inc ip) else []

namespace IPPool

/-- The pool of a subnet, without its first and its last address.  The subnet is
parsed by a library, into an address and a mask of the same length.  There are no
more addresses than the bytes can tell apart, which bounds the loop. -/
def newIPPool (parseCIDR : String → Decoded (IP × IP)) (poolSubnet : String) :
    Except GoError IPPool :=
  match parseCIDR poolSubnet with
  | .error e => .error (.decode e)
  | .ok (ip, mask) =>
    let network := maskIP mask ip
    let freePool := subnetFrom network mask (256 ^ network.length) network
    if freePool.length < 2 then
      .error (.invalidArgumentWithReason "NewIPPool" (.text poolSubnet)
        "pool subnet is too small to use as a pool")
    else .ok { freePool := (freePool.drop 1).dropLast, inventory := ∅ }

/-- No address is free twice, none is free and leased, and none is leased twice. -/
structure Exclusive (i : IPPool) : Prop where
  nodup : i.freePool.Nodup
  apart : ∀ seid ip, i.inventory.lookup seid = some ip → ip ∉ i.freePool
  injective : ∀ seid seid' ip, i.inventory.lookup seid = some ip →
    i.inventory.lookup seid' = some ip → seid = seid'

end IPPool

/-- The number an address stands for, its lowest byte first. -/
def lowVal (bs : List UInt8) : Nat := Nat.ofDigits 256 (bs.map UInt8.toNat)

theorem lowVal_lt (bs : List UInt8) : lowVal bs < 256 ^ bs.length := by
  have h := ofDigits_lt_base_pow_length (b := 256) (l := bs.map UInt8.toNat) (by decide)
    (by simp only [forall_mem_map]; intro b _; exact b.toNat_lt)
  simpa [lowVal] using h

@[simp] theorem length_incLow (bs : List UInt8) : (incLow bs).length = bs.length := by
  induction bs with
  | nil => rfl
  | cons b bs ih =>
    unfold incLow
    split <;> simp [ih]

theorem lowVal_incLow (bs : List UInt8) :
    lowVal (incLow bs) = (lowVal bs + 1) % 256 ^ bs.length := by
  induction bs with
  | nil => rfl
  | cons b bs ih =>
    have hb := b.toNat_lt
    have hlt := lowVal_lt bs
    have hval : lowVal (b :: bs) = b.toNat + 256 * lowVal bs := by
      simp [lowVal, ofDigits_cons]
    rw [hval, length_cons, pow_succ']
    unfold incLow
    split
    · next hwrap =>
      -- The byte overflows and the carry goes on.
      have hfull : b.toNat = 255 := by
        have := congrArg UInt8.toNat hwrap
        simp [UInt8.toNat_add] at this
        omega
      have hcarry : lowVal (0 :: incLow bs) = 256 * lowVal (incLow bs) := by
        simp [lowVal, ofDigits_cons]
      rw [hcarry, ih, hfull, show 255 + 256 * lowVal bs + 1 = 256 * (lowVal bs + 1) by ring,
        mul_mod_mul_left]
    · next hno =>
      have hsum : (b + 1).toNat = b.toNat + 1 := by
        have hne : b.toNat ≠ 255 := by
          intro hfull
          apply hno
          apply UInt8.toNat_inj.mp
          simp [UInt8.toNat_add, hfull]
        simp [UInt8.toNat_add]
        omega
      have hstep : lowVal ((b + 1) :: bs) = b.toNat + 1 + 256 * lowVal bs := by
        simp [lowVal, ofDigits_cons, hsum]
      have hle : b.toNat + 1 + 256 * lowVal bs < 256 * 256 ^ bs.length := by
        have : b.toNat + 1 < 256 := by
          rw [← hsum]
          exact (b + 1).toNat_lt
        omega
      rw [hstep, mod_eq_of_lt (by omega)]
      omega

theorem mem_subnetFrom {network mask ip a : IP} {fuel : Nat}
    (h : a ∈ subnetFrom network mask fuel ip) :
    ∃ j < fuel, lowVal a.reverse = (lowVal ip.reverse + j) % 256 ^ ip.length := by
  induction fuel generalizing ip with
  | zero => simp [subnetFrom] at h
  | succ fuel ih =>
    unfold subnetFrom at h
    split at h
    · rcases mem_cons.mp h with rfl | h
      · refine ⟨0, by omega, ?_⟩
        rw [Nat.add_zero, mod_eq_of_lt (by simpa using lowVal_lt a.reverse)]
      · rcases ih h with ⟨j, hj, hval⟩
        refine ⟨j + 1, by omega, ?_⟩
        rw [hval]
        simp only [inc, reverse_reverse, lowVal_incLow, length_reverse, length_incLow,
          mod_add_mod]
        congr 1
        omega
    · simp at h

theorem subnetFrom_nodup (network mask ip : IP) {fuel : Nat} (h : fuel ≤ 256 ^ ip.length) :
    (subnetFrom network mask fuel ip).Nodup := by
  induction fuel generalizing ip with
  | zero => simp [subnetFrom]
  | succ fuel ih =>
    unfold subnetFrom
    split
    · refine nodup_cons.mpr ⟨?_, ih (inc ip) (by simp [inc]; omega)⟩
      intro hmem
      rcases mem_subnetFrom hmem with ⟨j, hj, hval⟩
      -- The counter would have to go all the way round.
      have hlt := lowVal_lt ip.reverse
      simp only [inc, reverse_reverse, lowVal_incLow, length_reverse, length_incLow,
        mod_add_mod] at hval hlt
      generalize lowVal ip.reverse = v at hval hlt
      generalize 256 ^ ip.length = m at hval hlt h
      by_cases hwrap : v + 1 + j < m
      · rw [mod_eq_of_lt hwrap] at hval
        omega
      · rw [mod_eq_sub_mod (by omega), mod_eq_of_lt (by omega)] at hval
        omega
    · exact nodup_nil

theorem IPPool.exclusive_newIPPool {parseCIDR : String → Decoded (IP × IP)} {poolSubnet : String}
    {i : IPPool} (h : IPPool.newIPPool parseCIDR poolSubnet = .ok i) : i.Exclusive := by
  unfold IPPool.newIPPool at h
  split at h
  · cases h
  · next ip mask _ =>
    simp only at h
    split at h
    · cases h
    · rw [Except.ok.injEq] at h
      subst h
      refine ⟨?_, by simp, by simp⟩
      have hnodup := subnetFrom_nodup (maskIP mask ip) mask (maskIP mask ip) le_rfl
      exact (hnodup.sublist (drop_sublist 1 _)).sublist (dropLast_sublist _)

namespace IPPool.Exclusive

variable {i : IPPool}

theorem lookupOrAllocIP (h : i.Exclusive) (seid : UInt64) :
    (i.lookupOrAllocIP seid).2.Exclusive := by
  rcases IPPool.lookupOrAllocIP_cases i seid with
    ⟨_, _, heq⟩ | ⟨ip, rest, hnone, hfree, heq⟩ | ⟨_, _, heq⟩
  · rw [heq]
    exact h
  · rw [heq]
    have hnodup := h.nodup
    rw [hfree] at hnodup
    rcases nodup_cons.mp hnodup with ⟨hnotMem, hrest⟩
    -- The address was free, so no other session holds it.
    have hnew : ∀ k, i.inventory.lookup k ≠ some ip := fun k hk =>
      h.apart k ip hk (by simp [hfree])
    refine ⟨hrest, ?_, ?_⟩
    · intro k a hk
      by_cases hkey : k = seid
      · subst hkey
        rw [lookup_insert, Option.some.injEq] at hk
        exact hk ▸ hnotMem
      · rw [lookup_insert_ne hkey] at hk
        have hout := h.apart k a hk
        rw [hfree] at hout
        exact fun hmem => hout (mem_cons_of_mem ip hmem)
    · intro k k' a hk hk'
      by_cases hkey : k = seid <;> by_cases hkey' : k' = seid
      · rw [hkey, hkey']
      · rw [hkey, lookup_insert, Option.some.injEq] at hk
        rw [lookup_insert_ne hkey'] at hk'
        exact absurd (hk ▸ hk') (hnew k')
      · rw [hkey', lookup_insert, Option.some.injEq] at hk'
        rw [lookup_insert_ne hkey] at hk
        exact absurd (hk' ▸ hk) (hnew k)
      · rw [lookup_insert_ne hkey] at hk
        rw [lookup_insert_ne hkey'] at hk'
        exact h.injective k k' a hk hk'
  · rw [heq]
    exact h

theorem release (h : i.Exclusive) (seid : UInt64) : (i.release seid).2.Exclusive := by
  rcases IPPool.release_cases i seid with ⟨_, heq⟩ | ⟨ip, hip, heq⟩
  · rw [heq]
    exact h
  · rw [heq]
    have hold : ∀ k a, (i.inventory.erase seid).lookup k = some a →
        k ≠ seid ∧ i.inventory.lookup k = some a := by
      intro k a hk
      by_cases hkey : k = seid
      · rw [hkey, lookup_erase] at hk
        cases hk
      · exact ⟨hkey, by rwa [lookup_erase_ne hkey] at hk⟩
    refine ⟨?_, ?_, ?_⟩
    · exact nodup_append.mpr ⟨h.nodup, nodup_singleton ip, by
        intro a ha b hb hab
        rw [mem_singleton] at hb
        exact h.apart seid ip hip (hb ▸ hab ▸ ha)⟩
    · intro k a hk
      rcases hold k a hk with ⟨hkey, hk⟩
      simp only [mem_append, mem_singleton, not_or]
      exact ⟨h.apart k a hk, fun ha => hkey (h.injective k seid a hk (ha ▸ hip))⟩
    · intro k k' a hk hk'
      exact h.injective k k' a (hold k a hk).2 (hold k' a hk').2

end IPPool.Exclusive

end Upf
