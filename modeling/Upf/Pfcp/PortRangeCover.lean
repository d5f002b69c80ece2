import Mathlib.Algebra.Order.Ring.Nat
import Mathlib.Data.Nat.Bitwise
import Mathlib.Tactic.Ring
import Upf.Pfcp.PortRange

/-!
# Ternary rules for a range of ports

A range is cut into blocks of a power of two of ports, each the widest that starts where
the last one ended, is aligned there and stays inside the range.

Main result: `buildTernaryRules_partition`.
-/

namespace Upf

open Nat List Bool

/-- The mask of a block of `2 ^ k` ports. -/
def blockMask (k : Nat) : UInt16 := UInt16.ofNat (2 ^ 16 - 2 ^ k)

/-- A packet's port agrees with the rule where the mask is set. -/
def PortRangeTernaryRule.Matches (r : PortRangeTernaryRule) (port : UInt16) : Prop :=
  port &&& r.mask = r.port &&& r.mask

instance (r : PortRangeTernaryRule) (port : UInt16) : Decidable (r.Matches port) :=
  inferInstanceAs (Decidable (port &&& r.mask = r.port &&& r.mask))

namespace PortRange

/-- One more round of the widening loop. -/
def MaskSearch.next (port last : UInt16) (s : MaskSearch) : MaskSearch where
  bit := s.bit <<< 1
  mask := if maxPort (port &&& s.testMask) s.testMask ≤ last then s.testMask else s.mask
  testMask := s.testMask - s.bit
  netPort := port &&& s.testMask
  maximumPort := maxPort (port &&& s.testMask) s.testMask

/-- The widening loop ends with a mask, in however many rounds. -/
inductive Searches (port last : UInt16) : MaskSearch → UInt16 → Prop
  | stop {s : MaskSearch} (h : ¬(s.netPort > 0 && s.maximumPort < last)) :
      Searches port last s s.mask
  | cut {s : MaskSearch} (h : s.netPort > 0 && s.maximumPort < last)
      (hcut : port &&& s.testMask < port) : Searches port last s s.mask
  | round {s : MaskSearch} {mask : UInt16} (h : s.netPort > 0 && s.maximumPort < last)
      (hcut : ¬port &&& s.testMask < port) (hrest : Searches port last (s.next port last) mask) :
      Searches port last s mask

/-- The loop over the ports ends with the rules, in however many rounds. -/
inductive Builds (last : UInt16) : Nat → List PortRangeTernaryRule → Prop
  | stop {port : Nat} (h : last.toNat < port) : Builds last port []
  | rule {port : Nat} {mask : UInt16} {rules : List PortRangeTernaryRule}
      (h : port ≤ last.toNat) (hmask : Searches (UInt16.ofNat port) last
        ⟨1, maxUint16, maxUint16, UInt16.ofNat port &&& maxUint16,
          maxPort (UInt16.ofNat port &&& maxUint16) maxUint16⟩ mask)
      (hrest : Builds last ((maxPort (UInt16.ofNat port) mask).toNat + 1) rules) :
      Builds last port (⟨UInt16.ofNat port, mask⟩ :: rules)

/-- The widest block at a port that does not pass the last one; port 0 may have any. -/
structure Widest (port last k : Nat) : Prop where
  dvd : 2 ^ k ∣ port
  fits : port + 2 ^ k ≤ last + 1
  wide : 0 < port → 2 ^ (k + 1) ∣ port → last + 1 < port + 2 ^ (k + 1)

/-- Blocks from a port on to the last one, each as wide as it can be. -/
inductive Cover (last : Nat) : Nat → List PortRangeTernaryRule → Prop
  | nil {port : Nat} (h : last < port) : Cover last port []
  | cons {port : Nat} {rules : List PortRangeTernaryRule} (k : Nat) (h : Widest port last k)
      (hrest : Cover last (port + 2 ^ k) rules) :
      Cover last port (⟨UInt16.ofNat port, blockMask k⟩ :: rules)

section

variable {last port k : Nat} {rules : List PortRangeTernaryRule}

theorem Widest.le (h : Widest port last k) (hlast : last < 2 ^ 16) : k ≤ 16 := by
  have hfits := h.fits
  exact (Nat.pow_le_pow_iff_right (by decide : 1 < 2)).mp (by omega)

theorem and_blockMask (p : UInt16) (hk : k ≤ 16) :
    (p &&& blockMask k).toNat = p.toNat / 2 ^ k * 2 ^ k := by
  have hpow : 2 ^ k ≤ 2 ^ 16 := Nat.pow_le_pow_right (by decide) hk
  have hmask : (blockMask k).toNat = 2 ^ 16 - (2 ^ k - 1 + 1) := by
    have := Nat.two_pow_pos k
    rw [blockMask, UInt16.toNat_ofNat', mod_eq_of_lt (by omega)]
    omega
  apply eq_of_testBit_eq
  intro i
  rw [UInt16.toNat_and, hmask, testBit_and, testBit_two_pow_sub_succ (by omega),
    testBit_two_pow_sub_one, testBit_mul_two_pow, testBit_div_two_pow]
  have hhigh : 16 ≤ i → p.toNat.testBit i = false := fun hi =>
    testBit_lt_two_pow (p.toNat_lt.trans_le (Nat.pow_le_pow_right (by decide) hi))
  by_cases hki : k ≤ i
  · rw [Nat.sub_add_cancel hki]
    by_cases hi : i < 16 <;> simp_all
  · simp [hki, Nat.lt_of_not_le hki]

/-- Aligned ports in sixteen bits start a whole block. -/
theorem block_le (hdvd : 2 ^ k ∣ port) (hk : k ≤ 16) (hport : port < 2 ^ 16) :
    port + 2 ^ k ≤ 2 ^ 16 :=
  le_of_lt_add_of_dvd (Nat.add_lt_add_right hport _) (Nat.dvd_add hdvd (dvd_refl _))
    (Nat.pow_dvd_pow 2 hk)

theorem maxPort_blockMask {p : UInt16} (hdvd : 2 ^ k ∣ p.toNat) (hk : k ≤ 16) :
    (maxPort p (blockMask k)).toNat = p.toNat + 2 ^ k - 1 := by
  have hle := block_le hdvd hk p.toNat_lt
  have hpow := Nat.two_pow_pos k
  have hnet : (p &&& blockMask k).toNat = p.toNat := by
    rw [and_blockMask p hk, Nat.div_mul_cancel hdvd]
  rw [maxPort, UInt16.toNat_add, hnet, UInt16.toNat_sub, blockMask, maxUint16,
    UInt16.toNat_ofNat', show (0xFFFF : UInt16).toNat = 2 ^ 16 - 1 from rfl]
  omega

theorem matches_block (hdvd : 2 ^ k ∣ port) (hk : k ≤ 16) (hport : port < 2 ^ 16) (p : UInt16) :
    (⟨UInt16.ofNat port, blockMask k⟩ : PortRangeTernaryRule).Matches p ↔
      port ≤ p.toNat ∧ p.toNat < port + 2 ^ k := by
  obtain ⟨c, rfl⟩ := hdvd
  have hpow := Nat.two_pow_pos k
  rw [PortRangeTernaryRule.Matches, ← UInt16.toNat_inj, and_blockMask _ hk, and_blockMask _ hk,
    UInt16.toNat_ofNat_of_lt' hport, Nat.mul_div_cancel_left _ hpow, Nat.mul_comm (2 ^ k) c,
    Nat.mul_right_cancel_iff hpow, ← succ_mul, ← Nat.le_div_iff_mul_le hpow,
    ← Nat.div_lt_iff_lt_mul hpow]
  omega

/-- What ends in the middle of an aligned block takes no more rules than the block has bits. -/
theorem Cover.length_le_of_lt (h : Cover last port rules) (hpos : 0 < port) (hdvd : 2 ^ k ∣ port)
    (hlt : last + 1 < port + 2 ^ k) : rules.length ≤ k := by
  induction h generalizing k with
  | nil => exact Nat.zero_le k
  | @cons port rules j hwidest hrest ih =>
    obtain ⟨hj, hfits, hwide⟩ := hwidest
    have hjk : j < k := (Nat.pow_lt_pow_iff_right (by decide : 1 < 2)).mp (by omega)
    have hnext := hwide hpos ((Nat.pow_dvd_pow 2 hjk).trans hdvd)
    rw [pow_succ] at hnext
    have hrules : rules.length ≤ j := ih (by omega) (Nat.dvd_add hj (dvd_refl _)) (by omega)
    rw [length_cons]
    omega

/-- From a port with `k` zeros on, blocks grow until they do not fit and then shrink. -/
theorem Cover.length_le (h : Cover last port rules) (hlast : last < 2 ^ 16) (hpos : 0 < port)
    (hk : k ≤ 15) (hdvd : 2 ^ k ∣ port) : rules.length ≤ 30 - k := by
  induction h generalizing k with
  | nil => exact Nat.zero_le _
  | @cons port rules j hwidest hrest ih =>
    obtain ⟨hj, hfits, hwide⟩ := hwidest
    have hlow {i : Nat} (hi : 2 ^ i ∣ port) : i < 16 :=
      (Nat.pow_lt_pow_iff_right (by decide : 1 < 2)).mp
        ((Nat.le_of_dvd hpos hi).trans_lt (by omega))
    have hnext : 2 ^ j ∣ port + 2 ^ j := Nat.dvd_add hj (dvd_refl _)
    rw [length_cons]
    by_cases hdouble : 2 ^ (j + 1) ∣ port
    · have hshort := hwide hpos hdouble
      rw [pow_succ] at hshort
      have hrules := hrest.length_le_of_lt (by omega) hnext (by omega)
      have := hlow hdouble
      omega
    · have hkj : k ≤ j := by
        by_contra hlt
        exact hdouble ((Nat.pow_dvd_pow 2 (by omega)).trans hdvd)
      have hgrown : 2 ^ (j + 1) ∣ port + 2 ^ j := by
        obtain ⟨c, rfl⟩ := hj
        rw [pow_succ, Nat.mul_dvd_mul_iff_left (Nat.two_pow_pos j)] at hdouble
        rw [pow_succ, ← mul_succ, Nat.mul_dvd_mul_iff_left (Nat.two_pow_pos j)]
        omega
      have := hlow hj
      rcases Nat.lt_or_ge j 15 with hlt | hge
      · have hrules := ih (by omega) (by omega) hgrown
        omega
      · -- The block ends at the largest port.
        obtain rfl : j = 15 := by omega
        have hend := Nat.le_of_dvd (by omega) hgrown
        have hrules := hrest.length_le_of_lt (k := 0) (by omega) (one_dvd _) (by omega)
        omega

theorem Cover.length_le_31 (h : Cover last port rules) (hlast : last < 2 ^ 16) :
    rules.length ≤ 31 := by
  cases h with
  | nil => exact Nat.zero_le 31
  | cons k _ hrest =>
    have hpos : 0 < port + 2 ^ k := Nat.add_pos_right port (Nat.two_pow_pos k)
    exact succ_le_succ (hrest.length_le hlast hpos (Nat.zero_le 15) (one_dvd _))

theorem Cover.countP_matches (h : Cover last port rules) (hlast : last < 2 ^ 16) (p : UInt16) :
    rules.countP (fun r => r.Matches p) = if port ≤ p.toNat ∧ p.toNat ≤ last then 1 else 0 := by
  induction h with
  | nil => rw [countP_nil, if_neg (by omega)]
  | @cons port rules k hwidest hrest ih =>
    have hfits := hwidest.fits
    have hpow := Nat.two_pow_pos k
    have hmatches := matches_block hwidest.dvd (hwidest.le hlast) (by omega) p
    simp only [countP_cons, ih, decide_eq_true_eq, hmatches]
    split_ifs <;> omega

theorem Cover.smallest (h : Cover last port rules) (hlast : last < 2 ^ 16)
    {r : PortRangeTernaryRule} (hr : r ∈ rules) : r.Matches r.port ∧
      ∀ p, r.Matches p → r.port ≤ p := by
  induction h with
  | nil => cases hr
  | @cons port rules k hwidest hrest ih =>
    have hfits := hwidest.fits
    rcases mem_cons.mp hr with rfl | hr
    · have hpow := Nat.two_pow_pos k
      refine ⟨rfl, fun p hp => ?_⟩
      rw [UInt16.le_iff_toNat_le, UInt16.toNat_ofNat', mod_eq_of_lt (by omega)]
      exact ((matches_block hwidest.dvd (hwidest.le hlast) (by omega) p).mp hp).1
    · exact ih hr

end

section

variable {port last : UInt16} {k : Nat}

/-- The widening loop before it tries a block of `2 ^ k` ports. -/
def searchAt (port : UInt16) (k : Nat) : MaskSearch :=
  ⟨UInt16.ofNat (2 ^ k), blockMask (k - 1), blockMask k, port, maxPort port (blockMask (k - 1))⟩

theorem blockMask_sub : ∀ k < 16, blockMask k - UInt16.ofNat (2 ^ k) = blockMask (k + 1) := by
  decide

theorem shiftLeft_bit : ∀ k < 16, UInt16.ofNat (2 ^ k) <<< 1 = UInt16.ofNat (2 ^ (k + 1)) := by
  decide

theorem and_blockMask_lt (hk : k ≤ 16) :
    port &&& blockMask k < port ↔ ¬2 ^ k ∣ port.toNat := by
  rw [UInt16.lt_iff_toNat_lt, and_blockMask port hk, dvd_iff_div_mul_eq]
  have := div_mul_le_self port.toNat (2 ^ k)
  omega

theorem searchAt_next (last : UInt16) (hk : k < 16) (hdvd : 2 ^ k ∣ port.toNat) :
    (searchAt port k).next port last = { searchAt port (k + 1) with
      mask := if port.toNat + 2 ^ k ≤ last.toNat + 1 then blockMask k else blockMask (k - 1) } := by
  have hpow := Nat.two_pow_pos k
  have hnet : port &&& blockMask k = port := by
    rw [← UInt16.toNat_inj, and_blockMask port hk.le, Nat.div_mul_cancel hdvd]
  have hfits : maxPort port (blockMask k) ≤ last ↔ port.toNat + 2 ^ k ≤ last.toNat + 1 := by
    rw [UInt16.le_iff_toNat_le, maxPort_blockMask hdvd hk.le]
    omega
  simp only [MaskSearch.next, searchAt, hnet, hfits, blockMask_sub k hk, shiftLeft_bit k hk,
    Nat.add_sub_cancel]

theorem portMaskLoop_of_stop {s : MaskSearch} (h : ¬(s.netPort > 0 && s.maximumPort < last))
    (fuel : Nat) : portMaskLoop port last fuel s = s.mask := by
  cases fuel with
  | zero => rfl
  | succ => rw [portMaskLoop, if_neg h]

/-- The widening loop finds the widest block. -/
theorem portMaskLoop_widest (hpos : 0 < port.toNat) (fuel : Nat) (hfuel : 18 ≤ k + fuel)
    (hdvd : 2 ^ (k - 1) ∣ port.toNat) (hfits : port.toNat + 2 ^ (k - 1) ≤ last.toNat + 1) :
    ∃ j, Widest port.toNat last.toNat j ∧
      portMaskLoop port last fuel (searchAt port k) = blockMask j ∧
      Searches port last (searchAt port k) (blockMask j) := by
  have hlow {i : Nat} (hi : 2 ^ i ∣ port.toNat) : i < 16 :=
    (Nat.pow_lt_pow_iff_right (by decide : 1 < 2)).mp
      ((Nat.le_of_dvd hpos hi).trans_lt port.toNat_lt)
  induction fuel generalizing k with
  | zero =>
    have := hlow hdvd
    omega
  | succ fuel ih =>
    have hpow := Nat.two_pow_pos (k - 1)
    have hcond : ((searchAt port k).netPort > 0 && (searchAt port k).maximumPort < last) = true ↔
        port.toNat + 2 ^ (k - 1) ≤ last.toNat := by
      simp only [searchAt, and_eq_true, decide_eq_true_eq, gt_iff_lt, UInt16.lt_iff_toNat_lt,
        maxPort_blockMask hdvd (hlow hdvd).le, UInt16.toNat_zero]
      omega
    by_cases hmore : port.toNat + 2 ^ (k - 1) ≤ last.toNat
    · have hround := hcond.mpr hmore
      by_cases hk : 2 ^ k ∣ port.toNat
      · have hcut : ¬port &&& blockMask k < port := fun h => (and_blockMask_lt (hlow hk).le).mp h hk
        have hnext := searchAt_next last (hlow hk) hk
        have hloop : portMaskLoop port last (fuel + 1) (searchAt port k) =
            portMaskLoop port last fuel ((searchAt port k).next port last) := by
          rw [portMaskLoop, if_pos hround]
          exact if_neg hcut
        by_cases hwide : port.toNat + 2 ^ k ≤ last.toNat + 1
        · rw [if_pos hwide] at hnext
          obtain ⟨j, hj, hmask, hsearch⟩ := ih (k := k + 1) (by omega) hk hwide
          refine ⟨j, hj, ?_, .round hround hcut ?_⟩
          · rw [hloop, hnext]
            exact hmask
          · rw [hnext]
            exact hsearch
        · rw [if_neg hwide] at hnext
          have hstop : ¬(((searchAt port k).next port last).netPort > 0 &&
              ((searchAt port k).next port last).maximumPort < last) := by
            rw [hnext]
            simp only [searchAt, Nat.add_sub_cancel, and_eq_true, decide_eq_true_eq,
              UInt16.lt_iff_toNat_lt, maxPort_blockMask hk (hlow hk).le]
            omega
          have hmask : ((searchAt port k).next port last).mask = blockMask (k - 1) := by rw [hnext]
          refine ⟨k - 1, ⟨hdvd, hfits, fun _ _ => ?_⟩, ?_, .round hround hcut ?_⟩
          · have := Nat.pow_le_pow_right (by decide : 0 < 2) (by omega : k ≤ k - 1 + 1)
            omega
          · rw [hloop, portMaskLoop_of_stop hstop, hmask]
          · rw [← hmask]
            exact .stop hstop
      · have hone : k ≠ 0 := by
          rintro rfl
          exact hk (one_dvd _)
        have hcut : port &&& blockMask k < port :=
          (and_blockMask_lt (by have := hlow hdvd; omega)).mpr hk
        refine ⟨k - 1, ⟨hdvd, hfits, fun _ h => absurd h ?_⟩, ?_, .cut hround hcut⟩
        · rwa [Nat.sub_add_cancel (one_le_iff_ne_zero.mpr hone)]
        · rw [portMaskLoop, if_pos hround]
          exact if_pos hcut
    · have hstop := mt hcond.mp hmore
      refine ⟨k - 1, ⟨hdvd, hfits, fun _ _ => ?_⟩, portMaskLoop_of_stop hstop _, .stop hstop⟩
      rw [pow_succ]
      omega

theorem portMask_widest (h : port ≤ last) :
    ∃ j, Widest port.toNat last.toNat j ∧ portMask port last = blockMask j ∧
      Searches port last ⟨1, maxUint16, maxUint16, port &&& maxUint16,
        maxPort (port &&& maxUint16) maxUint16⟩ (blockMask j) := by
  rw [UInt16.le_iff_toNat_le] at h
  have hnet : port &&& maxUint16 = port := by
    rw [← UInt16.toNat_inj, show maxUint16 = blockMask 0 from rfl, and_blockMask port (by decide),
      pow_zero, Nat.div_one, Nat.mul_one]
  unfold portMask
  rw [hnet]
  rcases Nat.eq_zero_or_pos port.toNat with hzero | hpos
  · obtain rfl : port = 0 := UInt16.toNat_inj.mp hzero
    refine ⟨0, ⟨one_dvd _, by omega, fun h => absurd h (Nat.lt_irrefl 0)⟩, ?_, .stop ?_⟩
    · exact portMaskLoop_of_stop (by simp) 18
    · simp
  · exact portMaskLoop_widest (k := 0) hpos 18 (Nat.le_refl 18) (one_dvd _) (succ_le_succ h)

end

theorem buildTernaryRulesLoop_cover (last : UInt16) (fuel port : Nat)
    (hfuel : last.toNat + 1 ≤ port + fuel) :
    Builds last port (buildTernaryRulesLoop last fuel port) ∧
      Cover last.toNat port (buildTernaryRulesLoop last fuel port) := by
  induction fuel generalizing port with
  | zero => exact ⟨.stop (by omega), .nil (by omega)⟩
  | succ fuel ih =>
    rw [buildTernaryRulesLoop]
    split
    · rename_i hport
      have hlast := last.toNat_lt
      have hof : (UInt16.ofNat port).toNat = port := by
        rw [UInt16.toNat_ofNat', mod_eq_of_lt (by omega)]
      have hle : UInt16.ofNat port ≤ last := by rwa [UInt16.le_iff_toNat_le, hof]
      obtain ⟨k, hk, hmask, hsearch⟩ := portMask_widest hle
      have hpow := Nat.two_pow_pos k
      have hnext : (maxPort (UInt16.ofNat port) (blockMask k)).toNat + 1 = port + 2 ^ k := by
        have hfits := hk.fits
        rw [maxPort_blockMask hk.dvd (hk.le hlast), hof]
        omega
      rw [hof] at hk
      obtain ⟨hbuilds, hcover⟩ := ih (port + 2 ^ k) (by omega)
      rw [hmask]
      dsimp only
      rw [hnext]
      refine ⟨.rule hport hsearch ?_, .cons k hk hcover⟩
      rw [hnext]
      exact hbuilds
    · exact ⟨.stop (by omega), .nil (by omega)⟩

/-- The rules of a range partition it, each by the block that starts at its port. -/
theorem buildTernaryRules_partition (pr : PortRange) :
    Builds pr.high pr.low.toNat pr.buildTernaryRules ∧
    (∀ port, pr.buildTernaryRules.countP (fun r => r.Matches port) =
      if pr.low ≤ port ∧ port ≤ pr.high then 1 else 0) ∧
    (∀ r ∈ pr.buildTernaryRules, r.Matches r.port ∧ ∀ port, r.Matches port → r.port ≤ port) ∧
    pr.buildTernaryRules.length ≤ 31 := by
  have hlast := pr.high.toNat_lt
  obtain ⟨hbuilds, hcover⟩ :=
    buildTernaryRulesLoop_cover pr.high (2 ^ 16) pr.low.toNat (by omega)
  exact ⟨hbuilds, hcover.countP_matches hlast, fun r => hcover.smallest hlast,
    hcover.length_le_31 hlast⟩

end PortRange

end Upf
