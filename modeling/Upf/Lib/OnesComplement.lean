import Mathlib.Data.Nat.ModEq
import Mathlib.Algebra.Order.Ring.Nat

/-!
# One's complement sums

Sums with end-around carry of numbers up to `m`, all ones being `m`.  Such a
sum is told by what it is modulo `m` and by whether it is zero, which is how the
two representations of zero are kept apart.
-/

namespace Lib.Ones

open Nat List

variable {m a b n : Nat}

/-- The representative of a number in one's complement: zero for zero alone. -/
def norm (m n : Nat) : Nat := if n = 0 then 0 else (n - 1) % m + 1

@[simp] theorem norm_zero (m : Nat) : norm m 0 = 0 := rfl

theorem norm_of_pos (h : 0 < n) : norm m n = (n - 1) % m + 1 := if_neg (by omega)

@[simp] theorem norm_eq_zero : norm m n = 0 ↔ n = 0 := by
  unfold norm
  split <;> omega

theorem norm_le (hm : 0 < m) (n : Nat) : norm m n ≤ m := by
  unfold norm
  split
  · omega
  · exact mod_lt _ hm

theorem norm_modEq (m n : Nat) : norm m n ≡ n [MOD m] := by
  rcases Nat.eq_zero_or_pos n with rfl | hpos
  · exact Nat.ModEq.refl _
  · rw [norm_of_pos hpos]
    have hstep := (Nat.mod_modEq (n - 1) m).add_right 1
    rwa [Nat.sub_add_cancel hpos] at hstep

theorem eq_norm (hle : a ≤ m) (hmod : a ≡ n [MOD m]) (hzero : a = 0 ↔ n = 0) :
    a = norm m n := by
  rcases Nat.eq_zero_or_pos n with rfl | hpos
  · exact hzero.mpr rfl
  · have ha : 0 < a := Nat.pos_of_ne_zero fun h => by omega
    have hsame : a - 1 ≡ n - 1 [MOD m] := by
      apply Nat.ModEq.add_right_cancel' 1
      rwa [Nat.sub_add_cancel ha, Nat.sub_add_cancel hpos]
    rw [norm_of_pos hpos, ← hsame, mod_eq_of_lt (by omega)]
    omega

theorem eq_norm_of_add {k : Nat} (hle : a ≤ m) (hn : n = a + m * k) (hzero : a = 0 → n = 0) :
    a = norm m n := by
  apply eq_norm hle
  · rw [hn]
    exact (Nat.add_modEq_left_iff.mpr (Nat.dvd_mul_right m k)).symm
  · exact ⟨hzero, by omega⟩

theorem norm_of_le (h : n ≤ m) : norm m n = n := (eq_norm h (Nat.ModEq.refl n) Iff.rfl).symm

theorem norm_congr (hm : 0 < m) (hmod : a ≡ b [MOD m]) (hzero : a = 0 ↔ b = 0) :
    norm m a = norm m b :=
  eq_norm (norm_le hm a) ((norm_modEq m a).trans hmod) (norm_eq_zero.trans hzero)

/-- Reducing a part of a sum first changes nothing, also by a multiple of `m`. -/
theorem norm_norm_add {k : Nat} (hm : 0 < m) (hdvd : m ∣ k) (a b : Nat) :
    norm m (norm k a + b) = norm m (a + b) := by
  refine norm_congr hm (((norm_modEq k a).of_dvd hdvd).add_right b) ?_
  simp

theorem norm_add_complement (hm : 0 < m) (n : Nat) : norm m (n + (m - norm m n)) = m := by
  have hle := norm_le hm n
  have hsum : n + (m - norm m n) ≡ norm m n + (m - norm m n) [MOD m] :=
    (norm_modEq m n).symm.add_right _
  rw [Nat.add_sub_cancel' hle] at hsum
  refine (eq_norm le_rfl hsum.symm ⟨fun h => by omega, fun h => ?_⟩).symm
  have hzero : n = 0 := by omega
  simp [hzero] at h
  exact h

theorem foldTwice_eq (h : n < 2 ^ 32) :
    (n / 65536 + n % 65536 + (n / 65536 + n % 65536) / 65536) % 65536 = norm 65535 n := by
  have hsplit := div_add_mod n 65536
  have hlow : n % 65536 < 65536 := mod_lt n (by decide)
  have hhigh : n / 65536 < 65536 := by omega
  generalize n / 65536 = q at *
  generalize n % 65536 = r at *
  rcases Nat.lt_or_ge (q + r) 65536 with hfits | hcarry
  · rw [div_eq_of_lt hfits, Nat.add_zero, mod_eq_of_lt hfits]
    exact eq_norm_of_add (k := q) (by omega) (by omega) (by omega)
  · have hone : (q + r) / 65536 = 1 := by omega
    rw [hone]
    exact eq_norm_of_add (k := q + 1) (by omega) (by omega) (by omega)

theorem complement_foldTwice (sum : UInt32) :
    (~~~((sum >>> 16) + (sum &&& (0xffff : UInt32)) +
      (((sum >>> 16) + (sum &&& (0xffff : UInt32))) >>> 16)).toUInt16).toNat =
        65535 - norm 65535 sum.toNat := by
  have hlt := sum.toNat_lt
  have hmask : ∀ n, n &&& 65535 = n % 65536 := fun n => and_two_pow_sub_one_eq_mod n 16
  rw [← foldTwice_eq hlt]
  simp [UInt32.toNat_add, UInt32.toNat_shiftRight, Nat.shiftRight_eq_div_pow, hmask]
  omega

theorem norm_eq_ones (hm : 0 < m) : norm m n = m ↔ n ≡ 0 [MOD m] ∧ n ≠ 0 := by
  constructor
  · intro h
    refine ⟨(norm_modEq m n).symm.trans ?_, ?_⟩
    · rw [h]
      exact Nat.modulus_modEq_zero
    · rintro rfl
      rw [norm_zero] at h
      omega
  · rintro ⟨hmod, hne⟩
    refine (eq_norm le_rfl (hmod.trans Nat.modulus_modEq_zero.symm).symm ?_).symm
    omega

/-- One addition with carry of `m + 1` values, the carry beside the sum. -/
def addCarry (m : Nat) (s : Nat × Nat) (u : Nat) : Nat × Nat :=
  ((s.1 + u + s.2) % (m + 1), (s.1 + u + s.2) / (m + 1))

def addChain (m sum : Nat) (us : List Nat) : Nat :=
  let s := us.foldl (addCarry m) (sum, 0)
  (s.1 + s.2) % (m + 1)

theorem addCarry_eq {s : Nat × Nat} {u : Nat} (hs : s.1 + s.2 ≤ m) (hu : u ≤ m) :
    (addCarry m s u).1 + (addCarry m s u).2 = norm m (s.1 + s.2 + u) := by
  have htotal : s.1 + u + s.2 = s.1 + s.2 + u := by omega
  simp only [addCarry, htotal]
  rcases Nat.lt_or_ge (s.1 + s.2 + u) (m + 1) with hlt | hge
  · rw [mod_eq_of_lt hlt, div_eq_of_lt hlt, norm_of_le (by omega), Nat.add_zero]
  · have hdiv : (s.1 + s.2 + u) / (m + 1) = 1 :=
      Nat.div_eq_of_lt_le (by omega) (by omega)
    have hsum := div_add_mod (s.1 + s.2 + u) (m + 1)
    rw [hdiv, Nat.mul_one] at hsum
    rw [hdiv]
    exact eq_norm_of_add (k := 1) (by omega) (by omega) (by omega)

theorem foldl_addCarry (hm : 0 < m) {us : List Nat} (hus : ∀ u ∈ us, u ≤ m) {s : Nat × Nat}
    (hs : s.1 + s.2 ≤ m) :
    (us.foldl (addCarry m) s).1 + (us.foldl (addCarry m) s).2 = norm m (s.1 + s.2 + us.sum) := by
  induction us generalizing s with
  | nil => simp [norm_of_le hs]
  | cons u us ih =>
    rw [forall_mem_cons] at hus
    have hstep := addCarry_eq hs hus.1
    rw [foldl_cons, ih hus.2 (hstep ▸ norm_le hm _), hstep, norm_norm_add hm dvd_rfl,
      sum_cons, Nat.add_assoc]

theorem addChain_eq (hm : 0 < m) {sum : Nat} {us : List Nat} (hsum : sum ≤ m)
    (hus : ∀ u ∈ us, u ≤ m) : addChain m sum us = norm m (sum + us.sum) := by
  have hfold := foldl_addCarry hm hus (s := (sum, 0)) (by simpa using hsum)
  simp only [addChain, hfold, Nat.add_zero]
  exact mod_eq_of_lt (lt_succ_of_le (norm_le hm _))

end Lib.Ones
