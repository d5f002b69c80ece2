import Mathlib.Tactic.Ring
import Upf.Lib.Table

/-!
# Longest-prefix match

Routes are a table from prefixes of fixed-width addresses to values.  The route for
an address is the one with the longest prefix that covers it.  A prefix carries the
proof that the bits behind its length are zero, so that at most one prefix of each
length covers an address.
-/

namespace Lib

open Nat

variable {W : Nat} {V : Type}

/-- A prefix of addresses of `W` bits. -/
@[ext] structure Prefix (W : Nat) where
  addr : Nat
  len : Nat
  addr_lt : addr < 2 ^ W
  len_le : len ≤ W
  aligned : addr % 2 ^ (W - len) = 0
deriving DecidableEq

namespace Prefix

/-- The address agrees with the prefix in its leading bits. -/
def Covers (p : Prefix W) (a : Nat) : Prop := a / 2 ^ (W - p.len) = p.addr / 2 ^ (W - p.len)

instance (p : Prefix W) (a : Nat) : Decidable (p.Covers a) := inferInstanceAs (Decidable (_ = _))

def cut (a : Nat) (ha : a < 2 ^ W) (len : Nat) (hlen : len ≤ W) : Prefix W where
  addr := a / 2 ^ (W - len) * 2 ^ (W - len)
  len
  addr_lt := Nat.lt_of_le_of_lt (div_mul_le_self _ _) ha
  len_le := hlen
  aligned := mul_mod_left _ _

theorem eq_cut_of_covers {p : Prefix W} {a : Nat} (ha : a < 2 ^ W) (h : p.Covers a) :
    p = cut a ha p.len p.len_le := by
  have haddr : p.addr = a / 2 ^ (W - p.len) * 2 ^ (W - p.len) := by
    rw [show a / 2 ^ (W - p.len) = p.addr / 2 ^ (W - p.len) from h]
    exact (Nat.div_mul_cancel (dvd_of_mod_eq_zero p.aligned)).symm
  exact Prefix.ext haddr rfl

theorem covers_cut (a : Nat) (ha : a < 2 ^ W) (len : Nat) (hlen : len ≤ W) :
    (cut a ha len hlen).Covers a :=
  (Nat.mul_div_cancel _ (Nat.two_pow_pos _)).symm

def all : Prefix W where
  addr := 0
  len := 0
  addr_lt := Nat.two_pow_pos W
  len_le := Nat.zero_le W
  aligned := zero_mod _

theorem eq_all {p : Prefix W} (h : p.len = 0) : p = all := by
  have haddr : p.addr = 0 := by
    have haligned := p.aligned
    rw [h, Nat.sub_zero, mod_eq_of_lt p.addr_lt] at haligned
    exact haligned
  exact Prefix.ext haddr h

theorem covers_all {a : Nat} (ha : a < 2 ^ W) : (all : Prefix W).Covers a := by
  change a / 2 ^ (W - 0) = 0 / 2 ^ (W - 0)
  rw [Nat.sub_zero, div_eq_of_lt ha, Nat.zero_div]

end Prefix

structure Longest (routes : Table (Prefix W) V) (a : Nat) (p : Prefix W) (v : V) : Prop where
  route : routes p = some v
  covers : p.Covers a
  longest : ∀ q w, routes q = some w → q.Covers a → q.len ≤ p.len

def Uncovered (routes : Table (Prefix W) V) (a : Nat) : Prop :=
  ∀ p v, routes p = some v → ¬ p.Covers a

theorem Longest.unique {routes : Table (Prefix W) V} {a : Nat} (ha : a < 2 ^ W) {p q : Prefix W}
    {v w : V} (hp : Longest routes a p v) (hq : Longest routes a q w) : p = q ∧ v = w := by
  have hlen : p.len = q.len :=
    Nat.le_antisymm (hq.longest p v hp.route hp.covers) (hp.longest q w hq.route hq.covers)
  have hpq : p = q := by
    rw [Prefix.eq_cut_of_covers ha hp.covers, Prefix.eq_cut_of_covers ha hq.covers]
    exact Prefix.ext (by simp only [Prefix.cut, hlen]) hlen
  subst hpq
  exact ⟨rfl, Option.some.inj (hp.route.symm.trans hq.route)⟩

structure Lpm (routes : Table (Prefix W) V) (missing : V) (lookup : Nat → V) : Prop where
  found : ∀ a p v, a < 2 ^ W → Longest routes a p v → lookup a = v
  missed : ∀ a, a < 2 ^ W → Uncovered routes a → lookup a = missing

def longestUpTo (routes : Table (Prefix W) V) (a : Nat) (ha : a < 2 ^ W) :
    (len : Nat) → len ≤ W → Option V
  | 0, h => routes (.cut a ha 0 h)
  | len + 1, h =>
    match routes (.cut a ha (len + 1) h) with
    | some v => some v
    | none => longestUpTo routes a ha len (le_of_succ_le h)

def longestMatch (routes : Table (Prefix W) V) (missing : V) (a : Nat) : V :=
  if ha : a < 2 ^ W then (longestUpTo routes a ha W (Nat.le_refl W)).getD missing else missing

theorem longestUpTo_eq (routes : Table (Prefix W) V) {a : Nat} (ha : a < 2 ^ W) (len : Nat)
    (hlen : len ≤ W) :
    (∀ v, longestUpTo routes a ha len hlen = some v →
      ∃ p, routes p = some v ∧ p.Covers a ∧ p.len ≤ len ∧
        ∀ q w, routes q = some w → q.Covers a → q.len ≤ len → q.len ≤ p.len) ∧
    (longestUpTo routes a ha len hlen = none →
      ∀ q w, routes q = some w → q.Covers a → ¬ q.len ≤ len) := by
  induction len with
  | zero =>
    refine ⟨fun v hv => ⟨_, hv, Prefix.covers_cut a ha 0 hlen, Nat.le_refl 0, ?_⟩, ?_⟩
    · exact fun q w _ _ hq => hq
    · intro hnone q w hroute hcovers hq
      have hcut := Prefix.eq_cut_of_covers ha hcovers
      have hsame : q = Prefix.cut a ha 0 hlen := by
        rw [hcut]
        exact Prefix.ext (by simp only [Prefix.cut, le_zero.mp hq]) (le_zero.mp hq)
      rw [hsame] at hroute
      rw [longestUpTo, hroute] at hnone
      cases hnone
  | succ len ih =>
    obtain ⟨hsome, hnone⟩ := ih (le_of_succ_le hlen)
    -- the prefix of this length that covers the address is the one tried here
    have hcut {q : Prefix W} (hcovers : q.Covers a) (hq : q.len = len + 1) :
        q = Prefix.cut a ha (len + 1) hlen := by
      rw [Prefix.eq_cut_of_covers ha hcovers]
      exact Prefix.ext (by simp only [Prefix.cut, hq]) hq
    rw [longestUpTo]
    cases hroute : routes (Prefix.cut a ha (len + 1) hlen) with
    | some v =>
      refine ⟨fun v' hv' => ⟨_, hroute.trans hv', Prefix.covers_cut a ha _ hlen,
        Nat.le_refl _, fun q w _ _ hq => hq⟩, fun h => by cases h⟩
    | none =>
      have hshorter {q : Prefix W} {w : V} (hw : routes q = some w) (hcovers : q.Covers a)
          (hq : q.len ≤ len + 1) : q.len ≤ len := by
        rcases Nat.lt_or_eq_of_le hq with hlt | heq
        · exact le_of_lt_succ hlt
        · rw [hcut hcovers heq, hroute] at hw
          cases hw
      constructor
      · intro v hv
        obtain ⟨p, hp, hcovers, hle, hmax⟩ := hsome v hv
        exact ⟨p, hp, hcovers, le_succ_of_le hle,
          fun q w hw hc hq => hmax q w hw hc (hshorter hw hc hq)⟩
      · intro h q w hw hc hq
        exact hnone h q w hw hc (hshorter hw hc hq)

theorem lpm_longestMatch (routes : Table (Prefix W) V) (missing : V) :
    Lpm routes missing (longestMatch routes missing) := by
  constructor
  · intro a p v ha hp
    obtain ⟨hsome, hnone⟩ := longestUpTo_eq routes ha W (Nat.le_refl W)
    rw [longestMatch, dif_pos ha]
    cases hlongest : longestUpTo routes a ha W (Nat.le_refl W) with
    | none => exact absurd p.len_le (hnone hlongest p v hp.route hp.covers)
    | some w =>
      obtain ⟨q, hq, hcovers, -, hmax⟩ := hsome w hlongest
      have hqlongest : Longest routes a q w :=
        ⟨hq, hcovers, fun r x hr hc => hmax r x hr hc r.len_le⟩
      exact (hp.unique ha hqlongest).2.symm
  · intro a ha hnone
    rw [longestMatch, dif_pos ha]
    cases hlongest : longestUpTo routes a ha W (Nat.le_refl W) with
    | none => rfl
    | some w =>
      obtain ⟨q, hq, hcovers, -, -⟩ := (longestUpTo_eq routes ha W (Nat.le_refl W)).1 w hlongest
      exact absurd hcovers (hnone q w hq)

end Lib
