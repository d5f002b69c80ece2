import Mathlib.Algebra.Order.BigOperators.Group.List
import Mathlib.Algebra.Order.Ring.Nat
import Mathlib.Data.List.Induction

/-!
# Histograms

Values are counted in buckets of one width, those beyond the last of them in a bucket of
their own.  Counters are 64 bits wide; what a summary adds up for the count is an `int`.

Main result: `summary_exact_iff`.
-/

namespace Upf.Bess

open List Nat

structure Histogram where
  bucketWidth : UInt64
  buckets : List Nat
deriving DecidableEq

structure HistogramSummary where
  count : Nat := 0
  aboveRange : Nat := 0
  min : Nat := 0
  max : Nat := 0
  avg : Nat := 0
  total : Nat := 0
deriving DecidableEq

inductive HistogramCall where
  | insert (x : UInt64)
  | reset
deriving DecidableEq

namespace Histogram

def new (numBuckets : Nat) (bucketWidth : UInt64) : Histogram :=
  ⟨bucketWidth, List.replicate (numBuckets + 1) 0⟩

/-- Count a value.  A division by zero ends the process. -/
def insert (x : UInt64) (h : Histogram) : Option Histogram :=
  if h.bucketWidth = 0 then none
  else
    let index := min (x.toNat / h.bucketWidth.toNat) (h.buckets.length - 1)
    some { h with buckets := h.buckets.modify index fun b => (b + 1) % 2 ^ 64 }

def reset (h : Histogram) : Histogram :=
  { h with buckets := List.replicate h.buckets.length 0 }

def step (h : Histogram) : HistogramCall → Option Histogram
  | .insert x => h.insert x
  | .reset => some h.reset

/-- One round of the loop over the buckets; whether a minimum was found comes first. -/
def summarizeStep (h : Histogram) (acc : Bool × HistogramSummary) (i : Nat) :
    Bool × HistogramSummary :=
  let val := i * h.bucketWidth.toNat % 2 ^ 64
  let freq := h.buckets.getD i 0
  let ret := { acc.2 with total := (acc.2.total + val * freq) % 2 ^ 64 }
  if freq > 0 then (true, { ret with min := if acc.1 then ret.min else val, max := val })
  else (acc.1, ret)

def summarize (h : Histogram) : HistogramSummary :=
  -- The counters are added up in a signed number of 32 bits.
  let accumulated := h.buckets.foldl (fun (acc : Int) (b : Nat) => (acc + b).bmod (2 ^ 32)) 0
  let count := (accumulated % 2 ^ 64).toNat
  let ret := ((List.range h.buckets.length).foldl h.summarizeStep (false, {})).2
  { ret with
    count
    aboveRange := h.buckets.getLastD 0
    avg := if count > 0 then ret.total / count else 0 }

def recent (calls : List HistogramCall) : List UInt64 :=
  calls.foldl (fun xs call => match call with
    | .insert x => xs ++ [x]
    | .reset => []) []

def bucketOf (numBuckets : Nat) (width x : UInt64) : Nat := min (x.toNat / width.toNat) numBuckets

def representative (numBuckets : Nat) (width x : UInt64) : Nat :=
  bucketOf numBuckets width x * width.toNat

def occupied (numBuckets : Nat) (width : UInt64) (xs : List UInt64) (k : Nat) : List Nat :=
  (List.range k).filter fun i => 0 < xs.countP (bucketOf numBuckets width · = i)

/-- What a summary should say about the values. -/
structure Exact (numBuckets : Nat) (width : UInt64) (xs : List UInt64) (s : HistogramSummary) :
    Prop where
  count : s.count = xs.length
  aboveRange : s.aboveRange = xs.countP fun x => numBuckets * width.toNat ≤ x.toNat
  min : s.min = (occupied numBuckets width xs (numBuckets + 1)).headD 0 * width.toNat
  max : s.max = (occupied numBuckets width xs (numBuckets + 1)).getLastD 0 * width.toNat
  total : s.total = (xs.map (representative numBuckets width)).sum
  avg : s.avg = s.total / xs.length

section

variable {n : Nat} {w : UInt64} {xs : List UInt64} {calls : List HistogramCall}

def tally (n : Nat) (w : UInt64) (xs : List UInt64) : List Nat :=
  (List.range (n + 1)).map fun i => xs.countP (bucketOf n w · = i) % 2 ^ 64

theorem tally_nil : tally n w [] = List.replicate (n + 1) 0 := by
  simp [tally, map_const']

theorem tally_append (x : UInt64) :
    (tally n w xs).modify (bucketOf n w x) (fun b => (b + 1) % 2 ^ 64) = tally n w (xs ++ [x]) := by
  apply ext_getElem
  · simp [tally]
  · intro i hi hi'
    rw [getElem_modify]
    simp only [tally, getElem_map, getElem_range, countP_append,
      countP_singleton, decide_eq_true_eq]
    split <;> omega

@[simp] theorem length_tally : (tally n w xs).length = n + 1 := by
  simp [tally]

theorem foldlM_step (h : w ≠ 0 ∨ ∀ x, .insert x ∉ calls) :
    calls.foldlM step (new n w) = some ⟨w, tally n w (recent calls)⟩ := by
  induction calls using List.reverseRecOn with
  | nil => simp [new, recent, tally_nil]
  | append_singleton calls call ih =>
    rw [foldlM_append, ih (h.imp_right fun h x hx => h x (mem_append_left _ hx))]
    cases call with
    | insert x =>
      have hw : w ≠ 0 := h.resolve_right fun h => h x (by simp)
      have hrecent : recent (calls ++ [.insert x]) = recent calls ++ [x] := by simp [recent]
      rw [hrecent, ← tally_append]
      simp [step, insert, hw, bucketOf]
    | reset =>
      have hrecent : recent (calls ++ [.reset]) = [] := by simp [recent]
      rw [hrecent, tally_nil]
      simp [step, reset]

theorem foldlM_step_zero {h : Histogram} (hw : h.bucketWidth = 0) {x : UInt64}
    (hx : .insert x ∈ calls) : calls.foldlM step h = none := by
  induction calls generalizing h with
  | nil => cases hx
  | cons call calls ih =>
    rw [foldlM_cons]
    cases call with
    | insert y => simp [step, insert, hw]
    | reset => exact ih (h := h.reset) hw (by simpa using hx)

theorem sum_buckets (f : Nat → Nat) (k : Nat) :
    ((List.range k).map fun i => f i * xs.countP (bucketOf n w · = i)).sum =
      ((xs.filter (bucketOf n w · < k)).map fun x => f (bucketOf n w x)).sum := by
  induction k with
  | zero => simp
  | succ k ih =>
    rw [range_succ, map_append, sum_append_nat, ih, map_singleton,
      sum_singleton]
    clear ih
    induction xs with
    | nil => rfl
    | cons x xs ih =>
      simp only [filter_cons, countP_cons, decide_eq_true_eq]
      rcases Nat.lt_trichotomy (bucketOf n w x) k with hlt | heq | hgt
      · rw [if_pos hlt, if_pos (lt_succ_of_lt hlt), if_neg (Nat.ne_of_lt hlt), Nat.add_zero,
          map_cons, map_cons, sum_cons, sum_cons, Nat.add_assoc, ih]
      · rw [if_neg heq.not_lt, if_pos (lt_succ_of_le heq.le), if_pos heq, Nat.mul_add_one,
          ← Nat.add_assoc, ih, map_cons, sum_cons, heq, Nat.add_comm]
      · rw [if_neg (Nat.not_lt_of_gt hgt), if_neg (Nat.not_lt.mpr hgt), if_neg (Nat.ne_of_gt hgt),
          Nat.add_zero, ih]

theorem filter_bucketOf : xs.filter (bucketOf n w · < n + 1) = xs :=
  filter_eq_self.mpr fun _ _ => decide_eq_true (lt_succ_of_le (Nat.min_le_right _ _))

theorem tally_of_lt (h : xs.length < 2 ^ 64) :
    tally n w xs = (List.range (n + 1)).map fun i => xs.countP (bucketOf n w · = i) := by
  refine map_congr_left fun i _ => mod_eq_of_lt ?_
  exact countP_le_length.trans_lt h

theorem foldl_bmod (bs : List Nat) (acc : Int) :
    bs.foldl (fun (acc : Int) (b : Nat) => (acc + b).bmod (2 ^ 32)) (acc.bmod (2 ^ 32)) =
      (acc + bs.sum).bmod (2 ^ 32) := by
  induction bs generalizing acc with
  | nil => simp
  | cons b bs ih =>
    rw [foldl_cons, Int.bmod_add_bmod, ih, sum_cons, Int.natCast_add, Int.add_assoc]

theorem summarize_count (h : xs.length < 2 ^ 64) :
    (summarize ⟨w, tally n w xs⟩).count = (((xs.length : Int).bmod (2 ^ 32)) % 2 ^ 64).toNat := by
  have hsum : (tally n w xs).sum = xs.length := by
    have hbuckets := @sum_buckets n w xs (fun _ => 1) (n + 1)
    rw [filter_bucketOf, map_const', sum_replicate_nat, Nat.mul_one] at hbuckets
    simpa only [tally_of_lt h, Nat.one_mul] using hbuckets
  have hfold := foldl_bmod (tally n w xs) 0
  rw [hsum, Int.zero_add] at hfold
  simp only [summarize]
  rw [← hfold]
  rfl

theorem foldl_summarizeStep (hlength : xs.length < 2 ^ 64) {k : Nat} (hk : k ≤ n + 1) :
    (List.range k).foldl (summarizeStep ⟨w, tally n w xs⟩) (false, {}) =
      (!(occupied n w xs k).isEmpty,
        { min := (occupied n w xs k).headD 0 * w.toNat % 2 ^ 64
          max := (occupied n w xs k).getLastD 0 * w.toNat % 2 ^ 64
          total := ((xs.filter (bucketOf n w · < k)).map (representative n w)).sum % 2 ^ 64 }) := by
  have hbuckets : ((xs.filter (bucketOf n w · < k)).map (representative n w)).sum =
      ((List.range k).map fun i => i * w.toNat * xs.countP (bucketOf n w · = i)).sum :=
    (sum_buckets (· * w.toNat) k).symm
  rw [hbuckets]
  clear hbuckets
  induction k with
  | zero => simp [occupied]
  | succ k ih =>
    have hfreq : (tally n w xs).getD k 0 = xs.countP (bucketOf n w · = k) := by
      rw [tally_of_lt hlength, getD_eq_getElem?_getD, getElem?_map,
        getElem?_range (by omega)]
      rfl
    have htotal (total freq : Nat) :
        (total % 2 ^ 64 + k * w.toNat % 2 ^ 64 * freq) % 2 ^ 64 =
          (total + k * w.toNat * freq) % 2 ^ 64 := by
      rw [add_mod, mod_mod, mul_mod, mod_mod, ← mul_mod, ← add_mod]
    have hoccupied : occupied n w xs (k + 1) = occupied n w xs k ++
        if 0 < xs.countP (bucketOf n w · = k) then [k] else [] := by
      simp [occupied, range_succ, filter_cons]
    rw [range_succ, foldl_append, ih (by omega), map_append, sum_append_nat,
      hoccupied]
    simp only [foldl_cons, foldl_nil, summarizeStep, hfreq, map_singleton,
      sum_singleton, htotal]
    split
    · rw [getLastD_concat]
      cases occupied n w xs k <;> rfl
    · rw [append_nil]

theorem getLastD_tally (hlength : xs.length < 2 ^ 64) (hw : w ≠ 0 ∨ xs = []) :
    (tally n w xs).getLastD 0 = xs.countP fun x => n * w.toNat ≤ x.toNat := by
  rw [tally_of_lt hlength, range_succ, map_append, map_singleton,
    getLastD_concat]
  rcases hw with hw | rfl
  · have hpos : 0 < w.toNat := Nat.pos_of_ne_zero fun h => hw (UInt64.toNat_inj.mp h)
    refine countP_congr fun x _ => ?_
    rw [decide_eq_true_eq, decide_eq_true_eq, bucketOf, min_eq_right_iff,
      Nat.le_div_iff_mul_le hpos]
  · rfl

theorem occupied_fits {i : Nat} (h : i ∈ occupied n w xs (n + 1)) : i * w.toNat < 2 ^ 64 := by
  obtain ⟨x, -, hx⟩ := countP_pos_iff.mp (of_decide_eq_true (mem_filter.mp h).2)
  have hle : bucketOf n w x * w.toNat ≤ x.toNat :=
    (Nat.mul_le_mul_right _ (Nat.min_le_left _ _)).trans (div_mul_le_self _ _)
  rw [← of_decide_eq_true hx]
  exact hle.trans_lt x.toNat_lt

theorem summarize_exact (hlength : xs.length < 2 ^ 64) (hw : w ≠ 0 ∨ xs = [])
    (hfits : (xs.map (representative n w)).sum < 2 ^ 64) :
    Exact n w xs (summarize ⟨w, tally n w xs⟩) ↔
      (summarize ⟨w, tally n w xs⟩).count = xs.length := by
  refine ⟨Exact.count, fun hcount => ?_⟩
  have hends : (occupied n w xs (n + 1)).headD 0 * w.toNat < 2 ^ 64 ∧
      (occupied n w xs (n + 1)).getLastD 0 * w.toNat < 2 ^ 64 := by
    have hfit (i : Nat) (hi : i ∈ occupied n w xs (n + 1)) := occupied_fits hi
    cases hocc : occupied n w xs (n + 1) with
    | nil => simp
    | cons i is =>
      rw [hocc] at hfit
      refine ⟨hfit i mem_cons_self, hfit _ ?_⟩
      rw [getLastD_cons]
      exact getLastD_mem_cons
  have hloop := foldl_summarizeStep (n := n) (w := w) hlength le_rfl
  have hsize : (tally n w xs).length = n + 1 := length_tally
  rw [filter_bucketOf, mod_eq_of_lt hfits, mod_eq_of_lt hends.1, mod_eq_of_lt hends.2,
    ← hsize] at hloop
  constructor
  · exact hcount
  · exact getLastD_tally hlength hw
  · simp only [summarize, hloop]
    simp
  · simp only [summarize, hloop]
    simp
  · simp only [summarize, hloop]
  · rw [← hcount]
    simp only [summarize]
    split
    · rfl
    · rename_i hzero
      rw [Nat.eq_zero_of_not_pos hzero, Nat.div_zero]

theorem recent_of_no_insert (h : ∀ x, .insert x ∉ calls) : recent calls = [] := by
  rcases calls.eq_nil_or_concat with rfl | ⟨before, call, rfl⟩
  · rfl
  · cases call with
    | insert x => exact absurd (by simp) (h x)
    | reset => simp [recent]

end

/-- A summary says what was inserted since the last reset exactly if no value was divided by
zero and the number of values survives a signed number of 32 bits. -/
theorem summary_exact_iff (n : Nat) (w : UInt64) (calls : List HistogramCall)
    (hfits : ((recent calls).map (representative n w)).sum < 2 ^ 64) :
    (∃ h, calls.foldlM step (new n w) = some h ∧ Exact n w (recent calls) h.summarize) ↔
      (w ≠ 0 ∨ ∀ x, .insert x ∉ calls) ∧ ((recent calls).length < 2 ^ 31 ∨
        2 ^ 64 - 2 ^ 31 ≤ (recent calls).length ∧ (recent calls).length < 2 ^ 64) := by
  by_cases hdivides : w ≠ 0 ∨ ∀ x, .insert x ∉ calls
  · rw [foldlM_step hdivides, and_iff_right hdivides]
    simp only [Option.some.injEq, exists_eq_left']
    rcases Nat.lt_or_ge (recent calls).length (2 ^ 64) with hlength | hlong
    · rw [summarize_exact hlength (hdivides.imp_right recent_of_no_insert) hfits,
        summarize_count hlength, Int.bmod_def]
      omega
    · refine iff_of_false (fun hexact => ?_) (by omega)
      have hcount := hexact.count
      simp only [summarize] at hcount
      omega
  · rw [not_or, not_not, not_forall] at hdivides
    obtain ⟨rfl, x, hx⟩ := hdivides
    rw [foldlM_step_zero rfl (not_not.mp hx)]
    refine iff_of_false (by simp) fun h => ?_
    exact h.1.elim (fun hne => hne rfl) fun hnone => hnone x (not_not.mp hx)

theorem summary_exact_three :
    ∃ h, [.insert 9, .reset, .insert 3, .insert 8].foldlM step (new 3 2) = some h ∧
      Exact 3 2 [3, 8] h.summarize :=
  (summary_exact_iff 3 2 [.insert 9, .reset, .insert 3, .insert 8] (by decide)).mpr
    ⟨.inl (by decide), by decide⟩

theorem recent_replicate (k : Nat) (x : UInt64) :
    recent (List.replicate k (.insert x)) = List.replicate k x := by
  induction k with
  | zero => rfl
  | succ k ih =>
    rw [replicate_succ', replicate_succ', ← ih]
    simp [recent]

/-- With 2^31 values the count is negative, as a number of 64 bits. -/
theorem summary_of_many :
    ∃ h, (List.replicate (2 ^ 31) (.insert 0)).foldlM step (new 0 1) = some h ∧
      (recent (List.replicate (2 ^ 31) (.insert 0))).length = 2 ^ 31 ∧
      h.summarize.count = 2 ^ 64 - 2 ^ 31 := by
  have hlength : (recent (List.replicate (2 ^ 31) (.insert 0))).length = 2 ^ 31 := by
    rw [recent_replicate, length_replicate]
  refine ⟨_, foldlM_step (.inl (by decide)), hlength, ?_⟩
  rw [summarize_count (by rw [hlength]; decide), hlength]
  decide

end Histogram

end Upf.Bess
