import Mathlib.Data.List.Basic
import Mathlib.Tactic.Ring

/-!
# Bytes and buffers

Little-endian encodings of fixed width, and memory as a function from addresses
to bytes.  Composite keys are laid out by wide stores at increasing positions:
each store writes more bytes than its field has, and the next one overwrites the
surplus.
-/

namespace Lib

open List

/-- The `size` low bytes of a number, least significant first. -/
def leBytes : (size : Nat) → Nat → List UInt8
  | 0, _ => []
  | size + 1, n => UInt8.ofNat n :: leBytes size (n / 256)

/-- The number with the given bytes, least significant first. -/
def ofLE : List UInt8 → Nat
  | [] => 0
  | b :: bs => b.toNat + 256 * ofLE bs

@[simp] theorem leBytes_length (size n : Nat) : (leBytes size n).length = size := by
  induction size generalizing n with
  | zero => rfl
  | succ size ih => simp [leBytes, ih]

theorem ofLE_leBytes {size n : Nat} (h : n < 256 ^ size) : ofLE (leBytes size n) = n := by
  induction size generalizing n with
  | zero =>
    rw [pow_zero, Nat.lt_one_iff] at h
    simp [leBytes, ofLE, h]
  | succ size ih =>
    have hrest : n / 256 < 256 ^ size := by
      apply Nat.div_lt_of_lt_mul
      rwa [mul_comm, ← pow_succ]
    simp only [leBytes, ofLE, ih hrest, UInt8.toNat_ofNat']
    omega

theorem leBytes_ofLE (size : Nat) (bs : List UInt8) :
    leBytes size (ofLE bs) = (bs ++ List.replicate size 0).take size := by
  induction size generalizing bs with
  | zero => rfl
  | succ size ih =>
    cases bs with
    | nil =>
      have hzeros := ih []
      rw [ofLE, nil_append, take_replicate, min_self] at hzeros
      rw [ofLE, leBytes, Nat.zero_div, hzeros, nil_append, take_replicate, min_self]
      rfl
    | cons b bs =>
      have hlow : UInt8.ofNat (b.toNat + 256 * ofLE bs) = b := by
        apply UInt8.toNat_inj.mp
        rw [UInt8.toNat_ofNat']
        have hb := b.toNat_lt
        omega
      have hhigh : (b.toNat + 256 * ofLE bs) / 256 = ofLE bs := by
        have hb := b.toNat_lt
        omega
      rw [ofLE, leBytes, hlow, hhigh, ih, cons_append, take_succ_cons]
      congr 1
      have hlen : size ≤ (bs ++ List.replicate size (0 : UInt8)).length := by simp
      rw [replicate_succ', ← append_assoc, take_append_of_le_length hlen]

theorem ofLE_lt (bs : List UInt8) : ofLE bs < 256 ^ bs.length := by
  induction bs with
  | nil => exact Nat.one_pos
  | cons b =>
    have hb := b.toNat_lt
    rw [ofLE, length_cons, pow_succ]
    omega

theorem leBytes_inj {size n m : Nat} (hn : n < 256 ^ size) (hm : m < 256 ^ size)
    (h : leBytes size n = leBytes size m) : n = m := by
  rw [← ofLE_leBytes hn, h, ofLE_leBytes hm]

abbrev Buffer := Nat → UInt8

namespace Buffer

def write (buf : Buffer) (pos : Nat) (bytes : List UInt8) : Buffer := fun i =>
  if pos ≤ i then (bytes[i - pos]?).getD (buf i) else buf i

def read (buf : Buffer) (pos len : Nat) : List UInt8 :=
  (List.range len).map fun i => buf (pos + i)

variable {buf buf' : Buffer} {pos : Nat}

@[simp] theorem read_length (buf : Buffer) (pos len : Nat) : (buf.read pos len).length = len := by
  simp [read]

variable {bytes : List UInt8} {i : Nat}

theorem write_of_lt (h : i < pos) :
    buf.write pos bytes i = buf i := by
  simp [write, Nat.not_le.mpr h]

theorem write_at (h : i < bytes.length) :
    buf.write pos bytes (pos + i) = bytes[i] := by
  simp [write, getElem?_eq_getElem h]

theorem read_add (buf : Buffer) (pos len len' : Nat) :
    buf.read pos (len + len') = buf.read pos len ++ buf.read (pos + len) len' := by
  simp [read, range_add, Nat.add_assoc]

theorem read_congr {len : Nat} (h : ∀ i < len, buf (pos + i) = buf' (pos + i)) :
    buf.read pos len = buf'.read pos len := by
  apply map_congr_left
  intro i hi
  exact h i (mem_range.mp hi)

theorem read_write {len : Nat} (h : len ≤ bytes.length) :
    (buf.write pos bytes).read pos len = bytes.take len := by
  apply ext_getElem
  · simp [h]
  · intro i h₁ h₂
    rw [read_length] at h₁
    simp [read, write_at (Nat.lt_of_lt_of_le h₁ h)]

/-- Store words at increasing positions, each as far behind the one before as
that one's field is wide. -/
def layOut (pos : Nat) : List (Nat × List UInt8) → Buffer → Buffer
  | [], buf => buf
  | (size, word) :: rest, buf => layOut (pos + size) rest (buf.write pos word)

theorem layOut_of_lt (items : List (Nat × List UInt8)) (h : i < pos) :
    layOut pos items buf i = buf i := by
  induction items generalizing pos buf with
  | nil => rfl
  | cons item rest ih =>
    rcases item with ⟨size, word⟩
    rw [layOut, ih (Nat.lt_add_right size h), write_of_lt h]

theorem layOut_congr (items : List (Nat × List UInt8)) (h : buf i = buf' i) :
    layOut pos items buf i = layOut pos items buf' i := by
  induction items generalizing pos buf buf' with
  | nil => exact h
  | cons item rest ih =>
    apply ih
    simp only [write, h]

/-- Words that are zero behind their field leave zeros behind the last field
where there were zeros. -/
theorem layOut_zero {items : List (Nat × List UInt8)}
    (h : ∀ item ∈ items, ∀ j ≥ item.1, (item.2[j]?).getD 0 = 0) (hbuf : buf i = 0)
    (hi : pos + (items.map Prod.fst).sum ≤ i) : layOut pos items buf i = 0 := by
  induction items generalizing pos buf with
  | nil => exact hbuf
  | cons item rest ih =>
    rw [map_cons, sum_cons, ← Nat.add_assoc] at hi
    apply ih (fun item hitem => h item (mem_cons_of_mem _ hitem)) _ hi
    have hword := h item mem_cons_self (i - pos) (by omega)
    rcases hget : item.2[i - pos]? with _ | b
    · simp [write, hget, hbuf]
    · rw [hget] at hword
      have hle : pos ≤ i := by omega
      simpa [write, hget, hle] using hword

theorem read_layOut {items : List (Nat × List UInt8)}
    (h : ∀ item ∈ items, item.1 ≤ item.2.length) :
    (layOut pos items buf).read pos (items.map Prod.fst).sum =
      items.flatMap fun item => item.2.take item.1 := by
  induction items generalizing pos buf with
  | nil => rfl
  | cons item rest ih =>
    rcases item with ⟨size, word⟩
    have hsize : size ≤ word.length := h _ mem_cons_self
    rw [layOut, map_cons, sum_cons, read_add, flatMap_cons,
      ih fun item hitem => h item (mem_cons_of_mem _ hitem)]
    have hread : (buf.write pos word).read pos size = word.take size := read_write hsize
    congr 1
    rw [← hread]
    apply read_congr
    intro i hi
    exact layOut_of_lt rest (Nat.add_lt_add_left hi pos)

end Buffer

end Lib
