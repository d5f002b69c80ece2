import Mathlib.Algebra.Order.Ring.Nat
import Mathlib.Data.List.Basic

/-!
# The table of the L2 forwarding module

A table of buckets with one, two or four slots each, every slot holding a MAC address
with its gate.  An address has a primary and an alternate bucket by its hash.  A full
primary bucket is relieved by moving one of its entries to its alternate bucket.

Buckets with four slots are looked up by comparing four words at once.  A slot is aligned
to 32 bytes, so it takes four words itself, and the words compared are the entry of the
first slot and what fills that slot up.

The hash of an address is a parameter.
-/

namespace Upf.Bess.L2

abbrev Mac := BitVec 48

abbrev GateIdx := BitVec 16

structure L2Entry where
  addr : Mac := 0
  gate : BitVec 15 := 0
  occupied : Bool := false
deriving DecidableEq

def L2Entry.entry (e : L2Entry) : BitVec 64 := BitVec.ofBool e.occupied ++ e.gate ++ e.addr

structure L2Table where
  table : Nat → L2Entry := fun _ => {}
  size : Nat
  sizePower : Nat
  bucket : Nat
  count : Nat := 0

def maxTableSize : Nat := 1048576 * 64
def maxBucketSize : Nat := 4

def isPowerOf2 (n : Nat) : Bool := n ≠ 0 && n &&& (n - 1) == 0

def l2Init (size bucket : Int) : Option L2Table :=
  if size ≤ 0 ∨ size > maxTableSize ∨ isPowerOf2 size.toNat = false then none
  else if bucket ≤ 0 ∨ bucket > maxBucketSize ∨ isPowerOf2 bucket.toNat = false then none
  else some { size := size.toNat, sizePower := size.toNat.log2, bucket := bucket.toNat }

def L2Table.ibToOffset (t : L2Table) (index bucket : Nat) : Nat := index * t.bucket + bucket

def l2HashToIndex (hash : BitVec 32) (size : Nat) : Nat := hash.toNat &&& (size - 1)

/-- `l2_alt_index`.  In a table of a single bucket the shift count is negative, which C++
leaves undefined and x86 takes modulo 64. -/
def l2AltIndex (hash : BitVec 32) (sizePower index : Nat) : Nat :=
  let tag := ((hash >>> sizePower).toNat + 1) * 0x5bd1e995
  ((index ^^^ tag) &&& (2 ^ ((sizePower + 63) % 64) - 1)) % 2 ^ 32

def isNaN (w : BitVec 64) : Bool :=
  w &&& 0x7ff0000000000000#64 == 0x7ff0000000000000#64 && w &&& 0x000fffffffffffff#64 != 0#64

/-- `_CMP_EQ_OQ` on the bits of doubles: zeros of either sign are equal. -/
def doubleEq (a b : BitVec 64) : Bool :=
  !isNaN a && !isNaN b && (a == b || (a <<< 1 == 0#64 && b <<< 1 == 0#64))

/-- One of the four comparisons of `find_index_avx` or `find_index_basic`. -/
def matchWord (avx : Bool) (addr : Mac) (word : BitVec 64) : Bool :=
  let key := addr.setWidth 64 ||| (1#64 <<< 63)
  let word := word &&& 0x8000ffffffffffff#64
  if avx then doubleEq key word else key == word

def findIndex (avx : Bool) (addr : Mac) (words : List (BitVec 64)) : Nat :=
  match words.findIdx? (matchWord avx addr) with
  | some i => i + 1
  | none => 0

namespace L2Table

variable (crc : Mac → BitVec 32) (avx : Bool) (t : L2Table)

def words (offset : Nat) : List (BitVec 64) := [(t.table offset).entry, 0, 0, 0]

def primary (addr : Mac) : Nat := l2HashToIndex (crc addr) t.size
def alternate (addr : Mac) : Nat := l2AltIndex (crc addr) t.sizePower (t.primary crc addr)

def findIn (index : Nat) (addr : Mac) : Option Nat :=
  ((List.range t.bucket).map (t.ibToOffset index)).find? fun offset =>
    (t.table offset).occupied && addr == (t.table offset).addr

def gateAt (offset : Nat) : GateIdx := (t.table offset).gate.setWidth 16

def l2Find (addr : Mac) : Option GateIdx :=
  if t.bucket = 4 then
    let offset := t.ibToOffset (t.primary crc addr) 0
    let tmp1 := findIndex avx addr (t.words offset)
    if tmp1 ≠ 0 then some (t.gateAt (offset + tmp1 - 1))
    else
      let offset := t.ibToOffset (t.alternate crc addr) 0
      let tmp2 := findIndex avx addr (t.words offset)
      if tmp2 ≠ 0 then some (t.gateAt (offset + tmp2 - 1)) else none
  else
    match t.findIn (t.primary crc addr) addr with
    | some offset => some (t.gateAt offset)
    | none => (t.findIn (t.alternate crc addr) addr).map t.gateAt

def l2FindOffset (addr : Mac) : Option Nat :=
  match t.findIn (t.primary crc addr) addr with
  | some offset => some offset
  | none => t.findIn (t.alternate crc addr) addr

def freeIn (index : Nat) : Option Nat :=
  (List.range t.bucket).find? fun i => !(t.table (t.ibToOffset index i)).occupied

def moveEntry (offset1 offset2 : Nat) : L2Table :=
  let table := Function.update t.table offset2 (t.table offset1)
  { t with table := Function.update table offset1 { table offset1 with occupied := false } }

/-- The loop of `l2_find_slot` that tries to move an entry of a full bucket. -/
def tryMoving (idx1 : Nat) : List Nat → Option L2Table
  | [] => none
  | i :: is =>
    let offset1 := t.ibToOffset idx1 i
    let idxV1 := t.primary crc (t.table offset1).addr
    let idxV2 := t.alternate crc (t.table offset1).addr
    if idxV1 = idxV2 ∨ idx1 = idxV2 then none
    else
      match t.freeIn idxV2 with
      | some j => some (t.moveEntry offset1 (t.ibToOffset idxV2 j))
      | none => tryMoving idx1 is

/-- `l2_find_slot`: the table, the bucket and the slot to use, which is the first one
after a move. -/
def l2FindSlot (addr : Mac) : Option (L2Table × Nat × Nat) :=
  let idx1 := t.primary crc addr
  match t.freeIn idx1 with
  | some i => some (t, idx1, i)
  | none => (t.tryMoving crc idx1 (List.range t.bucket)).map fun t => (t, idx1, 0)

def eexist : Int := 17
def enomem : Int := 12
def enoent : Int := 2

def l2AddEntry (addr : Mac) (gate : GateIdx) : Int × L2Table :=
  if (t.l2Find crc avx addr).isSome then (-eexist, t)
  else
    match t.l2FindSlot crc addr with
    | none => (-enomem, t)
    | some (t, index, bucket) =>
      (0, { t with
        table := Function.update t.table (t.ibToOffset index bucket)
          { addr, gate := gate.setWidth 15, occupied := true }
        count := t.count + 1 })

def l2DelEntry (addr : Mac) : Int × L2Table :=
  match t.l2FindOffset crc addr with
  | none => (-enoent, t)
  | some offset =>
    (0, { t with table := Function.update t.table offset {}, count := t.count - 1 })

/-- `l2_flush`, which leaves the count as it is. -/
def l2Flush : L2Table :=
  { t with table := fun offset => if offset < t.size * t.bucket then {} else t.table offset }

end L2Table

def image (occupied : Bool) (addr : Mac) : BitVec 64 := BitVec.ofBool occupied ++ 0#15 ++ addr

theorem toNat_image (occupied : Bool) (addr : Mac) :
    (image occupied addr).toNat = occupied.toNat * 2 ^ 63 + addr.toNat := by
  rw [image, BitVec.toNat_append, BitVec.toNat_append,
    ← Nat.shiftLeft_add_eq_or_of_lt addr.isLt]
  cases occupied <;> simp [Nat.shiftLeft_eq]

variable {addr : Mac}

theorem image_inj {b b' : Bool} {addr' : Mac} (h : image b addr = image b' addr') :
    b = b' ∧ addr = addr' := by
  have hnat := congrArg BitVec.toNat h
  rw [toNat_image, toNat_image] at hnat
  have hlt := addr.isLt
  have hlt' := addr'.isLt
  refine ⟨?_, BitVec.eq_of_toNat_eq ?_⟩
  · cases b <;> cases b' <;> simp at hnat ⊢ <;> omega
  · cases b <;> cases b' <;> simp at hnat ⊢ <;> omega

theorem key_eq_image (addr : Mac) :
    addr.setWidth 64 ||| (1#64 <<< 63) = image true addr := by
  have hshift : (1#64 <<< 63 : BitVec 64) = image true 0 := by decide
  have hwide : addr.setWidth 64 = image false addr := by
    apply BitVec.eq_of_toNat_eq
    rw [toNat_image]
    simp
    omega
  rw [hshift, hwide, image, image, BitVec.or_append, BitVec.or_append]
  simp [image]

theorem masked_entry (e : L2Entry) :
    e.entry &&& 0x8000ffffffffffff#64 = image e.occupied e.addr := by
  have hmask : (0x8000ffffffffffff#64 : BitVec 64) =
      BitVec.ofBool true ++ 0#15 ++ BitVec.allOnes 48 := by decide
  rw [hmask, L2Entry.entry, BitVec.and_append, BitVec.and_append, BitVec.and_allOnes,
    BitVec.and_zero, image]
  cases e.occupied <;> rfl

theorem isNaN_image (occupied : Bool) (addr : Mac) : isNaN (image occupied addr) = false := by
  have hmask : (0x7ff0000000000000#64 : BitVec 64) = BitVec.ofBool false ++ 0x7ff0#15 ++ 0#48 := by
    decide
  have hexponent : image occupied addr &&& 0x7ff0000000000000#64 = 0#64 := by
    rw [hmask, image, BitVec.and_append, BitVec.and_append, BitVec.and_zero, BitVec.zero_and]
    cases occupied <;> rfl
  rw [isNaN, hexponent]
  rfl

theorem image_shiftLeft {occupied : Bool} (h : image occupied addr <<< 1 = 0#64) :
    addr = 0 := by
  have hnat := congrArg BitVec.toNat h
  have hlt := addr.isLt
  rw [BitVec.toNat_shiftLeft, toNat_image, Nat.shiftLeft_eq] at hnat
  apply BitVec.eq_of_toNat_eq
  cases occupied <;> simp at hnat ⊢ <;> omega

theorem doubleEq_image (haddr : addr ≠ 0) (occupied : Bool) (addr' : Mac) :
    doubleEq (image true addr) (image occupied addr') =
      (image true addr == image occupied addr') := by
  have hshift : (image true addr <<< 1 == 0#64) = false := by
    rw [beq_eq_false_iff_ne]
    exact fun h => haddr (image_shiftLeft h)
  rw [doubleEq, isNaN_image, isNaN_image, hshift]
  simp

/-- The comparison finds an occupied entry with the address, for the vector instructions
unless the address is zero. -/
theorem matchWord_entry {avx : Bool} (h : avx = false ∨ addr ≠ 0) (e : L2Entry) :
    matchWord avx addr e.entry = (e.occupied && addr == e.addr) := by
  have hword : matchWord avx addr e.entry = (image true addr == image e.occupied e.addr) := by
    rw [matchWord, masked_entry, key_eq_image]
    cases avx with
    | false => rfl
    | true => exact doubleEq_image (h.resolve_left nofun) e.occupied e.addr
  rw [hword]
  apply Bool.eq_iff_iff.mpr
  simp only [beq_iff_eq, Bool.and_eq_true]
  constructor
  · intro h
    exact ⟨(image_inj h).1.symm, (image_inj h).2⟩
  · rintro ⟨hoccupied, rfl⟩
    rw [hoccupied]

theorem matchWord_zero {avx : Bool} (h : avx = false ∨ addr ≠ 0) :
    matchWord avx addr 0 = false := by
  have hempty : (0 : BitVec 64) = L2Entry.entry {} := by decide
  rw [hempty, matchWord_entry h]
  rfl

theorem findIndex_words {avx : Bool} (h : avx = false ∨ addr ≠ 0) (t : L2Table)
    (offset : Nat) : findIndex avx addr (t.words offset) =
      if (t.table offset).occupied && addr == (t.table offset).addr then 1 else 0 := by
  rw [findIndex, L2Table.words]
  simp only [List.findIdx?_cons, matchWord_entry h, matchWord_zero h, List.findIdx?_nil]
  split <;> simp_all

end Upf.Bess.L2
