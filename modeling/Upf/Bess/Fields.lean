import Upf.Datapath.Commands
import Upf.Lib.Bytes

/-!
# Packets and composite keys

What the three match modules of the datapath share: packets with metadata
attributes, the fields a module matches on, keys of concatenated fields padded to
whole words, and the encoding of command arguments as bytes.

A field is read by an 8-byte load at its place, so what follows a short field in
the packet comes along.  These trailing bytes are arbitrary here: a property of
a key holds whatever they are.
-/

namespace Upf.Bess

open Lib List

/-- Error numbers of module commands. -/
inductive Errno where
  | einval
  | enoent
  | enospc
deriving DecidableEq

def wordSize : Nat := 8

/-- Fields of at most a word each that a key has room for, `MAX_FIELDS`. -/
def maxFields : Nat := 8

def alignCeil (n : Nat) : Nat := (n + (wordSize - 1)) / wordSize * wordSize

theorem le_alignCeil (n : Nat) : n ≤ alignCeil n := by
  unfold alignCeil wordSize
  omega

section Packets

variable {A : Type}

/-- Where a field is found: a metadata attribute, or an offset in the data. -/
inductive FieldPosition (A : Type) where
  | attr (a : A)
  | offset (n : Nat)
deriving DecidableEq

/-- A field a module matches on or writes, with its size in bytes. -/
structure Field (A : Type) where
  position : FieldPosition A
  size : Nat
deriving DecidableEq

structure Packet (A : Type) where
  data : Buffer
  attr : A → List UInt8
  /-- The bytes that follow an attribute in the packet buffer. -/
  trailing : A → Buffer

namespace Packet

def buffer (pkt : Packet A) : FieldPosition A → Buffer
  | .attr a => (pkt.trailing a).write 0 (pkt.attr a)
  | .offset n => fun i => pkt.data (n + i)

def load (pkt : Packet A) (f : Field A) : List UInt8 := (pkt.buffer f.position).read 0 wordSize

def field (pkt : Packet A) (f : Field A) : List UInt8 := (pkt.load f).take f.size

@[simp] theorem load_length (pkt : Packet A) (f : Field A) : (pkt.load f).length = wordSize := by
  simp [load]

theorem field_attr {pkt : Packet A} {a : A} {size : Nat} (hsize : (pkt.attr a).length = size)
    (hword : size ≤ wordSize) : pkt.field ⟨.attr a, size⟩ = pkt.attr a := by
  have hread : ((pkt.trailing a).write 0 (pkt.attr a)).read 0 size = (pkt.attr a).take size :=
    Buffer.read_write hsize.ge
  have hsplit : wordSize = size + (wordSize - size) := by omega
  unfold field load buffer
  dsimp only
  rw [hsplit, Buffer.read_add, take_append_of_le_length (by simp), hread, take_take,
    min_self, take_of_length_le hsize.le]

variable [DecidableEq A]

def set (pkt : Packet A) (position : FieldPosition A) (bytes : List UInt8) : Packet A :=
  match position with
  | .attr a => { pkt with attr := fun a' => if a' = a then bytes else pkt.attr a' }
  | .offset n => { pkt with data := pkt.data.write n bytes }

end Packet

def setValues [DecidableEq A] : List (Field A) → List UInt8 → Packet A → Packet A
  | [], _, pkt => pkt
  | f :: fs, keyv, pkt =>
    setValues fs (keyv.drop f.size) (pkt.set f.position (keyv.take f.size))

def keyItems (fields : List (Field A)) (pkt : Packet A) : List (Nat × List UInt8) :=
  fields.map fun f => (f.size, pkt.load f)

def rawKeySize (fields : List (Field A)) : Nat := (fields.map Field.size).sum

theorem rawKeySize_cons (f : Field A) (fs : List (Field A)) :
    rawKeySize (f :: fs) = f.size + rawKeySize fs := by
  simp [rawKeySize]

theorem rawKeySize_le {fields : List (Field A)} (hsize : ∀ f ∈ fields, f.size ≤ wordSize) :
    rawKeySize fields ≤ fields.length * wordSize := by
  induction fields with
  | nil => rfl
  | cons f fs ih =>
    rw [forall_mem_cons] at hsize
    rw [rawKeySize_cons, length_cons, Nat.add_mul, Nat.one_mul, Nat.add_comm]
    exact Nat.add_le_add (ih hsize.2) hsize.1

def totalKeySize (fields : List (Field A)) : Nat := alignCeil (rawKeySize fields)

def padding (fields : List (Field A)) : List UInt8 :=
  List.replicate (totalKeySize fields - rawKeySize fields) 0

def fieldBytes (fields : List (Field A)) (pkt : Packet A) : List UInt8 :=
  fields.flatMap pkt.field

theorem read_keyItems {fields : List (Field A)} (h : ∀ f ∈ fields, f.size ≤ wordSize)
    (pkt : Packet A) (buf : Buffer) :
    (buf.layOut 0 (keyItems fields pkt)).read 0 (rawKeySize fields) = fieldBytes fields pkt := by
  have hitems : ∀ item ∈ keyItems fields pkt, item.1 ≤ item.2.length := by
    intro item hitem
    rcases mem_map.mp hitem with ⟨f, hf, rfl⟩
    simpa using h f hf
  have hread : (buf.layOut 0 (keyItems fields pkt)).read 0
      ((keyItems fields pkt).map Prod.fst).sum = _ := Buffer.read_layOut hitems
  have hsum : ((keyItems fields pkt).map Prod.fst).sum = rawKeySize fields := by
    simp [keyItems, rawKeySize, Function.comp_def]
  rw [hsum] at hread
  rw [hread, keyItems, flatMap_map]
  rfl

theorem read_totalKeySize {fields : List (Field A)} {buf : Buffer} {bytes : List UInt8}
    (hraw : buf.read 0 (rawKeySize fields) = bytes)
    (hpad : ∀ i, rawKeySize fields ≤ i → i < totalKeySize fields → buf i = 0) :
    buf.read 0 (totalKeySize fields) = bytes ++ padding fields := by
  have htotal : totalKeySize fields =
      rawKeySize fields + (totalKeySize fields - rawKeySize fields) := by
    have hle : rawKeySize fields ≤ totalKeySize fields := le_alignCeil _
    omega
  rw [htotal, Buffer.read_add, hraw]
  congr 1
  apply ext_getElem
  · simp [padding]
  · intro i h₁ h₂
    rw [Buffer.read_length] at h₁
    simp only [Buffer.read, padding, getElem_map, getElem_range, Nat.zero_add,
      getElem_replicate]
    exact hpad _ (Nat.le_add_right _ _) (by omega)

end Packets

/-- The bytes a number is written to, least significant first, and what is left
of it. -/
def uint64ToBin : (size : Nat) → UInt64 → List UInt8 × UInt64
  | 0, val => ([], val)
  | size + 1, val =>
    let (bytes, rest) := uint64ToBin size (val >>> 8)
    (val.toUInt8 :: bytes, rest)

/-- An argument as a word, with a number in one byte order or the other; a
number too large for the field is an error, and so is a byte string too large
for the word. -/
def toWord (size : Nat) (bigEndian : Bool) : FieldData → Except Errno (List UInt8)
  | .valueInt v =>
    let (bytes, rest) := uint64ToBin size v
    if rest ≠ 0 then .error .einval
    else .ok ((if bigEndian then bytes.reverse else bytes) ++
      List.replicate (wordSize - size) 0)
  | .valueBin b =>
    if wordSize < b.length then .error .einval
    else .ok (b ++ List.replicate (wordSize - b.length) 0)

theorem uint64ToBin_eq (size : Nat) (val : UInt64) :
    (uint64ToBin size val).1 = leBytes size val.toNat ∧
      (uint64ToBin size val).2.toNat = val.toNat / 256 ^ size := by
  induction size generalizing val with
  | zero => simp [uint64ToBin, leBytes]
  | succ size ih =>
    have hshift : (val >>> 8).toNat = val.toNat / 256 := by
      simp [UInt64.toNat_shiftRight, Nat.shiftRight_eq_div_pow]
    rcases ih (val >>> 8) with ⟨hbytes, hrest⟩
    rw [hshift] at hbytes hrest
    constructor
    · simp only [uint64ToBin, leBytes, hbytes]
      congr 1
    · simp only [uint64ToBin, hrest]
      rw [Nat.div_div_eq_div_mul, pow_succ, mul_comm]

theorem toWord_int {size : Nat} {bigEndian : Bool} {v : UInt64}
    (h : v.toNat < 256 ^ size) :
    toWord size bigEndian (.valueInt v) =
      .ok ((if bigEndian then (leBytes size v.toNat).reverse else leBytes size v.toNat) ++
        List.replicate (wordSize - size) 0) := by
  rcases uint64ToBin_eq size v with ⟨hbytes, hrest⟩
  rw [Nat.div_eq_of_lt h] at hrest
  have hzero : (uint64ToBin size v).2 = 0 := UInt64.toNat_inj.mp hrest
  simp only [toWord, hbytes, hzero]
  simp

def extractValues {A : Type} : List (Field A) → List FieldData → Except Errno (List UInt8)
  | f :: fs, value :: values => do
      let v ← toWord f.size false value
      let vs ← extractValues fs values
      return v.take f.size ++ vs
  | _, _ => .ok []

theorem extractValues_ints {A : Type} {fields : List (Field A)} {ns : List UInt64}
    (h : List.Forall₂ (fun f n => n.toNat < 256 ^ f.size) fields ns) :
    extractValues fields (ns.map .valueInt) =
      .ok ((fields.zip ns).flatMap fun fn => leBytes fn.1.size fn.2.toNat) := by
  induction h with
  | nil => rfl
  | @cons f n fs ns hn _ ih =>
    simp only [map_cons, extractValues, toWord_int hn, ih, bind, Except.bind, pure,
      Except.pure]
    simp

end Upf.Bess
