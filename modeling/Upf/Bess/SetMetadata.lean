import Mathlib.Algebra.Order.Ring.Nat
import Upf.Bess.ExactMatchInit

/-!
# Shifted bytes in metadata

Bytes are shifted in words of eight that overlap by the shift, or at once.  A module that
sets metadata shifts and masks what it copies from a packet.

Memory is little-endian.  A loop that need not end takes the number of rounds it may make.

Main result: `chunked_shifts_iff`.
-/

namespace Upf.Bess

open Lib List Option Nat

def memmove (dst src n : Nat) (m : Buffer) : Buffer := fun i =>
  if dst ≤ i ∧ i < dst + n then m (i - dst + src) else m i

def memset (dst : Nat) (value : UInt8) (n : Nat) (m : Buffer) : Buffer := fun i =>
  if dst ≤ i ∧ i < dst + n then value else m i

/-- Change the word of 64 bits at an address. -/
def onBlock (f : Nat → Nat) (pos : Nat) (m : Buffer) : Buffer :=
  m.write pos (leBytes 8 (f (ofLE (m.read pos 8))))

def shiftBytesLeftSmall (buf len shift : Nat) (m : Buffer) : Buffer :=
  let shift := min shift len
  memset (buf + len - shift) 0 shift (memmove buf (buf + shift) (len - shift) m)

def shiftBytesRightSmall (buf len shift : Nat) (m : Buffer) : Buffer :=
  let shift := min shift len
  memset buf 0 shift (memmove (buf + shift) buf (len - shift) m)

/-- The loop of `ShiftBytesLeft`; `tmp` is how far the window is from the buffer's start. -/
def shiftLeftLoop (buf len shift : Nat) : Nat → Nat → Buffer → Option (Nat × Buffer)
  | 0, _, _ => none
  | fuel + 1, tmp, m =>
    if 8 ≤ len - tmp then
      shiftLeftLoop buf len shift fuel (tmp + (8 - shift))
        (onBlock (· >>> (shift * 8 % 64)) (buf + tmp) m)
    else some (tmp, m)

def shiftBytesLeft (buf len shift fuel : Nat) (m : Buffer) : Option Buffer :=
  if len < 8 ∨ 8 < shift then some (shiftBytesLeftSmall buf len shift m)
  else
    (shiftLeftLoop buf len shift fuel 0 m).map fun r =>
      if shift < len - r.1 then
        memset (buf + len - shift) 0 shift
          (memmove (buf + r.1) (buf + r.1 + shift) (len - r.1 - shift) r.2)
      else r.2

/-- The loop of `ShiftBytesRight`, which may leave the window before the buffer. -/
def shiftRightLoop (buf shift : Nat) : Nat → Int → Nat → Buffer → Option (Nat × Buffer)
  | 0, _, _, _ => none
  | fuel + 1, tmp, leftover, m =>
    if 0 ≤ tmp then
      shiftRightLoop buf shift fuel (tmp - (8 - shift : Nat)) (leftover - (8 - shift))
        (onBlock (· <<< (shift * 8 % 64)) (buf + tmp.toNat) m)
    else some (leftover, m)

def shiftBytesRight (buf len shift fuel : Nat) (m : Buffer) : Option Buffer :=
  if len < 8 ∨ 8 < shift then some (shiftBytesRightSmall buf len shift m)
  else
    (shiftRightLoop buf shift fuel (len - 8) len m).map fun r =>
      shiftBytesRightSmall buf r.1 shift r.2

/-- Apply a mask.  The source takes sixteen or eight bytes at a time where it can. -/
def maskBytes (buf : Nat) (mask : List UInt8) (len : Nat) (m : Buffer) : Buffer := fun i =>
  if buf ≤ i ∧ i < buf + len then m i &&& mask.getD (i - buf) 0 else m i

inductive AttributeValue where
  | valueInt (value : UInt64)
  | valueBin (bytes : List UInt8)
  | notSet
deriving DecidableEq

structure SetMetadataAttribute where
  name : String
  size : Nat
  value : AttributeValue
  offset : Int
  mask : List UInt8
  rshiftBits : Int
deriving DecidableEq

structure SetMetadata.Attr where
  name : String
  value : List UInt8
  mask : List UInt8
  offset : Int
  size : Nat
  doMask : Bool
  shift : Int
deriving DecidableEq

def snbufData : Nat := 2048

namespace SetMetadata

/-- The value of an attribute and where it is copied from, `-1` if it is given.  What is not
set stays as it was. -/
def valueOf (attr : SetMetadataAttribute) : Except String (List UInt8 × Int) :=
  match attr.value with
  | .valueInt value =>
    let (bytes, rest) := uint64ToBin attr.size value
    if rest ≠ 0 then .error s!"'value_int' field has not a correct {attr.size}-byte value"
    else .ok (bytes.reverse, -1)
  | .valueBin bytes =>
    if bytes.length ≠ attr.size then
      .error s!"'value_bin' field has not a correct {attr.size}-byte value"
    else .ok (bytes, -1)
  | .notSet =>
    let rshiftBytes := attr.rshiftBits.tdiv 8
    if attr.offset < 0 ∨ snbufData ≤ attr.offset + attr.size then .error "invalid packet offset"
    else if rshiftBytes * 8 ≠ attr.rshiftBits then .error "'rshift_bits' must be a multiple of 8"
    else if attr.size ≤ rshiftBytes.natAbs then
      .error s!"'rshift_bits' must be in (-{8 * attr.size}, {8 * attr.size})"
    else if attr.mask ≠ [] ∧ attr.mask.length ≠ attr.size then
      .error s!"'mask' field has not a correct {attr.size}-byte value"
    else .ok ([], attr.offset)

/-- Check an attribute and add it; an error has a number and a text. -/
def addAttrOne (addMetadataAttr : String → Nat → Int) (attr : SetMetadataAttribute) :
    Except (Int × String) Attr :=
  if attr.name.isEmpty then .error (22, "'name' field is missing")
  else if attr.size < 1 ∨ kMetadataAttrMaxSize < attr.size then
    .error (22, s!"'size' must be 1-{kMetadataAttrMaxSize}")
  else if attr.mask ≠ [] ∧ attr.offset < 0 then
    .error (22, "'mask' may only be set when copying metadata from a packet.")
  else if attr.rshiftBits ≠ 0 ∧ attr.offset < 0 then
    .error (22, "'rshift_bits' may only be set when copying metadata from a packet.")
  else
    match valueOf attr with
    | .error message => .error (22, message)
    | .ok (value, offset) =>
      if addMetadataAttr attr.name attr.size < 0 then
        .error (-addMetadataAttr attr.name attr.size, "add_metadata_attr() failed")
      else .ok {
        name := attr.name, value, mask := attr.mask, offset, size := attr.size
        doMask := attr.mask ≠ [], shift := attr.rshiftBits.tdiv 8 }

/-- The shift of a copy, to the right if it is positive. -/
def shiftBytes (buf len : Nat) (shift : Int) (fuel : Nat) (m : Buffer) : Option Buffer :=
  if shift = 0 then some m
  else if 0 < shift then shiftBytesRight buf len shift.toNat fuel m
  else shiftBytesLeft buf len (-shift).toNat fuel m

/-- Copy an attribute from the data of a packet to its place in the metadata. -/
def copyFromPacket (attr : Attr) (data : Buffer) (mtPtr fuel : Nat) (m : Buffer) : Option Buffer :=
  (shiftBytes mtPtr attr.size attr.shift fuel
    (m.write mtPtr (data.read attr.offset.toNat attr.size))).map fun m =>
      if attr.doMask then maskBytes mtPtr attr.mask attr.size m else m

/-- The byte of the packet that many bytes before, zero if it is not copied, and masked. -/
def expectedByte (attr : SetMetadataAttribute) (data : Buffer) (k : Nat) : UInt8 :=
  let index : Int := k - attr.rshiftBits / 8
  (if 0 ≤ index ∧ index < attr.size then data (attr.offset + index).toNat else 0) &&&
    if attr.mask = [] then 255 else attr.mask.getD k 0

end SetMetadata

section

variable {buf len shift : Nat} {m : Buffer}

theorem ofLE_shiftRight (bs : List UInt8) (s : Nat) : ofLE bs >>> (s * 8) = ofLE (bs.drop s) := by
  induction s generalizing bs with
  | zero => simp
  | succ s ih =>
    cases bs with
    | nil => simp [ofLE]
    | cons b bs =>
      have hb := b.toNat_lt
      rw [drop_succ_cons, ← ih, ofLE, show (s + 1) * 8 = 8 + s * 8 by omega,
        Nat.shiftRight_add, Nat.shiftRight_eq_div_pow _ 8]
      congr 1
      omega

theorem ofLE_shiftLeft (bs : List UInt8) (s : Nat) :
    ofLE bs <<< (s * 8) = ofLE (List.replicate s 0 ++ bs) := by
  induction s with
  | zero => simp
  | succ s ih =>
    rw [replicate_succ, cons_append, ofLE, ← ih, succ_mul, Nat.shiftLeft_add]
    rw [Nat.shiftLeft_eq _ 8, Nat.mul_comm]
    simp

theorem shiftBytesLeftSmall_apply (buf len shift : Nat) (m : Buffer) (i : Nat) :
    shiftBytesLeftSmall buf len shift m i =
      if buf ≤ i ∧ i < buf + len then if i + shift < buf + len then m (i + shift) else 0
      else m i := by
  simp only [shiftBytesLeftSmall, memset, memmove]
  split_ifs <;> first | rfl | omega | (congr 1; omega)

theorem shiftBytesRightSmall_apply (buf len shift : Nat) (m : Buffer) (i : Nat) :
    shiftBytesRightSmall buf len shift m i =
      if buf ≤ i ∧ i < buf + len then if buf + shift ≤ i then m (i - shift) else 0 else m i := by
  simp only [shiftBytesRightSmall, memset, memmove]
  split_ifs <;> first | rfl | omega | (congr 1; omega)

theorem getElem?_read {pos k : Nat} (h : k < 8) : (m.read pos 8)[k]? = some (m (pos + k)) := by
  simp [Buffer.read, h]

/-- What a word of bytes leaves at an address, with zeros for those it does not have. -/
theorem write_leBytes_ofLE (pos : Nat) (m : Buffer) (bs : List UInt8) (i : Nat) :
    m.write pos (leBytes 8 (ofLE bs)) i =
      if pos ≤ i ∧ i < pos + 8 then bs[i - pos]?.getD 0 else m i := by
  rw [leBytes_ofLE, Buffer.write]
  split_ifs with hpos hin
  · rw [getElem?_take_of_lt (by omega), getElem?_append]
    split
    · rename_i hlt
      rw [getElem?_eq_getElem hlt]
      rfl
    · rename_i hge
      rw [getElem?_replicate, if_pos (by omega), getElem?_eq_none (by omega)]
      rfl
  · rw [getElem?_take, if_neg (by omega)]
    rfl
  · omega
  · rfl

theorem onBlock_shiftRight {s : Nat} (hs : s < 8) (pos : Nat) (m : Buffer) :
    onBlock (· >>> (s * 8 % 64)) pos m = shiftBytesLeftSmall pos 8 s m := by
  funext i
  rw [onBlock, mod_eq_of_lt (by omega), ofLE_shiftRight, write_leBytes_ofLE,
    shiftBytesLeftSmall_apply]
  refine if_ctx_congr Iff.rfl (fun hin => ?_) fun _ => rfl
  rw [getElem?_drop]
  split
  · rw [getElem?_read (by omega), show pos + (s + (i - pos)) = i + s by omega]
    rfl
  · rw [getElem?_eq_none (by rw [Buffer.read_length]; omega)]
    rfl

theorem onBlock_shiftLeft {s : Nat} (hs : s < 8) (pos : Nat) (m : Buffer) :
    onBlock (· <<< (s * 8 % 64)) pos m = shiftBytesRightSmall pos 8 s m := by
  funext i
  rw [onBlock, mod_eq_of_lt (by omega), ofLE_shiftLeft, write_leBytes_ofLE,
    shiftBytesRightSmall_apply]
  refine if_ctx_congr Iff.rfl (fun hin => ?_) fun _ => rfl
  split
  · rw [getElem?_append_right (by rw [length_replicate]; omega), length_replicate,
      getElem?_read (by omega), show pos + (i - pos - s) = i - s by omega]
    rfl
  · rw [getElem?_append_left (by rw [length_replicate]; omega),
      getElem?_replicate, if_pos (by omega)]
    rfl

/-- A window that overlaps what is shifted by the shift finds zeros there. -/
theorem shiftBytesLeftSmall_append (b p : Nat) {n s : Nat} (h : s ≤ n) (m : Buffer) :
    shiftBytesLeftSmall (b + p) n s (shiftBytesLeftSmall b (p + s) s m) =
      shiftBytesLeftSmall b (p + n) s m := by
  funext i
  simp only [shiftBytesLeftSmall_apply]
  split_ifs <;> first | rfl | omega

theorem shiftBytesRightSmall_append (b p : Nat) {n s : Nat} (h : s ≤ n) (m : Buffer) :
    shiftBytesRightSmall b (p + s) s (shiftBytesRightSmall (b + p) n s m) =
      shiftBytesRightSmall b (p + n) s m := by
  funext i
  simp only [shiftBytesRightSmall_apply]
  split_ifs <;> first | rfl | omega

theorem shiftLeftLoop_ends (buf : Nat) (m : Buffer) (hshift : shift < 8) (fuel tmp : Nat)
    (h : tmp + shift ≤ len) (hfuel : len - tmp < fuel) :
    ∃ tmp', tmp' + shift ≤ len ∧
      shiftLeftLoop buf len shift fuel tmp (shiftBytesLeftSmall buf (tmp + shift) shift m) =
        some (tmp', shiftBytesLeftSmall buf (tmp' + shift) shift m) := by
  induction fuel generalizing tmp with
  | zero => omega
  | succ fuel ih =>
    rw [shiftLeftLoop]
    split_ifs with hlen
    · rw [onBlock_shiftRight hshift, shiftBytesLeftSmall_append buf tmp (by omega),
        show tmp + 8 = tmp + (8 - shift) + shift by omega]
      exact ih _ (by omega) (by omega)
    · exact ⟨tmp, h, rfl⟩

/-- A window of eight bytes that moves by none of them stays where it is. -/
theorem shiftLeftLoop_stuck (hlen : 8 ≤ len) (fuel : Nat) (m : Buffer) :
    shiftLeftLoop buf len 8 fuel 0 m = none := by
  induction fuel generalizing m with
  | zero => rfl
  | succ fuel ih =>
    rw [shiftLeftLoop, if_pos (by omega)]
    exact ih _

theorem shiftRightLoop_stuck {tmp : Int} (htmp : 0 ≤ tmp) (fuel leftover : Nat) (m : Buffer) :
    shiftRightLoop buf 8 fuel tmp leftover m = none := by
  induction fuel generalizing m leftover with
  | zero => rfl
  | succ fuel ih =>
    rw [shiftRightLoop, if_pos htmp, Nat.sub_self, Int.natCast_zero, Int.sub_zero]
    exact ih _ _

theorem shiftRightLoop_ends (buf : Nat) (m : Buffer) (hshift : shift < 8) (fuel p : Nat)
    (h : p + shift ≤ len) (hfuel : p < fuel) :
    ∃ p', p' + shift ≤ len ∧
      shiftRightLoop buf shift fuel (p + shift - 8) (p + shift)
          (shiftBytesRightSmall (buf + p) (len - p) shift m) =
        some (p' + shift, shiftBytesRightSmall (buf + p') (len - p') shift m) := by
  induction fuel generalizing p with
  | zero => omega
  | succ fuel ih =>
    rw [shiftRightLoop]
    split_ifs with hround
    · obtain ⟨q, rfl⟩ : ∃ q, p = q + (8 - shift) := ⟨p - (8 - shift), by omega⟩
      have htmp : ((q + (8 - shift) : Nat) : Int) + shift - 8 = q := by omega
      have hword := shiftBytesRightSmall_append (buf + q) (8 - shift)
        (show shift ≤ len - (q + (8 - shift)) by omega) m
      rw [Nat.sub_add_cancel hshift.le, Nat.add_assoc,
        show 8 - shift + (len - (q + (8 - shift))) = len - q by omega] at hword
      rw [htmp, Int.toNat_natCast, onBlock_shiftLeft hshift, hword,
        show (q : Int) - (8 - shift : Nat) = q + shift - 8 by omega,
        show q + (8 - shift) + shift - (8 - shift) = q + shift by omega]
      exact ih q (by omega) (by omega)
    · exact ⟨p, h, rfl⟩

/-- A shift in chunks ends as the simple one does, unless it moves words by all their bytes. -/
theorem shiftBytesLeft_ends (h : ¬(8 ≤ len ∧ shift = 8)) (m : Buffer) :
    ∃ fuel, shiftBytesLeft buf len shift fuel m = some (shiftBytesLeftSmall buf len shift m) := by
  unfold shiftBytesLeft
  split_ifs with hsmall
  · exact ⟨0, rfl⟩
  · have hshift : shift < 8 := by omega
    obtain ⟨tmp, htmp, hloop⟩ :=
      shiftLeftLoop_ends buf m hshift (len + 1) _ (show 8 - shift + shift ≤ len by omega)
        (by omega)
    refine ⟨len + 2, ?_⟩
    rw [Nat.sub_add_cancel hshift.le] at hloop
    rw [shiftLeftLoop, if_pos (by omega), onBlock_shiftRight hshift, Nat.add_zero buf, Nat.zero_add,
      hloop, map_some]
    -- What the window has not reached is moved at once.
    split_ifs with hleft
    · have htail := shiftBytesLeftSmall_append buf tmp hleft.le m
      rw [Nat.add_sub_cancel' (by omega), shiftBytesLeftSmall, min_eq_left hleft.le] at htail
      rw [← htail, show buf + tmp + (len - tmp) = buf + len by omega]
    · rw [show tmp + shift = len by omega]

theorem shiftBytesRight_ends (h : ¬(8 ≤ len ∧ shift = 8)) (m : Buffer) :
    ∃ fuel, shiftBytesRight buf len shift fuel m = some (shiftBytesRightSmall buf len shift m) := by
  unfold shiftBytesRight
  split_ifs with hsmall
  · exact ⟨0, rfl⟩
  · have hshift : shift < 8 := by omega
    obtain ⟨q, rfl⟩ : ∃ q, len = q + 8 := ⟨len - 8, by omega⟩
    obtain ⟨p, hp, hloop⟩ :=
      shiftRightLoop_ends buf m hshift (q + 1) q (show q + shift ≤ q + 8 by omega) (by omega)
    refine ⟨q + 2, ?_⟩
    rw [Nat.add_sub_cancel_left] at hloop
    rw [shiftRightLoop, if_pos (by omega), show ((q + 8 : Nat) - 8 : Int) = q by omega,
      Int.toNat_natCast, onBlock_shiftLeft hshift,
      show (q : Int) - (8 - shift : Nat) = q + shift - 8 by omega,
      show q + 8 - (8 - shift) = q + shift by omega, hloop, map_some,
      shiftBytesRightSmall_append buf p (by omega), Nat.add_sub_cancel' (by omega)]

theorem shiftBytesLeft_stuck (hlen : 8 ≤ len) (fuel : Nat) (m : Buffer) :
    shiftBytesLeft buf len 8 fuel m = none := by
  rw [shiftBytesLeft, if_neg (by omega), shiftLeftLoop_stuck hlen]
  rfl

theorem shiftBytesRight_stuck (hlen : 8 ≤ len) (fuel : Nat) (m : Buffer) :
    shiftBytesRight buf len 8 fuel m = none := by
  rw [shiftBytesRight, if_neg (by omega), shiftRightLoop_stuck (by omega)]
  rfl

end

namespace SetMetadata

theorem addAttrOne_ok {addMetadataAttr : String → Nat → Int} {arg : SetMetadataAttribute}
    {attr : Attr} (h : addAttrOne addMetadataAttr arg = .ok attr) (hoffset : 0 ≤ attr.offset) :
    attr.offset = arg.offset ∧ attr.size = arg.size ∧ attr.mask = arg.mask ∧
      (attr.doMask = true ↔ arg.mask ≠ []) ∧ arg.rshiftBits = attr.shift * 8 ∧
      attr.shift.natAbs < arg.size := by
  unfold addAttrOne at h
  split_ifs at h
  · split at h <;> cases h
  · split at h
    · cases h
    · rename_i value offset hvalue
      cases h
      unfold valueOf at hvalue
      split at hvalue
      · dsimp only at hvalue
        split_ifs at hvalue
        cases hvalue
        exact absurd hoffset (show ¬(0 : Int) ≤ -1 by decide)
      · split_ifs at hvalue
        cases hvalue
        exact absurd hoffset (show ¬(0 : Int) ≤ -1 by decide)
      · dsimp only at hvalue
        split_ifs at hvalue with hplace hbits hsize
        cases hvalue
        refine ⟨rfl, rfl, rfl, by simp, (not_not.mp hbits).symm, Nat.not_le.mp hsize⟩

theorem shiftBytes_ends (buf len : Nat) {shift : Int} (h : shift.natAbs ≠ 8) (m : Buffer) :
    ∃ fuel m', shiftBytes buf len shift fuel m = some m' ∧ ∀ i, m' i =
      if buf ≤ i ∧ i < buf + len then
        if buf ≤ i - shift ∧ i - shift < buf + len then m (i - shift).toNat else 0
      else m i := by
  unfold shiftBytes
  split_ifs with hzero hpos
  · refine ⟨0, m, rfl, fun i => ?_⟩
    rw [hzero, Int.sub_zero, Int.toNat_natCast]
    split_ifs
    · rfl
    · omega
    · rfl
  · have hshift : ¬(8 ≤ len ∧ shift.toNat = 8) := by omega
    obtain ⟨fuel, hfuel⟩ := shiftBytesRight_ends hshift m
    refine ⟨fuel, _, hfuel, fun i => ?_⟩
    rw [shiftBytesRightSmall_apply]
    refine if_ctx_congr Iff.rfl (fun hin => ?_) fun _ => rfl
    refine if_ctx_congr (by omega) (fun _ => ?_) fun _ => rfl
    rw [show (i - shift : Int).toNat = i - shift.toNat by omega]
  · have hshift : ¬(8 ≤ len ∧ (-shift).toNat = 8) := by omega
    obtain ⟨fuel, hfuel⟩ := shiftBytesLeft_ends hshift m
    refine ⟨fuel, _, hfuel, fun i => ?_⟩
    rw [shiftBytesLeftSmall_apply]
    refine if_ctx_congr Iff.rfl (fun hin => ?_) fun _ => rfl
    refine if_ctx_congr (by omega) (fun _ => ?_) fun _ => rfl
    rw [show (i - shift : Int).toNat = i + (-shift).toNat by omega]

theorem shiftBytes_stuck {buf len : Nat} {shift : Int} (h : shift.natAbs = 8) (hlen : 8 ≤ len)
    (fuel : Nat) (m : Buffer) : shiftBytes buf len shift fuel m = none := by
  obtain rfl | rfl : shift = 8 ∨ shift = -8 := by omega
  · exact shiftBytesRight_stuck hlen fuel m
  · exact shiftBytesLeft_stuck hlen fuel m

theorem write_read (m data : Buffer) (pos off len i : Nat) :
    m.write pos (data.read off len) i =
      if pos ≤ i ∧ i < pos + len then data (off + (i - pos)) else m i := by
  unfold Buffer.write Buffer.read
  split_ifs with hpos hin
  · rw [getElem?_map, getElem?_range (by omega)]
    rfl
  · rw [getElem?_eq_none (by simp; omega)]
    rfl
  · omega
  · rfl

theorem maskBytes_eq {attr : Attr} {arg : SetMetadataAttribute} (hsize : attr.size = arg.size)
    (hmask : attr.mask = arg.mask) (hdo : attr.doMask = true ↔ arg.mask ≠ []) (m : Buffer)
    (mtPtr i : Nat) :
    (if attr.doMask then maskBytes mtPtr attr.mask attr.size m else m) i =
      if mtPtr ≤ i ∧ i < mtPtr + arg.size then
        m i &&& if arg.mask = [] then 255 else arg.mask.getD (i - mtPtr) 0
      else m i := by
  by_cases hset : arg.mask = []
  · rw [if_neg (by simpa [hset] using hdo), if_pos hset,
      show (255 : UInt8) = -1 from rfl, UInt8.and_neg_one, ite_self]
  · rw [if_pos (hdo.mpr hset), if_neg hset, maskBytes, hsize, hmask]

/-- Shifts in chunks do what the simple ones do, and metadata has the shifted bytes of the
packet, unless words are shifted by all their bytes: then the loops do not end. -/
theorem chunked_shifts_iff (buf len shift : Nat) (m : Buffer) :
    ((∃ fuel, shiftBytesLeft buf len shift fuel m = some (shiftBytesLeftSmall buf len shift m)) ↔
      ¬(8 ≤ len ∧ shift = 8)) ∧
    ((∃ fuel, shiftBytesRight buf len shift fuel m =
      some (shiftBytesRightSmall buf len shift m)) ↔ ¬(8 ≤ len ∧ shift = 8)) ∧
    (∀ i, i < buf ∨ buf + len ≤ i → shiftBytesLeftSmall buf len shift m i = m i ∧
      shiftBytesRightSmall buf len shift m i = m i) ∧
    ∀ (addMetadataAttr : String → Nat → Int) (arg : SetMetadataAttribute) (attr : Attr)
      (data : Buffer) (mtPtr : Nat), addAttrOne addMetadataAttr arg = .ok attr →
      0 ≤ attr.offset →
      ((∃ fuel m', copyFromPacket attr data mtPtr fuel m = some m' ∧
        ∀ i, m' i = if mtPtr ≤ i ∧ i < mtPtr + arg.size then expectedByte arg data (i - mtPtr)
          else m i) ↔ arg.rshiftBits.natAbs ≠ 64) := by
  refine ⟨⟨?_, fun h => shiftBytesLeft_ends h m⟩, ⟨?_, fun h => shiftBytesRight_ends h m⟩, ?_, ?_⟩
  · rintro ⟨fuel, h⟩ ⟨hlen, rfl⟩
    rw [shiftBytesLeft_stuck hlen] at h
    cases h
  · rintro ⟨fuel, h⟩ ⟨hlen, rfl⟩
    rw [shiftBytesRight_stuck hlen] at h
    cases h
  · intro i hi
    rw [shiftBytesLeftSmall_apply, shiftBytesRightSmall_apply, if_neg (by omega),
      if_neg (by omega)]
    exact ⟨rfl, rfl⟩
  · intro addMetadataAttr arg attr data mtPtr hok hoffset
    obtain ⟨hoff, hsize, hmask, hdo, hbits, hshift⟩ := addAttrOne_ok hok hoffset
    unfold copyFromPacket
    by_cases hall : attr.shift.natAbs = 8
    · refine iff_of_false ?_ (by omega)
      rintro ⟨fuel, m', h, -⟩
      rw [shiftBytes_stuck hall (by omega)] at h
      cases h
    · obtain ⟨fuel, m', hfuel, hm'⟩ := shiftBytes_ends mtPtr attr.size hall
        (m.write mtPtr (data.read attr.offset.toNat attr.size))
      refine iff_of_true ⟨fuel, _, by rw [hfuel, map_some], fun i => ?_⟩ (by omega)
      rw [maskBytes_eq hsize hmask hdo, hm', hsize, write_read, write_read]
      refine if_ctx_congr Iff.rfl (fun hin => ?_) fun hout => ?_
      · rw [if_pos hin, expectedByte]
        congr 1
        refine if_ctx_congr (by omega) (fun _ => ?_) fun _ => rfl
        rw [if_pos (by omega)]
        congr 1
        omega
      · rw [if_neg hout, if_neg hout]

def nineMask : List UInt8 := [255, 240, 255, 0, 255, 255, 15, 255, 1]

/-- Nine bytes, more than a word, shifted by one and masked. -/
theorem shifted_byte_stored :
    ∃ fuel m', copyFromPacket ⟨"tag", [], nineMask, 14, 9, true, 1⟩ (fun i => UInt8.ofNat i) 0
      fuel (fun _ => 0) = some m' ∧ ∀ i, m' i = if 0 ≤ i ∧ i < 0 + 9 then
        expectedByte ⟨"tag", 9, .notSet, 14, nineMask, 8⟩ (fun i => UInt8.ofNat i) (i - 0)
      else 0 :=
  ((chunked_shifts_iff 0 0 0 fun _ => 0).2.2.2 (fun _ _ => 0)
    ⟨"tag", 9, .notSet, 14, nineMask, 8⟩ _ _ 0 rfl (by decide)).mpr (by decide)

/-- An attribute of nine bytes shifted by eight is accepted; the copy does not end. -/
theorem shift_by_word_stuck :
    (¬∃ fuel, shiftBytesLeft 0 8 8 fuel (fun _ => 1) =
      some (shiftBytesLeftSmall 0 8 8 fun _ => 1)) ∧
    addAttrOne (fun _ _ => 0) ⟨"tag", 9, .notSet, 0, [], 64⟩ =
      .ok ⟨"tag", [], [], 0, 9, false, 8⟩ ∧
    ¬∃ fuel m', copyFromPacket ⟨"tag", [], [], 0, 9, false, 8⟩ (fun _ => 1) 0 fuel (fun _ => 0) =
      some m' := by
  refine ⟨?_, rfl, ?_⟩
  · rintro ⟨fuel, h⟩
    rw [shiftBytesLeft_stuck (by decide)] at h
    cases h
  · rintro ⟨fuel, m', h⟩
    rw [copyFromPacket, shiftBytes_stuck (by decide) (by decide)] at h
    cases h

end SetMetadata

end Upf.Bess
