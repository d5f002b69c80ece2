import Upf.Bess.ExactMatch

/-!
# Setting up the exact match module

`ExactMatch::Init` declares the fields to match on, each with a mask, and the
values to write.  A mask is given as a number, in the byte order of its field, or as
a string.  A string is taken for a number first, the least significant byte being
the first; so for a field in the packet data, whose numbers are big-endian, the bytes
of the string end up in reverse order.

The registry of attributes and the creation of hash tables are parameters.
-/

namespace Upf.Bess

open Lib List

/-- Error numbers of an initialisation. -/
inductive InitErrno where
  | einval
  | enospc
  | eexist
  | enomem
deriving DecidableEq

section Arguments

variable {A : Type}

structure PbField (A : Type) where
  position : Option (FieldPosition A)
  numBytes : Nat
deriving DecidableEq

structure ExactMatchArg (A : Type) where
  fields : List (PbField A)
  masks : List FieldData := []
  values : List (PbField A) := []
  masksv : List FieldData := []
  entries : UInt64 := 0
deriving DecidableEq

/-- What an initialisation asks others for: to register an attribute of some size, and
for a hash table with keys of some size and room for some entries. -/
structure InitEnv (A : Type) where
  registerAttribute : A → Nat → Bool
  createTable : Nat → UInt64 → Bool

def kMaxAttrsPerModule : Nat := 16

def kMetadataAttrMaxSize : Nat := 32

def maxFieldSize : Nat := 8

def addMetadataAttr [DecidableEq A] (env : InitEnv A) (attrs : List A) (name : A) (size : Nat) :
    Except InitErrno (List A) :=
  if kMaxAttrsPerModule ≤ attrs.length then .error .enospc
  else if size < 1 ∨ kMetadataAttrMaxSize < size then .error .einval
  else if name ∈ attrs then .error .eexist
  else if env.registerAttribute name size then .ok (attrs ++ [name])
  else .error .einval

end Arguments

namespace ExactMatch

variable {A : Type} [DecidableEq A]

/-- The word loads of a field are masked with: all bits of the field unless there is a
mask, which is big-endian for a field in the packet data. -/
def fieldMask (position : FieldPosition A) (size : Nat) (mask : UInt64) :
    Except InitErrno (List UInt8) :=
  if mask = 0 then .ok (fullMask size)
  else
    let (bytes, rest) := uint64ToBin size mask
    if rest ≠ 0 then .error .einval
    else
      let bytes :=
        match position with
        | .attr _ => bytes
        | .offset _ => bytes.reverse
      if bytes.all (· == 0) then .error .einval
      else .ok (bytes ++ List.replicate (wordSize - size) 0)

def declareAt (env : InitEnv A) (attrs : List A) (size : Nat) :
    FieldPosition A → Except InitErrno (List A)
  | .attr name => addMetadataAttr env attrs name size
  | .offset n => if 1024 < n then .error .einval else .ok attrs

def doAddField (env : InitEnv A) (idx : Nat) (attrs : List A) (position : FieldPosition A)
    (size : Nat) (mask : UInt64) : Except InitErrno (ExactMatchField A × List A) :=
  if maxFields ≤ idx then .error .einval
  else if size < 1 ∨ maxFieldSize < size then .error .einval
  else do
    let attrs ← declareAt env attrs size position
    let mask ← fieldMask position size mask
    return ({ position, size, mask }, attrs)

def mask64 : FieldData → Except InitErrno UInt64
  | .valueInt v => .ok v
  | .valueBin b => if wordSize < b.length then .error .einval else .ok (UInt64.ofNat (ofLE b))

def addFieldOne (env : InitEnv A) (idx : Nat) (attrs : List A) (field : PbField A)
    (mask : FieldData) : Except InitErrno (ExactMatchField A × List A) := do
  let mask ← mask64 mask
  match field.position with
  | none => .error .einval
  | some position => doAddField env idx attrs position field.numBytes mask

def addFields (env : InitEnv A) : (idx : Nat) → List A → List (PbField A × FieldData) →
    Except InitErrno (List (ExactMatchField A) × List A)
  | _, attrs, [] => .ok ([], attrs)
  | idx, attrs, (field, mask) :: rest => do
      let (f, attrs) ← addFieldOne env idx attrs field mask
      let (fs, attrs) ← addFields env (idx + 1) attrs rest
      return (f :: fs, attrs)

def withMasks (fields : List (PbField A)) (masks : List FieldData) :
    List (PbField A × FieldData) :=
  if masks = [] then fields.map fun f => (f, .valueInt 0) else fields.zip masks

/-- Set up a module.  The masks of values are checked and not used; a list of them
that is too short would be read past its end. -/
def init (env : InitEnv A) (arg : ExactMatchArg A) : Except InitErrno (ExactMatch A) :=
  if arg.masks ≠ [] ∧ arg.fields.length ≠ arg.masks.length then .error .einval
  else do
    let (fields, attrs) ← addFields env 0 [] (withMasks arg.fields arg.masks)
    if arg.masksv ≠ [] ∧ arg.masksv.length < arg.values.length then .error .einval
    else do
      let (values, _) ← addFields env 0 attrs (withMasks arg.values arg.masksv)
      if env.createTable (totalKeySize (fields.map ExactMatchField.toField)) arg.entries then
        return { fields, values := values.map ExactMatchField.toField }
      else .error .enomem

/-! ## The masks of a module -/

omit [DecidableEq A]

/-- The mask an argument asks for: a number in the byte order of the field, a string
byte for byte; all bits count if it has none set. -/
def statedMask (f : Field A) : FieldData → List UInt8
  | .valueInt v =>
    if v = 0 then List.replicate f.size 0xff
    else
      match f.position with
      | .attr _ => leBytes f.size v.toNat
      | .offset _ => (leBytes f.size v.toNat).reverse
  | .valueBin b =>
    if ofLE b = 0 then List.replicate f.size 0xff
    else (b ++ List.replicate f.size 0).take f.size

def Backwards (f : Field A) (mask : FieldData) : Prop :=
  match f.position, mask with
  | .offset _, .valueBin _ => (statedMask f mask).reverse ≠ statedMask f mask
  | _, _ => False

theorem fieldMask_ok {position : FieldPosition A} {size : Nat} {mask : UInt64}
    {word : List UInt8} (h : fieldMask position size mask = .ok word) :
    ∃ bytes, bytes.length = size ∧ word = bytes ++ List.replicate (wordSize - size) 0 ∧
      bytes = statedMask ⟨position, size⟩ (.valueInt mask) := by
  unfold fieldMask at h
  dsimp only [statedMask]
  by_cases hzero : mask = 0
  · rw [if_pos hzero] at h ⊢
    cases h
    exact ⟨_, length_replicate, rfl, rfl⟩
  · rw [if_neg hzero] at h ⊢
    rcases uint64ToBin_eq size mask with ⟨hbytes, -⟩
    dsimp only at h
    rw [hbytes] at h
    split_ifs at h with hrest hall
    cases h
    cases position with
    | attr => exact ⟨_, leBytes_length _ _, rfl, rfl⟩
    | offset => exact ⟨_, (length_reverse).trans (leBytes_length _ _), rfl, rfl⟩

theorem statedMask_bin {f : Field A} {b : List UInt8} (hb : b.length ≤ wordSize) :
    statedMask f (.valueInt (UInt64.ofNat (ofLE b))) =
      match f.position with
      | .attr _ => statedMask f (.valueBin b)
      | .offset _ => (statedMask f (.valueBin b)).reverse := by
  have hlt : ofLE b < 2 ^ 64 := by
    have hpow : 256 ^ b.length ≤ 256 ^ wordSize := Nat.pow_le_pow_right (by decide) hb
    exact (ofLE_lt b).trans_le hpow
  have hnat : (UInt64.ofNat (ofLE b)).toNat = ofLE b := UInt64.toNat_ofNat_of_lt' hlt
  have hzero : UInt64.ofNat (ofLE b) = 0 ↔ ofLE b = 0 := by
    rw [← UInt64.toNat_inj, hnat]
    rfl
  unfold statedMask
  simp only [hzero, hnat, leBytes_ofLE]
  cases f.position with
  | attr => rfl
  | offset =>
    split_ifs
    · exact reverse_replicate.symm
    · rfl

structure Declared (field : PbField A) (mask : FieldData) (f : ExactMatchField A) : Prop where
  wf : f.Wf
  position : field.position = some f.position
  size : f.size = field.numBytes
  pos : 1 ≤ f.size
  /-- Its mask is the stated one, or reversed. -/
  stated : ¬ Backwards f.toField mask → f.maskBytes = statedMask f.toField mask
  backwards : Backwards f.toField mask → f.maskBytes = (statedMask f.toField mask).reverse

variable [DecidableEq A] {env : InitEnv A}
variable {attrs attrs' : List A}

theorem doAddField_eq_ok {idx : Nat} {position : FieldPosition A}
    {size : Nat} {mask : UInt64} {f : ExactMatchField A} :
    doAddField env idx attrs position size mask = .ok (f, attrs') ↔
      idx < maxFields ∧ 1 ≤ size ∧ size ≤ maxFieldSize ∧
      declareAt env attrs size position = .ok attrs' ∧
      fieldMask position size mask = .ok f.mask ∧ f.position = position ∧ f.size = size := by
  unfold doAddField
  constructor
  · intro h
    split_ifs at h with hidx hsize
    push Not at hsize
    rcases bind_ok h with ⟨attrs₁, hdeclare, h⟩
    rcases bind_ok h with ⟨word, hmask, h⟩
    cases h
    exact ⟨not_le.mp hidx, hsize.1, hsize.2, hdeclare, hmask, rfl, rfl⟩
  · rintro ⟨hidx, hone, hsize, hdeclare, hmask, rfl, rfl⟩
    rw [if_neg (not_le.mpr hidx), if_neg (by omega), hdeclare, hmask]
    rfl

theorem addFieldOne_ok {idx : Nat} {field : PbField A} {mask : FieldData}
    {f : ExactMatchField A} (h : addFieldOne env idx attrs field mask = .ok (f, attrs')) :
    Declared field mask f := by
  rcases bind_ok h with ⟨m, hm, h⟩
  cases hposition : field.position with
  | none =>
    rw [hposition] at h
    cases h
  | some position =>
    rw [hposition] at h
    rcases doAddField_eq_ok.mp h with ⟨-, hone, hword, -, hmask, hpos, hsize⟩
    rcases fieldMask_ok hmask with ⟨bytes, hlen, hf, hstated⟩
    have hbytes : f.maskBytes = bytes := by
      rw [ExactMatchField.maskBytes, hf, hsize, ← hlen, take_left]
    have hfield : f.toField = ⟨position, field.numBytes⟩ := by
      rw [← hpos, ← hsize]
    rw [← hfield] at hstated
    -- The mask by way of its number.
    have hvia : (¬ Backwards f.toField mask → bytes = statedMask f.toField mask) ∧
        (Backwards f.toField mask → bytes = (statedMask f.toField mask).reverse) := by
      cases mask with
      | valueInt =>
        cases hm
        refine ⟨fun _ => hstated, fun hback => ?_⟩
        unfold Backwards at hback
        split at hback <;> simp_all
      | valueBin =>
        dsimp only [mask64] at hm
        split_ifs at hm with hlong
        cases hm
        rw [statedMask_bin (not_lt.mp hlong)] at hstated
        unfold Backwards
        cases hp : f.toField.position with
        | attr =>
          rw [hp] at hstated
          exact ⟨fun _ => hstated, fun hback => hback.elim⟩
        | offset =>
          rw [hp] at hstated
          exact ⟨fun hsame => hstated.trans (not_not.mp hsame), fun _ => hstated⟩
    exact
      { wf := ⟨hsize.le.trans hword, by rw [hbytes, hf, hsize], by rw [hbytes, hlen, hsize]⟩
        position := hposition.trans (congrArg some hpos.symm)
        size := hsize
        pos := hone.trans_eq hsize.symm
        stated := fun hsame => hbytes.trans (hvia.1 hsame)
        backwards := fun hback => hbytes.trans (hvia.2 hback) }

theorem addFields_ok {idx : Nat} {args : List (PbField A × FieldData)}
    {fs : List (ExactMatchField A)} (h : addFields env idx attrs args = .ok (fs, attrs')) :
    List.Forall₂ (fun arg f => Declared arg.1 arg.2 f) args fs := by
  induction args generalizing idx attrs fs with
  | nil =>
    cases h
    exact .nil
  | cons arg rest ih =>
    rcases arg with ⟨field, mask⟩
    rcases bind_ok h with ⟨⟨f, attrs₁⟩, hone, h⟩
    rcases bind_ok h with ⟨⟨fs₁, attrs₂⟩, hrest, h⟩
    cases h
    exact .cons (addFieldOne_ok hone) (ih hrest)

omit [DecidableEq A] in
theorem declared_wf {args : List (PbField A × FieldData)} {fs : List (ExactMatchField A)}
    (h : List.Forall₂ (fun arg f => Declared arg.1 arg.2 f) args fs) :
    ∀ f ∈ fs, f.Wf ∧ 1 ≤ f.size := by
  induction h with
  | nil => exact fun f hf => nomatch hf
  | cons hone _ ih =>
    intro f hf
    rcases mem_cons.mp hf with rfl | hf
    · exact ⟨hone.wf, hone.pos⟩
    · exact ih f hf

theorem init_eq_ok {arg : ExactMatchArg A} {em : ExactMatch A} (h : init env arg = .ok em) :
    ∃ attrs, addFields env 0 [] (withMasks arg.fields arg.masks) = .ok (em.fields, attrs) ∧
      em.table = ∅ ∧ em.defaultGate = dropGate := by
  unfold init at h
  by_cases hmasks : arg.masks ≠ [] ∧ arg.fields.length ≠ arg.masks.length
  · rw [if_pos hmasks] at h
    cases h
  rw [if_neg hmasks] at h
  rcases bind_ok h with ⟨⟨fields, attrs⟩, hfields, h⟩
  dsimp only at h
  by_cases hmasksv : arg.masksv ≠ [] ∧ arg.masksv.length < arg.values.length
  · rw [if_pos hmasksv] at h
    cases h
  rw [if_neg hmasksv] at h
  rcases bind_ok h with ⟨⟨values, attrs₁⟩, -, h⟩
  dsimp only at h
  split_ifs at h
  cases h
  exact ⟨attrs, hfields, rfl, rfl⟩

theorem init_fields {arg : ExactMatchArg A} {em : ExactMatch A} (h : init env arg = .ok em) :
    List.Forall₂ (fun arg f => Declared arg.1 arg.2 f) (withMasks arg.fields arg.masks)
        em.fields ∧
      em.table = ∅ ∧ em.defaultGate = dropGate := by
  rcases init_eq_ok h with ⟨attrs, hfields, htable, hgate⟩
  exact ⟨addFields_ok hfields, htable, hgate⟩

end ExactMatch

end Upf.Bess
