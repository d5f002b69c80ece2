import Upf.Bess.WildcardMatch

/-!
# The exact match module

`ExactMatch` looks up the concatenated fields of a packet in one hash table.
Each load is masked with the mask of its field before it is stored, and the last
word of the key is zeroed first.

A command may give a number for a field in an attribute that does not fit it: the
number is cut, where the other two modules refuse it.
-/

namespace Upf.Bess

open Lib List Function

structure ExactMatchField (A : Type) extends Field A where
  mask : List UInt8
deriving DecidableEq

/-- The default mask: all bits of the field count. -/
def fullMask (size : Nat) : List UInt8 :=
  List.replicate size 0xff ++ List.replicate (wordSize - size) 0

def ExactMatchField.full {A : Type} (f : Field A) : ExactMatchField A :=
  { f with mask := fullMask f.size }

structure ValueTuple where
  gate : GateIdx
  action : List UInt8
deriving DecidableEq

abbrev ExactMatchRules := AList fun _ : List UInt8 => ValueTuple

structure ExactMatch (A : Type) where
  fields : List (ExactMatchField A)
  values : List (Field A)
  defaultGate : GateIdx := dropGate
  table : ExactMatchRules := ∅

namespace ExactMatch

variable {A : Type}

def keyFields (em : ExactMatch A) : List (Field A) := em.fields.map ExactMatchField.toField

/-- The bytes of one argument, unless a number does not fit a field in the
packet data. -/
def ruleField (f : Field A) : FieldData → Option (List UInt8)
  | .valueBin b => some b
  | .valueInt v =>
    match f.position with
    | .attr _ => some (uint64ToBin f.size v).1
    | .offset _ =>
      let (bytes, rest) := uint64ToBin f.size v
      if rest ≠ 0 then none else some bytes.reverse

/-- The bytes of all arguments, up to the first that does not fit, which is left
empty. -/
def ruleFieldsFromPb : List (Field A) → List FieldData → List (List UInt8)
  | f :: fs, value :: values =>
    match ruleField f value with
    | none => [[]]
    | some bytes => bytes :: ruleFieldsFromPb fs values
  | _, _ => []

def gather (fields : List (Field A)) (rule : List (List UInt8)) : Except Errno (List UInt8) :=
  if rule.length ≠ fields.length then .error .einval
  else if (List.zip fields rule).any fun fr => fr.1.size != fr.2.length then .error .einval
  else .ok rule.flatten

def gatherKey (em : ExactMatch A) (fields : List FieldData) : Except Errno (List UInt8) := do
  if fields = [] then .error .einval
  else if fields.length ≠ em.fields.length then .error .einval
  else
    let key ← gather em.keyFields (ruleFieldsFromPb em.keyFields fields)
    return key ++ padding em.keyFields

def createValue (em : ExactMatch A) (values : List FieldData) : Except Errno (List UInt8) :=
  if values.length ≠ em.values.length then .error .einval
  else if values = [] then .ok []
  else gather em.values (ruleFieldsFromPb em.values values)

def rule (em : ExactMatch A) (arg : ExactMatchCommandAddArg) :
    Except Errno (List UInt8 × ValueTuple) := do
  let gate := arg.gate.toUInt16
  if !isValidGate gate then .error .einval
  else
    let key ← em.gatherKey arg.fields
    let action ← em.createValue arg.values
    return (key, { gate, action })

def commandAdd (room : ExactMatchRules → List UInt8 → Bool) (arg : ExactMatchCommandAddArg)
    (em : ExactMatch A) : Except Errno Unit × ExactMatch A :=
  match em.rule arg with
  | .error e => (.error e, em)
  | .ok (key, value) =>
    if room em.table key then (.ok (), { em with table := em.table.insert key value })
    else (.error .enospc, em)

def commandDelete (arg : ExactMatchCommandDeleteArg) (em : ExactMatch A) :
    Except Errno Unit × ExactMatch A :=
  match em.gatherKey arg.fields with
  | .error e => (.error e, em)
  | .ok key =>
    if key ∈ em.table then (.ok (), { em with table := em.table.erase key })
    else (.error .enoent, em)

def commandClear (em : ExactMatch A) : ExactMatch A := { em with table := ∅ }

theorem commandAdd_ok {room : ExactMatchRules → List UInt8 → Bool}
    {arg : ExactMatchCommandAddArg} {em em' : ExactMatch A}
    (h : em.commandAdd room arg = (.ok (), em')) :
    ∃ key value, em.rule arg = .ok (key, value) ∧
      em' = { em with table := em.table.insert key value } := by
  unfold commandAdd at h
  split at h
  · simp at h
  · rename_i key value hrule
    split_ifs at h
    · exact ⟨key, value, hrule, (Prod.mk.inj h).2.symm⟩
    · simp at h

theorem commandDelete_ok {arg : ExactMatchCommandDeleteArg} {em em' : ExactMatch A}
    (h : em.commandDelete arg = (.ok (), em')) :
    ∃ key, em.gatherKey arg.fields = .ok key ∧
      em' = { em with table := em.table.erase key } := by
  unfold commandDelete at h
  split at h
  · simp at h
  · rename_i key hkey
    split_ifs at h
    · exact ⟨key, hkey, (Prod.mk.inj h).2.symm⟩
    · simp at h

def maskedItems (fields : List (ExactMatchField A)) (pkt : Packet A) : List (Nat × List UInt8) :=
  fields.map fun f => (f.size, List.zipWith (· &&& ·) (pkt.load f.toField) f.mask)

def makeKey (em : ExactMatch A) (pkt : Packet A) (buf : Buffer) : List UInt8 :=
  ((buf.write ((totalKeySize em.keyFields - 1) / wordSize * wordSize)
    (List.replicate wordSize 0)).layOut 0 (maskedItems em.fields pkt)).read 0
      (totalKeySize em.keyFields)

def processPacket [DecidableEq A] (em : ExactMatch A) (buf : Buffer) (pkt : Packet A) :
    GateIdx × Packet A :=
  match em.table.lookup (em.makeKey pkt buf) with
  | none => (em.defaultGate, pkt)
  | some t => (t.gate, setValues em.values t.action pkt)

end ExactMatch

namespace ExactMatchField

variable {A : Type}

def maskBytes (f : ExactMatchField A) : List UInt8 := f.mask.take f.size

def masked (f : ExactMatchField A) (bytes : List UInt8) : List UInt8 :=
  List.zipWith (· &&& ·) bytes f.maskBytes

/-- A field fits a word, and no bit behind the field counts. -/
structure Wf (f : ExactMatchField A) : Prop where
  size_le : f.size ≤ wordSize
  mask_eq : f.mask = f.maskBytes ++ List.replicate (wordSize - f.size) 0
  maskBytes_length : f.maskBytes.length = f.size

theorem full_maskBytes (f : Field A) :
    (ExactMatchField.full f).maskBytes = List.replicate f.size 0xff := by
  simp [maskBytes, ExactMatchField.full, fullMask]

theorem Wf.full {f : Field A} (hsize : f.size ≤ wordSize) : (ExactMatchField.full f).Wf where
  size_le := hsize
  mask_eq := by rw [full_maskBytes]; rfl
  maskBytes_length := by rw [full_maskBytes, length_replicate]; rfl

variable {f : ExactMatchField A}

theorem Wf.masked_length (h : f.Wf) {bytes : List UInt8} (hlen : bytes.length = f.size) :
    (f.masked bytes).length = f.size := by
  simp [masked, hlen, h.maskBytes_length]

theorem masked_full {f : Field A} {bytes : List UInt8} (hlen : bytes.length = f.size) :
    (ExactMatchField.full f).masked bytes = bytes := by
  rw [masked, full_maskBytes, ← hlen]
  clear hlen
  induction bytes with
  | nil => rfl
  | cons b bytes ih =>
    rw [length_cons, replicate_succ, zipWith_cons_cons, ih]
    exact congrArg (· :: bytes) UInt8.and_neg_one

theorem zipWith_and_zeros (bytes : List UInt8) :
    List.zipWith (· &&& ·) bytes (List.replicate bytes.length (0 : UInt8)) =
      List.replicate bytes.length 0 := by
  induction bytes with
  | nil => rfl
  | cons b bytes ih =>
    rw [length_cons, replicate_succ, zipWith_cons_cons, ih]
    exact congrArg (· :: List.replicate bytes.length 0) UInt8.and_zero

theorem Wf.zipWith_mask (h : f.Wf) {word : List UInt8} (hword : word.length = wordSize) :
    List.zipWith (· &&& ·) word f.mask =
      f.masked (word.take f.size) ++ List.replicate (wordSize - f.size) 0 := by
  have hdrop : (word.drop f.size).length = wordSize - f.size := by
    rw [length_drop, hword]
  have htake : (word.take f.size).length = f.maskBytes.length := by
    rw [length_take, hword, h.maskBytes_length]
    exact min_eq_left h.size_le
  calc List.zipWith (· &&& ·) word f.mask
      = List.zipWith (· &&& ·) (word.take f.size ++ word.drop f.size)
          (f.maskBytes ++ List.replicate (wordSize - f.size) 0) := by
        rw [take_append_drop, ← h.mask_eq]
    _ = _ := by rw [zipWith_append htake, ← hdrop, zipWith_and_zeros, masked]

end ExactMatchField

namespace ExactMatch

variable {A : Type} {em : ExactMatch A}

def maskedFields (em : ExactMatch A) (pkt : Packet A) : List (List UInt8) :=
  em.fields.map fun f => f.masked (pkt.field f.toField)

theorem maskedItems_eq {fields : List (ExactMatchField A)} (h : ∀ f ∈ fields, f.Wf)
    (pkt : Packet A) :
    maskedItems fields pkt = fields.map fun f =>
      (f.size, f.masked (pkt.field f.toField) ++ List.replicate (wordSize - f.size) 0) := by
  apply map_congr_left
  intro f hf
  rw [(h f hf).zipWith_mask (pkt.load_length f.toField)]
  rfl

theorem field_length (pkt : Packet A) {f : Field A} (hsize : f.size ≤ wordSize) :
    (pkt.field f).length = f.size := by
  simp [Packet.field, hsize]

theorem makeKey_masked (h : ∀ f ∈ em.fields, f.Wf) (hne : 0 < rawKeySize em.keyFields)
    (pkt : Packet A) (buf : Buffer) :
    em.makeKey pkt buf = (em.maskedFields pkt).flatten ++ padding em.keyFields := by
  have hmasked : ∀ f ∈ em.fields, (f.masked (pkt.field f.toField)).length = f.size := by
    intro f hf
    exact (h f hf).masked_length (field_length pkt (h f hf).size_le)
  have hsum : ((maskedItems em.fields pkt).map Prod.fst).sum = rawKeySize em.keyFields := by
    simp [maskedItems, rawKeySize, keyFields, comp_def]
  have hitems : ∀ item ∈ maskedItems em.fields pkt,
      item.1 ≤ item.2.length ∧ ∀ j ≥ item.1, (item.2[j]?).getD 0 = 0 := by
    intro item hitem
    rw [maskedItems_eq h] at hitem
    rcases mem_map.mp hitem with ⟨f, hf, rfl⟩
    refine ⟨by simp [hmasked f hf], ?_⟩
    intro j hj
    rw [getElem?_append_right (by rw [hmasked f hf]; exact hj), getElem?_replicate]
    split <;> rfl
  unfold makeKey
  apply read_totalKeySize
  · rw [← hsum, Buffer.read_layOut fun item hitem => (hitems item hitem).1, maskedItems_eq h,
      flatMap_map, maskedFields, ← flatMap_def]
    apply flatMap_congr
    intro f hf
    rw [← hmasked f hf, take_left]
  · intro i hraw htotal
    -- The zeroed word reaches from before the padding to the end of the key.
    apply Buffer.layOut_zero fun item hitem => (hitems item hitem).2
    · unfold totalKeySize alignCeil wordSize at *
      rw [Buffer.write, if_pos (by omega), getElem?_replicate, if_pos (by omega)]
      rfl
    · rw [hsum, Nat.zero_add]
      exact hraw

theorem makeKey_eq {fields : List (Field A)} (hfull : em.fields = fields.map .full)
    (hsize : ∀ f ∈ fields, f.size ≤ wordSize) (hne : 0 < rawKeySize fields) (pkt : Packet A)
    (buf : Buffer) : em.makeKey pkt buf = fieldBytes fields pkt ++ padding fields := by
  have hkey : em.keyFields = fields := by
    simp [keyFields, hfull, comp_def, ExactMatchField.full]
  have hwf : ∀ f ∈ em.fields, f.Wf := by
    rw [hfull]
    intro f hf
    rcases mem_map.mp hf with ⟨f, hmem, rfl⟩
    exact ExactMatchField.Wf.full (hsize f hmem)
  rw [makeKey_masked hwf (by rwa [hkey]), hkey, fieldBytes, flatMap_def, maskedFields, hfull,
    map_map]
  congr 2
  apply map_congr_left
  intro f hf
  exact ExactMatchField.masked_full (field_length pkt (hsize f hf))

end ExactMatch

end Upf.Bess
