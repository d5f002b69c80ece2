import Mathlib.Data.List.AList
import Upf.Bess.Fields
import Upf.Lib.Loop

/-!
# The ternary match module

`WildcardMatch` keeps one hash table for each mask in use, in one of sixteen
slots.  A lookup masks the packet's key with every slot's mask in turn and keeps
the entry of highest priority, a later slot winning a tie.  A slot whose last
rule goes is released with its table and its mask, and taken back by a rule of
the same mask or, when every slot has been used, by any new mask.

The hash tables are finite maps that may refuse an insertion; which ones they
refuse is a parameter.
-/

namespace Upf.Bess

open Lib List AList

abbrev GateIdx := UInt16

def maxGates : GateIdx := 8192

def dropGate : GateIdx := maxGates

def isValidGate (gate : GateIdx) : Bool := gate < maxGates || gate == dropGate

/-- Narrowing to a signed 32-bit integer. -/
def toInt32 (n : Int) : Int := n.bmod (2 ^ 32)

structure WmData where
  priority : Int
  ogate : GateIdx
  keyv : List UInt8
deriving DecidableEq

/-- A hash table of rules under one mask, by masked key. -/
abbrev WmTable := AList fun _ : List UInt8 => WmData

structure WmTuple where
  occupied : Bool := false
  ht : Option WmTable := none
  mask : List UInt8 := []

def maxTuples : Nat := 16

/-- Bytes of a key, `HASH_KEY_SIZE`. -/
def hashKeySize : Nat := maxFields * wordSize

/-- Fields whose words all lie inside a key.  `Init` bounds each field, not their number. -/
structure KeyLayout (A : Type) where
  fields : List (Field A)
  count : fields.length ≤ maxFields
  sizes : ∀ f ∈ fields, 1 ≤ f.size ∧ f.size ≤ wordSize

structure WildcardMatch (A : Type) where
  fields : List (Field A)
  values : List (Field A)
  defaultGate : GateIdx := dropGate
  tuples : List WmTuple := List.replicate maxTuples {}

structure WmRule where
  mask : List UInt8
  key : List UInt8
  data : WmData
deriving DecidableEq

def maskKey (key : Buffer) (mask : List UInt8) : List UInt8 :=
  List.zipWith (· &&& ·) (key.read 0 mask.length) mask

def WmRule.Matches (r : WmRule) (key : Buffer) : Prop := maskKey key r.mask = r.key

instance (r : WmRule) (key : Buffer) : Decidable (r.Matches key) :=
  inferInstanceAs (Decidable (maskKey key r.mask = r.key))

section Arguments

variable {A : Type}

/-- One field of a rule: value and mask in network order.  A value with a bit
outside its mask is refused. -/
def extractField (f : Field A) (value mask : FieldData) :
    Except Errno (List UInt8 × List UInt8) := do
  let v ← toWord f.size true value
  let m ← toWord f.size true mask
  if (List.zipWith (fun v m => v &&& ~~~m) v m).any (· != 0) then .error .einval
  else .ok (v.take f.size, m.take f.size)

def extractFields : List (Field A) → List FieldData → List FieldData →
    Except Errno (List UInt8 × List UInt8)
  | f :: fs, value :: values, mask :: masks => do
      let (v, m) ← extractField f value mask
      let (vs, ms) ← extractFields fs values masks
      return (v ++ vs, m ++ ms)
  | _, _, _ => .ok ([], [])

def extractKeyMask (fields : List (Field A)) (values masks : List FieldData) :
    Except Errno (List UInt8 × List UInt8) :=
  if values.length ≠ fields.length then .error .einval
  else if masks.length ≠ fields.length then .error .einval
  else do
    let (key, mask) ← extractFields fields values masks
    return (key ++ padding fields, mask ++ padding fields)

def extractValue (values : List (Field A)) (valuesv : List FieldData) :
    Except Errno (List UInt8) :=
  if valuesv.length ≠ values.length then .error .einval else extractValues values valuesv

end Arguments

namespace WildcardMatch

variable {A : Type}

def rule (wm : WildcardMatch A) (arg : WildcardMatchCommandAddArg) : Except Errno WmRule := do
  let (key, mask) ← extractKeyMask wm.fields arg.values arg.masks
  let gate := arg.gate.toUInt16
  if !isValidGate gate then .error .einval
  else
    let keyv ← extractValue wm.values arg.valuesv
    return { mask, key, data := { priority := toInt32 arg.priority, ogate := gate, keyv } }

theorem rule_ok {wm : WildcardMatch A} {arg : WildcardMatchCommandAddArg} {r : WmRule}
    (h : wm.rule arg = .ok r) :
    r.data.priority = toInt32 arg.priority ∧ extractValue wm.values arg.valuesv = .ok r.data.keyv ∧
      extractKeyMask wm.fields arg.values arg.masks = .ok (r.key, r.mask) := by
  rcases bind_ok h with ⟨⟨key, mask⟩, hkey, h⟩
  dsimp only at h
  split_ifs at h
  rcases bind_ok h with ⟨keyv, hkeyv, h⟩
  rw [← Except.ok.inj h]
  exact ⟨rfl, hkeyv, hkey⟩

def findTuple (wm : WildcardMatch A) (mask : List UInt8) : Option Nat :=
  wm.tuples.findIdx? fun t => t.occupied && t.mask == mask

def modifyTuple (wm : WildcardMatch A) (i : Nat) (f : WmTuple → WmTuple) : WildcardMatch A :=
  { wm with tuples := wm.tuples.modify i f }

/-- A slot for a mask that has none: a released one that held the same mask, an
unused one, or any released one. -/
def addTuple (wm : WildcardMatch A) (mask : List UInt8) :
    Except Errno (Nat × WildcardMatch A) :=
  match wm.tuples.findIdx? fun t => !t.occupied && t.ht.isSome && t.mask == mask with
  | some i => .ok (i, wm.modifyTuple i fun t => { t with occupied := true })
  | none =>
    match wm.tuples.findIdx? fun t => !t.occupied && t.ht.isNone with
    | some i => .ok (i, wm.modifyTuple i fun _ => { occupied := true, ht := some ∅, mask })
    | none =>
      match wm.tuples.findIdx? fun t => !t.occupied && t.ht.isSome with
      | some i => .ok (i, wm.modifyTuple i fun t => { t with occupied := true, mask })
      | none => .error .enospc

def slotFor (wm : WildcardMatch A) (mask : List UInt8) : Except Errno (Nat × WildcardMatch A) :=
  match wm.findTuple mask with
  | some i => .ok (i, wm)
  | none => wm.addTuple mask

def insertAt (room : WmTable → List UInt8 → Bool) (wm : WildcardMatch A) (i : Nat)
    (key : List UInt8) (data : WmData) : Option (WildcardMatch A) :=
  match wm.tuples[i]? with
  | some { ht := some ht, .. } =>
    if room ht key then
      some (wm.modifyTuple i fun t => { t with ht := some (ht.insert key data) })
    else none
  | _ => none

def commandAdd (room : WmTable → List UInt8 → Bool) (arg : WildcardMatchCommandAddArg)
    (wm : WildcardMatch A) : Except Errno Unit × WildcardMatch A :=
  match wm.rule arg with
  | .error e => (.error e, wm)
  | .ok r =>
    match wm.slotFor r.mask with
    | .error e => (.error e, wm)
    | .ok (i, wm) =>
      match wm.insertAt room i r.key r.data with
      -- The slot stays occupied even if its table refused the rule.
      | none => (.error .einval, wm)
      | some wm => (.ok (), wm)

/-- Take a rule out of a slot, and release the slot if it was the last. -/
def delEntry (wm : WildcardMatch A) (i : Nat) (key : List UInt8) : WildcardMatch A :=
  wm.modifyTuple i fun t =>
    let ht := t.ht.map fun ht => ht.erase key
    { t with ht, occupied := t.occupied && ht.any fun ht => !ht.keys.isEmpty }

def commandDelete (arg : WildcardMatchCommandDeleteArg) (wm : WildcardMatch A) :
    Except Errno Unit × WildcardMatch A :=
  match extractKeyMask wm.fields arg.values arg.masks with
  | .error e => (.error e, wm)
  | .ok (key, mask) =>
    match wm.findTuple mask with
    | none => (.error .enoent, wm)
    | some i => (.ok (), wm.delEntry i key)

theorem commandAdd_layout (room : WmTable → List UInt8 → Bool) (arg : WildcardMatchCommandAddArg)
    (wm : WildcardMatch A) : ∃ tuples, (wm.commandAdd room arg).2 = { wm with tuples } := by
  unfold commandAdd
  split
  · exact ⟨_, rfl⟩
  · rename_i r _
    have hslot : ∀ i wm', wm.slotFor r.mask = .ok (i, wm') →
        ∃ tuples, wm' = { wm with tuples } := by
      intro i wm' hslot
      unfold slotFor addTuple modifyTuple at hslot
      split at hslot
      · exact ⟨wm.tuples, (Prod.mk.inj (Except.ok.inj hslot)).2.symm⟩
      · split at hslot
        · exact ⟨_, (Prod.mk.inj (Except.ok.inj hslot)).2.symm⟩
        · split at hslot
          · exact ⟨_, (Prod.mk.inj (Except.ok.inj hslot)).2.symm⟩
          · split at hslot
            · exact ⟨_, (Prod.mk.inj (Except.ok.inj hslot)).2.symm⟩
            · cases hslot
    split
    · exact ⟨_, rfl⟩
    · rename_i i wm' hok
      rcases hslot i wm' hok with ⟨tuples, rfl⟩
      unfold insertAt modifyTuple
      split
      · exact ⟨_, rfl⟩
      · rename_i wm' hins
        split at hins
        · split_ifs at hins
          · exact ⟨_, (Option.some.inj hins).symm⟩
        · cases hins

theorem commandDelete_layout (arg : WildcardMatchCommandDeleteArg) (wm : WildcardMatch A) :
    ∃ tuples, (wm.commandDelete arg).2 = { wm with tuples } := by
  unfold commandDelete
  split
  · exact ⟨_, rfl⟩
  · split
    · exact ⟨_, rfl⟩
    · exact ⟨_, rfl⟩

def commandClear (wm : WildcardMatch A) : WildcardMatch A :=
  { wm with tuples := wm.tuples.map fun t =>
      if t.occupied || t.ht.isSome then { t with ht := none, occupied := false } else t }

def find (key : Buffer) (t : WmTuple) : Option WmData :=
  if t.occupied then t.ht.bind fun ht => ht.lookup (maskKey key t.mask) else none

/-- The better of two hits; the later one wins a tie. -/
def keepHigher (result : Option WmData) (entry : WmData) : Option WmData :=
  match result with
  | none => some entry
  | some r => if entry.priority ≥ r.priority then some entry else some r

def lookupBulkEntry (wm : WildcardMatch A) (key : Buffer) : Option WmData :=
  wm.tuples.foldl (fun result t =>
    match find key t with
    | none => result
    | some entry => keepHigher result entry) none

def makeKey (wm : WildcardMatch A) (pkt : Packet A) (buf : Buffer) : Buffer :=
  (buf.write ((totalKeySize wm.fields - 1) / wordSize * wordSize)
    (List.replicate wordSize 0)).layOut 0 (keyItems wm.fields pkt)

def processPacket [DecidableEq A] (wm : WildcardMatch A) (buf : Buffer) (pkt : Packet A) :
    GateIdx × Packet A :=
  match wm.lookupBulkEntry (wm.makeKey pkt buf) with
  | none => (wm.defaultGate, pkt)
  | some data => (data.ogate, setValues wm.values data.keyv pkt)

def tupleRules (t : WmTuple) : List WmRule :=
  match t.occupied, t.ht with
  | true, some ht => ht.entries.map fun e => { mask := t.mask, key := e.1, data := e.2 }
  | _, _ => []

def rules (wm : WildcardMatch A) : List WmRule := wm.tuples.flatMap tupleRules

theorem mem_tupleRules {t : WmTuple} {r : WmRule} :
    r ∈ tupleRules t ↔ t.occupied = true ∧ t.mask = r.mask ∧
      ∃ ht, t.ht = some ht ∧ ht.lookup r.key = some r.data := by
  unfold tupleRules
  split
  · rename_i ht hocc hht
    rw [mem_map]
    constructor
    · rintro ⟨e, he, rfl⟩
      exact ⟨hocc, rfl, ht, hht, mem_lookup_iff.mpr he⟩
    · rintro ⟨-, hmask, ht', hht', hlook⟩
      rw [hht, Option.some.injEq] at hht'
      subst hht'
      exact ⟨⟨r.key, r.data⟩, mem_lookup_iff.mp hlook, by rw [hmask]⟩
  · rename_i hneg
    simp only [not_mem_nil, false_iff]
    rintro ⟨hocc, -, ht, hht, -⟩
    exact hneg ht hocc hht

theorem find_eq_some_iff {key : Buffer} {t : WmTuple} {d : WmData} :
    find key t = some d ↔ ∃ r ∈ tupleRules t, r.Matches key ∧ r.data = d := by
  constructor
  · intro h
    unfold find at h
    split at h
    · rename_i hocc
      rcases Option.bind_eq_some_iff.mp h with ⟨ht, hht, hlook⟩
      exact ⟨⟨t.mask, maskKey key t.mask, d⟩, mem_tupleRules.mpr ⟨hocc, rfl, ht, hht, hlook⟩,
        rfl, rfl⟩
    · cases h
  · rintro ⟨r, hr, hmatch, rfl⟩
    rcases mem_tupleRules.mp hr with ⟨hocc, hmask, ht, hht, hlook⟩
    rw [← hmatch, ← hmask] at hlook
    simp [find, hocc, hht, hlook]

theorem keepHigher_spec (result : Option WmData) (entry : WmData) :
    ∃ b, keepHigher result entry = some b ∧ (result = some b ∨ b = entry) ∧
      entry.priority ≤ b.priority ∧ ∀ r, result = some r → r.priority ≤ b.priority := by
  cases result with
  | none => exact ⟨entry, rfl, .inr rfl, le_refl _, by simp⟩
  | some r =>
    by_cases hge : entry.priority ≥ r.priority
    · exact ⟨entry, by simp [keepHigher, hge], .inr rfl, le_refl _, by simpa using hge⟩
    · exact ⟨r, by simp [keepHigher, hge], .inl rfl, by omega, by simp⟩

theorem foldl_keepHigher_spec (hits : List WmData) (result : Option WmData)
    (h : result.isSome ∨ hits ≠ []) :
    ∃ d, hits.foldl keepHigher result = some d ∧ (result = some d ∨ d ∈ hits) ∧
      (∀ r, result = some r → r.priority ≤ d.priority) ∧
      ∀ e ∈ hits, e.priority ≤ d.priority := by
  induction hits generalizing result with
  | nil =>
    rcases Option.isSome_iff_exists.mp (h.resolve_right (by simp)) with ⟨d, rfl⟩
    exact ⟨d, rfl, .inl rfl, by simp, by simp⟩
  | cons entry rest ih =>
    rcases keepHigher_spec result entry with ⟨b, hb, hfrom, hentry, hresult⟩
    rcases ih (keepHigher result entry) (.inl (by simp [hb])) with ⟨d, hd, hmem, hle, hall⟩
    have hbd : b.priority ≤ d.priority := hle b hb
    refine ⟨d, hd, ?_, fun r hr => (hresult r hr).trans hbd, ?_⟩
    · rcases hmem with heq | hmem
      · rw [hb, Option.some.injEq] at heq
        subst heq
        rcases hfrom with hfrom | rfl
        · exact .inl hfrom
        · exact .inr mem_cons_self
      · exact .inr (mem_cons_of_mem _ hmem)
    · intro e he
      rcases mem_cons.mp he with rfl | he
      · exact hentry.trans hbd
      · exact hall e he

variable {wm : WildcardMatch A} {key : Buffer}

def hits (wm : WildcardMatch A) (key : Buffer) : List WmData := wm.tuples.filterMap (find key)

theorem lookupBulkEntry_eq (wm : WildcardMatch A) (key : Buffer) :
    wm.lookupBulkEntry key = (wm.hits key).foldl keepHigher none := by
  unfold lookupBulkEntry hits
  rw [foldl_filterMap]
  congr 1
  funext result t
  cases find key t <;> rfl

theorem mem_hits {d : WmData} : d ∈ wm.hits key ↔ ∃ r ∈ wm.rules, r.Matches key ∧ r.data = d := by
  unfold hits rules
  rw [mem_filterMap]
  constructor
  · rintro ⟨t, ht, hfind⟩
    rcases find_eq_some_iff.mp hfind with ⟨r, hr, hmatch, hdata⟩
    exact ⟨r, mem_flatMap.mpr ⟨t, ht, hr⟩, hmatch, hdata⟩
  · rintro ⟨r, hr, hmatch, hdata⟩
    rcases mem_flatMap.mp hr with ⟨t, ht, hrt⟩
    exact ⟨t, ht, find_eq_some_iff.mpr ⟨r, hrt, hmatch, hdata⟩⟩

theorem lookupBulkEntry_spec {r : WmRule} (hr : r ∈ wm.rules) (hmatch : r.Matches key) :
    ∃ best ∈ wm.rules, best.Matches key ∧ wm.lookupBulkEntry key = some best.data ∧
      ∀ r ∈ wm.rules, r.Matches key → r.data.priority ≤ best.data.priority := by
  have hhit : r.data ∈ wm.hits key := mem_hits.mpr ⟨r, hr, hmatch, rfl⟩
  rcases foldl_keepHigher_spec (wm.hits key) none (.inr (ne_nil_of_mem hhit)) with
    ⟨d, hd, hmem, -, hall⟩
  rcases mem_hits.mp (hmem.resolve_left (by simp)) with ⟨best, hbest, hbmatch, rfl⟩
  refine ⟨best, hbest, hbmatch, by rw [lookupBulkEntry_eq, hd], ?_⟩
  intro r' hr' hmatch'
  exact hall r'.data (mem_hits.mpr ⟨r', hr', hmatch', rfl⟩)

theorem lookupBulkEntry_none (h : ∀ r ∈ wm.rules, ¬ r.Matches key) :
    wm.lookupBulkEntry key = none := by
  have hnil : wm.hits key = [] := by
    rw [eq_nil_iff_forall_not_mem]
    intro d hd
    rcases mem_hits.mp hd with ⟨r, hr, hmatch, -⟩
    exact h r hr hmatch
  rw [lookupBulkEntry_eq, hnil]
  rfl

end WildcardMatch

end Upf.Bess
