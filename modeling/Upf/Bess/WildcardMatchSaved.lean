import Upf.Bess.ExactMatchSaved
import Upf.Bess.TernaryRules

/-!
# Saving the ternary match module

`GetInitialArg` and `GetRuntimeConfig` are to give what sets up a module
like this one: the fields, the default gate, and every rule with priority, gate and
the bytes of its fields.  What rules write to packets is not among them.

The rules are sorted on their way out, so they are added in another order than they
once were, and their masks come to stand in other slots.  A lookup notices when two
rules of the same priority match.

Main result: `saved_restores`.
-/

namespace Upf.Bess

open Lib List TernaryRule Option Nat

structure WildcardMatchArg (A : Type) where
  fields : List (PbField A)
  values : List (PbField A) := []
deriving DecidableEq

structure WildcardMatchConfig where
  defaultGate : UInt64
  rules : List WildcardMatchCommandAddArg
deriving DecidableEq

namespace WildcardMatch

variable {A : Type}

section Init

variable [DecidableEq A]

def addFieldOne (env : InitEnv A) (attrs : List A) (field : PbField A) :
    Except InitErrno (Field A × List A) :=
  if field.numBytes < 1 ∨ maxFieldSize < field.numBytes then .error .einval
  else
    match field.position with
    | none => .error .einval
    | some position => do
        let attrs ← ExactMatch.declareAt env attrs field.numBytes position
        return (⟨position, field.numBytes⟩, attrs)

def addFields (env : InitEnv A) : List A → List (PbField A) →
    Except InitErrno (List (Field A) × List A)
  | attrs, [] => .ok ([], attrs)
  | attrs, field :: rest => do
      let (f, attrs) ← addFieldOne env attrs field
      let (fs, attrs) ← addFields env attrs rest
      return (f :: fs, attrs)

def init (env : InitEnv A) (arg : WildcardMatchArg A) : Except InitErrno (WildcardMatch A) := do
  let (fields, attrs) ← addFields env [] arg.fields
  let (values, _) ← addFields env attrs arg.values
  return { fields, values }

end Init

/-! ## Saving and restoring -/

def pbField (f : Field A) : PbField A where
  position := some f.position
  numBytes := f.size

def getInitialArg (wm : WildcardMatch A) : WildcardMatchArg A where
  fields := wm.fields.map pbField

def pbRule (fields : List (Field A)) (r : WmRule) : WildcardMatchCommandAddArg where
  gate := r.data.ogate.toUInt64
  priority := r.data.priority
  values := (fieldSlices fields r.key).map .valueBin
  masks := (fieldSlices fields r.mask).map .valueBin
  valuesv := []

def ruleLess (a b : WildcardMatchCommandAddArg) : Bool :=
  if a.priority ≠ b.priority then a.priority < b.priority
  else if a.gate ≠ b.gate then a.gate < b.gate
  else ((fieldsLess a.masks b.masks).or (fieldsLess a.values b.values)).getD false

def getRuntimeConfig (wm : WildcardMatch A) : WildcardMatchConfig where
  defaultGate := wm.defaultGate.toUInt64
  rules := (wm.rules.map (pbRule wm.fields)).mergeSort fun a b => !ruleLess b a

def setRuntimeConfig (room : WmTable → List UInt8 → Bool) (arg : WildcardMatchConfig)
    (wm : WildcardMatch A) : Except Errno Unit × WildcardMatch A :=
  addRules (commandAdd room) arg.rules
    { wm.commandClear with defaultGate := arg.defaultGate.toUInt16 }

inductive ModuleCommand where
  | rule (c : Command)
  | setDefaultGate (gate : UInt64)
  | setRuntimeConfig (room : WmTable → List UInt8 → Bool) (arg : WildcardMatchConfig)

def step (c : ModuleCommand) (wm : WildcardMatch A) : WildcardMatch A :=
  match c with
  | .rule c => (c.exec wm).2
  | .setDefaultGate gate => { wm with defaultGate := gate.toUInt16 }
  | .setRuntimeConfig room arg => (wm.setRuntimeConfig room arg).2

def run (cs : List ModuleCommand) (wm : WildcardMatch A) : WildcardMatch A :=
  cs.foldl (fun wm c => wm.step c) wm

/-! ## Fields that were accepted -/

section Init

variable [DecidableEq A] {env : InitEnv A}

theorem addFieldOne_again {attrs attrs' : List A} {field : PbField A} {f : Field A}
    (h : addFieldOne env attrs field = .ok (f, attrs')) :
    f.size ≤ wordSize ∧ addFieldOne env attrs (pbField f) = .ok (f, attrs') := by
  unfold addFieldOne at h
  by_cases hsize : field.numBytes < 1 ∨ maxFieldSize < field.numBytes
  · rw [if_pos hsize] at h
    cases h
  · rw [if_neg hsize] at h
    cases hposition : field.position with
    | none =>
      rw [hposition] at h
      cases h
    | some position =>
      rw [hposition] at h
      rcases bind_ok h with ⟨attrs₁, hdeclare, h⟩
      cases h
      refine ⟨not_lt.mp fun hlt => hsize (.inr hlt), ?_⟩
      have hagain : ¬ ((pbField ⟨position, field.numBytes⟩ : PbField A).numBytes < 1 ∨
          maxFieldSize < (pbField ⟨position, field.numBytes⟩ : PbField A).numBytes) := hsize
      unfold addFieldOne
      rw [if_neg hagain]
      dsimp only [pbField]
      rw [hdeclare]
      rfl

theorem addFields_again {attrs attrs' : List A} {args : List (PbField A)} {fs : List (Field A)}
    (h : addFields env attrs args = .ok (fs, attrs')) :
    (∀ f ∈ fs, f.size ≤ wordSize) ∧ addFields env attrs (fs.map pbField) = .ok (fs, attrs') := by
  induction args generalizing attrs fs with
  | nil =>
    cases h
    exact ⟨fun f hf => absurd hf not_mem_nil, rfl⟩
  | cons arg rest ih =>
    rcases bind_ok h with ⟨⟨f, attrs₁⟩, hone, h⟩
    rcases bind_ok h with ⟨⟨fs₁, attrs₂⟩, hrest, h⟩
    cases h
    rcases addFieldOne_again hone with ⟨hsize, hone⟩
    rcases ih hrest with ⟨hsizes, hrest⟩
    refine ⟨forall_mem_cons.mpr ⟨hsize, hsizes⟩, ?_⟩
    rw [map_cons]
    unfold addFields
    rw [hone]
    dsimp only [bind, Except.bind]
    rw [hrest]
    rfl

theorem init_again {arg : WildcardMatchArg A} {wm₀ wm : WildcardMatch A}
    (hinit : init env arg = .ok wm₀) (hfields : wm.fields = wm₀.fields) :
    (∀ f ∈ wm.fields, f.size ≤ wordSize) ∧
      init env wm.getInitialArg = .ok { fields := wm.fields, values := [] } ∧
      wm₀ = { fields := wm.fields, values := wm₀.values } := by
  rcases bind_ok hinit with ⟨⟨fields, attrs⟩, hadd, h⟩
  rcases bind_ok h with ⟨⟨values, attrs'⟩, -, h⟩
  cases h
  rcases addFields_again hadd with ⟨hsizes, hagain⟩
  rw [hfields]
  refine ⟨hsizes, ?_, rfl⟩
  unfold init getInitialArg
  rw [hfields, hagain]
  rfl

end Init

/-! ## Rules whose fields are extracted again -/

theorem toWord_length {size : Nat} (hsize : size ≤ wordSize) {bigEndian : Bool} {data : FieldData}
    {word : List UInt8} (h : toWord size bigEndian data = .ok word) : word.length = wordSize := by
  cases data with
  | valueInt v =>
    dsimp only [toWord] at h
    split_ifs at h
    all_goals
      cases h
      simp only [length_append, length_reverse, length_replicate,
        (uint64ToBin_eq size v).1, leBytes_length]
      omega
  | valueBin =>
    dsimp only [toWord] at h
    split_ifs at h
    cases h
    rw [length_append, length_replicate]
    omega

def outside (v m : List UInt8) : List UInt8 := List.zipWith (fun v m => v &&& ~~~m) v m

structure Extracted (size : Nat) (v m : List UInt8) : Prop where
  value : v.length = size
  mask : m.length = size
  inside : ∀ b ∈ outside v m, b = 0

theorem extractField_extracted {f : Field A} (hsize : f.size ≤ wordSize) {value mask : FieldData}
    {v m : List UInt8} (h : extractField f value mask = .ok (v, m)) : Extracted f.size v m := by
  rcases bind_ok h with ⟨v', hv, h⟩
  rcases bind_ok h with ⟨m', hm, h⟩
  split_ifs at h with hany
  cases h
  have hvlen := toWord_length hsize hv
  have hmlen := toWord_length hsize hm
  refine ⟨by rw [length_take]; omega, by rw [length_take]; omega, fun b hb => ?_⟩
  by_contra hb0
  apply hany
  rw [outside, ← take_zipWith] at hb
  exact any_eq_true.mpr ⟨b, mem_of_mem_take hb, bne_iff_ne.mpr hb0⟩

theorem extractField_bytes {f : Field A} (hsize : f.size ≤ wordSize) {v m : List UInt8}
    (h : Extracted f.size v m) : extractField f (.valueBin v) (.valueBin m) = .ok (v, m) := by
  have hword : ∀ {b : List UInt8}, b.length = f.size →
      toWord f.size true (.valueBin b) = .ok (b ++ List.replicate (wordSize - f.size) 0) := by
    intro b hb
    dsimp only [toWord]
    rw [hb, if_neg (not_lt.mpr hsize)]
  have hnone : ¬ (outside (v ++ List.replicate (wordSize - f.size) 0)
      (m ++ List.replicate (wordSize - f.size) 0)).any (· != 0) = true := by
    rw [outside, zipWith_append (h.value.trans h.mask.symm), any_append,
      zipWith_replicate', Bool.or_eq_true, not_or]
    constructor
    · intro hany
      rcases any_eq_true.mp hany with ⟨b, hb, hb0⟩
      exact absurd (h.inside b hb) (bne_iff_ne.mp hb0)
    · simp
  unfold extractField
  rw [hword h.value, hword h.mask]
  dsimp only [bind, Except.bind]
  rw [outside] at hnone
  rw [if_neg hnone, ← h.value, take_left, h.value, ← h.mask, take_left]

theorem extractFields_again {fields : List (Field A)} (hsize : ∀ f ∈ fields, f.size ≤ wordSize)
    {values masks : List FieldData} {key mask : List UInt8}
    (hvalues : values.length = fields.length) (hmasks : masks.length = fields.length)
    (h : extractFields fields values masks = .ok (key, mask)) (rest rest' : List UInt8) :
    mask.length = rawKeySize fields ∧
      extractFields fields ((fieldSlices fields (key ++ rest)).map .valueBin)
        ((fieldSlices fields (mask ++ rest')).map .valueBin) = .ok (key, mask) := by
  induction fields generalizing values masks key mask with
  | nil =>
    have hvalues := length_eq_zero_iff.mp hvalues
    subst hvalues
    cases h
    exact ⟨rfl, rfl⟩
  | cons f fs ih =>
    rcases values with - | ⟨value, values⟩
    · cases hvalues
    rcases masks with - | ⟨mask₀, masks⟩
    · cases hmasks
    rcases bind_ok h with ⟨⟨v, m⟩, hone, h⟩
    rcases bind_ok h with ⟨⟨vs, ms⟩, hrest, h⟩
    cases h
    have hf := hsize f mem_cons_self
    have hextracted := extractField_extracted hf hone
    rcases ih (fun f hf => hsize f (mem_cons_of_mem _ hf)) (Nat.succ.inj hvalues)
      (Nat.succ.inj hmasks) hrest with ⟨hms, hagain⟩
    refine ⟨?_, ?_⟩
    · rw [length_append, hextracted.mask, hms, rawKeySize_cons]
    · have hslices : ∀ b bs tail : List UInt8, b.length = f.size →
          fieldSlices (f :: fs) (b ++ bs ++ tail) = b :: fieldSlices fs (bs ++ tail) := by
        intro b bs tail hb
        rw [fieldSlices, append_assoc, ← hb, take_left, drop_left]
      rw [hslices v vs rest hextracted.value, hslices m ms rest' hextracted.mask, map_cons,
        map_cons]
      unfold extractFields
      rw [extractField_bytes hf hextracted]
      dsimp only [bind, Except.bind]
      rw [hagain]
      rfl

theorem extractKeyMask_ok {fields : List (Field A)} {values masks : List FieldData}
    {key mask : List UInt8} (h : extractKeyMask fields values masks = .ok (key, mask)) :
    ∃ vs ms, values.length = fields.length ∧ masks.length = fields.length ∧
      extractFields fields values masks = .ok (vs, ms) ∧ key = vs ++ padding fields ∧
      mask = ms ++ padding fields := by
  unfold extractKeyMask at h
  split_ifs at h with hlen hlen'
  rcases bind_ok h with ⟨⟨vs, ms⟩, hfields, h⟩
  rcases Prod.mk.inj (Except.ok.inj h) with ⟨hkey, hmask⟩
  exact ⟨vs, ms, not_not.mp hlen, not_not.mp hlen', hfields, hkey.symm, hmask.symm⟩

structure Stated (fields : List (Field A)) (r : WmRule) : Prop where
  extracted : ∃ values masks, extractKeyMask fields values masks = .ok (r.key, r.mask)
  gate : isValidGate r.data.ogate = true
  priority : toInt32 r.data.priority = r.data.priority

theorem rule_stated {wm : WildcardMatch A} {arg : WildcardMatchCommandAddArg} {r : WmRule}
    (h : wm.rule arg = .ok r) : Stated wm.fields r ∧ (stated arg r).stored = r := by
  rcases bind_ok h with ⟨⟨key, mask⟩, hkey, h⟩
  dsimp only at h
  split_ifs at h with hgate
  rcases bind_ok h with ⟨keyv, -, h⟩
  cases h
  refine ⟨⟨⟨_, _, hkey⟩, ?_, ?_⟩, rfl⟩
  · simpa using hgate
  · exact Int.bmod_bmod

def withoutValues (r : WmRule) : WmRule := { r with data := { r.data with keyv := [] } }

@[simp] theorem withoutValues_matches {r : WmRule} {key : Buffer} :
    (withoutValues r).Matches key ↔ r.Matches key := Iff.rfl

theorem fieldSlices_length (fields : List (Field A)) (bytes : List UInt8) :
    (fieldSlices fields bytes).length = fields.length := by
  induction fields generalizing bytes with
  | nil => rfl
  | cons f fs ih => rw [fieldSlices, length_cons, length_cons, ih]

theorem rule_pbRule {wm : WildcardMatch A} {r : WmRule}
    (hsize : ∀ f ∈ wm.fields, f.size ≤ wordSize) (hvalues : wm.values = [])
    (h : Stated wm.fields r) : wm.rule (pbRule wm.fields r) = .ok (withoutValues r) := by
  have hkey : extractKeyMask wm.fields (pbRule wm.fields r).values (pbRule wm.fields r).masks =
      .ok (r.key, r.mask) := by
    rcases h.extracted with ⟨values, masks, hextract⟩
    rcases extractKeyMask_ok hextract with ⟨key, mask, hlen, hlen', hfields, hk, hm⟩
    rcases extractFields_again hsize hlen hlen' hfields (padding wm.fields)
      (padding wm.fields) with ⟨-, hagain⟩
    unfold extractKeyMask pbRule
    dsimp only
    rw [length_map, length_map, fieldSlices_length, fieldSlices_length,
      if_neg (not_not.mpr rfl), if_neg (not_not.mpr rfl), hk, hm, hagain]
    rfl
  have hgate : (pbRule wm.fields r).gate.toUInt16 = r.data.ogate := UInt16.toUInt16_toUInt64 _
  have hvalue : extractValue wm.values (pbRule wm.fields r).valuesv = .ok [] := by
    rw [hvalues]
    rfl
  unfold rule
  rw [hkey]
  dsimp only [bind, Except.bind]
  rw [hgate, h.gate, hvalue]
  dsimp only [pbRule, withoutValues]
  rw [h.priority]
  rfl

/-! ## What commands keep -/

/-- Slots in order that hold rules as they were stated. -/
structure Sane (wm : WildcardMatch A) (live : List TernaryRule) : Prop where
  wf : Slots.Wf wm.tuples
  size : wm.tuples.length = maxTuples
  holds : Slots.Holds wm.tuples live
  stated : ∀ r ∈ live, Stated wm.fields r.stored

variable {wm : WildcardMatch A} {live : List TernaryRule}

theorem Sane.rules (h : Sane wm live) : ∀ r ∈ wm.rules, Stated wm.fields r := by
  intro r hr
  rcases (h.holds r).mp hr with ⟨s, hs, rfl⟩
  exact h.stated s hs

theorem Sane.plan {p : Plan} (h : Sane wm live) (hp : p.Safe wm.tuples)
    (hlive : ∀ r ∈ SlotWrite.liveAll p.writes live, Stated wm.fields r.stored) :
    Sane { wm with tuples := p.run wm.tuples } (SlotWrite.liveAll p.writes live) := by
  have hslot := getElem?_eq_getElem hp.slot_lt
  have hrun := h.wf.writes h.holds hslot (hp.safely _ hslot)
  refine ⟨hrun.1, ?_, hrun.2, hlive⟩
  exact (length_modify _ _ _).trans h.size

theorem Sane.commandAdd (h : Sane wm live) (room : WmTable → List UInt8 → Bool)
    (arg : WildcardMatchCommandAddArg) : ∃ live', Sane (wm.commandAdd room arg).2 live' := by
  have hpos : 0 < wm.tuples.length := h.size ▸ zero_lt_succ 15
  rw [commandAdd_eq_plan]
  refine ⟨_, h.plan (planAdd_safe room arg h.wf hpos) fun r hr => ?_⟩
  rw [planAdd_live room arg h.wf] at hr
  split at hr
  · rename_i q hq
    rcases mem_install.mp hr with rfl | ⟨hr, -⟩
    · rw [(rule_stated hq).2]
      exact (rule_stated hq).1
    · exact h.stated r hr
  · exact h.stated r hr

theorem Sane.commandDelete (h : Sane wm live) (arg : WildcardMatchCommandDeleteArg) :
    ∃ live', Sane (wm.commandDelete arg).2 live' := by
  have hpos : 0 < wm.tuples.length := h.size ▸ zero_lt_succ 15
  rw [commandDelete_eq_plan]
  refine ⟨_, h.plan (planDelete_safe arg h.wf hpos) fun r hr => ?_⟩
  rw [planDelete_live] at hr
  split at hr
  · exact h.stated r (mem_discard.mp hr).1
  · exact h.stated r hr

theorem Sane.of_inv (h : Classifier.Inv { wm, live := [] }) : Sane wm [] where
  wf := h.settled.toWf
  size := h.settled.size
  holds := h.holds
  stated _ hr := absurd hr not_mem_nil

def Kept (fields values : List (Field A)) (wm : WildcardMatch A) : Prop :=
  wm.fields = fields ∧ wm.values = values ∧ ∃ live, Sane wm live

variable {fields values : List (Field A)}

theorem Kept.commandAdd (h : Kept fields values wm) (room : WmTable → List UInt8 → Bool)
    (arg : WildcardMatchCommandAddArg) : Kept fields values (wm.commandAdd room arg).2 := by
  rcases h with ⟨hfields, hvalues, live, hsane⟩
  have hadd := hsane.commandAdd room arg
  rcases commandAdd_layout room arg wm with ⟨tuples, hlayout⟩
  rw [hlayout] at hadd ⊢
  exact ⟨hfields, hvalues, hadd⟩

theorem Kept.commandDelete (h : Kept fields values wm) (arg : WildcardMatchCommandDeleteArg) :
    Kept fields values (wm.commandDelete arg).2 := by
  rcases h with ⟨hfields, hvalues, live, hsane⟩
  have hdelete := hsane.commandDelete arg
  rcases commandDelete_layout arg wm with ⟨tuples, hlayout⟩
  rw [hlayout] at hdelete ⊢
  exact ⟨hfields, hvalues, hdelete⟩

theorem Kept.commandClear (h : Kept fields values wm) : Kept fields values wm.commandClear := by
  rcases h with ⟨hfields, hvalues, live, hsane⟩
  exact ⟨hfields, hvalues, [], Sane.of_inv (Classifier.Inv.cleared hsane.size)⟩

theorem Kept.setDefaultGate (h : Kept fields values wm) (gate : GateIdx) :
    Kept fields values { wm with defaultGate := gate } := by
  rcases h with ⟨hfields, hvalues, live, hsane⟩
  exact ⟨hfields, hvalues, live, hsane.wf, hsane.size, hsane.holds, hsane.stated⟩

theorem Kept.step (h : Kept fields values wm) (c : ModuleCommand) :
    Kept fields values (wm.step c) := by
  cases c with
  | rule c =>
    cases c with
    | add room arg => exact h.commandAdd room arg
    | delete arg => exact h.commandDelete arg
    | clear => exact h.commandClear
  | setDefaultGate => exact h.setDefaultGate _
  | setRuntimeConfig room arg =>
    exact addRules_invariant (Kept fields values) (fun arg wm h => h.commandAdd room arg)
      arg.rules (h.commandClear.setDefaultGate _)

theorem Kept.run (h : Kept fields values wm) (cs : List ModuleCommand) :
    Kept fields values (wm.run cs) := by
  induction cs generalizing wm with
  | nil => exact h
  | cons c cs ih => exact ih (h.step c)

/-! ## Adding the rules again -/

theorem rules_place_inj (h : Slots.Wf wm.tuples) {r r' : WmRule} (hr : r ∈ wm.rules)
    (hr' : r' ∈ wm.rules) (hplace : r.place = r'.place) : r = r' := by
  rcases Slots.mem_rules.mp hr with ⟨i, t, hslot, hmem⟩
  rcases Slots.mem_rules.mp hr' with ⟨j, u, hslot', hmem'⟩
  rcases tupleRules_mask hmem with ⟨hocc, hmask⟩
  rcases tupleRules_mask hmem' with ⟨hocc', hmask'⟩
  rcases Prod.mk.inj hplace with ⟨hm, hk⟩
  -- Both stand in the slot of their mask.
  have hij : i = j := by
    rw [← slotOf_eq h hslot hocc, ← slotOf_eq h hslot' hocc', hmask, hmask', hm]
  subst hij
  cases hslot.symm.trans hslot'
  rcases mem_tupleRules.mp hmem with ⟨-, -, ht, hht, hlookup⟩
  rcases mem_tupleRules.mp hmem' with ⟨-, -, ht', hht', hlookup'⟩
  cases hht.symm.trans hht'
  rw [hk, hlookup'] at hlookup
  cases r
  cases r'
  cases hm
  cases hk
  cases hlookup
  rfl

theorem masks_length_le (hsize : wm.tuples.length = maxTuples) {masks : List (List UInt8)}
    (hnodup : masks.Nodup) (h : ∀ mask ∈ masks, ∃ r ∈ wm.rules, r.mask = mask) :
    masks.length ≤ maxTuples := by
  have hsub : masks ⊆ wm.tuples.map WmTuple.mask := by
    intro mask hmask
    rcases h mask hmask with ⟨r, hr, rfl⟩
    rcases Slots.mem_rules.mp hr with ⟨i, t, hslot, hmem⟩
    exact mem_map.mpr ⟨t, mem_of_getElem? hslot, (tupleRules_mask hmem).2⟩
  have hle := (subperm_of_subset hnodup hsub).length_le
  rwa [length_map, hsize] at hle

theorem table_length_le {s : Classifier A} (h : s.Inv) {i : Nat} {t : WmTuple} {table : WmTable}
    (hslot : s.wm.tuples[i]? = some t) (hocc : t.occupied = true) (htable : t.ht = some table) :
    table.entries.length ≤ s.live.length := by
  have hnodup : (table.keys.map fun key => (t.mask, key)).Nodup :=
    table.keys_nodup.map fun key key' heq => (Prod.mk.inj heq).2
  have hsub : (table.keys.map fun key => (t.mask, key)) ⊆ s.live.map TernaryRule.place := by
    intro place hplace
    rcases mem_map.mp hplace with ⟨key, hkey, rfl⟩
    rcases isSome_iff_exists.mp (AList.lookup_isSome.mpr (AList.mem_keys.mpr hkey)) with
      ⟨d, hd⟩
    have hmem : (⟨t.mask, key, d⟩ : WmRule) ∈ Slots.rules s.wm.tuples :=
      Slots.mem_rules.mpr ⟨i, t, hslot, mem_tupleRules.mpr ⟨hocc, rfl, table, htable, hd⟩⟩
    rcases (h.holds _).mp hmem with ⟨r, hr, hstored⟩
    exact mem_map.mpr ⟨r, hr, congrArg WmRule.place hstored⟩
  have hle := (subperm_of_subset hnodup hsub).length_le
  rw [length_map, length_map] at hle
  exact (length_map _).ge.trans hle

variable {room : WmTable → List UInt8 → Bool}

theorem commandAdd_accepted {s : Classifier A} (h : s.Inv) {arg : WildcardMatchCommandAddArg}
    {r : WmRule} (hrule : s.wm.rule arg = .ok r)
    (hroom : ∀ table key, table.entries.length ≤ s.live.length → room table key = true)
    (hslots : (∀ r' ∈ s.live, r'.mask ≠ r.mask) →
      (s.live.map TernaryRule.mask).dedup.length ≠ maxTuples) :
    (s.wm.commandAdd room arg).1 = .ok () := by
  rw [commandAdd_eq_plan]
  unfold planAdd
  rw [hrule]
  dsimp only
  cases hws : slotWrites s.wm.tuples r.mask with
  | error =>
    rcases slotWrites_enospc hws with ⟨-, hfull⟩
    refine absurd (h.masks_of_full fun t ht => (hfull t ht).1) (hslots fun r' hr' hmask => ?_)
    rcases (h.mask_live_iff r.mask).mp ⟨r', hr', hmask⟩ with ⟨t, ht, -, hmask⟩
    exact (hfull t ht).2 hmask
  | ok p =>
    rcases p with ⟨i, ws⟩
    rcases slotWrites_ready h.settled.toWf hws with ⟨t, hslot, hocc, -, hempty, -, -⟩
    dsimp only
    -- The slot was in use, or its table is empty.
    have htakes : takes room r.key (SlotWrite.applyAll ws t) = true := by
      rcases hempty with rfl | hempty
      · rcases isSome_iff_exists.mp (h.settled.table i t hslot hocc) with ⟨table, htable⟩
        rw [applyAll_nil, takes, htable]
        exact hroom table r.key (table_length_le h hslot hocc htable)
      · rw [takes, hempty]
        exact hroom ∅ r.key (Nat.zero_le _)
    rw [hslot, any_some, htakes, if_pos rfl]

structure Refilled (wm : WildcardMatch A) (done : List WildcardMatchCommandAddArg)
    (s : Classifier A) : Prop where
  inv : s.Inv
  fields : s.wm.fields = wm.fields
  values : s.wm.values = []
  defaultGate : s.wm.defaultGate = wm.defaultGate
  rules : ∀ q, q ∈ s.wm.rules ↔
    ∃ r ∈ wm.rules, pbRule wm.fields r ∈ done ∧ withoutValues r = q
  count : s.live.length ≤ done.length

theorem Refilled.add {done : List WildcardMatchCommandAddArg} {s : Classifier A} {r : WmRule}
    (hsane : Sane wm live) (hsize : ∀ f ∈ wm.fields, f.size ≤ wordSize)
    (h : Refilled wm done s) (hr : r ∈ wm.rules)
    (hroom : ∀ table key, table.entries.length ≤ done.length → room table key = true) :
    (s.wm.commandAdd room (pbRule wm.fields r)).1 = .ok () ∧
      Refilled wm (done ++ [pbRule wm.fields r]) (s.step (.add room (pbRule wm.fields r))) := by
  have hsize' : ∀ f ∈ s.wm.fields, f.size ≤ wordSize := by
    rw [h.fields]
    exact hsize
  have hrules : ∀ r ∈ wm.rules, s.wm.rule (pbRule wm.fields r) = .ok (withoutValues r) := by
    intro r hr
    have hstated := hsane.rules r hr
    rw [← h.fields] at hstated ⊢
    exact rule_pbRule hsize' h.values hstated
  have hrule := hrules r hr
  -- The masks in use are masks of the other module, and so is the new one.
  have hslots : (∀ r' ∈ s.live, r'.mask ≠ (withoutValues r).mask) →
      (s.live.map TernaryRule.mask).dedup.length ≠ maxTuples := by
    intro hnew hfull
    have hnodup : (r.mask :: (s.live.map TernaryRule.mask).dedup).Nodup := by
      refine nodup_cons.mpr ⟨fun hmem => ?_, nodup_dedup _⟩
      rcases mem_map.mp (mem_dedup.mp hmem) with ⟨r', hr', hmask⟩
      exact hnew r' hr' hmask
    have hle := masks_length_le hsane.size hnodup fun mask hmask => ?_
    · rw [length_cons, hfull] at hle
      omega
    · rcases mem_cons.mp hmask with rfl | hmask
      · exact ⟨r, hr, rfl⟩
      · rcases mem_map.mp (mem_dedup.mp hmask) with ⟨r', hr', rfl⟩
        rcases (h.rules r'.stored).mp ((h.inv.holds _).mpr ⟨r', hr', rfl⟩) with ⟨q, hq, -, heq⟩
        exact ⟨q, hq, congrArg WmRule.mask heq⟩
  have haccepted := commandAdd_accepted h.inv hrule
    (fun table key hle => hroom table key (hle.trans h.count)) hslots
  refine ⟨haccepted, ?_⟩
  have hinv := h.inv.step (c := .add room (pbRule wm.fields r)) fun key =>
    hroom ∅ key (Nat.zero_le _)
  have hstep : s.step (.add room (pbRule wm.fields r)) =
      { wm := (s.wm.commandAdd room (pbRule wm.fields r)).2
        live := (stated (pbRule wm.fields r) (withoutValues r)).install s.live } := by
    unfold Classifier.step
    dsimp only [Command.exec, Command.live]
    rw [← Prod.mk.eta (p := s.wm.commandAdd room (pbRule wm.fields r)), haccepted, hrule]
  rw [hstep] at hinv ⊢
  have hstored := (rule_stated hrule).2
  rcases commandAdd_layout room (pbRule wm.fields r) s.wm with ⟨tuples, hlayout⟩
  refine ⟨hinv, ?_, ?_, ?_, fun q => ?_, ?_⟩
  · rw [hlayout]
    exact h.fields
  · rw [hlayout]
    exact h.values
  · rw [hlayout]
    exact h.defaultGate
  · refine (hinv.holds q).trans ⟨?_, ?_⟩
    · rintro ⟨t, ht, rfl⟩
      rcases mem_install.mp ht with rfl | ⟨ht, -⟩
      · exact ⟨r, hr, by simp, hstored.symm⟩
      · rcases (h.rules t.stored).mp ((h.inv.holds _).mpr ⟨t, ht, rfl⟩) with ⟨r', hr', hmem, heq⟩
        exact ⟨r', hr', mem_append_left _ hmem, heq⟩
    · rintro ⟨r', hr', hmem, rfl⟩
      have hnew : ∃ t ∈ (stated (pbRule wm.fields r) (withoutValues r)).install s.live,
          t.stored = withoutValues r :=
        ⟨_, mem_install.mpr (.inl rfl), hstored⟩
      rcases mem_append.mp hmem with hmem | hmem
      · rcases (h.inv.holds _).mp ((h.rules _).mpr ⟨r', hr', hmem, rfl⟩) with ⟨t, ht, heq⟩
        by_cases hplace : t.place = (withoutValues r).place
        · -- It was replaced by itself.
          have hsame : r' = r := by
            apply rules_place_inj hsane.wf hr' hr
            exact (congrArg WmRule.place heq.symm).trans hplace
          rw [hsame]
          exact hnew
        · exact ⟨t, mem_install.mpr (.inr ⟨ht, hplace⟩), heq⟩
      · have hsame := hrules r' hr'
        rw [mem_singleton.mp hmem, hrule, Except.ok.injEq] at hsame
        rw [← hsame]
        exact hnew
  · have hle := (filter_sublist
      (p := fun t => t.place ≠ (withoutValues r).place) (l := s.live)).length_le
    rw [length_append, length_singleton]
    exact succ_le_succ (hle.trans h.count)

theorem Refilled.addRules {done todo : List WildcardMatchCommandAddArg} {s : Classifier A}
    (hsane : Sane wm live) (hsize : ∀ f ∈ wm.fields, f.size ≤ wordSize) (h : Refilled wm done s)
    (htodo : ∀ arg ∈ todo, ∃ r ∈ wm.rules, pbRule wm.fields r = arg)
    (hroom : ∀ table key, table.entries.length < done.length + todo.length →
      room table key = true) :
    (addRules (WildcardMatch.commandAdd room) todo s.wm).1 = .ok () ∧
      ∃ s', s'.wm = (addRules (WildcardMatch.commandAdd room) todo s.wm).2 ∧
        Refilled wm (done ++ todo) s' := by
  induction todo generalizing done s with
  | nil =>
    rw [append_nil]
    exact ⟨rfl, s, rfl, h⟩
  | cons arg todo ih =>
    rcases htodo arg mem_cons_self with ⟨r, hr, rfl⟩
    rcases h.add hsane hsize hr fun table key hle =>
      hroom table key (hle.trans_lt (by simp)) with ⟨haccepted, hnext⟩
    have hwm : (s.step (.add room (pbRule wm.fields r))).wm =
        (s.wm.commandAdd room (pbRule wm.fields r)).2 := by
      unfold Classifier.step
      dsimp only [Command.exec]
      split <;> rename_i heq <;> rw [heq]
    have hrest := ih hnext (fun arg harg => htodo arg (mem_cons_of_mem _ harg))
      fun table key hlt => hroom table key (by simp at hlt ⊢; omega)
    rw [hwm, append_assoc] at hrest
    unfold Upf.Bess.addRules
    rw [← Prod.mk.eta (p := s.wm.commandAdd room (pbRule wm.fields r)), haccepted]
    exact hrest

theorem configure_restores (hsane : Sane wm live) (hsize : ∀ f ∈ wm.fields, f.size ≤ wordSize)
    (hroom : ∀ table key, table.entries.length < wm.rules.length → room table key = true) :
    (setRuntimeConfig room wm.getRuntimeConfig { fields := wm.fields, values := [] }).1 = .ok () ∧
      ∃ s, s.wm = (setRuntimeConfig room wm.getRuntimeConfig
          { fields := wm.fields, values := [] }).2 ∧
        Refilled wm wm.getRuntimeConfig.rules s := by
  have hcleared : Classifier.Inv (A := A)
      { wm := commandClear { fields := wm.fields, values := [] }, live := [] } :=
    Classifier.Inv.cleared rfl
  have hstart : Refilled wm [] { wm :=
      { commandClear { fields := wm.fields, values := [] } with
        defaultGate := wm.getRuntimeConfig.defaultGate.toUInt16 } } := by
    refine ⟨⟨hcleared.settled, hcleared.holds⟩, rfl, rfl, UInt16.toUInt16_toUInt64 _, fun q => ?_,
      le_refl _⟩
    refine (hcleared.holds q).trans ⟨?_, ?_⟩
    · rintro ⟨r, hr, -⟩
      exact absurd hr not_mem_nil
    · rintro ⟨r, -, hr, -⟩
      exact absurd hr not_mem_nil
  have hperm : wm.getRuntimeConfig.rules.Perm (wm.rules.map (pbRule wm.fields)) :=
    mergeSort_perm _ _
  have hlength : wm.getRuntimeConfig.rules.length = wm.rules.length := by
    rw [hperm.length_eq, length_map]
  refine hstart.addRules hsane hsize (fun arg harg => ?_) fun table key hlt => ?_
  · exact mem_map.mp (hperm.mem_iff.mp harg)
  · rw [length_nil, Nat.zero_add, hlength] at hlt
    exact hroom table key hlt

/-! ## Packets -/

theorem maskKey_makeKey (hsize : ∀ f ∈ wm.fields, f.size ≤ wordSize)
    {values masks : List FieldData} {key mask : List UInt8}
    (hvalues : values.length = wm.fields.length) (hmasks : masks.length = wm.fields.length)
    (h : extractFields wm.fields values masks = .ok (key, mask)) (pkt : Packet A) (buf : Buffer) :
    maskKey (wm.makeKey pkt buf) (mask ++ padding wm.fields) =
      List.zipWith (· &&& ·) (fieldBytes wm.fields pkt) mask ++ padding wm.fields := by
  rcases extractFields_again hsize hvalues hmasks h [] [] with ⟨hmlen, -⟩
  have hraw : (wm.makeKey pkt buf).read 0 (rawKeySize wm.fields) = fieldBytes wm.fields pkt :=
    read_keyItems hsize pkt _
  have hfieldlen : (fieldBytes wm.fields pkt).length = mask.length := by
    rw [← hraw, Buffer.read_length, hmlen]
  unfold maskKey
  rw [length_append, hmlen, Buffer.read_add, hraw, zipWith_append hfieldlen]
  congr 1
  have hzeros := ExactMatchField.zipWith_and_zeros
    ((wm.makeKey pkt buf).read (0 + rawKeySize wm.fields) (padding wm.fields).length)
  rw [Buffer.read_length] at hzeros
  unfold padding at hzeros ⊢
  rw [length_replicate] at hzeros ⊢
  exact hzeros

theorem matches_buffer {r : WmRule} (hsize : ∀ f ∈ wm.fields, f.size ≤ wordSize)
    (h : Stated wm.fields r) (pkt : Packet A) (buf buf' : Buffer) :
    r.Matches (wm.makeKey pkt buf) ↔ r.Matches (wm.makeKey pkt buf') := by
  rcases h.extracted with ⟨values, masks, hextract⟩
  rcases extractKeyMask_ok hextract with ⟨key, mask, hvalues, hmasks, hfields, -, hmask⟩
  unfold WmRule.Matches
  rw [hmask, maskKey_makeKey hsize hvalues hmasks hfields,
    maskKey_makeKey hsize hvalues hmasks hfields]

structure Highest (wm : WildcardMatch A) (key : Buffer) (r : WmRule) : Prop where
  rule : r ∈ wm.rules
  hit : r.Matches key
  highest : ∀ r' ∈ wm.rules, r'.Matches key → r'.data.priority ≤ r.data.priority

def Agreed (wm : WildcardMatch A) (key : Buffer) : Prop :=
  ∀ r r', Highest wm key r → Highest wm key r' → r.data.ogate = r'.data.ogate

theorem lookup_highest (wm : WildcardMatch A) (key : Buffer) :
    match wm.lookupBulkEntry key with
    | none => ∀ r ∈ wm.rules, ¬ r.Matches key
    | some d => ∃ r, Highest wm key r ∧ r.data = d := by
  by_cases hmatch : ∃ r ∈ wm.rules, r.Matches key
  · rcases hmatch with ⟨r, hr, hmatch⟩
    rcases lookupBulkEntry_spec hr hmatch with ⟨best, hbest, hhit, hlookup, hhighest⟩
    rw [hlookup]
    exact ⟨best, ⟨hbest, hhit, hhighest⟩, rfl⟩
  · have hnone : ∀ r ∈ wm.rules, ¬ r.Matches key := fun r hr hhit => hmatch ⟨r, hr, hhit⟩
    rw [lookupBulkEntry_none hnone]
    exact hnone

variable [DecidableEq A]

theorem Refilled.processPacket {s : Classifier A} (hsane : Sane wm live)
    (hsize : ∀ f ∈ wm.fields, f.size ≤ wordSize)
    (h : Refilled wm (wm.rules.map (pbRule wm.fields)) s) (pkt : Packet A) (buf buf' : Buffer)
    (hagreed : wm.Agreed (wm.makeKey pkt buf)) :
    (s.wm.processPacket buf' pkt).1 = (wm.processPacket buf pkt).1 ∧
      (wm.values = [] → (s.wm.processPacket buf' pkt).2 = (wm.processPacket buf pkt).2) := by
  have hkey : s.wm.makeKey pkt buf' = wm.makeKey pkt buf' := by
    unfold makeKey
    rw [h.fields]
  have hrules : ∀ q, q ∈ s.wm.rules ↔ ∃ r ∈ wm.rules, withoutValues r = q := by
    intro q
    refine (h.rules q).trans ⟨?_, ?_⟩
    · rintro ⟨r, hr, -, heq⟩
      exact ⟨r, hr, heq⟩
    · rintro ⟨r, hr, heq⟩
      exact ⟨r, hr, mem_map_of_mem hr, heq⟩
  have hmatches : ∀ r ∈ wm.rules,
      ((withoutValues r).Matches (s.wm.makeKey pkt buf') ↔ r.Matches (wm.makeKey pkt buf)) := by
    intro r hr
    rw [hkey, withoutValues_matches]
    exact matches_buffer hsize (hsane.rules r hr) pkt buf' buf
  have hspec := lookup_highest wm (wm.makeKey pkt buf)
  have hspec' := lookup_highest s.wm (s.wm.makeKey pkt buf')
  have hunwritten : ∀ keyv, setValues s.wm.values keyv pkt = pkt := by
    intro keyv
    rw [h.values]
    rfl
  unfold WildcardMatch.processPacket
  cases hlook : wm.lookupBulkEntry (wm.makeKey pkt buf) with
  | none =>
    rw [hlook] at hspec
    cases hlook' : s.wm.lookupBulkEntry (s.wm.makeKey pkt buf') with
    | none => exact ⟨h.defaultGate, fun _ => rfl⟩
    | some =>
      rw [hlook'] at hspec'
      rcases hspec' with ⟨q, hq, -⟩
      rcases (hrules q).mp hq.rule with ⟨r, hr, rfl⟩
      exact absurd ((hmatches r hr).mp hq.hit) (hspec r hr)
  | some d =>
    rw [hlook] at hspec
    rcases hspec with ⟨r, hr, rfl⟩
    cases hlook' : s.wm.lookupBulkEntry (s.wm.makeKey pkt buf') with
    | none =>
      rw [hlook'] at hspec'
      exact absurd ((hmatches r hr.rule).mpr hr.hit)
        (hspec' _ ((hrules _).mpr ⟨r, hr.rule, rfl⟩))
    | some =>
      rw [hlook'] at hspec'
      rcases hspec' with ⟨q, hq, rfl⟩
      rcases (hrules q).mp hq.rule with ⟨r', hr', rfl⟩
      have hhighest : Highest wm (wm.makeKey pkt buf) r' := by
        refine ⟨hr', (hmatches r' hr').mp hq.hit, fun r'' hr'' hhit => ?_⟩
        exact hq.highest (withoutValues r'') ((hrules _).mpr ⟨r'', hr'', rfl⟩)
          ((hmatches r'' hr'').mpr hhit)
      refine ⟨hagreed r' r hhighest hr, fun hvalues => ?_⟩
      dsimp only
      rw [hunwritten, hvalues]
      rfl

/-- However a module with at most `MAX_FIELDS` fields was set up and whatever its
commands, setting up another one with what was saved succeeds if its tables have room
for the rules.  It has the same gate for every packet the rules of highest priority agree
on, and writes the same if the module has no values. -/
theorem saved_restores (env : InitEnv A) (arg : WildcardMatchArg A) (wm₀ : WildcardMatch A)
    (hinit : init env arg = .ok wm₀) (_hcount : wm₀.fields.length ≤ maxFields)
    (cs : List ModuleCommand) (room : WmTable → List UInt8 → Bool)
    (hroom : ∀ table key, table.entries.length < (wm₀.run cs).rules.length →
      room table key = true) :
    ∃ wm', init env (wm₀.run cs).getInitialArg = .ok wm' ∧
      (setRuntimeConfig room (wm₀.run cs).getRuntimeConfig wm').1 = .ok () ∧
      ∀ (pkt : Packet A) (buf buf' : Buffer),
        (wm₀.run cs).Agreed ((wm₀.run cs).makeKey pkt buf) →
        ((setRuntimeConfig room (wm₀.run cs).getRuntimeConfig wm').2.processPacket buf' pkt).1 =
            ((wm₀.run cs).processPacket buf pkt).1 ∧
          (wm₀.values = [] →
            ((setRuntimeConfig room (wm₀.run cs).getRuntimeConfig wm').2.processPacket buf' pkt).2 =
              ((wm₀.run cs).processPacket buf pkt).2) := by
  have hfresh := (init_again hinit rfl).2.2
  have hstart : Kept wm₀.fields wm₀.values wm₀ := by
    refine ⟨rfl, rfl, [], Sane.of_inv ?_⟩
    rw [hfresh]
    exact Classifier.Inv.start
  rcases hstart.run cs with ⟨hfields, hvalues, live, hsane⟩
  rw [← hvalues]
  generalize wm₀.run cs = wm at *
  rcases init_again hinit hfields with ⟨hsize, hagain, -⟩
  rcases configure_restores hsane hsize hroom with ⟨hok, s, hs, hrefilled⟩
  refine ⟨_, hagain, hok, fun pkt buf buf' hagreed => ?_⟩
  have hall : Refilled wm (wm.rules.map (pbRule wm.fields)) s := by
    have hperm : wm.getRuntimeConfig.rules.Perm (wm.rules.map (pbRule wm.fields)) :=
      mergeSort_perm _ _
    refine ⟨hrefilled.inv, hrefilled.fields, hrefilled.values, hrefilled.defaultGate, fun q => ?_,
      hperm.length_eq ▸ hrefilled.count⟩
    rw [hrefilled.rules]
    simp only [hperm.mem_iff]
  rw [← hs]
  exact hall.processPacket hsane hsize pkt buf buf' hagreed

/-! ## Rules on one byte -/

def byteModule : WildcardMatch Unit := { fields := [⟨.offset 0, 1⟩], values := [] }

def byteArg : WildcardMatchArg Unit where
  fields := [⟨some (.offset 0), 1⟩]

def halfAndByte (priority : Int) : List ModuleCommand :=
  [.rule (Classifier.byteRule 1 2 0x05 0x0f), .rule (Classifier.byteRule priority 1 0x05 0xff)]

/-- Two rules of different priority that match the same packet. -/
theorem saved_restores_byte :
    ∃ wm', init ExactRules.grantAll (byteModule.run (halfAndByte 2)).getInitialArg = .ok wm' ∧
      ((setRuntimeConfig (fun _ _ => true) (byteModule.run (halfAndByte 2)).getRuntimeConfig
        wm').2.processPacket (fun _ => 0) (ExactRules.bytesPacket 0x05)).1 = 1 := by
  rcases saved_restores ExactRules.grantAll byteArg byteModule rfl (by decide) (halfAndByte 2)
    (fun _ _ => true) (fun _ _ _ => rfl) with ⟨wm', hinit, -, hsame⟩
  refine ⟨wm', hinit, (hsame _ (fun _ => 0) _ ?_).1.trans (by decide)⟩
  have hrules : (byteModule.run (halfAndByte 2)).rules =
      [⟨[0x0f, 0, 0, 0, 0, 0, 0, 0], [0x05, 0, 0, 0, 0, 0, 0, 0], ⟨1, 2, []⟩⟩,
        ⟨[0xff, 0, 0, 0, 0, 0, 0, 0], [0x05, 0, 0, 0, 0, 0, 0, 0], ⟨2, 1, []⟩⟩] := by decide
  -- Only the rule for the whole byte is of highest priority.
  have honly : ∀ r, Highest (byteModule.run (halfAndByte 2))
      ((byteModule.run (halfAndByte 2)).makeKey (ExactRules.bytesPacket 0x05) fun _ => 0) r →
      r.data.ogate = 1 := by
    rintro r ⟨hr, -, hhighest⟩
    rw [hrules] at hr hhighest
    have hle := hhighest _ (mem_cons_of_mem _ mem_cons_self) (by decide)
    rcases mem_cons.mp hr with rfl | hr
    · exact absurd hle (by decide)
    · rw [mem_singleton.mp hr]
  exact fun r r' hr hr' => (honly r hr).trans (honly r' hr').symm

def exported (gate : UInt64) (mask : UInt8) : WildcardMatchCommandAddArg where
  gate
  priority := 1
  values := [.valueBin [0x05]]
  masks := [.valueBin [mask]]
  valuesv := []

/-- Two rules of the same priority change places when they are restored. -/
theorem tie_is_restored_otherwise :
    init ExactRules.grantAll byteArg = .ok byteModule ∧
      init ExactRules.grantAll (byteModule.run (halfAndByte 1)).getInitialArg = .ok byteModule ∧
      ((byteModule.run (halfAndByte 1)).processPacket (fun _ => 0)
        (ExactRules.bytesPacket 0x05)).1 = 1 ∧
      ((setRuntimeConfig (fun _ _ => true) (byteModule.run (halfAndByte 1)).getRuntimeConfig
        byteModule).2.processPacket (fun _ => 0) (ExactRules.bytesPacket 0x05)).1 = 2 := by
  have hrules : (byteModule.run (halfAndByte 1)).rules.map (pbRule byteModule.fields) =
      [exported 2 0x0f, exported 1 0xff] := by decide
  have hless : ruleLess (exported 1 0xff) (exported 2 0x0f) = true := by decide
  have hsorted : (byteModule.run (halfAndByte 1)).getRuntimeConfig =
      { defaultGate := dropGate.toUInt64, rules := [exported 1 0xff, exported 2 0x0f] } := by
    have hsort := congrArg (List.mergeSort · fun a b => !ruleLess b a) hrules
    have htwo : [exported 2 0x0f, exported 1 0xff].mergeSort (fun a b => !ruleLess b a) =
        [exported 1 0xff, exported 2 0x0f] := by
      simp [List.mergeSort, hless]
    exact congrArg (WildcardMatchConfig.mk _) (hsort.trans htwo)
  rw [hsorted]
  exact ⟨rfl, rfl, by decide, by decide⟩

end WildcardMatch

end Upf.Bess
