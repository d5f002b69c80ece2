import Mathlib.Algebra.Order.BigOperators.Group.List
import Upf.Bess.ExactMatchInit

/-!
# The exact match module as a set of rules

What the module is for: a packet gets the gate and the values of the live rule whose
values agree with it on the bits of the masks.  Adding a rule replaces the one equal
under the masks, deleting removes it.  The live rules are kept beside the module, as
their commands stated them.

The keys of packets are masked and the keys of rules are not.  So the module is this
set of rules as long as rules are stated without bits outside the masks, and gates in
16 bits.

Main result: `matching_law`.
-/

namespace Upf.Bess

open Lib List ExactMatch Nat AList

/-- A rule as a command states it: the bytes of each field, the gate, and the values to
write. -/
structure StatedRule where
  fields : List (List UInt8)
  gate : UInt64
  action : List UInt8
deriving DecidableEq

inductive ExactCommand where
  | add (arg : ExactMatchCommandAddArg)
  | delete (arg : ExactMatchCommandDeleteArg)
  | clear

section Masks

variable {A : Type}

def maskFields (fields : List (ExactMatchField A)) (bytes : List (List UInt8)) :
    List (List UInt8) :=
  List.zipWith ExactMatchField.masked fields bytes

def WithinMasks (fields : List (ExactMatchField A)) (bytes : List (List UInt8)) : Prop :=
  maskFields fields bytes = bytes

instance (fields : List (ExactMatchField A)) (bytes : List (List UInt8)) :
    Decidable (WithinMasks fields bytes) :=
  inferInstanceAs (Decidable (_ = _))

def StatedRule.Agrees (fields : List (ExactMatchField A)) (pkt : Packet A) (r : StatedRule) :
    Prop :=
  maskFields fields r.fields = maskFields fields (fields.map fun f => pkt.field f.toField)

instance (fields : List (ExactMatchField A)) (pkt : Packet A) (r : StatedRule) :
    Decidable (r.Agrees fields pkt) :=
  inferInstanceAs (Decidable (_ = _))

def otherRules (fields : List (ExactMatchField A)) (bytes : List (List UInt8))
    (live : List StatedRule) : List StatedRule :=
  live.filter fun r => maskFields fields r.fields ≠ maskFields fields bytes

theorem mem_otherRules {fields : List (ExactMatchField A)} {bytes : List (List UInt8)}
    {live : List StatedRule} {r : StatedRule} :
    r ∈ otherRules fields bytes live ↔
      r ∈ live ∧ maskFields fields r.fields ≠ maskFields fields bytes := by
  simp [otherRules]

end Masks

namespace ExactMatch

variable {A : Type} {em : ExactMatch A}

/-- The bytes an argument states for a field: a string as it is, a number in the byte order
of the field. -/
def statedBytes (f : Field A) : FieldData → List UInt8
  | .valueBin b => b
  | .valueInt v =>
    match f.position with
    | .attr _ => leBytes f.size v.toNat
    | .offset _ => (leBytes f.size v.toNat).reverse

def statedRule (em : ExactMatch A) (arg : ExactMatchCommandAddArg) : StatedRule where
  fields := List.zipWith statedBytes em.keyFields arg.fields
  gate := arg.gate
  action := (List.zipWith statedBytes em.values arg.values).flatten

/-- Arguments of the right sizes are read as they are stated. -/
theorem ruleFieldsFromPb_eq {fields : List (Field A)} {args : List FieldData}
    (h : (ruleFieldsFromPb fields args).map List.length = fields.map Field.size) :
    ruleFieldsFromPb fields args = List.zipWith statedBytes fields args := by
  induction fields generalizing args with
  | nil => rfl
  | cons f fs ih =>
    rcases args with - | ⟨value, args⟩
    · rfl
    have hfield : ∀ bytes, ruleField f value = some bytes → bytes = statedBytes f value := by
      intro bytes hbytes
      cases value with
      | valueBin => exact (Option.some.inj hbytes).symm
      | valueInt v =>
        rcases f with ⟨_ | _, size⟩ <;>
          simp_all [ruleField, statedBytes, (uint64ToBin_eq size v).1]
    rw [ruleFieldsFromPb] at h ⊢
    cases hread : ruleField f value with
    | some bytes =>
      rw [hread] at h
      dsimp only
      rw [hfield bytes hread, ih (List.cons.inj h).2]
      rfl
    | none =>
      -- Only a field of no bytes is as wide as what is left of it.
      rw [hread] at h
      rcases List.cons.inj h with ⟨hsize, hrest⟩
      cases map_eq_nil_iff.mp hrest.symm
      rcases f with ⟨_ | _, size⟩ <;> cases value <;> cases hsize <;> first | rfl | cases hread

def keyOf (em : ExactMatch A) (bytes : List (List UInt8)) : List UInt8 :=
  bytes.flatten ++ padding em.keyFields

def Fits (em : ExactMatch A) (bytes : List (List UInt8)) : Prop :=
  em.fields ≠ [] ∧ bytes.map List.length = em.fields.map fun f => f.size

theorem keyOf_inj {bytes bytes' : List (List UInt8)} (h : em.Fits bytes) (h' : em.Fits bytes')
    (hkey : em.keyOf bytes = em.keyOf bytes') : bytes = bytes' :=
  eq_iff_flatten_eq.mpr ⟨append_cancel_right hkey, h.2.trans h'.2.symm⟩

theorem gather_ok {fields : List (Field A)} {rule : List (List UInt8)} {bytes : List UInt8}
    (h : gather fields rule = .ok bytes) :
    bytes = rule.flatten ∧ rule.map List.length = fields.map Field.size := by
  unfold gather at h
  split_ifs at h with hlen hsize
  cases h
  refine ⟨rfl, ?_⟩
  rw [not_not] at hlen
  apply ext_getElem
  · simp [hlen]
  · intro i h₁ h₂
    rw [getElem_map, getElem_map]
    have hi : i < (fields.zip rule).length := by
      simp only [length_map] at h₁ h₂
      simp [h₁, h₂]
    have hno := any_eq_false.mp (Bool.eq_false_iff.mpr hsize) _ (getElem_mem hi)
    rw [getElem_zip, bne_iff_ne, ne_eq, not_not] at hno
    exact hno.symm

theorem gatherKey_ok {args : List FieldData} {key : List UInt8}
    (h : em.gatherKey args = .ok key) :
    key = em.keyOf (ruleFieldsFromPb em.keyFields args) ∧
      em.Fits (ruleFieldsFromPb em.keyFields args) ∧
      ruleFieldsFromPb em.keyFields args = List.zipWith statedBytes em.keyFields args := by
  unfold gatherKey at h
  split_ifs at h with hnil hlen
  rcases bind_ok h with ⟨bytes, hbytes, h⟩
  cases h
  rcases gather_ok hbytes with ⟨rfl, hsizes⟩
  refine ⟨rfl, ⟨fun hempty => ?_, ?_⟩, ruleFieldsFromPb_eq hsizes⟩
  · rw [not_not, hempty, length_nil, length_eq_zero_iff] at hlen
    exact hnil hlen
  · rw [hsizes, keyFields, map_map]
    rfl

theorem createValue_ok {args : List FieldData} {action : List UInt8}
    (h : em.createValue args = .ok action) :
    action = (List.zipWith statedBytes em.values args).flatten := by
  unfold createValue at h
  split_ifs at h with hlen hnil
  · cases h
    subst hnil
    cases em.values <;> rfl
  · rcases gather_ok h with ⟨hbytes, hsizes⟩
    rw [hbytes, ruleFieldsFromPb_eq hsizes]

theorem rule_ok {arg : ExactMatchCommandAddArg} {key : List UInt8} {t : ValueTuple}
    (h : em.rule arg = .ok (key, t)) :
    key = em.keyOf (em.statedRule arg).fields ∧ em.Fits (em.statedRule arg).fields ∧
      ruleFieldsFromPb em.keyFields arg.fields = (em.statedRule arg).fields ∧
      t = { gate := arg.gate.toUInt16, action := (em.statedRule arg).action } := by
  unfold rule at h
  dsimp only at h
  split_ifs at h
  rcases bind_ok h with ⟨key', hkey, h⟩
  rcases bind_ok h with ⟨action, haction, h⟩
  cases h
  rcases gatherKey_ok hkey with ⟨hkey, hfits, hread⟩
  rw [hread] at hkey hfits
  refine ⟨hkey, hfits, hread, ?_⟩
  rw [createValue_ok haction]
  rfl

theorem commandAdd_error {room : ExactMatchRules → List UInt8 → Bool}
    {arg : ExactMatchCommandAddArg} {em' : ExactMatch A} {e : Errno}
    (h : em.commandAdd room arg = (.error e, em')) : em' = em := by
  unfold commandAdd at h
  split at h
  · exact (Prod.mk.inj h).2.symm
  · split_ifs at h
    · cases h
    · exact (Prod.mk.inj h).2.symm

theorem commandDelete_error {arg : ExactMatchCommandDeleteArg} {em' : ExactMatch A} {e : Errno}
    (h : em.commandDelete arg = (.error e, em')) : em' = em := by
  unfold commandDelete at h
  split at h
  · exact (Prod.mk.inj h).2.symm
  · split_ifs at h
    · cases h
    · exact (Prod.mk.inj h).2.symm

theorem makeKey_keyOf (hwf : ∀ f ∈ em.fields, f.Wf ∧ 1 ≤ f.size) (hne : em.fields ≠ [])
    (pkt : Packet A) (buf : Buffer) :
    em.makeKey pkt buf =
      em.keyOf (maskFields em.fields (em.fields.map fun f => pkt.field f.toField)) := by
  have hraw : 0 < rawKeySize em.keyFields := by
    rcases exists_mem_of_ne_nil _ hne with ⟨f, hf⟩
    have hmem : f.size ∈ em.keyFields.map Field.size := by
      rw [keyFields, map_map]
      exact mem_map.mpr ⟨f, hf, rfl⟩
    exact Nat.lt_of_lt_of_le (hwf f hf).2
      (single_le_sum (fun _ _ => Nat.zero_le _) _ hmem)
  rw [makeKey_masked (fun f hf => (hwf f hf).1) hraw, keyOf]
  congr 2
  rw [maskFields, zipWith_map_right, zipWith_self]
  rfl

theorem fits_packet (hwf : ∀ f ∈ em.fields, f.Wf ∧ 1 ≤ f.size) (hne : em.fields ≠ [])
    (pkt : Packet A) :
    em.Fits (maskFields em.fields (em.fields.map fun f => pkt.field f.toField)) := by
  refine ⟨hne, ?_⟩
  rw [maskFields, zipWith_map_right, zipWith_self, map_map]
  apply map_congr_left
  intro f hf
  exact (hwf f hf).1.masked_length (field_length pkt (hwf f hf).1.size_le)

end ExactMatch

structure ExactRules (A : Type) where
  em : ExactMatch A
  live : List StatedRule := []

namespace ExactRules

variable {A : Type}

def step (room : ExactMatchRules → List UInt8 → Bool) (c : ExactCommand) (s : ExactRules A) :
    ExactRules A :=
  match c with
  | .add arg =>
    match s.em.commandAdd room arg with
    | (.error _, em) => { s with em }
    | (.ok _, em) =>
      let r := s.em.statedRule arg
      { em, live := r :: otherRules s.em.fields r.fields s.live }
  | .delete arg =>
    match s.em.commandDelete arg with
    | (.error _, em) => { s with em }
    | (.ok _, em) =>
      { em
        live := otherRules s.em.fields
          (List.zipWith ExactMatch.statedBytes s.em.keyFields arg.fields) s.live }
  | .clear => { em := s.em.commandClear, live := [] }

def run (room : ExactMatchRules → List UInt8 → Bool) (cmds : List ExactCommand)
    (s : ExactRules A) : ExactRules A :=
  cmds.foldl (fun s c => s.step room c) s

def Within (em : ExactMatch A) : ExactCommand → Prop
  | .add arg =>
    WithinMasks em.fields (ExactMatch.ruleFieldsFromPb em.keyFields arg.fields) ∧
      arg.gate.toNat < 2 ^ 16
  | .delete arg => WithinMasks em.fields (ExactMatch.ruleFieldsFromPb em.keyFields arg.fields)
  | .clear => True

instance (em : ExactMatch A) : ∀ c, Decidable (Within em c)
  | .add _ => inferInstanceAs (Decidable (_ ∧ _))
  | .delete _ => inferInstanceAs (Decidable (WithinMasks _ _))
  | .clear => .isTrue trivial

def tupleOf (r : StatedRule) : ValueTuple := { gate := r.gate.toUInt16, action := r.action }

structure Inv (em : ExactMatch A) (s : ExactRules A) : Prop where
  fields : s.em.fields = em.fields
  values : s.em.values = em.values
  defaultGate : s.em.defaultGate = em.defaultGate
  fits : ∀ r ∈ s.live, em.Fits r.fields
  within : ∀ r ∈ s.live, WithinMasks em.fields r.fields
  gate : ∀ r ∈ s.live, r.gate.toNat < 2 ^ 16
  table : ∀ key t, s.em.table.lookup key = some t ↔
    ∃ r ∈ s.live, em.keyOf r.fields = key ∧ tupleOf r = t

variable {em : ExactMatch A} {s : ExactRules A} {room : ExactMatchRules → List UInt8 → Bool}

theorem Inv.keyFields (h : Inv em s) : s.em.keyFields = em.keyFields := by
  rw [ExactMatch.keyFields, h.fields, ExactMatch.keyFields]

theorem Inv.keyOf (h : Inv em s) (bytes : List (List UInt8)) :
    s.em.keyOf bytes = em.keyOf bytes := by
  rw [ExactMatch.keyOf, h.keyFields, ExactMatch.keyOf]

theorem Inv.fits_iff (h : Inv em s) (bytes : List (List UInt8)) :
    s.em.Fits bytes ↔ em.Fits bytes := by
  rw [ExactMatch.Fits, h.fields, ExactMatch.Fits]

theorem Inv.same_iff (h : Inv em s) {bytes : List (List UInt8)} (hfits : em.Fits bytes)
    (hwithin : WithinMasks em.fields bytes) {r : StatedRule} (hr : r ∈ s.live) :
    maskFields em.fields r.fields = maskFields em.fields bytes ↔
      em.keyOf r.fields = em.keyOf bytes := by
  rw [h.within r hr, hwithin]
  exact ⟨congrArg _, keyOf_inj (h.fits r hr) hfits⟩

theorem Inv.mem_others (h : Inv em s) {bytes : List (List UInt8)} (hfits : em.Fits bytes)
    (hwithin : WithinMasks em.fields bytes) {key : List UInt8} {t : ValueTuple} :
    (∃ r ∈ otherRules em.fields bytes s.live, em.keyOf r.fields = key ∧ tupleOf r = t) ↔
      key ≠ em.keyOf bytes ∧ s.em.table.lookup key = some t := by
  constructor
  · rintro ⟨r, hr, hkey, ht⟩
    rcases mem_otherRules.mp hr with ⟨hr, hne⟩
    refine ⟨fun heq => hne ?_, (h.table key t).mpr ⟨r, hr, hkey, ht⟩⟩
    exact (h.same_iff hfits hwithin hr).mpr (hkey.trans heq)
  · rintro ⟨hne, hlookup⟩
    rcases (h.table key t).mp hlookup with ⟨r, hr, hkey, ht⟩
    refine ⟨r, mem_otherRules.mpr ⟨hr, fun heq => hne ?_⟩, hkey, ht⟩
    exact hkey.symm.trans ((h.same_iff hfits hwithin hr).mp heq)

theorem Inv.add (h : Inv em s) {arg : ExactMatchCommandAddArg} (hwithin : Within em (.add arg)) :
    Inv em (s.step room (.add arg)) := by
  dsimp only [step]
  cases hcmd : s.em.commandAdd room arg with
  | mk result =>
    cases result with
    | error =>
      dsimp only
      rw [commandAdd_error hcmd]
      exact h
    | ok _ =>
      dsimp only
      rcases commandAdd_ok hcmd with ⟨key, t, hrule, rfl⟩
      rcases rule_ok hrule with ⟨hkey, hfits, hread, ht⟩
      have hstated : s.em.statedRule arg = em.statedRule arg := by
        unfold ExactMatch.statedRule
        rw [h.keyFields, h.values]
      rw [hstated] at hkey hfits hread ht ⊢
      have hmasks := hwithin.1
      rw [← h.keyFields, hread] at hmasks
      rw [h.keyOf] at hkey
      rw [h.fits_iff] at hfits
      have hothers : otherRules s.em.fields (em.statedRule arg).fields s.live =
          otherRules em.fields (em.statedRule arg).fields s.live := by rw [h.fields]
      rw [hothers]
      refine ⟨h.fields, h.values, h.defaultGate, ?_, ?_, ?_, ?_⟩
      · intro r hr
        rcases mem_cons.mp hr with rfl | hr
        · exact hfits
        · exact h.fits r (mem_otherRules.mp hr).1
      · intro r hr
        rcases mem_cons.mp hr with rfl | hr
        · exact hmasks
        · exact h.within r (mem_otherRules.mp hr).1
      · intro r hr
        rcases mem_cons.mp hr with rfl | hr
        · exact hwithin.2
        · exact h.gate r (mem_otherRules.mp hr).1
      · intro key' t'
        dsimp only
        simp only [mem_cons, or_and_right, exists_or, exists_eq_left]
        rw [h.mem_others hfits hmasks, ← hkey]
        by_cases hcase : key' = key
        · subst hcase
          rw [lookup_insert, ht]
          simp [tupleOf, ExactMatch.statedRule]
        · rw [lookup_insert_ne hcase]
          simp [hcase, Ne.symm hcase]

theorem Inv.delete (h : Inv em s) {arg : ExactMatchCommandDeleteArg}
    (hwithin : Within em (.delete arg)) : Inv em (s.step room (.delete arg)) := by
  dsimp only [step]
  cases hcmd : s.em.commandDelete arg with
  | mk result =>
    cases result with
    | error =>
      dsimp only
      rw [commandDelete_error hcmd]
      exact h
    | ok _ =>
      dsimp only
      rcases commandDelete_ok hcmd with ⟨key, hgather, rfl⟩
      rcases gatherKey_ok hgather with ⟨hkey, hfits, hread⟩
      rw [hread, h.keyFields] at hkey hfits
      rw [h.keyOf] at hkey
      rw [h.fits_iff] at hfits
      have hmasks : WithinMasks em.fields _ := hwithin
      rw [← h.keyFields, hread, h.keyFields] at hmasks
      have hothers : otherRules s.em.fields
          (List.zipWith ExactMatch.statedBytes s.em.keyFields arg.fields) s.live =
            otherRules em.fields (List.zipWith ExactMatch.statedBytes em.keyFields arg.fields)
              s.live := by rw [h.fields, h.keyFields]
      rw [hothers]
      refine ⟨h.fields, h.values, h.defaultGate, ?_, ?_, ?_, ?_⟩
      · exact fun r hr => h.fits r (mem_otherRules.mp hr).1
      · exact fun r hr => h.within r (mem_otherRules.mp hr).1
      · exact fun r hr => h.gate r (mem_otherRules.mp hr).1
      · intro key' t'
        dsimp only
        rw [h.mem_others hfits hmasks, ← hkey]
        by_cases hcase : key' = key
        · subst hcase
          rw [lookup_erase]
          simp
        · rw [lookup_erase_ne hcase]
          simp [hcase]

theorem Inv.step (h : Inv em s) {c : ExactCommand} (hwithin : Within em c) :
    Inv em (s.step room c) := by
  cases c with
  | add => exact h.add hwithin
  | delete => exact h.delete hwithin
  | clear =>
    refine ⟨h.fields, h.values, h.defaultGate, ?_, ?_, ?_, ?_⟩
    · exact fun r hr => nomatch hr
    · exact fun r hr => nomatch hr
    · exact fun r hr => nomatch hr
    · intro key t
      refine ⟨fun hlookup => ?_, fun ⟨r, hr, _⟩ => nomatch hr⟩
      cases hlookup

theorem Inv.run (h : Inv em s) {cmds : List ExactCommand} (hwithin : ∀ c ∈ cmds, Within em c) :
    Inv em (s.run room cmds) := by
  induction cmds generalizing s with
  | nil => exact h
  | cons c cmds ih =>
    exact ih (h.step (hwithin c mem_cons_self)) fun c' hc' =>
      hwithin c' (mem_cons_of_mem _ hc')

theorem Inv.start (h : em.table = ∅) : Inv em { em } := by
  refine ⟨rfl, rfl, rfl, ?_, ?_, ?_, ?_⟩
  · exact fun r hr => nomatch hr
  · exact fun r hr => nomatch hr
  · exact fun r hr => nomatch hr
  · intro key t
    dsimp only
    rw [h]
    exact ⟨fun hlookup => (nomatch hlookup), fun ⟨r, hr, _⟩ => nomatch hr⟩

theorem Inv.agrees_iff (h : Inv em s) (hwf : ∀ f ∈ em.fields, f.Wf ∧ 1 ≤ f.size)
    {r : StatedRule} (hr : r ∈ s.live) (pkt : Packet A) (buf : Buffer) :
    r.Agrees em.fields pkt ↔ em.keyOf r.fields = s.em.makeKey pkt buf := by
  have hne := (h.fits r hr).1
  have hmake : s.em.makeKey pkt buf = em.makeKey pkt buf := by
    unfold ExactMatch.makeKey
    rw [h.keyFields, h.fields]
  rw [hmake, makeKey_keyOf hwf hne, StatedRule.Agrees, h.within r hr]
  exact ⟨congrArg _,
    keyOf_inj (h.fits r hr) (fits_packet hwf hne pkt)⟩

theorem Inv.processPacket [DecidableEq A] (h : Inv em s)
    (hwf : ∀ f ∈ em.fields, f.Wf ∧ 1 ≤ f.size) (pkt : Packet A) (buf : Buffer) :
    (∀ r ∈ s.live, r.Agrees em.fields pkt →
      (s.em.processPacket buf pkt).1.toNat = r.gate.toNat ∧
      (s.em.processPacket buf pkt).2 = setValues em.values r.action pkt) ∧
    ((∀ r ∈ s.live, ¬ r.Agrees em.fields pkt) →
      s.em.processPacket buf pkt = (em.defaultGate, pkt)) := by
  unfold ExactMatch.processPacket
  constructor
  · intro r hr hagrees
    have hkey := (h.agrees_iff hwf hr pkt buf).mp hagrees
    have hlookup : s.em.table.lookup (s.em.makeKey pkt buf) = some (tupleOf r) :=
      (h.table _ _).mpr ⟨r, hr, hkey, rfl⟩
    rw [hlookup, h.values]
    refine ⟨?_, rfl⟩
    change (r.gate.toUInt16).toNat = r.gate.toNat
    rw [UInt64.toNat_toUInt16, mod_eq_of_lt (h.gate r hr)]
  · intro hnone
    cases hlookup : s.em.table.lookup (s.em.makeKey pkt buf) with
    | none => exact congrArg (·, pkt) h.defaultGate
    | some =>
      rcases (h.table _ _).mp hlookup with ⟨r, hr, hkey, -⟩
      exact absurd ((h.agrees_iff hwf hr pkt buf).mpr hkey) (hnone r hr)

theorem Inv.agrees_unique (h : Inv em s) (hwf : ∀ f ∈ em.fields, f.Wf ∧ 1 ≤ f.size)
    {r r' : StatedRule} (hr : r ∈ s.live) (hr' : r' ∈ s.live) {pkt : Packet A}
    (hagrees : r.Agrees em.fields pkt) (hagrees' : r'.Agrees em.fields pkt) : r' = r := by
  have hkey := (h.agrees_iff hwf hr pkt fun _ => 0).mp hagrees
  have hkey' := (h.agrees_iff hwf hr' pkt fun _ => 0).mp hagrees'
  have hfields : r'.fields = r.fields :=
    keyOf_inj (h.fits r' hr') (h.fits r hr) (hkey'.trans hkey.symm)
  -- One key has one tuple.
  have htuple : tupleOf r' = tupleOf r := by
    have hlookup := (h.table _ _).mpr ⟨r, hr, hkey, rfl⟩
    rw [(h.table _ _).mpr ⟨r', hr', hkey', rfl⟩] at hlookup
    exact Option.some.inj hlookup
  rcases ValueTuple.mk.inj htuple with ⟨hgate, haction⟩
  have hgate : r'.gate = r.gate := by
    have hnat := congrArg UInt16.toNat hgate
    rw [UInt64.toNat_toUInt16, UInt64.toNat_toUInt16, mod_eq_of_lt (h.gate r' hr'),
      mod_eq_of_lt (h.gate r hr)] at hnat
    exact UInt64.toNat_inj.mp hnat
  rcases r with ⟨fields, gate, action⟩
  rcases r' with ⟨fields', gate', action'⟩
  cases hfields
  cases hgate
  cases haction
  rfl

variable [DecidableEq A]

/-- However a module was set up, after every sequence of commands that state no bits
outside the masks a packet leaves by the gate of the one live rule it agrees with on
the bits of the masks, with the values of that rule, and by the default gate if there
is none.  The masks are the stated ones, save that a string for a field in the packet
data is reversed. -/
theorem matching_law (env : InitEnv A) (arg : ExactMatchArg A) (em : ExactMatch A)
    (hinit : ExactMatch.init env arg = .ok em) (room : ExactMatchRules → List UInt8 → Bool)
    (cmds : List ExactCommand) (hwithin : ∀ c ∈ cmds, Within em c) :
    List.Forall₂ (fun arg f => ¬ ExactMatch.Backwards f.toField arg.2 →
        f.maskBytes = ExactMatch.statedMask f.toField arg.2)
      (ExactMatch.withMasks arg.fields arg.masks) em.fields ∧
    ∀ (pkt : Packet A) (buf : Buffer),
      (∀ r ∈ (run room cmds { em }).live, r.Agrees em.fields pkt →
        ((run room cmds { em }).em.processPacket buf pkt).1.toNat = r.gate.toNat ∧
        ((run room cmds { em }).em.processPacket buf pkt).2 = setValues em.values r.action pkt ∧
        ∀ r' ∈ (run room cmds { em }).live, r'.Agrees em.fields pkt → r' = r) ∧
      ((∀ r ∈ (run room cmds { em }).live, ¬ r.Agrees em.fields pkt) →
        (run room cmds { em }).em.processPacket buf pkt = (em.defaultGate, pkt)) := by
  rcases init_fields hinit with ⟨hdeclared, htable, -⟩
  have hwf := declared_wf hdeclared
  have hinv : Inv em (run room cmds { em }) := (Inv.start htable).run hwithin
  refine ⟨hdeclared.imp fun _ _ hf => hf.stated, fun pkt buf => ?_⟩
  rcases hinv.processPacket hwf pkt buf with ⟨hhit, hmiss⟩
  refine ⟨fun r hr hagrees => ?_, hmiss⟩
  rcases hhit r hr hagrees with ⟨hgate, hvalues⟩
  exact ⟨hgate, hvalues, fun r' hr' hagrees' => hinv.agrees_unique hwf hr hr' hagrees hagrees'⟩

def lowHalfArg : ExactMatchArg Unit where
  fields := [{ position := some (.offset 0), numBytes := 1 }]
  masks := [.valueInt 0x0f]

def lowHalf : ExactMatch Unit where
  fields := [{ position := .offset 0, size := 1, mask := [0x0f, 0, 0, 0, 0, 0, 0, 0] }]
  values := []

def grantAll : InitEnv Unit where
  registerAttribute _ _ := true
  createTable _ _ := true

def bytesPacket (b : UInt8) : Packet Unit where
  data := fun _ => b
  attr := fun _ => []
  trailing := fun _ _ => 0

def byteRuleTo (gate : UInt64) (b : UInt64) : ExactCommand :=
  .add { gate, fields := [.valueInt b], values := [] }

/-- A rule within the mask serves the packets that agree with it. -/
theorem matching_law_lowHalf :
    ExactMatch.init grantAll lowHalfArg = .ok lowHalf ∧
      ((run (fun _ _ => true) [byteRuleTo 1 0x05] { em := lowHalf }).em.processPacket
        (fun _ => 0) (bytesPacket 0x35)).1.toNat = 1 :=
  ⟨rfl, ((matching_law grantAll lowHalfArg lowHalf rfl (fun _ _ => true) [byteRuleTo 1 0x05]
    (by decide)).2 (bytesPacket 0x35) fun _ => 0).1 ⟨[[0x05]], 1, []⟩ (by decide) (by decide) |>.1⟩

/-- A rule with a bit outside the mask is accepted and agrees with a packet that then
leaves by the default gate. -/
theorem bit_outside_mask_misses :
    ExactMatch.init grantAll lowHalfArg = .ok lowHalf ∧
      (∃ r ∈ (run (fun _ _ => true) [byteRuleTo 1 0x15] { em := lowHalf }).live,
        r.gate = 1 ∧ r.Agrees lowHalf.fields (bytesPacket 0x05)) ∧
      ((run (fun _ _ => true) [byteRuleTo 1 0x15] { em := lowHalf }).em.processPacket
        (fun _ => 0) (bytesPacket 0x05)).1 = dropGate := by
  refine ⟨rfl, ?_, ?_⟩
  · exact ⟨⟨[[0x15]], 1, []⟩, by decide, rfl, by decide⟩
  · decide

end ExactRules

end Upf.Bess
