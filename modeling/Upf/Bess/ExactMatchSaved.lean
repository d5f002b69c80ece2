import Upf.Bess.CuckooMap
import Upf.Bess.ExactRules

/-!
# Saving the exact match module

`GetInitialArg` and `GetRuntimeConfig` are to give what sets up a module
like this one.  What they give is much less.  The rules are in a table of the packet
library, and what is exported is found by iterating over the buckets of the map
around it, of which there are none.  Values are not exported, and masks are only if
there were masks of values.

Main result: `restores_iff`.
-/

namespace Upf.Bess

open Lib List ExactMatch

structure ExactMatchConfig where
  defaultGate : UInt64
  rules : List ExactMatchCommandAddArg
deriving DecidableEq

structure SavedModule (A : Type) where
  em : ExactMatch A
  /-- Whether there were no masks of values. -/
  emptyMasks : Bool
  /-- The map around the table of the packet library. -/
  native : CuckooMap (List UInt8) ValueTuple

instance : Inhabited ValueTuple := ⟨{ gate := 0, action := [] }⟩

section Configurations

variable {A : Type}

def fieldSlices : List (Field A) → List UInt8 → List (List UInt8)
  | [], _ => []
  | f :: fs, bytes => bytes.take f.size :: fieldSlices fs (bytes.drop f.size)

def fieldsLess (a b : List FieldData) : Option Bool :=
  (a.zip b).findSome? fun
    | (.valueBin x, .valueBin y) => if x ≠ y then some (decide (x < y)) else none
    | _ => none

def addRules {Arg M : Type} (add : Arg → M → Except Errno Unit × M) :
    List Arg → M → Except Errno Unit × M
  | [], m => (.ok (), m)
  | arg :: args, m =>
    match add arg m with
    | (.error e, m) => (.error e, m)
    | (.ok _, m) => addRules add args m

theorem addRules_invariant {Arg M : Type} {add : Arg → M → Except Errno Unit × M} (P : M → Prop)
    (hadd : ∀ arg m, P m → P (add arg m).2) (args : List Arg) {m : M} (h : P m) :
    P (addRules add args m).2 := by
  induction args generalizing m with
  | nil => exact h
  | cons arg args ih =>
    have hone := hadd arg m h
    unfold addRules
    split
    · rename_i e m' hcmd
      rwa [hcmd] at hone
    · rename_i u m' hcmd
      rw [hcmd] at hone
      exact ih hone

end Configurations

namespace SavedModule

variable {A : Type}

def init [DecidableEq A] (env : InitEnv A) (arg : ExactMatchArg A) :
    Except InitErrno (SavedModule A) := do
  let em ← ExactMatch.init env arg
  return { em, emptyMasks := arg.masksv.isEmpty, native := CuckooMap.new 0 0 }

def pbField (f : ExactMatchField A) : PbField A where
  position := some f.position
  numBytes := f.size

def getInitialArg (m : SavedModule A) : ExactMatchArg A where
  fields := m.em.fields.map pbField
  masks := if m.emptyMasks then [] else m.em.fields.map fun f => .valueBin f.maskBytes

def ruleLess (a b : ExactMatchCommandAddArg) : Bool :=
  if a.gate ≠ b.gate then a.gate < b.gate
  else (fieldsLess a.fields b.fields).getD false

def pbRule (fields : List (Field A)) (entry : List UInt8 × ValueTuple) :
    ExactMatchCommandAddArg where
  gate := entry.2.gate.toUInt64
  fields := (fieldSlices fields entry.1).map .valueBin
  values := []

def getRuntimeConfig (m : SavedModule A) : ExactMatchConfig where
  defaultGate := m.em.defaultGate.toUInt64
  rules := (m.native.toList.map (pbRule m.em.keyFields)).mergeSort fun a b => !ruleLess b a

def setRuntimeConfig (room : ExactMatchRules → List UInt8 → Bool) (arg : ExactMatchConfig)
    (m : SavedModule A) : Except Errno Unit × SavedModule A :=
  let em := { m.em.commandClear with defaultGate := arg.defaultGate.toUInt16 }
  let (result, em) := addRules (fun arg em => em.commandAdd room arg) arg.rules em
  (result, { m with em })

inductive Command where
  | rule (c : ExactCommand)
  | setDefaultGate (gate : UInt64)
  | setRuntimeConfig (arg : ExactMatchConfig)

def step (room : ExactMatchRules → List UInt8 → Bool) (c : Command) (m : SavedModule A) :
    SavedModule A :=
  match c with
  | .rule (.add arg) => { m with em := (m.em.commandAdd room arg).2 }
  | .rule (.delete arg) => { m with em := (m.em.commandDelete arg).2 }
  | .rule .clear => { m with em := m.em.commandClear }
  | .setDefaultGate gate => { m with em := { m.em with defaultGate := gate.toUInt16 } }
  | .setRuntimeConfig arg => (m.setRuntimeConfig room arg).2

def run (room : ExactMatchRules → List UInt8 → Bool) (cmds : List Command) (m : SavedModule A) :
    SavedModule A :=
  cmds.foldl (fun m c => m.step room c) m

/-! ## What commands leave alone -/

/-- A module keeps its fields and its values, and the map stays empty. -/
structure Kept (m₀ m : SavedModule A) : Prop where
  fields : m.em.fields = m₀.em.fields
  native : m.native = m₀.native

theorem commandAdd_fields (room : ExactMatchRules → List UInt8 → Bool)
    (arg : ExactMatchCommandAddArg) (em : ExactMatch A) :
    (em.commandAdd room arg).2.fields = em.fields := by
  unfold ExactMatch.commandAdd
  split
  · rfl
  · split_ifs <;> rfl

theorem commandDelete_fields (arg : ExactMatchCommandDeleteArg) (em : ExactMatch A) :
    (em.commandDelete arg).2.fields = em.fields := by
  unfold ExactMatch.commandDelete
  split
  · rfl
  · split_ifs <;> rfl

theorem Kept.step {m₀ m : SavedModule A} (h : Kept m₀ m)
    (room : ExactMatchRules → List UInt8 → Bool) (c : Command) : Kept m₀ (m.step room c) := by
  cases c with
  | rule c =>
    cases c with
    | add arg => exact ⟨(commandAdd_fields room arg m.em).trans h.fields, h.native⟩
    | delete arg => exact ⟨(commandDelete_fields arg m.em).trans h.fields, h.native⟩
    | clear => exact ⟨h.fields, h.native⟩
  | setDefaultGate => exact ⟨h.fields, h.native⟩
  | setRuntimeConfig arg =>
    refine ⟨?_, h.native⟩
    exact addRules_invariant (fun em : ExactMatch A => em.fields = m₀.em.fields)
      (fun arg em hem => (commandAdd_fields room arg em).trans hem) arg.rules h.fields

theorem Kept.run {m₀ m : SavedModule A} (h : Kept m₀ m)
    (room : ExactMatchRules → List UInt8 → Bool) (cmds : List Command) :
    Kept m₀ (m.run room cmds) := by
  induction cmds generalizing m with
  | nil => exact h
  | cons c cmds ih => exact ih (h.step room c)

/-! ## Setting up again -/

variable [DecidableEq A] {env : InitEnv A}

def MaskFits (f : ExactMatchField A) (mask : FieldData) : Prop :=
  ∃ m word, ExactMatch.mask64 mask = .ok m ∧ ExactMatch.fieldMask f.position f.size m = .ok word

omit [DecidableEq A] in
theorem maskFits_none (f : ExactMatchField A) : MaskFits f (.valueInt 0) :=
  ⟨0, _, rfl, rfl⟩

theorem ofLE_eq_zero {bytes : List UInt8} (h : ∀ b ∈ bytes, b = 0) : ofLE bytes = 0 := by
  induction bytes with
  | nil => rfl
  | cons b bytes ih =>
    rw [ofLE, h b mem_cons_self, ih fun b hb => h b (mem_cons_of_mem _ hb)]
    rfl

omit [DecidableEq A] in
theorem maskFits_bytes {f : ExactMatchField A} (h : f.Wf) : MaskFits f (.valueBin f.maskBytes) := by
  have hlen : ¬ wordSize < f.maskBytes.length := by
    rw [h.maskBytes_length]
    exact not_lt.mpr h.size_le
  refine ⟨UInt64.ofNat (ofLE f.maskBytes), ?_⟩
  have hmask : ExactMatch.mask64 (.valueBin f.maskBytes) =
      .ok (UInt64.ofNat (ofLE f.maskBytes)) := by
    dsimp only [ExactMatch.mask64]
    rw [if_neg hlen]
  have hlt : ofLE f.maskBytes < 256 ^ f.size := by
    have hlt := ofLE_lt f.maskBytes
    rwa [h.maskBytes_length] at hlt
  have hnat : (UInt64.ofNat (ofLE f.maskBytes)).toNat = ofLE f.maskBytes := by
    have hpow : 256 ^ f.size ≤ 256 ^ wordSize := Nat.pow_le_pow_right (by decide) h.size_le
    exact UInt64.toNat_ofNat_of_lt' (hlt.trans_le hpow)
  rcases uint64ToBin_eq f.size (UInt64.ofNat (ofLE f.maskBytes)) with ⟨hbytes, hrest⟩
  rw [hnat, Nat.div_eq_of_lt hlt] at hrest
  have hbytes : (uint64ToBin f.size (UInt64.ofNat (ofLE f.maskBytes))).1 = f.maskBytes := by
    rw [hbytes, hnat, leBytes_ofLE, ← h.maskBytes_length, take_left]
  have hrest : (uint64ToBin f.size (UInt64.ofNat (ofLE f.maskBytes))).2 = 0 :=
    UInt64.toNat_inj.mp hrest
  unfold ExactMatch.fieldMask
  by_cases hzero : UInt64.ofNat (ofLE f.maskBytes) = 0
  · rw [if_pos hzero]
    exact ⟨_, hmask, rfl⟩
  · rw [if_neg hzero]
    -- Not all bytes are zero, in whichever order.
    have hsome : ∀ bytes : List UInt8, (∀ b, b ∈ bytes ↔ b ∈ f.maskBytes) →
        ¬ bytes.all (· == 0) = true := by
      intro bytes hmem hall
      apply hzero
      have hzeros : ofLE f.maskBytes = 0 := by
        apply ofLE_eq_zero
        intro b hb
        exact beq_iff_eq.mp (all_eq_true.mp hall b ((hmem b).mpr hb))
      rw [hzeros]
      rfl
    dsimp only
    rw [hrest, hbytes, if_neg (not_not.mpr rfl)]
    cases f.position with
    | attr =>
      dsimp only
      rw [if_neg (hsome _ fun b => Iff.rfl)]
      exact ⟨_, hmask, rfl⟩
    | offset =>
      dsimp only
      rw [if_neg (hsome _ fun b => mem_reverse)]
      exact ⟨_, hmask, rfl⟩

theorem addFields_again {mask : ExactMatchField A → FieldData} {idx : Nat} {attrs attrs' : List A}
    {args : List (PbField A × FieldData)} {fs : List (ExactMatchField A)}
    (h : ExactMatch.addFields env idx attrs args = .ok (fs, attrs'))
    (hmask : ∀ f ∈ fs, MaskFits f (mask f)) :
    ∃ fs', ExactMatch.addFields env idx attrs (fs.map fun f => (pbField f, mask f)) =
        .ok (fs', attrs') ∧
      fs'.map ExactMatchField.toField = fs.map ExactMatchField.toField := by
  induction args generalizing idx attrs fs with
  | nil =>
    cases h
    exact ⟨[], rfl, rfl⟩
  | cons arg rest ih =>
    rcases arg with ⟨field, mask₀⟩
    rcases bind_ok h with ⟨⟨f, attrs₁⟩, hone, h⟩
    rcases bind_ok h with ⟨⟨fs₁, attrs₂⟩, hrest, h⟩
    cases h
    rcases hmask f mem_cons_self with ⟨m, word, hm, hword⟩
    rcases ih hrest fun f hf => hmask f (mem_cons_of_mem _ hf) with ⟨fs', hrest', hsame⟩
    -- The field again, with its new mask.
    have hagain : ExactMatch.addFieldOne env idx attrs (pbField f) (mask f) =
        .ok ({ f with mask := word }, attrs₁) := by
      rcases bind_ok hone with ⟨m₀, -, hone⟩
      cases hposition : field.position with
      | none =>
        rw [hposition] at hone
        cases hone
      | some =>
        rw [hposition] at hone
        rcases doAddField_eq_ok.mp hone with
          ⟨hidx, hpos, hsize, hdeclare, -, hfpos, hfsize⟩
        unfold ExactMatch.addFieldOne
        rw [hm]
        apply doAddField_eq_ok.mpr
        dsimp only [pbField]
        rw [hfpos, hfsize] at hword ⊢
        exact ⟨hidx, hpos, hsize, hdeclare, hword, rfl, rfl⟩
    refine ⟨{ f with mask := word } :: fs', ?_, ?_⟩
    · rw [map_cons]
      unfold ExactMatch.addFields
      rw [hagain]
      dsimp only [bind, Except.bind]
      rw [hrest']
      rfl
    · rw [map_cons, map_cons, hsame]

/-- A module like this one can be set up again, if a table is granted; it has no rules,
and fields at the same places. -/
theorem init_again {arg : ExactMatchArg A} {m₀ m : SavedModule A}
    (hinit : init env arg = .ok m₀) (hkept : Kept m₀ m)
    (hcreate : env.createTable (totalKeySize m₀.em.keyFields) 0 = true) :
    ∃ m', init env m.getInitialArg = .ok m' ∧ m'.em.table = ∅ ∧ m'.native = CuckooMap.new 0 0 := by
  rcases bind_ok hinit with ⟨em₀, hem₀, hm₀⟩
  cases hm₀
  have hfields : m.em.fields = em₀.fields := hkept.fields
  rcases init_eq_ok hem₀ with ⟨attrs, hadd, -⟩
  -- The masks of the argument, by field.
  have hmasks : ∃ mask : ExactMatchField A → FieldData,
      (∀ f ∈ em₀.fields, MaskFits f (mask f)) ∧
      ExactMatch.withMasks m.getInitialArg.fields m.getInitialArg.masks =
        em₀.fields.map (fun f => (pbField f, mask f)) ∧
      ¬ (m.getInitialArg.masks ≠ [] ∧
        m.getInitialArg.fields.length ≠ m.getInitialArg.masks.length) := by
    have hwf := declared_wf (addFields_ok hadd)
    dsimp only [getInitialArg]
    rw [hfields]
    cases m.emptyMasks with
    | true =>
      refine ⟨fun _ => .valueInt 0, fun f _ => maskFits_none f, ?_, by simp⟩
      rw [if_pos rfl, ExactMatch.withMasks, if_pos rfl, map_map]
      rfl
    | false =>
      refine ⟨fun f => .valueBin f.maskBytes, fun f hf => maskFits_bytes (hwf f hf).1, ?_,
        by simp⟩
      rw [if_neg (by simp), ExactMatch.withMasks]
      split_ifs with hnil
      · rw [map_eq_nil_iff.mp hnil]
        rfl
      · rw [zip_map']
  rcases hmasks with ⟨mask, hfit, hwith, hcount⟩
  rcases addFields_again hadd hfit with ⟨fs', hagain, hsame⟩
  have hem : ExactMatch.init env m.getInitialArg = .ok { fields := fs', values := [] } := by
    have hnone : ¬ (m.getInitialArg.masksv ≠ [] ∧
        m.getInitialArg.masksv.length < m.getInitialArg.values.length) := fun h => h.1 rfl
    have hvalues : ExactMatch.withMasks m.getInitialArg.values m.getInitialArg.masksv = [] := rfl
    unfold ExactMatch.init
    rw [if_neg hcount, hwith, hagain]
    dsimp only [bind, Except.bind]
    rw [if_neg hnone, hvalues]
    dsimp only [ExactMatch.addFields]
    rw [hsame]
    exact if_pos hcreate
  refine ⟨{ em := { fields := fs', values := [] }, emptyMasks := true, native := .new 0 0 }, ?_,
    rfl, rfl⟩
  unfold init
  rw [hem]
  rfl

theorem restored {arg : ExactMatchArg A} {m₀ m : SavedModule A} (hinit : init env arg = .ok m₀)
    (hkept : Kept m₀ m) (hcreate : env.createTable (totalKeySize m₀.em.keyFields) 0 = true)
    (room : ExactMatchRules → List UInt8 → Bool) :
    ∃ m', init env m.getInitialArg = .ok m' ∧
      (m'.setRuntimeConfig room m.getRuntimeConfig).1 = .ok () ∧
      ∀ buf pkt, (m'.setRuntimeConfig room m.getRuntimeConfig).2.em.processPacket buf pkt =
        (m.em.defaultGate, pkt) := by
  rcases init_again hinit hkept hcreate with ⟨m', hagain, -, -⟩
  have hnative : m.native = .new 0 0 := by
    rcases bind_ok hinit with ⟨em₀, -, hm₀⟩
    cases hm₀
    exact hkept.native
  -- There are no buckets to iterate over.
  have hrules : m.getRuntimeConfig.rules = [] := by
    have hnone : (CuckooMap.new 0 0 : CuckooMap (List UInt8) ValueTuple).toList = [] := rfl
    dsimp only [getRuntimeConfig]
    rw [hnative, hnone, map_nil, mergeSort_nil]
  have hgate : m.getRuntimeConfig.defaultGate.toUInt16 = m.em.defaultGate :=
    UInt16.toUInt16_toUInt64 _
  refine ⟨m', hagain, ?_, fun buf pkt => ?_⟩
  · unfold setRuntimeConfig
    rw [hrules]
    rfl
  · unfold setRuntimeConfig
    rw [hrules, hgate]
    rfl

def Restores (env : InitEnv A) (room : ExactMatchRules → List UInt8 → Bool) (m : SavedModule A) :
    Prop :=
  ∃ m', init env m.getInitialArg = .ok m' ∧
    (m'.setRuntimeConfig room m.getRuntimeConfig).1 = .ok () ∧
    ∀ buf pkt, (m'.setRuntimeConfig room m.getRuntimeConfig).2.em.processPacket buf pkt =
      m.em.processPacket buf pkt

/-- However a module was set up and whatever its commands, saving restores it just if
every live rule sends the packets it matches to the default gate, and writes into
them what they hold already. -/
theorem restores_iff (env : InitEnv A) (arg : ExactMatchArg A) (m₀ : SavedModule A)
    (hinit : init env arg = .ok m₀)
    (hcreate : env.createTable (totalKeySize m₀.em.keyFields) 0 = true)
    (room : ExactMatchRules → List UInt8 → Bool) (cmds : List Command) :
    Restores env room (run room cmds m₀) ↔
      ∀ key t, (run room cmds m₀).em.table.lookup key = some t → ∀ buf pkt,
        (run room cmds m₀).em.makeKey pkt buf = key →
        t.gate = (run room cmds m₀).em.defaultGate ∧
          setValues (run room cmds m₀).em.values t.action pkt = pkt := by
  have hkept : Kept m₀ (run room cmds m₀) := Kept.run ⟨rfl, rfl⟩ room cmds
  generalize run room cmds m₀ = m at hkept ⊢
  rcases restored hinit hkept hcreate room with ⟨m', hm', hok, hsame⟩
  constructor
  · rintro ⟨m'', hm'', -, hrestores⟩ key t hlookup buf pkt hkey
    cases hm'.symm.trans hm''
    have hprocess := (hsame buf pkt).symm.trans (hrestores buf pkt)
    unfold ExactMatch.processPacket at hprocess
    rw [hkey, hlookup] at hprocess
    exact ⟨(Prod.mk.inj hprocess).1.symm, (Prod.mk.inj hprocess).2.symm⟩
  · intro hidle
    refine ⟨m', hm', hok, fun buf pkt => ?_⟩
    rw [hsame buf pkt]
    unfold ExactMatch.processPacket
    cases hlookup : m.em.table.lookup (m.em.makeKey pkt buf) with
    | none => rfl
    | some t =>
      rcases hidle _ t hlookup buf pkt rfl with ⟨hgate, hvalues⟩
      dsimp only
      rw [hgate, hvalues]

/-! ## The low half of a byte -/

def savedLowHalf : SavedModule Unit where
  em := ExactRules.lowHalf
  emptyMasks := true
  native := .new 0 0

/-- A module whose one rule sends to the default gate is restored. -/
theorem restores_default_rule :
    init ExactRules.grantAll ExactRules.lowHalfArg = .ok savedLowHalf ∧
      (run (fun _ _ => true) [.setDefaultGate 2, .rule (ExactRules.byteRuleTo 2 0x05)]
        savedLowHalf).em.table.entries = [⟨[5, 0, 0, 0, 0, 0, 0, 0], ⟨2, []⟩⟩] ∧
      Restores ExactRules.grantAll (fun _ _ => true)
        (run (fun _ _ => true) [.setDefaultGate 2, .rule (ExactRules.byteRuleTo 2 0x05)]
          savedLowHalf) := by
  refine ⟨rfl, rfl, (restores_iff ExactRules.grantAll ExactRules.lowHalfArg savedLowHalf rfl rfl
    (fun _ _ => true) [.setDefaultGate 2, .rule (ExactRules.byteRuleTo 2 0x05)]).mpr ?_⟩
  intro key t hlookup buf pkt _
  rcases mem_singleton.mp (AList.mem_lookup_iff.mp hlookup) with ⟨⟩
  exact ⟨rfl, rfl⟩

/-- A rule to another gate is not. -/
theorem rule_is_not_restored :
    init ExactRules.grantAll ExactRules.lowHalfArg = .ok savedLowHalf ∧
      ¬ Restores ExactRules.grantAll (fun _ _ => true)
        (run (fun _ _ => true) [.setDefaultGate 2, .rule (ExactRules.byteRuleTo 1 0x05)]
          savedLowHalf) := by
  refine ⟨rfl, ?_⟩
  rintro ⟨m', hm', -, hsame⟩
  have hinit : init ExactRules.grantAll ExactRules.lowHalfArg = .ok savedLowHalf := rfl
  have hkept : Kept savedLowHalf (run (fun _ _ => true)
      [.setDefaultGate 2, .rule (ExactRules.byteRuleTo 1 0x05)] savedLowHalf) :=
    Kept.run ⟨rfl, rfl⟩ _ _
  rcases restored hinit hkept rfl fun _ _ => true with ⟨m'', hm'', -, hdefault⟩
  cases hm'.symm.trans hm''
  have hgate := congrArg Prod.fst
    ((hdefault (fun _ => 0) (ExactRules.bytesPacket 0x05)).symm.trans (hsame _ _))
  exact absurd hgate (by decide)

end SavedModule

end Upf.Bess
