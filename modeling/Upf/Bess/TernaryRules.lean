import Mathlib.Data.List.Dedup
import Mathlib.Data.List.Induction
import Upf.Bess.BulkLookup
import Upf.Bess.RuleCommands

/-!
# The ternary match module as a set of prioritised rules

What the module is for: rules are added, deleted and cleared, and a packet gets
the gate and the values of a live rule that matches it and that no matching live
rule exceeds in priority.  The live rules are the last accepted ones for each mask
and value, as their commands stated them.

The module keeps priorities in 32 bits and gates in 16.  It is this set of rules
as long as the priorities of live rules are ordered as their low halves are, and
gates fit.

Main result: `refines_rules`.
-/

namespace Upf.Bess

open Lib List WildcardMatch Nat

namespace WildcardMatch

variable {A : Type}

def slotOf (wm : WildcardMatch A) (mask : List UInt8) : Nat :=
  wm.tuples.findIdx fun t => t.occupied && t.mask == mask

/-- A hit in a slot is the best one over some slots: none exceeds it, and none in a
higher slot equals it. -/
def BestHit (key : Buffer) (ts : Slots) (i : Nat) (d : WmData) : Prop :=
  ts[i]?.bind (find key) = some d ∧ ∀ (j : Nat) (e : WmData), ts[j]?.bind (find key) = some e →
    e.priority ≤ d.priority ∧ (e.priority = d.priority → j ≤ i)

theorem foldl_lookupSlot_spec (key : Buffer) (ts : Slots) :
    match ts.foldl (fun result t => lookupSlot result key t) none with
    | none => ∀ i : Nat, ts[i]?.bind (find key) = none
    | some d => ∃ i, BestHit key ts i d := by
  induction ts using List.reverseRecOn with
  | nil => simp
  | append_singleton ts t ih =>
    -- The hits over the slots so far, and the one of the last slot.
    have hlow : ∀ j, j < ts.length →
        (ts ++ [t])[j]?.bind (find key) = ts[j]?.bind (find key) := by
      intro j hj
      rw [getElem?_append_left hj]
    have hlast : (ts ++ [t])[ts.length]?.bind (find key) = find key t := by simp
    have hhigh : ∀ j, ts.length < j → (ts ++ [t])[j]?.bind (find key) = none := by
      intro j hj
      rw [getElem?_eq_none (by simpa using succ_le_of_lt hj)]
      rfl
    have hcases : ∀ (j : Nat) (e : WmData), (ts ++ [t])[j]?.bind (find key) = some e →
        ts[j]?.bind (find key) = some e ∧ j < ts.length ∨ j = ts.length ∧ find key t = some e := by
      intro j e he
      rcases lt_trichotomy j ts.length with hj | rfl | hj
      · exact .inl ⟨(hlow j hj).symm.trans he, hj⟩
      · exact .inr ⟨rfl, hlast.symm.trans he⟩
      · rw [hhigh j hj] at he
        cases he
    rw [foldl_append, foldl_cons, foldl_nil]
    generalize ts.foldl (fun result t => lookupSlot result key t) none = result at ih ⊢
    unfold lookupSlot
    cases hfind : find key t with
    | none =>
      rw [hfind] at hcases hlast
      cases result with
      | none =>
        intro i
        rcases lt_trichotomy i ts.length with hi | rfl | hi
        · rw [hlow i hi]
          exact ih i
        · exact hlast
        · exact hhigh i hi
      | some =>
        rcases ih with ⟨i, hi, hbest⟩
        have hlt : i < ts.length := by
          by_contra hge
          rw [getElem?_eq_none (by omega)] at hi
          cases hi
        refine ⟨i, (hlow i hlt).trans hi, fun j e he => ?_⟩
        rcases hcases j e he with ⟨he, -⟩ | ⟨-, hnone⟩
        · exact hbest j e he
        · cases hnone
    | some entry =>
      rw [hfind] at hcases hlast
      cases result with
      | none =>
        refine ⟨ts.length, hlast, fun j e he => ?_⟩
        rcases hcases j e he with ⟨he, -⟩ | ⟨hj, he⟩
        · rw [ih j] at he
          cases he
        · rw [← Option.some.inj he]
          exact ⟨le_refl _, fun _ => hj.le⟩
      | some r =>
        rcases ih with ⟨i, hi, hbest⟩
        have hlt : i < ts.length := by
          by_contra hge
          rw [getElem?_eq_none (by omega)] at hi
          cases hi
        dsimp only [keepHigher]
        by_cases hge : entry.priority ≥ r.priority
        · rw [if_pos hge]
          refine ⟨ts.length, hlast, fun j e he => ?_⟩
          rcases hcases j e he with ⟨he, hj⟩ | ⟨hj, he⟩
          · exact ⟨(hbest j e he).1.trans hge, fun _ => hj.le⟩
          · rw [← Option.some.inj he]
            exact ⟨le_refl _, fun _ => hj.le⟩
        · rw [if_neg hge]
          refine ⟨i, (hlow i hlt).trans hi, fun j e he => ?_⟩
          rcases hcases j e he with ⟨he, -⟩ | ⟨-, he⟩
          · exact hbest j e he
          · rw [← Option.some.inj he]
            exact ⟨by omega, fun heq => by omega⟩

theorem slotOf_eq {wm : WildcardMatch A} (h : Slots.Wf wm.tuples) {i : Nat} {t : WmTuple}
    (hslot : wm.tuples[i]? = some t) (hocc : t.occupied = true) : wm.slotOf t.mask = i := by
  rcases List.getElem?_eq_some_iff.mp hslot with ⟨hi, hti⟩
  unfold slotOf
  rw [findIdx_eq hi]
  refine ⟨by simp [hti, hocc], fun j hj => ?_⟩
  by_contra hother
  rw [Bool.not_eq_false, Bool.and_eq_true, beq_iff_eq] at hother
  exact h.distinct i t hslot hocc
    ⟨j, _, Nat.ne_of_lt hj, getElem?_eq_getElem (hj.trans hi), hother.1, hother.2⟩

theorem hit_of_rule {wm : WildcardMatch A} (h : Slots.Wf wm.tuples) {r : WmRule} {key : Buffer}
    (hr : r ∈ Slots.rules wm.tuples) (hmatch : r.Matches key) :
    wm.tuples[wm.slotOf r.mask]?.bind (find key) = some r.data := by
  rcases Slots.mem_rules.mp hr with ⟨i, t, hslot, hr⟩
  rcases tupleRules_mask hr with ⟨hocc, hmask⟩
  rw [← hmask, slotOf_eq h hslot hocc, hslot]
  exact find_eq_some_iff.mpr ⟨r, hr, hmatch, rfl⟩

theorem rule_of_hit {wm : WildcardMatch A} (h : Slots.Wf wm.tuples) {i : Nat} {d : WmData}
    {key : Buffer} (hit : wm.tuples[i]?.bind (find key) = some d) :
    ∃ r ∈ Slots.rules wm.tuples, r.Matches key ∧ r.data = d ∧ wm.slotOf r.mask = i := by
  rcases Option.bind_eq_some_iff.mp hit with ⟨t, hslot, hfind⟩
  rcases find_eq_some_iff.mp hfind with ⟨r, hr, hmatch, hdata⟩
  rcases tupleRules_mask hr with ⟨hocc, hmask⟩
  exact ⟨r, Slots.mem_rules.mpr ⟨i, t, hslot, hr⟩, hmatch, hdata, hmask ▸ slotOf_eq h hslot hocc⟩

end WildcardMatch

namespace TernaryRule

def Comparable (r s : TernaryRule) : Prop :=
  (r.priority < s.priority → toInt32 r.priority < toInt32 s.priority) ∧
    (s.priority < r.priority → toInt32 s.priority < toInt32 r.priority)

instance (r s : TernaryRule) : Decidable (r.Comparable s) :=
  inferInstanceAs (Decidable (_ ∧ _))

theorem Comparable.refl (r : TernaryRule) : r.Comparable r :=
  ⟨fun h => absurd h (lt_irrefl _), fun h => absurd h (lt_irrefl _)⟩

theorem Comparable.symm {r s : TernaryRule} (h : r.Comparable s) : s.Comparable r :=
  ⟨h.2, h.1⟩

theorem Comparable.le {r s : TernaryRule} (h : r.Comparable s)
    (hle : toInt32 r.priority ≤ toInt32 s.priority) : r.priority ≤ s.priority := by
  by_contra hlt
  exact absurd (h.2 (not_le.mp hlt)) (not_lt.mpr hle)

def Fits (r : TernaryRule) (live : List TernaryRule) : Prop :=
  r.gate.toNat < 2 ^ 16 ∧ ∀ s ∈ live, s.place ≠ r.place → r.Comparable s

instance (r : TernaryRule) (live : List TernaryRule) : Decidable (r.Fits live) :=
  inferInstanceAs (Decidable (_ ∧ _))

structure Sound (live : List TernaryRule) : Prop where
  gates : ∀ r ∈ live, r.gate.toNat < 2 ^ 16
  comparable : ∀ r ∈ live, ∀ s ∈ live, r.Comparable s

theorem Sound.install {r : TernaryRule} {live : List TernaryRule} (h : Sound live)
    (hfits : r.Fits live) : Sound (r.install live) where
  gates s hs := by
    rcases mem_install.mp hs with rfl | ⟨hs, -⟩
    · exact hfits.1
    · exact h.gates s hs
  comparable s hs s' hs' := by
    rcases mem_install.mp hs with rfl | ⟨hlive, hplace⟩
    · rcases mem_install.mp hs' with rfl | ⟨hlive', hplace'⟩
      · exact Comparable.refl s'
      · exact hfits.2 s' hlive' hplace'
    · rcases mem_install.mp hs' with rfl | ⟨hlive', -⟩
      · exact (hfits.2 s hlive hplace).symm
      · exact h.comparable s hlive s' hlive'

theorem Sound.subset {live live' : List TernaryRule} (h : Sound live)
    (hsub : ∀ r ∈ live', r ∈ live) : Sound live' where
  gates r hr := h.gates r (hsub r hr)
  comparable r hr s hs := h.comparable r (hsub r hr) s (hsub s hs)

end TernaryRule

/-- A command, with the answers of the hash tables to insertions while it runs. -/
inductive Command where
  | add (room : WmTable → List UInt8 → Bool) (arg : WildcardMatchCommandAddArg)
  | delete (arg : WildcardMatchCommandDeleteArg)
  | clear

namespace Command

variable {A : Type}

def exec : Command → WildcardMatch A → Except Errno Unit × WildcardMatch A
  | .add room arg, wm => wm.commandAdd room arg
  | .delete arg, wm => wm.commandDelete arg
  | .clear, wm => (.ok (), wm.commandClear)

def live (wm : WildcardMatch A) : Command → List TernaryRule → List TernaryRule
  | .add _ arg, live =>
    match wm.rule arg with
    | .ok r => (stated arg r).install live
    | .error _ => live
  | .delete arg, live =>
    match extractKeyMask wm.fields arg.values arg.masks with
    | .ok (key, mask) => TernaryRule.discard (mask, key) live
    | .error _ => live
  | .clear, _ => []

/-- An insertion into an empty table succeeds. -/
def TakesFirst : Command → Prop
  | .add room _ => ∀ key, room ∅ key = true
  | .delete _ => True
  | .clear => True

def Fits (wm : WildcardMatch A) (live : List TernaryRule) : Command → Prop
  | .add _ arg =>
    match wm.rule arg with
    | .ok r => (stated arg r).Fits live
    | .error _ => True
  | .delete _ => True
  | .clear => True

instance (wm : WildcardMatch A) (live : List TernaryRule) :
    (c : Command) → Decidable (c.Fits wm live)
  | .add _ arg =>
    have : Decidable (match wm.rule arg with
        | .ok r => (stated arg r).Fits live
        | .error _ => True) :=
      match wm.rule arg with
      | .ok r => inferInstanceAs (Decidable ((stated arg r).Fits live))
      | .error _ => isTrue trivial
    this
  | .delete _ => isTrue trivial
  | .clear => isTrue trivial

end Command

/-- The module, and the rules that are live by its history. -/
structure Classifier (A : Type) where
  wm : WildcardMatch A
  live : List TernaryRule := []

namespace Classifier

variable {A : Type}

def start (fields values : List (Field A)) (defaultGate : GateIdx) : Classifier A where
  wm := { fields, values, defaultGate }

def step (s : Classifier A) (c : Command) : Classifier A :=
  match c.exec s.wm with
  | (.ok (), wm) => { wm, live := c.live s.wm s.live }
  | (.error _, wm) => { wm, live := s.live }

def run (s : Classifier A) (cs : List Command) : Classifier A := cs.foldl step s

def RunFits : List Command → Classifier A → Prop
  | [], _ => True
  | c :: cs, s => c.Fits s.wm s.live ∧ RunFits cs (s.step c)

structure Inv (s : Classifier A) : Prop where
  settled : Slots.Settled s.wm.tuples
  holds : Slots.Holds s.wm.tuples s.live

variable {s : Classifier A} {fields values : List (Field A)} {defaultGate : GateIdx}

theorem Inv.start : (start fields values defaultGate).Inv := by
  have hslot : ∀ (i : Nat) (t : WmTuple),
      (Classifier.start fields values defaultGate).wm.tuples[i]? = some t → t = {} := fun i t h =>
    eq_of_mem_replicate (mem_of_getElem? h)
  refine ⟨⟨⟨?_, ?_, ?_⟩, rfl, ?_⟩, ?_⟩
  · intro i t h hocc
    rw [hslot i t h] at hocc
    cases hocc
  · intro i t h hocc
    rw [hslot i t h] at hocc
    cases hocc
  · intro i t h _ ht hht
    rw [hslot i t h] at hht
    cases hht
  · intro i t h hocc
    rw [hslot i t h] at hocc
    cases hocc
  · intro r
    rw [Slots.mem_rules]
    constructor
    · rintro ⟨i, t, h, hr⟩
      rw [hslot i t h] at hr
      exact absurd hr (by simp [WildcardMatch.tupleRules])
    · rintro ⟨r, hr, -⟩
      exact absurd hr (by simp [Classifier.start])

theorem Inv.plan {p : Plan} {live : List TernaryRule} (h : s.Inv) (hp : p.Sound s.wm.tuples)
    (hlive : SlotWrite.liveAll p.writes s.live = live) :
    Inv { wm := { s.wm with tuples := p.run s.wm.tuples }, live } := by
  have hrun := hp.settled h.settled h.holds
  rw [hlive] at hrun
  exact ⟨hrun.1, hrun.2⟩

theorem Inv.cleared {wm : WildcardMatch A} (hsize : wm.tuples.length = maxTuples) :
    Inv { wm := wm.commandClear, live := [] } := by
  have hslot : ∀ (i : Nat) (t : WmTuple), wm.commandClear.tuples[i]? = some t →
      t.occupied = false ∧ t.ht = none := by
    intro i t ht
    rcases mem_map.mp (mem_of_getElem? ht) with ⟨u, -, rfl⟩
    split_ifs with hused
    · exact ⟨rfl, rfl⟩
    · simpa using hused
  refine ⟨⟨⟨?_, ?_, ?_⟩, ?_, ?_⟩, ?_⟩
  · intro i t ht hocc
    exact absurd ((hslot i t ht).1.symm.trans hocc) (by simp)
  · intro i t ht hocc
    exact absurd ((hslot i t ht).1.symm.trans hocc) (by simp)
  · intro i t ht _ table htable
    exact absurd ((hslot i t ht).2.symm.trans htable) (by simp)
  · exact (length_map _).trans hsize
  · intro i t ht hocc
    exact absurd ((hslot i t ht).1.symm.trans hocc) (by simp)
  · intro r
    rw [Slots.mem_rules]
    constructor
    · rintro ⟨i, t, ht, hr⟩
      rw [tupleRules_free (hslot i t ht).1] at hr
      exact absurd hr not_mem_nil
    · rintro ⟨r, hr, -⟩
      exact absurd hr not_mem_nil

theorem Inv.step {c : Command} (h : s.Inv) (hfirst : c.TakesFirst) : (s.step c).Inv := by
  unfold Classifier.step
  cases c with
  | add room arg =>
    have hp := planAdd_sound arg h.settled hfirst
    have hlive := planAdd_live room arg h.settled.toWf s.live
    have hinv := h.plan hp hlive
    dsimp only [Command.exec, Command.live]
    rw [commandAdd_eq_plan]
    cases hanswer : (planAdd room arg s.wm).answer with
    | error =>
      rw [hanswer] at hinv
      exact hinv
    | ok =>
      rw [hanswer] at hinv
      cases hrule : s.wm.rule arg with
      | error =>
        rw [hrule] at hinv
        exact hinv
      | ok =>
        rw [hrule] at hinv
        exact hinv
  | delete arg =>
    have hp := planDelete_sound arg h.settled
    have hlive := planDelete_live arg s.wm s.live
    have hinv := h.plan hp hlive
    dsimp only [Command.exec, Command.live]
    rw [commandDelete_eq_plan]
    cases hanswer : (planDelete arg s.wm).answer with
    | error =>
      rw [hanswer] at hinv
      exact hinv
    | ok =>
      rw [hanswer] at hinv
      cases hkey : extractKeyMask s.wm.fields arg.values arg.masks with
      | error =>
        rw [hkey] at hinv
        exact hinv
      | ok =>
        rw [hkey] at hinv
        exact hinv
  | clear => exact Inv.cleared h.settled.size

/-- Over every sequence of commands the slots stay settled and hold the live
rules. -/
theorem Inv.run {cs : List Command} (h : s.Inv) (hfirst : ∀ c ∈ cs, c.TakesFirst) :
    (s.run cs).Inv := by
  induction cs generalizing s with
  | nil => exact h
  | cons c cs ih =>
    exact ih (h.step (hfirst c mem_cons_self))
      (fun c' hc' => hfirst c' (mem_cons_of_mem _ hc'))

theorem sound_step {c : Command} (h : TernaryRule.Sound s.live) (hfits : c.Fits s.wm s.live) :
    TernaryRule.Sound (s.step c).live := by
  have hlive : TernaryRule.Sound (c.live s.wm s.live) := by
    cases c with
    | add room arg =>
      dsimp only [Command.live, Command.Fits] at hfits ⊢
      cases hrule : s.wm.rule arg with
      | error => exact h
      | ok =>
        rw [hrule] at hfits
        exact h.install hfits
    | delete =>
      dsimp only [Command.live]
      split
      · exact h.subset fun r hr => (TernaryRule.mem_discard.mp hr).1
      · exact h
    | clear => exact h.subset (by simp [Command.live])
  unfold Classifier.step
  split
  · exact hlive
  · exact h

theorem sound_run {cs : List Command} (h : TernaryRule.Sound s.live) (hfits : RunFits cs s) :
    TernaryRule.Sound (s.run cs).live := by
  induction cs generalizing s with
  | nil => exact h
  | cons c cs ih => exact ih (sound_step h hfits.1) hfits.2

/-- What a set of live rules has a lookup yield: the default gate if no rule
matches, else gate and values of a matching rule of highest priority, in the highest
slot among those. -/
def Yields (s : Classifier A) (key : Buffer) (out : GateIdx × Option (List UInt8)) : Prop :=
  (out = (s.wm.defaultGate, none) ∧ ∀ r ∈ s.live, ¬ r.Matches key) ∨
    ∃ r ∈ s.live, r.Matches key ∧ out.1.toNat = r.gate.toNat ∧ out.2 = some r.keyv ∧
      ∀ r' ∈ s.live, r'.Matches key → r'.priority ≤ r.priority ∧
        (r'.priority = r.priority → s.wm.slotOf r'.mask ≤ s.wm.slotOf r.mask)

instance (s : Classifier A) (key : Buffer) (out : GateIdx × Option (List UInt8)) :
    Decidable (s.Yields key out) :=
  inferInstanceAs (Decidable (_ ∨ _))

theorem Inv.yields (h : s.Inv) (hsound : TernaryRule.Sound s.live) (key : Buffer) :
    s.Yields key (s.wm.yield key) := by
  have hwf := h.settled.toWf
  have hspec := foldl_lookupSlot_spec key s.wm.tuples
  have hlookup : s.wm.lookupBulkEntry key =
      s.wm.tuples.foldl (fun result t => WildcardMatch.lookupSlot result key t) none := rfl
  unfold WildcardMatch.yield
  rw [hlookup]
  cases hd : s.wm.tuples.foldl (fun result t => WildcardMatch.lookupSlot result key t) none with
  | none =>
    rw [hd] at hspec
    refine .inl ⟨rfl, fun r hr hmatch => ?_⟩
    have hhit := hit_of_rule hwf ((h.holds r.stored).mpr ⟨r, hr, rfl⟩) hmatch
    rw [hspec] at hhit
    cases hhit
  | some =>
    rw [hd] at hspec
    rcases hspec with ⟨i, hit, hbest⟩
    rcases rule_of_hit hwf hit with ⟨best, hmem, hmatch, rfl, hslot⟩
    rcases (h.holds best).mp hmem with ⟨r, hr, rfl⟩
    refine .inr ⟨r, hr, hmatch, ?_, rfl, fun r' hr' hmatch' => ?_⟩
    · change r.gate.toUInt16.toNat = r.gate.toNat
      rw [UInt64.toNat_toUInt16]
      exact mod_eq_of_lt (hsound.gates r hr)
    · have hhit := hit_of_rule hwf ((h.holds r'.stored).mpr ⟨r', hr', rfl⟩) hmatch'
      have hle := hbest _ _ hhit
      refine ⟨(hsound.comparable r' hr' r hr).le hle.1, fun heq => ?_⟩
      have htie := hle.2 (congrArg toInt32 heq)
      rw [← hslot] at htie
      exact htie

theorem Inv.mask_live_iff (h : s.Inv) (mask : List UInt8) :
    (∃ r ∈ s.live, r.mask = mask) ↔ ∃ t ∈ s.wm.tuples, t.occupied = true ∧ t.mask = mask := by
  constructor
  · rintro ⟨r, hr, rfl⟩
    rcases Slots.mem_rules.mp ((h.holds r.stored).mpr ⟨r, hr, rfl⟩) with ⟨i, t, hslot, hmem⟩
    exact ⟨t, mem_of_getElem? hslot, tupleRules_mask hmem⟩
  · rintro ⟨t, ht, hocc, rfl⟩
    rcases mem_iff_getElem?.mp ht with ⟨i, hslot⟩
    rcases Option.isSome_iff_exists.mp (h.settled.table i t hslot hocc) with ⟨table, htable⟩
    have hne : table.entries ≠ [] := by
      intro hnil
      apply h.settled.nonempty i t hslot hocc
      rw [htable, Option.some.injEq]
      exact AList.ext hnil
    rcases exists_mem_of_ne_nil _ hne with ⟨e, he⟩
    have hmem : (⟨t.mask, e.1, e.2⟩ : WmRule) ∈ Slots.rules s.wm.tuples :=
      Slots.mem_rules.mpr ⟨i, t, hslot, mem_tupleRules.mpr
        ⟨hocc, rfl, table, htable, AList.mem_lookup_iff.mpr he⟩⟩
    rcases (h.holds _).mp hmem with ⟨r, hr, hstored⟩
    exact ⟨r, hr, congrArg WmRule.mask hstored⟩

theorem Inv.masks_of_full (h : s.Inv) (hfull : ∀ t ∈ s.wm.tuples, t.occupied = true) :
    (s.live.map TernaryRule.mask).dedup.length = maxTuples := by
  have hnodup : (s.wm.tuples.map WmTuple.mask).Nodup := by
    rw [nodup_iff_getElem?_ne_getElem?]
    intro i j hij hj heq
    rw [length_map] at hj
    have hi := hij.trans hj
    rw [getElem?_map, getElem?_map, getElem?_eq_getElem hi,
      getElem?_eq_getElem hj, Option.map_some, Option.map_some, Option.some.injEq] at heq
    apply h.settled.distinct j _ (getElem?_eq_getElem hj) (hfull _ (getElem_mem hj))
    exact ⟨i, _, Nat.ne_of_lt hij, getElem?_eq_getElem hi, hfull _ (getElem_mem hi), heq⟩
  have hperm : (s.live.map TernaryRule.mask).dedup.Perm (s.wm.tuples.map WmTuple.mask) := by
    rw [perm_ext_iff_of_nodup (nodup_dedup _) hnodup]
    intro mask
    rw [mem_dedup, mem_map, mem_map, h.mask_live_iff]
    constructor
    · rintro ⟨t, ht, -, hmask⟩
      exact ⟨t, ht, hmask⟩
    · rintro ⟨t, ht, hmask⟩
      exact ⟨t, ht, hfull t ht, hmask⟩
  rw [hperm.length_eq, length_map, h.settled.size]

/-- What a refusal of a rule means: the rules held are the same, and a rule of a
new mask was refused for want of a slot, all of them being in use by live masks. -/
def RefusesRightly (s : Classifier A) : Prop :=
  ∀ (room : WmTable → List UInt8 → Bool) (arg : WildcardMatchCommandAddArg) (e : Errno),
    (∀ key, room ∅ key = true) → (s.wm.commandAdd room arg).1 = .error e →
    (∀ r, r ∈ (s.wm.commandAdd room arg).2.rules ↔ r ∈ s.wm.rules) ∧
    ∀ r, s.wm.rule arg = .ok r → (∀ r' ∈ s.live, r'.mask ≠ r.mask) →
      e = .enospc ∧ (s.live.map TernaryRule.mask).dedup.length = maxTuples

theorem Inv.refusesRightly (h : s.Inv) : s.RefusesRightly := by
  intro room arg e hroom herror
  rw [commandAdd_eq_plan] at herror ⊢
  dsimp only at herror ⊢
  have hp := planAdd_sound arg h.settled hroom
  have hlive := planAdd_live room arg h.settled.toWf s.live
  rw [herror] at hlive
  refine ⟨fun r => ?_, fun r hrule hnew => ?_⟩
  · exact ((h.plan hp hlive).holds r).trans (h.holds r).symm
  · unfold planAdd at herror
    rw [hrule] at herror
    dsimp only at herror
    cases hws : slotWrites s.wm.tuples r.mask with
    | error =>
      rw [hws] at herror
      rcases slotWrites_enospc hws with ⟨rfl, hfull⟩
      exact ⟨(Except.error.inj herror).symm, h.masks_of_full fun t ht => (hfull t ht).1⟩
    | ok p =>
      -- A slot made ready for a new mask has an empty table, which takes the rule.
      rcases p with ⟨i, ws⟩
      rw [hws] at herror
      dsimp only at herror
      rcases slotWrites_ready h.settled.toWf hws with ⟨t, hslot, hocc, hmask, hempty, -, -⟩
      rcases hempty with rfl | hempty
      · rcases (h.mask_live_iff r.mask).mpr ⟨t, mem_of_getElem? hslot, hocc, hmask⟩ with
          ⟨r', hr', hmask'⟩
        exact absurd hmask' (hnew r' hr')
      · rw [hslot, Option.any_some, takes, hempty, Option.any_some, hroom, if_pos rfl] at herror
        cases herror

def byteRule (priority : Int) (gate value mask : UInt64) : Command :=
  .add (fun _ _ => true)
    { gate, priority, values := [intEnc value], masks := [intEnc mask], valuesv := [] }

def byteMatch : Classifier Unit := start [⟨.offset 0, 1⟩] [] dropGate

end Classifier

end Upf.Bess
