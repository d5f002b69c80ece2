import Upf.Bess.WildcardMatch

/-!
# The slots of the ternary match module

A command that adds or deletes a rule is a sequence of single writes to one slot:
its mask, its table, its occupied flag, an entry of its table.  The slots are in
order after every one of these writes, and not only after the whole command, since
a released slot keeps an empty table and a slot is taken before its table is
filled.

A rule is stated by a command with a 64-bit priority and a 64-bit gate.  What the
module stores of them is narrower.
-/

namespace Upf.Bess

open Lib List Option AList WildcardMatch

structure TernaryRule where
  mask : List UInt8
  key : List UInt8
  priority : Int
  gate : UInt64
  keyv : List UInt8
deriving DecidableEq

namespace TernaryRule

def place (r : TernaryRule) : List UInt8 × List UInt8 := (r.mask, r.key)

def Matches (r : TernaryRule) (key : Buffer) : Prop := maskKey key r.mask = r.key

instance (r : TernaryRule) (key : Buffer) : Decidable (r.Matches key) :=
  inferInstanceAs (Decidable (maskKey key r.mask = r.key))

def stored (r : TernaryRule) : WmRule where
  mask := r.mask
  key := r.key
  data := { priority := toInt32 r.priority, ogate := r.gate.toUInt16, keyv := r.keyv }

def install (r : TernaryRule) (live : List TernaryRule) : List TernaryRule :=
  r :: live.filter fun s => s.place ≠ r.place

def discard (place : List UInt8 × List UInt8) (live : List TernaryRule) : List TernaryRule :=
  live.filter fun s => s.place ≠ place

theorem mem_install {r s : TernaryRule} {live : List TernaryRule} :
    s ∈ r.install live ↔ s = r ∨ (s ∈ live ∧ s.place ≠ r.place) := by
  simp [install]

theorem mem_discard {s : TernaryRule} {place : List UInt8 × List UInt8}
    {live : List TernaryRule} : s ∈ discard place live ↔ s ∈ live ∧ s.place ≠ place := by
  simp [discard]

end TernaryRule

def WmRule.place (r : WmRule) : List UInt8 × List UInt8 := (r.mask, r.key)

def stated (arg : WildcardMatchCommandAddArg) (r : WmRule) : TernaryRule where
  mask := r.mask
  key := r.key
  priority := arg.priority
  gate := arg.gate
  keyv := r.data.keyv

theorem stated_stored {A : Type} {wm : WildcardMatch A} {arg : WildcardMatchCommandAddArg}
    {r : WmRule} (h : wm.rule arg = .ok r) : (stated arg r).stored = r := by
  rcases bind_ok h with ⟨⟨key, mask⟩, -, h⟩
  dsimp only at h
  split_ifs at h
  rcases bind_ok h with ⟨keyv, -, h⟩
  rw [← Except.ok.inj h]
  rfl

abbrev Slots := List WmTuple

def OtherMask (ts : Slots) (i : Nat) (mask : List UInt8) : Prop :=
  ∃ (j : Nat) (t : WmTuple), j ≠ i ∧ ts[j]? = some t ∧ t.occupied = true ∧ t.mask = mask

namespace Slots

def rules (ts : Slots) : List WmRule := ts.flatMap WildcardMatch.tupleRules

/-- Slots in order: occupied ones have tables and masks of their own, and a
released one has an empty table if it has one. -/
structure Wf (ts : Slots) : Prop where
  distinct : ∀ (i : Nat) (t : WmTuple), ts[i]? = some t → t.occupied = true →
    ¬ OtherMask ts i t.mask
  table : ∀ (i : Nat) (t : WmTuple), ts[i]? = some t → t.occupied = true → t.ht.isSome = true
  released : ∀ (i : Nat) (t : WmTuple), ts[i]? = some t → t.occupied = false →
    ∀ ht, t.ht = some ht → ht = ∅

/-- Slots between two commands: occupied ones also hold a rule. -/
structure Settled (ts : Slots) : Prop extends Wf ts where
  size : ts.length = maxTuples
  nonempty : ∀ (i : Nat) (t : WmTuple), ts[i]? = some t → t.occupied = true → t.ht ≠ some ∅

theorem Settled.size_pos {ts : Slots} (h : Settled ts) : 0 < ts.length := by
  rw [h.size]
  exact Nat.zero_lt_succ 15

def Holds (ts : Slots) (live : List TernaryRule) : Prop :=
  ∀ r, r ∈ ts.rules ↔ ∃ s ∈ live, s.stored = r

theorem mem_rules {ts : Slots} {r : WmRule} :
    r ∈ ts.rules ↔ ∃ (i : Nat) (t : WmTuple),
      ts[i]? = some t ∧ r ∈ WildcardMatch.tupleRules t := by
  unfold rules
  rw [mem_flatMap]
  constructor
  · rintro ⟨t, ht, hr⟩
    rcases mem_iff_getElem?.mp ht with ⟨i, hi⟩
    exact ⟨i, t, hi, hr⟩
  · rintro ⟨i, t, hi, hr⟩
    exact ⟨t, mem_of_getElem? hi, hr⟩

section Modify

variable {ts : Slots} {i : Nat} {t : WmTuple} {f : WmTuple → WmTuple}

theorem getElem?_modify_self (h : ts[i]? = some t) : (ts.modify i f)[i]? = some (f t) := by
  simp [h]

theorem getElem?_modify_ne {j : Nat} (h : j ≠ i) : (ts.modify i f)[j]? = ts[j]? := by
  simp [Ne.symm h]

theorem getElem?_modify_cases {j : Nat} {u : WmTuple} (hslot : ts[i]? = some t)
    (h : (ts.modify i f)[j]? = some u) : (j = i ∧ u = f t) ∨ (j ≠ i ∧ ts[j]? = some u) := by
  by_cases hj : j = i
  · subst hj
    rw [getElem?_modify_self hslot, some.injEq] at h
    exact .inl ⟨rfl, h.symm⟩
  · rw [getElem?_modify_ne hj] at h
    exact .inr ⟨hj, h⟩

theorem otherMask_modify {mask : List UInt8} :
    OtherMask (ts.modify i f) i mask ↔ OtherMask ts i mask := by
  constructor
  · rintro ⟨j, u, hj, hu, hocc, hmask⟩
    rw [getElem?_modify_ne hj] at hu
    exact ⟨j, u, hj, hu, hocc, hmask⟩
  · rintro ⟨j, u, hj, hu, hocc, hmask⟩
    exact ⟨j, u, hj, by rwa [getElem?_modify_ne hj], hocc, hmask⟩

/-- Changing a slot keeps the slots in order if the changed slot fits in. -/
theorem Wf.modify (h : Wf ts) (hslot : ts[i]? = some t)
    (hocc : (f t).occupied = true → (f t).ht.isSome = true ∧ ¬ OtherMask ts i (f t).mask)
    (hrel : (f t).occupied = false → ∀ ht, (f t).ht = some ht → ht = ∅) :
    Wf (ts.modify i f) := by
  refine ⟨?_, ?_, ?_⟩
  · intro j u hu huocc
    rcases getElem?_modify_cases hslot hu with ⟨rfl, rfl⟩ | ⟨hj, hu⟩
    · rw [otherMask_modify]
      exact (hocc huocc).2
    · rintro ⟨k, v, hk, hv, hvocc, hmask⟩
      rcases getElem?_modify_cases hslot hv with ⟨-, rfl⟩ | ⟨-, hv⟩
      · exact (hocc hvocc).2 ⟨j, u, hj, hu, huocc, hmask.symm⟩
      · exact h.distinct j u hu huocc ⟨k, v, hk, hv, hvocc, hmask⟩
  · intro j u hu huocc
    rcases getElem?_modify_cases hslot hu with ⟨rfl, rfl⟩ | ⟨-, hu⟩
    · exact (hocc huocc).1
    · exact h.table j u hu huocc
  · intro j u hu huocc
    rcases getElem?_modify_cases hslot hu with ⟨rfl, rfl⟩ | ⟨-, hu⟩
    · exact hrel huocc
    · exact h.released j u hu huocc

theorem mem_rules_modify {r : WmRule} (hslot : ts[i]? = some t) :
    r ∈ Slots.rules (ts.modify i f) ↔ r ∈ WildcardMatch.tupleRules (f t) ∨
      ∃ (j : Nat) (u : WmTuple), j ≠ i ∧ ts[j]? = some u ∧ r ∈ WildcardMatch.tupleRules u := by
  rw [mem_rules]
  constructor
  · rintro ⟨j, u, hu, hr⟩
    rcases getElem?_modify_cases hslot hu with ⟨-, rfl⟩ | ⟨hj, hu⟩
    · exact .inl hr
    · exact .inr ⟨j, u, hj, hu, hr⟩
  · rintro (hr | ⟨j, u, hj, hu, hr⟩)
    · exact ⟨i, f t, getElem?_modify_self hslot, hr⟩
    · exact ⟨j, u, by rwa [getElem?_modify_ne hj], hr⟩

theorem mem_rules_split {r : WmRule} (hslot : ts[i]? = some t) :
    r ∈ ts.rules ↔ r ∈ WildcardMatch.tupleRules t ∨
      ∃ (j : Nat) (u : WmTuple), j ≠ i ∧ ts[j]? = some u ∧ r ∈ WildcardMatch.tupleRules u := by
  have h := mem_rules_modify (f := id) (r := r) hslot
  rwa [modify_id] at h

end Modify

end Slots

/-- A write to a slot, or the pause of the workers around some.  The entry of a
rule carries the rule as it was stated. -/
inductive SlotWrite where
  | pause
  | resume
  | setMask (mask : List UInt8)
  | setTable
  | setOccupied (occupied : Bool)
  | insert (r : TernaryRule)
  | remove (mask key : List UInt8)

namespace SlotWrite

def apply : SlotWrite → WmTuple → WmTuple
  | .pause, t => t
  | .resume, t => t
  | .setMask mask, t => { t with mask }
  | .setTable, t => { t with ht := some ∅ }
  | .setOccupied occupied, t => { t with occupied }
  | .insert r, t => { t with ht := t.ht.map fun ht => ht.insert r.key r.stored.data }
  | .remove _ key, t => { t with ht := t.ht.map fun ht => ht.erase key }

def applyAll (ws : List SlotWrite) (t : WmTuple) : WmTuple := ws.foldl (fun t w => w.apply t) t

def live : SlotWrite → List TernaryRule → List TernaryRule
  | .insert r, live => r.install live
  | .remove mask key, live => TernaryRule.discard (mask, key) live
  | _, live => live

def liveAll (ws : List SlotWrite) (live : List TernaryRule) : List TernaryRule :=
  ws.foldl (fun live w => w.live live) live

/-- A write that leaves the entries of the table alone. -/
def quiet : SlotWrite → Bool
  | .insert _ => false
  | .remove _ _ => false
  | _ => true

def pausing : SlotWrite → Bool → Bool
  | .pause, _ => true
  | .resume, _ => false
  | _, paused => paused

/-- When a write may be made.  A mask changes only where no worker can be using
it: the slot is free, and has no table unless the workers are paused. -/
def Safe (other : List UInt8 → Prop) (paused : Bool) (t : WmTuple) : SlotWrite → Prop
  | .pause => True
  | .resume => True
  | .setMask _ => t.occupied = false ∧ (t.ht = none ∨ paused = true)
  | .setTable => t.occupied = false ∧ t.ht = none
  | .setOccupied true => t.occupied = false ∧ t.ht.isSome = true ∧ ¬ other t.mask
  | .setOccupied false => t.ht = some ∅
  | .insert r => t.occupied = true ∧ t.mask = r.mask
  | .remove mask _ => t.occupied = true ∧ t.mask = mask

def Safely (other : List UInt8 → Prop) : Bool → WmTuple → List SlotWrite → Prop
  | paused, _, [] => paused = false
  | paused, t, w :: ws =>
    w.Safe other paused t ∧ Safely other (w.pausing paused) (w.apply t) ws

end SlotWrite

theorem SlotWrite.live_of_quiet {w : SlotWrite} (h : w.quiet = true) (live : List TernaryRule) :
    w.live live = live := by
  cases w <;> first | rfl | exact absurd h (by simp [SlotWrite.quiet])

theorem SlotWrite.liveAll_of_quiet {ws : List SlotWrite} (h : ∀ w ∈ ws, w.quiet = true)
    (live : List TernaryRule) : SlotWrite.liveAll ws live = live := by
  induction ws with
  | nil => rfl
  | cons w ws ih =>
    change SlotWrite.liveAll ws (w.live live) = live
    rw [live_of_quiet (h w mem_cons_self)]
    exact ih fun w' hw' => h w' (mem_cons_of_mem _ hw')

section Tuple

variable {t : WmTuple} {r : WmRule}

theorem tupleRules_free (h : t.occupied = false) : WildcardMatch.tupleRules t = [] := by
  simp [WildcardMatch.tupleRules, h]

theorem tupleRules_empty (h : t.ht = some ∅) : WildcardMatch.tupleRules t = [] := by
  unfold WildcardMatch.tupleRules
  split
  · rename_i ht _ hht
    rw [h, some.injEq] at hht
    subst hht
    rfl
  · rfl

theorem tupleRules_mask (h : r ∈ WildcardMatch.tupleRules t) :
    t.occupied = true ∧ t.mask = r.mask :=
  ⟨(mem_tupleRules.mp h).1, (mem_tupleRules.mp h).2.1⟩

theorem mem_tupleRules_insert {s : TernaryRule} (hocc : t.occupied = true)
    (hmask : t.mask = s.mask) (htable : t.ht.isSome = true) :
    r ∈ WildcardMatch.tupleRules ((SlotWrite.insert s).apply t) ↔
      r = s.stored ∨ (r ∈ WildcardMatch.tupleRules t ∧ r.key ≠ s.key) := by
  rcases isSome_iff_exists.mp htable with ⟨ht, hht⟩
  simp only [mem_tupleRules, SlotWrite.apply, hht, map_some,
    some.injEq, exists_eq_left', hocc, true_and]
  by_cases hkey : r.key = s.key
  · rw [hkey, lookup_insert, some.injEq]
    constructor
    · rintro ⟨hrmask, hdata⟩
      left
      rcases r with ⟨rmask, rkey, rdata⟩
      dsimp only at hkey hrmask hdata
      rw [← hrmask, hmask, hkey, ← hdata]
      rfl
    · rintro (rfl | ⟨-, hne⟩)
      · exact ⟨hmask, rfl⟩
      · exact absurd rfl hne
  · rw [lookup_insert_ne hkey]
    constructor
    · exact fun h => Or.inr ⟨h, hkey⟩
    · rintro (rfl | ⟨h, -⟩)
      · exact absurd rfl hkey
      · exact h

theorem mem_tupleRules_remove {mask key : List UInt8} :
    r ∈ WildcardMatch.tupleRules ((SlotWrite.remove mask key).apply t) ↔
      r ∈ WildcardMatch.tupleRules t ∧ r.key ≠ key := by
  simp only [mem_tupleRules, SlotWrite.apply, map_eq_some_iff]
  constructor
  · rintro ⟨hocc, hmask, _, ⟨ht, hht, rfl⟩, hlook⟩
    by_cases hkey : r.key = key
    · rw [hkey, lookup_erase] at hlook
      cases hlook
    · rw [lookup_erase_ne hkey] at hlook
      exact ⟨⟨hocc, hmask, ht, hht, hlook⟩, hkey⟩
  · rintro ⟨⟨hocc, hmask, ht, hht, hlook⟩, hkey⟩
    exact ⟨hocc, hmask, ht.erase key, ⟨ht, hht, rfl⟩, by rwa [lookup_erase_ne hkey]⟩

end Tuple

section Write

variable {ts : Slots} {i : Nat} {t : WmTuple} {w : SlotWrite} {paused : Bool}

theorem Slots.Wf.write (h : Slots.Wf ts) (hslot : ts[i]? = some t)
    (hsafe : w.Safe (OtherMask ts i) paused t) : Slots.Wf (ts.modify i w.apply) := by
  have hdistinct := h.distinct i t hslot
  have htable := h.table i t hslot
  have hreleased := h.released i t hslot
  apply h.modify hslot
  · intro hocc
    cases w with
    | pause => exact ⟨htable hocc, hdistinct hocc⟩
    | resume => exact ⟨htable hocc, hdistinct hocc⟩
    | setMask => exact absurd (hsafe.1.symm.trans hocc) (by simp)
    | setTable => exact absurd (hsafe.1.symm.trans hocc) (by simp)
    | setOccupied =>
      cases hocc
      exact ⟨hsafe.2.1, hsafe.2.2⟩
    | insert => exact ⟨by simpa [SlotWrite.apply] using htable hocc, hdistinct hocc⟩
    | remove => exact ⟨by simpa [SlotWrite.apply] using htable hocc, hdistinct hocc⟩
  · intro hocc
    cases w with
    | pause => exact hreleased hocc
    | resume => exact hreleased hocc
    | setMask => exact hreleased hocc
    | setTable =>
      intro ht hht
      exact (Option.some.inj hht).symm
    | setOccupied =>
      cases hocc
      intro ht hht
      exact Option.some.inj (hht.symm.trans hsafe)
    | insert => exact absurd (hsafe.1.symm.trans hocc) (by simp)
    | remove => exact absurd (hsafe.1.symm.trans hocc) (by simp)

theorem Slots.mem_rules_quiet {r : WmRule} (hslot : ts[i]? = some t)
    (h : WildcardMatch.tupleRules (w.apply t) = WildcardMatch.tupleRules t) :
    r ∈ Slots.rules (ts.modify i w.apply) ↔ r ∈ ts.rules := by
  rw [Slots.mem_rules_modify hslot, Slots.mem_rules_split hslot, h]

theorem Slots.Wf.mem_rules_iff {r : WmRule} (h : Slots.Wf ts) (hslot : ts[i]? = some t)
    (hocc : t.occupied = true) (hmask : r.mask = t.mask) :
    r ∈ ts.rules ↔ r ∈ WildcardMatch.tupleRules t := by
  rw [Slots.mem_rules_split hslot]
  constructor
  · rintro (hr | ⟨j, u, hj, hu, hr⟩)
    · exact hr
    · rcases tupleRules_mask hr with ⟨huocc, humask⟩
      exact absurd ⟨j, u, hj, hu, huocc, humask.trans hmask⟩ (h.distinct i t hslot hocc)
  · exact .inl

theorem Slots.Wf.mem_rules_change {r : WmRule} (h : Slots.Wf ts) (hslot : ts[i]? = some t)
    (hocc : t.occupied = true) :
    r ∈ Slots.rules (ts.modify i w.apply) ↔ r ∈ WildcardMatch.tupleRules (w.apply t) ∨
      (r ∈ ts.rules ∧ r.mask ≠ t.mask) := by
  rw [Slots.mem_rules_modify hslot]
  constructor
  · rintro (hr | ⟨j, u, hj, hu, hr⟩)
    · exact .inl hr
    · refine .inr ⟨Slots.mem_rules.mpr ⟨j, u, hu, hr⟩, fun hmask => ?_⟩
      rcases tupleRules_mask hr with ⟨huocc, humask⟩
      exact h.distinct i t hslot hocc ⟨j, u, hj, hu, huocc, humask.trans hmask⟩
  · rintro (hr | ⟨hr, hmask⟩)
    · exact .inl hr
    · rcases (Slots.mem_rules_split hslot).mp hr with hr | hr
      · exact absurd (tupleRules_mask hr).2.symm hmask
      · exact .inr hr

theorem Slots.Holds.write {live : List TernaryRule} (hholds : Slots.Holds ts live)
    (h : Slots.Wf ts) (hslot : ts[i]? = some t) (hsafe : w.Safe (OtherMask ts i) paused t) :
    Slots.Holds (ts.modify i w.apply) (w.live live) := by
  intro r
  cases w with
  | pause => exact (Slots.mem_rules_quiet hslot rfl).trans (hholds r)
  | resume => exact (Slots.mem_rules_quiet hslot rfl).trans (hholds r)
  | setMask mask =>
    have hquiet := (tupleRules_free (t := (SlotWrite.setMask mask).apply t) hsafe.1).trans
      (tupleRules_free hsafe.1).symm
    exact (Slots.mem_rules_quiet hslot hquiet).trans (hholds r)
  | setTable =>
    have hquiet := (tupleRules_free (t := SlotWrite.setTable.apply t) hsafe.1).trans
      (tupleRules_free hsafe.1).symm
    exact (Slots.mem_rules_quiet hslot hquiet).trans (hholds r)
  | setOccupied occupied =>
    -- The table is empty when a slot is taken and when it is released.
    have hempty : t.ht = some ∅ := by
      cases occupied with
      | false => exact hsafe
      | true =>
        rcases isSome_iff_exists.mp hsafe.2.1 with ⟨ht, hht⟩
        rw [hht, h.released i t hslot hsafe.1 ht hht]
    have hquiet := (tupleRules_empty (t := (SlotWrite.setOccupied occupied).apply t) hempty).trans
      (tupleRules_empty hempty).symm
    exact (Slots.mem_rules_quiet hslot hquiet).trans (hholds r)
  | insert s =>
    rcases hsafe with ⟨hocc, hmask⟩
    rw [h.mem_rules_change hslot hocc,
      mem_tupleRules_insert hocc hmask (h.table i t hslot hocc)]
    constructor
    · rintro ((rfl | ⟨hr, hkey⟩) | ⟨hr, hne⟩)
      · exact ⟨s, TernaryRule.mem_install.mpr (.inl rfl), rfl⟩
      · rcases (hholds r).mp (Slots.mem_rules.mpr ⟨i, t, hslot, hr⟩) with ⟨s', hs', rfl⟩
        refine ⟨s', TernaryRule.mem_install.mpr (.inr ⟨hs', fun hplace => ?_⟩), rfl⟩
        exact hkey (Prod.mk.inj hplace).2
      · rcases (hholds r).mp hr with ⟨s', hs', rfl⟩
        refine ⟨s', TernaryRule.mem_install.mpr (.inr ⟨hs', fun hplace => ?_⟩), rfl⟩
        exact hne ((Prod.mk.inj hplace).1.trans hmask.symm)
    · rintro ⟨s', hs', rfl⟩
      rcases TernaryRule.mem_install.mp hs' with rfl | ⟨hs', hplace⟩
      · exact .inl (.inl rfl)
      · have hr := (hholds s'.stored).mpr ⟨s', hs', rfl⟩
        by_cases hsame : s'.mask = t.mask
        · left
          right
          refine ⟨(h.mem_rules_iff hslot hocc hsame).mp hr, fun hkey => hplace ?_⟩
          exact Prod.ext (hsame.trans hmask) hkey
        · exact .inr ⟨hr, hsame⟩
  | remove =>
    rcases hsafe with ⟨hocc, hmask⟩
    rw [h.mem_rules_change hslot hocc, mem_tupleRules_remove]
    constructor
    · rintro (⟨hr, hkey⟩ | ⟨hr, hne⟩)
      · rcases (hholds r).mp (Slots.mem_rules.mpr ⟨i, t, hslot, hr⟩) with ⟨s', hs', rfl⟩
        refine ⟨s', TernaryRule.mem_discard.mpr ⟨hs', fun hplace => ?_⟩, rfl⟩
        exact hkey (Prod.mk.inj hplace).2
      · rcases (hholds r).mp hr with ⟨s', hs', rfl⟩
        refine ⟨s', TernaryRule.mem_discard.mpr ⟨hs', fun hplace => ?_⟩, rfl⟩
        exact hne ((Prod.mk.inj hplace).1.trans hmask.symm)
    · rintro ⟨s', hs', rfl⟩
      rcases TernaryRule.mem_discard.mp hs' with ⟨hs', hplace⟩
      have hr := (hholds s'.stored).mpr ⟨s', hs', rfl⟩
      by_cases hsame : s'.mask = t.mask
      · left
        refine ⟨(h.mem_rules_iff hslot hocc hsame).mp hr, fun hkey => hplace ?_⟩
        exact Prod.ext (hsame.trans hmask) hkey
      · exact .inr ⟨hr, hsame⟩

theorem Slots.Wf.writes {ws : List SlotWrite} {live : List TernaryRule} (h : Slots.Wf ts)
    (hholds : Slots.Holds ts live) (hslot : ts[i]? = some t)
    (hsafe : SlotWrite.Safely (OtherMask ts i) paused t ws) :
    Slots.Wf (ts.modify i (SlotWrite.applyAll ws)) ∧
      Slots.Holds (ts.modify i (SlotWrite.applyAll ws)) (SlotWrite.liveAll ws live) := by
  induction ws generalizing ts t paused live with
  | nil =>
    have hid : ts.modify i (SlotWrite.applyAll []) = ts := modify_id i ts
    rw [hid]
    exact ⟨h, hholds⟩
  | cons w ws ih =>
    have hother : OtherMask (ts.modify i w.apply) i = OtherMask ts i :=
      funext fun mask => propext Slots.otherMask_modify
    have hrest := ih (h.write hslot hsafe.1) (hholds.write h hslot hsafe.1)
      (Slots.getElem?_modify_self hslot) (by rw [hother]; exact hsafe.2)
    rwa [modify_modify_eq] at hrest

end Write

end Upf.Bess
