import Mathlib.Data.List.Count
import Upf.Bess.WildcardMatch

/-!
# Lookups of a whole batch

`LookupBulkEntry` looks up the keys of up to 64 packets together.  For each
slot in turn the hash table answers for all keys at once, with a mask of the keys
it has; the loop over the hits stops once as many were seen as the table counted.
A mask of the keys that were hit in any slot so far says which results are valid.
-/

namespace Upf.Bess

open Lib List Option Nat Function

def bulkMax : Nat := 64

/-- Bit `init` of a mask of hits, as the loops test it. -/
def bitAt (mask : BitVec 64) (init : Nat) : Bool := mask &&& (1#64 <<< init) != 0#64

theorem bitAt_eq {init : Nat} (h : init < bulkMax) (mask : BitVec 64) :
    bitAt mask init = mask.getLsbD init := by
  unfold bitAt
  rw [← BitVec.twoPow_eq, BitVec.and_twoPow]
  cases hbit : mask.getLsbD init with
  | false => simp
  | true =>
    have hne : BitVec.twoPow 64 init ≠ 0#64 := by
      intro heq
      have hself := BitVec.getLsbD_twoPow (w := 64) init init
      rw [heq] at hself
      simp [show init < 64 from h] at hself
    simpa using hne

/-- What a table answers for some keys: how many it has, which, and their data. -/
structure BulkHits where
  num : Nat
  hitmask : BitVec 64
  entry : Nat → Option WmData

/-- The hits among the keys from a place on. -/
def hitmaskFrom (hit : Nat → Bool) : Nat → BitVec 64
  | 0 => 0#64
  | n + 1 => if hit n then hitmaskFrom hit n ||| (1#64 <<< n) else hitmaskFrom hit n

def lookupBulkData (ht : WmTable) (keys : List (List UInt8)) : BulkHits :=
  let entry := fun i => keys[i]?.bind fun key => ht.lookup key
  { num := (List.range keys.length).countP fun i => (entry i).isSome
    hitmask := hitmaskFrom (fun i => (entry i).isSome) keys.length
    entry }

theorem getLsbD_hitmaskFrom {hit : Nat → Bool} {n i : Nat} (hn : n ≤ bulkMax) :
    (hitmaskFrom hit n).getLsbD i = (decide (i < n) && hit i) := by
  induction n with
  | zero => simp [hitmaskFrom]
  | succ n ih =>
    have hn64 : n < 64 := hn
    have hlow := ih (le_of_succ_le hn)
    unfold hitmaskFrom
    split
    · rename_i hhit
      rw [← BitVec.twoPow_eq, BitVec.getLsbD_or, hlow, BitVec.getLsbD_twoPow]
      rcases lt_trichotomy i n with hlt | rfl | hgt
      · simp [hlt, lt_succ_of_lt hlt, Nat.ne_of_gt hlt]
      · simp [hhit, hn64]
      · simp [Nat.not_lt_of_gt hgt, Nat.not_lt.mpr hgt, Nat.ne_of_lt hgt]
    · rename_i hhit
      rw [hlow]
      rcases lt_trichotomy i n with hlt | rfl | hgt
      · simp [hlt, lt_succ_of_lt hlt]
      · simp [hhit]
      · simp [Nat.not_lt_of_gt hgt, Nat.not_lt.mpr hgt]

/-- Take over a hit for one key: the first is kept, a later one if its priority is
not lower. -/
def takeHit (prev : Bool) (entry result : Option WmData) : Option WmData :=
  if prev = false then entry
  else
    match entry, result with
    | some e, some r => if e.priority ≥ r.priority then some e else some r
    | _, _ => result

def takeHits (prevHitmask : BitVec 64) (hits : BulkHits) :
    (left init num : Nat) → (Nat → Option WmData) → Nat → Option WmData
  | 0, _, _, result => result
  | left + 1, init, num, result =>
    if num = 0 then result
    else if bitAt hits.hitmask init then
      takeHits prevHitmask hits left (init + 1) (num - 1)
        (Function.update result init
          (takeHit (bitAt prevHitmask init) (hits.entry init) (result init)))
    else takeHits prevHitmask hits left (init + 1) num result

theorem takeHits_spec (prevHitmask : BitVec 64) {hits : BulkHits} {left init num : Nat}
    (result : Nat → Option WmData)
    (hnum : num = (List.range' init left).countP fun i => bitAt hits.hitmask i) (i : Nat) :
    takeHits prevHitmask hits left init num result i =
      if init ≤ i ∧ i < init + left ∧ bitAt hits.hitmask i = true then
        takeHit (bitAt prevHitmask i) (hits.entry i) (result i)
      else result i := by
  induction left generalizing init num result with
  | zero =>
    rw [if_neg (by omega)]
    rfl
  | succ left ih =>
    rw [range'_succ, countP_cons] at hnum
    unfold takeHits
    by_cases hzero : num = 0
    · -- No hit is left, here or further on.
      rw [if_pos hzero, if_neg]
      rintro ⟨hle, hlt, hbit⟩
      have hmem : i ∈ List.range' init (left + 1) := mem_range'_1.mpr ⟨hle, hlt⟩
      have hpos : 0 < (List.range' init (left + 1)).countP fun i => bitAt hits.hitmask i :=
        countP_pos_iff.mpr ⟨i, hmem, hbit⟩
      rw [range'_succ, countP_cons] at hpos
      omega
    rw [if_neg hzero]
    have hrange (hi : i ≠ init) : (init + 1 ≤ i ∧ i < init + 1 + left) ↔
        (init ≤ i ∧ i < init + (left + 1)) := by omega
    by_cases hbit : bitAt hits.hitmask init = true
    · rw [if_pos hbit] at hnum
      rw [if_pos hbit, ih _ (by omega)]
      by_cases hi : i = init
      · subst hi
        rw [if_neg (by omega), update_self, if_pos ⟨le_refl _, by omega, hbit⟩]
      · rw [update_of_ne hi]
        simp only [← and_assoc, hrange hi]
    · rw [if_neg hbit] at hnum
      rw [if_neg hbit, ih _ (by omega)]
      by_cases hi : i = init
      · subst hi
        rw [if_neg (by omega), if_neg (fun h => hbit h.2.2)]
      · simp only [← and_assoc, hrange hi]

/-- Hits so far, and a result for each key that was hit. -/
structure BulkState where
  prevHitmask : BitVec 64 := 0#64
  result : Nat → Option WmData := fun _ => none

namespace WildcardMatch

variable {A : Type}

def lookupTuple (keys : List Buffer) (s : BulkState) (t : WmTuple) : BulkState :=
  match t.occupied, t.ht with
  | true, some ht =>
    let hits := lookupBulkData ht (keys.map fun key => maskKey key t.mask)
    if hits.num = 0 then s
    else
      { prevHitmask := s.prevHitmask ||| hits.hitmask
        result := takeHits s.prevHitmask hits keys.length 0 hits.num s.result }
  | _, _ => s

def lookupBulk (wm : WildcardMatch A) (keys : List Buffer) : BulkState :=
  wm.tuples.foldl (lookupTuple keys) {}

end WildcardMatch

def BulkState.answer (s : BulkState) (i : Nat) : Option WmData :=
  if s.prevHitmask ≠ 0#64 ∧ bitAt s.prevHitmask i = true then s.result i else none

def BulkState.Tracks (s : BulkState) (keys : List Buffer) (single : Buffer → Option WmData) :
    Prop :=
  ∀ i key, keys[i]? = some key →
    bitAt s.prevHitmask i = (single key).isSome ∧
      ((single key).isSome = true → s.result i = single key)

theorem BulkState.Tracks.answer {s : BulkState} {keys : List Buffer}
    {single : Buffer → Option WmData} (h : s.Tracks keys single) {i : Nat} {key : Buffer}
    (hkey : keys[i]? = some key) : s.answer i = single key := by
  rcases h i key hkey with ⟨hbit, hresult⟩
  unfold BulkState.answer
  cases hsingle : single key with
  | none =>
    rw [hsingle] at hbit
    rw [if_neg (fun hne => by simp [hbit] at hne)]
  | some =>
    rw [hsingle] at hbit hresult
    have hne : s.prevHitmask ≠ 0#64 := by
      intro hzero
      rw [hzero] at hbit
      simp [bitAt] at hbit
    rw [if_pos ⟨hne, hbit⟩]
    exact hresult rfl

namespace WildcardMatch

def lookupSlot (result : Option WmData) (key : Buffer) (t : WmTuple) : Option WmData :=
  match find key t with
  | none => result
  | some entry => keepHigher result entry

theorem takeHit_eq (single : Option WmData) (entry : WmData) {result : Option WmData}
    (h : single.isSome = true → result = single) :
    takeHit single.isSome (some entry) result = keepHigher single entry := by
  cases single with
  | none => rfl
  | some =>
    rw [h rfl]
    rfl

variable {keys : List Buffer} (ht : WmTable) (mask : List UInt8)

theorem lookupBulkData_entry {i : Nat} {key : Buffer} (hkey : keys[i]? = some key) :
    (lookupBulkData ht (keys.map fun key => maskKey key mask)).entry i =
      ht.lookup (maskKey key mask) := by
  simp [lookupBulkData, hkey]

theorem lookupBulkData_bitAt (hlen : keys.length ≤ bulkMax) {i : Nat} (hi : i < keys.length) :
    bitAt (lookupBulkData ht (keys.map fun key => maskKey key mask)).hitmask i =
      ((lookupBulkData ht (keys.map fun key => maskKey key mask)).entry i).isSome := by
  rw [bitAt_eq (by omega)]
  unfold lookupBulkData
  rw [getLsbD_hitmaskFrom (by simpa using hlen)]
  simp [hi]

theorem lookupBulkData_num (hlen : keys.length ≤ bulkMax) :
    (lookupBulkData ht (keys.map fun key => maskKey key mask)).num =
      (List.range' 0 keys.length).countP fun i =>
        bitAt (lookupBulkData ht (keys.map fun key => maskKey key mask)).hitmask i := by
  rw [← range_eq_range']
  have hnum : (lookupBulkData ht (keys.map fun key => maskKey key mask)).num =
      (List.range keys.length).countP fun i =>
        ((lookupBulkData ht (keys.map fun key => maskKey key mask)).entry i).isSome := by
    simp only [lookupBulkData, length_map]
  rw [hnum]
  apply countP_congr
  intro i hi
  rw [lookupBulkData_bitAt ht mask hlen (mem_range.mp hi)]

theorem lookupTuple_tracks {s : BulkState} {single : Buffer → Option WmData}
    (hlen : keys.length ≤ bulkMax) (h : s.Tracks keys single) (t : WmTuple) :
    (lookupTuple keys s t).Tracks keys fun key => lookupSlot (single key) key t := by
  intro i key hkey
  have hi : i < keys.length := (List.getElem?_eq_some_iff.mp hkey).1
  rcases h i key hkey with ⟨hprev, hresult⟩
  unfold lookupTuple lookupSlot find
  rcases t with ⟨occupied, _ | ht, mask⟩
  · cases occupied <;> exact ⟨hprev, hresult⟩
  cases occupied with
  | false => exact ⟨hprev, hresult⟩
  | true =>
    have hentry := lookupBulkData_entry ht mask hkey
    have hbit := lookupBulkData_bitAt ht mask hlen hi
    have hnum := lookupBulkData_num ht mask hlen
    dsimp only [bind_some, if_true]
    generalize lookupBulkData ht (keys.map fun key => maskKey key mask) = hits at *
    rw [hentry] at hbit
    by_cases hzero : hits.num = 0
    · -- The table has none of the keys.
      have hmiss : bitAt hits.hitmask i = false := by
        rw [hzero] at hnum
        have hnone := countP_eq_zero.mp hnum.symm i (mem_range'_1.mpr (by omega))
        simpa using hnone
      rw [hmiss] at hbit
      have hnone : ht.lookup (maskKey key mask) = none := by simpa using hbit.symm
      rw [if_pos hzero, hnone]
      exact ⟨hprev, hresult⟩
    · rw [if_neg hzero]
      have hor : bitAt (s.prevHitmask ||| hits.hitmask) i =
          (bitAt s.prevHitmask i || bitAt hits.hitmask i) := by
        rw [bitAt_eq (by omega), bitAt_eq (by omega), bitAt_eq (by omega), BitVec.getLsbD_or]
      have htake := takeHits_spec s.prevHitmask s.result hnum i
      rw [hentry, hprev, Nat.zero_add] at htake
      cases hlook : ht.lookup (maskKey key mask) with
      | none =>
        rw [hlook] at hbit
        simpa [hor, htake, hprev, hbit] using hresult
      | some entry =>
        rw [hlook] at hbit htake
        rcases keepHigher_spec (single key) entry with ⟨b, hb, -⟩
        rw [if_pos ⟨Nat.zero_le i, hi, hbit⟩, takeHit_eq _ _ hresult] at htake
        simp [hor, htake, hb, hbit]

variable {A : Type}

theorem lookupBulk_eq (wm : WildcardMatch A) (hlen : keys.length ≤ bulkMax) {i : Nat}
    {key : Buffer} (hkey : keys[i]? = some key) :
    (wm.lookupBulk keys).answer i = wm.lookupBulkEntry key := by
  have hfold : ∀ (ts : List WmTuple) (s : BulkState) (single : Buffer → Option WmData),
      s.Tracks keys single → (ts.foldl (lookupTuple keys) s).Tracks keys
        fun key => ts.foldl (fun result t => lookupSlot result key t) (single key) := by
    intro ts
    induction ts with
    | nil => exact fun s single h => h
    | cons t ts ih => exact fun s single h => ih _ _ (lookupTuple_tracks hlen h t)
  have hstart : BulkState.Tracks {} keys fun _ => none := by
    intro i key _
    simp [bitAt]
  exact (hfold wm.tuples {} (fun _ => none) hstart).answer hkey

def lookupBulkEntries (wm : WildcardMatch A) (keys : List Buffer) :
    List (GateIdx × Option (List UInt8)) :=
  let s := wm.lookupBulk keys
  (List.range keys.length).map fun i =>
    match s.answer i with
    | none => (wm.defaultGate, none)
    | some data => (data.ogate, some data.keyv)

def yield (wm : WildcardMatch A) (key : Buffer) : GateIdx × Option (List UInt8) :=
  match wm.lookupBulkEntry key with
  | none => (wm.defaultGate, none)
  | some data => (data.ogate, some data.keyv)

theorem lookupBulkEntries_eq (wm : WildcardMatch A) (hlen : keys.length ≤ bulkMax) :
    wm.lookupBulkEntries keys = keys.map wm.yield := by
  apply ext_getElem?
  intro i
  unfold lookupBulkEntries
  rw [getElem?_map, getElem?_map]
  cases hkey : keys[i]? with
  | none =>
    rw [getElem?_eq_none_iff] at hkey
    simp [hkey]
  | some =>
    have hi : i < keys.length := (List.getElem?_eq_some_iff.mp hkey).1
    simp only [List.getElem?_range hi, map_some, wm.lookupBulk_eq hlen hkey]
    rfl

end WildcardMatch

end Upf.Bess
