import Mathlib.Data.Finset.Basic
import Upf.Pfcp.Basic

/-!
# The F-TEID generator

The allocator of `fteid.go`: it walks a ring of offsets from where the last
allocation left it and takes the first one that is not in use.

Main result: `generator_sound`.
-/

namespace Upf

open UInt32 Nat List

def minValue : UInt32 := 1

/-- Size of the ring of offsets, `math.MaxUint32`. -/
def maxValue : UInt32 := 0xFFFFFFFF

structure FTEIDGenerator where
  offset : UInt32 := 0
  usedMap : Finset UInt32 := ∅
deriving DecidableEq

namespace FTEIDGenerator

def updateOffset (g : FTEIDGenerator) : FTEIDGenerator :=
  { g with offset := (g.offset + 1) % maxValue }

/-- The search for an unused offset.  It fails when it comes back to where it
began, or when the fuel is used up, which a full turn around the ring never
does. -/
def findFree (offsetBegin : UInt32) : Nat → FTEIDGenerator → Option FTEIDGenerator
  | 0, _ => none
  | fuel + 1, g =>
    if g.offset ∈ g.usedMap then
      let g := g.updateOffset
      if g.offset = offsetBegin then none else findFree offsetBegin fuel g
    else some g

/-- Take the next unused identifier. -/
def allocate (g : FTEIDGenerator) : Except GoError UInt32 × FTEIDGenerator :=
  match findFree g.offset (maxValue.toNat + 1) g with
  -- A failed search has walked the whole ring and stands where it began.
  | none => (.error .noAvailableID, g)
  | some g' =>
    (.ok (g'.offset + minValue),
      ({ g' with usedMap := insert g'.offset g'.usedMap } : FTEIDGenerator).updateOffset)

def freeID (g : FTEIDGenerator) (id : UInt32) : FTEIDGenerator :=
  if id < minValue then g else { g with usedMap := g.usedMap.erase (id - minValue) }

def isAllocated (g : FTEIDGenerator) (id : UInt32) : Bool :=
  if id < minValue then false else decide (id - minValue ∈ g.usedMap)

/-! ## The walk around the ring -/

structure Wf (g : FTEIDGenerator) : Prop where
  offset : g.offset.toNat < maxValue.toNat
  usedMap : ∀ o ∈ g.usedMap, o.toNat < maxValue.toNat

variable {g : FTEIDGenerator} {id : UInt32}

theorem updateOffset_toNat (h : g.offset.toNat < maxValue.toNat) :
    g.updateOffset.offset.toNat = (g.offset.toNat + 1) % maxValue.toNat := by
  have hmax : maxValue.toNat = 2 ^ 32 - 1 := by decide
  have hsum : (g.offset + 1).toNat = g.offset.toNat + 1 := by
    rw [UInt32.toNat_add]
    simp only [UInt32.toNat_one]
    omega
  rw [updateOffset, UInt32.toNat_mod, hsum]

theorem Wf.updateOffset (h : g.Wf) : g.updateOffset.Wf := by
  refine ⟨?_, h.usedMap⟩
  rw [updateOffset_toNat h.offset]
  exact mod_lt _ (by decide)

/-- A search that has left `k` offsets behind, all in use, and has the fuel
for the rest of the ring: it stops at an offset that is not in use, or finds the
whole ring in use. -/
theorem findFree_spec {offsetBegin : UInt32} {fuel k : Nat}
    (hbegin : offsetBegin.toNat < maxValue.toNat) (hk : k < maxValue.toNat)
    (hfuel : maxValue.toNat - k ≤ fuel)
    (hoffset : g.offset.toNat = (offsetBegin.toNat + k) % maxValue.toNat)
    (hbehind : ∀ o : UInt32, ∀ j < k,
      o.toNat = (offsetBegin.toNat + j) % maxValue.toNat → o ∈ g.usedMap) :
    match findFree offsetBegin fuel g with
    | none => ∀ o : UInt32, o.toNat < maxValue.toNat → o ∈ g.usedMap
    | some g' => g'.usedMap = g.usedMap ∧ g'.offset.toNat < maxValue.toNat ∧
        g'.offset ∉ g.usedMap := by
  induction fuel generalizing k g with
  | zero => omega
  | succ fuel ih =>
    have hlt : g.offset.toNat < maxValue.toNat := by
      rw [hoffset]
      exact mod_lt _ (by omega)
    unfold findFree
    by_cases hused : g.offset ∈ g.usedMap
    · have hnext : g.updateOffset.offset.toNat =
          (offsetBegin.toNat + (k + 1)) % maxValue.toNat := by
        rw [updateOffset_toNat hlt, hoffset, mod_add_mod, Nat.add_assoc]
      have hbehind' : ∀ o : UInt32, ∀ j < k + 1,
          o.toNat = (offsetBegin.toNat + j) % maxValue.toNat → o ∈ g.usedMap := by
        intro o j hj ho
        rcases Nat.lt_succ_iff_lt_or_eq.mp hj with hj | rfl
        · exact hbehind o j hj ho
        · have hsame : o = g.offset := UInt32.toNat_inj.mp (ho.trans hoffset.symm)
          rwa [hsame]
      by_cases hback : g.updateOffset.offset = offsetBegin
      · simp only [hused, hback, if_true]
        -- Back where it began, the search has seen the whole ring.
        have hround : (offsetBegin.toNat + (k + 1)) % maxValue.toNat = offsetBegin.toNat := by
          rw [← hnext, hback]
        have hall : k + 1 = maxValue.toNat := by
          rcases Nat.lt_or_ge (offsetBegin.toNat + (k + 1)) maxValue.toNat with hlt' | hge
          · rw [mod_eq_of_lt hlt'] at hround
            omega
          · rw [mod_eq_sub_mod hge, mod_eq_of_lt (by omega)] at hround
            omega
        intro o ho
        rcases Nat.lt_or_ge o.toNat offsetBegin.toNat with hbefore | hafter
        · refine hbehind' o (o.toNat + maxValue.toNat - offsetBegin.toNat) (by omega) ?_
          rw [Nat.add_sub_cancel' (by omega), add_mod_right, mod_eq_of_lt ho]
        · refine hbehind' o (o.toNat - offsetBegin.toNat) (by omega) ?_
          rw [Nat.add_sub_cancel' hafter, mod_eq_of_lt ho]
      · simp only [hused, hback, if_true, if_false]
        refine ih (g := g.updateOffset) ?_ (by omega) hnext hbehind'
        by_contra hge
        have hall : k + 1 = maxValue.toNat := by omega
        apply hback
        apply UInt32.toNat_inj.mp
        rw [hnext, hall, add_mod_right, mod_eq_of_lt hbegin]
    · rw [if_neg hused]
      exact ⟨rfl, hlt, hused⟩

theorem Wf.findFree (h : g.Wf) :
    match findFree g.offset (maxValue.toNat + 1) g with
    | none => ∀ o : UInt32, o.toNat < maxValue.toNat → o ∈ g.usedMap
    | some g' => g'.usedMap = g.usedMap ∧ g'.offset.toNat < maxValue.toNat ∧
        g'.offset ∉ g.usedMap :=
  findFree_spec (k := 0) h.offset (by decide) (by omega)
    (by rw [Nat.add_zero, mod_eq_of_lt h.offset]) (fun _ _ hj => absurd hj (Nat.not_lt_zero _))

/-! ## Identifiers -/

theorem sub_minValue_toNat (h : id ≠ 0) :
    (id - minValue).toNat = id.toNat - 1 := by
  have hpos : 0 < id.toNat := Nat.pos_of_ne_zero fun hzero => h (UInt32.toNat_inj.mp hzero)
  have hle : minValue ≤ id := UInt32.le_iff_toNat_le.mpr hpos
  rw [UInt32.toNat_sub_of_le _ _ hle]
  rfl

theorem isAllocated_zero (g : FTEIDGenerator) : g.isAllocated 0 = false := rfl

theorem isAllocated_iff (h : id ≠ 0) :
    g.isAllocated id = true ↔ id - minValue ∈ g.usedMap := by
  have hnot : ¬id < minValue := by
    intro hlt
    have hzero : id.toNat < 1 := by simpa [minValue] using lt_iff_toNat_lt.mp hlt
    exact h (UInt32.toNat_inj.mp (by simpa using hzero))
  simp [isAllocated, hnot]

theorem add_minValue_ne_zero {o : UInt32} (h : o.toNat < maxValue.toNat) : o + minValue ≠ 0 := by
  have hmax : maxValue.toNat = 2 ^ 32 - 1 := by decide
  intro hzero
  have hsum := congrArg UInt32.toNat hzero
  rw [UInt32.toNat_add] at hsum
  simp only [minValue, UInt32.toNat_one, UInt32.toNat_zero] at hsum
  omega

theorem wf_empty : ({} : FTEIDGenerator).Wf := ⟨by decide, by simp⟩

theorem allocate_ok {g' : FTEIDGenerator} (hwf : g.Wf)
    (h : g.allocate = (.ok id, g')) :
    id ≠ 0 ∧ g.isAllocated id = false ∧ g'.Wf ∧
      ∀ x, g'.isAllocated x = true ↔ g.isAllocated x = true ∨ x = id := by
  have hspec := hwf.findFree
  unfold allocate at h
  cases hfind : FTEIDGenerator.findFree g.offset (maxValue.toNat + 1) g with
  | none => simp [hfind] at h
  | some g₁ =>
    rw [hfind] at hspec
    rcases hspec with ⟨hsame, hlt, hfree⟩
    simp only [hfind, Prod.mk.injEq, Except.ok.injEq] at h
    rcases h with ⟨rfl, rfl⟩
    have hne := add_minValue_ne_zero hlt
    have hback : g₁.offset + minValue - minValue = g₁.offset := by simp
    refine ⟨hne, ?_, ?_, ?_⟩
    · rw [Bool.eq_false_iff, ne_eq, isAllocated_iff hne, hback]
      exact hfree
    · apply Wf.updateOffset
      refine ⟨hlt, ?_⟩
      intro o ho
      rcases Finset.mem_insert.mp ho with rfl | ho
      · exact hlt
      · exact hwf.usedMap o (hsame ▸ ho)
    · intro x
      by_cases hx : x = 0
      · subst hx
        simp [isAllocated_zero, hne.symm]
      · rw [isAllocated_iff hx, isAllocated_iff hx]
        have hiff : x - minValue = g₁.offset ↔ x = g₁.offset + minValue :=
          ⟨fun heq => by rw [← heq]; simp, fun heq => by rw [heq, hback]⟩
        simp only [updateOffset, hsame, Finset.mem_insert, hiff]
        exact or_comm

theorem allocate_error {g' : FTEIDGenerator} {e : GoError} (hwf : g.Wf)
    (h : g.allocate = (.error e, g')) :
    g' = g ∧ ∀ id, id ≠ 0 → g.isAllocated id = true := by
  have hspec := hwf.findFree
  unfold allocate at h
  cases hfind : FTEIDGenerator.findFree g.offset (maxValue.toNat + 1) g with
  | some g₁ => simp [hfind] at h
  | none =>
    rw [hfind] at hspec
    simp only [hfind, Prod.mk.injEq] at h
    refine ⟨h.2.symm, ?_⟩
    intro id hid
    have hpos : 0 < id.toNat := Nat.pos_of_ne_zero fun hzero => hid (UInt32.toNat_inj.mp hzero)
    have hlt : id.toNat < 2 ^ 32 := id.toNat_lt
    rw [isAllocated_iff hid]
    apply hspec
    rw [sub_minValue_toNat hid]
    have hmax : maxValue.toNat = 2 ^ 32 - 1 := by decide
    omega

/-! ## Sequences of calls -/

/-- The search loop itself: `none` while it is still going after so many
rounds. -/
def search (offsetBegin : UInt32) : Nat → FTEIDGenerator → Option (Option FTEIDGenerator)
  | 0, _ => none
  | rounds + 1, g =>
    if g.offset ∈ g.usedMap then
      let g := g.updateOffset
      if g.offset = offsetBegin then some none else search offsetBegin rounds g
    else some (some g)

/-- The loop leaves within one turn around the ring, so the fuel of
`findFree` never ends a search. -/
theorem search_eq_findFree {offsetBegin : UInt32} {rounds k : Nat}
    (hbegin : offsetBegin.toNat < maxValue.toNat) (hk : k < maxValue.toNat)
    (hrounds : maxValue.toNat - k ≤ rounds)
    (hoffset : g.offset.toNat = (offsetBegin.toNat + k) % maxValue.toNat) :
    search offsetBegin rounds g = some (findFree offsetBegin rounds g) := by
  induction rounds generalizing k g with
  | zero => omega
  | succ rounds ih =>
    have hlt : g.offset.toNat < maxValue.toNat := by
      rw [hoffset]
      exact mod_lt _ (by omega)
    have hnext : g.updateOffset.offset.toNat = (offsetBegin.toNat + (k + 1)) % maxValue.toNat := by
      rw [updateOffset_toNat hlt, hoffset, mod_add_mod, Nat.add_assoc]
    unfold search findFree
    by_cases hused : g.offset ∈ g.usedMap
    · by_cases hback : g.updateOffset.offset = offsetBegin
      · simp only [hused, hback, if_true]
      · simp only [hused, hback, if_true, if_false]
        refine ih (g := g.updateOffset) ?_ (by omega) hnext
        by_contra hge
        have hall : k + 1 = maxValue.toNat := by omega
        apply hback
        apply UInt32.toNat_inj.mp
        rw [hnext, hall, add_mod_right, mod_eq_of_lt hbegin]
    · rw [if_neg hused, if_neg hused]

inductive Call where
  | allocate
  | freeID (id : UInt32)
deriving DecidableEq

inductive Event where
  | returned (id : UInt32)
  | failed (e : GoError)
  | freed (id : UInt32)

def carryOut (s : List Event × FTEIDGenerator) : Call → List Event × FTEIDGenerator
  | .allocate =>
    match s.2.allocate with
    | (.ok id, g) => (s.1 ++ [.returned id], g)
    | (.error e, g) => (s.1 ++ [.failed e], g)
  | .freeID id => (s.1 ++ [.freed id], s.2.freeID id)

def afterCalls (calls : List Call) : List Event × FTEIDGenerator := calls.foldl carryOut ([], {})

def Outstanding (history : List Event) (id : UInt32) : Prop :=
  ∃ earlier later, history = earlier ++ .returned id :: later ∧ .freed id ∉ later

theorem not_outstanding_nil (id : UInt32) : ¬ Outstanding [] id := by
  rintro ⟨earlier, later, h, -⟩
  simp at h

theorem outstanding_append {history : List Event} {e : Event} :
    Outstanding (history ++ [e]) id ↔
      e = .returned id ∨ (Outstanding history id ∧ e ≠ .freed id) := by
  constructor
  · rintro ⟨earlier, later, h, hlater⟩
    rcases eq_nil_or_concat later with rfl | ⟨later', e', rfl⟩
    · exact .inl (List.cons.inj (append_inj' h rfl).2).1
    · rw [concat_eq_append] at h hlater
      rw [← cons_append, ← append_assoc] at h
      rcases append_inj' h rfl with ⟨hhist, he⟩
      rw [List.cons.injEq] at he
      rw [he.1]
      refine .inr ⟨⟨earlier, later', hhist, fun hmem => hlater ?_⟩, fun heq => hlater ?_⟩
      · exact mem_append_left _ hmem
      · simp [heq]
  · rintro (rfl | ⟨⟨earlier, later, rfl, hlater⟩, hne⟩)
    · exact ⟨history, [], rfl, by simp⟩
    · refine ⟨earlier, later ++ [e], by simp, ?_⟩
      simpa [hlater] using hne.symm

theorem isAllocated_freeID (g : FTEIDGenerator) (id x : UInt32) :
    (g.freeID id).isAllocated x = true ↔ g.isAllocated x = true ∧ x ≠ id := by
  by_cases hx : x = 0
  · simp [hx, isAllocated_zero]
  · rw [isAllocated_iff hx, isAllocated_iff hx, freeID]
    split
    · next hlt =>
      have hzero : id = 0 := by
        have h : id.toNat < 1 := by simpa [minValue] using lt_iff_toNat_lt.mp hlt
        exact UInt32.toNat_inj.mp (by simpa using h)
      simp [hzero, hx]
    · rw [Finset.mem_erase, and_comm, ne_eq, UInt32.sub_left_inj]

theorem Wf.freeID (h : g.Wf) (id : UInt32) : (g.freeID id).Wf := by
  unfold FTEIDGenerator.freeID
  split
  · exact h
  · exact ⟨h.offset, fun o ho => h.usedMap o (Finset.mem_of_mem_erase ho)⟩

/-- The generator keeps exactly the outstanding identifiers. -/
structure Tracks (s : List Event × FTEIDGenerator) : Prop where
  wf : s.2.Wf
  outstanding : ∀ id, s.2.isAllocated id = true ↔ Outstanding s.1 id

theorem Tracks.carryOut {s : List Event × FTEIDGenerator} (h : Tracks s) (c : Call) :
    Tracks (carryOut s c) := by
  cases c with
  | allocate =>
    simp only [FTEIDGenerator.carryOut]
    split
    · next id g heq =>
      rcases allocate_ok h.wf heq with ⟨-, -, hwf, hused⟩
      refine ⟨hwf, fun x => ?_⟩
      rw [hused, outstanding_append, h.outstanding]
      simp [or_comm, eq_comm]
    · next e g heq =>
      rcases allocate_error h.wf heq with ⟨rfl, -⟩
      refine ⟨h.wf, fun x => ?_⟩
      simp [outstanding_append, h.outstanding]
  | freeID id =>
    refine ⟨h.wf.freeID id, fun x => ?_⟩
    simp only [FTEIDGenerator.carryOut, isAllocated_freeID, outstanding_append, h.outstanding]
    simp [@eq_comm _ x id]

theorem tracks_afterCalls (calls : List Call) : Tracks (afterCalls calls) := by
  have hempty : Tracks ([], {}) := by
    refine ⟨wf_empty, fun id => ?_⟩
    simp [isAllocated, not_outstanding_nil]
  exact List.foldlRecOn calls FTEIDGenerator.carryOut hempty fun s hs c _ => hs.carryOut c

/-- The generator is a sound allocator: after any calls, frees of unallocated
identifiers among them, its search ends; what it returns lies in the range and was
not allocated; it fails exactly when all identifiers are; and it reports exactly the
outstanding ones as allocated. -/
theorem generator_sound (calls : List Call) :
    let history := (afterCalls calls).1
    let g := (afterCalls calls).2
    (∃ rounds result, search g.offset rounds g = some result ∧
      g.allocate.1 = (match result with
        | some found => .ok (found.offset + minValue)
        | none => .error .noAvailableID)) ∧
    (∀ id, g.allocate.1 = .ok id →
      1 ≤ id.toNat ∧ id.toNat ≤ 2 ^ 32 - 1 ∧ g.isAllocated id = false) ∧
    ((∃ e, g.allocate.1 = .error e) ↔ ∀ id : UInt32, 1 ≤ id.toNat → g.isAllocated id = true) ∧
    ∀ id, g.isAllocated id = true ↔ Outstanding history id := by
  intro history g
  have h : Tracks (history, g) := tracks_afterCalls calls
  have hok : ∀ id, g.allocate.1 = .ok id →
      1 ≤ id.toNat ∧ id.toNat ≤ 2 ^ 32 - 1 ∧ g.isAllocated id = false := by
    intro id hid
    have hret : g.allocate = (.ok id, g.allocate.2) := Prod.ext hid rfl
    rcases allocate_ok h.wf hret with ⟨hne, hfree, -⟩
    have hlt := id.toNat_lt
    have hpos : id.toNat ≠ 0 := fun hzero => hne (UInt32.toNat_inj.mp hzero)
    exact ⟨by omega, by omega, hfree⟩
  refine ⟨?_, hok, ⟨?_, ?_⟩, h.outstanding⟩
  · refine ⟨maxValue.toNat + 1, findFree g.offset (maxValue.toNat + 1) g, ?_, ?_⟩
    · exact search_eq_findFree (k := 0) h.wf.offset (by decide) (by omega)
        (by rw [Nat.add_zero, mod_eq_of_lt h.wf.offset])
    · unfold allocate
      split <;> simp_all
  · rintro ⟨e, he⟩ id hid
    have hret : g.allocate = (.error e, g.allocate.2) := Prod.ext he rfl
    apply (allocate_error h.wf hret).2
    rintro rfl
    simp at hid
  · intro hall
    cases hres : g.allocate.1 with
    | error e => exact ⟨e, rfl⟩
    | ok id =>
      rcases hok id hres with ⟨hpos, -, hfree⟩
      rw [hall id hpos] at hfree
      cases hfree

end FTEIDGenerator

end Upf
