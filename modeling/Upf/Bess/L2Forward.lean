import Upf.Bess.L2Table
import Upf.Lib.Run
import Upf.Lib.SlotMap

/-!
# Lookups and slots of the L2 forwarding table

The table holds a map from addresses to gates as long as every entry sits in one of the two
buckets of its address, where lookups see it.  Lookups of a table with four slots in a
bucket see the first slot of each bucket only, while an entry is added in any free slot.
When a full bucket is relieved, the new entry goes to the first slot whichever slot was
freed.
-/

namespace Upf.Bess.L2

open Function Lib List Option Bool

def L2Entry.content (e : L2Entry) : Option (Mac × GateIdx) :=
  if e.occupied then some (e.addr, e.gate.setWidth 16) else none

theorem L2Entry.content_eq_none {e : L2Entry} : e.content = none ↔ e.occupied = false := by
  rw [content]
  cases e.occupied <;> simp

theorem L2Entry.content_of_addr {e : L2Entry} {m : Mac}
    (h : (e.occupied && m == e.addr) = true) : e.content = some (m, e.gate.setWidth 16) := by
  rw [and_eq_true, beq_iff_eq] at h
  rw [content, h.1, h.2]
  rfl

theorem L2Entry.content_eq_some {e : L2Entry} {m : Mac} {g : GateIdx}
    (h : e.content = some (m, g)) : (e.occupied && m == e.addr) = true ∧ m = e.addr := by
  rw [content] at h
  split at h
  · rename_i hoccupied
    cases h
    exact ⟨by simp [hoccupied], rfl⟩
  · cases h

namespace L2Table

variable {crc : Mac → BitVec 32} {avx : Bool} {t : L2Table} {m : Mac} {g : GateIdx}

def slots (t : L2Table) : SlotMap Mac GateIdx := fun offset => (t.table offset).content

theorem slots_update (t : L2Table) (offset : Nat) (e : L2Entry) (count : Nat) :
    slots { t with table := update t.table offset e, count := count } =
      update t.slots offset e.content :=
  comp_update L2Entry.content t.table offset e

theorem slots_moveEntry (t : L2Table) (i j : Nat) :
    (t.moveEntry i j).slots = t.slots.move i j := by
  rw [SlotMap.move, moveEntry]
  change L2Entry.content ∘ update _ _ _ = _
  rw [comp_update, comp_update]
  rfl

/-- The table has slots, and every entry sits in a bucket of its address where lookups see
it. -/
structure Laid (crc : Mac → BitVec 32) (t : L2Table) : Prop where
  size_pos : 0 < t.size
  power_le : 2 ^ ((t.sizePower + 63) % 64) ≤ t.size
  bucket_pos : 0 < t.bucket
  keyed : t.slots.Keyed
  placed : ∀ {offset m g}, t.slots offset = some (m, g) → ∃ b < t.bucket, (t.bucket = 4 → b = 0) ∧
    (offset = t.ibToOffset (t.primary crc m) b ∨ offset = t.ibToOffset (t.alternate crc m) b)
  counted : t.count = t.slots.filled (t.size * t.bucket)

theorem Laid.primary_lt (h : t.Laid crc) (m : Mac) : t.primary crc m < t.size := by
  have hle : t.primary crc m ≤ t.size - 1 := Nat.and_le_right
  have hpos := h.size_pos
  omega

theorem Laid.alternate_lt (h : t.Laid crc) (m : Mac) : t.alternate crc m < t.size := by
  have hle : t.alternate crc m ≤ 2 ^ ((t.sizePower + 63) % 64) - 1 :=
    (Nat.mod_le _ _).trans Nat.and_le_right
  have hpos : 0 < 2 ^ ((t.sizePower + 63) % 64) := Nat.two_pow_pos _
  have hpower := h.power_le
  omega

variable {b index offset : Nat}

theorem ibToOffset_lt (hindex : index < t.size) (hb : b < t.bucket) :
    t.ibToOffset index b < t.size * t.bucket := by
  calc index * t.bucket + b < index * t.bucket + t.bucket := by omega
    _ = (index + 1) * t.bucket := by rw [Nat.add_mul, Nat.one_mul]
    _ ≤ t.size * t.bucket := Nat.mul_le_mul_right _ hindex

theorem Laid.offset_lt (h : t.Laid crc) (hsome : (t.slots offset).isSome) :
    offset < t.size * t.bucket := by
  obtain ⟨⟨m, g⟩, hmg⟩ := isSome_iff_exists.mp hsome
  obtain ⟨b, hb, -, rfl | rfl⟩ := h.placed hmg
  · exact ibToOffset_lt (h.primary_lt m) hb
  · exact ibToOffset_lt (h.alternate_lt m) hb

theorem findIn_some (h : t.findIn index m = some offset) :
    t.slots offset = some (m, t.gateAt offset) := by
  have hseen := find?_some h
  exact L2Entry.content_of_addr hseen

theorem findIn_none (h : t.findIn index m = none) (hb : b < t.bucket)
    (g : GateIdx) : t.slots (t.ibToOffset index b) ≠ some (m, g) := by
  intro hslot
  have hall := find?_eq_none.mp h _ (mem_map_of_mem (mem_range.mpr hb))
  exact hall (L2Entry.content_eq_some hslot).1

theorem l2FindOffset_some (h : t.l2FindOffset crc m = some offset) :
    t.slots offset = some (m, t.gateAt offset) := by
  rw [l2FindOffset] at h
  split at h
  · rename_i hfirst
    cases h
    exact findIn_some hfirst
  · exact findIn_some h

theorem Laid.l2FindOffset_none (h : t.Laid crc) (hnone : t.l2FindOffset crc m = none)
    (g : GateIdx) : ¬ t.slots.Holds m g := by
  rintro ⟨offset, hoffset⟩
  rw [l2FindOffset] at hnone
  split at hnone
  · cases hnone
  · rename_i hfirst
    obtain ⟨b, hb, -, rfl | rfl⟩ := h.placed hoffset
    · exact findIn_none hfirst hb g hoffset
    · exact findIn_none hnone hb g hoffset

theorem l2Find_four (hfour : t.bucket = 4) (hword : avx = false ∨ m ≠ 0) :
    t.l2Find crc avx m =
      if (t.table (t.ibToOffset (t.primary crc m) 0)).occupied &&
          m == (t.table (t.ibToOffset (t.primary crc m) 0)).addr then
        some (t.gateAt (t.ibToOffset (t.primary crc m) 0))
      else if (t.table (t.ibToOffset (t.alternate crc m) 0)).occupied &&
          m == (t.table (t.ibToOffset (t.alternate crc m) 0)).addr then
        some (t.gateAt (t.ibToOffset (t.alternate crc m) 0))
      else none := by
  rw [l2Find, if_pos hfour]
  simp only [findIndex_words hword]
  split_ifs <;> first | rfl | contradiction

/-- The comparisons of lookups tell entries apart. -/
def Compared (avx : Bool) (t : L2Table) (m : Mac) : Prop := t.bucket = 4 → avx = false ∨ m ≠ 0

theorem l2Find_some (hword : t.Compared avx m) (h : t.l2Find crc avx m = some g) :
    t.slots.Holds m g := by
  by_cases hfour : t.bucket = 4
  · rw [l2Find_four hfour (hword hfour)] at h
    split_ifs at h with hfirst hsecond
    · cases h
      exact ⟨_, L2Entry.content_of_addr hfirst⟩
    · cases h
      exact ⟨_, L2Entry.content_of_addr hsecond⟩
  · rw [l2Find, if_neg hfour] at h
    split at h
    · rename_i hfirst
      cases h
      exact ⟨_, findIn_some hfirst⟩
    · obtain ⟨offset, hsecond, rfl⟩ := map_eq_some_iff.mp h
      exact ⟨_, findIn_some hsecond⟩

theorem Laid.l2Find_none (h : t.Laid crc) (hword : t.Compared avx m)
    (hnone : t.l2Find crc avx m = none) (g : GateIdx) : ¬ t.slots.Holds m g := by
  rintro ⟨offset, hoffset⟩
  obtain ⟨b, hb, hfirstSlot, hwhere⟩ := h.placed hoffset
  by_cases hfour : t.bucket = 4
  · cases hfirstSlot hfour
    rw [l2Find_four hfour (hword hfour)] at hnone
    split_ifs at hnone with hfirst hsecond
    rcases hwhere with rfl | rfl
    · exact hfirst (L2Entry.content_eq_some hoffset).1
    · exact hsecond (L2Entry.content_eq_some hoffset).1
  · rw [l2Find, if_neg hfour] at hnone
    split at hnone
    · cases hnone
    · rename_i hfirst
      rw [map_eq_none_iff] at hnone
      rcases hwhere with rfl | rfl
      · exact findIn_none hfirst hb g hoffset
      · exact findIn_none hnone hb g hoffset

theorem Laid.l2Find_iff (h : t.Laid crc) (hword : t.Compared avx m) :
    t.l2Find crc avx m = some g ↔ t.slots.Holds m g := by
  refine ⟨l2Find_some hword, fun hholds => ?_⟩
  cases hfind : t.l2Find crc avx m with
  | none => exact absurd hholds (h.l2Find_none hword hfind g)
  | some => rw [h.keyed.unique (l2Find_some hword hfind) hholds]

theorem Laid.l2Find_eq_none (h : t.Laid crc) (hword : t.Compared avx m) :
    t.l2Find crc avx m = none ↔ ∀ g, ¬ t.slots.Holds m g := by
  refine ⟨h.l2Find_none hword, fun hnone => ?_⟩
  cases hfind : t.l2Find crc avx m with
  | none => rfl
  | some g => exact absurd (l2Find_some hword hfind) (hnone g)

theorem Laid.put (h : t.Laid crc) (hb : b < t.bucket) (hfirst : t.bucket = 4 → b = 0)
    (hfree : t.slots (t.ibToOffset (t.primary crc m) b) = none)
    (hnew : ∀ g, ¬ t.slots.Holds m g) {e : L2Entry} (he : e.content = some (m, g)) :
    Laid crc { t with
      table := update t.table (t.ibToOffset (t.primary crc m) b) e
      count := t.count + 1 } where
  size_pos := h.size_pos
  power_le := h.power_le
  bucket_pos := h.bucket_pos
  keyed := by
    rw [slots_update, he]
    exact h.keyed.put hnew
  placed := by
    intro offset m' g' hoffset
    rw [slots_update, he] at hoffset
    by_cases hat : offset = t.ibToOffset (t.primary crc m) b
    · rw [hat, update_self, some.injEq, Prod.mk.injEq] at hoffset
      rw [← hoffset.1]
      exact ⟨b, hb, hfirst, .inl hat⟩
    · rw [update_of_ne hat] at hoffset
      exact h.placed hoffset
  counted := by
    have hfilled := SlotMap.filled_update t.slots
      (ibToOffset_lt (h.primary_lt m) hb) (some (m, g))
    rw [slots_update, he]
    simp only [hfree, isSome_none, isSome_some, false_eq_true, if_false,
      if_true, Nat.add_zero] at hfilled
    rw [hfilled, h.counted]

theorem Laid.clear (h : t.Laid crc) (ho : t.slots offset = some (m, g)) :
    Laid crc { t with table := update t.table offset {}, count := t.count - 1 } where
  size_pos := h.size_pos
  power_le := h.power_le
  bucket_pos := h.bucket_pos
  keyed := by
    rw [slots_update]
    exact h.keyed.clear
  placed := by
    intro offset' m' g' hoffset
    rw [slots_update] at hoffset
    by_cases hat : offset' = offset
    · rw [hat, update_self] at hoffset
      cases hoffset
    · rw [update_of_ne hat] at hoffset
      exact h.placed hoffset
  counted := by
    have hfilled := SlotMap.filled_update t.slots
      (h.offset_lt (by rw [ho]; rfl)) none
    simp only [ho, isSome_none, isSome_some, false_eq_true, if_false,
      if_true, Nat.add_zero] at hfilled
    have hcounted := h.counted
    rw [slots_update]
    change t.count - 1 =
      SlotMap.filled (update t.slots offset none) (t.size * t.bucket)
    omega

theorem Laid.move (h : t.Laid crc) {i : Nat} (hi : t.slots i = some (m, g)) (hb : b < t.bucket)
    (hfirst : t.bucket = 4 → b = 0)
    (hfree : t.slots (t.ibToOffset (t.alternate crc m) b) = none) :
    (t.moveEntry i (t.ibToOffset (t.alternate crc m) b)).Laid crc where
  size_pos := h.size_pos
  power_le := h.power_le
  bucket_pos := h.bucket_pos
  keyed := by
    rw [slots_moveEntry]
    exact h.keyed.move
  placed := by
    intro offset m' g' hoffset
    rw [slots_moveEntry] at hoffset
    rcases SlotMap.move_eq_some hoffset with ⟨rfl, hold⟩ | ⟨-, -, hold⟩
    · rw [hi, some.injEq, Prod.mk.injEq] at hold
      rw [← hold.1]
      exact ⟨b, hb, hfirst, .inr rfl⟩
    · exact h.placed hold
  counted := by
    have hput := SlotMap.filled_update t.slots
      (ibToOffset_lt (h.alternate_lt m) hb) (t.slots i)
    have hne : i ≠ t.ibToOffset (t.alternate crc m) b := by
      rintro rfl
      rw [hfree] at hi
      cases hi
    have hclear := SlotMap.filled_update
      (update t.slots (t.ibToOffset (t.alternate crc m) b) (t.slots i))
      (h.offset_lt (by rw [hi]; rfl)) none
    rw [update_of_ne hne] at hclear
    simp only [hi, hfree, isSome_none, isSome_some, false_eq_true, if_false,
      if_true, Nat.add_zero] at hput hclear
    have hmoved := hclear.trans hput
    rw [slots_moveEntry, SlotMap.move, hi]
    change t.count = SlotMap.filled _ (t.size * t.bucket)
    rw [h.counted]
    omega

def Free (t : L2Table) (index b : Nat) : Prop :=
  (t.table (t.ibToOffset index b)).occupied = false

theorem slots_eq_none :
    t.slots (t.ibToOffset index b) = none ↔ t.Free index b :=
  L2Entry.content_eq_none

def Stuck (crc : Mac → BitVec 32) (t : L2Table) (index b : Nat) : Prop :=
  let m := (t.table (t.ibToOffset index b)).addr
  t.primary crc m = t.alternate crc m ∨ index = t.alternate crc m

def Movable (crc : Mac → BitVec 32) (t : L2Table) (index b : Nat) : Prop :=
  ¬ t.Stuck crc index b ∧
    ∃ b' < t.bucket, t.Free (t.alternate crc (t.table (t.ibToOffset index b)).addr) b'

theorem freeIn_some (h : t.freeIn index = some b) :
    b < t.bucket ∧ t.Free index b := by
  refine ⟨mem_range.mp (mem_of_find?_eq_some h), ?_⟩
  have hfree := find?_some h
  rwa [not_eq_true'] at hfree

theorem freeIn_none (h : t.freeIn index = none) (hb : b < t.bucket) :
    ¬ t.Free index b := by
  intro hfree
  have hall := find?_eq_none.mp h b (mem_range.mpr hb)
  rw [Free] at hfree
  simp [hfree] at hall

theorem freeIn_zero (hpos : 0 < t.bucket) (hfree : t.Free index 0) :
    t.freeIn index = some 0 := by
  obtain ⟨n, hn⟩ : ∃ n, t.bucket = n + 1 := ⟨t.bucket - 1, by omega⟩
  rw [Free] at hfree
  rw [freeIn, hn, range_succ_eq_map, find?_cons_of_pos (by simp [hfree])]

theorem tryMoving_none {bs : List Nat}
    (h : ∀ b ∈ bs, ¬ t.Movable crc index b) : t.tryMoving crc index bs = none := by
  induction bs with
  | nil => rfl
  | cons b bs ih =>
    rw [tryMoving]
    split
    · rfl
    · rename_i hstuck
      split
      · rename_i b' hb'
        exact absurd ⟨hstuck, b', freeIn_some hb'⟩ (h b mem_cons_self)
      · exact ih fun b' hb' => h b' (mem_cons_of_mem b hb')

theorem tryMoving_stuck {bs : List Nat} (h : t.Stuck crc index b) :
    t.tryMoving crc index (b :: bs) = none := by
  rw [tryMoving]
  exact if_pos h

theorem tryMoving_movable (h : t.Movable crc index b) (bs : List Nat) :
    ∃ b', b' < t.bucket ∧ t.Free (t.alternate crc (t.table (t.ibToOffset index b)).addr) b' ∧
      t.tryMoving crc index (b :: bs) = some (t.moveEntry (t.ibToOffset index b)
        (t.ibToOffset (t.alternate crc (t.table (t.ibToOffset index b)).addr) b')) := by
  obtain ⟨hstuck, b', hb', hfree⟩ := h
  have hstuck' : ¬ (t.primary crc (t.table (t.ibToOffset index b)).addr =
      t.alternate crc (t.table (t.ibToOffset index b)).addr ∨
      index = t.alternate crc (t.table (t.ibToOffset index b)).addr) := hstuck
  cases hroom : t.freeIn (t.alternate crc (t.table (t.ibToOffset index b)).addr) with
  | none => exact absurd hfree (freeIn_none hroom hb')
  | some b'' =>
    obtain ⟨hb'', hfree''⟩ := freeIn_some hroom
    refine ⟨b'', hb'', hfree'', ?_⟩
    simp only [tryMoving, if_neg hstuck', hroom]

/-- A new entry of a bucket goes where lookups see it: the first slot is the one used in
buckets with four slots, and if an entry is moved it is the one of the first slot. -/
def Roomy (crc : Mac → BitVec 32) (t : L2Table) (index : Nat) : Prop :=
  (t.bucket = 4 → t.Free index 0) ∧
  ((∃ b < t.bucket, t.Free index b) ∨ t.Movable crc index 0 ∨ t.Stuck crc index 0 ∨
    ∀ b < t.bucket, ¬ t.Movable crc index b)

theorem Laid.l2FindSlot (h : t.Laid crc) (hroomy : t.Roomy crc (t.primary crc m))
    {t' : L2Table} (hslot : t.l2FindSlot crc m = some (t', index, b)) :
    t'.Laid crc ∧ t'.size = t.size ∧ t'.sizePower = t.sizePower ∧ t'.bucket = t.bucket ∧
      index = t.primary crc m ∧ b < t.bucket ∧ (t.bucket = 4 → b = 0) ∧ t'.Free index b ∧
      ∀ m g, t'.slots.Holds m g ↔ t.slots.Holds m g := by
  rw [L2Table.l2FindSlot] at hslot
  cases hfree : t.freeIn (t.primary crc m) with
  | some =>
    simp only [hfree, some.injEq, Prod.mk.injEq] at hslot
    obtain ⟨rfl, rfl, rfl⟩ := hslot
    obtain ⟨hb, hfreeb⟩ := freeIn_some hfree
    refine ⟨h, rfl, rfl, rfl, rfl, hb, fun hfour => ?_, hfreeb, fun m g => Iff.rfl⟩
    rw [freeIn_zero h.bucket_pos (hroomy.1 hfour), some.injEq] at hfree
    exact hfree.symm
  | none =>
    simp only [hfree] at hslot
    obtain ⟨t₁, hmoving, heq⟩ := map_eq_some_iff.mp hslot
    obtain ⟨rfl, rfl, rfl⟩ : t₁ = t' ∧ t.primary crc m = index ∧ 0 = b := by
      simpa only [Prod.mk.injEq] using heq
    have hfour : t.bucket ≠ 4 := fun hfour =>
      freeIn_none hfree h.bucket_pos (hroomy.1 hfour)
    obtain ⟨n, hn⟩ : ∃ n, t.bucket = n + 1 := ⟨t.bucket - 1, by have := h.bucket_pos; omega⟩
    have hrange : List.range t.bucket = 0 :: (List.range n).map Nat.succ := by
      rw [hn, range_succ_eq_map]
    rcases hroomy.2 with ⟨b, hb, hfreeb⟩ | hmovable | hstuck | hnone
    · exact absurd hfreeb (freeIn_none hfree hb)
    · -- The entry of the first slot moves, and leaves that slot.
      obtain ⟨b', hb', hfreeb', hmoved⟩ := tryMoving_movable hmovable
        ((List.range n).map Nat.succ)
      rw [hrange, hmoved, some.injEq] at hmoving
      have hheld : ∃ g, t.slots (t.ibToOffset (t.primary crc m) 0) =
          some ((t.table (t.ibToOffset (t.primary crc m) 0)).addr, g) := by
        have hoccupied := freeIn_none hfree h.bucket_pos
        rw [Free, not_eq_false] at hoccupied
        exact ⟨_, if_pos hoccupied⟩
      obtain ⟨g₀, hg₀⟩ := hheld
      have hto := slots_eq_none.mpr hfreeb'
      rw [← hmoving]
      refine ⟨h.move hg₀ hb' (fun hf => absurd hf hfour) hto, rfl, rfl, rfl, rfl, h.bucket_pos,
        fun hf => absurd hf hfour, ?_, fun m g => ?_⟩
      · apply slots_eq_none.mp
        rw [slots_moveEntry, SlotMap.move]
        exact update_self ..
      · rw [slots_moveEntry]
        exact SlotMap.holds_move hg₀ hto
    · rw [hrange, tryMoving_stuck hstuck] at hmoving
      cases hmoving
    · rw [tryMoving_none fun b hb => hnone b (mem_range.mp hb)] at hmoving
      cases hmoving

end L2Table

end Upf.Bess.L2
