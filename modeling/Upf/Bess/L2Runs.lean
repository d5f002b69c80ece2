import Upf.Bess.L2Forward

/-!
# The L2 forwarding table as a map

Addresses are added, deleted and flushed, and beside the table the map of the last
successful operations is kept.  The table is that map along every run in which new entries
go where lookups see them, gates fit into 15 bits, and only an empty table is flushed: a
flush leaves the count of entries.

Main result: `l2Table_is_map`.
-/

namespace Upf.Bess.L2

open Function Lib Nat List

inductive L2Op where
  | add (m : Mac) (g : GateIdx)
  | delete (m : Mac)
  | flush

/-- A table with what the last successful operation on each address was: the gate it was
added with, if it was added. -/
structure Traced where
  table : L2Table
  map : Mac → Option GateIdx := fun _ => none

def l2Step (crc : Mac → BitVec 32) (avx : Bool) (s : Traced) : L2Op → Traced
  | .add m g =>
    let (ret, table) := s.table.l2AddEntry crc avx m g
    { table, map := if ret = 0 then update s.map m (some g) else s.map }
  | .delete m =>
    let (ret, table) := s.table.l2DelEntry crc m
    { table, map := if ret = 0 then update s.map m none else s.map }
  | .flush => { table := s.table.l2Flush }

namespace L2Table

variable {crc : Mac → BitVec 32} {avx : Bool} {t : L2Table} {m : Mac} {g : GateIdx}

/-- An operation avoids the cases the table does not handle. -/
def Careful (crc : Mac → BitVec 32) (t : L2Table) : L2Op → Prop
  | .add m g =>
    (∃ g, t.slots.Holds m g) ∨ (g.toNat < 2 ^ 15 ∧ t.Roomy crc (t.primary crc m))
  | .delete _ => True
  | .flush => ∀ offset, (t.table offset).occupied = false

/-- The lookups tell entries apart: buckets with four slots are not compared with vector
instructions. -/
def Plain (avx : Bool) (t : L2Table) : Prop := avx = true → t.bucket ≠ 4

theorem Plain.compared (h : t.Plain avx) (m : Mac) : t.Compared avx m := by
  intro hfour
  cases avx with
  | false => exact .inl rfl
  | true => exact absurd hfour (h rfl)

theorem setWidth_setWidth_gate (hg : g.toNat < 2 ^ 15) :
    (g.setWidth 15).setWidth 16 = g := by
  apply BitVec.eq_of_toNat_eq
  rw [BitVec.toNat_setWidth, BitVec.toNat_setWidth]
  omega

theorem Laid.l2AddEntry (h : t.Laid crc) (hplain : t.Plain avx)
    (hcareful : t.Careful crc (.add m g)) :
    (t.l2AddEntry crc avx m g).2.Laid crc ∧ (t.l2AddEntry crc avx m g).2.bucket = t.bucket ∧
    (((t.l2AddEntry crc avx m g).1 = 0 ∧ ∀ m' g', (t.l2AddEntry crc avx m g).2.slots.Holds m' g' ↔
        (m' = m ∧ g' = g) ∨ (m' ≠ m ∧ t.slots.Holds m' g')) ∨
      ((t.l2AddEntry crc avx m g).1 ≠ 0 ∧ (t.l2AddEntry crc avx m g).2 = t)) := by
  rw [L2Table.l2AddEntry]
  split
  · exact ⟨h, rfl, .inr ⟨(by decide : -eexist ≠ 0), rfl⟩⟩
  · rename_i hfind
    rw [Bool.not_eq_true, Option.isSome_eq_false_iff, Option.isNone_iff_eq_none,
      h.l2Find_eq_none (hplain.compared m)] at hfind
    obtain ⟨hg, hroomy⟩ := hcareful.resolve_left fun ⟨g, hg⟩ => hfind g hg
    split
    · exact ⟨h, rfl, .inr ⟨(by decide : -enomem ≠ 0), rfl⟩⟩
    · rename_i t' index b hslot
      obtain ⟨hlaid, hsize, hpower, hbucket, rfl, hb, hfirst, hfree, hholds⟩ :=
        h.l2FindSlot hroomy hslot
      have hnew : ∀ g, ¬ t'.slots.Holds m g := fun g hg => hfind g ((hholds m g).mp hg)
      have hprimary : t'.primary crc m = t.primary crc m := by rw [primary, hsize, primary]
      have hcontent : L2Entry.content ⟨m, g.setWidth 15, true⟩ = some (m, g) := by
        rw [L2Entry.content, if_pos rfl, setWidth_setWidth_gate hg]
      rw [← hprimary] at hfree ⊢
      have hnone := slots_eq_none.mpr hfree
      rw [← hbucket] at hb hfirst
      refine ⟨hlaid.put hb hfirst hnone hnew hcontent, hbucket, .inl ⟨rfl, fun m' g' => ?_⟩⟩
      rw [slots_update, hcontent, SlotMap.holds_put hnone, hholds]
      constructor
      · rintro (heq | hheld)
        · exact .inl heq
        · refine .inr ⟨?_, hheld⟩
          rintro rfl
          exact hfind g' hheld
      · rintro (heq | ⟨-, hheld⟩)
        · exact .inl heq
        · exact .inr hheld

theorem Laid.l2DelEntry (h : t.Laid crc) :
    (t.l2DelEntry crc m).2.Laid crc ∧ (t.l2DelEntry crc m).2.bucket = t.bucket ∧
    (((t.l2DelEntry crc m).1 = 0 ∧ (∃ g, t.slots.Holds m g) ∧
        ∀ m' g', (t.l2DelEntry crc m).2.slots.Holds m' g' ↔ m' ≠ m ∧ t.slots.Holds m' g') ∨
      ((t.l2DelEntry crc m).1 ≠ 0 ∧ (∀ g, ¬ t.slots.Holds m g) ∧
        (t.l2DelEntry crc m).2 = t)) := by
  rw [L2Table.l2DelEntry]
  split
  · rename_i hnone
    exact ⟨h, rfl, .inr ⟨(by decide : -enoent ≠ 0), h.l2FindOffset_none hnone, rfl⟩⟩
  · rename_i offset hsome
    have hslot := l2FindOffset_some hsome
    refine ⟨h.clear hslot, rfl, .inl ⟨rfl, ⟨_, offset, hslot⟩, fun m' g' => ?_⟩⟩
    rw [slots_update]
    exact h.keyed.holds_clear hslot

theorem Laid.l2Flush (h : t.Laid crc) (hempty : t.Careful crc .flush) :
    t.l2Flush.Laid crc ∧ t.l2Flush.slots = t.slots := by
  have hslots : t.l2Flush.slots = t.slots := by
    funext offset
    have hold : t.slots offset = none := L2Entry.content_eq_none.mpr (hempty offset)
    rw [hold]
    change (if offset < t.size * t.bucket then {} else t.table offset).content = none
    split
    · rfl
    · exact hold
  exact ⟨{ h with
    keyed := hslots ▸ h.keyed
    placed := fun {offset m g} hslot => h.placed (hslots ▸ hslot)
    counted := by rw [hslots]; exact h.counted }, hslots⟩

structure IsMap (crc : Mac → BitVec 32) (avx : Bool) (t : L2Table) (map : Mac → Option GateIdx) :
    Prop where
  lookup : ∀ m, t.l2Find crc avx m = map m
  counted : t.count = {m | (map m).isSome}.ncard

/-- An operation changes the map at its own address only, or fails and changes nothing. -/
def Does (crc : Mac → BitVec 32) (avx : Bool) (t : L2Table) : L2Op → Prop
  | .add m g =>
    ((t.l2AddEntry crc avx m g).1 = 0 ∧
      (t.l2AddEntry crc avx m g).2.l2Find crc avx m = some g ∧
      ∀ m' ≠ m, (t.l2AddEntry crc avx m g).2.l2Find crc avx m' = t.l2Find crc avx m') ∨
    ((t.l2AddEntry crc avx m g).1 ≠ 0 ∧ (t.l2AddEntry crc avx m g).2 = t)
  | .delete m =>
    ((t.l2DelEntry crc m).1 = 0 ∧ (t.l2Find crc avx m).isSome ∧
      (t.l2DelEntry crc m).2.l2Find crc avx m = none ∧
      ∀ m' ≠ m, (t.l2DelEntry crc m).2.l2Find crc avx m' = t.l2Find crc avx m') ∨
    ((t.l2DelEntry crc m).1 ≠ 0 ∧ t.l2Find crc avx m = none ∧ (t.l2DelEntry crc m).2 = t)
  | .flush => ∀ m, t.l2Flush.l2Find crc avx m = none

theorem Laid.l2Find_congr {t' : L2Table} (h : t.Laid crc) (h' : t'.Laid crc)
    (hplain : t.Plain avx) (hplain' : t'.Plain avx) {m : Mac}
    (hsame : ∀ g, t'.slots.Holds m g ↔ t.slots.Holds m g) :
    t'.l2Find crc avx m = t.l2Find crc avx m := by
  apply Option.ext
  intro g
  rw [h'.l2Find_iff (hplain'.compared m), hsame, h.l2Find_iff (hplain.compared m)]

theorem Laid.does (h : t.Laid crc) (hplain : t.Plain avx) {op : L2Op}
    (hcareful : t.Careful crc op) : t.Does crc avx op := by
  cases op with
  | add m g =>
    obtain ⟨hlaid, hbucket, ⟨hret, hholds⟩ | hfail⟩ := h.l2AddEntry hplain hcareful
    · have hplain' : (t.l2AddEntry crc avx m g).2.Plain avx := fun ha => hbucket ▸ hplain ha
      refine .inl ⟨hret, ?_, fun m' hm' => h.l2Find_congr hlaid hplain hplain' fun g' => ?_⟩
      · rw [hlaid.l2Find_iff (hplain'.compared m), hholds]
        exact .inl ⟨rfl, rfl⟩
      · rw [hholds]
        simp [hm']
    · exact .inr hfail
  | delete m =>
    obtain ⟨hlaid, hbucket, ⟨hret, ⟨g, hg⟩, hholds⟩ | ⟨hret, hnone, hsame⟩⟩ :=
      h.l2DelEntry (m := m)
    · have hplain' : (t.l2DelEntry crc m).2.Plain avx := fun ha => hbucket ▸ hplain ha
      refine .inl ⟨hret, ?_, ?_, fun m' hm' => h.l2Find_congr hlaid hplain hplain' fun g' => ?_⟩
      · rw [(h.l2Find_iff (hplain.compared m)).mpr hg]
        rfl
      · rw [hlaid.l2Find_eq_none (hplain'.compared m)]
        intro g' hg'
        exact ((hholds m g').mp hg').1 rfl
      · rw [hholds]
        simp [hm']
    · exact .inr ⟨hret, (h.l2Find_eq_none (hplain.compared m)).mpr hnone, hsame⟩
  | flush =>
    intro m
    obtain ⟨hlaid, hslots⟩ := h.l2Flush hcareful
    have hplain' : t.l2Flush.Plain avx := hplain
    rw [hlaid.l2Find_eq_none (hplain'.compared m), hslots]
    rintro g ⟨offset, hoffset⟩
    rw [slots, L2Entry.content_eq_none.mpr (hcareful offset)] at hoffset
    cases hoffset

end L2Table

variable {crc : Mac → BitVec 32} {avx : Bool} {s : Traced}

structure Tracked (crc : Mac → BitVec 32) (avx : Bool) (s : Traced) : Prop where
  laid : s.table.Laid crc
  plain : s.table.Plain avx
  holds : ∀ m g, s.table.slots.Holds m g ↔ s.map m = some g

theorem Tracked.step (h : Tracked crc avx s) {op : L2Op} (hcareful : s.table.Careful crc op) :
    Tracked crc avx (l2Step crc avx s op) := by
  cases op with
  | add m g =>
    obtain ⟨hlaid, hbucket, hcases⟩ := h.laid.l2AddEntry h.plain hcareful
    refine ⟨hlaid, fun ha => hbucket ▸ h.plain ha, fun m' g' => ?_⟩
    rw [l2Step]
    rcases hcases with ⟨hret, hholds⟩ | ⟨hret, hsame⟩
    · simp only [hret, if_true]
      rw [hholds, h.holds]
      by_cases hm : m' = m
      · simp [hm, eq_comm]
      · simp [hm]
    · simp only [hret, if_false, hsame]
      exact h.holds m' g'
  | delete m =>
    obtain ⟨hlaid, hbucket, hcases⟩ := h.laid.l2DelEntry (m := m)
    refine ⟨hlaid, fun ha => hbucket ▸ h.plain ha, fun m' g' => ?_⟩
    rw [l2Step]
    rcases hcases with ⟨hret, -, hholds⟩ | ⟨hret, -, hsame⟩
    · simp only [hret, if_true]
      rw [hholds, h.holds]
      by_cases hm : m' = m
      · simp [hm]
      · simp [hm]
    · simp only [hret, if_false, hsame]
      exact h.holds m' g'
  | flush =>
    obtain ⟨hlaid, hslots⟩ := h.laid.l2Flush hcareful
    refine ⟨hlaid, h.plain, fun m g => ?_⟩
    rw [l2Step, hslots]
    constructor
    · rintro ⟨offset, hoffset⟩
      rw [L2Table.slots, L2Entry.content_eq_none.mpr (hcareful offset)] at hoffset
      cases hoffset
    · exact nofun

theorem Tracked.isMap (h : Tracked crc avx s) : s.table.IsMap crc avx s.map where
  lookup := by
    intro m
    apply Option.ext
    intro g
    rw [h.laid.l2Find_iff (h.plain.compared m), h.holds]
  counted := by
    have hset : {m | (s.map m).isSome} = {m | ∃ g, s.table.slots.Holds m g} := by
      ext m
      simp only [Set.mem_ofPred_eq, h.holds, Option.isSome_iff_exists]
    rw [h.laid.counted, hset]
    exact (h.laid.keyed.ncard_keys fun _ => h.laid.offset_lt).symm

theorem slots_empty (size sizePower bucket : Nat) :
    L2Table.slots { size, sizePower, bucket } = fun _ => none := rfl

theorem laid_init {size bucket : Int} {t : L2Table} (hinit : l2Init size bucket = some t)
    (hsize : 2 ≤ size) :
    t.Laid crc ∧ t.bucket = bucket.toNat ∧ t.slots = fun _ => none := by
  rw [l2Init] at hinit
  split_ifs at hinit with hbadSize hbadBucket
  cases hinit
  simp only [not_or, Int.not_le, Int.not_lt, maxTableSize] at hbadSize hbadBucket
  have hne : size.toNat ≠ 0 := by omega
  have hlow : 1 ≤ size.toNat.log2 := (le_log2 hne).mpr (by omega)
  have hhigh : size.toNat.log2 < 27 := (log2_lt hne).mpr (by omega)
  have hpower : (size.toNat.log2 + 63) % 64 = size.toNat.log2 - 1 := by omega
  have hpow : 2 ^ (size.toNat.log2 - 1) ≤ 2 ^ size.toNat.log2 :=
    Nat.pow_le_pow_right (by decide) (sub_le _ 1)
  refine ⟨⟨Nat.pos_of_ne_zero hne, ?_, ?_, ?_, ?_, ?_⟩, rfl, slots_empty ..⟩
  · change 2 ^ ((size.toNat.log2 + 63) % 64) ≤ size.toNat
    rw [hpower]
    exact hpow.trans (log2_self_le hne)
  · change 0 < bucket.toNat
    omega
  · exact fun _ _ _ _ _ h => (nomatch h)
  · exact fun h => (nomatch h)
  · rw [slots_empty, SlotMap.filled]
    simp

theorem tracked_init {size bucket : Int} {t : L2Table} (hinit : l2Init size bucket = some t)
    (hsize : 2 ≤ size) (havx : avx = true → bucket ≠ 4) : Tracked crc avx { table := t } := by
  obtain ⟨hlaid, hbucket, hslots⟩ : t.Laid crc ∧ _ := laid_init hinit hsize
  refine ⟨hlaid, fun ha hfour => ?_, fun m g => ?_⟩
  · rw [hbucket] at hfour
    exact havx ha (by omega)
  · rw [hslots]
    constructor
    · rintro ⟨offset, hoffset⟩
      cases hoffset
    · exact nofun

/-- In a table of at least two buckets, whose lookups tell entries apart, along every run of
careful operations the table is the map of the last successful operations. -/
theorem l2Table_is_map {size bucket : Int} {t : L2Table} (hinit : l2Init size bucket = some t)
    (hsize : 2 ≤ size) (havx : avx = true → bucket ≠ 4) {ops : List L2Op}
    (hcareful : eachStep (l2Step crc avx) (fun s => s.table.Careful crc) { table := t } ops) :
    (ops.foldl (l2Step crc avx) { table := t }).table.IsMap crc avx
        (ops.foldl (l2Step crc avx) { table := t }).map ∧
      ∀ op, (ops.foldl (l2Step crc avx) { table := t }).table.Careful crc op →
        (ops.foldl (l2Step crc avx) { table := t }).table.Does crc avx op := by
  have htracked : Tracked crc avx (ops.foldl (l2Step crc avx) { table := t }) :=
    foldl_invariant_of_eachStep (fun _ _ hop h => h.step hop) hcareful
      (tracked_init hinit hsize havx)
  exact ⟨htracked.isMap, fun op hop => htracked.laid.does htracked.plain hop⟩

/-- A hash that spreads addresses over the buckets. -/
def lowBits (m : Mac) : BitVec 32 := m.setWidth 32

/-- Two addresses of one bucket and one of another. -/
def twoOfBucket : List L2Op := [.add 0 5, .add 4 6, .add 3 7, .delete 0]

theorem l2Table_is_map_twoOfBucket :
    (twoOfBucket.foldl (l2Step lowBits true)
        { table := { size := 4, sizePower := 2, bucket := 2 } }).table.IsMap lowBits true
      (twoOfBucket.foldl (l2Step lowBits true)
        { table := { size := 4, sizePower := 2, bucket := 2 } }).map := by
  have hinit : l2Init 4 2 = some { size := 4, sizePower := 2, bucket := 2 } := rfl
  refine (l2Table_is_map hinit (by decide) (by decide) ?_).1
  refine ⟨.inr ⟨by decide, nofun, .inl ⟨0, by decide, rfl⟩⟩,
    .inr ⟨by decide, nofun, .inl ⟨1, by decide, ?_⟩⟩,
    .inr ⟨by decide, nofun, .inl ⟨0, by decide, ?_⟩⟩, trivial, trivial⟩
  · rw [L2Table.Free]
    decide
  · rw [L2Table.Free]
    decide

namespace L2Table

variable {t : L2Table} {m : Mac}

/-- No first slot of a bucket holds the address. -/
def Unseen (t : L2Table) (m : Mac) : Prop :=
  ∀ index, ((t.table (t.ibToOffset index 0)).occupied &&
    m == (t.table (t.ibToOffset index 0)).addr) = false

theorem Unseen.l2Find (h : t.Unseen m) (hfour : t.bucket = 4) (hm : m ≠ 0) :
    t.l2Find crc avx m = none := by
  rw [l2Find_four hfour (.inr hm), h, h]
  rfl

theorem l2AddEntry_eq {g : GateIdx} {b : Nat} (hnew : t.l2Find crc avx m = none)
    (hfree : t.freeIn (t.primary crc m) = some b) :
    t.l2AddEntry crc avx m g = (0, { t with
      table := update t.table (t.ibToOffset (t.primary crc m) b)
        ⟨m, g.setWidth 15, true⟩
      count := t.count + 1 }) := by
  simp only [l2AddEntry, hnew, Option.isSome_none, Bool.false_eq_true, if_false, l2FindSlot, hfree]

end L2Table

theorem exists_same_primary (crc : Mac → BitVec 32) : ∃ m m' : Mac, m ≠ m' ∧ m' ≠ 0 ∧ m ≠ 0 ∧
    l2HashToIndex (crc m) 2 = l2HashToIndex (crc m') 2 := by
  have hbit : ∀ m, l2HashToIndex (crc m) 2 ≤ 1 := fun m => Nat.and_le_right
  have h1 := hbit 1
  have h2 := hbit 2
  have h3 := hbit 3
  obtain h | h | h : l2HashToIndex (crc 1) 2 = l2HashToIndex (crc 2) 2 ∨
      l2HashToIndex (crc 1) 2 = l2HashToIndex (crc 3) 2 ∨
      l2HashToIndex (crc 2) 2 = l2HashToIndex (crc 3) 2 := by omega
  · exact ⟨1, 2, by decide, by decide, by decide, h⟩
  · exact ⟨1, 3, by decide, by decide, by decide, h⟩
  · exact ⟨2, 3, by decide, by decide, by decide, h⟩

def oneOfBucket (p : Nat) (m : Mac) : L2Table :=
  { size := 2, sizePower := 1, bucket := 4, count := 1
    table := update (fun _ => {}) (p * 4) ⟨m, 1, true⟩ }

def bothOfBucket (p : Nat) (m m' : Mac) : L2Table :=
  { oneOfBucket p m with
    table := update (oneOfBucket p m).table (p * 4 + 1) ⟨m', 2, true⟩, count := 2 }

theorem oneOfBucket_table (p : Nat) (m : Mac) (offset : Nat) :
    (oneOfBucket p m).table offset = if offset = p * 4 then ⟨m, 1, true⟩ else {} := by
  change update (fun _ => ({} : L2Entry)) (p * 4) ⟨m, 1, true⟩ offset = _
  rw [update_apply]

theorem oneOfBucket_unseen {p : Nat} {m m' : Mac} (hne : m ≠ m') :
    (oneOfBucket p m).Unseen m' := by
  intro index
  change (((oneOfBucket p m).table (index * 4)).occupied &&
    m' == ((oneOfBucket p m).table (index * 4)).addr) = false
  rw [oneOfBucket_table]
  split
  · simp [hne.symm]
  · rfl

theorem bothOfBucket_unseen {p : Nat} {m m' : Mac} (hne : m ≠ m') :
    (bothOfBucket p m m').Unseen m' := by
  intro index
  have hentry : (bothOfBucket p m m').table (index * 4) = (oneOfBucket p m).table (index * 4) :=
    update_of_ne (by omega) _ _
  change (((bothOfBucket p m m').table (index * 4)).occupied &&
    m' == ((bothOfBucket p m m').table (index * 4)).addr) = false
  rw [hentry]
  exact oneOfBucket_unseen hne index

theorem oneOfBucket_freeIn (p : Nat) (m : Mac) : (oneOfBucket p m).freeIn p = some 1 := by
  change [0, 1, 2, 3].find? (fun b => !((oneOfBucket p m).table (p * 4 + b)).occupied) = some 1
  simp [oneOfBucket_table]

/-- Whatever the hash, with four slots in a bucket the second address of a bucket is added and
not found. -/
theorem second_of_bucket_lost : ¬ ∃ (crc : Mac → BitVec 32) (avx : Bool),
    ∀ (t : L2Table) (ops : List L2Op), l2Init 2 4 = some t →
      (ops.foldl (l2Step crc avx) { table := t }).table.IsMap crc avx
        (ops.foldl (l2Step crc avx) { table := t }).map := by
  rintro ⟨crc, avx, hmap⟩
  obtain ⟨m, m', hne, hm', hm, hsame⟩ := exists_same_primary crc
  let t : L2Table := { size := 2, sizePower := 1, bucket := 4 }
  let p := l2HashToIndex (crc m) 2
  have hempty : t.Unseen m := fun _ => rfl
  have hfirst : t.l2AddEntry crc avx m 1 = (0, oneOfBucket p m) :=
    L2Table.l2AddEntry_eq (hempty.l2Find rfl hm) rfl
  have hp : (oneOfBucket p m).primary crc m' = p := hsame.symm
  have hsecond : (oneOfBucket p m).l2AddEntry crc avx m' 2 = (0, bothOfBucket p m m') := by
    have hfree : (oneOfBucket p m).freeIn ((oneOfBucket p m).primary crc m') = some 1 := by
      rw [hp, oneOfBucket_freeIn]
    rw [L2Table.l2AddEntry_eq ((oneOfBucket_unseen hne).l2Find rfl hm') hfree, hp]
    rfl
  have hlookup := (hmap t [.add m 1, .add m' 2] rfl).lookup m'
  simp only [foldl_cons, foldl_nil, l2Step, hfirst, hsecond, if_true,
    update_self, (bothOfBucket_unseen hne).l2Find rfl hm'] at hlookup
  cases hlookup

end Upf.Bess.L2
