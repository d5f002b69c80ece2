import Mathlib.Algebra.Order.Ring.Nat
import Mathlib.Data.List.Infix
import Mathlib.Data.List.Pairwise

/-!
# Tries

Values under keys of bytes, where an entry may stand for all keys that begin with its own.
Characters are signed, so that bytes from 128 on index the children of a node far out of
bounds.

Main result: `trie_correct_iff`.
-/

namespace Upf.Bess

open List

inductive TrieNode (T : Type) where
  | null
  | node (leaf isPrefix : Bool) (val : T) (children : UInt8 → TrieNode T)

namespace TrieNode

variable {T : Type}

def isNull : TrieNode T → Bool
  | null => true
  | node .. => false

def children : TrieNode T → UInt8 → TrieNode T
  | null => fun _ => null
  | node _ _ _ children => children

@[simp] theorem children_node (leaf isPrefix : Bool) (val : T) (children : UInt8 → TrieNode T) :
    (node leaf isPrefix val children).children = children := rfl

def data [Inhabited T] : TrieNode T → Bool × Bool × T
  | null => (false, false, default)
  | node leaf isPrefix val _ => (leaf, isPrefix, val)

/-- The index of a child, a signed character as a number of 64 bits. -/
def charIndex (c : UInt8) : Nat := if c < 128 then c.toNat else 2 ^ 64 - 256 + c.toNat

def insert [Inhabited T] (val : T) (isPrefix : Bool) :
    List UInt8 → TrieNode T → Option (TrieNode T)
  | [], t => some (node true isPrefix val t.children)
  | c :: cs, t =>
    if charIndex c < 256 then
      (insert val isPrefix cs (t.children c)).map fun child =>
        node t.data.1 t.data.2.1 t.data.2.2 (Function.update t.children c child)
    else none

/-- Follow a key with the value of the last entry on the way that is for all longer keys. -/
def lookup : List UInt8 → Option T → TrieNode T → Option (Option T)
  | _, prefixMatch, null => some prefixMatch
  | [], prefixMatch, node leaf isPrefix val _ =>
    some (if leaf || isPrefix then some val else prefixMatch)
  | c :: cs, prefixMatch, node _ isPrefix val children =>
    if charIndex c < 256 then
      lookup cs (if isPrefix then some val else prefixMatch) (children c)
    else none

def matchKey : List UInt8 → TrieNode T → Option Bool
  | _, null => some false
  | [], node leaf isPrefix _ _ => some (isPrefix || leaf)
  | c :: cs, node _ isPrefix _ children =>
    if isPrefix then some true
    else if charIndex c < 256 then matchKey cs (children c) else none

def recursiveDump : TrieNode T → List UInt8 → List (List UInt8 × T × Bool)
  | null, _ => []
  | node leaf isPrefix val children, prelude =>
    (if leaf || isPrefix then [(prelude, val, isPrefix)] else []) ++
      (List.range 256).flatMap fun i =>
        recursiveDump (children (UInt8.ofNat i)) (prelude ++ [UInt8.ofNat i])

def insertAll [Inhabited T] (ops : List (List UInt8 × T × Bool)) : Option (TrieNode T) :=
  ops.foldlM (fun t op => insert op.2.1 op.2.2 op.1 t) (node false false default fun _ => null)

/-! ## What a trie holds -/

def nodeAt : TrieNode T → List UInt8 → TrieNode T
  | t, [] => t
  | t, c :: cs => nodeAt (t.children c) cs

/-- The value and flag last inserted for a key. -/
def entry (ops : List (List UInt8 × T × Bool)) (key : List UInt8) : Option (T × Bool) :=
  (ops.reverse.find? fun op => op.1 = key).map Prod.snd

def longest (entries : List UInt8 → Option (T × Bool)) (key : List UInt8) : Option T :=
  (key.inits.filterMap fun start => (entries start).bind fun e =>
    if e.2 then some e.1 else none).getLast?

def expected (entries : List UInt8 → Option (T × Bool)) (key : List UInt8) : Option T :=
  ((entries key).map Prod.fst).or (longest entries key)

section

variable [Inhabited T] {t t' : TrieNode T} {entries : List UInt8 → Option (T × Bool)}
  {ops : List (List UInt8 × T × Bool)} {key : List UInt8}

def dataOf : Option (T × Bool) → Bool × Bool × T
  | none => (false, false, default)
  | some (val, isPrefix) => (true, isPrefix, val)

def Represents (t : TrieNode T) (entries : List UInt8 → Option (T × Bool)) : Prop :=
  ∀ path, (t.nodeAt path).data = dataOf (entries path)

theorem charIndex_lt {c : UInt8} : charIndex c < 256 ↔ c < 128 := by
  have hc := c.toNat_lt
  unfold charIndex
  split
  · exact iff_of_true hc ‹_›
  · exact iff_of_false (by omega) ‹_›

omit [Inhabited T] in
@[simp] theorem nodeAt_null (path : List UInt8) : (null : TrieNode T).nodeAt path = null := by
  induction path with
  | nil => rfl
  | cons c cs ih => exact ih

theorem isSome_insert {val : T} {isPrefix : Bool} (t : TrieNode T) :
    (insert val isPrefix key t).isSome = true ↔ ∀ c ∈ key, c < 128 := by
  induction key generalizing t with
  | nil => simp [insert]
  | cons c cs ih =>
    rw [insert, forall_mem_cons, ← charIndex_lt]
    split
    · rename_i hc
      rw [Option.isSome_map, ih, and_iff_right hc]
    · rename_i hc
      exact iff_of_false (by simp) fun h => hc h.1

theorem nodeAt_insert {val : T} {isPrefix : Bool} (h : insert val isPrefix key t = some t')
    (path : List UInt8) :
    (t'.nodeAt path).data =
      (if path = key then (true, isPrefix, val) else (t.nodeAt path).data) ∧
    ((t'.nodeAt path).isNull = false ↔ (t.nodeAt path).isNull = false ∨ path <+: key) := by
  induction key generalizing t t' path with
  | nil =>
    cases h
    cases path with
    | nil => simp [nodeAt, data, isNull]
    | cons => simp [nodeAt, children]
  | cons c cs ih =>
    rw [insert] at h
    split at h
    · obtain ⟨child, hchild, rfl⟩ := Option.map_eq_some_iff.mp h
      cases path with
      | nil => simp [nodeAt, data, isNull]
      | cons d path =>
        simp only [nodeAt, children_node, List.cons.injEq, cons_prefix_cons]
        by_cases hd : d = c
        · subst hd
          simpa using ih hchild path
        · simp [hd]
    · cases h

theorem insertAll_append {op : List UInt8 × T × Bool} :
    insertAll (ops ++ [op]) = (insertAll ops).bind (insert op.2.1 op.2.2 op.1) := by
  simp [insertAll, foldlM_append]

theorem insertAll_spec (h : insertAll ops = some t) :
    t.Represents (entry ops) ∧ ∀ path, (t.nodeAt path).isNull = false ↔
      path = [] ∨ ∃ op ∈ ops, path <+: op.1 := by
  induction ops using List.reverseRecOn generalizing t with
  | nil =>
    cases h
    refine ⟨fun path => ?_, fun path => ?_⟩
    · cases path with
      | nil => rfl
      | cons c cs => exact congrArg data (nodeAt_null cs)
    · cases path with
      | nil => simp [nodeAt, isNull]
      | cons => simp [nodeAt, children, isNull]
  | append_singleton ops op ih =>
    rw [insertAll_append] at h
    obtain ⟨t₀, h₀, hinsert⟩ := Option.bind_eq_some_iff.mp h
    obtain ⟨hrep, hnull⟩ := ih h₀
    refine ⟨fun path => ?_, fun path => ?_⟩
    · rw [(nodeAt_insert hinsert path).1, hrep path]
      by_cases hpath : path = op.1
      · simp [entry, hpath, dataOf]
      · simp [entry, hpath, Ne.symm hpath]
    · rw [(nodeAt_insert hinsert path).2, hnull]
      simp [or_assoc, or_and_right, exists_or]

theorem isSome_insertAll : (insertAll ops).isSome = true ↔ ∀ op ∈ ops, ∀ c ∈ op.1, c < 128 := by
  induction ops using List.reverseRecOn with
  | nil => simp [insertAll]
  | append_singleton ops op ih =>
    have hstep : (insertAll (ops ++ [op])).isSome = true ↔
        (insertAll ops).isSome = true ∧ ∀ c ∈ op.1, c < 128 := by
      rw [insertAll_append]
      cases insertAll ops with
      | none => simp
      | some => simp [isSome_insert]
    rw [hstep, ih]
    simp [or_imp, forall_and]

/-! ## Lookups -/

omit [Inhabited T] in
theorem lookup_eq_none {best : Option T} : lookup key best t = none ↔
    ∃ start c rest, key = start ++ c :: rest ∧ (t.nodeAt start).isNull = false ∧ ¬c < 128 := by
  induction key generalizing t best with
  | nil => cases t <;> simp [lookup]
  | cons c cs ih =>
    cases t with
    | null => simp [lookup, isNull]
    | node =>
      simp only [lookup, charIndex_lt]
      constructor
      · intro h
        split at h
        · obtain ⟨start, d, rest, rfl, hnode, hd⟩ := ih.mp h
          exact ⟨c :: start, d, rest, rfl, hnode, hd⟩
        · exact ⟨[], c, cs, rfl, rfl, ‹_›⟩
      · rintro ⟨start, d, rest, heq, hnode, hd⟩
        cases start with
        | nil =>
          cases heq
          rw [if_neg hd]
        | cons c' start =>
          cases heq
          split
          · exact ih.mpr ⟨start, d, rest, rfl, hnode, hd⟩
          · rfl

omit [Inhabited T] in
theorem longest_cons (c : UInt8) (cs : List UInt8) : longest entries (c :: cs) =
    (longest (fun path => entries (c :: path)) cs).or
      ((entries []).bind fun e => if e.2 then some e.1 else none) := by
  simp only [longest, inits_cons, filterMap_cons, filterMap_map]
  generalize ((entries []).bind fun e => if e.2 then some e.1 else none) = own
  cases own with
  | none => simp
  | some =>
    rw [getLast?_cons]
    simp

omit [Inhabited T] in
theorem expected_cons (c : UInt8) (cs : List UInt8) : expected entries (c :: cs) =
    (expected (fun path => entries (c :: path)) cs).or
      ((entries []).bind fun e => if e.2 then some e.1 else none) := by
  rw [expected, longest_cons, expected, Option.or_assoc]

theorem Represents.child {leaf isPrefix : Bool} {val : T} {children : UInt8 → TrieNode T}
    (h : (node leaf isPrefix val children).Represents entries) (c : UInt8) :
    (children c).Represents fun path => entries (c :: path) :=
  fun path => h (c :: path)

theorem dataOf_eq {e : Option (T × Bool)} {leaf isPrefix : Bool} {val : T}
    (h : (leaf, isPrefix, val) = dataOf e) :
    leaf = e.isSome ∧ (leaf = true → e = some (val, isPrefix)) ∧
      (if isPrefix then some val else none) = e.bind fun e => if e.2 then some e.1 else none := by
  cases e with
  | none =>
    cases h
    exact ⟨rfl, by simp, rfl⟩
  | some =>
    cases h
    exact ⟨rfl, fun _ => rfl, rfl⟩

theorem Represents.null (h : (null : TrieNode T).Represents entries) (path : List UInt8) :
    entries path = none := by
  have hdata := h path
  rw [nodeAt_null] at hdata
  simpa using (dataOf_eq hdata).1.symm

omit [Inhabited T] in
theorem expected_of_none (h : ∀ path, entries path = none) : expected entries key = none := by
  simp [expected, longest, h]

theorem Represents.lookup_eq (h : t.Represents entries) {best : Option T}
    (hsome : lookup key best t ≠ none) :
    lookup key best t = some ((expected entries key).or best) := by
  induction key generalizing t best entries with
  | nil =>
    cases t with
    | null => rw [lookup, expected_of_none h.null, Option.none_or]
    | node leaf isPrefix =>
      obtain ⟨hleaf, hentry, hown⟩ := dataOf_eq (h [])
      cases leaf with
      | true => simp [lookup, expected, hentry rfl]
      | false =>
        have hnone : entries [] = none := by simpa using hleaf.symm
        rw [hnone] at hown
        cases isPrefix with
        | true => cases hown
        | false => simp [lookup, expected, longest, hnone]
  | cons c cs ih =>
    cases t with
    | null => rw [lookup, expected_of_none h.null, Option.none_or]
    | node leaf isPrefix =>
      obtain ⟨-, -, hown⟩ := dataOf_eq (h [])
      rw [lookup] at hsome ⊢
      split at hsome
      · rename_i hc
        rw [if_pos hc, ih (h.child c) hsome, expected_cons, ← hown, Option.or_assoc]
        cases isPrefix <;> rfl
      · exact absurd rfl hsome

theorem Represents.matchKey_eq (h : t.Represents entries) {best : Option T}
    (hsome : lookup key best t ≠ none) :
    matchKey key t = some (expected entries key).isSome := by
  induction key generalizing t best entries with
  | nil =>
    cases t with
    | null => rw [matchKey, expected_of_none h.null, Option.isSome_none]
    | node leaf isPrefix =>
      obtain ⟨hleaf, hentry, hown⟩ := dataOf_eq (h [])
      rw [matchKey, expected, hleaf]
      cases hentries : entries [] <;> cases isPrefix <;> simp_all [longest]
  | cons c cs ih =>
    cases t with
    | null => rw [matchKey, expected_of_none h.null, Option.isSome_none]
    | node leaf isPrefix =>
      obtain ⟨-, -, hown⟩ := dataOf_eq (h [])
      rw [lookup] at hsome
      split at hsome
      · rename_i hc
        rw [matchKey, if_pos hc, ih (h.child c) hsome, expected_cons, ← hown]
        cases isPrefix <;> simp
      · exact absurd rfl hsome

/-! ## Dumps -/

omit [Inhabited T] in
theorem start_of_mem_dump {prelude : List UInt8} {e : List UInt8 × T × Bool}
    (he : e ∈ recursiveDump t prelude) : prelude <+: e.1 := by
  induction t generalizing prelude with
  | null => cases he
  | node leaf isPrefix val children ih =>
    rw [recursiveDump, mem_append] at he
    rcases he with he | he
    · split at he
      · cases mem_singleton.mp he
        exact prefix_rfl
      · cases he
    · obtain ⟨i, -, he⟩ := mem_flatMap.mp he
      exact (prefix_append _ _).trans (ih _ he)

theorem lt_of_starts {l x y : List UInt8} {a b : UInt8} (h : a < b) (hx : l ++ [a] <+: x)
    (hy : l ++ [b] <+: y) : x < y := by
  obtain ⟨x, rfl⟩ := hx
  obtain ⟨y, rfl⟩ := hy
  induction l with
  | nil => exact cons_lt_cons_iff.mpr (.inl h)
  | cons c l ih => exact cons_lt_cons_iff.mpr (.inr ⟨rfl, ih⟩)

theorem lt_of_start {l x : List UInt8} {a : UInt8} (hx : l ++ [a] <+: x) : l < x := by
  obtain ⟨x, rfl⟩ := hx
  induction l with
  | nil => exact nil_lt_cons _ _
  | cons c l ih => exact cons_lt_cons_iff.mpr (.inr ⟨rfl, ih⟩)

omit [Inhabited T] in
theorem pairwise_dump (t : TrieNode T) (prelude : List UInt8) :
    (recursiveDump t prelude).Pairwise fun a b => a.1 < b.1 := by
  induction t generalizing prelude with
  | null => exact .nil
  | node leaf isPrefix val children ih =>
    rw [recursiveDump, pairwise_append, pairwise_flatMap]
    refine ⟨?_, ⟨fun i _ => ih _ _, ?_⟩, ?_⟩
    · split <;> simp
    · refine pairwise_lt_range.imp_of_mem fun {i j} hi hj hlt a ha b hb => ?_
      refine lt_of_starts ?_ (start_of_mem_dump ha) (start_of_mem_dump hb)
      rw [mem_range] at hi hj
      rw [UInt8.lt_iff_toNat_lt, UInt8.toNat_ofNat', UInt8.toNat_ofNat']
      omega
    · intro a ha b hb
      obtain ⟨i, -, hb⟩ := mem_flatMap.mp hb
      split at ha
      · cases mem_singleton.mp ha
        exact lt_of_start (start_of_mem_dump hb)
      · cases ha

theorem Represents.mem_dump (h : t.Represents entries) {prelude : List UInt8}
    {e : List UInt8 × T × Bool} : e ∈ recursiveDump t prelude ↔
      ∃ path, e.1 = prelude ++ path ∧ entries path = some e.2 := by
  induction t generalizing prelude entries with
  | null => simp [recursiveDump, h.null]
  | node leaf isPrefix val children ih =>
    obtain ⟨hleaf, hentry, hown⟩ := dataOf_eq (h [])
    rw [recursiveDump, mem_append]
    constructor
    · rintro (he | he)
      · split at he
        · cases mem_singleton.mp he
          refine ⟨[], (append_nil _).symm, ?_⟩
          cases leaf <;> cases hentries : entries [] <;> cases isPrefix <;> simp_all
        · cases he
      · obtain ⟨i, -, he⟩ := mem_flatMap.mp he
        obtain ⟨path, heq, hpath⟩ := (ih _ (h.child _)).mp he
        exact ⟨_ :: path, by simpa using heq, hpath⟩
    · rintro ⟨path, heq, hpath⟩
      cases path with
      | nil =>
        rw [hpath] at hleaf hentry
        left
        cases e
        cases hentry hleaf
        simp_all
      | cons c path =>
        right
        refine mem_flatMap.mpr ⟨c.toNat, mem_range.mpr c.toNat_lt, ?_⟩
        rw [UInt8.ofNat_toNat, ih _ (h.child c)]
        exact ⟨path, by simpa using heq, hpath⟩

/-- A trie finds what was last inserted for a key, else the longest entry for all keys that
begin alike, and lists what was inserted once and in order, exactly if no inserted key has a
byte from 128 on and a lookup meets none before it leaves the trie. -/
theorem trie_correct_iff (ops : List (List UInt8 × T × Bool)) (key : List UInt8) :
    (∃ t, insertAll ops = some t ∧
      lookup key none t = some (expected (entry ops) key) ∧
      matchKey key t = some (expected (entry ops) key).isSome ∧
      ((recursiveDump t []).Pairwise fun a b => a.1 < b.1) ∧
      ∀ e, e ∈ recursiveDump t [] ↔ entry ops e.1 = some e.2) ↔
    (∀ op ∈ ops, ∀ c ∈ op.1, c < 128) ∧
      ∀ start c rest, key = start ++ c :: rest →
        (start = [] ∨ ∃ op ∈ ops, start <+: op.1) → c < 128 := by
  rw [← isSome_insertAll]
  cases htrie : insertAll ops with
  | none => simp
  | some t =>
    obtain ⟨hrep, hnode⟩ := insertAll_spec htrie
    have hsafe : lookup key none t ≠ none ↔ ∀ start c rest, key = start ++ c :: rest →
        (start = [] ∨ ∃ op ∈ ops, start <+: op.1) → c < 128 := by
      rw [ne_eq, lookup_eq_none]
      simp only [hnode, not_exists, not_and, not_not]
    rw [Option.isSome_some, and_iff_right rfl, ← hsafe]
    simp only [Option.some.injEq, exists_eq_left']
    refine ⟨fun h => by simp [h.1], fun hsome => ?_⟩
    refine ⟨?_, hrep.matchKey_eq hsome, pairwise_dump t [], fun e => ?_⟩
    · rw [hrep.lookup_eq hsome, Option.or_none]
    · rw [hrep.mem_dump]
      simp

end

/-- A byte from 128 on takes an insertion out of bounds. -/
theorem insertAll_of_high_byte :
    insertAll [([0xc3, 0xa9], (), false)] = none ∧ 256 ≤ charIndex 0xc3 := by
  decide

end TrieNode

end Upf.Bess
