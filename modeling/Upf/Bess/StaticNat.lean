import Mathlib.Algebra.Order.Ring.Nat
import Mathlib.Data.Set.Function
import Upf.Lib.Loop

/-!
# The static address translation module

Ranges of internal addresses are translated to ranges of external ones, address by address.

Main results: `translate_reversible`, `restored_iff`.
-/

namespace Upf.Bess

open Lib List UInt32

structure AddressRange where
  start : String
  endAddr : String
deriving DecidableEq

structure AddressRangePair where
  intRange : AddressRange
  extRange : AddressRange
deriving DecidableEq

inductive StaticNatError where
  | invalidAddress (text : String)
  | internalRange
  | externalRange
  | broadcast
  | rangesDiffer
deriving DecidableEq

def StaticNatError.message : StaticNatError → String
  | .invalidAddress text => "invalid IP address " ++ text
  | .internalRange => "invalid internal IP address range"
  | .externalRange => "invalid external IP address range"
  | .broadcast => "cannot map broadcast address"
  | .rangesDiffer => "internal/external address ranges differ"

/-- A pair of ranges: where they begin and how long they are. -/
structure NatPair where
  intAddr : UInt32
  extAddr : UInt32
  size : UInt32
deriving DecidableEq

namespace StaticNAT

section

variable (parse : String → Option UInt32) (print : UInt32 → String)

def readAddress (text : String) : Except StaticNatError UInt32 :=
  match parse text with
  | none => .error (.invalidAddress text)
  | some addr => .ok addr

def readPair (p : AddressRangePair) : Except StaticNatError NatPair := do
  let intStart ← readAddress parse p.intRange.start
  let intEnd ← readAddress parse p.intRange.endAddr
  if intStart > intEnd then .error .internalRange
  else do
    let extStart ← readAddress parse p.extRange.start
    let extEnd ← readAddress parse p.extRange.endAddr
    if extStart > extEnd then .error .externalRange
    else if intEnd = 0xffffffff ∨ extEnd = 0xffffffff then .error .broadcast
    else if intEnd - intStart ≠ extEnd - extStart then .error .rangesDiffer
    else .ok { intAddr := intStart, extAddr := extStart, size := intEnd - intStart + 1 }

def init (arg : List AddressRangePair) : Except StaticNatError (List NatPair) :=
  arg.mapM (readPair parse)

/-- The argument a module reports.  A range is said to end after its last address. -/
def getInitialArg (pairs : List NatPair) : List AddressRangePair :=
  pairs.map fun pair =>
    { intRange := ⟨print pair.intAddr, print (pair.intAddr + pair.size)⟩
      extRange := ⟨print pair.extAddr, print (pair.extAddr + pair.size)⟩ }

def restore : Nat → List NatPair → Except StaticNatError (List NatPair)
  | 0, pairs => .ok pairs
  | n + 1, pairs => do
    restore n (← init parse (getInitialArg print pairs))

end

def startAddr (forward : Bool) (pair : NatPair) : UInt32 :=
  if forward then pair.intAddr else pair.extAddr

def diff (forward : Bool) (pair : NatPair) : UInt32 :=
  if forward then pair.extAddr - pair.intAddr else pair.intAddr - pair.extAddr

def covers (forward : Bool) (addr : UInt32) (pair : NatPair) : Bool :=
  startAddr forward pair ≤ addr && addr < startAddr forward pair + pair.size

/-- The address a packet's source, or destination on the way back, is changed to. -/
def translate (forward : Bool) (pairs : List NatPair) (addr : UInt32) : UInt32 :=
  match pairs.find? (covers forward addr) with
  | some pair => addr + diff forward pair
  | none => addr

variable {parse : String → Option UInt32} {p : AddressRangePair} {pair : NatPair}
  {arg : List AddressRangePair} {pairs : List NatPair} {forward : Bool} {addr : UInt32}

def rangeOf (forward : Bool) (p : AddressRangePair) : AddressRange :=
  if forward then p.intRange else p.extRange

theorem readAddress_ok {text : String} (h : readAddress parse text = .ok addr) :
    parse text = some addr := by
  unfold readAddress at h
  split at h
  · cases h
  · cases h
    assumption

theorem readPair_ok (h : readPair parse p = .ok pair) (forward : Bool) :
    ∃ last, parse (rangeOf forward p).start = some (startAddr forward pair) ∧
      parse (rangeOf forward p).endAddr = some last ∧
      (startAddr forward pair).toNat ≤ last.toNat ∧ last.toNat < 2 ^ 32 - 1 ∧
      pair.size.toNat = last.toNat - (startAddr forward pair).toNat + 1 := by
  obtain ⟨intStart, hintStart, h⟩ := bind_ok h
  obtain ⟨intEnd, hintEnd, h⟩ := bind_ok h
  split at h
  · cases h
  rename_i hint
  obtain ⟨extStart, hextStart, h⟩ := bind_ok h
  obtain ⟨extEnd, hextEnd, h⟩ := bind_ok h
  split_ifs at h with hext hbroadcast hdiffer
  cases h
  have hsize := congrArg UInt32.toNat (not_not.mp hdiffer)
  rw [not_or, ← UInt32.toNat_inj, ← UInt32.toNat_inj] at hbroadcast
  simp only [UInt32.not_lt, UInt32.le_iff_toNat_le] at hint hext
  simp only [UInt32.toNat_sub, UInt32.toNat_add, UInt32.toNat_ofNat] at hsize hbroadcast ⊢
  have := intEnd.toNat_lt
  have := extEnd.toNat_lt
  cases forward with
  | true =>
    refine ⟨intEnd, readAddress_ok hintStart, readAddress_ok hintEnd, hint, ?_, ?_⟩
    · omega
    · simp only [startAddr, if_true]
      omega
  | false =>
    refine ⟨extEnd, readAddress_ok hextStart, readAddress_ok hextEnd, hext, ?_, ?_⟩
    · omega
    · simp only [startAddr, Bool.false_eq_true, if_false]
      omega

def Contains (parse : String → Option UInt32) (r : AddressRange) (addr : UInt32) : Prop :=
  ∃ first last, parse r.start = some first ∧ parse r.endAddr = some last ∧
    first ≤ addr ∧ addr ≤ last

theorem covers_iff (h : readPair parse p = .ok pair) :
    covers forward addr pair = true ↔ Contains parse (rangeOf forward p) addr := by
  obtain ⟨last, hstart, hend, hle, hlast, hsize⟩ := readPair_ok h forward
  have hbound : (startAddr forward pair + pair.size).toNat = last.toNat + 1 := by
    rw [UInt32.toNat_add]
    omega
  simp only [covers, Contains, hstart, hend, Option.some.injEq, Bool.and_eq_true,
    decide_eq_true_eq, lt_iff_toNat_lt, le_iff_toNat_le, hbound]
  constructor
  · rintro ⟨hfirst, hafter⟩
    exact ⟨_, _, rfl, rfl, hfirst, by omega⟩
  · rintro ⟨_, _, rfl, rfl, hfirst, hafter⟩
    exact ⟨hfirst, by omega⟩

theorem covers_add_diff (h : readPair parse p = .ok pair)
    (hcovers : covers forward addr pair = true) :
    covers (!forward) (addr + diff forward pair) pair = true ∧
      addr + diff forward pair + diff (!forward) pair = addr := by
  obtain ⟨last, -, -, hle, hlast, hsize⟩ := readPair_ok h true
  obtain ⟨last', -, -, hle', hlast', hsize'⟩ := readPair_ok h false
  have := addr.toNat_lt
  cases forward <;>
  simp only [covers, startAddr, diff, Bool.and_eq_true, decide_eq_true_eq, lt_iff_toNat_lt,
    UInt32.le_iff_toNat_le, ← UInt32.toNat_inj, UInt32.toNat_add, UInt32.toNat_sub, Bool.not_true,
    Bool.not_false, Bool.false_eq_true, if_true, if_false] at * <;>
  omega

def Covered (parse : String → Option UInt32) (forward : Bool)
    (arg : List AddressRangePair) (addr : UInt32) : Prop :=
  ∃ p ∈ arg, Contains parse (rangeOf forward p) addr

def Disjoint (parse : String → Option UInt32) (forward : Bool)
    (arg : List AddressRangePair) : Prop :=
  arg.Pairwise fun p p' => ∀ addr, Contains parse (rangeOf forward p) addr →
    ¬Contains parse (rangeOf forward p') addr

theorem translate_cons (pair : NatPair) (pairs : List NatPair) :
    translate forward (pair :: pairs) addr =
      if covers forward addr pair then addr + diff forward pair
      else translate forward pairs addr := by
  unfold translate
  rw [find?_cons]
  cases covers forward addr pair <;> rfl

section

variable (hread : List.Forall₂ (fun p pair => readPair parse p = .ok pair) arg pairs)
include hread

theorem translate_of_not_covered (h : ¬Covered parse forward arg addr) :
    translate forward pairs addr = addr := by
  induction hread with
  | nil => rfl
  | cons hpair _ ih =>
    rw [translate_cons, if_neg]
    · exact ih fun ⟨p, hp, hin⟩ => h ⟨p, mem_cons_of_mem _ hp, hin⟩
    · rw [covers_iff hpair]
      exact fun hin => h ⟨_, mem_cons_self, hin⟩

theorem translate_of_contains (hdisjoint : Disjoint parse forward arg) (hp : p ∈ arg)
    (hin : Contains parse (rangeOf forward p) addr) :
    ∃ pair, readPair parse p = .ok pair ∧
      translate forward pairs addr = addr + diff forward pair := by
  induction hread with
  | nil => cases hp
  | cons hpair _ ih =>
    rw [translate_cons]
    rcases mem_cons.mp hp with rfl | hp
    · exact ⟨_, hpair, if_pos ((covers_iff hpair).mpr hin)⟩
    · obtain ⟨hhead, htail⟩ := pairwise_cons.mp hdisjoint
      rw [if_neg]
      · exact ih htail hp
      · rw [covers_iff hpair]
        exact fun hother => hhead p hp addr hother hin

theorem translate_back (hdisjoint : ∀ forward, Disjoint parse forward arg)
    (h : Covered parse forward arg addr) :
    Covered parse (!forward) arg (translate forward pairs addr) ∧
      translate (!forward) pairs (translate forward pairs addr) = addr := by
  obtain ⟨p, hp, hin⟩ := h
  obtain ⟨pair, hpair, htranslate⟩ := translate_of_contains hread (hdisjoint forward) hp hin
  obtain ⟨hcovers, hback⟩ := covers_add_diff hpair ((covers_iff hpair).mpr hin)
  have hother := (covers_iff hpair).mp hcovers
  obtain ⟨pair', hpair', htranslate'⟩ :=
    translate_of_contains hread (hdisjoint !forward) hp hother
  cases hpair.symm.trans hpair'
  rw [htranslate]
  exact ⟨⟨p, hp, hother⟩, htranslate'.trans hback⟩

end

/-- Sources in the internal ranges are moved one-to-one onto the external ranges and others are
left alone.  The way back leads to where a packet came from, unless that is an address of an
external range only. -/
theorem translate_reversible (hinit : init parse arg = .ok pairs)
    (hdisjoint : ∀ forward, Disjoint parse forward arg) :
    Set.BijOn (translate true pairs) {addr | Covered parse true arg addr}
      {addr | Covered parse false arg addr} ∧
    (∀ addr, ¬Covered parse true arg addr → translate true pairs addr = addr) ∧
    ∀ addr, translate false pairs (translate true pairs addr) = addr ↔
      Covered parse true arg addr ∨ ¬Covered parse false arg addr := by
  have hread := forall₂_of_mapM hinit
  have hback {forward : Bool} {addr : UInt32} (h : Covered parse forward arg addr) :=
    translate_back hread hdisjoint h
  refine ⟨⟨fun addr h => (hback h).1, fun addr h addr' h' heq => ?_, fun addr h => ?_⟩,
    fun addr => translate_of_not_covered hread, fun addr => ?_⟩
  · rw [← (hback h).2, heq]
    exact (hback h').2
  · exact ⟨_, (hback h).1, (hback h).2⟩
  · by_cases hin : Covered parse true arg addr
    · exact iff_of_true (hback hin).2 (.inl hin)
    · rw [translate_of_not_covered hread hin, or_iff_right hin]
      refine ⟨fun heq hout => hin ?_, translate_of_not_covered hread⟩
      rw [← heq]
      exact (hback hout).1

/-! ## Dotted quads -/

def number (digits : List Char) : Nat := digits.foldl (fun n c => 10 * n + (c.toNat - 48)) 0

/-- An address as a dotted quad, `ToIpv4Address`. -/
def dotted (addr : UInt32) : String :=
  let n := addr.toNat
  String.ofList (['.'].intercalate
    ([n / 2 ^ 24, n / 2 ^ 16 % 256, n / 2 ^ 8 % 256, n % 256].map (Nat.toDigits 10)))

/-- The address of four numbers below 256 between dots, as `ParseIpv4Address` has it. -/
def ofDotted (text : String) : Option UInt32 :=
  match (text.toList.splitOn '.').map number with
  | [a, b, c, d] =>
    if a < 256 ∧ b < 256 ∧ c < 256 ∧ d < 256 then
      some (UInt32.ofNat (((a * 256 + b) * 256 + c) * 256 + d))
    else none
  | _ => none

theorem digits_octet : ∀ n < 256, '.' ∉ Nat.toDigits 10 n ∧ number (Nat.toDigits 10 n) = n := by
  decide +kernel

theorem ofDotted_dotted (addr : UInt32) : ofDotted (dotted addr) = some addr := by
  have hlt := addr.toNat_lt
  have hdigits : ∀ n ∈ [addr.toNat / 2 ^ 24, addr.toNat / 2 ^ 16 % 256, addr.toNat / 2 ^ 8 % 256,
      addr.toNat % 256], n < 256 := by
    simp only [mem_cons, not_mem_nil, or_false, forall_eq_or_imp, forall_eq]
    omega
  unfold ofDotted dotted
  dsimp only
  rw [String.toList_ofList, splitOn_intercalate, map_map]
  · have hsame := map_congr_left (g := id) fun n hn => (digits_octet n (hdigits n hn)).2
    rw [map_id] at hsame
    rw [Function.comp_def, hsame]
    dsimp only
    rw [if_pos (by omega)]
    congr 1
    rw [← UInt32.toNat_inj, UInt32.toNat_ofNat']
    omega
  · intro l hl
    rcases mem_map.mp hl with ⟨n, hn, rfl⟩
    exact (digits_octet n (hdigits n hn)).1
  · simp

/-- Two pairs of ranges that are disjoint on either side. -/
def sampleArg : List AddressRangePair :=
  [⟨⟨"10.0.0.1", "10.0.0.2"⟩, ⟨"20.0.0.1", "20.0.0.2"⟩⟩,
    ⟨⟨"10.0.1.7", "10.0.1.7"⟩, ⟨"20.0.1.9", "20.0.1.9"⟩⟩]

def samplePairs : List NatPair := [⟨0x0a000001, 0x14000001, 2⟩, ⟨0x0a000107, 0x14000109, 1⟩]

theorem sampleArg_disjoint (forward : Bool) : Disjoint ofDotted forward sampleArg := by
  refine pairwise_pair.mpr fun addr h h' => ?_
  have hfirst := (@covers_iff _ _ ⟨0x0a000001, 0x14000001, 2⟩ _ _ (by decide)).mpr h
  have hsecond := (@covers_iff _ _ ⟨0x0a000107, 0x14000109, 1⟩ _ _ (by decide)).mpr h'
  cases forward <;>
    simp [covers, startAddr, lt_iff_toNat_lt, le_iff_toNat_le]
      at hfirst hsecond <;>
    omega

theorem translate_reversible_sample :
    translate false samplePairs (translate true samplePairs 0x0a000107) = 0x0a000107 :=
  ((translate_reversible (show init ofDotted sampleArg = .ok samplePairs by decide)
    sampleArg_disjoint).2.2 0x0a000107).mpr
      (.inl ⟨_, mem_cons_of_mem _ mem_cons_self, 0x0a000107, 0x0a000107, rfl, rfl,
        by decide, by decide⟩)

/-- A source that only an external range contains stays, and the reply to it does not. -/
theorem translate_external_source :
    init ofDotted sampleArg = .ok samplePairs ∧
      translate true samplePairs 0x14000001 = 0x14000001 ∧
      translate false samplePairs 0x14000001 = 0x0a000001 := by
  decide

/-- A module set up from what another one reports translates longer ranges, or fails, if there
are any. -/
theorem restored_iff {print : UInt32 → String} (hinit : init parse arg = .ok pairs)
    (hinverse : ∀ addr, parse (print addr) = some addr) :
    (∀ n, restore parse print n pairs = .ok pairs) ↔ arg = [] := by
  have hread := forall₂_of_mapM hinit
  constructor
  · intro h
    cases hread with
    | nil => rfl
    | cons =>
      obtain ⟨_, hagain, heq⟩ := bind_ok (h 1)
      cases heq
      obtain ⟨hhead, -⟩ := List.forall₂_cons.mp (forall₂_of_mapM hagain)
      obtain ⟨last, -, hend, hle, hlast, hsize⟩ := readPair_ok hhead true
      cases (hinverse _).symm.trans hend
      rw [UInt32.toNat_add] at hle hlast hsize
      simp only [startAddr, if_true] at hle hsize
      omega
  · rintro rfl
    cases hread
    intro n
    induction n with
    | zero => rfl
    | succ n ih => exact ih

theorem restored_iff_sample :
    ¬∀ n, restore ofDotted dotted n samplePairs = .ok samplePairs := by
  rw [restored_iff (show init ofDotted sampleArg = .ok samplePairs by decide) ofDotted_dotted]
  exact cons_ne_nil _ _

theorem restored_longer :
    init ofDotted sampleArg = .ok samplePairs ∧
      init ofDotted (getInitialArg dotted samplePairs) =
        .ok [⟨0x0a000001, 0x14000001, 3⟩, ⟨0x0a000107, 0x14000109, 2⟩] := by
  decide

end StaticNAT

end Upf.Bess
