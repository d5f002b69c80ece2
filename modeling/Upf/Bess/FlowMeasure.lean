import Mathlib.Algebra.Order.Group.Multiset
import Mathlib.Data.List.AList
import Upf.Lib.Tally

/-!
# The flow measuring module

`FlowMeasure` counts packets and bytes by session and rule, in one of two tables.
Which one is the current flag.  A leader has it flipped by a command and writes it
into every packet; a follower takes it over from the packets.  The other table is
read and cleared meanwhile.

A table is a hash table that gives every key a position, and an array of statistics
by position.  Clearing resets both.  The hash table does not fill up; which free
position it gives a new key is a parameter.
-/

namespace Upf.Bess

open Function Lib List AList

inductive Side where
  | a
  | b
deriving DecidableEq

/-- The current table; none is the invalid flag. -/
abbrev Flag := Option Side

def flagOf (value : UInt64) : Option Flag :=
  if value.toUInt32 = 0 then some none
  else if value.toUInt32 = 1 then some (some .a)
  else if value.toUInt32 = 2 then some (some .b)
  else none

def flagValue : Flag → UInt64
  | none => 0
  | some .a => 1
  | some .b => 2

structure TableKey where
  fseid : UInt64
  pdr : UInt64
deriving DecidableEq

structure MeasuredPacket where
  bufferFlag : UInt64
  timestamp : UInt64
  fseid : UInt64
  pdr : UInt32
  totalLen : Nat
  nowNs : UInt64
deriving DecidableEq

namespace MeasuredPacket

def key (pkt : MeasuredPacket) : TableKey := ⟨pkt.fseid, pkt.pdr.toUInt64⟩

def timely (pkt : MeasuredPacket) : Bool := pkt.timestamp ≠ 0 && pkt.timestamp ≤ pkt.nowNs

end MeasuredPacket

/-- The statistics at a position, but for the histograms. -/
structure FlowStats where
  pktCount : UInt64 := 0
  byteCount : UInt64 := 0
  lastLatency : UInt64 := 0
deriving DecidableEq

def FlowStats.count (pkt : MeasuredPacket) (stat : FlowStats) : FlowStats where
  pktCount := stat.pktCount + 1
  byteCount := stat.byteCount + UInt64.ofNat pkt.totalLen
  lastLatency := pkt.nowNs - pkt.timestamp

structure Statistic where
  key : TableKey
  totalPackets : UInt64
  totalBytes : UInt64
deriving DecidableEq

inductive Measure where
  | packets
  | bytes
deriving DecidableEq

namespace Measure

def weight : Measure → MeasuredPacket → Nat
  | .packets, _ => 1
  | .bytes, pkt => pkt.totalLen

def stat : Measure → FlowStats → UInt64
  | .packets, s => s.pktCount
  | .bytes, s => s.byteCount

def statistic : Measure → Statistic → UInt64
  | .packets, s => s.totalPackets
  | .bytes, s => s.totalBytes

@[simp] theorem stat_zero (m : Measure) : m.stat {} = 0 := by cases m <;> rfl

@[simp] theorem stat_count (m : Measure) (pkt : MeasuredPacket) (s : FlowStats) :
    m.stat (s.count pkt) = m.stat s + UInt64.ofNat (m.weight pkt) := by cases m <;> rfl

end Measure

structure FlowTable where
  positions : AList fun _ : TableKey => Nat := ∅
  data : Nat → FlowStats := fun _ => {}

namespace FlowTable

def position (free : Nat) (key : TableKey) (t : FlowTable) : Nat :=
  (t.positions.lookup key).getD free

def account (free : Nat) (pkt : MeasuredPacket) (t : FlowTable) : FlowTable where
  positions :=
    if (t.positions.lookup pkt.key).isSome then t.positions
    else t.positions.insert pkt.key free
  data :=
    update t.data (t.position free pkt.key) ((t.data (t.position free pkt.key)).count pkt)

def statistics (t : FlowTable) : List Statistic :=
  t.positions.entries.map fun e => ⟨e.1, (t.data e.2).pktCount, (t.data e.2).byteCount⟩

def reset (_ : FlowTable) : FlowTable := {}

def amount (m : Measure) (key : TableKey) (t : FlowTable) : UInt64 :=
  match t.positions.lookup key with
  | some pos => m.stat (t.data pos)
  | none => 0

def Free (t : FlowTable) (pos : Nat) : Prop := ∀ key, t.positions.lookup key ≠ some pos

def taken (t : FlowTable) : List Nat := t.positions.entries.map Sigma.snd

theorem free_of_not_taken {t : FlowTable} {pos : Nat} (h : pos ∉ t.taken) : t.Free pos := by
  intro key hlook
  exact h (mem_map_of_mem (mem_lookup_iff.mp hlook))

structure Represents (t : FlowTable) (pkts : List MeasuredPacket) : Prop where
  amount : ∀ m key, t.amount m key = UInt64.ofNat (total MeasuredPacket.key m.weight key pkts)
  distinct : ∀ key key' pos, t.positions.lookup key = some pos →
    t.positions.lookup key' = some pos → key = key'
  empty : ∀ pos, t.Free pos → t.data pos = {}

theorem Represents.start : Represents {} [] where
  amount m key := by
    change UInt64.ofNat 0 = UInt64.ofNat 0
    rfl
  distinct key key' pos h := by
    cases h
  empty pos _ := rfl

theorem Represents.reset (t : FlowTable) : Represents t.reset [] := Represents.start

variable {t : FlowTable} {pkts : List MeasuredPacket} {free : Nat} {pkt : MeasuredPacket}

theorem lookup_account (key : TableKey) :
    (t.account free pkt).positions.lookup key =
      if key = pkt.key then some (t.position free pkt.key) else t.positions.lookup key := by
  unfold account position
  dsimp only
  cases hlook : t.positions.lookup pkt.key with
  | some =>
    rw [Option.isSome_some, if_pos rfl, Option.getD_some]
    split_ifs with hkey
    · rw [hkey, hlook]
    · rfl
  | none =>
    rw [Option.isSome_none, if_neg (by simp), Option.getD_none]
    split_ifs with hkey
    · rw [hkey, lookup_insert]
    · rw [lookup_insert_ne hkey]

theorem Represents.amount_account (h : t.Represents pkts)
    (hfree : t.positions.lookup pkt.key = none → t.Free free) (m : Measure) (key : TableKey) :
    (t.account free pkt).amount m key =
      if key = pkt.key then t.amount m key + UInt64.ofNat (m.weight pkt) else t.amount m key := by
  have hdata : (t.account free pkt).data = update t.data (t.position free pkt.key)
      ((t.data (t.position free pkt.key)).count pkt) := rfl
  unfold FlowTable.amount
  rw [lookup_account, hdata]
  by_cases hkey : key = pkt.key
  · subst hkey
    rw [if_pos rfl, if_pos rfl]
    dsimp only
    rw [update_self, Measure.stat_count]
    unfold position
    cases hlook : t.positions.lookup pkt.key with
    | some => rfl
    | none =>
      dsimp only [Option.getD_none]
      rw [h.empty free (hfree hlook), Measure.stat_zero]
  · rw [if_neg hkey, if_neg hkey]
    cases hlook : t.positions.lookup key with
    | none => rfl
    | some pos =>
      -- The position counted at is not that of another key.
      have hpos : pos ≠ t.position free pkt.key := by
        unfold position
        cases hlook' : t.positions.lookup pkt.key with
        | some =>
          rintro rfl
          exact hkey (h.distinct key pkt.key _ hlook hlook')
        | none =>
          rintro rfl
          exact hfree hlook' key hlook
      dsimp only
      rw [update_of_ne hpos]

theorem Represents.account (h : t.Represents pkts)
    (hfree : t.positions.lookup pkt.key = none → t.Free free) :
    (t.account free pkt).Represents (pkts ++ [pkt]) where
  amount m key := by
    rw [h.amount_account hfree, total_append, total_singleton, h.amount]
    by_cases hkey : key = pkt.key
    · rw [if_pos hkey, if_pos hkey.symm, UInt64.ofNat_add]
    · rw [if_neg hkey, if_neg fun heq => hkey heq.symm, Nat.add_zero]
  distinct key key' pos hkey hkey' := by
    -- The position of the packet's key is nobody else's.
    have hother : ∀ k, k ≠ pkt.key → t.positions.lookup k ≠ some (t.position free pkt.key) := by
      intro k hk hlook
      unfold position at hlook
      cases hlook' : t.positions.lookup pkt.key with
      | some =>
        rw [hlook'] at hlook
        exact hk (h.distinct k pkt.key _ hlook hlook')
      | none =>
        rw [hlook'] at hlook
        exact hfree hlook' k hlook
    rw [lookup_account] at hkey hkey'
    split_ifs at hkey hkey' with hk hk' hk'
    · rw [hk, hk']
    · rw [← Option.some.inj hkey] at hkey'
      exact absurd hkey' (hother key' hk')
    · rw [← Option.some.inj hkey'] at hkey
      exact absurd hkey (hother key hk)
    · exact h.distinct key key' pos hkey hkey'
  empty pos hpos := by
    have hne : pos ≠ t.position free pkt.key := by
      rintro rfl
      apply hpos pkt.key
      rw [lookup_account, if_pos rfl]
    have hfree' : t.Free pos := by
      intro key hlook
      apply hpos key
      rw [lookup_account, if_neg, hlook]
      rintro rfl
      apply hne
      unfold position
      rw [hlook, Option.getD_some]
    exact (update_of_ne hne _ _).trans (h.empty pos hfree')

def reported (m : Measure) (key : TableKey) (stats : List Statistic) : Nat :=
  total Statistic.key (fun s => (m.statistic s).toNat) key stats

theorem total_entries {K B : Type} [DecidableEq K] (weight : K → B → Nat) (k : K)
    {entries : List (Sigma fun _ : K => B)} (h : entries.NodupKeys) :
    total Sigma.fst (fun e => weight e.1 e.2) k entries =
      match entries.dlookup k with
      | some b => weight k b
      | none => 0 := by
  induction entries with
  | nil => rfl
  | cons e entries ih =>
    rcases nodupKeys_cons.mp h with ⟨hnot, hrest⟩
    rw [← singleton_append, total_append, total_singleton, ih hrest, singleton_append]
    by_cases hk : e.1 = k
    · subst hk
      rw [if_pos rfl, dlookup_cons_eq, dlookup_eq_none.mpr hnot]
      rfl
    · rw [if_neg hk, dlookup_cons_ne _ _ fun heq => hk heq.symm, Nat.zero_add]

theorem reported_statistics (t : FlowTable) (m : Measure) (key : TableKey) :
    reported m key t.statistics = (t.amount m key).toNat := by
  have hmap : reported m key t.statistics =
      total Sigma.fst (fun e => (m.stat (t.data e.2)).toNat) key t.positions.entries := by
    unfold reported total statistics
    rw [filter_map, map_map]
    cases m <;> rfl
  rw [hmap, total_entries (fun _ pos => (m.stat (t.data pos)).toNat) key t.positions.nodupKeys]
  unfold amount AList.lookup
  cases t.positions.entries.dlookup key <;> rfl

theorem Represents.reported (h : t.Represents pkts) (m : Measure) (key : TableKey) :
    FlowTable.reported m key t.statistics =
      total MeasuredPacket.key m.weight key pkts % 2 ^ 64 := by
  rw [reported_statistics, h.amount]
  exact UInt64.toNat_ofNat'

end FlowTable

structure FlowMeasure where
  leader : Bool
  currentFlag : Flag
  table : Side → FlowTable := fun _ => {}

inductive MeasureError where
  | invalidFlag
  | activeBuffer
  | tableBusy
  | notLeader
deriving DecidableEq

def MeasureError.message : MeasureError → String
  | .invalidFlag => "invalid flag value"
  | .activeBuffer => "refusing to read active buffer"
  | .tableBusy => "table busy (possible concurrent flip/read)"
  | .notLeader => "only leaders can flip the flag"

namespace FlowMeasure

def init (leader : Bool) : FlowMeasure where
  leader
  currentFlag := if leader then some .a else none

/-- The first section for a packet: the table to count it in, unless it is not to be
counted.  A follower takes the flag over from the packet. -/
def flagSection (pkt : MeasuredPacket) (fm : FlowMeasure) : Flag × FlowMeasure :=
  if fm.leader then (fm.currentFlag, fm)
  else
    match flagOf pkt.bufferFlag with
    | some (some side) => (some side, { fm with currentFlag := some side })
    | _ => (none, fm)

def setTable (side : Side) (t : FlowTable) (fm : FlowMeasure) : FlowMeasure :=
  { fm with table := update fm.table side t }

def tableSection (side : Side) (free : Nat) (pkt : MeasuredPacket) (fm : FlowMeasure) :
    FlowMeasure :=
  fm.setTable side ((fm.table side).account free pkt)

/-- The first section of a command that reads: the table to read.  None stands for a
request for nothing, which is answered at once. -/
def tableToRead (flagToRead : UInt64) (fm : FlowMeasure) : Except MeasureError (Option Side) :=
  match flagOf flagToRead with
  | some none => .ok none
  | some (some side) => if fm.currentFlag = some side then .error .activeBuffer else .ok (some side)
  | none => .error .invalidFlag

def readTable (side : Side) (clear : Bool) (fm : FlowMeasure) : List Statistic × FlowMeasure :=
  ((fm.table side).statistics, if clear then fm.setTable side (fm.table side).reset else fm)

def commandFlipFlag (fm : FlowMeasure) : Except MeasureError UInt64 × FlowMeasure :=
  if fm.leader then
    (.ok (flagValue fm.currentFlag),
      { fm with currentFlag := if fm.currentFlag = some .a then some .b else some .a })
  else (.error .notLeader, fm)

theorem flagSection_table (pkt : MeasuredPacket) (fm : FlowMeasure) :
    (fm.flagSection pkt).2.table = fm.table := by
  unfold flagSection
  split_ifs
  · rfl
  · split <;> rfl

theorem commandFlipFlag_table (fm : FlowMeasure) : fm.commandFlipFlag.2.table = fm.table := by
  unfold commandFlipFlag
  split_ifs <;> rfl

def Holds (fm : FlowMeasure) (pkts : Side → List MeasuredPacket) : Prop :=
  ∀ side, (fm.table side).Represents (pkts side)

variable {fm : FlowMeasure} {pkts : Side → List MeasuredPacket}

theorem Holds.init (leader : Bool) : (init leader).Holds fun _ => [] :=
  fun _ => FlowTable.Represents.start

theorem Holds.setTable (h : fm.Holds pkts) {side : Side} {t : FlowTable}
    {l : List MeasuredPacket} (ht : t.Represents l) :
    (fm.setTable side t).Holds (update pkts side l) := by
  intro other
  change (update fm.table side t other).Represents _
  by_cases hside : other = side
  · subst hside
    rw [update_self, update_self]
    exact ht
  · rw [update_of_ne hside, update_of_ne hside]
    exact h other

theorem Holds.tableSection (h : fm.Holds pkts) {side : Side} {free : Nat} {pkt : MeasuredPacket}
    (hfree : (fm.table side).positions.lookup pkt.key = none → (fm.table side).Free free) :
    (fm.tableSection side free pkt).Holds
      (update pkts side (pkts side ++ [pkt])) :=
  h.setTable ((h side).account hfree)

theorem Holds.clear (h : fm.Holds pkts) (side : Side) :
    (fm.readTable side true).2.Holds (update pkts side []) :=
  h.setTable (FlowTable.Represents.reset _)

def Accounted (fm : FlowMeasure) (counted : List MeasuredPacket)
    (responses : List (List Statistic)) : Prop :=
  ∃ (reads : List (List MeasuredPacket)) (held : Side → List MeasuredPacket), fm.Holds held ∧
    List.Forall₂ (fun stats pkts => ∀ m key, FlowTable.reported m key stats =
      total MeasuredPacket.key m.weight key pkts % 2 ^ 64) responses reads ∧
    (counted : Multiset MeasuredPacket) = reads.flatten + held .a + held .b

def Conserved (fm : FlowMeasure) (counted : List MeasuredPacket)
    (responses : List (List Statistic)) (m : Measure) (key : TableKey) : Prop :=
  total MeasuredPacket.key m.weight key counted % 2 ^ 64 =
      ((responses.map (FlowTable.reported m key)).sum +
        ((fm.table .a).amount m key).toNat + ((fm.table .b).amount m key).toNat) % 2 ^ 64 ∧
    (total MeasuredPacket.key m.weight key counted < 2 ^ 64 →
      total MeasuredPacket.key m.weight key counted =
        (responses.map (FlowTable.reported m key)).sum +
          ((fm.table .a).amount m key).toNat + ((fm.table .b).amount m key).toNat)

variable {counted : List MeasuredPacket} {responses : List (List Statistic)}

theorem Accounted.init (leader : Bool) : (init leader).Accounted [] [] :=
  ⟨[], fun _ => [], Holds.init leader, .nil, rfl⟩

theorem Accounted.congr {fm' : FlowMeasure} (h : fm.Accounted counted responses)
    (htable : fm'.table = fm.table) : fm'.Accounted counted responses := by
  rcases h with ⟨reads, held, hholds, hrest⟩
  refine ⟨reads, held, fun side => ?_, hrest⟩
  rw [htable]
  exact hholds side

theorem Accounted.tableSection (h : fm.Accounted counted responses) {side : Side} {free : Nat}
    {pkt : MeasuredPacket}
    (hfree : (fm.table side).positions.lookup pkt.key = none → (fm.table side).Free free) :
    (fm.tableSection side free pkt).Accounted (counted ++ [pkt]) responses := by
  rcases h with ⟨reads, held, hholds, hreports, hcounted⟩
  refine ⟨reads, _, hholds.tableSection hfree, hreports, ?_⟩
  rw [← Multiset.coe_add, hcounted]
  cases side with
  | a =>
    rw [update_self, update_of_ne (by decide), ← Multiset.coe_add,
      add_right_comm, ← add_assoc]
  | b =>
    rw [update_self, update_of_ne (by decide), ← Multiset.coe_add, ← add_assoc]

theorem Accounted.readTable (h : fm.Accounted counted responses) (side : Side) :
    (fm.readTable side true).2.Accounted counted
      (responses ++ [(fm.readTable side true).1]) := by
  rcases h with ⟨reads, held, hholds, hreports, hcounted⟩
  refine ⟨reads ++ [held side], _, hholds.clear side, ?_, ?_⟩
  · exact rel_append hreports (.cons (hholds side).reported .nil)
  · rw [hcounted, flatten_append, ← Multiset.coe_add, flatten_singleton]
    cases side with
    | a => rw [update_self, update_of_ne (by decide), Multiset.coe_nil, add_zero]
    | b =>
      rw [update_self, update_of_ne (by decide), Multiset.coe_nil, add_zero,
        add_right_comm]

theorem Accounted.balances (h : fm.Accounted counted responses) (m : Measure) (key : TableKey) :
    fm.Conserved counted responses m key := by
  rcases h with ⟨reads, held, hholds, hreports, hcounted⟩
  have hperm : counted.Perm (reads ++ [held .a, held .b]).flatten := by
    rw [← Multiset.coe_eq_coe, hcounted]
    simp
  have hreads : responses.map (FlowTable.reported m key) =
      reads.map fun pkts => total MeasuredPacket.key m.weight key pkts % 2 ^ 64 := by
    clear hcounted hperm
    induction hreports with
    | nil => rfl
    | cons hone _ ih => rw [map_cons, map_cons, hone m key, ih]
  have hamount : ∀ side, ((fm.table side).amount m key).toNat =
      total MeasuredPacket.key m.weight key (held side) % 2 ^ 64 := by
    intro side
    rw [(hholds side).amount]
    exact UInt64.toNat_ofNat'
  have hparts := total_parts MeasuredPacket.key m.weight key (2 ^ 64) hperm
  rw [map_append, sum_append, map_cons, map_cons, map_nil, sum_cons,
    sum_cons, sum_nil, Nat.add_zero, ← Nat.add_assoc] at hparts
  unfold Conserved
  rw [hreads, hamount, hamount]
  exact hparts

end FlowMeasure

end Upf.Bess
