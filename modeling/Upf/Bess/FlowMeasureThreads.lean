import Upf.Bess.FlowMeasure
import Upf.Lib.Run

/-!
# Counting while being read

One worker counts packets with the flow measuring module, while any number of threads
read it, clear it and flip its flag.  A packet takes two sections, under the lock of
the flag and under that of a table; a thread that reads takes four.  Between any two
of them anything else may happen: a packet may be counted in a table that is inactive
by then, or a table may become active while it is read.

Main result: `counts_conserved`.
-/

namespace Upf.Bess

open Lib Option Function

/-- How far a thread is with a command that reads. -/
inductive Thread where
  | idle
  /-- The table is not the active one. -/
  | checked (side : Side) (clear : Bool)
  /-- The table is locked. -/
  | locked (side : Side) (clear : Bool)
  /-- It still is not the active one. -/
  | confirmed (side : Side) (clear : Bool)
deriving DecidableEq

structure Measuring where
  fm : FlowMeasure
  /-- The packet that is yet to be counted, and where. -/
  worker : Option (Side × MeasuredPacket) := none
  threads : Nat → Thread := fun _ => .idle
  /-- The thread that holds the lock of a table. -/
  lock : Side → Option Nat := fun _ => none
  /-- The packets that were counted. -/
  counted : List MeasuredPacket := []
  /-- What reads reported that cleared a table. -/
  responses : List (List Statistic) := []

inductive Section where
  /-- Of the worker: the flag of a packet, then its table.  The hash table may be asked
  for a free position. -/
  | flag (pkt : MeasuredPacket)
  | table (free : Nat)
  /-- Of a thread that reads: the flag, the lock, the flag again, the table.  Taking
  the lock may fail even if no thread holds it. -/
  | read (t : Nat) (flagToRead : UInt64) (clear : Bool)
  | tryLock (t : Nat) (busy : Bool)
  | recheck (t : Nat)
  | readAndClear (t : Nat)
  /-- Of a thread that flips the flag. -/
  | flip (t : Nat)

/-- The sections a command that reads is made of. -/
def Section.reads : Section → Bool
  | .read .. | .tryLock .. | .recheck _ | .readAndClear _ => true
  | .flag _ | .table _ | .flip _ => false

/-- What a section answers to the caller of a command. -/
inductive Answer where
  | none
  | failure (e : MeasureError)
  | statistics (stats : List Statistic)
  | flipped (oldFlag : UInt64)
deriving DecidableEq

namespace Measuring

def setThread (t : Nat) (th : Thread) (s : Measuring) : Measuring :=
  { s with threads := Function.update s.threads t th }

def setLock (side : Side) (holder : Option Nat) (s : Measuring) : Measuring :=
  { s with lock := Function.update s.lock side holder }

def flagged (pkt : MeasuredPacket) (s : Measuring) : Measuring :=
  match s.fm.flagSection pkt with
  | (some side, fm) =>
    if pkt.timely then { s with fm, worker := some (side, pkt) } else { s with fm }
  | (none, fm) => { s with fm }

def tabled (side : Side) (pkt : MeasuredPacket) (free : Nat) (s : Measuring) : Option Measuring :=
  if (s.fm.table side).positions.lookup pkt.key = none ∧ free ∈ (s.fm.table side).taken then none
  else
    some
      { s with
        fm := s.fm.tableSection side free pkt
        worker := none
        counted := s.counted ++ [pkt] }

def readBy (t : Nat) (side : Side) (clear : Bool) (s : Measuring) : Answer × Measuring :=
  let (stats, fm) := s.fm.readTable side clear
  (.statistics stats,
    { s with
      fm
      responses := if clear then s.responses ++ [stats] else s.responses } |>.setLock side none
      |>.setThread t .idle)

def step (sec : Section) (s : Measuring) : Option (Answer × Measuring) :=
  match sec with
  | .flag pkt => if s.worker = none then some (.none, s.flagged pkt) else none
  | .table free =>
    match s.worker with
    | some (side, pkt) =>
      if s.lock side = none then (s.tabled side pkt free).map fun s => (.none, s) else none
    | none => none
  | .read t flagToRead clear =>
    if s.threads t = .idle then
      match s.fm.tableToRead flagToRead with
      | .error e => some (.failure e, s)
      | .ok none => some (.statistics [], s)
      | .ok (some side) => some (.none, s.setThread t (.checked side clear))
    else none
  | .tryLock t busy =>
    match s.threads t with
    | .checked side clear =>
      if busy ∨ s.lock side ≠ none then some (.failure .tableBusy, s.setThread t .idle)
      else some (.none, (s.setLock side (some t)).setThread t (.locked side clear))
    | _ => none
  | .recheck t =>
    match s.threads t with
    | .locked side clear =>
      if s.fm.currentFlag = some side then
        some (.failure .activeBuffer, (s.setLock side none).setThread t .idle)
      else some (.none, s.setThread t (.confirmed side clear))
    | _ => none
  | .readAndClear t =>
    match s.threads t with
    | .confirmed side clear => some (s.readBy t side clear)
    | _ => none
  | .flip t =>
    if s.threads t = .idle then
      match s.fm.commandFlipFlag with
      | (.error e, _) => some (.failure e, s)
      | (.ok oldFlag, fm) => some (.flipped oldFlag, { s with fm })
    else none

def run : List Section → Measuring → Option Measuring :=
  runAll fun sec s => (s.step sec).map Prod.snd

/-- Every packet that was counted is in one read that cleared a table, or in one of the
tables. -/
def Inv (s : Measuring) : Prop := s.fm.Accounted s.counted s.responses

theorem Inv.start (leader : Bool) : Inv { fm := .init leader } := FlowMeasure.Accounted.init leader

variable {s s' : Measuring}

theorem Inv.congr (h : s.Inv) (htable : s'.fm.table = s.fm.table)
    (hcounted : s'.counted = s.counted) (hresponses : s'.responses = s.responses) : s'.Inv := by
  unfold Inv
  rw [hcounted, hresponses]
  exact FlowMeasure.Accounted.congr h htable

theorem Inv.tabled (h : s.Inv) {side : Side} {pkt : MeasuredPacket} {free : Nat}
    (hstep : s.tabled side pkt free = some s') : s'.Inv := by
  unfold Measuring.tabled at hstep
  split_ifs at hstep with hfull
  cases hstep
  apply FlowMeasure.Accounted.tableSection h
  intro hnew
  exact FlowTable.free_of_not_taken fun htaken => hfull ⟨hnew, htaken⟩

theorem Inv.readBy (h : s.Inv) (t : Nat) (side : Side) (clear : Bool) :
    (s.readBy t side clear).2.Inv := by
  cases clear with
  | false => exact h
  | true => exact FlowMeasure.Accounted.readTable h side

/-- What a section does: it leaves what is measured as it is, or it does not fail and changes
the flag, counts a packet or reads a table. -/
theorem step_cases {sec : Section} {answer : Answer} (hstep : s.step sec = some (answer, s')) :
    (s'.fm = s.fm ∧ s'.counted = s.counted ∧ s'.responses = s.responses) ∨
      (∀ e, answer ≠ .failure e) ∧
        ((s'.fm.table = s.fm.table ∧ s'.counted = s.counted ∧ s'.responses = s.responses) ∨
          (∃ side pkt free, s.tabled side pkt free = some s') ∨
          ∃ t side clear, s' = (s.readBy t side clear).2) := by
  cases sec <;> dsimp only [Measuring.step] at hstep
  case flag pkt =>
    split_ifs at hstep
    cases hstep
    have htable := s.fm.flagSection_table pkt
    refine .inr ⟨by simp, .inl ?_⟩
    unfold Measuring.flagged
    split
    · rename_i side fm hsection
      rw [hsection] at htable
      split_ifs
      · exact ⟨htable, rfl, rfl⟩
      · exact ⟨htable, rfl, rfl⟩
    · rename_i fm hsection
      rw [hsection] at htable
      exact ⟨htable, rfl, rfl⟩
  case table free =>
    split at hstep
    · split_ifs at hstep
      rcases map_eq_some_iff.mp hstep with ⟨s₁, htabled, heq⟩
      cases heq
      exact .inr ⟨by simp, .inr (.inl ⟨_, _, _, htabled⟩)⟩
    · cases hstep
  case read t flagToRead clear =>
    split_ifs at hstep
    split at hstep <;> cases hstep <;> exact .inl ⟨rfl, rfl, rfl⟩
  case tryLock t busy =>
    split at hstep
    · split_ifs at hstep <;> cases hstep <;> exact .inl ⟨rfl, rfl, rfl⟩
    · cases hstep
  case recheck t =>
    split at hstep
    · split_ifs at hstep <;> cases hstep <;> exact .inl ⟨rfl, rfl, rfl⟩
    · cases hstep
  case readAndClear t =>
    split at hstep
    · rename_i side clear _
      cases hstep
      exact .inr ⟨by simp, .inr (.inr ⟨t, side, clear, rfl⟩)⟩
    · cases hstep
  case flip t =>
    have htable := s.fm.commandFlipFlag_table
    split_ifs at hstep
    split at hstep
    · cases hstep
      exact .inl ⟨rfl, rfl, rfl⟩
    · rename_i oldFlag fm hflip
      cases hstep
      rw [hflip] at htable
      exact .inr ⟨by simp, .inl ⟨htable, rfl, rfl⟩⟩

theorem Inv.step (h : s.Inv) {sec : Section} {answer : Answer}
    (hstep : s.step sec = some (answer, s')) : s'.Inv := by
  rcases step_cases hstep with
    ⟨hfm, hsame⟩ | ⟨-, ⟨htable, hsame⟩ | ⟨_, _, _, htabled⟩ | ⟨_, _, _, rfl⟩⟩
  · exact h.congr (by rw [hfm]) hsame.1 hsame.2
  · exact h.congr htable hsame.1 hsame.2
  · exact h.tabled htabled
  · exact h.readBy _ _ _

theorem Inv.run {secs : List Section} (h : s.Inv) (hrun : s.run secs = some s') : s'.Inv := by
  refine runAll_invariant (fun sec _ s₁ s₂ hstep h₁ => ?_) hrun h
  rcases map_eq_some_iff.mp hstep with ⟨⟨answer, s₃⟩, hone, rfl⟩
  exact h₁.step hone

theorem failure_unchanged {sec : Section} {e : MeasureError}
    (hstep : s.step sec = some (.failure e, s')) :
    s'.fm = s.fm ∧ s'.counted = s.counted ∧ s'.responses = s.responses :=
  (step_cases hstep).resolve_right fun hother => hother.1 e rfl

/-- Of the sections of a read only the one that answers with the statistics has an effect. -/
theorem read_unchanged {sec : Section} {answer : Answer} (hreads : sec.reads = true)
    (hstep : s.step sec = some (answer, s')) (hnone : ∀ stats, answer ≠ .statistics stats) :
    s'.fm = s.fm ∧ s'.counted = s.counted ∧ s'.responses = s.responses := by
  cases sec <;> dsimp only [Measuring.step] at hstep
  case flag => cases hreads
  case table => cases hreads
  case flip => cases hreads
  case read =>
    split_ifs at hstep
    split at hstep <;> cases hstep <;> exact ⟨rfl, rfl, rfl⟩
  case tryLock =>
    split at hstep
    · split_ifs at hstep <;> cases hstep <;> exact ⟨rfl, rfl, rfl⟩
    · cases hstep
  case recheck =>
    split at hstep
    · split_ifs at hstep <;> cases hstep <;> exact ⟨rfl, rfl, rfl⟩
    · cases hstep
  case readAndClear =>
    split at hstep
    · cases hstep
      exact absurd rfl (hnone _)
    · cases hstep

theorem Inv.other_keys (h : s.Inv) {side : Side} {pkt : MeasuredPacket} {free : Nat}
    (hstep : s.tabled side pkt free = some s') (m : Measure) {key : TableKey}
    (hkey : key ≠ pkt.key) (other : Side) :
    (s'.fm.table other).amount m key = (s.fm.table other).amount m key := by
  rcases h with ⟨reads, held, hholds, -⟩
  unfold Measuring.tabled at hstep
  split_ifs at hstep with hfull
  cases hstep
  change (Function.update s.fm.table side _ other).amount m key = _
  by_cases hside : other = side
  · subst hside
    rw [update_self, (hholds other).amount_account, if_neg hkey]
    intro hnew
    exact FlowTable.free_of_not_taken fun htaken => hfull ⟨hnew, htaken⟩
  · rw [update_of_ne hside]

/-- For every interleaving of the worker and the threads, of a leader or a follower:
every key's counts are conserved, a command that fails changes nothing, neither in the section
that fails nor in those of the same read before it, and a packet that is counted next is added
to its own key only. -/
theorem counts_conserved (leader : Bool) (secs : List Section) (s : Measuring)
    (hrun : run secs { fm := .init leader } = some s) :
    (∀ m key, s.fm.Conserved s.counted s.responses m key) ∧
      (∀ sec e s', s.step sec = some (.failure e, s') →
        s'.fm = s.fm ∧ s'.counted = s.counted ∧ s'.responses = s.responses) ∧
      (∀ sec answer s', sec.reads = true → s.step sec = some (answer, s') →
        (∀ stats, answer ≠ .statistics stats) →
        s'.fm = s.fm ∧ s'.counted = s.counted ∧ s'.responses = s.responses) ∧
      ∀ free answer s' side pkt, s.worker = some (side, pkt) →
        s.step (.table free) = some (answer, s') →
        ∀ m key, key ≠ pkt.key → ∀ other,
          (s'.fm.table other).amount m key = (s.fm.table other).amount m key := by
  have hinv : s.Inv := (Inv.start leader).run hrun
  refine ⟨FlowMeasure.Accounted.balances hinv, fun sec e s' hstep => failure_unchanged hstep,
    fun sec answer s' hreads hstep hnone => read_unchanged hreads hstep hnone, ?_⟩
  intro free answer s' side pkt hworker hstep m key hkey other
  dsimp only [step] at hstep
  rw [hworker] at hstep
  dsimp only at hstep
  split_ifs at hstep
  rcases map_eq_some_iff.mp hstep with ⟨s₁, htabled, heq⟩
  cases heq
  exact hinv.other_keys htabled m hkey other

def measured (totalLen : Nat) : MeasuredPacket where
  bufferFlag := 0
  timestamp := 1
  fseid := 1
  pdr := 2
  totalLen
  nowNs := 2

/-- A packet is counted on one side; the flag is flipped while another is on its way
there; a thread reads and clears that side before it arrives. -/
def flippedMeanwhile : List Section :=
  [.flag (measured 100), .table 0, .flag (measured 60), .flip 0, .read 1 1 true, .tryLock 1 false,
    .recheck 1, .readAndClear 1, .table 0]

/-- Both packets are accounted for. -/
theorem counts_conserved_flipped :
    ∃ s, run flippedMeanwhile { fm := .init true } = some s ∧
      s.responses = [[⟨⟨1, 2⟩, 1, 100⟩]] ∧ s.fm.Conserved s.counted s.responses .bytes ⟨1, 2⟩ ∧
      ((s.fm.table .a).amount .bytes ⟨1, 2⟩) = 60 := by
  refine ⟨_, rfl, by decide, (counts_conserved true flippedMeanwhile _ rfl).1 _ _, by decide⟩

end Measuring

end Upf.Bess
