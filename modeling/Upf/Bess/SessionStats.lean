import Upf.Bess.FlowMeasure

/-!
# Polling the flow measuring modules

`SessionStats` flips the flag of the module before the QoS tables and then has all
three modules read and cleared, the other two being those behind the QoS tables, one
for each direction.  These two have no flag of their own: they go by the packets they
see.  A module whose direction has been idle since the flip still takes the table for
the active one and refuses to read it.  The poll then fails, and what it read before
is gone.

Packets arrive while a poll is going on; commands otherwise succeed.

Main result: `polls_lose_nothing`.
-/

namespace Upf.Bess

open Function Lib List

namespace FlowMeasure

def processPacket (alloc : FlowTable → Nat) (pkt : MeasuredPacket) (fm : FlowMeasure) :
    FlowMeasure :=
  match fm.flagSection pkt with
  | (some side, fm) =>
    if pkt.timely then fm.tableSection side (alloc (fm.table side)) pkt else fm
  | (none, fm) => fm

def counts (pkt : MeasuredPacket) (fm : FlowMeasure) : Bool :=
  (fm.flagSection pkt).1.isSome && pkt.timely

def readAndClear (flagToRead : UInt64) (fm : FlowMeasure) :
    Except MeasureError (List Statistic) × FlowMeasure :=
  match fm.tableToRead flagToRead with
  | .error e => (.error e, fm)
  | .ok none => (.ok [], fm)
  | .ok (some side) => ((.ok (fm.readTable side true).1), (fm.readTable side true).2)

end FlowMeasure

inductive Meter where
  | preQos
  | postDlQos
  | postUlQos
deriving DecidableEq

structure Arrival where
  meter : Meter
  pkt : MeasuredPacket

/-- The packets that arrive during a poll: until the first read, the second, the third. -/
structure Poll where
  afterFlip : List Arrival := []
  afterPre : List Arrival := []
  afterDl : List Arrival := []

/-- The modules, the packets they counted, and what they reported in polls that
succeeded. -/
structure Meters where
  fm : Meter → FlowMeasure
  counted : Meter → List MeasuredPacket := fun _ => []
  polled : Meter → List (List Statistic) := fun _ => []

namespace Meters

def start : Meters where
  fm meter := .init (meter = .preQos)

def setModule (meter : Meter) (fm : FlowMeasure) (s : Meters) : Meters :=
  { s with fm := update s.fm meter fm }

def arrive (alloc : FlowTable → Nat) (a : Arrival) (s : Meters) : Meters :=
  { s.setModule a.meter ((s.fm a.meter).processPacket alloc a.pkt) with
    counted := update s.counted a.meter
      (if (s.fm a.meter).counts a.pkt then s.counted a.meter ++ [a.pkt] else s.counted a.meter) }

def arriveAll (alloc : FlowTable → Nat) (as : List Arrival) (s : Meters) : Meters :=
  as.foldl (fun s a => s.arrive alloc a) s

def flipFlowMeasurementBufferFlag (meter : Meter) (s : Meters) :
    Except MeasureError UInt64 × Meters :=
  ((s.fm meter).commandFlipFlag.1, s.setModule meter (s.fm meter).commandFlipFlag.2)

def readFlowMeasurement (meter : Meter) (flagToRead : UInt64) (s : Meters) :
    Except MeasureError (List Statistic) × Meters :=
  (((s.fm meter).readAndClear flagToRead).1,
    s.setModule meter ((s.fm meter).readAndClear flagToRead).2)

def report (pre dl ul : List Statistic) (s : Meters) : Meters :=
  { s with
    polled := fun
      | .preQos => s.polled .preQos ++ [pre]
      | .postDlQos => s.polled .postDlQos ++ [dl]
      | .postUlQos => s.polled .postUlQos ++ [ul] }

def sessionStats (alloc : FlowTable → Nat) (p : Poll) (s : Meters) :
    Except MeasureError Unit × Meters :=
  match s.flipFlowMeasurementBufferFlag .preQos with
  | (.error e, s) => (.error e, s)
  | (.ok oldFlag, s) =>
    match (s.arriveAll alloc p.afterFlip).readFlowMeasurement .preQos oldFlag with
    | (.error e, s) => (.error e, s)
    | (.ok pre, s) =>
      match (s.arriveAll alloc p.afterPre).readFlowMeasurement .postDlQos oldFlag with
      | (.error e, s) => (.error e, s)
      | (.ok dl, s) =>
        match (s.arriveAll alloc p.afterDl).readFlowMeasurement .postUlQos oldFlag with
        | (.error e, s) => (.error e, s)
        | (.ok ul, s) => (.ok (), s.report pre dl ul)

inductive Happening where
  | arrival (a : Arrival)
  | poll (p : Poll)

def step (alloc : FlowTable → Nat) (ev : Happening) (s : Meters) : Meters :=
  match ev with
  | .arrival a => s.arrive alloc a
  | .poll p => (s.sessionStats alloc p).2

def run (alloc : FlowTable → Nat) (evs : List Happening) (s : Meters) : Meters :=
  evs.foldl (fun s ev => s.step alloc ev) s

/-- When its turn comes in a poll, a module behind the QoS tables goes by another flag than
the one the poll is to read: the last packet with a valid flag that it saw, if any,
carried another. -/
def MovedOn (alloc : FlowTable → Nat) (p : Poll) (s : Meters) : Prop :=
  ((s.arriveAll alloc (p.afterFlip ++ p.afterPre)).fm .postDlQos).currentFlag ≠
      (s.fm .preQos).currentFlag ∧
    ((s.arriveAll alloc (p.afterFlip ++ p.afterPre ++ p.afterDl)).fm .postUlQos).currentFlag ≠
      (s.fm .preQos).currentFlag

def RunMovesOn (alloc : FlowTable → Nat) : List Happening → Meters → Prop
  | [], _ => True
  | .arrival a :: evs, s => RunMovesOn alloc evs (s.arrive alloc a)
  | .poll p :: evs, s => s.MovedOn alloc p ∧ RunMovesOn alloc evs (s.sessionStats alloc p).2

end Meters

namespace FlowMeasure

variable {alloc : FlowTable → Nat} {fm : FlowMeasure} {counted : List MeasuredPacket}
  {responses : List (List Statistic)}

theorem Accounted.processPacket (halloc : ∀ t : FlowTable, alloc t ∉ t.taken)
    (h : fm.Accounted counted responses) (pkt : MeasuredPacket) :
    (fm.processPacket alloc pkt).Accounted
      (if fm.counts pkt then counted ++ [pkt] else counted) responses := by
  have htable := fm.flagSection_table pkt
  unfold FlowMeasure.processPacket counts
  generalize hflag : fm.flagSection pkt = r at htable
  rcases r with ⟨flag, fm'⟩
  have h' : fm'.Accounted counted responses := h.congr htable
  cases flag with
  | none => exact h'
  | some =>
    cases htimely : pkt.timely with
    | false => simpa using h'
    | true =>
      simp only [Option.isSome_some, Bool.and_self, if_true]
      exact h'.tableSection fun _ => FlowTable.free_of_not_taken (halloc _)

theorem processPacket_leader (h : fm.leader = true) (pkt : MeasuredPacket) :
    (fm.processPacket alloc pkt).leader = true ∧
      (fm.processPacket alloc pkt).currentFlag = fm.currentFlag := by
  have hflag : fm.flagSection pkt = (fm.currentFlag, fm) := if_pos h
  unfold FlowMeasure.processPacket
  rw [hflag]
  cases hcurrent : fm.currentFlag with
  | none => exact ⟨h, hcurrent⟩
  | some =>
    dsimp only
    split_ifs
    · exact ⟨h, hcurrent⟩
    · exact ⟨h, hcurrent⟩

theorem flagOf_flagValue (flag : Flag) : flagOf (flagValue flag) = some flag := by
  rcases flag with - | ⟨- | -⟩ <;> decide

theorem readAndClear_ok (h : fm.Accounted counted responses) {side : Side}
    (hflag : fm.currentFlag ≠ some side) :
    ∃ stats, (fm.readAndClear (flagValue (some side))).1 = .ok stats ∧
      (fm.readAndClear (flagValue (some side))).2.Accounted counted (responses ++ [stats]) := by
  have hread : fm.readAndClear (flagValue (some side)) =
      (.ok (fm.readTable side true).1, (fm.readTable side true).2) := by
    unfold readAndClear tableToRead
    rw [flagOf_flagValue]
    dsimp only
    rw [if_neg hflag]
  rw [hread]
  exact ⟨_, rfl, h.readTable side⟩

end FlowMeasure

namespace Meters

variable {alloc : FlowTable → Nat} {s s' : Meters}

@[simp] theorem setModule_self (meter : Meter) (fm : FlowMeasure) (s : Meters) :
    (s.setModule meter fm).fm meter = fm := update_self ..

theorem setModule_of_ne {meter meter' : Meter} (h : meter' ≠ meter) (fm : FlowMeasure)
    (s : Meters) : (s.setModule meter fm).fm meter' = s.fm meter' := update_of_ne h ..

theorem arriveAll_congr {as : List Arrival} {meter : Meter} (h : s.fm meter = s'.fm meter) :
    (s.arriveAll alloc as).fm meter = (s'.arriveAll alloc as).fm meter := by
  induction as generalizing s s' with
  | nil => exact h
  | cons a as ih =>
    apply ih
    change (s.setModule a.meter _).fm meter = (s'.setModule a.meter _).fm meter
    by_cases hmeter : meter = a.meter
    · rw [← hmeter, setModule_self, setModule_self, h]
    · rw [setModule_of_ne hmeter, setModule_of_ne hmeter, h]

theorem arriveAll_append (as as' : List Arrival) (s : Meters) :
    s.arriveAll alloc (as ++ as') = (s.arriveAll alloc as).arriveAll alloc as' :=
  foldl_append

/-- Every module's packets are accounted for, by its reports and what a poll that is going
on has read of it. -/
def Inv (pending : Meter → List (List Statistic)) (s : Meters) : Prop :=
  ∀ meter, (s.fm meter).Accounted (s.counted meter) (s.polled meter ++ pending meter)

def Leads (flag : Flag) (s : Meters) : Prop :=
  (s.fm .preQos).leader = true ∧ (s.fm .preQos).currentFlag = flag

variable {pending : Meter → List (List Statistic)} {flag : Flag}

theorem Inv.arrive (halloc : ∀ t : FlowTable, alloc t ∉ t.taken) (h : s.Inv pending)
    (a : Arrival) : (s.arrive alloc a).Inv pending := by
  intro meter
  by_cases hmeter : meter = a.meter
  · subst hmeter
    unfold Meters.arrive
    dsimp only
    rw [setModule_self, update_self]
    exact (h a.meter).processPacket halloc a.pkt
  · unfold Meters.arrive
    dsimp only
    rw [setModule_of_ne hmeter, update_of_ne hmeter]
    exact h meter

theorem Leads.arrive (h : s.Leads flag) (a : Arrival) : (s.arrive alloc a).Leads flag := by
  unfold Leads Meters.arrive
  dsimp only
  by_cases hmeter : Meter.preQos = a.meter
  · rw [← hmeter, setModule_self, ← h.2]
    exact FlowMeasure.processPacket_leader h.1 a.pkt
  · rw [setModule_of_ne hmeter]
    exact h

theorem Inv.arriveAll (halloc : ∀ t : FlowTable, alloc t ∉ t.taken) (h : s.Inv pending)
    (as : List Arrival) : (s.arriveAll alloc as).Inv pending := by
  induction as generalizing s with
  | nil => exact h
  | cons a as ih => exact ih (h.arrive halloc a)

theorem Leads.arriveAll (h : s.Leads flag) (alloc : FlowTable → Nat) (as : List Arrival) :
    (s.arriveAll alloc as).Leads flag := by
  induction as generalizing s with
  | nil => exact h
  | cons a as ih => exact ih (h.arrive a)

variable {side : Side}

theorem Inv.read (h : s.Inv pending) {meter : Meter} (hnone : pending meter = [])
    (hflag : (s.fm meter).currentFlag ≠ some side) :
    ∃ stats, (s.readFlowMeasurement meter (flagValue (some side))).1 = .ok stats ∧
      (s.readFlowMeasurement meter (flagValue (some side))).2.Inv
        (update pending meter [stats]) := by
  have haccounted := h meter
  rw [hnone, append_nil] at haccounted
  rcases FlowMeasure.readAndClear_ok haccounted hflag with ⟨stats, hok, hread⟩
  refine ⟨stats, hok, fun other => ?_⟩
  unfold readFlowMeasurement
  dsimp only
  by_cases hother : other = meter
  · subst hother
    rw [setModule_self, update_self]
    exact hread
  · rw [setModule_of_ne hother, update_of_ne hother]
    exact h other

theorem flip_ok (h : s.Inv pending) (hleads : s.Leads (some side)) :
    (s.flipFlowMeasurementBufferFlag .preQos).1 = .ok (flagValue (some side)) ∧
      (s.flipFlowMeasurementBufferFlag .preQos).2.Inv pending ∧
      ∃ side', side' ≠ side ∧ (s.flipFlowMeasurementBufferFlag .preQos).2.Leads (some side') := by
  rcases hleads with ⟨hleader, hcurrent⟩
  have hflip : (s.fm .preQos).commandFlipFlag = (.ok (flagValue (some side)),
      { s.fm .preQos with currentFlag := if side = .a then some .b else some .a }) := by
    unfold FlowMeasure.commandFlipFlag
    rw [if_pos hleader, hcurrent]
    simp only [Option.some.injEq]
  unfold flipFlowMeasurementBufferFlag
  rw [hflip]
  refine ⟨rfl, fun meter => ?_, ?_⟩
  · by_cases hmeter : meter = .preQos
    · subst hmeter
      dsimp only
      rw [setModule_self]
      exact (h .preQos).congr rfl
    · dsimp only
      rw [setModule_of_ne hmeter]
      exact h meter
  · unfold Leads
    dsimp only
    rw [setModule_self]
    cases side with
    | a => exact ⟨.b, by decide, hleader, rfl⟩
    | b => exact ⟨.a, by decide, hleader, rfl⟩

theorem read_fm_of_ne {meter meter' : Meter} (h : meter' ≠ meter) (flagToRead : UInt64)
    (s : Meters) : (s.readFlowMeasurement meter flagToRead).2.fm meter' = s.fm meter' :=
  setModule_of_ne h _ _

theorem Leads.read (h : s.Leads flag) (meter : Meter) (flagToRead : UInt64) :
    (s.readFlowMeasurement meter flagToRead).2.Leads flag := by
  have hkeeps : ((s.fm .preQos).readAndClear flagToRead).2.leader = (s.fm .preQos).leader ∧
      ((s.fm .preQos).readAndClear flagToRead).2.currentFlag = (s.fm .preQos).currentFlag := by
    unfold FlowMeasure.readAndClear
    split <;> exact ⟨rfl, rfl⟩
  unfold Leads readFlowMeasurement
  dsimp only
  by_cases hmeter : Meter.preQos = meter
  · rw [← hmeter, setModule_self, hkeeps.1, hkeeps.2]
    exact h
  · rw [setModule_of_ne hmeter]
    exact h

/-- A poll that finds the modules moved on succeeds, loses nothing, and leaves the flag
flipped. -/
theorem poll_ok (halloc : ∀ t : FlowTable, alloc t ∉ t.taken) (h : s.Inv fun _ => [])
    (hleads : s.Leads (some side)) {p : Poll} (hmoved : s.MovedOn alloc p) :
    (s.sessionStats alloc p).1 = .ok () ∧ (s.sessionStats alloc p).2.Inv (fun _ => []) ∧
      ∃ side', (s.sessionStats alloc p).2.Leads (some side') := by
  rcases flip_ok h hleads with ⟨hflip, hinv₁, side', hside, hleads₁⟩
  have hother : ∀ meter, meter ≠ .preQos →
      (s.flipFlowMeasurementBufferFlag .preQos).2.fm meter = s.fm meter :=
    fun meter hmeter => setModule_of_ne hmeter _ _
  unfold sessionStats
  generalize s.flipFlowMeasurementBufferFlag .preQos = r₁ at *
  rcases r₁ with ⟨result₁, s₁⟩
  cases hflip
  dsimp only at *
  -- The leader is read: its flag is another by now.
  have hleads₂ := hleads₁.arriveAll alloc p.afterFlip
  have hflag₂ : ((s₁.arriveAll alloc p.afterFlip).fm .preQos).currentFlag ≠ some side := by
    rw [hleads₂.2]
    simpa using hside
  rcases (hinv₁.arriveAll halloc p.afterFlip).read rfl hflag₂ with ⟨pre, hpre, hinv₂⟩
  have hleads₃ := hleads₂.read .preQos (flagValue (some side))
  have hother₃ : ∀ meter, meter ≠ .preQos →
      ((s₁.arriveAll alloc p.afterFlip).readFlowMeasurement .preQos
        (flagValue (some side))).2.fm meter = (s.arriveAll alloc p.afterFlip).fm meter :=
    fun meter hmeter => (read_fm_of_ne hmeter _ _).trans (arriveAll_congr (hother meter hmeter))
  generalize (s₁.arriveAll alloc p.afterFlip).readFlowMeasurement .preQos
    (flagValue (some side)) = r₂ at *
  rcases r₂ with ⟨result₂, s₂⟩
  cases hpre
  dsimp only at *
  -- The module behind the downlink, which moved on.
  have hflag₃ : ((s₂.arriveAll alloc p.afterPre).fm .postDlQos).currentFlag ≠ some side := by
    rw [arriveAll_congr (hother₃ .postDlQos (by decide)), ← arriveAll_append]
    rw [← hleads.2]
    exact hmoved.1
  rcases (hinv₂.arriveAll halloc p.afterPre).read rfl hflag₃ with ⟨dl, hdl, hinv₃⟩
  have hleads₄ := (hleads₃.arriveAll alloc p.afterPre).read .postDlQos
    (flagValue (some side))
  have hother₄ : ((s₂.arriveAll alloc p.afterPre).readFlowMeasurement .postDlQos
      (flagValue (some side))).2.fm .postUlQos =
        (s.arriveAll alloc (p.afterFlip ++ p.afterPre)).fm .postUlQos := by
    rw [read_fm_of_ne (by decide), arriveAll_append]
    exact arriveAll_congr (hother₃ .postUlQos (by decide))
  generalize (s₂.arriveAll alloc p.afterPre).readFlowMeasurement .postDlQos
    (flagValue (some side)) = r₃ at *
  rcases r₃ with ⟨result₃, s₃⟩
  cases hdl
  dsimp only at *
  -- The module behind the uplink, likewise.
  have hflag₄ : ((s₃.arriveAll alloc p.afterDl).fm .postUlQos).currentFlag ≠ some side := by
    rw [arriveAll_congr hother₄, ← arriveAll_append, ← hleads.2]
    exact hmoved.2
  rcases (hinv₃.arriveAll halloc p.afterDl).read rfl hflag₄ with ⟨ul, hul, hinv₄⟩
  have hleads₅ := (hleads₄.arriveAll alloc p.afterDl).read .postUlQos
    (flagValue (some side))
  generalize (s₃.arriveAll alloc p.afterDl).readFlowMeasurement .postUlQos
    (flagValue (some side)) = r₄ at *
  rcases r₄ with ⟨result₄, s₄⟩
  cases hul
  dsimp only at *
  refine ⟨rfl, fun meter => ?_, side', hleads₅⟩
  have hmeter := hinv₄ meter
  cases meter with
  | preQos => simpa [report, update] using hmeter
  | postDlQos => simpa [report, update] using hmeter
  | postUlQos => simpa [report, update] using hmeter

theorem Inv.start : start.Inv fun _ => [] := fun _ => FlowMeasure.Accounted.init _

theorem run_accounted (halloc : ∀ t : FlowTable, alloc t ∉ t.taken) {evs : List Happening}
    (h : s.Inv fun _ => []) (hleads : s.Leads (some side))
    (hmoves : RunMovesOn alloc evs s) :
    (s.run alloc evs).Inv (fun _ => []) ∧ ∃ side', (s.run alloc evs).Leads (some side') := by
  induction evs generalizing s side with
  | nil => exact ⟨h, side, hleads⟩
  | cons ev evs ih =>
    cases ev with
    | arrival a => exact ih (h.arrive halloc a) (hleads.arrive a) hmoves
    | poll =>
      rcases poll_ok halloc h hleads hmoves.1 with ⟨-, hinv, side', hleads'⟩
      exact ih hinv hleads' hmoves.2

/-- Over every history of packets and polls in which each poll finds the modules moved
on: every packet a module counted is in its report to one poll that succeeded, or in
one of its tables; and the next such poll succeeds. -/
theorem polls_lose_nothing (alloc : FlowTable → Nat) (halloc : ∀ t : FlowTable, alloc t ∉ t.taken)
    (evs : List Happening) (hmoves : RunMovesOn alloc evs start) :
    (∀ meter, ((start.run alloc evs).fm meter).Accounted ((start.run alloc evs).counted meter)
      ((start.run alloc evs).polled meter)) ∧
    ∀ p, (start.run alloc evs).MovedOn alloc p →
      ((start.run alloc evs).sessionStats alloc p).1 = .ok () := by
  have hleads : start.Leads (some .a) := ⟨rfl, rfl⟩
  rcases run_accounted halloc Inv.start hleads hmoves with ⟨hinv, side, hleads⟩
  refine ⟨fun meter => ?_, fun p hmoved => (poll_ok halloc hinv hleads hmoved).1⟩
  have hmeter := hinv meter
  rwa [append_nil] at hmeter

def nextPosition (t : FlowTable) : Nat := t.taken.foldr max 0 + 1

theorem nextPosition_not_taken (t : FlowTable) : nextPosition t ∉ t.taken := by
  have hle : ∀ l : List Nat, ∀ n ∈ l, n ≤ l.foldr max 0 := by
    intro l
    induction l with
    | nil => simp
    | cons m l ih =>
      intro n hn
      rcases mem_cons.mp hn with rfl | hn
      · exact le_max_left _ _
      · exact (ih n hn).trans (le_max_right _ _)
  intro hmem
  have hlt := hle t.taken _ hmem
  unfold nextPosition at hlt
  omega

def flaggedPacket (bufferFlag : UInt64) : MeasuredPacket where
  bufferFlag
  timestamp := 1
  fseid := 1
  pdr := 2
  totalLen := 100
  nowNs := 2

def downlink (bufferFlag : UInt64) : List Arrival :=
  [⟨.preQos, flaggedPacket bufferFlag⟩, ⟨.postDlQos, flaggedPacket bufferFlag⟩]

def downlinkThenPoll (afterFlip : List Arrival) : List Happening :=
  (downlink 1).map .arrival ++ [.poll { afterFlip }]

/-- A packet follows the flip, and the poll loses nothing. -/
theorem polls_lose_nothing_downlink :
    ((start.run nextPosition (downlinkThenPoll (downlink 2))).fm .preQos).Accounted
      [flaggedPacket 1, flaggedPacket 2] [[⟨⟨1, 2⟩, 1, 100⟩]] := by
  have haccounted := (polls_lose_nothing nextPosition nextPosition_not_taken
    (downlinkThenPoll (downlink 2)) ⟨⟨by decide, by decide⟩, trivial⟩).1 .preQos
  have hcounted : (start.run nextPosition (downlinkThenPoll (downlink 2))).counted .preQos =
      [flaggedPacket 1, flaggedPacket 2] := by decide
  have hpolled : (start.run nextPosition (downlinkThenPoll (downlink 2))).polled .preQos =
      [[⟨⟨1, 2⟩, 1, 100⟩]] := by decide
  rwa [hcounted, hpolled] at haccounted

/-- No packet follows the flip: the poll fails, and what the first module counted is gone. -/
theorem idle_downlink_is_lost :
    ((start.run nextPosition ((downlink 1).map .arrival)).sessionStats nextPosition {}).1 =
        .error .activeBuffer ∧
      ¬ ((start.run nextPosition (downlinkThenPoll [])).fm .preQos).Accounted
          ((start.run nextPosition (downlinkThenPoll [])).counted .preQos)
          ((start.run nextPosition (downlinkThenPoll [])).polled .preQos) := by
  refine ⟨by decide, fun h => ?_⟩
  have hcounts := (h.balances .packets ⟨1, 2⟩).1
  revert hcounts
  decide

end Meters

end Upf.Bess
