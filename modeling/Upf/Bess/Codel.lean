import Mathlib.Algebra.Order.Ring.Nat
import Mathlib.Order.Basic

/-!
# Controlled delay

A queue drops entries while they have waited too long, at a rate that grows.  A queue that
drops starts to once its delay was above the target for a window of time.

The clock is a sequence of readings, of which every call takes the next ones.  When the
next drop is due is computed with floating-point numbers; what comes out is a parameter.

Main result: `pop_sound_iff`.
-/

namespace Upf.Bess

open List Nat

structure Wrapper (T : Type) where
  time : UInt64
  obj : T
deriving DecidableEq

/-- An entry taken off the queue, with the reading of the clock then. -/
structure Taken (T : Type) extends Wrapper T where
  takenAt : UInt64
deriving DecidableEq

structure Codel (T : Type) where
  delayTarget : UInt64
  window : UInt64
  timeAboveTarget : UInt64 := 0
  nextDropTime : UInt64
  dropCount : UInt32 := 0
  dropping : Bool := false
  maxSize : Nat
  queue : List (Wrapper T) := []
deriving DecidableEq

/-- What a `Pop` returns, what it gives to the drop function, and what it leaves, with the
number of readings taken so far. -/
structure Popped (T : Type) where
  result : Except Int (Taken T)
  dropped : List (Taken T) := []
  codel : Codel T
  ticks : Nat

inductive CodelCall (T : Type) where
  | push (obj : T)
  | pop

namespace Codel

variable {T : Type} (nextDrop : UInt64 → UInt32 → UInt64) (clock : Nat → UInt64)

def new (target window : UInt64) (maxEntries : Nat) : Codel T where
  delayTarget := target
  window := window
  nextDropTime := clock 0 + window
  maxSize := maxEntries

def push (obj : T) (n : Nat) (c : Codel T) : Int × Codel T × Nat :=
  if c.maxSize ≠ 0 ∧ c.maxSize ≤ c.queue.length then (-1, c, n)
  else (0, { c with queue := c.queue ++ [⟨clock n, obj⟩] }, n + 1)

/-- The second half of `RingDequeue`: what an entry that was taken off says about the delay.
The flag is raised here and never taken back. -/
def judge (w : Taken T) (drop : Bool) (c : Codel T) : Bool × Codel T :=
  if w.takenAt - w.time < c.delayTarget then (drop, { c with timeAboveTarget := 0 })
  else if c.timeAboveTarget = 0 then (drop, { c with timeAboveTarget := w.takenAt + c.window })
  else (drop || c.timeAboveTarget ≤ w.takenAt, c)

/-- The loop of `DropDequeue`, with the queue apart from the rest. -/
def dropLoop (now : UInt64) : List (Wrapper T) → Nat → Taken T → Bool → Codel T → Popped T
  | queue, n, w, drop, c =>
    if c.nextDropTime ≤ now ∧ c.dropping then
      let c := { c with dropCount := c.dropCount + 1 }
      match queue with
      | [] => ⟨.error (-1), [w], { c with dropping := false, queue := [] }, n⟩
      | next :: queue =>
        let next : Taken T := ⟨next, clock n⟩
        match judge next drop c with
        | (false, c) => ⟨.ok next, [w], { c with dropping := false, queue }, n + 1⟩
        | (true, c) =>
          let rest := dropLoop now queue (n + 1) next true
            { c with nextDropTime := nextDrop c.nextDropTime c.dropCount }
          { rest with dropped := w :: rest.dropped }
    else ⟨.ok w, [], { c with queue }, n⟩

def dropDequeue (n : Nat) (w : Taken T) (drop : Bool) (c : Codel T) : Popped T :=
  if drop then dropLoop nextDrop clock (clock n) c.queue (n + 1) w drop c
  else ⟨.ok w, [], { c with dropping := false }, n + 1⟩

def pop (n : Nat) (c : Codel T) : Popped T :=
  match c.queue with
  | [] => ⟨.error (-2), [], { c with dropping := false }, n⟩
  | w :: queue =>
    let w : Taken T := ⟨w, clock n⟩
    match judge w false { c with queue } with
    | (drop, c) =>
      let now := clock (n + 1)
      if c.dropping then dropDequeue nextDrop clock (n + 2) w drop c
      else if drop ∧ (now - c.nextDropTime < c.window ∨ c.window ≤ now - c.timeAboveTarget) then
        match c.queue with
        | [] => ⟨.error (-1), [w], c, n + 2⟩
        | next :: queue =>
          let next : Taken T := ⟨next, clock (n + 2)⟩
          let c := (judge next drop { c with queue }).2
          let dropCount := if now - c.nextDropTime < c.window ∧ c.dropCount > 2
            then c.dropCount - 2 else 1
          ⟨.ok next, [w], { c with
            dropping := true, dropCount, nextDropTime := nextDrop now dropCount }, n + 3⟩
      else ⟨.ok w, [], c, n + 2⟩

def step (s : Codel T × Nat) : CodelCall T → Codel T × Nat
  | .push obj => (push clock obj s.2 s.1).2
  | .pop => ((pop nextDrop clock s.2 s.1).codel, (pop nextDrop clock s.2 s.1).ticks)

/-- The state after some calls; the constructor takes the first reading. -/
def run (target window : UInt64) (maxEntries : Nat) (calls : List (CodelCall T)) :
    Codel T × Nat :=
  calls.foldl (step nextDrop clock) (new clock target window maxEntries, 1)

/-- An entry waited for at least the target before it was taken off. -/
def Waited (target : UInt64) (w : Taken T) : Prop :=
  w.time.toNat + target.toNat ≤ w.takenAt.toNat

/-- The entry returned is the next one behind those dropped, and nothing is dropped once the
delay is below the target. -/
structure InOrder (n : Nat) (c : Codel T) (p : Popped T) : Prop where
  order : c.queue = p.dropped.map Taken.toWrapper ++
    p.result.toOption.toList.map Taken.toWrapper ++ p.codel.queue
  timely : ∀ w ∈ c.queue.head?, ¬Waited c.delayTarget ⟨w, clock n⟩ → p.dropped = []

/-- Only entries that waited are dropped. -/
structure PopSound (n : Nat) (c : Codel T) (p : Popped T) : Prop extends InOrder clock n c p where
  waited : ∀ w ∈ p.dropped, Waited c.delayTarget w

/-- When the drops after a drop that is due at a time are due. -/
def dropTime (t : UInt64) (count : UInt32) : Nat → UInt64
  | 0 => t
  | i + 1 => dropTime (nextDrop t (count + 1)) (count + 1) i

/-- Where the first entry is dropped in the dropping state, those behind it whose drops are
due by now waited, too. -/
def DueWaited (n : Nat) (c : Codel T) : Prop :=
  ∀ front ∈ c.queue.head?, c.dropping → Waited c.delayTarget ⟨front, clock n⟩ →
    c.timeAboveTarget ≠ 0 → c.timeAboveTarget ≤ clock n →
    ∀ i w, c.queue[i + 1]? = some w →
      (∀ j ≤ i + 1, dropTime nextDrop c.nextDropTime c.dropCount j ≤ clock (n + 2)) →
      Waited c.delayTarget ⟨w, clock (n + 3 + i)⟩

section

variable {c : Codel T} {w : Taken T} {now : UInt64} {n : Nat} {drop : Bool}

theorem judge_eq (w : Taken T) (drop : Bool) (c : Codel T) :
    ∃ flag t, judge w drop c = (flag, { c with timeAboveTarget := t }) ∧ (drop → flag = true) := by
  unfold judge
  split_ifs
  · exact ⟨_, _, rfl, id⟩
  · exact ⟨_, _, rfl, id⟩
  · exact ⟨_, c.timeAboveTarget, rfl, fun h => by simp [h]⟩

theorem judge_flag (h : w.time ≤ w.takenAt) : (judge w false c).1 = true ↔
    Waited c.delayTarget w ∧ c.timeAboveTarget ≠ 0 ∧ c.timeAboveTarget ≤ w.takenAt := by
  have hdelay : w.takenAt - w.time < c.delayTarget ↔ ¬Waited c.delayTarget w := by
    rw [UInt64.lt_iff_toNat_lt, UInt64.toNat_sub_of_le _ _ h, Waited]
    rw [UInt64.le_iff_toNat_le] at h
    omega
  unfold judge
  split_ifs with hearly hzero
  · exact iff_of_false (by simp) fun hall => hdelay.mp hearly hall.1
  · exact iff_of_false (by simp) fun hall => hall.2.1 hzero
  · simp [hzero, not_not.mp (mt hdelay.mpr hearly)]

/-- What a loop in the dropping state drops and returns: every drop that is due is made while
there are entries. -/
structure LoopSpec (P : Taken T → Prop) (now : UInt64) (queue : List (Wrapper T)) (n : Nat)
    (w : Taken T) (c : Codel T) (p : Popped T) : Prop where
  dropped : (∀ x ∈ p.dropped, P x) ↔ (c.nextDropTime ≤ now → P w) ∧
    ∀ i x, queue[i]? = some x →
      (∀ j ≤ i + 1, dropTime nextDrop c.nextDropTime c.dropCount j ≤ now) → P ⟨x, clock (n + i)⟩
  order : w.toWrapper :: queue = p.dropped.map Taken.toWrapper ++
    p.result.toOption.toList.map Taken.toWrapper ++ p.codel.queue
  ticks : n ≤ p.ticks

theorem loopSpec_early {P : Taken T → Prop} {queue : List (Wrapper T)}
    (hdropping : c.dropping = true) (h : ¬(c.nextDropTime ≤ now ∧ c.dropping = true)) :
    LoopSpec nextDrop clock P now queue n w c ⟨.ok w, [], { c with queue }, n⟩ := by
  have hdue : ¬c.nextDropTime ≤ now := fun hdue => h ⟨hdue, hdropping⟩
  refine ⟨iff_of_true (by simp) ⟨fun h => absurd h hdue, fun i x _ hall => ?_⟩, rfl, le_rfl⟩
  exact absurd (hall 0 (Nat.zero_le _)) hdue

theorem dropLoop_spec (P : Taken T → Prop) (now : UInt64) (queue : List (Wrapper T)) (n : Nat)
    (w : Taken T) (c : Codel T) (hdropping : c.dropping = true) :
    LoopSpec nextDrop clock P now queue n w c
      (dropLoop nextDrop clock now queue n w true c) := by
  induction queue generalizing n w c with
  | nil =>
    rw [dropLoop]
    split_ifs with hdue
    · exact ⟨by simp [hdue.1], rfl, le_rfl⟩
    · exact loopSpec_early nextDrop clock hdropping hdue
  | cons next queue ih =>
    rw [dropLoop]
    split_ifs with hdue
    · obtain ⟨flag, t, hjudge, hflag⟩ :=
        judge_eq ⟨next, clock n⟩ true { c with dropCount := c.dropCount + 1 }
      obtain rfl := hflag rfl
      simp only [hjudge]
      obtain ⟨hdropped, horder, hticks⟩ := ih (n + 1) ⟨next, clock n⟩
        { c with
          dropCount := c.dropCount + 1, timeAboveTarget := t
          nextDropTime := nextDrop c.nextDropTime (c.dropCount + 1) } hdropping
      refine ⟨?_, ?_, (le_succ n).trans hticks⟩
      · have hshift (i : Nat) :
            (∀ j ≤ i + 1, dropTime nextDrop c.nextDropTime c.dropCount j ≤ now) ↔
              ∀ j ≤ i, dropTime nextDrop (nextDrop c.nextDropTime (c.dropCount + 1))
                (c.dropCount + 1) j ≤ now := by
          refine ⟨fun h j hj => h (j + 1) (by omega), fun h j hj => ?_⟩
          cases j with
          | zero => exact hdue.1
          | succ j => exact h j (by omega)
        rw [forall_mem_cons, hdropped, forall_prop_of_true hdue.1]
        refine and_congr_right fun _ => ⟨fun h i x hx hall => ?_, fun h => ⟨fun ht => ?_, ?_⟩⟩
        · cases i with
          | zero =>
            cases hx
            exact h.1 ((hshift 0).mp hall 0 le_rfl)
          | succ i =>
            rw [← Nat.add_assoc, Nat.add_right_comm]
            exact h.2 i x hx ((hshift _).mp hall)
        · refine h 0 next rfl ((hshift 0).mpr fun j hj => ?_)
          rw [le_zero.mp hj]
          exact ht
        · intro i x hx hall
          rw [Nat.add_right_comm]
          exact h (i + 1) x hx ((hshift _).mpr hall)
      · rw [map_cons, cons_append, cons_append, ← horder]
    · exact loopSpec_early nextDrop clock hdropping hdue

/-- What a `Pop` drops and returns. -/
structure PopSpec (n : Nat) (c : Codel T) (p : Popped T) : Prop extends InOrder clock n c p where
  waited_iff : (∀ w ∈ p.dropped, Waited c.delayTarget w) ↔ DueWaited nextDrop clock n c
  ticks : n ≤ p.ticks

theorem pop_spec (h : ∀ w ∈ c.queue, w.time ≤ clock n) :
    PopSpec nextDrop clock n c (pop nextDrop clock n c) := by
  unfold pop
  split
  · rename_i hqueue
    refine ⟨⟨by simp [hqueue, Except.toOption], fun _ _ _ => rfl⟩, iff_of_true (by simp) ?_, le_rfl⟩
    intro front hfront
    simp [hqueue] at hfront
  · rename_i front queue hqueue
    have hhead {w : Wrapper T} (hw : w ∈ c.queue.head?) : w = front := by
      simpa [hqueue] using hw.symm
    have hflag : (judge ⟨front, clock n⟩ false { c with queue }).1 = true ↔ _ :=
      judge_flag (h front (by simp [hqueue]))
    obtain ⟨drop, t, hjudge, -⟩ := judge_eq ⟨front, clock n⟩ false { c with queue }
    rw [hjudge] at hflag
    have hkept {m : Nat} {dropping : Bool} (hm : n ≤ m) (hdue : DueWaited nextDrop clock n c) :
        PopSpec nextDrop clock n c
          ⟨.ok ⟨front, clock n⟩, [], { c with queue, timeAboveTarget := t, dropping }, m⟩ :=
      ⟨⟨hqueue, fun _ _ _ => rfl⟩, iff_of_true (by simp) hdue, hm⟩
    simp only [hjudge]
    split_ifs with hdropping henter
    · unfold dropDequeue
      split_ifs with hdrop
      · subst hdrop
        obtain ⟨hwaited, hraised⟩ := hflag.mp rfl
        obtain ⟨hdropped, horder, hticks⟩ := dropLoop_spec nextDrop clock (Waited c.delayTarget)
          (clock (n + 2)) queue (n + 3) ⟨front, clock n⟩ { c with queue, timeAboveTarget := t }
          hdropping
        refine ⟨⟨hqueue.trans horder, fun w hw hnot => ?_⟩,
          hdropped.trans ⟨?_, fun hdue => ⟨fun _ => hwaited, fun i x hx => ?_⟩⟩,
          (Nat.le_add_right n 3).trans hticks⟩
        · rw [hhead hw] at hnot
          exact absurd hwaited hnot
        · rintro ⟨-, hrest⟩ _ _ _ _ _ _ i w hw
          rw [hqueue] at hw
          exact hrest i w hw
        · have hfront : front ∈ c.queue.head? := by rw [hqueue]; rfl
          refine hdue front hfront hdropping hwaited hraised.1 hraised.2 i x ?_
          rw [hqueue]
          exact hx
      · refine hkept (by omega) fun w hw _ hwaited hne hle => ?_
        rw [hhead hw] at hwaited
        exact absurd (hflag.mpr ⟨hwaited, hne, hle⟩) hdrop
    · have hwaited := (hflag.mp henter.1).1
      have hdue : DueWaited nextDrop clock n c := fun _ _ h => absurd h hdropping
      have htimely (w : Wrapper T) (hw : w ∈ c.queue.head?)
          (hnot : ¬Waited c.delayTarget ⟨w, clock n⟩) : [(⟨front, clock n⟩ : Taken T)] = [] := by
        rw [hhead hw] at hnot
        exact absurd hwaited hnot
      have hall : (∀ w ∈ [⟨front, clock n⟩], Waited c.delayTarget w) ↔
          DueWaited nextDrop clock n c := iff_of_true (by simpa using hwaited) hdue
      cases queue with
      | nil => exact ⟨⟨hqueue, htimely⟩, hall, by simp⟩
      | cons next queue =>
        obtain ⟨_, t', hjudge', -⟩ :=
          judge_eq ⟨next, clock (n + 2)⟩ drop { c with queue, timeAboveTarget := t }
        simp only [hjudge']
        exact ⟨⟨hqueue, htimely⟩, hall, by simp⟩
    · exact hkept (by omega) fun _ _ h => absurd h hdropping

/-- Every entry was pushed before the next reading. -/
def Stamped (s : Codel T × Nat) : Prop := ∀ w ∈ s.1.queue, w.time ≤ clock s.2

theorem Stamped.step (hclock : ∀ i j, i ≤ j → clock i ≤ clock j) {s : Codel T × Nat}
    (hs : Stamped clock s) (call : CodelCall T) : Stamped clock (step nextDrop clock s call) := by
  cases call with
  | push obj =>
    simp only [Codel.step, push]
    split_ifs
    · exact hs
    · intro w hw
      rcases mem_append.mp hw with hw | hw
      · exact UInt64.le_trans (hs w hw) (hclock _ _ (le_succ _))
      · cases mem_singleton.mp hw
        exact hclock _ _ (le_succ _)
  | pop =>
    intro w hw
    have hspec := pop_spec nextDrop clock hs
    have hmem : w ∈ s.1.queue := by
      rw [hspec.order]
      exact mem_append_right _ hw
    exact UInt64.le_trans (hs w hmem) (hclock _ _ hspec.ticks)

theorem stamped_run (hclock : ∀ i j, i ≤ j → clock i ≤ clock j) (target window : UInt64)
    (maxEntries : Nat) (calls : List (CodelCall T)) :
    Stamped clock (run nextDrop clock target window maxEntries calls) := by
  unfold run
  have hnew : Stamped clock ((new clock target window maxEntries : Codel T), 1) :=
    fun w hw => absurd hw not_mem_nil
  generalize ((new clock target window maxEntries : Codel T), 1) = s at hnew ⊢
  induction calls generalizing s with
  | nil => exact hnew
  | cons call calls ih => exact ih _ (hnew.step nextDrop clock hclock call)

end

/-- After any calls a `Pop` drops only entries that waited, and returns the next one, exactly if
the entries behind one that is dropped in the dropping state waited by the time their drops
are due. -/
theorem pop_sound_iff (hclock : ∀ i j, i ≤ j → clock i ≤ clock j) (target window : UInt64)
    (maxEntries : Nat) (calls : List (CodelCall T)) :
    let s := run nextDrop clock target window maxEntries calls
    PopSound clock s.2 s.1 (pop nextDrop clock s.2 s.1) ↔ DueWaited nextDrop clock s.2 s.1 := by
  intro s
  have hspec : PopSpec nextDrop clock s.2 s.1 (pop nextDrop clock s.2 s.1) :=
    pop_spec nextDrop clock (stamped_run nextDrop clock hclock target window maxEntries calls)
  refine ⟨fun h => hspec.waited_iff.mp h.waited, fun h => ?_⟩
  exact ⟨hspec.toInOrder, hspec.waited_iff.mpr h⟩

/-- When drops are due for a window of one: its share by the square root of the count, cut to
a whole number. -/
def nextDropOne (t : UInt64) (count : UInt32) : UInt64 := if count = 1 then t + 1 else t

def sampleClock (i : Nat) : UInt64 := if i < 10 then UInt64.ofNat i else 1000

theorem sampleClock_le (i j : Nat) (h : i ≤ j) : sampleClock i ≤ sampleClock j := by
  unfold sampleClock
  split_ifs
  · rw [UInt64.le_iff_toNat_le, UInt64.toNat_ofNat', UInt64.toNat_ofNat']
    omega
  · rw [UInt64.le_iff_toNat_le, UInt64.toNat_ofNat', show (1000 : UInt64).toNat = 1000 from rfl]
    omega
  · omega
  · exact UInt64.le_refl _

theorem first_drop_sound :
    let s := run nextDropOne sampleClock 1 1 0 [.push 'a', .pop, .push 'b', .push 'c']
    PopSound sampleClock s.2 s.1 (pop nextDropOne sampleClock s.2 s.1) :=
  (pop_sound_iff nextDropOne sampleClock sampleClock_le 1 1 0
    [.push 'a', .pop, .push 'b', .push 'c']).mpr fun _ _ h => absurd h (by decide)

/-- The last entry is dropped as soon as it is pushed. -/
theorem timely_entry_dropped :
    let s := run nextDropOne sampleClock 1 1 0
      [.push 'a', .pop, .push 'b', .push 'c', .pop, .push 'd', .push 'e']
    (∀ i j, i ≤ j → sampleClock i ≤ sampleClock j) ∧
      ¬PopSound sampleClock s.2 s.1 (pop nextDropOne sampleClock s.2 s.1) := by
  refine ⟨sampleClock_le, fun h => ?_⟩
  have hwaited := h.waited ⟨⟨1000, 'e'⟩, 1000⟩ (by decide)
  exact absurd hwaited (by unfold Waited; decide)

end Codel

end Upf.Bess
