import Upf.Bess.TernaryRules
import Upf.Lib.Run

/-!
# A lookup while rules change

Rule commands run beside the workers.  A worker looks at the slots without locks:
it reads whether a slot is occupied, then its mask, then looks the masked key up
in its table, and between any two of these a command may write.  A command that
rewrites the mask of a slot with a table first waits for the workers to stop, which
they do between two batches only, never in the middle of a lookup.

The state carries what was live at each moment since the lookup began.

Main result: `lookup_is_right`.
-/

namespace Upf.Bess

open Lib List Option WildcardMatch Slots

/-- What a worker reads next of a slot. -/
inductive Stage where
  | check
  | mask
  | probe (mask : List UInt8)
deriving DecidableEq

/-- A worker, with what was live at the moments of its lookup.  It has crashed
if it found no table. -/
inductive Worker where
  | idle
  | scanning (slot : Nat) (stage : Stage) (result : Option WmData)
      (moments : List (List TernaryRule))
  | returned (result : Option WmData) (moments : List (List TernaryRule))
  | crashed
deriving DecidableEq

namespace Worker

def busy : Worker → Bool
  | .scanning .. => true
  | _ => false

def pass (live : List TernaryRule) : Worker → Worker
  | .scanning i stage result moments => .scanning i stage result (live :: moments)
  | worker => worker

def moments : Worker → List (List TernaryRule)
  | .scanning _ _ _ moments => moments
  | .returned _ moments => moments
  | _ => []

def read (key : Buffer) (ts : Slots) : Worker → Option Worker
  | .scanning i .check result moments =>
    match ts[i]? with
    | none => some (.returned result moments)
    | some t =>
      if t.occupied then some (.scanning i .mask result moments)
      else some (.scanning (i + 1) .check result moments)
  | .scanning i .mask result moments =>
    ts[i]?.map fun t => .scanning i (.probe t.mask) result moments
  | .scanning i (.probe mask) result moments =>
    ts[i]?.map fun t =>
      match t.ht with
      | none => .crashed
      | some ht =>
        match ht.lookup (maskKey key mask) with
        | none => .scanning (i + 1) .check result moments
        | some entry => .scanning (i + 1) .check (WildcardMatch.keepHigher result entry) moments
  | _ => none

end Worker

/-- The writes of a command.  Clearing frees tables and has no place here. -/
def Command.plan {A : Type} (wm : WildcardMatch A) : Command → Option Plan
  | .add room arg => some (planAdd room arg wm)
  | .delete arg => some (planDelete arg wm)
  | .clear => none

def SlotWrite.isPause : SlotWrite → Bool
  | .pause => true
  | _ => false

/-- The module, the rules that are live, the writes the current command has still
to make, and a worker. -/
structure Race (A : Type) where
  wm : WildcardMatch A
  live : List TernaryRule := []
  slot : Nat := 0
  writes : List SlotWrite := []
  paused : Bool := false
  worker : Worker := .idle

inductive Action where
  | command (c : Command)
  | write
  | begin
  | read

namespace Race

variable {A : Type}

def start (fields values : List (Field A)) (defaultGate : GateIdx) : Race A where
  wm := { fields, values, defaultGate }

def written (s : Race A) (w : SlotWrite) : Slots := s.wm.tuples.modify s.slot w.apply

/-- One step: a command is taken up when the one before is done; a pause waits for
the worker; a lookup does not begin during a pause. -/
def act (key : Buffer) : Action → Race A → Option (Race A)
  | .command c, s =>
    if s.writes.isEmpty then
      (c.plan s.wm).map fun p => { s with slot := p.slot, writes := p.writes }
    else none
  | .write, s =>
    match s.writes with
    | [] => none
    | w :: ws =>
      if w.isPause && s.worker.busy then none
      else some
        { s with
          wm := { s.wm with tuples := s.written w }
          live := w.live s.live
          writes := ws
          paused := w.pausing s.paused
          worker := s.worker.pass (w.live s.live) }
  | .begin, s =>
    if s.paused || s.worker.busy then none
    else some { s with worker := .scanning 0 .check none [s.live] }
  | .read, s => (s.worker.read key s.wm.tuples).map fun worker => { s with worker }

section Invariant

variable {key : Buffer} {ts : Slots} {i : Nat} {live : List TernaryRule}
  {moments : List (List TernaryRule)} {result : Option WmData}

def Throughout (moments : List (List TernaryRule)) (r : TernaryRule) : Prop :=
  ∀ live ∈ moments, r ∈ live

def Found (key : Buffer) (moments : List (List TernaryRule)) (result : Option WmData) : Prop :=
  ∀ d, result = some d → ∃ live ∈ moments, ∃ r ∈ live, r.Matches key ∧ r.stored.data = d

/-- What was found is not below a rule in the slots already looked at that is
live all along and matches. -/
def Passed (key : Buffer) (ts : Slots) (i : Nat) (moments : List (List TernaryRule))
    (result : Option WmData) : Prop :=
  ∀ r, Throughout moments r → r.Matches key → ∀ (j : Nat) (t : WmTuple), ts[j]? = some t →
    t.occupied = true → t.mask = r.mask → j < i →
    ∃ d, result = some d ∧ toInt32 r.priority ≤ d.priority

/-- What a worker knows of the slot it looks at: once it has seen the slot
occupied there is a table, and the mask it has read is the slot's. -/
def StageHolds (ts : Slots) (i : Nat) : Stage → Prop
  | .check => True
  | .mask => ∃ t, ts[i]? = some t ∧ t.ht.isSome = true
  | .probe mask => ∃ t, ts[i]? = some t ∧ t.ht.isSome = true ∧ t.mask = mask

def WorkerHolds (key : Buffer) (ts : Slots) (live : List TernaryRule) : Worker → Prop
  | .idle => True
  | .scanning i stage result moments =>
    live ∈ moments ∧ StageHolds ts i stage ∧ Found key moments result ∧
      Passed key ts i moments result
  | .returned result moments =>
    Found key moments result ∧ ∀ r, Throughout moments r → r.Matches key →
      ∃ d, result = some d ∧ toInt32 r.priority ≤ d.priority
  | .crashed => False

/-- The state of the race is in order: the slots are, they hold the live rules,
what the command has still to write is safe, and the worker is not misled. -/
structure Inv (key : Buffer) (s : Race A) : Prop where
  wf : Slots.Wf s.wm.tuples
  holds : Slots.Holds s.wm.tuples s.live
  slot_lt : s.slot < s.wm.tuples.length
  safely : ∀ t, s.wm.tuples[s.slot]? = some t →
    SlotWrite.Safely (OtherMask s.wm.tuples s.slot) s.paused t s.writes
  quiet : s.paused = true → s.worker.busy = false
  worker : WorkerHolds key s.wm.tuples s.live s.worker

section Writes

variable {p : Nat} {t : WmTuple} {w : SlotWrite} {paused : Bool}

theorem safe_keeps {other : List UInt8 → Prop} (hsafe : w.Safe other false t)
    (htable : t.ht.isSome = true) :
    (w.apply t).ht.isSome = true ∧ (w.apply t).mask = t.mask := by
  cases w with
  | pause => exact ⟨htable, rfl⟩
  | resume => exact ⟨htable, rfl⟩
  | setMask =>
    rcases hsafe.2 with hnone | hpaused
    · rw [hnone] at htable
      cases htable
    · cases hpaused
  | setTable =>
    rw [hsafe.2] at htable
    cases htable
  | setOccupied => exact ⟨htable, rfl⟩
  | insert => exact ⟨by simpa [SlotWrite.apply] using htable, rfl⟩
  | remove => exact ⟨by simpa [SlotWrite.apply] using htable, rfl⟩

theorem safe_stays {r : WmRule} {j : Nat} {u : WmTuple} (hslot : ts[p]? = some t)
    (hsafe : w.Safe (OtherMask ts p) paused t) (hu : ts[j]? = some u)
    (hr : r ∈ WildcardMatch.tupleRules u) :
    ∃ u', (ts.modify p w.apply)[j]? = some u' ∧ u'.occupied = true ∧ u'.mask = r.mask := by
  rcases tupleRules_mask hr with ⟨hocc, hmask⟩
  by_cases hj : j = p
  · subst hj
    obtain rfl : u = t := Option.some.inj (hu.symm.trans hslot)
    refine ⟨w.apply u, getElem?_modify_self hslot, ?_⟩
    cases w with
    | pause => exact ⟨hocc, hmask⟩
    | resume => exact ⟨hocc, hmask⟩
    | setMask => exact absurd (hsafe.1.symm.trans hocc) (by simp)
    | setTable => exact absurd (hsafe.1.symm.trans hocc) (by simp)
    | setOccupied occupied =>
      cases occupied with
      | true => exact ⟨rfl, hmask⟩
      | false =>
        rw [tupleRules_empty hsafe] at hr
        exact absurd hr not_mem_nil
    | insert => exact ⟨hocc, hmask⟩
    | remove => exact ⟨hocc, hmask⟩
  · exact ⟨u, by rwa [getElem?_modify_ne hj], hocc, hmask⟩

theorem StageHolds.write {stage : Stage} (h : StageHolds ts i stage) (hslot : ts[p]? = some t)
    (hsafe : w.Safe (OtherMask ts p) false t) : StageHolds (ts.modify p w.apply) i stage := by
  have hkeep : ∀ u, ts[i]? = some u → u.ht.isSome = true →
      ∃ u', (ts.modify p w.apply)[i]? = some u' ∧ u'.ht.isSome = true ∧ u'.mask = u.mask := by
    intro u hu htable
    by_cases hi : i = p
    · subst hi
      obtain rfl : u = t := Option.some.inj (hu.symm.trans hslot)
      exact ⟨w.apply u, getElem?_modify_self hslot, safe_keeps hsafe htable⟩
    · exact ⟨u, by rwa [getElem?_modify_ne hi], htable, rfl⟩
  cases stage with
  | check => trivial
  | mask =>
    rcases h with ⟨u, hu, htable⟩
    rcases hkeep u hu htable with ⟨u', hu', htable', -⟩
    exact ⟨u', hu', htable'⟩
  | probe =>
    rcases h with ⟨u, hu, htable, hmask⟩
    rcases hkeep u hu htable with ⟨u', hu', htable', hmask'⟩
    exact ⟨u', hu', htable', hmask'.trans hmask⟩

theorem Passed.write {live' : List TernaryRule} (h : Passed key ts i moments result)
    (hwf : Slots.Wf ts) (hholds : Slots.Holds ts live) (hnow : live ∈ moments)
    (hslot : ts[p]? = some t) (hsafe : w.Safe (OtherMask ts p) paused t) :
    Passed key (ts.modify p w.apply) i (live' :: moments) result := by
  intro r hthrough hmatch j u hu hocc hmask hj
  have hthrough' : Throughout moments r := fun l hl => hthrough l (mem_cons_of_mem _ hl)
  rcases mem_rules.mp ((hholds r.stored).mpr ⟨r, hthrough' live hnow, rfl⟩) with
    ⟨k, v, hv, hr⟩
  rcases safe_stays hslot hsafe hv hr with ⟨v', hv', hocc', hmask'⟩
  have hkj : k = j := by
    by_contra hne
    exact (hwf.write hslot hsafe).distinct j u hu hocc
      ⟨k, v', hne, hv', hocc', hmask'.trans hmask.symm⟩
  subst hkj
  rcases tupleRules_mask hr with ⟨hvocc, hvmask⟩
  exact h r hthrough' hmatch k v hv hvocc hvmask hj

theorem WorkerHolds.write {worker : Worker} {live' : List TernaryRule}
    (h : WorkerHolds key ts live worker) (hwf : Slots.Wf ts) (hholds : Slots.Holds ts live)
    (hslot : ts[p]? = some t)
    (hsafe : w.Safe (OtherMask ts p) paused t) (hrun : worker.busy = true → paused = false) :
    WorkerHolds key (ts.modify p w.apply) live' (worker.pass live') := by
  cases worker with
  | idle => trivial
  | scanning =>
    rcases h with ⟨hnow, hstage, hfound, hpassed⟩
    refine ⟨mem_cons_self, ?_, ?_, hpassed.write hwf hholds hnow hslot hsafe⟩
    · rw [hrun rfl] at hsafe
      exact hstage.write hslot hsafe
    · intro d hd
      rcases hfound d hd with ⟨l, hl, hr⟩
      exact ⟨l, mem_cons_of_mem _ hl, hr⟩
  | returned => exact h
  | crashed => exact h

end Writes

theorem Passed.skip (h : Passed key ts i moments result)
    (hfree : ∀ t, ts[i]? = some t → t.occupied = false) : Passed key ts (i + 1) moments result := by
  intro r hthrough hmatch j t ht hocc hmask hj
  by_cases hji : j = i
  · subst hji
    exact absurd ((hfree t ht).symm.trans hocc) (by simp)
  · exact h r hthrough hmatch j t ht hocc hmask (by omega)

variable {ht : WmTable}

theorem lookup_of_live {r : TernaryRule} {t : WmTuple} (hwf : Slots.Wf ts)
    (hholds : Slots.Holds ts live) (hr : r ∈ live) (hmatch : r.Matches key)
    (hslot : ts[i]? = some t) (hocc : t.occupied = true) (hmask : t.mask = r.mask)
    (htable : t.ht = some ht) : ht.lookup (maskKey key t.mask) = some r.stored.data := by
  have hmem := (hholds r.stored).mpr ⟨r, hr, rfl⟩
  have hin := (hwf.mem_rules_iff hslot hocc hmask.symm).mp hmem
  rcases (mem_tupleRules.mp hin).2.2 with ⟨ht', htable', hlook⟩
  obtain rfl : ht' = ht := Option.some.inj (htable'.symm.trans htable)
  rw [hmask]
  have hkey : maskKey key r.mask = r.key := hmatch
  rw [hkey]
  exact hlook

theorem live_of_lookup {t : WmTuple} {d : WmData} (hwf : Slots.Wf ts)
    (hholds : Slots.Holds ts live) (hslot : ts[i]? = some t) (htable : t.ht = some ht)
    (hlook : ht.lookup (maskKey key t.mask) = some d) :
    ∃ r ∈ live, r.Matches key ∧ r.stored.data = d := by
  -- The table is not empty, so the slot is occupied.
  have hocc : t.occupied = true := by
    by_contra hfree
    rw [Bool.not_eq_true] at hfree
    rw [hwf.released i t hslot hfree ht htable, AList.lookup_empty] at hlook
    cases hlook
  have hmem : (⟨t.mask, maskKey key t.mask, d⟩ : WmRule) ∈ Slots.rules ts :=
    mem_rules.mpr
      ⟨i, t, hslot, mem_tupleRules.mpr ⟨hocc, rfl, ht, htable, hlook⟩⟩
  rcases (hholds _).mp hmem with ⟨r, hr, hstored⟩
  rcases r with ⟨rmask, rkey, priority, gate, keyv⟩
  have hrmask : rmask = t.mask := congrArg WmRule.mask hstored
  have hrkey : rkey = maskKey key t.mask := congrArg WmRule.key hstored
  refine ⟨_, hr, ?_, congrArg WmRule.data hstored⟩
  change maskKey key rmask = rkey
  rw [hrmask, hrkey]

theorem Passed.hit {t : WmTuple} {d : WmData} (h : Passed key ts i moments result)
    (hwf : Slots.Wf ts) (hholds : Slots.Holds ts live) (hnow : live ∈ moments)
    (hslot : ts[i]? = some t) (htable : t.ht = some ht)
    (hlook : ht.lookup (maskKey key t.mask) = some d) :
    Passed key ts (i + 1) moments (WildcardMatch.keepHigher result d) := by
  intro r hthrough hmatch j u hu hocc hmask hj
  rcases keepHigher_spec result d with ⟨b, hb, -, hdb, hresult⟩
  refine ⟨b, hb, ?_⟩
  by_cases hji : j = i
  · subst hji
    obtain rfl : u = t := Option.some.inj (hu.symm.trans hslot)
    have hown := lookup_of_live hwf hholds (hthrough live hnow) hmatch hu hocc hmask htable
    rw [hlook, some.injEq] at hown
    rw [hown] at hdb
    exact hdb
  · rcases h r hthrough hmatch j u hu hocc hmask (by omega) with ⟨d', hd', hle⟩
    exact hle.trans (hresult d' hd')

theorem Passed.miss {t : WmTuple} (h : Passed key ts i moments result)
    (hwf : Slots.Wf ts) (hholds : Slots.Holds ts live) (hnow : live ∈ moments)
    (hslot : ts[i]? = some t) (htable : t.ht = some ht)
    (hlook : ht.lookup (maskKey key t.mask) = none) : Passed key ts (i + 1) moments result := by
  intro r hthrough hmatch j u hu hocc hmask hj
  by_cases hji : j = i
  · subst hji
    obtain rfl : u = t := Option.some.inj (hu.symm.trans hslot)
    have hown := lookup_of_live hwf hholds (hthrough live hnow) hmatch hu hocc hmask htable
    rw [hlook] at hown
    cases hown
  · exact h r hthrough hmatch j u hu hocc hmask (by omega)

theorem WorkerHolds.read {worker worker' : Worker} (h : WorkerHolds key ts live worker)
    (hwf : Slots.Wf ts) (hholds : Slots.Holds ts live)
    (hread : worker.read key ts = some worker') : WorkerHolds key ts live worker' := by
  cases worker with
  | idle => exact absurd hread (by simp [Worker.read])
  | returned => exact absurd hread (by simp [Worker.read])
  | crashed => exact absurd hread (by simp [Worker.read])
  | scanning i stage result =>
    rcases h with ⟨hnow, hstage, hfound, hpassed⟩
    cases stage with
    | check =>
      dsimp only [Worker.read] at hread
      cases hslot : ts[i]? with
      | none =>
        rw [hslot] at hread
        cases hread
        refine ⟨hfound, fun r hthrough hmatch => ?_⟩
        -- The slot of a rule is one of those that were looked at.
        rcases mem_rules.mp ((hholds r.stored).mpr ⟨r, hthrough live hnow, rfl⟩) with
          ⟨j, t, ht, hr⟩
        rcases tupleRules_mask hr with ⟨hocc, hmask⟩
        have hj := (List.getElem?_eq_some_iff.mp ht).1
        exact hpassed r hthrough hmatch j t ht hocc hmask
          (hj.trans_le (getElem?_eq_none_iff.mp hslot))
      | some t =>
        rw [hslot] at hread
        dsimp only at hread
        split_ifs at hread with hocc
        · cases hread
          exact ⟨hnow, ⟨t, hslot, hwf.table i t hslot hocc⟩, hfound, hpassed⟩
        · cases hread
          refine ⟨hnow, trivial, hfound, hpassed.skip fun u hu => ?_⟩
          rw [Option.some.inj (hu.symm.trans hslot)]
          simpa using hocc
    | mask =>
      rcases hstage with ⟨t, hslot, htable⟩
      simp only [Worker.read, hslot, map_some, some.injEq] at hread
      rw [← hread]
      exact ⟨hnow, ⟨t, hslot, htable, rfl⟩, hfound, hpassed⟩
    | probe =>
      rcases hstage with ⟨t, hslot, htable, rfl⟩
      rcases isSome_iff_exists.mp htable with ⟨ht, hht⟩
      simp only [Worker.read, hslot, map_some, hht, some.injEq] at hread
      cases hlook : ht.lookup (maskKey key t.mask) with
      | none =>
        rw [hlook] at hread
        rw [← hread]
        exact ⟨hnow, trivial, hfound, hpassed.miss hwf hholds hnow hslot hht hlook⟩
      | some d =>
        rw [hlook] at hread
        rw [← hread]
        refine ⟨hnow, trivial, fun d' hd' => ?_,
          hpassed.hit hwf hholds hnow hslot hht hlook⟩
        rcases keepHigher_spec result d with ⟨b, hb, hfrom, -, -⟩
        obtain rfl : b = d' := Option.some.inj (hb.symm.trans hd')
        rcases hfrom with hfrom | rfl
        · exact hfound b hfrom
        · rcases live_of_lookup hwf hholds hslot hht hlook with ⟨r, hr, hmatch, hdata⟩
          exact ⟨live, hnow, r, hr, hmatch, hdata⟩

theorem Inv.start {fields values : List (Field A)} {defaultGate : GateIdx} :
    (start fields values defaultGate).Inv key := by
  have hinv := @Classifier.Inv.start A fields values defaultGate
  exact ⟨hinv.settled.toWf, hinv.holds, hinv.settled.size_pos, fun _ _ => rfl, by simp [Race.start],
    trivial⟩

theorem Command.plan_safe {wm : WildcardMatch A} {c : Command} {plan : Plan}
    (h : Slots.Wf wm.tuples) (hsize : 0 < wm.tuples.length) (hplan : c.plan wm = some plan) :
    plan.Safe wm.tuples := by
  cases c with
  | add room arg =>
    cases hplan
    exact planAdd_safe room arg h hsize
  | delete arg =>
    cases hplan
    exact planDelete_safe arg h hsize
  | clear => cases hplan

theorem Inv.act {s s' : Race A} {a : Action} (h : s.Inv key) (hact : Race.act key a s = some s') :
    s'.Inv key := by
  cases a with
  | command =>
    dsimp only [Race.act] at hact
    split_ifs at hact with hdone
    rcases map_eq_some_iff.mp hact with ⟨plan, hplan, rfl⟩
    have hsafe := Command.plan_safe h.wf (Nat.zero_lt_of_lt h.slot_lt) hplan
    -- The command before has resumed the workers.
    have hrun : s.paused = false := by
      have hslot := getElem?_eq_getElem h.slot_lt
      have hrest := h.safely _ hslot
      rwa [isEmpty_iff.mp hdone] at hrest
    refine ⟨h.wf, h.holds, hsafe.slot_lt, ?_, h.quiet, h.worker⟩
    dsimp only
    rw [hrun]
    exact hsafe.safely
  | write =>
    dsimp only [Race.act] at hact
    cases hwrites : s.writes with
    | nil =>
      rw [hwrites] at hact
      cases hact
    | cons w =>
      rw [hwrites] at hact
      dsimp only at hact
      split_ifs at hact with hwait
      cases hact
      have hlt := h.slot_lt
      have hslot : s.wm.tuples[s.slot]? = some s.wm.tuples[s.slot] :=
        getElem?_eq_getElem hlt
      have hsafe := h.safely _ hslot
      rw [hwrites] at hsafe
      have hother : OtherMask (s.written w) s.slot = OtherMask s.wm.tuples s.slot :=
        funext fun mask => propext otherMask_modify
      refine ⟨h.wf.write hslot hsafe.1, h.holds.write h.wf hslot hsafe.1, ?_, ?_, ?_, ?_⟩
      · simpa [written] using hlt
      · intro t ht
        dsimp only at ht ⊢
        have hself : (s.written w)[s.slot]? = _ := getElem?_modify_self hslot
        rw [Option.some.inj (ht.symm.trans hself), hother]
        exact hsafe.2
      · intro hpaused
        dsimp only at hpaused ⊢
        have hbusy : (s.worker.pass (w.live s.live)).busy = s.worker.busy := by
          cases s.worker <;> rfl
        rw [hbusy]
        cases w with
        | pause => simpa [SlotWrite.isPause] using hwait
        | resume => exact absurd hpaused (by simp [SlotWrite.pausing])
        | setMask => exact h.quiet hpaused
        | setTable => exact h.quiet hpaused
        | setOccupied => exact h.quiet hpaused
        | insert => exact h.quiet hpaused
        | remove => exact h.quiet hpaused
      · apply h.worker.write h.wf h.holds hslot hsafe.1
        intro hbusy
        by_contra hpaused
        rw [Bool.not_eq_false] at hpaused
        exact absurd ((h.quiet hpaused).symm.trans hbusy) (by simp)
  | begin =>
    dsimp only [Race.act] at hact
    split_ifs at hact with hwait
    cases hact
    rw [Bool.or_eq_true, not_or, Bool.not_eq_true, Bool.not_eq_true] at hwait
    refine ⟨h.wf, h.holds, h.slot_lt, h.safely, ?_, ?_⟩
    · intro hpaused
      exact absurd (hwait.1.symm.trans hpaused) (by simp)
    · refine ⟨mem_cons_self, trivial, fun d hd => absurd hd (by simp), ?_⟩
      intro r _ _ j t _ _ _ hj
      exact absurd hj (Nat.not_lt_zero j)
  | read =>
    dsimp only [Race.act] at hact
    rcases map_eq_some_iff.mp hact with ⟨worker, hread, rfl⟩
    refine ⟨h.wf, h.holds, h.slot_lt, h.safely, ?_, h.worker.read h.wf h.holds hread⟩
    intro hpaused
    -- A paused worker is not in the middle of a lookup and reads nothing.
    have hidle := h.quiet hpaused
    cases hworker : s.worker with
    | scanning =>
      rw [hworker] at hidle
      exact absurd hidle (by simp [Worker.busy])
    | idle =>
      rw [hworker] at hread
      exact absurd hread (by simp [Worker.read])
    | returned =>
      rw [hworker] at hread
      exact absurd hread (by simp [Worker.read])
    | crashed =>
      rw [hworker] at hread
      exact absurd hread (by simp [Worker.read])

def Fits (s : Race A) : Action → Prop
  | .command c => c.Fits s.wm s.live
  | _ => True

instance (s : Race A) : (a : Action) → Decidable (s.Fits a)
  | .command c => inferInstanceAs (Decidable (c.Fits s.wm s.live))
  | .write => isTrue trivial
  | .begin => isTrue trivial
  | .read => isTrue trivial

def RunFits (key : Buffer) : List Action → Race A → Prop
  | [], _ => True
  | a :: actions, s =>
    s.Fits a ∧
      match Race.act key a s with
      | none => True
      | some s' => RunFits key actions s'

instance decidableRunFits (key : Buffer) :
    (actions : List Action) → (s : Race A) → Decidable (RunFits key actions s)
  | [], _ => isTrue trivial
  | a :: actions, s =>
    have : Decidable (match Race.act key a s with
        | none => True
        | some s' => RunFits key actions s') :=
      match Race.act key a s with
      | none => isTrue trivial
      | some s' => decidableRunFits key actions s'
    inferInstanceAs (Decidable (_ ∧ _))

def WritesFit : List TernaryRule → List SlotWrite → Prop
  | _, [] => True
  | live, w :: ws => (∀ r, w = .insert r → r.Fits live) ∧ WritesFit (w.live live) ws

theorem writesFit_of_no_insert {ws : List SlotWrite} (h : ∀ r, .insert r ∉ ws)
    (live : List TernaryRule) : WritesFit live ws := by
  induction ws generalizing live with
  | nil => trivial
  | cons w ws ih =>
    refine ⟨fun r hr => ?_, ih (fun r hr => h r (mem_cons_of_mem _ hr)) _⟩
    exact absurd (hr ▸ mem_cons_self) (h r)

theorem writesFit_append {ws : List SlotWrite} {r : TernaryRule} (h : ∀ w ∈ ws, w.quiet = true)
    (hfits : r.Fits live) : WritesFit live (ws ++ [.insert r]) := by
  induction ws with
  | nil =>
    refine ⟨fun r' hr' => ?_, trivial⟩
    cases hr'
    exact hfits
  | cons w ws ih =>
    have hquiet := h w mem_cons_self
    refine ⟨fun r' hr' => ?_, ?_⟩
    · rw [hr'] at hquiet
      exact absurd hquiet (by simp [SlotWrite.quiet])
    · rw [SlotWrite.live_of_quiet hquiet]
      exact ih fun w' hw' => h w' (mem_cons_of_mem _ hw')

theorem Command.plan_fits {wm : WildcardMatch A} {c : Command} {plan : Plan}
    (h : Slots.Wf wm.tuples) (hfits : c.Fits wm live) (hplan : c.plan wm = some plan) :
    WritesFit live plan.writes := by
  cases c with
  | clear => cases hplan
  | delete =>
    cases hplan
    apply writesFit_of_no_insert
    intro r hr
    unfold planDelete at hr
    split at hr
    · exact absurd hr not_mem_nil
    · split at hr
      · exact absurd hr not_mem_nil
      · dsimp only at hr
        split_ifs at hr <;> simp at hr
  | add room arg =>
    cases hplan
    unfold planAdd
    dsimp only [Command.Fits] at hfits
    cases hrule : wm.rule arg with
    | error => trivial
    | ok r =>
      rw [hrule] at hfits
      dsimp only at hfits ⊢
      cases hws : slotWrites wm.tuples r.mask with
      | error => trivial
      | ok =>
        rcases slotWrites_ready h hws with ⟨t, -, -, -, -, hquiet, -⟩
        dsimp only
        split_ifs
        · exact writesFit_append hquiet hfits
        · apply writesFit_of_no_insert
          intro r' hr'
          exact absurd (hquiet _ hr') (by simp [SlotWrite.quiet])

/-- The rules live now and at the moments of the lookup are comparable, and what
is still to be written fits. -/
structure Ordered (s : Race A) : Prop where
  live : TernaryRule.Sound s.live
  writes : WritesFit s.live s.writes
  moments : ∀ live ∈ s.worker.moments, TernaryRule.Sound live

theorem sound_write {w : SlotWrite} (h : TernaryRule.Sound live)
    (hfits : ∀ r, w = .insert r → r.Fits live) : TernaryRule.Sound (w.live live) := by
  cases w with
  | insert r => exact h.install (hfits r rfl)
  | remove => exact h.subset fun r hr => (TernaryRule.mem_discard.mp hr).1
  | pause => exact h
  | resume => exact h
  | setMask => exact h
  | setTable => exact h
  | setOccupied => exact h

theorem moments_read {worker worker' : Worker} (hread : worker.read key ts = some worker') :
    ∀ live ∈ worker'.moments, live ∈ worker.moments := by
  cases worker with
  | idle => exact absurd hread (by simp [Worker.read])
  | returned => exact absurd hread (by simp [Worker.read])
  | crashed => exact absurd hread (by simp [Worker.read])
  | scanning i stage =>
    intro live hlive
    cases stage with
    | check =>
      dsimp only [Worker.read] at hread
      split at hread
      · cases hread
        exact hlive
      · split_ifs at hread
        · cases hread
          exact hlive
        · cases hread
          exact hlive
    | mask =>
      rcases map_eq_some_iff.mp hread with ⟨t, -, rfl⟩
      exact hlive
    | probe mask =>
      rcases map_eq_some_iff.mp hread with ⟨t, -, rfl⟩
      revert hlive
      cases t.ht with
      | none => simp [Worker.moments]
      | some ht =>
        dsimp only
        cases ht.lookup (maskKey key mask) <;> exact id

theorem Ordered.act {s s' : Race A} {a : Action} (h : s.Ordered) (hinv : s.Inv key)
    (hfits : s.Fits a) (hact : Race.act key a s = some s') : s'.Ordered := by
  cases a with
  | command =>
    dsimp only [Race.act] at hact
    split_ifs at hact
    rcases map_eq_some_iff.mp hact with ⟨plan, hplan, rfl⟩
    exact ⟨h.live, Command.plan_fits hinv.wf hfits hplan, h.moments⟩
  | write =>
    dsimp only [Race.act] at hact
    cases hwrites : s.writes with
    | nil =>
      rw [hwrites] at hact
      cases hact
    | cons =>
      rw [hwrites] at hact
      dsimp only at hact
      split_ifs at hact
      cases hact
      have hfit := h.writes
      rw [hwrites] at hfit
      have hsound := sound_write h.live hfit.1
      refine ⟨hsound, hfit.2, ?_⟩
      have hmoments := h.moments
      dsimp only
      cases hworker : s.worker with
      | scanning =>
        rw [hworker] at hmoments
        intro live hlive
        rcases mem_cons.mp hlive with rfl | hlive
        · exact hsound
        · exact hmoments live hlive
      | idle => simp [Worker.pass, Worker.moments]
      | crashed => simp [Worker.pass, Worker.moments]
      | returned =>
        rw [hworker] at hmoments
        exact hmoments
  | begin =>
    dsimp only [Race.act] at hact
    split_ifs at hact
    cases hact
    refine ⟨h.live, h.writes, fun live hlive => ?_⟩
    rw [mem_singleton.mp hlive]
    exact h.live
  | read =>
    dsimp only [Race.act] at hact
    rcases map_eq_some_iff.mp hact with ⟨worker, hread, rfl⟩
    exact ⟨h.live, h.writes, fun live hlive => h.moments live (moments_read hread live hlive)⟩

/-- A run whose commands add only rules that fit stays in order, priorities
included. -/
theorem run_ordered {actions : List Action} {s s' : Race A} (hinv : s.Inv key) (h : s.Ordered)
    (hfits : RunFits key actions s) (hrun : runAll (Race.act key) actions s = some s') :
    s'.Inv key ∧ s'.Ordered := by
  induction actions generalizing s with
  | nil =>
    cases hrun
    exact ⟨hinv, h⟩
  | cons a actions ih =>
    rcases bind_eq_some_iff.mp hrun with ⟨s₁, hact, hrest⟩
    have hrestFits := hfits.2
    rw [hact] at hrestFits
    exact ih (hinv.act hact) (h.act hinv hfits.1 hact) hrestFits hrest

end Invariant

/-- In every interleaving of lookups with commands that add only rules that fit: a
rule that is returned was live at some moment of the lookup and matches; and a
matching rule that is live at all moments, and exceeds in priority every other rule
live at any of them, is the one returned. -/
theorem lookup_is_right (layout : KeyLayout A) (values : List (Field A))
    (defaultGate : GateIdx) (key : Buffer) (actions : List Action) (s : Race A)
    (result : Option WmData) (moments : List (List TernaryRule))
    (hrun : runAll (act key) actions (start layout.fields values defaultGate) = some s)
    (hfits : RunFits key actions (start layout.fields values defaultGate))
    (hreturned : s.worker = .returned result moments) :
    (∀ d, result = some d → ∃ live ∈ moments, ∃ r ∈ live, r.Matches key ∧ r.stored.data = d) ∧
      ∀ r : TernaryRule, (∀ live ∈ moments, r ∈ live) → r.Matches key →
        (∀ live ∈ moments, ∀ r' ∈ live, r' ≠ r → r'.priority < r.priority) →
        result = some r.stored.data := by
  have hstart : (start layout.fields values defaultGate).Ordered :=
    ⟨⟨by simp [start], by simp [start]⟩, trivial, by simp [start, Worker.moments]⟩
  rcases run_ordered Inv.start hstart hfits hrun with ⟨hinv, hordered⟩
  have hworker := hinv.worker
  have hmoments := hordered.moments
  rw [hreturned] at hworker hmoments
  refine ⟨hworker.1, fun r hthrough hmatch hbest => ?_⟩
  rcases hworker.2 r hthrough hmatch with ⟨d, hd, hle⟩
  rcases hworker.1 d hd with ⟨live, hlive, r', hr', -, rfl⟩
  by_cases hsame : r' = r
  · rw [hd, hsame]
  · -- Both were live at that moment, so they are ordered as they are stored.
    have hlt := hbest live hlive r' hr' hsame
    have hcomp := (hmoments live hlive).comparable r' hr' r (hthrough live hlive)
    exact absurd hle (not_le.mpr (hcomp.1 hlt))

def byteRace : Race Unit := start [⟨.offset 0, 1⟩] [] dropGate

/-- Two rules are added.  A lookup has seen the first slot, then something is done
behind it, and the lookup goes on. -/
def byteActions (priority priority' : Int) (behind : List Action) : List Action :=
  [.command (Classifier.byteRule priority 1 5 255), .write, .write, .write, .write,
    .command (Classifier.byteRule priority' 2 0 0), .write, .write, .write, .write,
    .begin, .read, .read, .read] ++ behind ++ List.replicate 18 .read

def byteDelete : List Action :=
  [.command (.delete { values := [intEnc 5], masks := [intEnc 255] }), .write, .write]

/-- The first rule is found and deleted.  The second stays, is the best one, and is
returned. -/
theorem lookup_is_right_deleting :
    RunFits (fun _ => 5) (byteActions 1 2 byteDelete) byteRace ∧
      ∃ s result moments,
        runAll (act fun _ => 5) (byteActions 1 2 byteDelete) byteRace = some s ∧
        s.worker = .returned result moments ∧ result = some ⟨2, 2, []⟩ := by
  have hfits : RunFits (fun _ => 5) (byteActions 1 2 byteDelete) byteRace := by decide
  have hreturned : (runAll (act fun _ => 5) (byteActions 1 2 byteDelete) byteRace).map
      Race.worker = some (.returned (some ⟨2, 2, []⟩) _) := rfl
  rcases map_eq_some_iff.mp hreturned with ⟨s, hrun, hworker⟩
  refine ⟨hfits, s, _, _, hrun, hworker, ?_⟩
  apply (lookup_is_right ⟨[⟨.offset 0, 1⟩], by decide, by decide⟩ _ _ _ _ s _ _ hrun hfits
    hworker).2
    ⟨[0, 0, 0, 0, 0, 0, 0, 0], [0, 0, 0, 0, 0, 0, 0, 0], 2, 2, []⟩
  all_goals decide

/-- A rule whose priority does not fit 32 bits is live all along, matches and
exceeds the only other rule, but the other one is returned. -/
theorem narrowed_priority_not_returned :
    ∃ s moments, runAll (act fun _ => 5) (byteActions (2 ^ 31) 0 []) byteRace = some s ∧
      s.worker = .returned (some ⟨0, 2, []⟩) moments ∧
      ∃ r : TernaryRule, (∀ live ∈ moments, r ∈ live) ∧ r.Matches (fun _ => 5) ∧
        (∀ live ∈ moments, ∀ r' ∈ live, r' ≠ r → r'.priority < r.priority) ∧
        some ⟨0, 2, []⟩ ≠ some r.stored.data := by
  have hreturned : (runAll (act fun _ => 5) (byteActions (2 ^ 31) 0 []) byteRace).map
      Race.worker = some (.returned (some ⟨0, 2, []⟩) _) := rfl
  rcases map_eq_some_iff.mp hreturned with ⟨s, hrun, hworker⟩
  refine ⟨s, _, hrun, hworker,
    ⟨[255, 0, 0, 0, 0, 0, 0, 0], [5, 0, 0, 0, 0, 0, 0, 0], 2 ^ 31, 1, []⟩, ?_⟩
  decide

end Race

end Upf.Bess
