import Mathlib.Logic.Relation
import Upf.Datapath.Batch

/-!
# The workers of a batch and their join

`SendMsgToUPFWithCompletion` starts one goroutine for each rule.  A worker makes
its calls in order and stops at the first one the module refused; a call that ended
in a transport error, or at the deadline of the context, is not a refusal, and the
worker goes on.  At its end it sends whether it completed to a buffered channel.
`GRPCJoin` receives one result for each worker, unless its own timer fires first.

A call that failed on the way may still be carried out at any later moment, or never.

Main results: `honest_completion_iff`, `run_refines`.
-/

namespace Upf

open Lib List

/-! ## Calls -/

inductive RpcOutcome where
  | done
  /-- The module answered that it has no such rule. -/
  | noEntry
  /-- The module answered with another error. -/
  | moduleError
  | transportError
  | deadlineExceeded
deriving DecidableEq

namespace RpcOutcome

def lost : RpcOutcome → Bool
  | .transportError | .deadlineExceeded => true
  | .done | .noEntry | .moduleError => false

end RpcOutcome

namespace Command

def isRule : Command → Bool
  | .gtpuPathMonitoring _ _ => false
  | _ => true

def isDelete : Command → Bool
  | .pdrLookupDelete _ | .farLookupDelete _ | .qerLookupDelete _ _ => true
  | _ => false

/-- The answer stops the worker: the module declined.  The result of path
monitoring does not decide the batch. -/
def refused (c : Command) : RpcOutcome → Bool
  | .moduleError => c.isRule
  | .noEntry => c.isRule && !c.isDelete
  | .done | .transportError | .deadlineExceeded => false

def carryOut (c : Command) (t : Tables) : Tables := t.applyAll c.op.toList

end Command

inductive WorkerPhase where
  | running
  /-- On the way to its deferred send. -/
  | returning (completed : Bool)
  | ended (completed : Bool)
deriving DecidableEq

/-- A worker: the commands of its rule, if it translates, and the calls made so
far with their outcomes. -/
structure Worker where
  program : Except GoError (List Command)
  sent : List (Command × RpcOutcome) := []
  phase : WorkerPhase := .running

namespace Worker

def reported (w : Worker) : Option Bool :=
  match w.phase with
  | .ended completed => some completed
  | .running | .returning _ => none

end Worker

structure BatchRun where
  tables : Tables
  workers : List Worker
  /-- The buffer of the channel, oldest first. -/
  done : List Bool := []
  /-- Results the join is still waiting for. -/
  calls : Nat
  succeeded : Bool := true
  /-- What the join returned: completed and succeeded. -/
  returned : Option (Bool × Bool) := none
  /-- Commands of failed calls, which the datapath may still carry out. -/
  inFlight : List Command := []
  /-- The commands carried out so far, in order. -/
  applied : List Command := []
  /-- The results the join has received. -/
  received : List Bool := []

namespace BatchRun

section Steps

variable (conf : BessConf) (method : UpfMsgType) (rules : PacketForwardingRules)

def start (t : Tables) : BatchRun where
  tables := t
  workers := (Upf.workers conf method rules).map fun program => { program }
  calls := rules.pdrs.length + rules.fars.length + rules.qers.length

end Steps

/-- The steps of workers, join and datapath. -/
inductive Step : BatchRun → BatchRun → Prop where
  /-- A call that the module answered as done. -/
  | answerDone (s : BatchRun) (pre post : List Worker) (w : Worker) (cs rest : List Command)
      (c : Command) (hworkers : s.workers = pre ++ w :: post) (hprogram : w.program = .ok cs)
      (hphase : w.phase = .running) (hnext : cs = w.sent.map Prod.fst ++ c :: rest) :
      Step s { s with
        tables := c.carryOut s.tables
        applied := s.applied ++ [c]
        workers := pre ++ { w with sent := w.sent ++ [(c, .done)] } :: post }
  /-- A call that the module answered with an error.  A delete that finds no rule
  is answered so only by a module that has none under the key. -/
  | answerError (s : BatchRun) (pre post : List Worker) (w : Worker) (cs rest : List Command)
      (c : Command) (o : RpcOutcome) (hworkers : s.workers = pre ++ w :: post)
      (hprogram : w.program = .ok cs) (hphase : w.phase = .running)
      (hnext : cs = w.sent.map Prod.fst ++ c :: rest) (ho : o = .noEntry ∨ o = .moduleError)
      (habsent : o = .noEntry → c.isDelete = true → ∀ op ∈ c.op, s.tables op.key = none) :
      Step s { s with
        workers := pre ++ { w with
          sent := w.sent ++ [(c, o)]
          phase := if c.refused o then .returning false else .running } :: post }
  /-- A call that failed on the way. -/
  | lose (s : BatchRun) (pre post : List Worker) (w : Worker) (cs rest : List Command)
      (c : Command) (o : RpcOutcome) (hworkers : s.workers = pre ++ w :: post)
      (hprogram : w.program = .ok cs) (hphase : w.phase = .running)
      (hnext : cs = w.sent.map Prod.fst ++ c :: rest) (ho : o.lost = true) :
      Step s { s with
        inFlight := c :: s.inFlight
        workers := pre ++ { w with sent := w.sent ++ [(c, o)] } :: post }
  /-- The datapath carries out a command after all. -/
  | late (s : BatchRun) (c : Command) (hc : c ∈ s.inFlight) :
      Step s { s with
        tables := c.carryOut s.tables
        applied := s.applied ++ [c]
        inFlight := s.inFlight.erase c }
  /-- A worker has made all its calls. -/
  | complete (s : BatchRun) (pre post : List Worker) (w : Worker) (cs : List Command)
      (hworkers : s.workers = pre ++ w :: post) (hprogram : w.program = .ok cs)
      (hphase : w.phase = .running) (hall : cs = w.sent.map Prod.fst) :
      Step s { s with workers := pre ++ { w with phase := .returning true } :: post }
  /-- A rule does not translate. -/
  | untranslated (s : BatchRun) (pre post : List Worker) (w : Worker) (e : GoError)
      (hworkers : s.workers = pre ++ w :: post) (hprogram : w.program = .error e)
      (hphase : w.phase = .running) :
      Step s { s with workers := pre ++ { w with phase := .returning false } :: post }
  /-- The deferred send; the buffer has room for every worker. -/
  | report (s : BatchRun) (pre post : List Worker) (w : Worker) (completed : Bool)
      (hworkers : s.workers = pre ++ w :: post) (hphase : w.phase = .returning completed) :
      Step s { s with
        done := s.done ++ [completed]
        workers := pre ++ { w with phase := .ended completed } :: post }
  | receive (s : BatchRun) (ok : Bool) (rest : List Bool) (hreturned : s.returned = none)
      (hcalls : 0 < s.calls) (hdone : s.done = ok :: rest) :
      Step s { s with
        done := rest
        calls := s.calls - 1
        succeeded := s.succeeded && ok
        received := s.received ++ [ok] }
  | timeout (s : BatchRun) (hreturned : s.returned = none) (hcalls : 0 < s.calls) :
      Step s { s with returned := some (false, false) }
  | finish (s : BatchRun) (hreturned : s.returned = none) (hcalls : s.calls = 0) :
      Step s { s with returned := some (true, s.succeeded) }

def Runs (conf : BessConf) (method : UpfMsgType) (rules : PacketForwardingRules) (t : Tables)
    (s : BatchRun) : Prop :=
  Relation.ReflTransGen Step (start conf method rules t) s

/-- What the function returns once the join has. -/
def answer (completed succeeded : Bool) : Cause × Bool :=
  (if completed && !succeeded then .requestRejected else .requestAccepted, completed)

end BatchRun

/-! ## What a worker has done -/

structure Worker.Ok (w : Worker) : Prop where
  sent : ∀ cs, w.program = .ok cs → w.sent.map Prod.fst <+: cs
  running : w.phase = .running → ∀ call ∈ w.sent, call.1.refused call.2 = false
  completed : w.phase = .returning true ∨ w.phase = .ended true →
    ∃ cs, w.program = .ok cs ∧ w.sent.map Prod.fst = cs ∧
      ∀ call ∈ w.sent, call.1.refused call.2 = false
  stopped : w.phase = .returning false ∨ w.phase = .ended false →
    (∃ e, w.program = .error e) ∨ ∃ call ∈ w.sent, call.1.refused call.2 = true

namespace Worker
variable {w : Worker}

theorem Ok.call (h : w.Ok) {cs rest : List Command} {c : Command} {o : RpcOutcome}
    (hprogram : w.program = .ok cs) (hphase : w.phase = .running)
    (hnext : cs = w.sent.map Prod.fst ++ c :: rest) :
    Ok { w with
      sent := w.sent ++ [(c, o)]
      phase := if c.refused o then .returning false else .running } := by
  have hprefix : (w.sent ++ [(c, o)]).map Prod.fst <+: cs :=
    ⟨rest, by rw [hnext]; simp⟩
  constructor
  · intro cs' hcs'
    rw [hprogram, Except.ok.injEq] at hcs'
    exact hcs' ▸ hprefix
  · intro hrun call hcall
    dsimp only at hrun hcall
    rcases mem_append.mp hcall with hcall | hcall
    · exact h.running hphase call hcall
    · rw [mem_singleton] at hcall
      subst hcall
      cases href : c.refused o with
      | false => rfl
      | true => simp [href] at hrun
  · intro hend
    dsimp only at hend
    split_ifs at hend <;> simp at hend
  · intro hend
    dsimp only at hend
    cases href : c.refused o with
    | false => simp [href] at hend
    | true => exact .inr ⟨(c, o), by simp, href⟩

theorem Ok.call_running (h : w.Ok) {cs rest : List Command} {c : Command}
    {o : RpcOutcome} (hprogram : w.program = .ok cs) (hphase : w.phase = .running)
    (hnext : cs = w.sent.map Prod.fst ++ c :: rest) (ho : c.refused o = false) :
    Ok { w with sent := w.sent ++ [(c, o)] } := by
  have hcall := h.call (o := o) hprogram hphase hnext
  simp only [ho, Bool.false_eq_true, if_false] at hcall
  rw [← hphase] at hcall
  exact hcall

theorem Ok.complete (h : w.Ok) {cs : List Command} (hprogram : w.program = .ok cs)
    (hphase : w.phase = .running) (hall : cs = w.sent.map Prod.fst) :
    Ok { w with phase := .returning true } := by
  refine ⟨h.sent, by simp, ?_, by simp⟩
  intro _
  exact ⟨cs, hprogram, hall.symm, h.running hphase⟩

theorem Ok.untranslated (h : w.Ok) {e : GoError} (hprogram : w.program = .error e) :
    Ok { w with phase := .returning false } :=
  ⟨h.sent, by simp, by simp, fun _ => Or.inl ⟨e, hprogram⟩⟩

theorem Ok.report (h : w.Ok) {completed : Bool}
    (hphase : w.phase = .returning completed) : Ok { w with phase := .ended completed } := by
  refine ⟨h.sent, by simp, ?_, ?_⟩
  · intro hend
    have hcompleted : completed = true := by simpa using hend
    exact h.completed (.inl (by rw [hphase, hcompleted]))
  · intro hend
    have hcompleted : completed = false := by simpa using hend
    exact h.stopped (.inl (by rw [hphase, hcompleted]))

end Worker

namespace BatchRun

variable {conf : BessConf} {method : UpfMsgType} {rules : PacketForwardingRules} {t : Tables}
  {s s' : BatchRun}

theorem forall_mem_replace {P : Worker → Prop} {pre post : List Worker} {w w' : Worker}
    (h : ∀ v ∈ pre ++ w :: post, P v) (hw : P w → P w') : ∀ v ∈ pre ++ w' :: post, P v := by
  intro v hv
  rcases mem_append.mp hv with hv | hv
  · exact h v (mem_append_left _ hv)
  · rcases mem_cons.mp hv with rfl | hv
    · exact hw (h w (by simp))
    · exact h v (by simp [hv])

theorem Step.workers_ok (h : Step s s') (hok : ∀ w ∈ s.workers, w.Ok) :
    ∀ w ∈ s'.workers, w.Ok := by
  cases h with
  | answerDone pre post w cs rest c hworkers hprogram hphase hnext =>
    rw [hworkers] at hok
    exact forall_mem_replace hok fun hw => hw.call_running hprogram hphase hnext rfl
  | answerError pre post w cs rest c o hworkers hprogram hphase hnext =>
    rw [hworkers] at hok
    exact forall_mem_replace hok fun hw => hw.call hprogram hphase hnext
  | lose pre post w cs rest c o hworkers hprogram hphase hnext =>
    rw [hworkers] at hok
    have hrefused : c.refused o = false := by
      cases o <;> simp_all [RpcOutcome.lost, Command.refused]
    exact forall_mem_replace hok fun hw => hw.call_running hprogram hphase hnext hrefused
  | complete pre post w cs hworkers hprogram hphase hall =>
    rw [hworkers] at hok
    exact forall_mem_replace hok fun hw => hw.complete hprogram hphase hall
  | untranslated pre post w e hworkers hprogram =>
    rw [hworkers] at hok
    exact forall_mem_replace hok fun hw => hw.untranslated hprogram
  | report pre post w completed hworkers hphase =>
    rw [hworkers] at hok
    exact forall_mem_replace hok fun hw => hw.report hphase
  | _ => exact hok

theorem Step.programs (h : Step s s') :
    s'.workers.map Worker.program = s.workers.map Worker.program := by
  cases h with
  | late => rfl
  | receive => rfl
  | timeout => rfl
  | finish => rfl
  | answerDone pre post w cs rest c hworkers => simp [hworkers]
  | answerError pre post w cs rest c o hworkers => simp [hworkers]
  | lose pre post w cs rest c o hworkers => simp [hworkers]
  | complete pre post w cs hworkers => simp [hworkers]
  | untranslated pre post w e hworkers => simp [hworkers]
  | report pre post w completed hworkers => simp [hworkers]

/-! ## What the join has received -/

/-- Every worker that ended has its result in the channel or with the join, and
the join counts what it has received. -/
structure Joined (s : BatchRun) : Prop where
  results : (s.workers.filterMap Worker.reported).Perm (s.received ++ s.done)
  waiting : s.calls + s.received.length = s.workers.length
  succeeded : s.succeeded = s.received.all id
  returned : ∀ completed ok, s.returned = some (completed, ok) →
    if completed then s.calls = 0 ∧ ok = s.succeeded else 0 < s.workers.length

theorem Joined.replace {pre post : List Worker} {w w' : Worker} (h : s.Joined)
    (hworkers : s.workers = pre ++ w :: post) (hsame : w'.reported = w.reported) (t : Tables)
    (inFlight applied : List Command) :
    Joined { s with workers := pre ++ w' :: post, tables := t, inFlight, applied } := by
  rcases h with ⟨hresults, hwaiting, hsucceeded, hreturned⟩
  rw [hworkers] at hresults hwaiting hreturned
  refine ⟨?_, ?_, hsucceeded, ?_⟩
  · simpa [filterMap_cons, hsame] using hresults
  · simpa using hwaiting
  · simpa using hreturned

theorem Step.joined (h : Step s s') (hj : s.Joined) : s'.Joined := by
  cases h with
  | answerDone pre post w cs rest c hworkers =>
    refine hj.replace hworkers ?_ _ _ _
    rfl
  | answerError pre post w cs rest c o hworkers hprogram hphase =>
    refine hj.replace hworkers ?_ _ _ _
    cases c.refused o <;> simp [Worker.reported, hphase]
  | lose pre post w cs rest c o hworkers =>
    refine hj.replace hworkers ?_ _ _ _
    rfl
  | late => exact ⟨hj.results, hj.waiting, hj.succeeded, hj.returned⟩
  | complete pre post w cs hworkers hprogram hphase =>
    exact hj.replace hworkers (by simp [Worker.reported, hphase]) _ _ _
  | untranslated pre post w e hworkers hprogram hphase =>
    exact hj.replace hworkers (by simp [Worker.reported, hphase]) _ _ _
  | report pre post w completed hworkers hphase =>
    rcases hj with ⟨hresults, hwaiting, hsucceeded, hreturned⟩
    rw [hworkers] at hresults hwaiting hreturned
    have hnone : w.reported = none := by simp [Worker.reported, hphase]
    have hsome : Worker.reported { w with phase := .ended completed } = some completed := rfl
    refine ⟨?_, by simpa using hwaiting, hsucceeded, by simpa using hreturned⟩
    rw [filterMap_append, filterMap_cons_none hnone] at hresults
    rw [filterMap_append, filterMap_cons_some hsome, ← append_assoc]
    exact perm_middle.trans ((hresults.cons completed).trans
      (perm_append_singleton _ _).symm)
  | receive ok rest hreturned hcalls hdone =>
    rcases hj with ⟨hresults, hwaiting, hsucceeded, -⟩
    refine ⟨?_, ?_, ?_, by simp [hreturned]⟩
    · simpa [hdone] using hresults
    · simp only [length_append, length_singleton]
      omega
    · simp [hsucceeded]
  | timeout =>
    refine ⟨hj.results, hj.waiting, hj.succeeded, ?_⟩
    intro completed ok hret
    simp only [Option.some.injEq, Prod.mk.injEq] at hret
    rcases hret with ⟨rfl, rfl⟩
    have hwaiting := hj.waiting
    change 0 < s.workers.length
    omega
  | finish hreturned hcalls =>
    refine ⟨hj.results, hj.waiting, hj.succeeded, ?_⟩
    intro completed ok hret
    simp only [Option.some.injEq, Prod.mk.injEq] at hret
    rcases hret with ⟨rfl, rfl⟩
    exact ⟨hcalls, rfl⟩

theorem Joined.ended (hj : s.Joined) {ok : Bool} (h : s.returned = some (true, ok)) :
    (∀ w ∈ s.workers, ∃ completed, w.phase = .ended completed) ∧
      (ok = true ↔ ∀ w ∈ s.workers, w.phase = .ended true) := by
  rcases hj.returned true ok h with ⟨hcalls, rfl⟩
  have hlength := hj.results.length_eq
  have hwaiting := hj.waiting
  rw [length_append] at hlength
  -- As many results as workers: each has reported, and nothing is left in the channel.
  have hle := length_filterMap_le Worker.reported s.workers
  have hdone : s.done = [] := eq_nil_of_length_eq_zero (by omega)
  have hall : ∀ w ∈ s.workers, w.reported.isSome := by
    rw [← filterMap_length_eq_length]
    omega
  have hended : ∀ w ∈ s.workers, ∃ completed, w.phase = .ended completed := by
    intro w hw
    have hsome := hall w hw
    unfold Worker.reported at hsome
    split at hsome
    · rename_i completed hphase
      exact ⟨completed, hphase⟩
    · simp at hsome
    · simp at hsome
  refine ⟨hended, ?_⟩
  rw [hj.succeeded, all_eq_true]
  have hresults := hj.results
  rw [hdone, append_nil] at hresults
  constructor
  · intro htrue w hw
    rcases hended w hw with ⟨completed, hphase⟩
    have hmem : completed ∈ s.workers.filterMap Worker.reported :=
      mem_filterMap.mpr ⟨w, hw, by simp [Worker.reported, hphase]⟩
    rw [hphase, show completed = true from htrue completed (hresults.mem_iff.mp hmem)]
  · intro htrue completed hmem
    rcases mem_filterMap.mp (hresults.mem_iff.mpr hmem) with ⟨w, hw, hrep⟩
    simpa [Worker.reported, htrue w hw] using hrep.symm

/-! ## What the datapath has done -/

/-- The tables are what the commands carried out make of the first ones; these are
commands of the batch, and so are those in flight, whose calls failed. -/
structure Effects (conf : BessConf) (method : UpfMsgType) (rules : PacketForwardingRules)
    (t : Tables) (s : BatchRun) : Prop where
  programs : s.workers.map Worker.program = Upf.workers conf method rules
  tables : s.tables = t.applyAll (s.applied.filterMap Command.op)
  applied : ∀ c ∈ s.applied, c ∈ commands conf method rules
  inFlight : ∀ c ∈ s.inFlight, c ∈ commands conf method rules ∧
    ∃ w ∈ s.workers, ∃ o, (c, o) ∈ w.sent ∧ o.lost = true

theorem mem_commands_of_program
    (hprograms : s.workers.map Worker.program = Upf.workers conf method rules) {w : Worker}
    (hw : w ∈ s.workers) {cs : List Command} (hprogram : w.program = .ok cs) {c : Command}
    (hc : c ∈ cs) : c ∈ commands conf method rules := by
  unfold commands
  rw [← hprograms, mem_flatMap]
  exact ⟨w.program, mem_map_of_mem hw, by simp [hprogram, Except.toOption, hc]⟩

theorem Effects.carryOut_tables (h : s.Effects conf method rules t) (c : Command) :
    c.carryOut s.tables = t.applyAll ((s.applied ++ [c]).filterMap Command.op) := by
  rw [filterMap_append, Table.applyAll_append, ← h.tables, Command.carryOut]
  cases hop : c.op <;> simp [hop]

theorem Step.sent_mono (h : Step s s') {w : Worker} (hw : w ∈ s.workers) :
    ∃ w' ∈ s'.workers, ∀ call ∈ w.sent, call ∈ w'.sent := by
  have hreplace : ∀ {pre post : List Worker} {v v' : Worker}, s.workers = pre ++ v :: post →
      (∀ call ∈ v.sent, call ∈ v'.sent) →
      ∃ w' ∈ pre ++ v' :: post, ∀ call ∈ w.sent, call ∈ w'.sent := by
    intro pre post v v' hworkers hsent
    rw [hworkers] at hw
    rcases mem_append.mp hw with hw | hw
    · exact ⟨w, mem_append_left _ hw, fun _ => id⟩
    · rcases mem_cons.mp hw with rfl | hw
      · exact ⟨v', by simp, hsent⟩
      · exact ⟨w, by simp [hw], fun _ => id⟩
  cases h with
  | answerDone pre post v cs rest c hworkers =>
    exact hreplace hworkers fun call hcall => mem_append_left _ hcall
  | answerError pre post v cs rest c o hworkers =>
    exact hreplace hworkers fun call hcall => mem_append_left _ hcall
  | lose pre post v cs rest c o hworkers =>
    exact hreplace hworkers fun call hcall => mem_append_left _ hcall
  | complete pre post v cs hworkers => exact hreplace hworkers fun _ => id
  | untranslated pre post v e hworkers => exact hreplace hworkers fun _ => id
  | report pre post v completed hworkers => exact hreplace hworkers fun _ => id
  | _ => exact ⟨w, hw, fun _ => id⟩

theorem Step.effects (h : Step s s') (he : s.Effects conf method rules t) :
    s'.Effects conf method rules t := by
  have hprograms := h.programs.trans he.programs
  have hinFlight : ∀ c ∈ s.inFlight, c ∈ commands conf method rules ∧
      ∃ w ∈ s'.workers, ∃ o, (c, o) ∈ w.sent ∧ o.lost = true := by
    intro c hc
    rcases he.inFlight c hc with ⟨hmem, w, hw, o, hsent, hlost⟩
    rcases h.sent_mono hw with ⟨w', hw', hmono⟩
    exact ⟨hmem, w', hw', o, hmono _ hsent, hlost⟩
  cases h with
  | answerDone pre post w cs rest c hworkers hprogram hphase hnext =>
    refine ⟨hprograms, he.carryOut_tables c, ?_, hinFlight⟩
    have hc : c ∈ commands conf method rules :=
      mem_commands_of_program he.programs (by simp [hworkers]) hprogram (by simp [hnext])
    exact forall_mem_append.mpr ⟨he.applied, by simpa using hc⟩
  | lose pre post w cs rest c o hworkers hprogram hphase hnext ho =>
    refine ⟨hprograms, he.tables, he.applied, ?_⟩
    intro c' hc'
    rcases mem_cons.mp hc' with rfl | hc'
    · exact ⟨mem_commands_of_program he.programs (by simp [hworkers]) hprogram (by simp [hnext]),
        _, mem_append_right _ mem_cons_self, o, by simp, ho⟩
    · exact hinFlight c' hc'
  | late c hc =>
    refine ⟨hprograms, he.carryOut_tables c, ?_, fun c' hc' =>
      hinFlight c' (mem_of_mem_erase hc')⟩
    exact forall_mem_append.mpr ⟨he.applied, by simpa using (he.inFlight c hc).1⟩
  | _ => exact ⟨hprograms, he.tables, he.applied, hinFlight⟩

theorem del_of_isDelete {c : Command} (h : c ∈ commands conf method rules)
    (hdelete : c.isDelete = true) : method = .del := by
  by_contra hmethod
  have hop : ∃ k, c.op = some (.del k) := by
    cases c <;> simp_all [Command.isDelete, Command.op]
  rcases hop with ⟨k, hop⟩
  have hmem : .del k ∈ (commands conf method rules).filterMap Command.op :=
    mem_filterMap.mpr ⟨c, h, hop⟩
  rw [commands_write_ops conf hmethod] at hmem
  simp [Table.puts] at hmem

theorem op_of_mem_del {c : Command} (h : c ∈ commands conf .del rules)
    {op : Table.Op RuleKey RuleEntry} (hop : c.op = some op) : ∃ k, op = .del k := by
  have hmem : op ∈ (commands conf .del rules).filterMap Command.op :=
    mem_filterMap.mpr ⟨c, h, hop⟩
  rw [commands_del_ops] at hmem
  rcases mem_map.mp hmem with ⟨k, -, rfl⟩
  exact ⟨k, rfl⟩

theorem Runs.invariants (h : Runs conf method rules t s) :
    (∀ w ∈ s.workers, w.Ok) ∧ s.Joined ∧ s.Effects conf method rules t := by
  induction h with
  | refl =>
    refine ⟨?_, ⟨?_, ?_, rfl, by simp [start]⟩, ⟨?_, rfl, by simp [start], by simp [start]⟩⟩
    · intro w hw
      rcases mem_map.mp hw with ⟨program, -, rfl⟩
      exact ⟨by simp, by simp, by simp, by simp⟩
    · simp [start, Worker.reported]
    · cases method <;> simp [start, Upf.workers, Nat.add_assoc]
    · simp [start, Function.comp_def]
  | tail _ hstep ih =>
    exact ⟨hstep.workers_ok ih.1, hstep.joined ih.2.1, hstep.effects ih.2.2⟩

/-! ## What a run returns -/

def sent (s : BatchRun) : List (Command × RpcOutcome) := s.workers.flatMap Worker.sent

/-! ## Honest completion -/

def AnsweredDone (method : UpfMsgType) (call : Command × RpcOutcome) : Prop :=
  call.2 = .done ∨ (method = .del ∧ call.2 = .noEntry)

/-- Every command was sent once, every command for a rule was answered as done or,
in a delete batch, as finding no rule, and after a delete batch the tables hold
none of the named rules. -/
structure Honest (conf : BessConf) (method : UpfMsgType) (rules : PacketForwardingRules)
    (s : BatchRun) : Prop where
  sent : s.sent.map Prod.fst = commands conf method rules
  answered : ∀ call ∈ s.sent, call.1.isRule = true → AnsweredDone method call
  gone : method = .del → ∀ k ∈ (rules.entries conf).map Prod.fst, s.tables k = none

def Gone (s : BatchRun) : Prop :=
  ∀ w ∈ s.workers, ∀ call ∈ w.sent, AnsweredDone .del call →
    ∀ op ∈ call.1.op, s.tables op.key = none

theorem carryOut_none {c : Command} (h : c ∈ commands conf .del rules) {k : RuleKey}
    (hk : s.tables k = none) : c.carryOut s.tables k = none := by
  unfold Command.carryOut
  cases hop : c.op with
  | none => exact hk
  | some =>
    rcases op_of_mem_del h hop with ⟨k', rfl⟩
    by_cases hkey : k' = k
    · subst hkey
      exact Table.apply_self s.tables (.del k')
    · have hne : (Table.Op.del k' : Table.Op RuleKey RuleEntry).key ≠ k := hkey
      exact (Table.apply_of_ne s.tables hne).trans hk

theorem Step.gone (h : Step s s') (he : s.Effects conf .del rules t) (hg : s.Gone) :
    s'.Gone := by
  unfold Gone at hg ⊢
  cases h with
  | answerDone pre post w cs rest c hworkers hprogram hphase hnext =>
    have hc : c ∈ commands conf .del rules :=
      mem_commands_of_program he.programs (by simp [hworkers]) hprogram (by simp [hnext])
    rw [hworkers] at hg
    have hkept : ∀ v ∈ pre ++ w :: post, ∀ call ∈ v.sent, AnsweredDone .del call →
        ∀ op ∈ call.1.op, c.carryOut s.tables op.key = none :=
      fun v hv call hcall hans op hop => carryOut_none hc (hg v hv call hcall hans op hop)
    refine forall_mem_replace hkept fun hw => forall_mem_append.mpr ⟨hw, ?_⟩
    rw [forall_mem_singleton]
    intro hans op hop
    rw [Option.mem_def] at hop
    rcases op_of_mem_del hc hop with ⟨k, rfl⟩
    simp [Command.carryOut, hop, Table.applyAll, Table.apply, Table.Op.key, Table.Op.result]
  | answerError pre post w cs rest c o hworkers hprogram hphase hnext ho habsent =>
    rw [hworkers] at hg
    refine forall_mem_replace hg fun hw => forall_mem_append.mpr ⟨hw, ?_⟩
    rw [forall_mem_singleton]
    intro hans op hop
    rw [Option.mem_def] at hop
    have hc : c ∈ commands conf .del rules :=
      mem_commands_of_program he.programs (by simp [hworkers]) hprogram (by simp [hnext])
    rcases op_of_mem_del hc hop with ⟨k, rfl⟩
    have hdelete : c.isDelete = true := by
      cases c <;> simp_all [Command.isDelete, Command.op]
    rcases ho with rfl | rfl
    · exact habsent rfl hdelete _ hop
    · rcases hans with hans | ⟨-, hans⟩ <;> cases hans
  | lose pre post w cs rest c o hworkers hprogram hphase hnext ho =>
    rw [hworkers] at hg
    refine forall_mem_replace hg fun hw => forall_mem_append.mpr ⟨hw, ?_⟩
    rw [forall_mem_singleton]
    intro hans op hop
    rcases hans with hans | ⟨-, hans⟩
    · rw [show o = .done from hans] at ho
      exact absurd ho (by decide)
    · rw [show o = .noEntry from hans] at ho
      exact absurd ho (by decide)
  | late c hc =>
    exact fun w hw call hcall hans op hop =>
      carryOut_none (he.inFlight c hc).1 (hg w hw call hcall hans op hop)
  | complete pre post w cs hworkers =>
    rw [hworkers] at hg
    exact forall_mem_replace hg fun hw => hw
  | untranslated pre post w e hworkers =>
    rw [hworkers] at hg
    exact forall_mem_replace hg fun hw => hw
  | report pre post w completed hworkers =>
    rw [hworkers] at hg
    exact forall_mem_replace hg fun hw => hw
  | _ => exact hg

theorem Runs.gone (h : Runs conf .del rules t s) : s.Gone := by
  induction h with
  | refl =>
    intro w hw
    rcases mem_map.mp hw with ⟨program, -, rfl⟩
    simp
  | tail hrun hstep ih =>
    have hprev : Runs conf .del rules t _ := hrun
    exact hstep.gone hprev.invariants.2.2 ih

theorem sent_eq_commands (hok : ∀ w ∈ s.workers, w.Ok) (he : s.Effects conf method rules t)
    (htrue : ∀ w ∈ s.workers, w.phase = .ended true) :
    s.sent.map Prod.fst = commands conf method rules := by
  unfold sent commands
  rw [← he.programs, map_flatMap, flatMap_map]
  apply flatMap_congr
  intro w hw
  rcases (hok w hw).completed (.inr (htrue w hw)) with ⟨cs, hprogram, hsent, -⟩
  simp [hprogram, hsent, Except.toOption]

/-- A run that returns an accepted and finished batch, for any method, any rules and
any order of the steps of workers, join, timer and datapath, has had every command
for a rule answered, and has taken every named rule out of the tables if it was a
delete, exactly when no call for a rule was lost on the way. -/
theorem honest_completion_iff (conf : BessConf) (method : UpfMsgType)
    (rules updated : PacketForwardingRules) (t : Tables) (s : BatchRun)
    (hrun : Runs conf method (batchRules method rules updated) t s) (completed succeeded : Bool)
    (hreturned : s.returned = some (completed, succeeded))
    (hanswer : answer completed succeeded = (.requestAccepted, true)) :
    Honest conf method (batchRules method rules updated) s ↔
      ∀ call ∈ s.sent, call.1.isRule = true → call.2.lost = false := by
  rcases hrun.invariants with ⟨hok, hj, he⟩
  have hboth : completed = true ∧ succeeded = true := by
    clear hreturned
    revert completed succeeded
    decide
  rcases hboth with ⟨rfl, rfl⟩
  have htrue := (hj.ended hreturned).2.mp rfl
  constructor
  · intro hhonest call hcall hrule
    rcases hhonest.answered call hcall hrule with hans | ⟨-, hans⟩ <;> rw [hans] <;> rfl
  · intro hnone
    have hsent := sent_eq_commands hok he htrue
    have hanswered : ∀ call ∈ s.sent, call.1.isRule = true → AnsweredDone method call := by
      intro call hcall hrule
      have hlost := hnone call hcall hrule
      rcases mem_flatMap.mp hcall with ⟨w, hw, hmem⟩
      rcases (hok w hw).completed (.inr (htrue w hw)) with ⟨cs, -, -, hrefused⟩
      have hnot := hrefused call hmem
      rcases call with ⟨c, o⟩
      cases o with
      | done => exact .inl rfl
      | noEntry =>
        have hdelete : c.isDelete = true := by simpa [Command.refused, hrule] using hnot
        have hc : c ∈ commands conf method (batchRules method rules updated) := by
          rw [← hsent]
          exact mem_map_of_mem hcall
        exact .inr ⟨del_of_isDelete hc hdelete, rfl⟩
      | moduleError => simp [Command.refused, hrule] at hnot
      | transportError => exact absurd hlost (by simp [RpcOutcome.lost])
      | deadlineExceeded => exact absurd hlost (by simp [RpcOutcome.lost])
    refine ⟨hsent, hanswered, ?_⟩
    rintro rfl k hk
    -- The key is that of a command of the batch, which was sent and answered.
    have hop : Table.Op.del k ∈ (commands conf .del
        (batchRules .del rules updated)).filterMap Command.op := by
      rw [commands_del_ops]
      exact mem_map_of_mem hk
    rcases mem_filterMap.mp hop with ⟨c, hc, hcop⟩
    rw [← hsent] at hc
    rcases mem_map.mp hc with ⟨call, hcall, rfl⟩
    have hrule : call.1.isRule = true := by
      cases hcase : call.1 <;> simp_all [Command.isRule, Command.op]
    rcases mem_flatMap.mp hcall with ⟨w, hw, hmem⟩
    exact hrun.gone w hw call hmem (hanswered call hcall hrule) _ hcop

/-! ## Evaluation -/

def oneFar : PacketForwardingRules := { fars := [{ farID := 1, fseID := 1 }] }

def oneFarTables : Tables := Table.applyAll (fun _ => none) (Table.puts (oneFar.entries .sample))

def deleteFar : Command := .farLookupDelete { fields := farFields { farID := 1, fseID := 1 } }

def deleted (o : RpcOutcome) (t : Tables) (inFlight applied : List Command) : BatchRun where
  tables := t
  workers := [{ program := .ok [deleteFar], sent := [(deleteFar, o)], phase := .ended true }]
  calls := 0
  returned := some (true, true)
  inFlight := inFlight
  applied := applied
  received := [true]

def deleting (o : RpcOutcome) (t : Tables) (inFlight applied : List Command)
    (phase : WorkerPhase) (done : List Bool) : BatchRun where
  tables := t
  workers := [{ program := .ok [deleteFar], sent := [(deleteFar, o)], phase }]
  calls := 1
  done := done
  inFlight := inFlight
  applied := applied

theorem runs_deleted {o : RpcOutcome} {t : Tables} {inFlight applied : List Command}
    (hcall : Step (start .sample .del oneFar oneFarTables)
      (deleting o t inFlight applied .running [])) :
    Runs .sample .del oneFar oneFarTables (deleted o t inFlight applied) := by
  have hcomplete : Step _ (deleting o t inFlight applied (.returning true) []) :=
    .complete (deleting o t inFlight applied .running []) [] [] _ _ rfl rfl rfl rfl
  have hreport : Step _ (deleting o t inFlight applied (.ended true) [true]) :=
    .report (deleting o t inFlight applied (.returning true) []) [] [] _ true rfl rfl
  have hreceive : Step _ { deleted o t inFlight applied with returned := none } :=
    .receive (deleting o t inFlight applied (.ended true) [true]) true [] rfl Nat.one_pos rfl
  have hfinish : Step _ (deleted o t inFlight applied) :=
    .finish { deleted o t inFlight applied with returned := none } rfl rfl
  exact ((((Relation.ReflTransGen.single hcall).tail hcomplete).tail hreport).tail hreceive).tail
    hfinish

/-- A delete that is answered is carried out. -/
theorem honest_completion_done :
    Honest .sample .del oneFar
      (deleted .done (deleteFar.carryOut oneFarTables) [] [deleteFar]) := by
  have hcall : Step (start .sample .del oneFar oneFarTables)
      (deleting .done (deleteFar.carryOut oneFarTables) [] [deleteFar] .running []) :=
    .answerDone _ [] [] { program := .ok [deleteFar] } _ [] deleteFar rfl rfl rfl rfl
  exact (honest_completion_iff .sample .del oneFar {} oneFarTables _ (runs_deleted hcall) true true
    rfl rfl).mpr (by decide)

/-- A delete whose only call ran into the deadline is reported as accepted and
finished, although the rule is still there. -/
theorem deadline_reported_finished :
    Runs .sample .del oneFar oneFarTables
        (deleted .deadlineExceeded oneFarTables [deleteFar] []) ∧
      answer true true = (.requestAccepted, true) ∧
      (∃ k ∈ (oneFar.entries .sample).map Prod.fst,
        ((deleted .deadlineExceeded oneFarTables [deleteFar] []).tables k).isSome = true) := by
  refine ⟨runs_deleted ?_, rfl, by decide⟩
  exact .lose _ [] [] { program := .ok [deleteFar] } _ [] deleteFar .deadlineExceeded rfl rfl rfl
    rfl rfl

/-! ## A run as one batch -/

/-- The batch as the handlers see it: the commands carried out, whether a module
refused one, and whether every worker reported in time. -/
def record (method : UpfMsgType) (rules : PacketForwardingRules) (s : BatchRun)
    (completed : Bool) : BatchRecord where
  method := method
  rules := rules
  outcome :=
    { carriedOut := s.applied
      refused := s.sent.any fun call => call.1.refused call.2
      finished := completed }

theorem succeeded_iff (hok : ∀ w ∈ s.workers, w.Ok) (he : s.Effects conf method rules t)
    (hended : ∀ w ∈ s.workers, ∃ completed, w.phase = .ended completed) :
    (∀ w ∈ s.workers, w.phase = .ended true) ↔
      (Upf.workers conf method rules).all (fun p => p.toOption.isSome) = true ∧
        s.sent.any (fun call => call.1.refused call.2) = false := by
  rw [← he.programs, all_map, all_eq_true, any_eq_false]
  constructor
  · intro htrue
    constructor
    · intro w hw
      rcases (hok w hw).completed (.inr (htrue w hw)) with ⟨cs, hprogram, -, -⟩
      simp [hprogram, Except.toOption]
    · intro call hcall
      rcases mem_flatMap.mp hcall with ⟨w, hw, hsent⟩
      rcases (hok w hw).completed (.inr (htrue w hw)) with ⟨cs, -, -, hrefused⟩
      simp [hrefused call hsent]
  · rintro ⟨htranslated, hrefused⟩ w hw
    rcases hended w hw with ⟨completed, hphase⟩
    cases completed with
    | true => exact hphase
    | false =>
      rcases (hok w hw).stopped (.inr hphase) with ⟨e, hprogram⟩ | ⟨call, hcall, hcallr⟩
      · have hsome := htranslated w hw
        simp [hprogram, Except.toOption] at hsome
      · exact absurd hcallr (hrefused call (mem_flatMap.mpr ⟨w, hw, hcall⟩))

/-- Whatever the order of the steps, a run that returns has the answer and the effect on the
tables of a batch that the datapath carries out at once. -/
theorem run_refines (h : Runs conf method rules t s) {completed succeeded : Bool}
    (hreturned : s.returned = some (completed, succeeded)) :
    answer completed succeeded = (record method rules s completed).result conf ∧
      s.tables = t.applyAll ((record method rules s completed).ops conf) := by
  rcases h.invariants with ⟨hok, hj, he⟩
  constructor
  · have hcalls : (record method rules s completed).calls = s.workers.length := by
      rw [← length_map Worker.program, he.programs]
      cases method <;> simp [record, BatchRecord.calls, Upf.workers, Nat.add_assoc]
    unfold answer BatchRecord.result
    rw [hcalls]
    cases completed with
    | true =>
      rcases hj.ended hreturned with ⟨hended, hsucceeded⟩
      rw [succeeded_iff hok he hended] at hsucceeded
      have hsplit : succeeded = ((record method rules s true).translated conf &&
          !(record method rules s true).outcome.refused) := by
        rw [Bool.eq_iff_iff, hsucceeded, Bool.and_eq_true, Bool.not_eq_true']
        rfl
      rw [hsplit]
      by_cases hnone : s.workers.length = 0
      · -- Without workers nothing fails.
        have hprograms := he.programs
        rw [eq_nil_of_length_eq_zero hnone, map_nil] at hprograms
        simp [record, BatchRecord.translated, sent, eq_nil_of_length_eq_zero hnone,
          ← hprograms]
      · rw [if_neg hnone]
        cases (record method rules s true).translated conf <;>
          cases (record method rules s true).outcome.refused <;> rfl
    | false =>
      have hpos : 0 < s.workers.length := hj.returned false succeeded hreturned
      rw [if_neg (Nat.ne_of_gt hpos)]
      rfl
  · rw [he.tables]
    congr 1
    unfold BatchRecord.ops
    congr 1
    exact (filter_eq_self.mpr fun c hc => decide_eq_true (he.applied c hc)).symm

def twoFars : PacketForwardingRules :=
  { fars := [{ farID := 1, fseID := 1 }, { farID := 2, fseID := 1 }] }

def deleteSecond : Command := .farLookupDelete { fields := farFields { farID := 2, fseID := 1 } }

/-- The second of two workers is through, the first has lost its call, and time is up. -/
theorem run_refines_timeout :
    ∃ s, s.workers.map Worker.phase = [.running, .ended true] ∧
      answer false false = (record .del twoFars s false).result .sample ∧
      s.tables = oneFarTables.applyAll ((record .del twoFars s false).ops .sample) := by
  have h₁ : Runs .sample .del twoFars oneFarTables _ := .single (.answerDone _
    [{ program := .ok [deleteFar] }] [] { program := .ok [deleteSecond] } _ [] deleteSecond
    rfl rfl rfl rfl)
  have h₂ := h₁.tail (.lose _ [] [_] { program := .ok [deleteFar] } _ [] deleteFar
    .deadlineExceeded rfl rfl rfl rfl rfl)
  have h₃ := h₂.tail (.complete _ [_] [] _ [deleteSecond] rfl rfl rfl rfl)
  have h₄ := h₃.tail (.report _ [_] [] _ true rfl rfl)
  have h₅ := h₄.tail (.receive _ true [] rfl (by decide) rfl)
  have h₆ := h₅.tail (.timeout _ rfl (by decide))
  exact ⟨_, rfl, run_refines h₆ rfl⟩

end BatchRun

end Upf
