import Mathlib.Data.List.Basic

/-!
# One run of a task

A task runs its own module and then, until none is left, the modules at the input
gates that batches wait for.  A module disposes of packets by emitting them one by
one, by dropping them, or by handing on a whole batch.

The same batch is known under several names at once.  A batch for an input gate
waits in the queue, or in a place of its own if the gate has one upstream gate only,
which saves the queue in a chain of modules; the gate remembers the batch last put
in the queue for it, to fill it further.  An output gate remembers the batch it is
filling: that of its input gate if it has no hooks, or one of its own, handed on
only once the module has returned and the hooks have seen it.

The state records what was emitted and delivered, dropped and freed.
-/

namespace Upf.Bess

open Function

def kMaxBurst : Nat := 64

def maxPbatchCnt : Nat := 256

abbrev BatchId := Option Nat

structure TaskModules (M I O : Type) where
  /-- The output gate of a module at an index, if it is connected. -/
  ogates : M → Nat → Option O
  igate : O → I
  /-- Whether an output gate has hooks. -/
  hooks : O → Bool
  /-- Whether several output gates lead to an input gate. -/
  mergeable : I → Bool
  priority : I → Nat
  module : I → M

inductive Call (P : Type) where
  /-- Emit a packet. -/
  | emit (pkt : P) (ogate : Nat)
  /-- Drop a packet. -/
  | drop (pkt : P)
  /-- Hand on the received batch, with these packets in it. -/
  | pass (ogate : Nat) (pkts : List P)
  /-- Hand on a batch taken from the pool, with these packets in it. -/
  | send (ogate : Nat) (pkts : List P)

structure TaskState (P I O : Type) where
  nextGate : Option (I × BatchId) := none
  igatesToRun : List (I × BatchId) := []
  deadBatch : List P := []
  pbatchIdx : Nat := 0
  /-- The packets of each batch. -/
  batch : BatchId → List P := fun _ => []
  /-- The batch an input gate remembers. -/
  igateBatch : I → Option BatchId := fun _ => none
  /-- The batch an output gate remembers. -/
  ogateBatch : O → Option BatchId := fun _ => none
  /-- The output gates the current module has emitted on. -/
  gateWithHook : List O := []
  gateWithoutHook : List O := []
  /-- What was emitted on connected gates so far, and what was delivered. -/
  emitted : List (I × P) := []
  delivered : List (I × P) := []
  /-- What was dropped or emitted on unconnected gates, and what was freed. -/
  dropped : List P := []
  freed : List P := []

namespace TaskState

variable {M I O P : Type} [DecidableEq I] [DecidableEq O]

def allocPacketBatch (s : TaskState P I O) : Option (BatchId × TaskState P I O) :=
  if s.pbatchIdx < maxPbatchCnt then
    some (some s.pbatchIdx,
      { s with
        pbatchIdx := s.pbatchIdx + 1
        batch := update s.batch (some s.pbatchIdx) [] })
  else none

def enqueue (ig : I) (b : BatchId) (s : TaskState P I O) : TaskState P I O :=
  { s with
    igateBatch := update s.igateBatch ig (some b)
    igatesToRun := (ig, b) :: s.igatesToRun }

def addToRun (g : TaskModules M I O) (ig : I) (b : BatchId) (s : TaskState P I O) :
    TaskState P I O :=
  if s.nextGate.isNone && !g.mergeable ig then { s with nextGate := some (ig, b) }
  else
    match s.igateBatch ig with
    | some ibatch =>
      if (s.batch ibatch).length + (s.batch b).length ≤ kMaxBurst then
        { s with batch := update s.batch ibatch (s.batch ibatch ++ s.batch b) }
      else s.enqueue ig b
    | none => s.enqueue ig b

def deadend (b : BatchId) (s : TaskState P I O) : TaskState P I O :=
  { s with freed := s.freed ++ s.batch b, batch := update s.batch b [] }

def runChooseModule (g : TaskModules M I O) (m : M) (ogate : Nat) (b : BatchId)
    (s : TaskState P I O) : TaskState P I O :=
  if (s.batch b).isEmpty then s
  else
    match g.ogates m ogate with
    | none => { s with dropped := s.dropped ++ s.batch b }.deadend b
    | some o =>
      { s with emitted := s.emitted ++ (s.batch b).map fun p => (g.igate o, p) }.addToRun g
        (g.igate o) b

def dropPacket (pkt : P) (s : TaskState P I O) : TaskState P I O :=
  let dead := s.deadBatch ++ [pkt]
  if dead.length ≥ kMaxBurst then
    { s with dropped := s.dropped ++ [pkt], freed := s.freed ++ dead, deadBatch := [] }
  else { s with dropped := s.dropped ++ [pkt], deadBatch := dead }

/-- The batch an output gate fills: the one it has been filling, or a new one if it
has hooks, or that of its input gate. -/
def gateBatchFor (g : TaskModules M I O) (o : O) (s : TaskState P I O) :
    Option (BatchId × TaskState P I O) :=
  match s.ogateBatch o with
  | some b => some (b, s)
  | none =>
    if g.hooks o then
      if s.gateWithHook.length < kMaxBurst then
        s.allocPacketBatch.map fun (b, s) =>
          (b, { s with
            ogateBatch := update s.ogateBatch o (some b)
            gateWithHook := s.gateWithHook ++ [o] })
      else none
    else if s.gateWithoutHook.length < kMaxBurst then
      match s.igateBatch (g.igate o) with
      | none =>
        s.allocPacketBatch.map fun (b, s) =>
          let s := s.addToRun g (g.igate o) b
          (b, { s with
            ogateBatch := update s.ogateBatch o (some b)
            gateWithoutHook := s.gateWithoutHook ++ [o] })
      | some b =>
        some (b, { s with
          ogateBatch := update s.ogateBatch o (some b)
          gateWithoutHook := s.gateWithoutHook ++ [o] })
    else none

/-- A new batch for an output gate whose batch is full. -/
def overflow (g : TaskModules M I O) (o : O) (b : BatchId) (s : TaskState P I O) :
    Option (BatchId × TaskState P I O) :=
  if g.hooks o then
    (s.addToRun g (g.igate o) b).allocPacketBatch.map fun (b, s) =>
      (b, { s with ogateBatch := update s.ogateBatch o (some b) })
  else
    s.allocPacketBatch.map fun (b, s) =>
      (b, { s with ogateBatch := update s.ogateBatch o (some b) }.addToRun g (g.igate o) b)

def put (ig : I) (b : BatchId) (pkt : P) (s : TaskState P I O) : TaskState P I O :=
  { s with
    batch := update s.batch b (s.batch b ++ [pkt])
    emitted := s.emitted ++ [(ig, pkt)] }

/-- Emit a packet.  The pool and the two arrays of output gates have to have room. -/
def emitPacket (g : TaskModules M I O) (m : M) (pkt : P) (ogate : Nat) (s : TaskState P I O) :
    Option (TaskState P I O) :=
  match g.ogates m ogate with
  | none => some (s.dropPacket pkt)
  | some o => do
      let (b, s) ← s.gateBatchFor g o
      let (b, s) ← if (s.batch b).length ≥ kMaxBurst then s.overflow g o b else some (b, s)
      return s.put (g.igate o) b pkt

def flushHooks (g : TaskModules M I O) : List O → TaskState P I O → TaskState P I O
  | [], s => s
  | o :: os, s =>
    let s :=
      match s.ogateBatch o with
      | some b => s.addToRun g (g.igate o) b
      | none => s
    flushHooks g os { s with ogateBatch := update s.ogateBatch o none }

def forget (os : List O) (s : TaskState P I O) : TaskState P I O :=
  { s with ogateBatch := fun o => if o ∈ os then none else s.ogateBatch o }

/-- After a module: its output gates let go of their batches. -/
def processOGates (g : TaskModules M I O) (s : TaskState P I O) : TaskState P I O :=
  { (flushHooks g s.gateWithHook s).forget s.gateWithoutHook with
    gateWithHook := []
    gateWithoutHook := [] }

end TaskState

/-- Where a task is.  A module holds the batch it received until it has handed it
on. -/
inductive Phase (M : Type) where
  | task (m : M) (received : Option BatchId)
  | idle
  | processing (m : M) (received : Option BatchId)
  | ended
deriving DecidableEq

structure TaskRun (M I O P : Type) where
  state : TaskState P I O
  phase : Phase M

inductive TaskAction (I P : Type) where
  /-- The current module disposes of packets. -/
  | call (c : Call P)
  /-- The current module returns. -/
  | finish
  /-- The next module is run. -/
  | pick (e : I × BatchId)
  /-- No module is left. -/
  | stop

namespace TaskRun

variable {M I O P : Type} [DecidableEq I] [DecidableEq O]

def start (m : M) (pkts : List P) : TaskRun M I O P where
  state := { batch := update (fun _ => []) none pkts }
  phase := .task m (some none)

def handOn (g : TaskModules M I O) (m : M) (ogate : Nat) (b : BatchId) (pkts : List P)
    (s : TaskState P I O) : TaskState P I O :=
  { s with batch := update s.batch b pkts }.runChooseModule g m ogate b

def dispose (g : TaskModules M I O) (m : M) (received : Option BatchId) (s : TaskState P I O) :
    Call P → Option (TaskState P I O × Option BatchId)
  | .emit pkt ogate => (s.emitPacket g m pkt ogate).map fun s => (s, received)
  | .drop pkt => some (s.dropPacket pkt, received)
  | .pass ogate pkts =>
    if pkts.length ≤ kMaxBurst then received.map fun b => (handOn g m ogate b pkts s, none)
    else none
  | .send ogate pkts =>
    if pkts.length ≤ kMaxBurst then
      s.allocPacketBatch.map fun (b, s) => (handOn g m ogate b pkts s, received)
    else none

def Call.isEmit : Call P → Bool
  | .emit _ _ => true
  | _ => false

def deliver (e : I × BatchId) (s : TaskState P I O) : TaskState P I O :=
  { s with delivered := s.delivered ++ (s.batch e.2).map fun p => (e.1, p) }

/-- The place next in the chain goes first, then a batch of the queue whose gate
has least priority number. -/
def take (g : TaskModules M I O) (e : I × BatchId) (s : TaskState P I O) :
    Option (TaskState P I O) :=
  match s.nextGate with
  | some next => if e = next then some { s with nextGate := none } else none
  | none =>
    if e ∈ s.igatesToRun ∧ ∀ e' ∈ s.igatesToRun, g.priority e.1 ≤ g.priority e'.1 then
      some
        { s with
          igatesToRun := s.igatesToRun.erase e
          igateBatch := update s.igateBatch e.1 none }
    else none

/-- One step of a task.  The module of the task itself is not followed by a pass over
its output gates, and hands on batches only. -/
def act (g : TaskModules M I O) : TaskAction I P → TaskRun M I O P → Option (TaskRun M I O P)
  | .call c, ⟨s, .task m received⟩ =>
    if Call.isEmit c then none
    else (dispose g m received s c).map fun (s, received) => ⟨s, .task m received⟩
  | .call c, ⟨s, .processing m received⟩ =>
    (dispose g m received s c).map fun (s, received) => ⟨s, .processing m received⟩
  | .finish, ⟨s, .task _ _⟩ => some ⟨s, .idle⟩
  | .finish, ⟨s, .processing _ _⟩ => some ⟨s.processOGates g, .idle⟩
  | .pick e, ⟨s, .idle⟩ =>
    (take g e s).map fun s => ⟨deliver e s, .processing (g.module e.1) (some e.2)⟩
  | .stop, ⟨s, .idle⟩ =>
    if s.nextGate.isNone && s.igatesToRun.isEmpty then
      some ⟨{ s with freed := s.freed ++ s.deadBatch, deadBatch := [] }, .ended⟩
    else none
  | _, _ => none

end TaskRun

end Upf.Bess
