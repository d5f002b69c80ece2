import Upf.Bess.GateGraph
import Upf.Lib.Heap

/-!
# The task graph

Once the connections have changed, the graph is walked again from every task module:
the task modules behind it learn that it is a parent of theirs, and the input gates
behind it are given priorities.  All gates are then numbered.

A module that is overloaded signals its parents, which count the children that are.

The loops skip the output gates that are not connected.  The recursions are bounded
by the number of modules and of input gates; neither visits one twice on its way
down, so that the bound is never met.
-/

namespace Upf.Bess

open Lib

def OGate.setUniqueIdx (globalGateIndex : Nat) (og : OGate) : OGate := { og with globalGateIndex }
def IGate.setUniqueIdx (globalGateIndex : Nat) (ig : IGate) : IGate := { ig with globalGateIndex }

def number {G : Type} (setUniqueIdx : Nat → G → G) (w : Table Addr G × Nat) (a : Addr) :
    Table Addr G × Nat :=
  (Function.update w.1 a ((w.1 a).map (setUniqueIdx w.2)), w.2 + 1)

namespace ModuleGraph

variable (s : ModuleGraph)

def isTask (m : Addr) : Bool := (s.modules m).any Module.isTask

/-- The input gates behind the connected output gates of a module, in order. -/
def nextIgates (m : Addr) : List Addr :=
  (s.ogatesOf m).filterMap fun ogate => ogate.bind fun o => (s.ogates o).map OGate.igate

def children (m : Addr) : List Addr :=
  (s.nextIgates m).filterMap fun i => (s.igates i).map IGate.module

def allIgates : List Addr := s.allModules.flatMap fun m => (s.igatesOf m).filterMap id

def modifyModule (m : Addr) (f : Module → Module) : ModuleGraph :=
  { s with modules := Function.update s.modules m ((s.modules m).map f) }

def addParentTask (m task : Addr) : ModuleGraph :=
  s.modifyModule m fun md => { md with parentTasks := md.parentTasks ++ [task] }

def clearParentTasks (m : Addr) : ModuleGraph :=
  s.modifyModule m fun md => { md with parentTasks := [] }

def updateParentsAs (task : Addr) :
    (fuel : Nat) → (module : Addr) → List Addr × ModuleGraph → List Addr × ModuleGraph
  | 0, _, w => w
  | fuel + 1, module, (visitedModules, s) =>
    if s.isTask module then (module :: visitedModules, s.addParentTask module task)
    else (s.children module).foldl (fun w child =>
      if child ∈ w.1 then w else updateParentsAs task fuel child w) (module :: visitedModules, s)

def updateSingleTaskGraph (task : Addr) : ModuleGraph :=
  ((s.children task).foldl (fun w child =>
    if child ∈ w.1 then w else updateParentsAs task s.allModules.length child w) ([task], s)).2

def priority (i : Addr) : Nat := ((s.igates i).map IGate.priority).getD 0

def setPriority (i : Addr) (priority : Nat) : ModuleGraph :=
  s.putIgate i ((s.igates i).map fun ig => { ig with priority })

/-- The input gates that `PropagateIGatePriority` goes on to from an input gate: those
behind its module, unless that is a task. -/
def nextOf (i : Addr) : List Addr :=
  match s.igates i with
  | none => []
  | some ig => if s.isTask ig.module then [] else s.nextIgates ig.module

def propagateIGatePriority : (fuel : Nat) → (igate : Addr) → (visitedIgates : List Addr) →
    (priority : Nat) → ModuleGraph → ModuleGraph
  | 0, _, _, _, s => s
  | fuel + 1, igate, visitedIgates, priority, s =>
    (s.nextOf igate).foldl (fun s nextIgate =>
      if nextIgate ∈ visitedIgates ∨ s.priority nextIgate ≥ priority then s
      else propagateIGatePriority fuel nextIgate (nextIgate :: visitedIgates) (priority + 1)
        (s.setPriority nextIgate priority)) s

def setIGatePriority (task : Addr) : ModuleGraph :=
  (s.nextIgates task).foldl (fun s' igate =>
    if s'.priority igate ≥ 1 then s'
    else propagateIGatePriority s.allIgates.length igate [igate] 2 (s'.setPriority igate 1)) s

/-- The connected output gates, going through the modules in some order. -/
def pushedOgates (modules : List Addr) : List Addr :=
  modules.flatMap fun m => (s.ogatesOf m).filterMap id

/-- The input gates they point to, each once. -/
def pushedIgates (modules : List Addr) : List Addr :=
  ((s.pushedOgates modules).filterMap fun o => (s.ogates o).map OGate.igate).foldl
    (fun pushed igate => if igate ∈ pushed then pushed else pushed ++ [igate]) []

/-- The order in which the queue hands out the input gates; the one with the smallest
priority is in front. -/
def igatesInOrder (heap : StdHeap) (modules : List Addr) : List Addr :=
  let greater := fun left right => decide (s.priority left > s.priority right)
  drain heap greater (s.pushedIgates modules).length
    (fill heap greater (s.pushedIgates modules))

/-- The order in which the queue hands out the output gates, by their addresses. -/
def ogatesInOrder (heap : StdHeap) (modules : List Addr) : List Addr :=
  let less := fun left right : Addr => decide (left < right)
  drain heap less (s.pushedOgates modules).length (fill heap less (s.pushedOgates modules))

def setUniqueGateIdx (heap : StdHeap) (modules : List Addr) : ModuleGraph :=
  let igates := (s.igatesInOrder heap modules).foldl (number IGate.setUniqueIdx) (s.igates, 0)
  let ogates := (s.ogatesInOrder heap modules).foldl (number OGate.setUniqueIdx)
    (s.ogates, igates.2)
  { s with igates := igates.1, ogates := ogates.1, gateCnt := ogates.2 }

def cleanTaskGraph (tasks : List Addr) : ModuleGraph := tasks.foldl clearParentTasks s

/-- `ModuleGraph::UpdateTaskGraph`, with the orders in which it goes through the tasks and
the modules. -/
def updateTaskGraph (heap : StdHeap) (tasks modules : List Addr) : ModuleGraph :=
  if s.changesMade then
    let s := s.cleanTaskGraph tasks
    let s := tasks.foldl (fun s task => (s.updateSingleTaskGraph task).setIGatePriority task) s
    { s.setUniqueGateIdx heap modules with changesMade := false }
  else s

def signalParents (m : Addr) (delta : Int) : ModuleGraph :=
  (((s.modules m).map Module.parentTasks).getD []).foldl (fun s p =>
    s.modifyModule p fun md => { md with childrenOverload := md.childrenOverload + delta }) s

def overloaded (m : Addr) : Bool := (s.modules m).any Module.overload

def signalOverload (m : Addr) : ModuleGraph :=
  if s.overloaded m then s
  else (s.signalParents m 1).modifyModule m fun md => { md with overload := true }

def signalUnderload (m : Addr) : ModuleGraph :=
  if s.overloaded m then
    (s.signalParents m (-1)).modifyModule m fun md => { md with overload := false }
  else s

/-- The check at the head of `RunTask` in the modules that heed their children. -/
def heldBlocked (t : Addr) : Bool := (s.modules t).any fun md => decide (md.childrenOverload > 0)

end ModuleGraph

/-- The operations on the graph.  The update comes with the orders of its loops. -/
inductive GraphOp where
  | createModule (m : Addr) (isTask : Bool) (numIGates numOGates : Nat)
  | connectModules (m : Addr) (ogateIdx : Nat) (mNext : Addr) (igateIdx : Nat) (newO newI : Addr)
  | disconnectModule (m : Addr) (ogateIdx : Nat)
  | destroyModule (m : Addr)
  | updateTaskGraph (tasks modules : List Addr)
  | signalOverload (m : Addr)
  | signalUnderload (m : Addr)

namespace ModuleGraph

def graphStep (heap : StdHeap) (s : ModuleGraph) : GraphOp → ModuleGraph
  | .createModule m isTask numIGates numOGates => s.createModule m isTask numIGates numOGates
  | .connectModules m ogateIdx mNext igateIdx newO newI =>
    (s.connectModules m ogateIdx mNext igateIdx newO newI).2
  | .disconnectModule m ogateIdx => (s.disconnectModule m ogateIdx).2
  | .destroyModule m => s.destroyModule m
  | .updateTaskGraph tasks modules => s.updateTaskGraph heap tasks modules
  | .signalOverload m => s.signalOverload m
  | .signalUnderload m => s.signalUnderload m

/-- New objects are put at free addresses, only modules that are there are connected,
and the update goes through the tasks and modules there are. -/
def Possible (s : ModuleGraph) : GraphOp → Prop
  | .createModule m _ _ _ => s.modules m = none
  | .connectModules m _ mNext _ newO newI =>
    s.modules m ≠ none ∧ s.modules mNext ≠ none ∧ s.ogates newO = none ∧ s.igates newI = none
  | .updateTaskGraph tasks modules => tasks.Perm s.tasks ∧ modules.Perm s.allModules
  | _ => True

end ModuleGraph

end Upf.Bess
