import Mathlib.Data.List.GetD
import Upf.Lib.Table

/-!
# Modules, gates and their connections

Modules are joined by gates.  An output gate points to one input gate, an input
gate lists the output gates that point to it, and each sits in a vector of its
module.  Connecting and disconnecting edits both directions.

Objects live at addresses.  The allocator hands out an address that no object of
the kind occupies, and deleting an object empties its address, so that a pointer
that was left behind leads nowhere, or to a later object.

The vectors `igates_` and `ogates_` of the modules are kept beside the
modules, by the address of the module.
-/

namespace Upf.Bess

open Function Lib List Option

abbrev Addr := Nat

structure OGate where
  module : Addr
  gateIdx : Nat
  next : Addr
  igate : Addr
  igateIdx : Nat
  globalGateIndex : Nat := 0
deriving DecidableEq

structure IGate where
  module : Addr
  gateIdx : Nat
  ogatesUpstream : List Addr := []
  priority : Nat := 0
  mergeable : Bool := false
  globalGateIndex : Nat := 0
deriving DecidableEq

/-- A module, without the vectors of its gates. -/
structure Module where
  isTask : Bool
  numIGates : Nat
  numOGates : Nat
  parentTasks : List Addr := []
  childrenOverload : Int := 0
  overload : Bool := false
deriving DecidableEq

/-- The module graph: the objects, the vectors of the modules, the modules and the
task modules that are registered, and whether the connections changed since the
last update. -/
structure ModuleGraph where
  modules : Table Addr Module := fun _ => none
  igatesOf : Addr → List (Option Addr) := fun _ => []
  ogatesOf : Addr → List (Option Addr) := fun _ => []
  igates : Table Addr IGate := fun _ => none
  ogates : Table Addr OGate := fun _ => none
  allModules : List Addr := []
  tasks : List Addr := []
  changesMade : Bool := false
  gateCnt : Nat := 0

/-- `std::vector::resize` with null pointers, to a larger size only. -/
def resize (gates : List (Option Addr)) (n : Nat) : List (Option Addr) :=
  gates ++ List.replicate (n - gates.length) none

theorem getD_resize (gates : List (Option Addr)) (n k : Nat) :
    (resize gates n).getD k none = gates.getD k none := by
  unfold resize
  by_cases hk : k < gates.length
  · rw [getD_append _ _ _ _ hk]
  · rw [getD_append_right _ _ _ _ (Nat.le_of_not_lt hk), getD_eq_default gates none
      (Nat.le_of_not_lt hk)]
    by_cases hk' :
        k - gates.length < (List.replicate (n - gates.length) (none : Option Addr)).length
    · rw [getD_eq_getElem _ _ hk', getElem_replicate]
    · rw [getD_eq_default _ _ (Nat.le_of_not_lt hk')]

theorem lt_length_resize (gates : List (Option Addr)) (k : Nat) :
    k < (resize gates (k + 1)).length := by
  rw [resize, length_append, length_replicate]
  omega

namespace ModuleGraph

variable (s : ModuleGraph)

def igateAt (m : Addr) (k : Nat) : Option Addr := (s.igatesOf m).getD k none
def ogateAt (m : Addr) (k : Nat) : Option Addr := (s.ogatesOf m).getD k none

def resizeIgates (m : Addr) (n : Nat) : ModuleGraph :=
  { s with igatesOf := update s.igatesOf m (resize (s.igatesOf m) n) }

def resizeOgates (m : Addr) (n : Nat) : ModuleGraph :=
  { s with ogatesOf := update s.ogatesOf m (resize (s.ogatesOf m) n) }

def setIgate (m : Addr) (k : Nat) (igate : Option Addr) : ModuleGraph :=
  { s with igatesOf := update s.igatesOf m ((s.igatesOf m).set k igate) }

def setOgate (m : Addr) (k : Nat) (ogate : Option Addr) : ModuleGraph :=
  { s with ogatesOf := update s.ogatesOf m ((s.ogatesOf m).set k ogate) }

def putIgate (i : Addr) (igate : Option IGate) : ModuleGraph :=
  { s with igates := update s.igates i igate }

def putOgate (o : Addr) (ogate : Option OGate) : ModuleGraph :=
  { s with ogates := update s.ogates o ogate }

def pushOgate (i o : Addr) : ModuleGraph :=
  s.putIgate i ((s.igates i).map fun ig =>
    let ogatesUpstream := ig.ogatesUpstream ++ [o]
    { ig with ogatesUpstream, mergeable := ogatesUpstream.length > 1 })

/-- `IGate::RemoveOgate` returns from inside its loop when it has found the gate, so
that the mark is only computed where there was nothing to remove. -/
def removeOgate (i o : Addr) : ModuleGraph :=
  s.putIgate i ((s.igates i).map fun ig =>
    if o ∈ ig.ogatesUpstream then { ig with ogatesUpstream := ig.ogatesUpstream.erase o }
    else { ig with mergeable := ig.ogatesUpstream.length > 1 })

def ebusy : Int := 16
def einval : Int := 22

def takeIgate (mNext : Addr) (igateIdx : Nat) (newI : Addr) : Addr × ModuleGraph :=
  match s.igateAt mNext igateIdx with
  | some igate => (igate, s)
  | none =>
    (newI, (s.putIgate newI (some { module := mNext, gateIdx := igateIdx })).setIgate mNext
      igateIdx (some newI))

/-- `Module::ConnectGate`, with the addresses of the objects it may create. -/
def connectGate (m : Addr) (ogateIdx : Nat) (mNext : Addr) (igateIdx : Nat) (newO newI : Addr) :
    Int × ModuleGraph :=
  if (s.ogateAt m ogateIdx).isSome then (-ebusy, s)
  else
    let s := (s.resizeOgates m (ogateIdx + 1)).resizeIgates mNext (igateIdx + 1)
    let (igate, s) := s.takeIgate mNext igateIdx newI
    let s := s.setOgate m ogateIdx (some newO)
    let ogate : OGate :=
      { module := m
        gateIdx := ogateIdx
        next := mNext
        igate
        igateIdx := ((s.igates igate).map IGate.gateIdx).getD 0 }
    (0, (s.putOgate newO (some ogate)).pushOgate igate newO)

def dropIgate (i : Addr) : ModuleGraph :=
  match s.igates i with
  | none => s
  | some ig =>
    if ig.ogatesUpstream = [] then (s.setIgate ig.module ig.gateIdx none).putIgate i none else s

def disconnectGate (m : Addr) (ogateIdx : Nat) : ModuleGraph :=
  match s.ogateAt m ogateIdx with
  | none => s
  | some o =>
    match s.ogates o with
    | none => s
    | some og =>
      (((s.removeOgate og.igate o).dropIgate og.igate).setOgate m ogateIdx none).putOgate o none

/-- The body of the loop in `Module::DisconnectModulesUpstream`. -/
def cutOgate (o : Addr) : ModuleGraph :=
  match s.ogates o with
  | none => s
  | some og => (s.setOgate og.module og.gateIdx none).putOgate o none

/-- `Module::DisconnectModulesUpstream`.  An index beyond those of the module ends the
program instead. -/
def disconnectModulesUpstream (m : Addr) (igateIdx : Nat) : ModuleGraph :=
  match s.igateAt m igateIdx with
  | none => s
  | some i =>
    match s.igates i with
    | none => s
    | some ig =>
      ((ig.ogatesUpstream.foldl cutOgate s).setIgate m igateIdx none).putIgate i none

def destroyIgates (m : Addr) : ModuleGraph :=
  (List.range (s.igatesOf m).length).foldl (fun s k => s.disconnectModulesUpstream m k) s

def destroyOgates (m : Addr) : ModuleGraph :=
  (List.range (s.ogatesOf m).length).foldl (fun s k => s.disconnectGate m k) s

def destroy (m : Addr) : ModuleGraph := (s.destroyIgates m).destroyOgates m

def createModule (m : Addr) (isTask : Bool) (numIGates numOGates : Nat) : ModuleGraph :=
  { s with
    modules := update s.modules m (some { isTask, numIGates, numOGates })
    igatesOf := update s.igatesOf m []
    ogatesOf := update s.ogatesOf m []
    allModules := m :: s.allModules
    tasks := if isTask then m :: s.tasks else s.tasks }

def numIGates (m : Addr) : Nat := ((s.modules m).map Module.numIGates).getD 0
def numOGates (m : Addr) : Nat := ((s.modules m).map Module.numOGates).getD 0

def maxGates : Nat := 8192

def connectModules (m : Addr) (ogateIdx : Nat) (mNext : Addr) (igateIdx : Nat)
    (newO newI : Addr) : Int × ModuleGraph :=
  if ogateIdx ≥ s.numOGates m ∨ ogateIdx ≥ maxGates then (-einval, s)
  else if igateIdx ≥ s.numIGates mNext ∨ igateIdx ≥ maxGates then (-einval, s)
  else
    ({ s with changesMade := true } : ModuleGraph).connectGate m ogateIdx mNext igateIdx newO newI

def disconnectModule (m : Addr) (ogateIdx : Nat) : Int × ModuleGraph :=
  if ogateIdx ≥ s.numOGates m then (-einval, s)
  else (0, ({ s with changesMade := true } : ModuleGraph).disconnectGate m ogateIdx)

def destroyModule (m : Addr) : ModuleGraph :=
  let s := ({ s with changesMade := true } : ModuleGraph).destroy m
  { s with
    modules := update s.modules m none
    allModules := s.allModules.erase m
    tasks := s.tasks.erase m }

variable {s}

@[simp] theorem igateAt_resizeIgates (m : Addr) (n : Nat) (x : Addr) (j : Nat) :
    (s.resizeIgates m n).igateAt x j = s.igateAt x j := by
  unfold igateAt resizeIgates
  by_cases hx : x = m
  · subst hx
    simp only [update_self, getD_resize]
  · simp only [update_of_ne hx]

@[simp] theorem ogateAt_resizeOgates (m : Addr) (n : Nat) (x : Addr) (j : Nat) :
    (s.resizeOgates m n).ogateAt x j = s.ogateAt x j := by
  unfold ogateAt resizeOgates
  by_cases hx : x = m
  · subst hx
    simp only [update_self, getD_resize]
  · simp only [update_of_ne hx]

theorem getD_set (gates : List (Option Addr)) (k j : Nat) (v : Option Addr)
    (h : k < gates.length ∨ v = none) :
    (gates.set k v).getD j none = if j = k then v else gates.getD j none := by
  simp only [getD_eq_getElem?_getD, getElem?_set]
  by_cases hj : j = k
  · subst hj
    rw [if_pos rfl, if_pos rfl]
    split
    · rfl
    · rcases h with h | h
      · contradiction
      · rw [h]
        rfl
  · rw [if_neg (Ne.symm hj), if_neg hj]

theorem igateAt_setIgate {m : Addr} {k : Nat} {v : Option Addr}
    (h : k < (s.igatesOf m).length ∨ v = none) (x : Addr) (j : Nat) :
    (s.setIgate m k v).igateAt x j = if x = m ∧ j = k then v else s.igateAt x j := by
  unfold igateAt setIgate
  by_cases hx : x = m
  · subst hx
    simp only [update_self, getD_set _ _ _ _ h, true_and]
  · simp only [update_of_ne hx, hx, false_and, if_false]

theorem ogateAt_setOgate {m : Addr} {k : Nat} {v : Option Addr}
    (h : k < (s.ogatesOf m).length ∨ v = none) (x : Addr) (j : Nat) :
    (s.setOgate m k v).ogateAt x j = if x = m ∧ j = k then v else s.ogateAt x j := by
  unfold ogateAt setOgate
  by_cases hx : x = m
  · subst hx
    simp only [update_self, getD_set _ _ _ _ h, true_and]
  · simp only [update_of_ne hx, hx, false_and, if_false]

/-! What the simple changes leave alone. -/

@[simp] theorem ogateAt_resizeIgates (m : Addr) (n : Nat) (x : Addr) (j : Nat) :
    (s.resizeIgates m n).ogateAt x j = s.ogateAt x j := rfl

@[simp] theorem igateAt_resizeOgates (m : Addr) (n : Nat) (x : Addr) (j : Nat) :
    (s.resizeOgates m n).igateAt x j = s.igateAt x j := rfl

@[simp] theorem ogateAt_setIgate (m : Addr) (k : Nat) (v : Option Addr) (x : Addr) (j : Nat) :
    (s.setIgate m k v).ogateAt x j = s.ogateAt x j := rfl

@[simp] theorem igateAt_setOgate (m : Addr) (k : Nat) (v : Option Addr) (x : Addr) (j : Nat) :
    (s.setOgate m k v).igateAt x j = s.igateAt x j := rfl

@[simp] theorem igateAt_putIgate (i : Addr) (v : Option IGate) (x : Addr) (j : Nat) :
    (s.putIgate i v).igateAt x j = s.igateAt x j := rfl

@[simp] theorem ogateAt_putIgate (i : Addr) (v : Option IGate) (x : Addr) (j : Nat) :
    (s.putIgate i v).ogateAt x j = s.ogateAt x j := rfl

@[simp] theorem igateAt_putOgate (o : Addr) (v : Option OGate) (x : Addr) (j : Nat) :
    (s.putOgate o v).igateAt x j = s.igateAt x j := rfl

@[simp] theorem ogateAt_putOgate (o : Addr) (v : Option OGate) (x : Addr) (j : Nat) :
    (s.putOgate o v).ogateAt x j = s.ogateAt x j := rfl

@[simp] theorem igates_putIgate (i : Addr) (v : Option IGate) :
    (s.putIgate i v).igates = update s.igates i v := rfl

@[simp] theorem igates_putOgate (o : Addr) (v : Option OGate) :
    (s.putOgate o v).igates = s.igates := rfl

@[simp] theorem ogates_putIgate (i : Addr) (v : Option IGate) :
    (s.putIgate i v).ogates = s.ogates := rfl

@[simp] theorem ogates_putOgate (o : Addr) (v : Option OGate) :
    (s.putOgate o v).ogates = update s.ogates o v := rfl

@[simp] theorem igates_setIgate (m : Addr) (k : Nat) (v : Option Addr) :
    (s.setIgate m k v).igates = s.igates := rfl

@[simp] theorem ogates_setIgate (m : Addr) (k : Nat) (v : Option Addr) :
    (s.setIgate m k v).ogates = s.ogates := rfl

@[simp] theorem igates_setOgate (m : Addr) (k : Nat) (v : Option Addr) :
    (s.setOgate m k v).igates = s.igates := rfl

@[simp] theorem ogates_setOgate (m : Addr) (k : Nat) (v : Option Addr) :
    (s.setOgate m k v).ogates = s.ogates := rfl

@[simp] theorem igates_resizeIgates (m : Addr) (n : Nat) :
    (s.resizeIgates m n).igates = s.igates := rfl

@[simp] theorem ogates_resizeIgates (m : Addr) (n : Nat) :
    (s.resizeIgates m n).ogates = s.ogates := rfl

@[simp] theorem igates_resizeOgates (m : Addr) (n : Nat) :
    (s.resizeOgates m n).igates = s.igates := rfl

@[simp] theorem ogates_resizeOgates (m : Addr) (n : Nat) :
    (s.resizeOgates m n).ogates = s.ogates := rfl

structure SameModules (s s' : ModuleGraph) : Prop where
  modules : s'.modules = s.modules
  allModules : s'.allModules = s.allModules
  tasks : s'.tasks = s.tasks
  gateCnt : s'.gateCnt = s.gateCnt
  changesMade : s'.changesMade = s.changesMade

theorem SameModules.refl (s : ModuleGraph) : SameModules s s := ⟨rfl, rfl, rfl, rfl, rfl⟩

theorem SameModules.trans {s₁ s₂ s₃ : ModuleGraph} (h₁ : SameModules s₁ s₂)
    (h₂ : SameModules s₂ s₃) : SameModules s₁ s₃ :=
  ⟨h₂.1.trans h₁.1, h₂.2.trans h₁.2, h₂.3.trans h₁.3, h₂.4.trans h₁.4, h₂.5.trans h₁.5⟩

/-- A new output gate `o`, connected to the input gate `ig`. -/
structure Connected (s s' : ModuleGraph) (o : Addr) (og : OGate) (ig : IGate) : Prop where
  ogateAt : ∀ x j, s'.ogateAt x j =
    if x = og.module ∧ j = og.gateIdx then some o else s.ogateAt x j
  igateAt : ∀ x j, s'.igateAt x j =
    if x = og.next ∧ j = og.igateIdx then some og.igate else s.igateAt x j
  ogates : s'.ogates = update s.ogates o (some og)
  igates : s'.igates = update s.igates og.igate (some { ig with
    ogatesUpstream := ig.ogatesUpstream ++ [o]
    mergeable := (ig.ogatesUpstream ++ [o]).length > 1 })
  same : SameModules s s'

theorem connectGate_old {m mNext newO newI i : Addr} {k j : Nat} {ig : IGate}
    (hfree : s.ogateAt m k = none) (hi : s.igateAt mNext j = some i) (hig : s.igates i = some ig)
    (hidx : ig.gateIdx = j) :
    Connected s (s.connectGate m k mNext j newO newI).2 newO
      { module := m, gateIdx := k, next := mNext, igate := i, igateIdx := j } ig := by
  have htake : ((s.resizeOgates m (k + 1)).resizeIgates mNext (j + 1)).takeIgate mNext j newI =
      (i, (s.resizeOgates m (k + 1)).resizeIgates mNext (j + 1)) := by
    rw [takeIgate, igateAt_resizeIgates, igateAt_resizeOgates, hi]
  have hroom : k < (((s.resizeOgates m (k + 1)).resizeIgates mNext (j + 1)).ogatesOf m).length := by
    simp only [resizeIgates, resizeOgates, update_self]
    exact lt_length_resize _ k
  simp only [connectGate, hfree, isSome_none, Bool.false_eq_true, if_false, htake]
  refine ⟨fun x y => ?_, fun x y => ?_, ?_, ?_, ⟨rfl, rfl, rfl, rfl, rfl⟩⟩
  · refine (ogateAt_setOgate (.inl hroom) x y).trans ?_
    rw [ogateAt_resizeIgates, ogateAt_resizeOgates]
  · simp only [pushOgate, igateAt_putIgate, igateAt_putOgate, igateAt_setOgate,
      igateAt_resizeIgates, igateAt_resizeOgates]
    split
    case isTrue h => rw [h.1, h.2, hi]
    case isFalse => rfl
  · simp [pushOgate, hig, hidx]
  · simp [pushOgate, hig]

theorem connectGate_new {m mNext newO newI : Addr} {k j : Nat}
    (hfree : s.ogateAt m k = none) (hi : s.igateAt mNext j = none) :
    Connected s (s.connectGate m k mNext j newO newI).2 newO
      { module := m, gateIdx := k, next := mNext, igate := newI, igateIdx := j }
      { module := mNext, gateIdx := j } := by
  have hroomI : j < (((s.resizeOgates m (k + 1)).resizeIgates mNext (j + 1)).igatesOf
      mNext).length := by
    simp only [resizeIgates, update_self]
    exact lt_length_resize _ j
  have hroomO :
      k < (((s.resizeOgates m (k + 1)).resizeIgates mNext (j + 1)).ogatesOf m).length := by
    simp only [resizeIgates, resizeOgates, update_self]
    exact lt_length_resize _ k
  have htake : ((s.resizeOgates m (k + 1)).resizeIgates mNext (j + 1)).takeIgate mNext j newI =
      (newI, (((s.resizeOgates m (k + 1)).resizeIgates mNext (j + 1)).putIgate newI
        (some { module := mNext, gateIdx := j })).setIgate mNext j (some newI)) := by
    rw [takeIgate, igateAt_resizeIgates, igateAt_resizeOgates, hi]
  simp only [connectGate, hfree, isSome_none, Bool.false_eq_true, if_false, htake]
  refine ⟨fun x y => ?_, fun x y => ?_, ?_, ?_, ⟨rfl, rfl, rfl, rfl, rfl⟩⟩
  · refine (ogateAt_setOgate (.inl hroomO) x y).trans ?_
    rw [ogateAt_resizeIgates, ogateAt_resizeOgates]
  · refine (igateAt_setIgate (.inl hroomI) x y).trans ?_
    rw [igateAt_resizeIgates, igateAt_resizeOgates]
  · simp [pushOgate]
  · simp [pushOgate]

/-- An output gate `o` taken off the input gate `ig`, which goes with the last. -/
structure Detached (s s' : ModuleGraph) (o : Addr) (og : OGate) (ig : IGate) : Prop where
  ogateAt : ∀ x j, s'.ogateAt x j =
    if x = og.module ∧ j = og.gateIdx then none else s.ogateAt x j
  igateAt : ∀ x j, s'.igateAt x j =
    if ig.ogatesUpstream.erase o = [] ∧ x = ig.module ∧ j = ig.gateIdx then none
    else s.igateAt x j
  ogates : s'.ogates = update s.ogates o none
  igates : s'.igates = update s.igates og.igate
    (if ig.ogatesUpstream.erase o = [] then none
      else some { ig with ogatesUpstream := ig.ogatesUpstream.erase o })
  same : SameModules s s'

theorem disconnectGate_detached {o : Addr} {og : OGate} {ig : IGate}
    (ho : s.ogateAt og.module og.gateIdx = some o) (hog : s.ogates o = some og)
    (hig : s.igates og.igate = some ig) (hmem : o ∈ ig.ogatesUpstream) :
    Detached s (s.disconnectGate og.module og.gateIdx) o og ig := by
  have hremove : s.removeOgate og.igate o = s.putIgate og.igate
      (some { ig with ogatesUpstream := ig.ogatesUpstream.erase o }) := by
    rw [removeOgate, hig, map_some, if_pos hmem]
  unfold disconnectGate
  rw [ho]
  simp only [hog, hremove]
  unfold dropIgate
  simp only [igates_putIgate, update_self]
  split
  case isTrue hempty =>
    refine ⟨fun x y => ?_, fun x y => ?_, ?_, ?_, ⟨rfl, rfl, rfl, rfl, rfl⟩⟩
    · exact ogateAt_setOgate (.inr rfl) x y
    · simp only [hempty, true_and]
      exact igateAt_setIgate (.inr rfl) x y
    · rfl
    · simp [hempty]
  case isFalse hne =>
    refine ⟨fun x y => ?_, fun x y => ?_, ?_, ?_, ⟨rfl, rfl, rfl, rfl, rfl⟩⟩
    · exact ogateAt_setOgate (.inr rfl) x y
    · simp [hne]
    · rfl
    · simp [hne]

/-- The output gates in a list are gone, from their places and from their addresses. -/
structure Cut (s s' : ModuleGraph) (os : List Addr) : Prop where
  ogateAt : ∀ x j, s'.ogateAt x j = (s.ogateAt x j).filter (· ∉ os)
  igateAt : ∀ x j, s'.igateAt x j = s.igateAt x j
  ogates : ∀ o, s'.ogates o = if o ∈ os then none else s.ogates o
  igates : s'.igates = s.igates
  same : SameModules s s'

/-- The output gates in the vectors are the ones at the addresses, each at its own
place. -/
def OgatesPlaced (s : ModuleGraph) : Prop :=
  ∀ x j o, s.ogateAt x j = some o ↔ ∃ og, s.ogates o = some og ∧ og.module = x ∧ og.gateIdx = j

theorem OgatesPlaced.place (h : s.OgatesPlaced) {o : Addr} {og : OGate}
    (hog : s.ogates o = some og) : s.ogateAt og.module og.gateIdx = some o :=
  (h og.module og.gateIdx o).mpr ⟨og, hog, rfl, rfl⟩

theorem OgatesPlaced.filter (h : s.OgatesPlaced) {s' : ModuleGraph} {os : List Addr}
    (hcut : Cut s s' os) : s'.OgatesPlaced := by
  intro x j o
  rw [hcut.ogateAt, hcut.ogates, filter_eq_some_iff, h x j o]
  by_cases ho : o ∈ os
  · simp [ho]
  · simp [ho]

theorem Cut.trans {s₁ s₂ s₃ : ModuleGraph} {os os' : List Addr} (h₁ : Cut s₁ s₂ os)
    (h₂ : Cut s₂ s₃ os') : Cut s₁ s₃ (os ++ os') := by
  refine ⟨fun x j => ?_, fun x j => (h₂.igateAt x j).trans (h₁.igateAt x j), fun o => ?_,
    h₂.igates.trans h₁.igates, h₁.same.trans h₂.same⟩
  · rw [h₂.ogateAt, h₁.ogateAt, Option.filter_filter]
    congr 1
    funext o
    simp only [mem_append, not_or, Bool.decide_and]
  · rw [h₂.ogates, h₁.ogates]
    by_cases h : o ∈ os <;> by_cases h' : o ∈ os' <;> simp [h, h']

theorem cutOgate_cut (hplaced : s.OgatesPlaced) (o : Addr) : Cut s (s.cutOgate o) [o] := by
  unfold cutOgate
  cases hog : s.ogates o with
  | none =>
    refine ⟨fun x j => ?_, fun x j => rfl, fun o' => ?_, rfl, .refl s⟩
    · cases hx : s.ogateAt x j with
      | none => rfl
      | some o' =>
        have hne : o' ≠ o := by
          rintro rfl
          obtain ⟨og, hsome, -⟩ := (hplaced x j o').mp hx
          rw [hog] at hsome
          cases hsome
        rw [filter_some_pos (by simpa using hne)]
    · by_cases ho : o' = o
      · subst ho
        rw [if_pos mem_cons_self, hog]
      · rw [if_neg (by simpa using ho)]
  | some og =>
    have hplace := hplaced.place hog
    refine ⟨fun x j => ?_, fun x j => rfl, fun o' => ?_, rfl, ⟨rfl, rfl, rfl, rfl, rfl⟩⟩
    · rw [ogateAt_putOgate, ogateAt_setOgate (.inr rfl)]
      by_cases hx : x = og.module ∧ j = og.gateIdx
      · rw [if_pos hx, hx.1, hx.2, hplace, filter_some_neg (by simp)]
      · rw [if_neg hx]
        cases ho' : s.ogateAt x j with
        | none => rfl
        | some o' =>
          have hne : o' ≠ o := by
            rintro rfl
            obtain ⟨og', hog', rfl, rfl⟩ := (hplaced x j o').mp ho'
            cases hog.symm.trans hog'
            exact hx ⟨rfl, rfl⟩
          rw [filter_some_pos (by simpa using hne)]
    · simp only [ogates_putOgate, ogates_setOgate]
      by_cases ho : o' = o
      · subst ho
        rw [update_self, if_pos mem_cons_self]
      · rw [update_of_ne ho, if_neg (by simpa using ho)]

theorem foldl_cutOgate_cut (os : List Addr) :
    ∀ {s : ModuleGraph}, s.OgatesPlaced → Cut s (os.foldl cutOgate s) os := by
  induction os with
  | nil =>
    intro s _
    refine ⟨fun x j => ?_, fun x j => rfl, fun o => by simp, rfl, .refl s⟩
    cases hx : s.ogateAt x j with
    | none => exact hx
    | some o => exact hx.trans (filter_some_pos (by simp)).symm
  | cons o os ih =>
    intro s hplaced
    have hfirst := cutOgate_cut hplaced o
    exact hfirst.trans (ih (hplaced.filter hfirst))

/-- An input gate gone, with all output gates that point to it. -/
structure CutUpstream (s s' : ModuleGraph) (i : Addr) (ig : IGate) : Prop where
  ogateAt : ∀ x j, s'.ogateAt x j = (s.ogateAt x j).filter (· ∉ ig.ogatesUpstream)
  igateAt : ∀ x j, s'.igateAt x j = if x = ig.module ∧ j = ig.gateIdx then none else s.igateAt x j
  ogates : ∀ o, s'.ogates o = if o ∈ ig.ogatesUpstream then none else s.ogates o
  igates : s'.igates = update s.igates i none
  same : SameModules s s'

theorem disconnectModulesUpstream_cut (hplaced : s.OgatesPlaced) {i : Addr} {ig : IGate}
    (hi : s.igateAt ig.module ig.gateIdx = some i) (hig : s.igates i = some ig) :
    CutUpstream s (s.disconnectModulesUpstream ig.module ig.gateIdx) i ig := by
  have hcut := foldl_cutOgate_cut ig.ogatesUpstream hplaced
  unfold disconnectModulesUpstream
  rw [hi]
  simp only [hig]
  refine ⟨hcut.ogateAt, fun x j => ?_, hcut.ogates, ?_, ?_⟩
  · refine (igateAt_setIgate (.inr rfl) x j).trans ?_
    rw [hcut.igateAt]
  · rw [igates_putIgate, igates_setIgate, hcut.igates]
  · exact hcut.same.trans ⟨rfl, rfl, rfl, rfl, rfl⟩

end ModuleGraph

end Upf.Bess
