import Upf.Lib.KeyedList
import Upf.Pfcp.PortRange

/-!
# Forwarding rules and sessions

The three kinds of rule a PFCP session holds, the session itself, and the
operations of `session_pdr.go`, `session_far.go` and
`session_qer.go` that create, update and remove them.  Rules live in
slices that are searched front to back, so nothing here relies on unique IDs.

`Clone` has no counterpart: it gives a session slices of its own, and the
values of this model are never shared.

Main result: `heldVersions_touched`.
-/

namespace Upf

open Lib List

/-! ## The three kinds of rule -/

/-- Which of the two rate tables a QER is programmed in. -/
inductive QosLevel where
  | applicationQos
  | sessionQos
deriving DecidableEq, Inhabited

structure ApplicationFilter where
  srcIP : UInt32 := 0
  dstIP : UInt32 := 0
  srcPortRange : PortRange := { low := 0, high := 0 }
  dstPortRange : PortRange := { low := 0, high := 0 }
  proto : UInt8 := 0
  srcIPMask : UInt32 := 0
  dstIPMask : UInt32 := 0
  protoMask : UInt8 := 0
deriving DecidableEq

structure Pdr where
  upAllocateFteid : Bool := false
  srcIface : UInt8 := 0
  tunnelIP4Dst : UInt32 := 0
  tunnelTEID : UInt32 := 0
  ueAddress : UInt32 := 0
  srcIfaceMask : UInt8 := 0
  tunnelIP4DstMask : UInt32 := 0
  tunnelTEIDMask : UInt32 := 0
  appFilter : ApplicationFilter := {}
  precedence : UInt32 := 0
  pdrID : UInt32 := 0
  fseID : UInt64 := 0
  fseidIP : UInt32 := 0
  ctrID : UInt32 := 0
  farID : UInt32 := 0
  qerIDList : List UInt32 := []
  needDecap : UInt8 := 0
  allocIPFlag : Bool := false
deriving DecidableEq

structure Far where
  farID : UInt32 := 0
  fseID : UInt64 := 0
  fseidIP : UInt32 := 0
  dstIntf : UInt8 := 0
  sendEndMarker : Bool := false
  applyAction : UInt8 := 0
  tunnelType : UInt8 := 0
  tunnelIP4Src : UInt32 := 0
  tunnelIP4Dst : UInt32 := 0
  tunnelTEID : UInt32 := 0
  tunnelPort : UInt16 := 0
deriving DecidableEq

/-- A QoS enforcement rule; rates are in kilobits per second. -/
structure Qer where
  qerID : UInt32 := 0
  qosLevel : QosLevel := .applicationQos
  qfi : UInt8 := 0
  ulStatus : UInt8 := 0
  dlStatus : UInt8 := 0
  ulMbr : UInt64 := 0
  dlMbr : UInt64 := 0
  ulGbr : UInt64 := 0
  dlGbr : UInt64 := 0
  fseID : UInt64 := 0
  fseidIP : UInt32 := 0
deriving DecidableEq

def actionDrop : UInt8 := 0x1
def actionForward : UInt8 := 0x2
def actionBuffer : UInt8 := 0x4
def actionNotify : UInt8 := 0x8

namespace Pdr

def isUplink (p : Pdr) : Bool := p.srcIface == access

def isDownlink (p : Pdr) : Bool := p.srcIface == core

def occupiesSameEntryAs (p other : Pdr) : Bool :=
  p.srcIface == other.srcIface &&
  p.srcIfaceMask == other.srcIfaceMask &&
  p.tunnelIP4Dst == other.tunnelIP4Dst &&
  p.tunnelIP4DstMask == other.tunnelIP4DstMask &&
  p.tunnelTEID == other.tunnelTEID &&
  p.tunnelTEIDMask == other.tunnelTEIDMask &&
  p.appFilter.srcIP == other.appFilter.srcIP &&
  p.appFilter.srcIPMask == other.appFilter.srcIPMask &&
  p.appFilter.dstIP == other.appFilter.dstIP &&
  p.appFilter.dstIPMask == other.appFilter.dstIPMask &&
  p.appFilter.proto == other.appFilter.proto &&
  p.appFilter.protoMask == other.appFilter.protoMask &&
  p.appFilter.srcPortRange.sameMatch other.appFilter.srcPortRange &&
  p.appFilter.dstPortRange.sameMatch other.appFilter.dstPortRange

end Pdr

def Qer.occupiesSameEntryAs (q other : Qer) : Bool := q.qosLevel == other.qosLevel

/-! ## Rule sets and sessions -/

structure PacketForwardingRules where
  pdrs : List Pdr := []
  fars : List Far := []
  qers : List Qer := []
deriving DecidableEq

namespace PacketForwardingRules

/-- All rules of a set belong to one session. -/
structure OwnedBy (p : PacketForwardingRules) (seid : UInt64) : Prop where
  pdrs : ∀ v ∈ p.pdrs, v.fseID = seid
  fars : ∀ v ∈ p.fars, v.fseID = seid
  qers : ∀ v ∈ p.qers, v.fseID = seid

structure Sub (p other : PacketForwardingRules) : Prop where
  pdrs : ∀ v ∈ p.pdrs, v ∈ other.pdrs
  fars : ∀ v ∈ p.fars, v ∈ other.fars
  qers : ∀ v ∈ p.qers, v ∈ other.qers

theorem OwnedBy.sub {p other : PacketForwardingRules} {seid : UInt64} (h : other.OwnedBy seid)
    (hsub : p.Sub other) : p.OwnedBy seid :=
  ⟨fun v hv => h.pdrs v (hsub.pdrs v hv), fun v hv => h.fars v (hsub.fars v hv),
    fun v hv => h.qers v (hsub.qers v hv)⟩

def findPDR (p : PacketForwardingRules) (id : UInt32) : Option Pdr :=
  p.pdrs.find? fun v => v.pdrID == id

def findQER (p : PacketForwardingRules) (id : UInt32) : Option Qer :=
  p.qers.find? fun v => v.qerID == id

end PacketForwardingRules

structure PFCPSession where
  localSEID : UInt64
  remoteSEID : UInt64
  rules : PacketForwardingRules := {}
deriving DecidableEq

namespace PFCPSession

variable (s : PFCPSession)

def createPDR (p : Pdr) : PFCPSession :=
  { s with rules := { s.rules with pdrs := s.rules.pdrs ++ [p] } }

def createFAR (f : Far) : PFCPSession :=
  { s with rules := { s.rules with fars := s.rules.fars ++ [f] } }

def createQER (q : Qer) : PFCPSession :=
  { s with rules := { s.rules with qers := s.rules.qers ++ [q] } }

def updatePDR (p : Pdr) : Except GoError PFCPSession :=
  match KeyedList.replaceFirst Pdr.pdrID p s.rules.pdrs with
  | some pdrs => .ok { s with rules := { s.rules with pdrs } }
  | none => .error (.notFound "PDR")

def updateQER (q : Qer) : Except GoError PFCPSession :=
  match KeyedList.replaceFirst Qer.qerID q s.rules.qers with
  | some qers => .ok { s with rules := { s.rules with qers } }
  | none => .error (.notFound "QER")

def removePDR (id : UInt32) : Except GoError (Pdr × PFCPSession) :=
  match KeyedList.takeFirst Pdr.pdrID id s.rules.pdrs with
  | some (p, pdrs) => .ok (p, { s with rules := { s.rules with pdrs } })
  | none => .error (.notFound "PDR")

def removeFAR (id : UInt32) : Except GoError (Far × PFCPSession) :=
  match KeyedList.takeFirst Far.farID id s.rules.fars with
  | some (f, fars) => .ok (f, { s with rules := { s.rules with fars } })
  | none => .error (.notFound "FAR")

def removeQER (id : UInt32) : Except GoError (Qer × PFCPSession) :=
  match KeyedList.takeFirst Qer.qerID id s.rules.qers with
  | some (q, qers) => .ok (q, { s with rules := { s.rules with qers } })
  | none => .error (.notFound "QER")

end PFCPSession

/-! ## The rules a message touched -/

section HeldVersions

variable {R : Type} (id : R → UInt32)

/-- The walk over the rules the session had before the message: each ID is
looked at once, and its rule kept if some update names it. -/
def heldVersionsLoop (updated : List R) : List UInt32 → List R → List R
  | _, [] => []
  | seen, r :: rs =>
    if id r ∈ seen then heldVersionsLoop updated seen rs
    else if updated.any fun u => id u == id r then
      r :: heldVersionsLoop updated (id r :: seen) rs
    else heldVersionsLoop updated (id r :: seen) rs

/-- What a session holds of the rules a message created or updated: the rules
past the first `kept`, then the updated ones among the first `kept`,
with the number of created ones. -/
def heldVersions (held : List R) (kept : Nat) (updated : List R) : List R × Nat :=
  (held.drop kept ++ heldVersionsLoop id updated [] (held.take kept), (held.drop kept).length)

variable {id} {updated : List R} {seen seen' : List UInt32} {l : List R}

theorem any_id_eq_iff {r : R} :
    (updated.any fun u => id u == id r) = true ↔ id r ∈ updated.map id := by
  simp

theorem heldVersionsLoop_congr (h : ∀ k, k ∈ seen ↔ k ∈ seen') :
    heldVersionsLoop id updated seen l = heldVersionsLoop id updated seen' l := by
  induction l generalizing seen seen' with
  | nil => rfl
  | cons r rs ih =>
    have hcons : ∀ k, k ∈ id r :: seen ↔ k ∈ id r :: seen' := by simp [h]
    simp only [heldVersionsLoop, h (id r), ih h, ih hcons]

theorem mem_of_mem_heldVersionsLoop {r : R} (h : r ∈ heldVersionsLoop id updated seen l) :
    r ∈ l ∧ id r ∈ updated.map id := by
  induction l generalizing seen with
  | nil => simp [heldVersionsLoop] at h
  | cons x xs ih =>
    unfold heldVersionsLoop at h
    split at h
    · exact (ih h).imp_left (mem_cons_of_mem _)
    · split at h
      · rename_i hany
        rcases mem_cons.mp h with rfl | h
        · exact ⟨mem_cons_self, any_id_eq_iff.mp hany⟩
        · exact (ih h).imp_left (mem_cons_of_mem _)
      · exact (ih h).imp_left (mem_cons_of_mem _)

theorem heldVersionsLoop_map {f : R → R} (hf : ∀ r, id (f r) = id r) :
    heldVersionsLoop id updated seen (l.map f) = (heldVersionsLoop id updated seen l).map f := by
  induction l generalizing seen with
  | nil => rfl
  | cons r rs ih =>
    simp only [map_cons, heldVersionsLoop, hf, ih]
    split
    · rfl
    · split <;> rfl

/-- After a sequence of updates every rule is an old one or among the kept
ones, even when the session holds an ID twice: an update only ever changes the
first rule of an ID, which is the one the walk keeps. -/
theorem mem_heldVersions_of_revised {old : List R} {x : R}
    (h : KeyedList.Revised id (updated.map id) seen old l) (hx : x ∈ l) :
    x ∈ old ∨ x ∈ heldVersionsLoop id updated seen l := by
  induction h with
  | nil => simp at hx
  | @cons seen b r bs rs hkey hval tail ih =>
    rcases mem_cons.mp hx with rfl | hx
    · rcases hval with rfl | ⟨htouched, hseen⟩
      · exact .inl mem_cons_self
      · right
        rw [← hkey] at htouched hseen
        rw [heldVersionsLoop, if_neg hseen, if_pos (any_id_eq_iff.mpr htouched)]
        exact mem_cons_self
    · rcases ih hx with hold | hkept
      · exact .inl (mem_cons_of_mem _ hold)
      · right
        rw [← hkey] at hkept
        unfold heldVersionsLoop
        split
        · rename_i hseen
          have hsame : ∀ k, k ∈ id r :: seen ↔ k ∈ seen := by
            intro k
            simp only [mem_cons, or_iff_right_iff_imp]
            rintro rfl
            exact hseen
          rwa [heldVersionsLoop_congr hsame] at hkept
        · split
          · exact mem_cons_of_mem _ hkept
          · exact hkept

theorem mem_heldVersionsLoop_iff {r : R} (hnodup : (l.map id).Nodup) :
    r ∈ heldVersionsLoop id updated [] l ↔ r ∈ l ∧ id r ∈ updated.map id := by
  suffices haux : ∀ seen : List UInt32, (∀ x ∈ l, id x ∉ seen) →
      r ∈ l → id r ∈ updated.map id → r ∈ heldVersionsLoop id updated seen l by
    constructor
    · exact mem_of_mem_heldVersionsLoop
    · rintro ⟨hr, hup⟩
      exact haux [] (by simp) hr hup
  intro seen hseen hr hup
  induction l generalizing seen with
  | nil => simp at hr
  | cons x xs ih =>
    rw [map_cons, nodup_cons] at hnodup
    have hx : id x ∉ seen := hseen x mem_cons_self
    have hxs : ∀ y ∈ xs, id y ∉ id x :: seen := by
      intro y hy hmem
      rcases mem_cons.mp hmem with heq | hmem
      · exact hnodup.1 (heq ▸ mem_map_of_mem hy)
      · exact hseen y (mem_cons_of_mem _ hy) hmem
    unfold heldVersionsLoop
    rw [if_neg hx]
    rcases mem_cons.mp hr with rfl | hr
    · rw [if_pos (any_id_eq_iff.mpr hup)]
      exact mem_cons_self
    · split
      · exact mem_cons_of_mem _ (ih hnodup.2 _ hxs hr)
      · exact ih hnodup.2 _ hxs hr

theorem exists_version {old : List R} {o : R}
    (h : KeyedList.Revised id (updated.map id) [] old l) (hnodup : (old.map id).Nodup)
    (ho : o ∈ old) :
    ∃ r ∈ l, id r = id o ∧ (r = o ∨ r ∈ heldVersionsLoop id updated [] l) := by
  rcases h.exists_new ho with ⟨r, hr, hid, heq | htouched⟩
  · exact ⟨r, hr, hid, .inl heq⟩
  · refine ⟨r, hr, hid, .inr ((mem_heldVersionsLoop_iff ?_).mpr ⟨hr, hid ▸ htouched⟩)⟩
    rwa [h.map_key]

def replacedAt (id : R → UInt32) (held : List R) : List R → List Nat
  | [] => []
  | u :: us =>
    (held.findIdx? fun v => id v == id u).toList ++
      replacedAt id ((KeyedList.replaceFirst id u held).getD held) us

/-- A position holds the first rule of an ID, which is not among those
`seen` before. -/
def FirstAt (seen ids : List UInt32) (j : Nat) (k : UInt32) : Prop :=
  ids[j]? = some k ∧ k ∉ seen ∧ ∀ i < j, ids[i]? ≠ some k

theorem firstAt_cons_zero {ids : List UInt32} {x k : UInt32} :
    FirstAt seen (x :: ids) 0 k ↔ x = k ∧ k ∉ seen := by
  simp [FirstAt]

theorem firstAt_cons_succ {ids : List UInt32} {x k : UInt32} {j : Nat} :
    FirstAt seen (x :: ids) (j + 1) k ↔ FirstAt (x :: seen) ids j k := by
  simp only [FirstAt, getElem?_cons_succ, mem_cons, not_or]
  constructor
  · rintro ⟨hat, hseen, hbefore⟩
    refine ⟨hat, ⟨?_, hseen⟩, fun i hi => hbefore (i + 1) (by omega)⟩
    rintro rfl
    exact hbefore 0 (by omega) rfl
  · rintro ⟨hat, ⟨hx, hseen⟩, hbefore⟩
    refine ⟨hat, hseen, ?_⟩
    intro i hi
    cases i with
    | zero => exact fun heq => hx (Option.some.inj heq).symm
    | succ i => exact hbefore i (by omega)

theorem findIdx?_eq_some_iff_firstAt {u : R} {j : Nat} :
    (l.findIdx? fun v => id v == id u) = some j ↔ FirstAt [] (l.map id) j (id u) := by
  have hids : ∀ i, (l.map id)[i]? = some (id u) ↔ ∃ hi : i < l.length, id l[i] = id u := by
    intro i
    simp [getElem?_eq_some_iff]
  simp only [findIdx?_eq_some_iff_getElem, beq_iff_eq, FirstAt, ne_eq, hids]
  constructor
  · rintro ⟨hj, hat, hbefore⟩
    exact ⟨⟨hj, hat⟩, by simp, fun i hi ⟨_, hid⟩ => hbefore i hi hid⟩
  · rintro ⟨⟨hj, hat⟩, -, hbefore⟩
    exact ⟨hj, hat, fun i hi hid => hbefore i hi ⟨by omega, hid⟩⟩

theorem firstAt_take {ids : List UInt32} {n j : Nat} {k : UInt32} :
    FirstAt seen (ids.take n) j k ↔ j < n ∧ FirstAt seen ids j k := by
  simp only [FirstAt, getElem?_take]
  constructor
  · rintro ⟨hat, hseen, hbefore⟩
    have hj : j < n := by
      by_contra hge
      simp [hge] at hat
    rw [if_pos hj] at hat
    refine ⟨hj, hat, hseen, fun i hi => ?_⟩
    have hnot := hbefore i hi
    rwa [if_pos (by omega)] at hnot
  · rintro ⟨hj, hat, hseen, hbefore⟩
    refine ⟨by rwa [if_pos hj], hseen, fun i hi => ?_⟩
    rw [if_pos (by omega)]
    exact hbefore i hi

/-- The walk keeps, in order, what stands at the first positions of the IDs an
update names. -/
theorem heldVersionsLoop_positions (updated : List R) (seen : List UInt32) (l : List R) :
    ∃ positions : List Nat, positions.Pairwise (· < ·) ∧
      (∀ j, j ∈ positions ↔ ∃ k ∈ updated.map id, FirstAt seen (l.map id) j k) ∧
      (heldVersionsLoop id updated seen l).map some = positions.map fun j => l[j]? := by
  induction l generalizing seen with
  | nil => exact ⟨[], List.Pairwise.nil, by simp [FirstAt], rfl⟩
  | cons x xs ih =>
    rcases ih (id x :: seen) with ⟨positions, hsorted, hmem, hvals⟩
    have hlater : (positions.map (· + 1)).Pairwise (· < ·) :=
      hsorted.map _ fun _ _ hlt => by omega
    have hafter : (heldVersionsLoop id updated (id x :: seen) xs).map some =
        (positions.map (· + 1)).map fun j => (x :: xs)[j]? := by
      rw [hvals, map_map]
      exact map_congr_left fun j _ => by simp
    have hsucc : ∀ j, j + 1 ∈ positions.map (· + 1) ↔
        ∃ k ∈ updated.map id, FirstAt seen ((x :: xs).map id) (j + 1) k := by
      intro j
      simp only [map_cons, firstAt_cons_succ, ← hmem]
      simp
    by_cases hkept : id x ∉ seen ∧ id x ∈ updated.map id
    · refine ⟨0 :: positions.map (· + 1), ?_, ?_, ?_⟩
      · exact pairwise_cons.mpr ⟨by simp, hlater⟩
      · intro j
        cases j with
        | zero =>
          simp only [mem_cons_self, true_iff]
          exact ⟨id x, hkept.2, firstAt_cons_zero.mpr ⟨rfl, hkept.1⟩⟩
        | succ j =>
          rw [mem_cons, ← hsucc j]
          simp
      · rw [heldVersionsLoop, if_neg hkept.1, if_pos (any_id_eq_iff.mpr hkept.2), map_cons,
          hafter, map_cons]
        rfl
    · refine ⟨positions.map (· + 1), hlater, ?_, ?_⟩
      · intro j
        cases j with
        | zero =>
          simp only [mem_map, Nat.add_eq_zero_iff, one_ne_zero, and_false, exists_false,
            false_iff, not_exists]
          rintro k ⟨hk, hfirst⟩
          rcases firstAt_cons_zero.mp hfirst with ⟨rfl, hseen⟩
          exact hkept ⟨hseen, by simpa using hk⟩
        | succ j => exact hsucc j
      · rw [← hafter, heldVersionsLoop]
        by_cases hseen : id x ∈ seen
        · have hsame : ∀ k, k ∈ seen ↔ k ∈ id x :: seen := by
            intro k
            simp only [mem_cons, iff_or_self]
            rintro rfl
            exact hseen
          rw [if_pos hseen, heldVersionsLoop_congr hsame]
        · rw [if_neg hseen, if_neg]
          intro hany
          exact hkept ⟨hseen, any_id_eq_iff.mp hany⟩

theorem mem_replacedAt {held us : List R} {j : Nat} :
    j ∈ replacedAt id held us ↔ ∃ k ∈ us.map id, FirstAt [] (held.map id) j k := by
  induction us generalizing held with
  | nil => simp [replacedAt]
  | cons u us ih =>
    have hkeys : ((KeyedList.replaceFirst id u held).getD held).map id = held.map id := by
      cases hu : KeyedList.replaceFirst id u held with
      | none => rfl
      | some => exact KeyedList.replaceFirst_map_key hu
    simp only [replacedAt, mem_append, ih, hkeys, Option.mem_toList,
      findIdx?_eq_some_iff_firstAt, map_cons, mem_cons, exists_eq_or_imp]

/-- What a message wrote of the rules of one kind: the positions it appended or
replaced, each once and the appended ones first, with what stands there now. -/
theorem heldVersions_touched (old creates updates : List R) :
    let after := updates.foldl (KeyedList.Revised.step id) (old ++ creates, [])
    let written := heldVersions id after.1 old.length after.2
    written.2 = creates.length ∧
    ∃ positions : List Nat, positions.Nodup ∧
      (∀ j, j ∈ positions ↔ (old.length ≤ j ∧ j < (old ++ creates).length) ∨
        j ∈ replacedAt id (old ++ creates) updates) ∧
      positions.take creates.length = List.range' old.length creates.length ∧
      written.1.map some = positions.map fun j => after.1[j]? := by
  intro after written
  have hkeys : after.1.map id = (old ++ creates).map id := by
    rcases KeyedList.Revised.foldl_step id updates creates [] (.refl _ _ old) with
      ⟨l', c', more, hfold, hrev, hc, -⟩
    simp [after, hfold, hrev.map_key, hc]
  have hfound : after.2 = updates.filter fun u => decide (id u ∈ (old ++ creates).map id) :=
    KeyedList.Revised.foldl_step_found id updates (old ++ creates)
  have hlen : after.1.length = old.length + creates.length := by
    simpa using congrArg List.length hkeys
  rcases @heldVersionsLoop_positions R id after.2 [] (after.1.take old.length) with
    ⟨positions, hsorted, hmem, hvals⟩
  -- An update that found no rule names no position, so the filter drops nothing.
  have hfirst : ∀ j, j ∈ positions ↔
      j < old.length ∧ j ∈ replacedAt id (old ++ creates) updates := by
    intro j
    rw [hmem, mem_replacedAt, map_take, hkeys]
    simp only [firstAt_take, hfound]
    constructor
    · rintro ⟨k, hk, hj, hat⟩
      rcases mem_map.mp hk with ⟨u, hu, rfl⟩
      exact ⟨hj, id u, mem_map_of_mem (mem_of_mem_filter hu), hat⟩
    · rintro ⟨hj, k, hk, hat⟩
      rcases mem_map.mp hk with ⟨u, hu, rfl⟩
      refine ⟨id u, mem_map_of_mem (mem_filter.mpr ⟨hu, ?_⟩), hj, hat⟩
      simpa using mem_of_getElem? hat.1
  have hcreated : (after.1.drop old.length).map some =
      (List.range' old.length creates.length).map fun j => after.1[j]? := by
    apply ext_getElem?
    intro i
    rcases Nat.lt_or_ge i creates.length with hi | hi
    · simp [getElem?_drop, hi, show old.length + i < after.1.length by omega]
    · simp [hlen, hi]
  refine ⟨?_, List.range' old.length creates.length ++ positions, ?_, ?_, ?_, ?_⟩
  · simp [written, heldVersions, hlen]
  · refine nodup_append.mpr ⟨nodup_range', hsorted.imp ne_of_lt, ?_⟩
    intro i hi j hj heq
    have hlow := (mem_range'_1.mp hi).1
    have hhigh := ((hfirst j).mp hj).1
    omega
  · intro j
    rw [mem_append, hfirst, mem_range'_1, length_append]
    constructor
    · exact Or.imp_right And.right
    · rintro (happ | hrep)
      · exact .inl happ
      · rcases mem_replacedAt.mp hrep with ⟨k, _, hat, -⟩
        have hj : j < (old ++ creates).length := by
          simpa using (List.getElem?_eq_some_iff.mp hat).1
        rw [length_append] at hj
        rcases Nat.lt_or_ge j old.length with hlt | hge
        · exact .inr ⟨hlt, hrep⟩
        · exact .inl ⟨hge, hj⟩
  · simp
  · rw [map_append, ← hcreated]
    simp only [written, heldVersions, map_append, hvals]
    rw [append_cancel_left_eq]
    apply map_congr_left
    intro j hj
    exact getElem?_take_of_lt ((hfirst j).mp hj).1

end HeldVersions

end Upf
