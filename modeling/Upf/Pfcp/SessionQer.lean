import Upf.Lib.Loop
import Upf.Pfcp.Rules

/-!
# Session QER selection

`MarkSessionQer` picks one QER of a session as the session-level one.  It
looks for an ID every PDR names, prefers the largest uplink rate among QERs
without a guaranteed rate, and moves the chosen ID to the end of every PDR's
list.

The embedding keeps three habits of the source that its name does not suggest:
the list of common IDs keeps stale elements behind each intersection, a QER is
marked even when no candidate qualifies (the first one), and no level is ever
reset.
-/

namespace Upf

open List

def intersect (a b : List UInt32) : List UInt32 := a.filter fun x => b.contains x

def findItemIndex (slice : List UInt32) (val : UInt32) : Nat := slice.idxOf val

/-- The common-ID loop over the PDRs.  `copy` overwrites the front of the
list with each intersection and leaves the rest of it in place. -/
def commonQerIDs : List Pdr → List UInt32 → Option (List UInt32)
  | [], sessQerIDList => some sessQerIDList
  | p :: ps, sessQerIDList =>
    let sList := intersect sessQerIDList p.qerIDList
    if sList.length = 0 then none
    else commonQerIDs ps (sList ++ sessQerIDList.drop sList.length)

/-- What the selection loop has chosen so far. -/
structure SessionQerChoice where
  sessionIdx : Nat := 0
  sessionMbr : UInt64 := 0
  sessQerID : UInt32 := 0
deriving DecidableEq

def selectStep (sessQerIDList : List UInt32) (acc : SessionQerChoice) (item : Qer × Nat) :
    SessionQerChoice :=
  if sessQerIDList.contains item.1.qerID then
    if item.1.ulGbr > 0 || item.1.dlGbr > 0 then acc
    else if item.1.ulMbr ≥ acc.sessionMbr then
      { sessionIdx := item.2, sessionMbr := item.1.ulMbr, sessQerID := item.1.qerID }
    else acc
  else acc

/-- The index of the QER to mark and the ID to move, or nothing if the source
returns before it marks one. -/
def selectSessionQer (pdrs : List Pdr) (qers : List Qer) : Option SessionQerChoice :=
  match pdrs.getLast? with
  | none => none
  | some last =>
    if last.qerIDList.length < 1 || qers.length < 2 then none
    else
      (commonQerIDs pdrs last.qerIDList).map fun sessQerIDList =>
        qers.zipIdx.foldl (selectStep sessQerIDList) {}

def moveToEnd (sessQerID : UInt32) (qerIDList : List UInt32) : List UInt32 :=
  let idx := findItemIndex qerIDList sessQerID
  if idx ≠ qerIDList.length then qerIDList.eraseIdx idx ++ [sessQerID] else qerIDList

def Pdr.moveSessionQer (sessQerID : UInt32) (p : Pdr) : Pdr :=
  { p with qerIDList := moveToEnd sessQerID p.qerIDList }

def Qer.markSession (q : Qer) : Qer := { q with qosLevel := .sessionQos }

/-- Mark the session QER among `qers` and reorder the lists of the PDRs. -/
def markSessionQer (pdrs : List Pdr) (qers : List Qer) : List Pdr × List Qer :=
  match selectSessionQer pdrs qers with
  | none => (pdrs, qers)
  | some choice =>
    (pdrs.map (Pdr.moveSessionQer choice.sessQerID),
      qers.modify choice.sessionIdx Qer.markSession)

/-! ## What marking leaves alone -/

def markPdr (pdrs : List Pdr) (qers : List Qer) (p : Pdr) : Pdr :=
  match selectSessionQer pdrs qers with
  | none => p
  | some choice => p.moveSessionQer choice.sessQerID

theorem markSessionQer_pdrs (pdrs : List Pdr) (qers : List Qer) :
    (markSessionQer pdrs qers).1 = pdrs.map (markPdr pdrs qers) := by
  cases hsel : selectSessionQer pdrs qers with
  | none =>
    have hmark : markPdr pdrs qers = fun p => p := by
      funext p
      simp [markPdr, hsel]
    simp [markSessionQer, hsel, hmark]
  | some choice =>
    have hmark : markPdr pdrs qers = Pdr.moveSessionQer choice.sessQerID := by
      funext p
      simp [markPdr, hsel]
    simp [markSessionQer, hsel, hmark]

theorem markPdr_eq (pdrs : List Pdr) (qers : List Qer) (p : Pdr) :
    markPdr pdrs qers p = { p with qerIDList := (markPdr pdrs qers p).qerIDList } := by
  unfold markPdr
  split <;> rfl

theorem moveToEnd_perm (sessQerID : UInt32) (qerIDList : List UInt32) :
    (moveToEnd sessQerID qerIDList).Perm qerIDList := by
  unfold moveToEnd findItemIndex
  by_cases hmem : sessQerID ∈ qerIDList
  · have hidx : qerIDList.idxOf sessQerID ≠ qerIDList.length :=
      Nat.ne_of_lt (idxOf_lt_length_of_mem hmem)
    simp only [ne_eq, hidx, not_false_eq_true, if_true, eraseIdx_idxOf_eq_erase]
    exact (perm_append_singleton _ _).trans (perm_cons_erase hmem).symm
  · simp [idxOf_eq_length hmem]

theorem markPdr_perm (pdrs : List Pdr) (qers : List Qer) (p : Pdr) :
    (markPdr pdrs qers p).qerIDList.Perm p.qerIDList := by
  unfold markPdr
  split
  · exact .refl _
  · exact moveToEnd_perm _ _

@[simp] theorem markPdr_pdrID (pdrs : List Pdr) (qers : List Qer) (p : Pdr) :
    (markPdr pdrs qers p).pdrID = p.pdrID := by
  rw [markPdr_eq]

@[simp] theorem markPdr_fseID (pdrs : List Pdr) (qers : List Qer) (p : Pdr) :
    (markPdr pdrs qers p).fseID = p.fseID := by
  rw [markPdr_eq]

theorem markSessionQer_qers (pdrs : List Pdr) (qers : List Qer) :
    (markSessionQer pdrs qers).2 =
      match selectSessionQer pdrs qers with
      | none => qers
      | some choice => qers.modify choice.sessionIdx Qer.markSession := by
  unfold markSessionQer
  split <;> rfl

theorem forall₂_markSessionQer (pdrs : List Pdr) (qers : List Qer) :
    List.Forall₂ (fun q₀ q => q = q₀ ∨ q = q₀.markSession) qers (markSessionQer pdrs qers).2 := by
  rw [markSessionQer_qers]
  split
  · exact List.forall₂_same.mpr fun q _ => Or.inl rfl
  · rename_i choice _
    rw [List.forall₂_iff_get]
    refine ⟨by simp, ?_⟩
    intro i h₁ h₂
    simp only [get_eq_getElem, getElem_modify]
    split
    · exact .inr rfl
    · exact .inl rfl

theorem mem_markSessionQer_qers {pdrs : List Pdr} {qers : List Qer} {q : Qer}
    (h : q ∈ (markSessionQer pdrs qers).2) :
    ∃ q₀ ∈ qers, q = q₀ ∨ q = q₀.markSession :=
  Lib.exists_left (forall₂_markSessionQer pdrs qers) h

theorem markSessionQer_ids (pdrs : List Pdr) (qers : List Qer) :
    (markSessionQer pdrs qers).2.map Qer.qerID = qers.map Qer.qerID := by
  have hmark := forall₂_markSessionQer pdrs qers
  generalize (markSessionQer pdrs qers).2 = marked at hmark
  induction hmark with
  | nil => rfl
  | cons hq _ ih => rcases hq with rfl | rfl <;> simp [ih, Qer.markSession]

theorem markSessionQer_unique {pdrs : List Pdr} {qers : List Qer}
    (happ : ∀ q ∈ qers, q.qosLevel = .applicationQos) {q q' : Qer}
    (hq : q ∈ (markSessionQer pdrs qers).2) (hq' : q' ∈ (markSessionQer pdrs qers).2)
    (hlevel : q.qosLevel = .sessionQos) (hlevel' : q'.qosLevel = .sessionQos) : q = q' := by
  rw [markSessionQer_qers] at hq hq'
  split at hq
  · rw [happ q hq] at hlevel
    exact absurd hlevel (by decide)
  · rename_i choice hsel
    rw [hsel] at hq'
    -- Only the element at the chosen index can be at session level.
    have hindex : ∀ r ∈ qers.modify choice.sessionIdx Qer.markSession,
        r.qosLevel = .sessionQos →
        (qers.modify choice.sessionIdx Qer.markSession)[choice.sessionIdx]? = some r := by
      intro r hr hlevel
      rcases mem_iff_getElem.mp hr with ⟨i, hi, rfl⟩
      rw [getElem_modify] at hlevel
      split at hlevel
      · rename_i heq
        subst heq
        exact getElem?_eq_getElem hi
      · rw [happ _ (getElem_mem _)] at hlevel
        exact absurd hlevel (by decide)
    have heq := (hindex q hq hlevel).symm.trans (hindex q' hq' hlevel')
    exact Option.some.inj heq

end Upf
