import Upf.Bess.Pipeline

/-!
# Precedence of PDRs in the ternary match

A PDR of lower precedence value goes first.  Its entries carry the distance of
the value from the largest 32-bit number as their priority, and the module stores
that in a signed 32-bit integer: below half of the range it comes out negative.

Main result: `precedence_respected_iff`.
-/

namespace Upf.Bess

open Lib UInt32 WildcardMatch

def pdrPriority (precedence : UInt32) : Int :=
  toInt32 (maxUint32 - precedence).toNat

def midPrecedence : UInt32 := 0x80000000

def straddles (a b : UInt32) : Prop := a < midPrecedence ∧ midPrecedence ≤ b

instance (a b : UInt32) : Decidable (straddles a b) :=
  inferInstanceAs (Decidable (a < midPrecedence ∧ midPrecedence ≤ b))

theorem lt_midPrecedence {precedence : UInt32} :
    precedence < midPrecedence ↔ precedence.toNat < 2147483648 := by
  rw [lt_iff_toNat_lt]
  rfl

theorem pdrPriority_eq (precedence : UInt32) :
    pdrPriority precedence =
      if precedence.toNat < 2147483648 then -1 - (precedence.toNat : Int)
      else 4294967295 - (precedence.toNat : Int) := by
  have hlt := precedence.toNat_lt
  have hle : precedence ≤ maxUint32 := by
    rw [le_iff_toNat_le]
    exact Nat.le_of_lt_succ hlt
  have hsub : (maxUint32 - precedence).toNat = 4294967295 - precedence.toNat := by
    rw [UInt32.toNat_sub_of_le _ _ hle]
    rfl
  unfold pdrPriority toInt32
  rw [hsub, Int.bmod_def]
  split_ifs <;> omega

/-- Stored priorities are ordered against precedences, except across the
middle, where they are ordered with them. -/
theorem pdrPriority_lt_iff {a b : UInt32} (h : a < b) :
    pdrPriority b < pdrPriority a ↔ ¬ straddles a b := by
  have ha := a.toNat_lt
  have hb := b.toNat_lt
  rw [lt_iff_toNat_lt] at h
  rw [straddles, pdrPriority_eq, pdrPriority_eq, ← UInt32.not_lt, lt_midPrecedence,
    lt_midPrecedence]
  split_ifs <;> omega

theorem pdrPriority_ne {a b : UInt32} (h : a < b) : pdrPriority a ≠ pdrPriority b := by
  have ha := a.toNat_lt
  have hb := b.toNat_lt
  rw [lt_iff_toNat_lt] at h
  rw [pdrPriority_eq, pdrPriority_eq]
  split_ifs <;> omega

variable {A : Type}

def WildcardMatch.pdrRules (wm : WildcardMatch A) (p : Pdr) : List WmRule :=
  match createPortRangeCartesianProduct p.appFilter.srcPortRange p.appFilter.dstPortRange with
  | .error _ => []
  | .ok portRules => portRules.filterMap fun r => (wm.rule (addPDRArg p r)).toOption

variable {wm : WildcardMatch A}

theorem WildcardMatch.mem_pdrRules {p : Pdr} {r : WmRule}
    (h : r ∈ wm.pdrRules p) : ∃ pr, wm.rule (addPDRArg p pr) = .ok r := by
  unfold pdrRules at h
  split at h
  · simp at h
  · rcases List.mem_filterMap.mp h with ⟨pr, -, hrule⟩
    refine ⟨pr, ?_⟩
    cases heq : wm.rule (addPDRArg p pr) with
    | error e => simp [heq, Except.toOption] at hrule
    | ok r' => simpa [heq, Except.toOption] using hrule

theorem WildcardMatch.priority_of_mem_pdrRules {p : Pdr} {r : WmRule}
    (h : r ∈ wm.pdrRules p) : r.data.priority = pdrPriority p.precedence := by
  rcases mem_pdrRules h with ⟨pr, hrule⟩
  have hprio : r.data.priority = toInt32 (addPDRArg p pr).priority := (rule_ok hrule).1
  rw [hprio, addPDRArg, pdrPriority]

def WildcardMatch.Hits (wm : WildcardMatch A) (key : Buffer) (p : Pdr) : Prop :=
  ∃ r ∈ wm.pdrRules p, r ∈ wm.rules ∧ r.Matches key

def WildcardMatch.AnswersWith (wm : WildcardMatch A) (key : Buffer) (p : Pdr) : Prop :=
  ∃ r ∈ wm.pdrRules p, r ∈ wm.rules ∧ r.Matches key ∧ wm.lookupBulkEntry key = some r.data

instance (wm : WildcardMatch A) (key : Buffer) (p : Pdr) : Decidable (wm.Hits key p) :=
  inferInstanceAs (Decidable (∃ r ∈ wm.pdrRules p, r ∈ wm.rules ∧ r.Matches key))

instance (wm : WildcardMatch A) (key : Buffer) (p : Pdr) : Decidable (wm.AnswersWith key p) :=
  inferInstanceAs (Decidable (∃ r ∈ wm.pdrRules p, r ∈ wm.rules ∧ r.Matches key ∧
    wm.lookupBulkEntry key = some r.data))

theorem WildcardMatch.AnswersWith.priority_le {key : Buffer} {p q : Pdr}
    (hp : wm.AnswersWith key p) (hq : wm.Hits key q) :
    pdrPriority q.precedence ≤ pdrPriority p.precedence := by
  rcases hp with ⟨rp, hrp, -, -, hanswer⟩
  rcases hq with ⟨rq, hrq, hmem, hmatch⟩
  rcases lookupBulkEntry_spec hmem hmatch with ⟨best, -, -, hlook, hall⟩
  have hle := hall rq hmem hmatch
  rw [hlook, Option.some.injEq] at hanswer
  rwa [hanswer, priority_of_mem_pdrRules hrp, priority_of_mem_pdrRules hrq] at hle

theorem WildcardMatch.exists_answersWith {key : Buffer} {pdrs : List Pdr}
    (hof : ∀ r ∈ wm.rules, r.Matches key → ∃ p ∈ pdrs, r ∈ wm.pdrRules p)
    (hhit : ∃ p ∈ pdrs, wm.Hits key p) : ∃ p ∈ pdrs, wm.AnswersWith key p := by
  rcases hhit with ⟨q, -, r, -, hmem, hmatch⟩
  rcases lookupBulkEntry_spec hmem hmatch with ⟨best, hbest, hbmatch, hlook, -⟩
  rcases hof best hbest hbmatch with ⟨p, hp, hrule⟩
  exact ⟨p, hp, best, hrule, hbest, hbmatch, hlook⟩

/-- The stored priority decreases from a precedence to a larger one exactly when
the two do not lie on the two sides of the middle.  A packet that matches entries
of some PDRs is answered with an entry of one whose precedence is lowest exactly
when no two of these PDRs do. -/
theorem precedence_respected_iff :
    (∀ a b : UInt32, a < b → (pdrPriority b < pdrPriority a ↔ ¬ straddles a b)) ∧
    ∀ (wm : WildcardMatch A) (key : Buffer) (pdrs : List Pdr),
      (∀ r ∈ wm.rules, r.Matches key → ∃ p ∈ pdrs, r ∈ wm.pdrRules p) →
      (∃ p ∈ pdrs, wm.Hits key p) →
      ((∃ p ∈ pdrs, wm.AnswersWith key p ∧
          ∀ q ∈ pdrs, wm.Hits key q → p.precedence ≤ q.precedence) ↔
        ∀ p ∈ pdrs, ∀ q ∈ pdrs, wm.Hits key p → wm.Hits key q →
          ¬ straddles p.precedence q.precedence) := by
  refine ⟨fun a b h => pdrPriority_lt_iff h, ?_⟩
  intro wm key pdrs hof hhit
  constructor
  · rintro ⟨p, -, hanswer, hlow⟩ p' hp' q hq hhit' hhitq ⟨hlt, hge⟩
    -- The PDR that answers lies below the middle too, and the other one goes first.
    have hbelow : p.precedence < midPrecedence :=
      UInt32.lt_of_le_of_lt (hlow p' hp' hhit') hlt
    have hpq : p.precedence < q.precedence := UInt32.lt_of_lt_of_le hbelow hge
    have hle := hanswer.priority_le hhitq
    have hne := pdrPriority_ne hpq
    have hnot := mt (pdrPriority_lt_iff hpq).mp (not_not_intro ⟨hbelow, hge⟩)
    omega
  · intro hsame
    rcases exists_answersWith hof hhit with ⟨p, hp, hanswer⟩
    refine ⟨p, hp, hanswer, ?_⟩
    intro q hq hhitq
    have hhitp : wm.Hits key p := by
      rcases hanswer with ⟨r, hr, hmem, hmatch, -⟩
      exact ⟨r, hr, hmem, hmatch⟩
    rw [← UInt32.not_lt]
    intro hlt
    have hprio := (pdrPriority_lt_iff hlt).mpr (hsame q hq p hp hhitq hhitp)
    have hle := hanswer.priority_le hhitq
    omega

def uplinkPdr (pdrID precedence teid : UInt32) : Pdr where
  srcIface := access
  srcIfaceMask := 0xff
  tunnelTEID := teid
  tunnelTEIDMask := if teid = 0 then 0 else maxUint32
  precedence
  pdrID
  fseID := 1
  farID := 1
  qerIDList := [1]

def uplinkPacket (teid : Nat) : Packet Attr where
  data _ := 0
  attr
    | .srcIface => [access]
    | .teid => (leBytes 4 teid).reverse
    | _ => []
  trailing _ _ := 0

def pdrLookupHolding (pdrs : List Pdr) : WildcardMatch Attr :=
  ((runAll (Modules.step .willing) (commands .sample .add { pdrs }) {}).getD {}).pdrLookup

/-- With precedences on one side of the middle the PDR of the tunnel goes first. -/
theorem precedence_respected_below :
    let wm := pdrLookupHolding [uplinkPdr 1 100 7, uplinkPdr 2 200 0]
    let key := wm.makeKey (uplinkPacket 7) fun _ => 0xaa
    wm.Hits key (uplinkPdr 2 200 0) ∧ ∃ p ∈ [uplinkPdr 1 100 7, uplinkPdr 2 200 0],
      wm.AnswersWith key p ∧ ∀ q ∈ [uplinkPdr 1 100 7, uplinkPdr 2 200 0],
        wm.Hits key q → p.precedence ≤ q.precedence :=
  ⟨by decide, (precedence_respected_iff.2 _ _ _ (by decide) (by decide)).mpr (by decide)⟩

/-- With precedences on the two sides of the middle the other one answers, although
its precedence is higher. -/
theorem higher_precedence_answers :
    let wm := pdrLookupHolding [uplinkPdr 1 100 7, uplinkPdr 2 0x80000000 0]
    let key := wm.makeKey (uplinkPacket 7) fun _ => 0xaa
    wm.Hits key (uplinkPdr 1 100 7) ∧ wm.AnswersWith key (uplinkPdr 2 0x80000000 0) ∧
      ¬ wm.AnswersWith key (uplinkPdr 1 100 7) ∧
      (uplinkPdr 1 100 7).precedence < (uplinkPdr 2 0x80000000 0).precedence := by
  decide

end Upf.Bess
