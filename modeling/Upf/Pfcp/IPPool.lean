import Mathlib.Data.List.AList
import Upf.Pfcp.Basic

/-!
# The UE address pool

The pool of `ip_pool.go`: a queue of free addresses and an inventory of the
addresses leased to sessions, keyed by SEID.  One pool serves every association
of the process.
-/

namespace Upf

open AList Option List

abbrev Inventory := AList fun _ : UInt64 => IP

structure IPPool where
  freePool : List IP
  inventory : Inventory

namespace IPPool

/-- The address of a session: the one it holds, or else the next free one. -/
def lookupOrAllocIP (i : IPPool) (seid : UInt64) : Except GoError IP × IPPool :=
  match i.inventory.lookup seid with
  | some ip => (.ok ip, i)
  | none =>
    match i.freePool with
    | [] => (.error (.operationFailedWithReason "IP allocation" "ip pool empty"), i)
    | ip :: rest =>
      (.ok ip, { freePool := rest, inventory := i.inventory.insert seid ip })

/-- Give the address of a session back, to the end of the queue. -/
def release (i : IPPool) (seid : UInt64) : Bool × IPPool :=
  match i.inventory.lookup seid with
  | none => (false, i)
  | some ip =>
    (true, { freePool := i.freePool ++ [ip], inventory := i.inventory.erase seid })

variable {i i' : IPPool} {seid : UInt64}
variable {ip : IP} {ippool ippool' : Option IPPool}

theorem lookupOrAllocIP_of_some (h : i.inventory.lookup seid = some ip) :
    i.lookupOrAllocIP seid = (.ok ip, i) := by
  simp [lookupOrAllocIP, h]

theorem lookupOrAllocIP_cases (i : IPPool) (seid : UInt64) :
    (∃ ip, i.inventory.lookup seid = some ip ∧ i.lookupOrAllocIP seid = (.ok ip, i)) ∨
    (∃ ip rest, i.inventory.lookup seid = none ∧ i.freePool = ip :: rest ∧
      i.lookupOrAllocIP seid =
        (.ok ip, { freePool := rest, inventory := i.inventory.insert seid ip })) ∨
    (i.inventory.lookup seid = none ∧ i.freePool = [] ∧
      i.lookupOrAllocIP seid =
        (.error (.operationFailedWithReason "IP allocation" "ip pool empty"), i)) := by
  cases hinv : i.inventory.lookup seid with
  | some ip => exact .inl ⟨ip, rfl, lookupOrAllocIP_of_some hinv⟩
  | none =>
    cases hfree : i.freePool with
    | nil => exact .inr (.inr ⟨rfl, rfl, by simp [lookupOrAllocIP, hinv, hfree]⟩)
    | cons ip rest =>
      exact .inr (.inl ⟨ip, rest, rfl, rfl, by simp [lookupOrAllocIP, hinv, hfree]⟩)

theorem lookup_of_lookupOrAllocIP (h : i.lookupOrAllocIP seid = (.ok ip, i')) :
    i'.inventory.lookup seid = some ip := by
  rcases lookupOrAllocIP_cases i seid with ⟨ip', hinv, heq⟩ | ⟨ip', rest, _, _, heq⟩ | ⟨_, _, heq⟩
  · rw [heq, Prod.mk.injEq, Except.ok.injEq] at h
    rcases h with ⟨rfl, rfl⟩
    exact hinv
  · rw [heq, Prod.mk.injEq, Except.ok.injEq] at h
    rcases h with ⟨rfl, rfl⟩
    exact lookup_insert _
  · rw [heq, Prod.mk.injEq] at h
    exact absurd h.1 (by simp)

theorem lookup_lookupOrAllocIP_of_some {k : UInt64}
    (h : i.inventory.lookup k = some ip) :
    (i.lookupOrAllocIP seid).2.inventory.lookup k = some ip := by
  rcases lookupOrAllocIP_cases i seid with ⟨_, _, heq⟩ | ⟨ip', rest, hinv, _, heq⟩ | ⟨_, _, heq⟩
  · rw [heq]
    exact h
  · rw [heq]
    have hne : k ≠ seid := by
      rintro rfl
      rw [hinv] at h
      cases h
    simpa [lookup_insert_ne hne] using h
  · rw [heq]
    exact h

theorem lookupOrAllocIP_twice (i : IPPool) (seid : UInt64) :
    ((i.lookupOrAllocIP seid).2.lookupOrAllocIP seid).2 = (i.lookupOrAllocIP seid).2 := by
  rcases lookupOrAllocIP_cases i seid with ⟨_, _, heq⟩ | ⟨ip, rest, _, _, heq⟩ | ⟨_, _, heq⟩
  · simp only [heq]
  · rw [heq, lookupOrAllocIP_of_some (lookup_insert _)]
  · simp only [heq]

theorem release_cases (i : IPPool) (seid : UInt64) :
    (i.inventory.lookup seid = none ∧ (i.release seid).2 = i) ∨
    (∃ ip, i.inventory.lookup seid = some ip ∧ (i.release seid).2 =
      { freePool := i.freePool ++ [ip], inventory := i.inventory.erase seid }) := by
  cases hinv : i.inventory.lookup seid with
  | none => exact .inl ⟨rfl, by simp [release, hinv]⟩
  | some ip => exact .inr ⟨ip, rfl, by simp [release, hinv]⟩

def Looked (seid : UInt64) (ippool ippool' : Option IPPool) : Prop :=
  ippool' = ippool ∨ ∃ i, ippool = some i ∧ ippool' = some (i.lookupOrAllocIP seid).2

theorem Looked.refl (seid : UInt64) (ippool : Option IPPool) : Looked seid ippool ippool :=
  Or.inl rfl

theorem Looked.trans {ippool₁ ippool₂ ippool₃ : Option IPPool}
    (h₁ : Looked seid ippool₁ ippool₂) (h₂ : Looked seid ippool₂ ippool₃) :
    Looked seid ippool₁ ippool₃ := by
  rcases h₂ with rfl | ⟨i₂, rfl, rfl⟩
  · exact h₁
  · rcases h₁ with heq | ⟨i₁, rfl, heq⟩
    · exact .inr ⟨i₂, heq.symm, rfl⟩
    · rw [Option.some.injEq] at heq
      subst heq
      exact .inr ⟨i₁, rfl, by rw [lookupOrAllocIP_twice]⟩

def Same : Option IPPool → Option IPPool → Prop
  | none, none => True
  | some i, some i' => i'.inventory = i.inventory ∧ i'.freePool.Perm i.freePool
  | _, _ => False

theorem Same.refl (ippool : Option IPPool) : Same ippool ippool := by
  cases ippool with
  | none => trivial
  | some i => exact ⟨rfl, .refl _⟩

def leased (ippool : Option IPPool) (seid : UInt64) : Option IP :=
  ippool.bind fun i => i.inventory.lookup seid

theorem Looked.leased_of_some {k : UInt64}
    (h : Looked seid ippool ippool') (hk : leased ippool k = some ip) :
    leased ippool' k = some ip := by
  rcases h with rfl | ⟨i, rfl, rfl⟩
  · exact hk
  · exact lookup_lookupOrAllocIP_of_some hk

theorem Looked.leased_of_ne {k : UInt64}
    (h : Looked seid ippool ippool') (hne : k ≠ seid) : leased ippool' k = leased ippool k := by
  rcases h with rfl | ⟨i, rfl, rfl⟩
  · rfl
  · rcases lookupOrAllocIP_cases i seid with ⟨_, _, heq⟩ | ⟨ip, rest, _, _, heq⟩ | ⟨_, _, heq⟩
    · simp only [heq]
    · simp only [heq, leased, bind_some]
      exact lookup_insert_ne hne
    · simp only [heq]

theorem leased_release_self (ippool : Option IPPool) (seid : UInt64) :
    leased (ippool.map fun i => (i.release seid).2) seid = none := by
  cases ippool with
  | none => rfl
  | some i =>
    rcases release_cases i seid with ⟨hnone, heq⟩ | ⟨ip, _, heq⟩
    · simpa [leased, heq] using hnone
    · simp [leased, heq]

theorem leased_release_of_ne (ippool : Option IPPool) {k : UInt64} (hne : k ≠ seid) :
    leased (ippool.map fun i => (i.release seid).2) k = leased ippool k := by
  cases ippool with
  | none => rfl
  | some i =>
    rcases release_cases i seid with ⟨_, heq⟩ | ⟨ip, _, heq⟩
    · simp [heq]
    · simp [leased, heq, lookup_erase_ne hne]

theorem Looked.same_release (h : Looked seid ippool ippool')
    (hnone : leased ippool seid = none) :
    Same ippool (ippool'.map fun i => (i.release seid).2) := by
  cases ippool with
  | none =>
    rcases h with rfl | ⟨i, hi, -⟩
    · trivial
    · cases hi
  | some i =>
    have hfree : i.inventory.lookup seid = none := hnone
    have hnothing : (i.release seid).2 = i := by simp [release, hfree]
    rcases h with rfl | ⟨j, hj, rfl⟩
    · simpa [hnothing] using Same.refl (some i)
    · rw [Option.some.injEq] at hj
      subst hj
      rcases lookupOrAllocIP_cases i seid with
        ⟨ip, hinv, -⟩ | ⟨ip, rest, -, hpool, heq⟩ | ⟨-, -, heq⟩
      · rw [hinv] at hfree
        cases hfree
      · -- What was taken from the front of the queue comes back at its end.
        simp only [heq, map_some, release, lookup_insert]
        refine ⟨?_, ?_⟩
        · apply AList.ext
          rw [lookup_eq_none] at hfree
          have hentries : (i.inventory.insert seid ip).entries =
              ⟨seid, ip⟩ :: i.inventory.entries := entries_insert_of_notMem hfree
          exact (congrArg (List.kerase seid) hentries).trans (kerase_cons_eq rfl)
        · rw [hpool]
          exact perm_append_singleton ip rest
      · simpa [heq, hnothing] using Same.refl (some i)

end IPPool

end Upf
