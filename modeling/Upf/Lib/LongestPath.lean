import Mathlib.Order.Lattice.Nat

/-!
# Ranks by longest paths

Nodes are ranked by walking along every way from the starts: a node that is met
later on a way than its rank says gets the later place and is walked on from.  A
node whose rank is as late already is passed over.

On a graph without cycles that started with no ranks this gives every node the
length of the longest way to it.  The search may also start with ranks that are
left from another graph; the exact condition on those is given.
-/

namespace Lib

open Function List

variable {V : Type}

/-! ## Ways -/

/-- A way from a start to a node, as the nodes before it, the last of them first. -/
inductive Trail (start : V → Prop) (next : V → List V) : V → List V → Prop where
  | first {v : V} : start v → Trail start next v []
  | step {u v : V} {before : List V} :
      Trail start next u before → v ∈ next u → Trail start next v (u :: before)

def lengths (start : V → Prop) (next : V → List V) (v : V) : Set Nat :=
  {n | ∃ before, Trail start next v before ∧ before.length + 1 = n}

def Acyclic (next : V → List V) : Prop :=
  ∀ v, ¬ Relation.TransGen (fun u v => v ∈ next u) v v

/-- The nodes among which the search stays. -/
structure Closed (start : V → Prop) (next : V → List V) (nodes : List V) : Prop where
  start : ∀ v, start v → v ∈ nodes
  next : ∀ u v, u ∈ nodes → v ∈ next u → v ∈ nodes

section Ways

variable {start : V → Prop} {next : V → List V} {nodes : List V} {u v : V}

theorem Acyclic.nodup (hacyclic : Acyclic next) {way : List V}
    (hway : way.IsChain fun v u => v ∈ next u) : way.Nodup := by
  have hlater : way.IsChain fun v u => Relation.TransGen (fun a b => b ∈ next a) u v :=
    hway.imp fun _ _ hedge => .single hedge
  have : IsTrans V fun v u => Relation.TransGen (fun a b => b ∈ next a) u v :=
    ⟨fun _ _ _ h₁ h₂ => h₂.trans h₁⟩
  refine hlater.pairwise.imp fun {v u} hvu heq => ?_
  subst heq
  exact hacyclic v hvu

variable {before : List V}

theorem Trail.isChain (h : Trail start next v before) :
    (v :: before).IsChain fun v u => v ∈ next u := by
  induction h with
  | first => exact .singleton _
  | step _ hedge ih => exact .cons_cons hedge ih

theorem Trail.subset (hclosed : Closed start next nodes)
    (h : Trail start next v before) : v :: before ⊆ nodes := by
  induction h with
  | first hstart => exact cons_subset.mpr ⟨hclosed.start _ hstart, nil_subset _⟩
  | @step u v before _ hedge ih =>
    have hu : u ∈ nodes := ih mem_cons_self
    exact cons_subset.mpr ⟨hclosed.next u v hu hedge, ih⟩

theorem Trail.length_le (hacyclic : Acyclic next) (hclosed : Closed start next nodes)
    (h : Trail start next v before) : before.length + 1 ≤ nodes.length :=
  ((hacyclic.nodup h.isChain).subperm (h.subset hclosed)).length_le

theorem exists_longest (hacyclic : Acyclic next) (hclosed : Closed start next nodes)
    (hreach : (lengths start next v).Nonempty) : ∃ n, IsGreatest (lengths start next v) n := by
  have hbound : BddAbove (lengths start next v) := by
    refine ⟨nodes.length, ?_⟩
    rintro n ⟨before, htrail, rfl⟩
    exact htrail.length_le hacyclic hclosed
  exact ⟨_, Nat.sSup_mem hreach hbound, fun n hn => le_csSup hbound hn⟩

theorem lengths_step {n : Nat} (hn : n ∈ lengths start next u) (hedge : v ∈ next u) :
    n + 1 ∈ lengths start next v := by
  obtain ⟨before, htrail, rfl⟩ := hn
  exact ⟨u :: before, htrail.step hedge, rfl⟩

theorem one_mem_lengths_iff : 1 ∈ lengths start next v ↔ start v := by
  constructor
  · rintro ⟨before, htrail, hlength⟩
    cases htrail with
    | first hstart => exact hstart
    | step => simp at hlength
  · exact fun hstart => ⟨[], .first hstart, rfl⟩

theorem pos_of_mem_lengths {n : Nat} (hn : n ∈ lengths start next v) : 0 < n := by
  obtain ⟨before, -, rfl⟩ := hn
  omega

end Ways

/-! ## The search -/

variable (next : V → List V)

/-- Walk on to the nodes `ahead` at place `p`, from the nodes of `path`. -/
def raise [DecidableEq V] :
    (fuel : Nat) → (path : List V) → (p : Nat) → (ahead : List V) → (V → Nat) → V → Nat
  | 0, _, _, _, rank => rank
  | fuel + 1, path, p, ahead, rank =>
    ahead.foldl (fun rank v =>
      if v ∈ path ∨ p ≤ rank v then rank
      else raise fuel (v :: path) (p + 1) (next v) (update rank v p)) rank

/-- What walking on to some nodes at a place leaves.  Ranks only grow, and every node
walked on to has at least that place.  Behind a node whose rank grew, all nodes rank
later; and a rank that grew is the place or comes from such a node. -/
structure Swept (p : Nat) (ahead : List V) (rank rank' : V → Nat) : Prop where
  mono : ∀ v, rank v ≤ rank' v
  first : ∀ v ∈ ahead, p ≤ rank' v
  behind : ∀ u, rank u < rank' u → ∀ v ∈ next u, rank' u + 1 ≤ rank' v
  source : ∀ v, rank v < rank' v →
    (v ∈ ahead ∧ rank' v = p) ∨ ∃ u, rank u < rank' u ∧ v ∈ next u ∧ rank' v ≤ rank' u + 1

variable {next} {p : Nat} {rank rank₁ rank' : V → Nat}

theorem Swept.of_le {ahead : List V} (h : ∀ v ∈ ahead, p ≤ rank v) :
    Swept next p ahead rank rank where
  mono := fun _ => le_rfl
  first := h
  behind := fun _ hlt => absurd hlt (lt_irrefl _)
  source := fun _ hlt => absurd hlt (lt_irrefl _)

theorem Swept.append {xs ys : List V} (h₁ : Swept next p xs rank rank₁)
    (h₂ : Swept next p ys rank₁ rank') : Swept next p (xs ++ ys) rank rank' where
  mono := fun v => (h₁.mono v).trans (h₂.mono v)
  first := by
    intro v hv
    rcases mem_append.mp hv with hv | hv
    · exact (h₁.first v hv).trans (h₂.mono v)
    · exact h₂.first v hv
  behind := by
    intro u hu v hv
    rcases (h₂.mono u).lt_or_eq with hlater | hsame
    · exact h₂.behind u hlater v hv
    · rw [← hsame] at hu ⊢
      exact (h₁.behind u hu v hv).trans (h₂.mono v)
  source := by
    intro v hv
    rcases (h₂.mono v).lt_or_eq with hlater | hsame
    · rcases h₂.source v hlater with ⟨hmem, hp⟩ | ⟨u, hu, hedge, hle⟩
      · exact .inl ⟨mem_append_right _ hmem, hp⟩
      · exact .inr ⟨u, (h₁.mono u).trans_lt hu, hedge, hle⟩
    · rw [← hsame] at hv ⊢
      rcases h₁.source v hv with ⟨hmem, hp⟩ | ⟨u, hu, hedge, hle⟩
      · exact .inl ⟨mem_append_left _ hmem, hp⟩
      · exact .inr ⟨u, hu.trans_le (h₂.mono u), hedge, hle.trans (by have := h₂.mono u; omega)⟩

theorem Swept.enter [DecidableEq V] {v : V} (hlt : rank v < p)
    (h : Swept next (p + 1) (next v) (update rank v p) rank') :
    Swept next p [v] rank rank' := by
  have hgrown : ∀ u, rank u ≤ update rank v p u := by
    intro u
    by_cases hu : u = v
    · rw [hu, update_self]
      exact hlt.le
    · rw [update_of_ne hu]
  have hplace : p ≤ rank' v := by
    have := h.mono v
    rwa [update_self] at this
  -- a rank that grew did so behind the node, or is the place of the node itself
  have hcases : ∀ u, rank u < rank' u →
      update rank v p u < rank' u ∨ (u = v ∧ rank' u = p) := by
    intro u hu
    rcases (h.mono u).lt_or_eq with hlater | hsame
    · exact .inl hlater
    · by_cases huv : u = v
      · subst huv
        rw [update_self] at hsame
        exact .inr ⟨rfl, hsame.symm⟩
      · rw [update_of_ne huv] at hsame
        omega
  refine ⟨fun u => (hgrown u).trans (h.mono u), ?_, ?_, ?_⟩
  · intro u hu
    rw [mem_singleton.mp hu]
    exact hplace
  · intro u hu w hw
    rcases hcases u hu with hlater | ⟨rfl, hp⟩
    · exact h.behind u hlater w hw
    · rw [hp]
      exact h.first w hw
  · intro u hu
    rcases hcases u hu with hlater | ⟨rfl, hp⟩
    · rcases h.source u hlater with ⟨hmem, hp⟩ | ⟨w, hw, hedge, hle⟩
      · exact .inr ⟨v, hlt.trans_le hplace, hmem, by omega⟩
      · exact .inr ⟨w, (hgrown w).trans_lt hw, hedge, hle⟩
    · exact .inl ⟨mem_singleton.mpr rfl, hp⟩

/-- The search never turns back on its own way, and it has enough fuel for every way
among the nodes. -/
theorem raise_swept [DecidableEq V] (nodes : List V) (hacyclic : Acyclic next)
    (hclosed : ∀ u v, u ∈ nodes → v ∈ next u → v ∈ nodes) (fuel : Nat) :
    ∀ (path : List V) (p : Nat) (ahead : List V) (rank : V → Nat),
      (∀ v ∈ ahead, (v :: path).IsChain fun v u => v ∈ next u) → (∀ v ∈ ahead, v :: path ⊆ nodes) →
      nodes.length ≤ fuel + path.length →
      Swept next p ahead rank (raise next fuel path p ahead rank) := by
  induction fuel with
  | zero =>
    intro path p ahead rank hway hsubset hfuel
    rcases ahead with - | ⟨v, ahead⟩
    · exact .of_le (by simp)
    · have hlength := ((hacyclic.nodup (hway v mem_cons_self)).subperm
        (hsubset v mem_cons_self)).length_le
      rw [length_cons] at hlength
      omega
  | succ fuel ih =>
    intro path p ahead rank hway hsubset hfuel
    rw [raise]
    induction ahead generalizing rank with
    | nil => exact .of_le (by simp)
    | cons v ahead ihahead =>
      have hv := hway v mem_cons_self
      have hnodup := hacyclic.nodup hv
      rw [foldl_cons, ← singleton_append]
      have hrest := fun rank => ihahead rank (fun w hw => hway w (mem_cons_of_mem _ hw))
        (fun w hw => hsubset w (mem_cons_of_mem _ hw))
      refine Swept.append ?_ (hrest _)
      split
      case isTrue hskip =>
        apply Swept.of_le
        intro u hu
        rw [mem_singleton.mp hu]
        exact hskip.resolve_left (nodup_cons.mp hnodup).1
      case isFalse hgo =>
        rw [not_or] at hgo
        refine Swept.enter (Nat.lt_of_not_le hgo.2) (ih _ _ _ _ ?_ ?_ ?_)
        · exact fun w hw => .cons_cons hw hv
        · intro w hw
          have hsub := hsubset v mem_cons_self
          exact cons_subset.mpr ⟨hclosed v w (hsub mem_cons_self) hw, hsub⟩
        · rw [length_cons]
          omega

/-! ## Longest ways -/

section Longest

variable {start : V → Prop} {nodes starts : List V}

/-- No rank is beyond the longest way, and a rank that falls short belongs to a start or
to a node right behind one that falls short as well, on a longest way. -/
def Due (start : V → Prop) (next : V → List V) (rank : V → Nat) : Prop :=
  ∀ v n, IsGreatest (lengths start next v) n → rank v ≤ n ∧ (rank v = n ∨ n = 1 ∨
    ∃ u, v ∈ next u ∧ IsGreatest (lengths start next u) (n - 1) ∧ rank u < n - 1)

theorem due_of_unranked (hrank : ∀ v, rank v = 0) : Due start next rank := by
  intro v n hn
  rw [hrank]
  refine ⟨Nat.zero_le n, ?_⟩
  obtain ⟨before, htrail, rfl⟩ := hn.1
  cases htrail with
  | first => exact .inr (.inl rfl)
  | @step u _ before htrail hedge =>
    refine .inr (.inr ⟨u, hedge, ⟨⟨before, htrail, rfl⟩, ?_⟩, ?_⟩)
    · intro n hlength
      have hle := hn.2 (lengths_step hlength hedge)
      simp only [length_cons] at hle ⊢
      omega
    · rw [hrank, length_cons]
      omega

theorem Swept.mem_lengths (h : Swept next 1 starts rank rank') (hstarts : ∀ v ∈ starts, start v)
    {v : V} (hv : rank v < rank' v) : rank' v ∈ lengths start next v := by
  generalize hn : rank' v = n at hv ⊢
  induction n using Nat.strong_induction_on generalizing v with
  | _ n ih =>
    subst hn
    rcases h.source v hv with ⟨hmem, hp⟩ | ⟨u, hu, hedge, hle⟩
    · rw [hp]
      exact one_mem_lengths_iff.mpr (hstarts v hmem)
    · have hbehind := h.behind u hu v hedge
      have hsource := ih (rank' u) (by omega) rfl hu
      have hplace : rank' v = rank' u + 1 := by omega
      rw [hplace]
      exact lengths_step hsource hedge

theorem Swept.longest_of_due (h : Swept next 1 starts rank rank')
    (hstarts : ∀ v, v ∈ starts ↔ start v) (hdue : Due start next rank) {v : V} {n : Nat}
    (hn : IsGreatest (lengths start next v) n) : rank' v = n := by
  have hle : rank' v ≤ n := by
    rcases (h.mono v).lt_or_eq with hgrown | hsame
    · exact hn.2 (h.mem_lengths (fun v hv => (hstarts v).mp hv) hgrown)
    · rw [← hsame]
      exact (hdue v n hn).1
  apply hle.antisymm
  -- along a longest way, from its start
  induction n using Nat.strong_induction_on generalizing v with
  | _ n ih =>
    rcases (hdue v n hn).2 with hrank | hone | ⟨u, hedge, hu, hshort⟩
    · rw [← hrank]
      exact h.mono v
    · rw [hone] at hn ⊢
      exact h.first v ((hstarts v).mpr (one_mem_lengths_iff.mp hn.1))
    · have hpos := pos_of_mem_lengths hu.1
      have hule : rank' u ≤ n - 1 := by
        rcases (h.mono u).lt_or_eq with hgrown | hsame
        · exact hu.2 (h.mem_lengths (fun v hv => (hstarts v).mp hv) hgrown)
        · rw [← hsame]
          exact hshort.le
      have hgot := ih (n - 1) (by omega) hu hule
      have hbehind := h.behind u (hshort.trans_le hgot) v hedge
      omega

theorem Swept.due_of_longest (h : Swept next 1 starts rank rank')
    (hstarts : ∀ v, v ∈ starts ↔ start v)
    (hlongest : ∀ v, (lengths start next v).Nonempty →
      IsGreatest (lengths start next v) (rank' v)) : Due start next rank := by
  intro v n hn
  have hrank : rank' v = n := (hlongest v ⟨n, hn.1⟩).unique hn
  refine ⟨hrank ▸ h.mono v, ?_⟩
  rcases (h.mono v).lt_or_eq with hgrown | hsame
  · right
    rcases h.source v hgrown with ⟨-, hp⟩ | ⟨u, hu, hedge, hle⟩
    · exact .inl (hrank.symm.trans hp)
    · right
      have hlengths := h.mem_lengths (fun v hv => (hstarts v).mp hv) hu
      have hlongestu := hlongest u ⟨_, hlengths⟩
      have hstep : rank' u + 1 ≤ n := hn.2 (lengths_step hlengths hedge)
      have hplace : rank' u = n - 1 := by omega
      rw [hplace] at hlongestu hu
      exact ⟨u, hedge, hlongestu, hu⟩
  · exact .inl (hsame.trans hrank)

theorem Swept.longest_iff (h : Swept next 1 starts rank rank') (hacyclic : Acyclic next)
    (hclosed : Closed start next nodes) (hstarts : ∀ v, v ∈ starts ↔ start v) :
    (∀ v, (lengths start next v).Nonempty → IsGreatest (lengths start next v) (rank' v)) ↔
      Due start next rank := by
  refine ⟨h.due_of_longest hstarts, fun hdue v hreach => ?_⟩
  obtain ⟨n, hn⟩ := exists_longest hacyclic hclosed hreach
  rw [h.longest_of_due hstarts hdue hn]
  exact hn

theorem longest_lt {rank : V → Nat} (hlongest : ∀ v, (lengths start next v).Nonempty →
      IsGreatest (lengths start next v) (rank v)) {u v : V}
    (hreach : (lengths start next u).Nonempty) (hedge : v ∈ next u) : rank u < rank v := by
  have hstep := lengths_step (hlongest u hreach).1 hedge
  exact (hlongest v ⟨_, hstep⟩).2 hstep

end Longest

end Lib
