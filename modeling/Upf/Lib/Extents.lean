import Mathlib.Algebra.Order.Ring.Nat
import Mathlib.Data.List.Sort

/-!
# Sets of extents

An extent is a run of numbers: an address and a size.  A list of extents in order of their
addresses is spaced if no two of them overlap or touch.  Taking an extent out and putting in
one that touches no other keep a list spaced.  An extent that fits between the others of a
list touches at most its two neighbours in the order of addresses, and is put in once it was
merged with those it touches.
-/

namespace Lib

open List

structure Extent where
  addr : Nat
  size : Nat
deriving DecidableEq

namespace Extent

variable {e f : Extent} {l l' : List Extent} {x : Nat}

def stop (e : Extent) : Nat := e.addr + e.size

def Has (e : Extent) (x : Nat) : Prop := e.addr ≤ x ∧ x < e.stop

def Parted (e f : Extent) : Prop := e.stop < f.addr ∨ f.stop < e.addr

theorem Parted.symm (h : e.Parted f) : f.Parted e := Or.symm h

structure Spaced (l : List Extent) : Prop where
  ordered : l.Pairwise fun e f => e.addr < f.addr
  parted : l.Pairwise Parted
  filled : ∀ e ∈ l, 0 < e.size

def Covers (l : List Extent) (x : Nat) : Prop := ∃ e ∈ l, e.Has x

def total (l : List Extent) : Nat := (l.map size).sum

/-- Addresses and sizes are multiples of a number. -/
def Aligned (k : Nat) (l : List Extent) : Prop := ∀ e ∈ l, k ∣ e.addr ∧ k ∣ e.size

theorem covers_of_perm (h : l.Perm l') : Covers l x ↔ Covers l' x := by
  simp only [Covers, h.mem_iff]

theorem covers_cons : Covers (e :: l) x ↔ e.Has x ∨ Covers l x := by
  simp only [Covers, mem_cons, or_and_right, exists_or, exists_eq_left]

theorem total_of_perm (h : l.Perm l') : total l = total l' := (h.map size).sum_nat

theorem total_cons : total (e :: l) = e.size + total l := sum_cons

theorem Aligned.of_perm {k : Nat} (h : l.Perm l') (hl : Aligned k l) : Aligned k l' :=
  fun e he => hl e (h.mem_iff.mpr he)

theorem spaced_nil : Spaced [] := ⟨.nil, .nil, nofun⟩

theorem Spaced.total_le (h : Spaced l) (lower upper : Nat)
    (hin : ∀ e ∈ l, lower ≤ e.addr ∧ e.stop ≤ upper) (hle : lower ≤ upper) :
    lower + total l ≤ upper := by
  induction l generalizing lower with
  | nil => exact hle
  | cons e l ih =>
    obtain ⟨hordered, hordered'⟩ := pairwise_cons.mp h.ordered
    obtain ⟨hparted, hparted'⟩ := pairwise_cons.mp h.parted
    have he := hin e mem_cons_self
    have hrest := ih ⟨hordered', hparted', fun f hf => h.filled f (mem_cons_of_mem e hf)⟩
      e.stop (fun f hf => ⟨?_, (hin f (mem_cons_of_mem e hf)).2⟩) he.2
    · rw [total_cons]
      rw [stop] at hrest
      omega
    · have hlt := hordered f hf
      have hapart := hparted f hf
      simp only [Parted, stop] at hapart ⊢
      omega

theorem Spaced.erase (h : Spaced l) (e : Extent) : Spaced (l.erase e) where
  ordered := h.ordered.sublist erase_sublist
  parted := h.parted.sublist erase_sublist
  filled := fun f hf => h.filled f (mem_of_mem_erase hf)

theorem Spaced.parted_of_mem_erase (h : Spaced l) (he : e ∈ l) (hf : f ∈ l.erase e) :
    e.Parted f := by
  have hparted := ((perm_cons_erase he).pairwise_iff fun h => Parted.symm h).mp h.parted
  exact (pairwise_cons.mp hparted).1 f hf

theorem covers_erase (he : e ∈ l) : Covers l x ↔ e.Has x ∨ Covers (l.erase e) x := by
  rw [covers_of_perm (perm_cons_erase he), covers_cons]

theorem total_erase (he : e ∈ l) : total l = e.size + total (l.erase e) := by
  rw [total_of_perm (perm_cons_erase he), total_cons]

theorem Aligned.erase {k : Nat} (h : Aligned k l) (e : Extent) : Aligned k (l.erase e) :=
  fun f hf => h f (mem_of_mem_erase hf)

def Upto (e f : Extent) : Prop := e.addr ≤ f.addr

instance : DecidableRel Upto := fun e f => inferInstanceAs (Decidable (e.addr ≤ f.addr))
instance : Std.Total Upto := ⟨fun e f => Nat.le_total e.addr f.addr⟩
instance : IsTrans Extent Upto := ⟨fun _ _ _ h h' => Nat.le_trans h h'⟩

/-- An extent is put at its place, unless there is one at its address. -/
def insert (e : Extent) (l : List Extent) : List Extent :=
  if l.any (·.addr == e.addr) then l else l.orderedInsert Upto e

theorem any_addr_of_parted (he : 0 < e.size) (hparted : ∀ f ∈ l, e.Parted f) :
    l.any (·.addr == e.addr) = false := by
  rw [any_eq_false]
  intro f hf heq
  have haddr : f.addr = e.addr := eq_of_beq heq
  have hapart := hparted f hf
  simp only [Parted, stop] at hapart
  omega

theorem insert_perm (he : 0 < e.size) (hparted : ∀ f ∈ l, e.Parted f) :
    (insert e l).Perm (e :: l) := by
  rw [Extent.insert, any_addr_of_parted he hparted]
  exact perm_orderedInsert _ e l

theorem Spaced.insert (h : Spaced l) (he : 0 < e.size) (hparted : ∀ f ∈ l, e.Parted f) :
    Spaced (insert e l) := by
  have hperm := insert_perm he hparted
  have hparted' : (Extent.insert e l).Pairwise Parted :=
    (hperm.pairwise_iff fun h => Parted.symm h).mpr (pairwise_cons.mpr ⟨hparted, h.parted⟩)
  have hupto : (Extent.insert e l).Pairwise Upto := by
    rw [Extent.insert, any_addr_of_parted he hparted]
    exact List.Pairwise.orderedInsert e l (h.ordered.imp fun h => Nat.le_of_lt h)
  refine ⟨?_, hparted', ?_⟩
  · -- Extents at one address would overlap.
    refine (hupto.and hparted').imp ?_
    rintro f g ⟨hle, hapart⟩
    simp only [Upto, Parted, stop] at hle hapart
    omega
  · intro f hf
    rcases mem_cons.mp (hperm.mem_iff.mp hf) with rfl | hf
    · exact he
    · exact h.filled f hf

def before (l : List Extent) (addr : Nat) : Option Extent :=
  (l.takeWhile (·.addr < addr)).getLast?

def after (l : List Extent) (addr : Nat) : Option Extent :=
  (l.dropWhile (·.addr < addr)).head?

section Neighbours

variable {addr : Nat}

theorem mem_takeWhile_lt (hf : f ∈ l.takeWhile (·.addr < addr)) : f.addr < addr := by
  have hall := all_takeWhile (l := l) (p := fun f : Extent => decide (f.addr < addr))
  exact of_decide_eq_true (all_eq_true.mp hall f hf)

theorem Spaced.mem_dropWhile_le (h : Spaced l) (hf : f ∈ l.dropWhile (·.addr < addr)) :
    addr ≤ f.addr := by
  cases hd : l.dropWhile (·.addr < addr) with
  | nil =>
    rw [hd] at hf
    cases hf
  | cons g rest =>
    have hne : l.dropWhile (·.addr < addr) ≠ [] := by rw [hd]; exact cons_ne_nil g rest
    have hg := head_dropWhile_not (fun e : Extent => decide (e.addr < addr)) hne
    simp only [hd, head_cons, decide_eq_false_iff_not, Nat.not_lt] at hg
    have hordered := h.ordered.sublist (dropWhile_sublist (p := (·.addr < addr)))
    rw [hd] at hordered hf
    rcases mem_cons.mp hf with rfl | hf
    · exact hg
    · exact hg.trans (Nat.le_of_lt ((pairwise_cons.mp hordered).1 f hf))

theorem mem_takeWhile_or_dropWhile (hf : f ∈ l) (addr : Nat) :
    f ∈ l.takeWhile (·.addr < addr) ∨ f ∈ l.dropWhile (·.addr < addr) := by
  rw [← mem_append, takeWhile_append_dropWhile]
  exact hf

theorem Spaced.before_some (h : Spaced l) (hbefore : before l addr = some e) :
    e ∈ l ∧ e.addr < addr ∧ ∀ f ∈ l, f.addr < addr → f.addr ≤ e.addr := by
  have he := mem_of_getLast? hbefore
  refine ⟨(takeWhile_sublist _).mem he, mem_takeWhile_lt he, fun f hf hlt => ?_⟩
  rcases mem_takeWhile_or_dropWhile hf addr with hf | hf
  · obtain ⟨rest, hrest⟩ := getLast?_eq_some_iff.mp hbefore
    have hordered := h.ordered.sublist (takeWhile_sublist (p := (·.addr < addr)))
    rw [hrest] at hordered hf
    rcases mem_append.mp hf with hf | hf
    · exact Nat.le_of_lt ((pairwise_append.mp hordered).2.2 f hf e mem_cons_self)
    · rw [mem_singleton.mp hf]
  · exact absurd (h.mem_dropWhile_le hf) (Nat.not_le.mpr hlt)

theorem Spaced.before_none (h : Spaced l) (hbefore : before l addr = none) (hf : f ∈ l) :
    addr ≤ f.addr := by
  rcases mem_takeWhile_or_dropWhile hf addr with hf | hf
  · rw [getLast?_eq_none_iff.mp hbefore] at hf
    cases hf
  · exact h.mem_dropWhile_le hf

theorem Spaced.after_some (h : Spaced l) (hafter : after l addr = some e) :
    e ∈ l ∧ addr ≤ e.addr ∧ ∀ f ∈ l, addr ≤ f.addr → e.addr ≤ f.addr := by
  obtain ⟨rest, hrest⟩ := head?_eq_some_iff.mp hafter
  have he : e ∈ l.dropWhile (·.addr < addr) := by
    rw [hrest]
    exact mem_cons_self
  refine ⟨(dropWhile_sublist _).mem he, h.mem_dropWhile_le he, fun f hf hle => ?_⟩
  rcases mem_takeWhile_or_dropWhile hf addr with hf | hf
  · exact absurd (mem_takeWhile_lt hf) (Nat.not_lt.mpr hle)
  · have hordered := h.ordered.sublist (dropWhile_sublist (p := (·.addr < addr)))
    rw [hrest] at hordered hf
    rcases mem_cons.mp hf with rfl | hf
    · exact Nat.le_refl _
    · exact Nat.le_of_lt ((pairwise_cons.mp hordered).1 f hf)

theorem after_none (hafter : after l addr = none) (hf : f ∈ l) : f.addr < addr := by
  rcases mem_takeWhile_or_dropWhile hf addr with hf | hf
  · exact mem_takeWhile_lt hf
  · rw [head?_eq_none_iff.mp hafter] at hf
    cases hf

end Neighbours

/-- An extent does not overlap those of a spaced list. -/
structure Fits (l : List Extent) (e : Extent) : Prop where
  spaced : Spaced l
  filled : 0 < e.size
  beside : ∀ f ∈ l, f.stop ≤ e.addr ∨ e.stop ≤ f.addr

theorem Spaced.fits (h : Spaced l) (he : 0 < e.size) (hnew : ∀ x, e.Has x → ¬ Covers l x) :
    Fits l e := by
  refine ⟨h, he, fun f hf => ?_⟩
  have hfilled := h.filled f hf
  by_contra hcon
  simp only [not_or, Nat.not_le, stop] at hcon
  -- The larger of the two addresses lies in both.
  rcases Nat.le_total e.addr f.addr with hle | hle
  · apply hnew f.addr <;> simp only [Has, Covers, stop]
    · omega
    · exact ⟨f, hf, by omega⟩
  · apply hnew e.addr <;> simp only [Has, Covers, stop]
    · omega
    · exact ⟨f, hf, by omega⟩

structure Merged (l : List Extent) (e : Extent) (l' : List Extent) (e' : Extent) : Prop where
  fits : Fits l' e'
  covers : ∀ x, (e'.Has x ∨ Covers l' x) ↔ (e.Has x ∨ Covers l x)
  total : e'.size + total l' = e.size + total l
  aligned : ∀ k, Aligned k (e :: l) → Aligned k (e' :: l')

theorem Fits.merged (h : Fits l e) : Merged l e l e := ⟨h, fun _ => Iff.rfl, rfl, fun _ h => h⟩

theorem Merged.trans {l'' : List Extent} {e' e'' : Extent} (h : Merged l e l' e')
    (h' : Merged l' e' l'' e'') : Merged l e l'' e'' where
  fits := h'.fits
  covers := fun x => (h'.covers x).trans (h.covers x)
  total := h'.total.trans h.total
  aligned := fun k hk => h'.aligned k (h.aligned k hk)

theorem Fits.merge {e' : Extent} (h : Fits l e) (hf : f ∈ l)
    (htouch : (f.stop = e.addr ∧ e' = ⟨f.addr, e.size + f.size⟩) ∨
      (e.stop = f.addr ∧ e' = ⟨e.addr, e.size + f.size⟩)) :
    Merged l e (l.erase f) e' := by
  have hfilled := h.filled
  have hfits : ∀ g ∈ l.erase f, g.stop ≤ e'.addr ∨ e'.stop ≤ g.addr := by
    intro g hg
    have hparted := h.spaced.parted_of_mem_erase hf hg
    have hbeside := h.beside g (mem_of_mem_erase hg)
    have hpos := h.spaced.filled g (mem_of_mem_erase hg)
    rcases htouch with ⟨htouch, rfl⟩ | ⟨htouch, rfl⟩ <;>
      simp only [Parted, stop] at htouch hparted hbeside ⊢ <;> omega
  have hhas : ∀ x, e'.Has x ↔ e.Has x ∨ f.Has x := by
    intro x
    have hpos := h.spaced.filled f hf
    rcases htouch with ⟨htouch, rfl⟩ | ⟨htouch, rfl⟩ <;>
      simp only [Has, stop] at htouch ⊢ <;> omega
  refine ⟨⟨h.spaced.erase f, ?_, hfits⟩, fun x => ?_, ?_, fun k hk => ?_⟩
  · rcases htouch with ⟨-, rfl⟩ | ⟨-, rfl⟩ <;> exact Nat.add_pos_left hfilled _
  · rw [hhas, covers_erase hf, or_assoc]
  · rw [total_erase hf]
    rcases htouch with ⟨-, rfl⟩ | ⟨-, rfl⟩ <;> exact Nat.add_assoc ..
  · have he := hk e mem_cons_self
    have hf' := hk f (mem_cons_of_mem e hf)
    intro g hg
    rcases mem_cons.mp hg with rfl | hg
    · rcases htouch with ⟨-, rfl⟩ | ⟨-, rfl⟩
      · exact ⟨hf'.1, Nat.dvd_add he.2 hf'.2⟩
      · exact ⟨he.1, Nat.dvd_add he.2 hf'.2⟩
    · exact hk g (mem_cons_of_mem e (mem_of_mem_erase hg))

def joinBefore (l : List Extent) (e : Extent) : Option Extent → List Extent × Extent
  | some f => if f.stop = e.addr then (l.erase f, ⟨f.addr, e.size + f.size⟩) else (l, e)
  | none => (l, e)

def joinAfter (l : List Extent) (e : Extent) : Option Extent → List Extent × Extent
  | some f => if e.stop = f.addr then (l.erase f, ⟨e.addr, e.size + f.size⟩) else (l, e)
  | none => (l, e)

/-- Put in an extent, merged with the neighbours it touches. -/
def join (l : List Extent) (e : Extent) : List Extent :=
  let left := joinBefore l e (before l e.addr)
  let both := joinAfter left.1 left.2 (after l e.addr)
  insert both.2 both.1

structure LeftJoined (l : List Extent) (e : Extent) (l' : List Extent) (e' : Extent) : Prop where
  merged : Merged l e l' e'
  clear : ∀ f ∈ l', f.stop ≠ e'.addr
  stop_eq : e'.stop = e.stop
  addr_le : e'.addr ≤ e.addr
  subset : ∀ f ∈ l', f ∈ l
  rest : ∀ f ∈ l, e.addr ≤ f.addr → f ∈ l'

theorem Fits.clear_of_before (h : Fits l e)
    (hbefore : ∀ p, before l e.addr = some p → p.stop ≠ e.addr) (hf : f ∈ l) :
    f.stop ≠ e.addr := by
  intro heq
  have hpos := h.spaced.filled f hf
  have hlt : f.addr < e.addr := by
    rw [stop] at heq
    omega
  cases hp : before l e.addr with
  | none => exact absurd (h.spaced.before_none hp hf) (Nat.not_le.mpr hlt)
  | some p =>
    obtain ⟨hpl, hplt, hlast⟩ := h.spaced.before_some hp
    have htouch := hbefore p hp
    have hne : f ≠ p := by
      rintro rfl
      exact htouch heq
    -- Another one that ends there would have to begin after the last one.
    have hparted := h.spaced.parted_of_mem_erase hf ((mem_erase_of_ne hne.symm).mpr hpl)
    have hbeside := h.beside p hpl
    have hfp := hlast f hf hlt
    have hppos := h.spaced.filled p hpl
    simp only [Parted, stop] at hparted heq hbeside
    omega

theorem Fits.leftJoined (h : Fits l e) : LeftJoined l e (joinBefore l e (before l e.addr)).1
    (joinBefore l e (before l e.addr)).2 := by
  have hkept (hclear : ∀ p, before l e.addr = some p → p.stop ≠ e.addr) : LeftJoined l e l e :=
    ⟨h.merged, fun _ => h.clear_of_before hclear, rfl, Nat.le_refl _, fun _ h => h,
      fun _ h _ => h⟩
  cases hbefore : before l e.addr with
  | none => exact hkept (by rw [hbefore]; exact nofun)
  | some p =>
    obtain ⟨hp, hlt, -⟩ := h.spaced.before_some hbefore
    by_cases htouch : p.stop = e.addr
    · simp only [joinBefore, if_pos htouch]
      refine ⟨h.merge hp (.inl ⟨htouch, rfl⟩), fun f hf => ?_, ?_, Nat.le_of_lt hlt,
        fun f hf => mem_of_mem_erase hf, fun f hf hle => ?_⟩
      · have hparted := h.spaced.parted_of_mem_erase hp hf
        simp only [Parted, stop] at hparted ⊢
        omega
      · simp only [stop] at htouch ⊢
        omega
      · refine (mem_erase_of_ne ?_).mpr hf
        rintro rfl
        omega
    · simp only [joinBefore, if_neg htouch]
      refine hkept fun q hq => ?_
      rw [hbefore, Option.some.injEq] at hq
      rwa [← hq]

theorem LeftJoined.joinAfter {l₁ : List Extent} {e₁ : Extent} (hl : Spaced l) (he : 0 < e.size)
    (h : LeftJoined l e l₁ e₁) :
    Merged l e (joinAfter l₁ e₁ (after l e.addr)).1 (joinAfter l₁ e₁ (after l e.addr)).2 ∧
    ∀ f ∈ (joinAfter l₁ e₁ (after l e.addr)).1, (joinAfter l₁ e₁ (after l e.addr)).2.Parted f := by
  have hfits := h.merged.fits
  have hstop := h.stop_eq
  -- Unless it touches on the right, the extent after the first merge touches nothing.
  have hkept (hclear : ∀ f ∈ l₁, e₁.stop ≠ f.addr) :
      Merged l e l₁ e₁ ∧ ∀ f ∈ l₁, e₁.Parted f := by
    refine ⟨h.merged, fun f hf => ?_⟩
    have hbeside := hfits.beside f hf
    have hleft := h.clear f hf
    have hright := hclear f hf
    rw [Parted]
    omega
  cases hafter : after l e.addr with
  | none =>
    refine hkept fun f hf heq => ?_
    have hlt := after_none hafter (h.subset f hf)
    simp only [stop] at hstop heq
    omega
  | some n =>
    obtain ⟨hn, hle, hfirst⟩ := hl.after_some hafter
    have hn₁ := h.rest n hn hle
    by_cases htouch : e₁.stop = n.addr
    · simp only [Extent.joinAfter, if_pos htouch]
      refine ⟨h.merged.trans (hfits.merge hn₁ (.inr ⟨htouch, rfl⟩)), fun f hf => ?_⟩
      have hparted := hfits.spaced.parted_of_mem_erase hn₁ hf
      have hf₁ := mem_of_mem_erase hf
      have hbeside := hfits.beside f hf₁
      have hleft := h.clear f hf₁
      have hpos := hfits.spaced.filled f hf₁
      simp only [Parted, stop] at hparted hbeside hleft htouch ⊢
      omega
    · simp only [Extent.joinAfter, if_neg htouch]
      refine hkept fun f hf heq => htouch ?_
      have hnf := hfirst f (h.subset f hf) (by simp only [stop] at hstop heq; omega)
      have hbeside := hfits.beside n hn₁
      have hpos := hfits.spaced.filled n hn₁
      have haddr := h.addr_le
      simp only [stop] at hbeside heq hstop ⊢
      omega

theorem Fits.join (h : Fits l e) :
    Spaced (join l e) ∧ (∀ x, Covers (join l e) x ↔ e.Has x ∨ Covers l x) ∧
      total (join l e) = e.size + total l ∧ ∀ k, Aligned k (e :: l) → Aligned k (join l e) := by
  obtain ⟨hmerged, hparted⟩ := h.leftJoined.joinAfter h.spaced h.filled
  have hperm := insert_perm hmerged.fits.filled hparted
  refine ⟨hmerged.fits.spaced.insert hmerged.fits.filled hparted, fun x => ?_, ?_, fun k hk => ?_⟩
  · exact (covers_of_perm hperm).trans (covers_cons.trans (hmerged.covers x))
  · exact (total_of_perm hperm).trans (total_cons.trans hmerged.total)
  · exact (hmerged.aligned k hk).of_perm hperm.symm

def carve (l : List Extent) (e : Extent) (n : Nat) : List Extent :=
  if n < e.size then insert ⟨e.addr + n, e.size - n⟩ (l.erase e) else l.erase e

theorem Spaced.carve {n : Nat} (h : Spaced l) (he : e ∈ l) (hn : 0 < n) (hle : n ≤ e.size) :
    Spaced (carve l e n) ∧
      (∀ x, Covers l x ↔ (Extent.mk e.addr n).Has x ∨ Covers (carve l e n) x) ∧
      (∀ x, (Extent.mk e.addr n).Has x → ¬ Covers (carve l e n) x) ∧
      total l = n + total (carve l e n) ∧
      ∀ k, k ∣ n → Aligned k l → Aligned k (carve l e n) := by
  have hapart : ∀ x f, e.Has x → f ∈ l.erase e → ¬ f.Has x := by
    intro x f hx hf hfx
    have hparted := h.parted_of_mem_erase he hf
    simp only [Parted, Has, stop] at hparted hx hfx
    omega
  by_cases hlt : n < e.size
  · have hparted : ∀ f ∈ l.erase e, (Extent.mk (e.addr + n) (e.size - n)).Parted f := by
      intro f hf
      have hparted := h.parted_of_mem_erase he hf
      simp only [Parted, stop] at hparted ⊢
      omega
    have hpos : 0 < (Extent.mk (e.addr + n) (e.size - n)).size := Nat.sub_pos_of_lt hlt
    have hperm := insert_perm hpos hparted
    rw [Extent.carve, if_pos hlt]
    refine ⟨(h.erase e).insert hpos hparted, fun x => ?_, fun x hx => ?_, ?_, fun k hk hl => ?_⟩
    · rw [covers_erase he, covers_of_perm hperm, covers_cons, ← or_assoc]
      apply or_congr_left
      simp only [Has, stop]
      omega
    · rw [covers_of_perm hperm, covers_cons]
      rintro (hrest | ⟨f, hf, hfx⟩)
      · simp only [Has, stop] at hx hrest
        omega
      · refine hapart x f ?_ hf hfx
        simp only [Has, stop] at hx ⊢
        omega
    · rw [total_erase he, total_of_perm hperm, total_cons]
      simp only
      omega
    · refine Aligned.of_perm hperm.symm fun f hf => ?_
      rcases mem_cons.mp hf with rfl | hf
      · exact ⟨Nat.dvd_add (hl e he).1 hk, Nat.dvd_sub (hl e he).2 hk⟩
      · exact hl.erase e f hf
  · obtain rfl : n = e.size := by omega
    rw [Extent.carve, if_neg hlt]
    exact ⟨h.erase e, fun x => covers_erase he, fun x hx ⟨f, hf, hfx⟩ => hapart x f hx hf hfx,
      total_erase he, fun k _ hl => hl.erase e⟩

end Extent

end Lib
