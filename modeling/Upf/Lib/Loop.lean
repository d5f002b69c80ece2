import Mathlib.Data.List.Forall2

/-!
# Loops that can fail and use a resource

A loop reads one item after another.  Reading may fail, which ends the loop, and
may draw on a resource that keeps whatever was drawn even when the loop fails.
What is read is folded into an accumulator.
-/

namespace Lib

open List

variable {I R A P ε : Type}

theorem bind_ok {B : Type} {x : Except ε A} {f : A → Except ε B} {b : B}
    (h : x >>= f = .ok b) : ∃ a, x = .ok a ∧ f a = .ok b := by
  cases x with
  | error e => exact absurd h (by simp [bind, Except.bind])
  | ok a => exact ⟨a, rfl, h⟩

theorem forall₂_of_mapM {B : Type} {f : A → Except ε B} {as : List A} {bs : List B}
    (h : as.mapM f = .ok bs) : List.Forall₂ (fun a b => f a = .ok b) as bs := by
  induction as generalizing bs with
  | nil =>
    cases h
    exact .nil
  | cons a as ih =>
    rw [mapM_cons] at h
    obtain ⟨b, hb, h⟩ := bind_ok h
    obtain ⟨rest, hrest, h⟩ := bind_ok h
    cases h
    exact .cons hb (ih hrest)

/-- Go on after a step that may have failed, with what it left of the resource. -/
def andThen {B : Type} (x : Except ε A × P) (f : A → P → Except ε B × P) : Except ε B × P :=
  match x with
  | (.error e, p) => (.error e, p)
  | (.ok a, p) => f a p

theorem andThen_ok {B : Type} {x : Except ε A × P} {f : A → P → Except ε B × P} {b : B} {p' : P}
    (h : andThen x f = (.ok b, p')) : ∃ a p, x = (.ok a, p) ∧ f a p = (.ok b, p') := by
  rcases x with ⟨e | a, p⟩
  · simp [andThen] at h
  · exact ⟨a, p, rfl, h⟩

/-- Two steps move the resource along any relation that is transitive and that
each of them moves it along. -/
theorem andThen_resource {B : Type} (rel : P → P → Prop)
    (htrans : ∀ p q r, rel p q → rel q r → rel p r) {x : Except ε A × P}
    {f : A → P → Except ε B × P} {p : P} (hx : rel p x.2) (hf : ∀ a q, rel q (f a q).2) :
    rel p (andThen x f).2 := by
  rcases x with ⟨e | a, q⟩
  · exact hx
  · exact htrans _ _ _ hx (hf a q)

/-- A step that leaves the resource alone. -/
theorem andThen_snd {B : Type} {x : Except ε A × P} {f : A → P → Except ε B × P}
    (hf : ∀ a p, (f a p).2 = p) : (andThen x f).2 = x.2 := by
  rcases x with ⟨e | a, p⟩
  · rfl
  · exact hf a p

theorem andThen_isOk {B : Type} {x : Except ε A × P} {f : A → P → Except ε B × P} {good : Bool}
    (hf : ∀ a p, (f a p).1.isOk = good) : (andThen x f).1.isOk = (x.1.isOk && good) := by
  rcases x with ⟨e | a, p⟩
  · rfl
  · exact hf a p

def readEach (read : I → P → Except ε R × P) (use : A → R → A) :
    List I → A → P → Except ε A × P
  | [], acc, p => (.ok acc, p)
  | i :: is, acc, p => andThen (read i p) fun r p => readEach read use is (use acc r) p

variable {read : I → P → Except ε R × P} {use : A → R → A}

/-- The loop moves the resource along any preorder the reads of its items move it
along. -/
theorem readEach_resource_of_mem (rel : P → P → Prop) (hrefl : ∀ p, rel p p)
    (htrans : ∀ p q r, rel p q → rel q r → rel p r) (is : List I)
    (hread : ∀ i ∈ is, ∀ p, rel p (read i p).2) (acc : A) (p : P) :
    rel p (readEach read use is acc p).2 := by
  induction is generalizing acc p with
  | nil => exact hrefl p
  | cons i is ih =>
    unfold readEach
    apply andThen_resource rel htrans (hread i mem_cons_self p)
    intro r q
    exact ih (fun j hj => hread j (mem_cons_of_mem _ hj)) (use acc r) q

theorem readEach_resource (rel : P → P → Prop) (hrefl : ∀ p, rel p p)
    (htrans : ∀ p q r, rel p q → rel q r → rel p r)
    (hread : ∀ i p, rel p (read i p).2) (is : List I) (acc : A) (p : P) :
    rel p (readEach read use is acc p).2 :=
  readEach_resource_of_mem rel hrefl htrans is (fun i _ => hread i) acc p

theorem readEach_snd (hread : ∀ i p, (read i p).2 = p) (is : List I) (acc : A) (p : P) :
    (readEach read use is acc p).2 = p :=
  (readEach_resource Eq (fun _ => rfl) (fun _ _ _ => Eq.trans) (fun i p => (hread i p).symm)
    is acc p).symm

variable {p' : P} {α β : Type}

/-- A loop that succeeds read every item somewhere between the resource it
started with and the one it ended with. -/
theorem readEach_ok (rel : P → P → Prop) (hrefl : ∀ p, rel p p)
    (htrans : ∀ p q r, rel p q → rel q r → rel p r)
    (hread : ∀ i p, rel p (read i p).2) {is : List I} {acc acc' : A} {p : P}
    (h : readEach read use is acc p = (.ok acc', p')) :
    ∃ rs, acc' = rs.foldl use acc ∧
      List.Forall₂ (fun i r => ∃ q q', rel p q ∧ read i q = (.ok r, q') ∧ rel q' p') is rs := by
  induction is generalizing acc p with
  | nil =>
    simp only [readEach, Prod.mk.injEq, Except.ok.injEq] at h
    exact ⟨[], h.1.symm, .nil⟩
  | cons i is ih =>
    rcases andThen_ok h with ⟨r, q, hi, hloop⟩
    have hpq : rel p q := by
      have hstep := hread i p
      rwa [hi] at hstep
    have hqp' : rel q p' := by
      have hrest : rel q (readEach read use is (use acc r) q).2 :=
        readEach_resource rel hrefl htrans hread is (use acc r) q
      rwa [hloop] at hrest
    rcases ih hloop with ⟨rs, hacc, hall⟩
    refine ⟨r :: rs, hacc, .cons ⟨p, q, hrefl p, hi, hqp'⟩ ?_⟩
    refine hall.imp ?_
    rintro j s ⟨q₁, q₂, hq₁, hj, hq₂⟩
    exact ⟨q₁, q₂, htrans _ _ _ hpq hq₁, hj, hq₂⟩

theorem andThen_error {B : Type} {x : Except ε A × P} {f : A → P → Except ε B × P} {e : ε}
    (h : andThen x f = (.error e, p')) :
    x = (.error e, p') ∨ ∃ a p, x = (.ok a, p) ∧ f a p = (.error e, p') := by
  rcases x with ⟨e' | a, p⟩
  · left
    simpa [andThen] using h
  · exact .inr ⟨a, p, rfl, h⟩

theorem readEach_error {is : List I} {acc : A} {e : ε} {p : P}
    (h : readEach read use is acc p = (.error e, p')) :
    ∃ i ∈ is, ∃ q q', read i q = (.error e, q') := by
  induction is generalizing acc p with
  | nil => simp [readEach] at h
  | cons i is ih =>
    rcases andThen_error h with hi | ⟨r, q, -, hloop⟩
    · exact ⟨i, mem_cons_self, p, p', hi⟩
    · rcases ih hloop with ⟨j, hj, hread⟩
      exact ⟨j, mem_cons_of_mem _ hj, hread⟩

/-- Where the success of a read is decided by the item alone, a loop succeeds
exactly when all its items are good. -/
theorem readEach_isOk {good : I → Bool} (hread : ∀ i p, (read i p).1.isOk = good i)
    (is : List I) (acc : A) (p : P) : (readEach read use is acc p).1.isOk = is.all good := by
  induction is generalizing acc p with
  | nil => rfl
  | cons i is ih =>
    have hi := hread i p
    unfold readEach
    rcases hp : read i p with ⟨e | r, q⟩
    · rw [hp] at hi
      simp [andThen, ← hi, Except.isOk, Except.toBool]
    · rw [hp] at hi
      rw [all_cons, ← hi, ← ih (use acc r) q]
      rfl

theorem exists_left {rel : α → β → Prop} {l : List α} {l' : List β} {b : β}
    (h : List.Forall₂ rel l l') (hb : b ∈ l') : ∃ a ∈ l, rel a b := by
  induction h with
  | nil => simp at hb
  | @cons a b' l l' hab _ ih =>
    rcases mem_cons.mp hb with rfl | hb
    · exact ⟨a, mem_cons_self, hab⟩
    · rcases ih hb with ⟨a', ha', hrel⟩
      exact ⟨a', mem_cons_of_mem _ ha', hrel⟩

/-- Tests that agree across a pairing agree on whether one succeeds. -/
theorem any_eq_of_forall₂ {rel : α → β → Prop} {p : α → Bool} {q : β → Bool}
    {l : List α} {l' : List β} (hrel : ∀ a b, rel a b → p a = q b)
    (h : List.Forall₂ rel l l') : l.any p = l'.any q := by
  induction h with
  | nil => rfl
  | cons hab _ ih => rw [any_cons, any_cons, hrel _ _ hab, ih]

theorem forall₂_comp {γ : Type} {rel₁ : α → β → Prop} {rel₂ : β → γ → Prop}
    {rel : α → γ → Prop} {l : List α} {l' : List β} {l'' : List γ}
    (hcomp : ∀ a b c, rel₁ a b → rel₂ b c → rel a c) (h₁ : List.Forall₂ rel₁ l l')
    (h₂ : List.Forall₂ rel₂ l' l'') : List.Forall₂ rel l l'' := by
  induction h₁ generalizing l'' with
  | nil =>
    cases h₂
    exact .nil
  | cons hab _ ih =>
    cases h₂ with
    | cons hbc h₂ => exact .cons (hcomp _ _ _ hab hbc) (ih h₂)

/-- A loop that succeeds has read every item, whatever became of the resource. -/
theorem readEach_ok_reads {is : List I} {acc acc' : A} {p : P}
    (h : readEach read use is acc p = (.ok acc', p')) :
    ∃ rs : List R, acc' = rs.foldl use acc ∧
      List.Forall₂ (fun i r => ∃ q q', read i q = (.ok r, q')) is rs := by
  rcases readEach_ok (fun _ _ => True) (fun _ => trivial) (fun _ _ _ _ _ => trivial)
    (fun _ _ => trivial) h with ⟨rs, hacc, hall⟩
  refine ⟨rs, hacc, hall.imp ?_⟩
  rintro i r ⟨q, q', -, hread, -⟩
  exact ⟨q, q', hread⟩

theorem map_name_eq {κ : Type} {name : α → Option κ} {key : β → κ} {l : List α}
    {l' : List β} (h : List.Forall₂ (fun a b => name a = some (key b)) l l') :
    l.map name = l'.map fun b => some (key b) := by
  induction h with
  | nil => rfl
  | cons hab _ ih => simp [hab, ih]

theorem filterMap_name_eq {κ : Type} {name : α → Option κ} {key : β → κ} {l : List α}
    {l' : List β} (h : l.map name = l'.map fun b => some (key b)) :
    l.filterMap name = l'.map key := by
  have hid : l.filterMap name = (l.map name).filterMap id := by simp [filterMap_map]
  rw [hid, h, filterMap_map]
  exact congrFun filterMap_eq_map' l'

section Meets

variable {fine bad : I → Prop}

def Meets (fine bad : I → Prop) (items : List I) : Prop :=
  ∃ before item after, items = before ++ item :: after ∧ (∀ i ∈ before, fine i) ∧ bad item

theorem not_meets_nil : ¬ Meets fine bad [] := by
  rintro ⟨before, item, after, hnil, -⟩
  simp at hnil

theorem meets_cons (item : I) (items : List I) :
    Meets fine bad (item :: items) ↔ bad item ∨ (fine item ∧ Meets fine bad items) := by
  constructor
  · rintro ⟨before, x, after, heq, hfine, hbad⟩
    cases before with
    | nil =>
      rw [nil_append, List.cons.injEq] at heq
      rw [heq.1]
      exact .inl hbad
    | cons y before =>
      rw [cons_append, List.cons.injEq] at heq
      rcases heq with ⟨rfl, rfl⟩
      refine .inr ⟨hfine item mem_cons_self, before, x, after, rfl, ?_, hbad⟩
      exact fun i hi => hfine i (mem_cons_of_mem _ hi)
  · rintro (hbad | ⟨hitem, before, x, after, rfl, hfine, hbad⟩)
    · exact ⟨[], item, items, rfl, fun i hi => (nomatch hi), hbad⟩
    · refine ⟨item :: before, x, after, rfl, ?_, hbad⟩
      intro i hi
      rcases mem_cons.mp hi with rfl | hi
      · exact hitem
      · exact hfine i hi

end Meets

end Lib
