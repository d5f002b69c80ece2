import Mathlib.Data.List.Basic

/-!
# Keyed tables under batches of commands

A table is a finite map seen through its lookups.  A command overwrites or
erases one key, and a batch is a list of commands applied in order.  The
lemmas below say what a batch leaves at one key without fixing the order in
which its commands ran, which is what a caller of concurrent writers needs.
-/

namespace Lib

open List

universe u v

/-- A finite map, seen through its lookups. -/
abbrev Table (K : Type u) (V : Type v) := K → Option V

namespace Table

variable {K : Type u} {V : Type v}

inductive Op (K : Type u) (V : Type v) where
  | put (k : K) (v : V)
  | del (k : K)
deriving DecidableEq

def Op.key : Op K V → K
  | .put k _ => k
  | .del k => k

def Op.result : Op K V → Option V
  | .put _ v => some v
  | .del _ => none

@[simp] theorem Op.key_put (k : K) (v : V) : (Op.put k v).key = k := rfl

@[simp] theorem Op.key_del (k : K) : (Op.del k : Op K V).key = k := rfl

@[simp] theorem Op.result_put (k : K) (v : V) : (Op.put k v).result = some v := rfl

@[simp] theorem Op.result_del (k : K) : (Op.del k : Op K V).result = none := rfl

variable [DecidableEq K]

def apply (t : Table K V) (op : Op K V) : Table K V :=
  Function.update t op.key op.result

def applyAll (t : Table K V) (ops : List (Op K V)) : Table K V :=
  ops.foldl apply t

@[simp] theorem applyAll_nil (t : Table K V) : applyAll t [] = t := rfl

@[simp] theorem applyAll_cons (t : Table K V) (op : Op K V) (ops : List (Op K V)) :
    applyAll t (op :: ops) = applyAll (t.apply op) ops := rfl

theorem applyAll_append (t : Table K V) (ops ops' : List (Op K V)) :
    applyAll t (ops ++ ops') = applyAll (applyAll t ops) ops' := by
  simp [applyAll]

theorem apply_self (t : Table K V) (op : Op K V) : t.apply op op.key = op.result := by
  simp [apply]

theorem apply_of_ne {op : Op K V} {k : K} (t : Table K V) (h : op.key ≠ k) :
    t.apply op k = t k := by
  simp [apply, Function.update_of_ne (Ne.symm h)]

theorem applyAll_of_untouched {ops : List (Op K V)} {k : K} (t : Table K V)
    (h : ∀ op ∈ ops, op.key ≠ k) : applyAll t ops k = t k := by
  induction ops generalizing t with
  | nil => rfl
  | cons op ops ih =>
    rw [applyAll_cons, ih _ fun op' hop' => h op' (mem_cons_of_mem _ hop')]
    exact apply_of_ne t (h op mem_cons_self)

theorem applyAll_eq_or_result (t : Table K V) (ops : List (Op K V)) (k : K) :
    applyAll t ops k = t k ∨
      ∃ op ∈ ops, op.key = k ∧ applyAll t ops k = op.result := by
  induction ops generalizing t with
  | nil => exact .inl rfl
  | cons op ops ih =>
    rw [applyAll_cons]
    rcases ih (t.apply op) with hkeep | ⟨op', hop', hkey, hres⟩
    · by_cases hk : op.key = k
      · right
        refine ⟨op, mem_cons_self, hk, ?_⟩
        rw [hkeep, ← hk, apply_self]
      · left
        rw [hkeep, apply_of_ne t hk]
    · exact .inr ⟨op', mem_cons_of_mem _ hop', hkey, hres⟩

/-- If some command names a key and all that do leave the same result there,
the batch leaves that result, in whatever order its commands ran. -/
theorem applyAll_of_agree {ops : List (Op K V)} {k : K} {r : Option V} (t : Table K V)
    (hsome : ∃ op ∈ ops, op.key = k)
    (hagree : ∀ op ∈ ops, op.key = k → op.result = r) : applyAll t ops k = r := by
  induction ops generalizing t with
  | nil => simp at hsome
  | cons op ops ih =>
    have htail : ∀ op' ∈ ops, op'.key = k → op'.result = r :=
      fun op' hop' => hagree op' (mem_cons_of_mem _ hop')
    rw [applyAll_cons]
    by_cases hrest : ∃ op' ∈ ops, op'.key = k
    · exact ih _ hrest htail
    · rw [applyAll_of_untouched]
      · rcases hsome with ⟨op', hop', hkey⟩
        rcases mem_cons.mp hop' with rfl | hop'
        · rw [← hagree op' mem_cons_self hkey, ← hkey, apply_self]
        · exact absurd ⟨op', hop', hkey⟩ hrest
      · intro op' hop' hkey
        exact hrest ⟨op', hop', hkey⟩

/-- The entries `es` are exactly what the table holds for one owner. -/
def Holds (t : Table K V) (own : K → V → Prop) (es : List (K × V)) : Prop :=
  ∀ k v, (t k = some v ∧ own k v) ↔ (k, v) ∈ es

def puts (es : List (K × V)) : List (Op K V) := es.map fun e => .put e.1 e.2

def dels (ks : List K) : List (Op K V) := ks.map .del

omit [DecidableEq K] in
@[simp] theorem mem_puts {es : List (K × V)} {op : Op K V} :
    op ∈ puts es ↔ ∃ k v, (k, v) ∈ es ∧ op = .put k v := by
  simp only [puts, mem_map]
  constructor
  · rintro ⟨⟨k, v⟩, he, rfl⟩
    exact ⟨k, v, he, rfl⟩
  · rintro ⟨k, v, he, rfl⟩
    exact ⟨(k, v), he, rfl⟩

omit [DecidableEq K] in
@[simp] theorem mem_dels {ks : List K} {op : Op K V} :
    op ∈ (dels ks : List (Op K V)) ↔ ∃ k ∈ ks, op = .del k := by
  simp [dels, eq_comm]

section OneKey

variable {es : List (K × V)} {ks : List K} {ops : List (Op K V)} {k : K} {v : V} (t : Table K V)

theorem applyAll_puts_of_mem (hops : ∀ op, op.key = k → (op ∈ ops ↔ op ∈ puts es))
    (hfun : ∀ w, (k, w) ∈ es → w = v) (he : (k, v) ∈ es) : applyAll t ops k = some v := by
  apply applyAll_of_agree
  · exact ⟨.put k v, (hops _ rfl).mpr (mem_puts.mpr ⟨k, v, he, rfl⟩), rfl⟩
  · rintro op hop rfl
    rcases mem_puts.mp ((hops op rfl).mp hop) with ⟨k', v', he', rfl⟩
    rw [Op.result_put, hfun v' he']

theorem applyAll_puts_of_not_mem (hops : ∀ op ∈ ops, op.key = k → op ∈ puts es)
    (hk : ∀ w, (k, w) ∉ es) : applyAll t ops k = t k := by
  apply applyAll_of_untouched
  rintro op hop rfl
  rcases mem_puts.mp (hops op hop rfl) with ⟨k', v', he', rfl⟩
  exact hk v' he'

theorem applyAll_dels_of_mem (hops : ∀ op, op.key = k → (op ∈ ops ↔ op ∈ (dels ks : List (Op K V))))
    (hk : k ∈ ks) : applyAll t ops k = none := by
  apply applyAll_of_agree
  · exact ⟨.del k, (hops _ rfl).mpr (mem_dels.mpr ⟨k, hk, rfl⟩), rfl⟩
  · rintro op hop rfl
    rcases mem_dels.mp ((hops op rfl).mp hop) with ⟨k', -, rfl⟩
    rfl

theorem applyAll_dels_of_not_mem (hops : ∀ op ∈ ops, op.key = k → op ∈ (dels ks : List (Op K V)))
    (hk : k ∉ ks) : applyAll t ops k = t k := by
  apply applyAll_of_untouched
  rintro op hop rfl
  rcases mem_dels.mp (hops op hop rfl) with ⟨k', hk', rfl⟩
  exact hk hk'

end OneKey

section Owner

variable {t : Table K V} {dom : K → Prop} {own : K → V → Prop} {es es' ws : List (K × V)}
  {ks : List K} {ops : List (Op K V)}

omit [DecidableEq K] in
theorem Holds.unique (h : Holds t own es) {k : K} {v w : V} (hv : (k, v) ∈ es)
    (hw : (k, w) ∈ es) : w = v := by
  have hkv := ((h k v).mpr hv).1
  have hkw := ((h k w).mpr hw).1
  rw [hkv] at hkw
  exact (Option.some.inj hkw).symm

/-- Overwriting an owner's entries with `ws` turns `es` into `es'`
when `es'` is `ws` together with the old entries at other keys.  The
batch may hold any other commands off the keys `dom` the owner lives on. -/
theorem Holds.put (h : Holds t own es) (hdom : ∀ k v, own k v → dom k)
    (hops : ∀ op, dom op.key → (op ∈ ops ↔ op ∈ puts ws))
    (hfun : ∀ k v w, (k, v) ∈ ws → (k, w) ∈ ws → w = v)
    (hown : ∀ k v, (k, v) ∈ ws → own k v)
    (hnew : ∀ k v, (k, v) ∈ es' ↔ (k, v) ∈ ws ∨ ((k, v) ∈ es ∧ ∀ w, (k, w) ∉ ws)) :
    Holds (applyAll t ops) own es' := by
  intro k v
  rw [hnew]
  by_cases hk : ∃ w, (k, w) ∈ ws
  · rcases hk with ⟨w, hw⟩
    have hval : applyAll t ops k = some w := by
      apply applyAll_puts_of_mem t _ (fun w' hw' => hfun k w w' hw hw') hw
      rintro op rfl
      exact hops op (hdom _ _ (hown _ _ hw))
    rw [hval]
    constructor
    · rintro ⟨hv, -⟩
      rw [Option.some.injEq] at hv
      exact .inl (hv ▸ hw)
    · rintro (hv | ⟨-, hnone⟩)
      · exact ⟨by rw [hfun k v w hv hw], hown _ _ hv⟩
      · exact absurd hw (hnone w)
  · push Not at hk
    by_cases hkdom : dom k
    · have hkeep : applyAll t ops k = t k := by
        apply applyAll_puts_of_not_mem t _ hk
        rintro op hop rfl
        exact (hops op hkdom).mp hop
      rw [hkeep, h k v]
      constructor
      · intro he
        exact .inr ⟨he, hk⟩
      · rintro (hv | ⟨he, -⟩)
        · exact absurd hv (hk v)
        · exact he
    · -- Outside the owner's keys there is nothing of the owner to hold.
      constructor
      · rintro ⟨-, hkv⟩
        exact absurd (hdom k v hkv) hkdom
      · rintro (hv | ⟨he, -⟩)
        · exact absurd hv (hk v)
        · exact absurd (hdom k v ((h k v).mpr he).2) hkdom

/-- Erasing the keys `ks` drops an owner's entries at those keys and no
others. -/
theorem Holds.del (h : Holds t own es) (hdom : ∀ k v, own k v → dom k)
    (hops : ∀ op, dom op.key → (op ∈ ops ↔ op ∈ (dels ks : List (Op K V))))
    (hnew : ∀ k v, (k, v) ∈ es' ↔ (k, v) ∈ es ∧ k ∉ ks) :
    Holds (applyAll t ops) own es' := by
  intro k v
  rw [hnew, ← h k v]
  by_cases hkdom : dom k
  · have hkops : ∀ op, op.key = k → (op ∈ ops ↔ op ∈ (dels ks : List (Op K V))) := by
      rintro op rfl
      exact hops op hkdom
    by_cases hk : k ∈ ks
    · simp [applyAll_dels_of_mem t hkops hk, hk]
    · rw [applyAll_dels_of_not_mem t (fun op hop hkey => (hkops op hkey).mp hop) hk]
      simp [hk]
  · constructor
    · rintro ⟨-, hkv⟩
      exact absurd (hdom k v hkv) hkdom
    · rintro ⟨⟨-, hkv⟩, -⟩
      exact absurd (hdom k v hkv) hkdom

/-- A batch none of whose commands meets or makes an entry of the owner leaves
the owner's entries as they are. -/
theorem Holds.frame (h : Holds t own es)
    (hmeet : ∀ op ∈ ops, ∀ v, t op.key = some v → ¬ own op.key v)
    (hmake : ∀ op ∈ ops, ∀ v, op.result = some v → ¬ own op.key v) :
    Holds (applyAll t ops) own es := by
  intro k v
  rw [← h k v]
  rcases applyAll_eq_or_result t ops k with hkeep | ⟨op, hop, rfl, hres⟩
  · rw [hkeep]
  · constructor
    · rintro ⟨hv, hown⟩
      exact absurd hown (hmake op hop v (hres ▸ hv))
    · rintro ⟨hv, hown⟩
      exact absurd hown (hmeet op hop v hv)

end Owner

section Rollback

variable {t : Table K V} {before : List (K × V)} {done erase restore : List (Op K V)}

/-- Some commands were carried out, in any number and order; then a rollback
erased keys and wrote the old entries again.  A key outside the old entries is
empty or untouched, provided the rollback erased it if it may have been filled. -/
theorem rollback_of_not_mem {k : K} (hk : ∀ v, (k, v) ∉ before)
    (hcover : ∀ op ∈ done, op.key = k → op.result ≠ none → ∃ op' ∈ erase, op'.key = k)
    (herase : ∀ op ∈ erase, op.key = k → op.result = none)
    (hrestore : ∀ op ∈ restore, op.key = k → op ∈ puts before) :
    applyAll (applyAll (applyAll t done) erase) restore k = none ∨
      applyAll (applyAll (applyAll t done) erase) restore k = t k := by
  rw [applyAll_puts_of_not_mem _ hrestore hk]
  by_cases hers : ∃ op ∈ erase, op.key = k
  · exact .inl (applyAll_of_agree _ hers herase)
  · rw [applyAll_of_untouched _ fun op hop hkey => hers ⟨op, hop, hkey⟩]
    rcases applyAll_eq_or_result t done k with hkeep | ⟨op, hop, hkey, hres⟩
    · exact .inr hkeep
    · left
      rw [hres]
      by_contra hsome
      exact hers (hcover op hop hkey hsome)

/-- A rollback that erases what may have been filled on an owner's keys leaves
the owner with its old entries. -/
theorem Holds.rollback {dom : K → Prop} {own : K → V → Prop} (h : Holds t own before)
    (hdom : ∀ k v, own k v → dom k)
    (hcover : ∀ op ∈ done, dom op.key → op.result ≠ none →
      (∃ v, (op.key, v) ∈ before) ∨ ∃ op' ∈ erase, op'.key = op.key)
    (herase : ∀ op ∈ erase, op.result = none)
    (hrestore : ∀ op, dom op.key → (op ∈ restore ↔ op ∈ puts before)) :
    Holds (applyAll (applyAll (applyAll t done) erase) restore) own before := by
  intro k v
  by_cases hk : ∃ w, (k, w) ∈ before
  · rcases hk with ⟨w, hw⟩
    have hkdom : dom k := hdom k w ((h k w).mpr hw).2
    rw [applyAll_puts_of_mem _ (by rintro op rfl; exact hrestore op hkdom)
      (fun w' hw' => h.unique hw hw') hw, ← ((h k w).mpr hw).1]
    exact h k v
  · push Not at hk
    constructor
    · rintro ⟨hv, hown⟩
      have hkdom := hdom k v hown
      have hkcover : ∀ op ∈ done, op.key = k → op.result ≠ none →
          ∃ op' ∈ erase, op'.key = k := by
        rintro op hop rfl hres
        rcases hcover op hop hkdom hres with ⟨w, hw⟩ | hers
        · exact absurd hw (hk w)
        · exact hers
      rcases rollback_of_not_mem hk hkcover (fun op hop _ => herase op hop)
        (by rintro op hop rfl; exact (hrestore op hkdom).mp hop) with hnone | hkeep
      · rw [hnone] at hv
        cases hv
      · rw [hkeep] at hv
        exact (h k v).mp ⟨hv, hown⟩
    · intro hv
      exact absurd hv (hk v)

/-- When in addition nothing but the owner's entries stood at the keys the
commands named, the whole table is the old one. -/
theorem rollback_restores {own : K → V → Prop} (h : Holds t own before)
    (hcover : ∀ op ∈ done, op.result ≠ none →
      (∃ v, (op.key, v) ∈ before) ∨ ∃ op' ∈ erase, op'.key = op.key)
    (herase : ∀ op ∈ erase, op.result = none)
    (hrestore : ∀ op, op ∈ restore ↔ op ∈ puts before)
    (hforeign : ∀ op ∈ done ++ erase, ∀ v, t op.key = some v → own op.key v) :
    applyAll (applyAll (applyAll t done) erase) restore = t := by
  funext k
  by_cases hk : ∃ v, (k, v) ∈ before
  · rcases hk with ⟨v, hv⟩
    rw [applyAll_puts_of_mem _ (fun op _ => hrestore op) (fun w hw => h.unique hv hw) hv,
      ((h k v).mpr hv).1]
  · push Not at hk
    by_cases htouched : ∃ op ∈ done ++ erase, op.key = k
    · have hold : t k = none := by
        rcases htouched with ⟨op, hop, rfl⟩
        cases hcase : t op.key with
        | none => rfl
        | some v => exact absurd ((h _ v).mp ⟨hcase, hforeign op hop v hcase⟩) (hk v)
      have hkcover : ∀ op ∈ done, op.key = k → op.result ≠ none →
          ∃ op' ∈ erase, op'.key = k := by
        rintro op hop rfl hres
        rcases hcover op hop hres with ⟨w, hw⟩ | hers
        · exact absurd hw (hk w)
        · exact hers
      rcases rollback_of_not_mem hk hkcover (fun op hop _ => herase op hop)
        (fun op hop _ => (hrestore op).mp hop) with hnone | hkeep
      · rw [hnone, hold]
      · exact hkeep
    · push Not at htouched
      rw [applyAll_puts_of_not_mem _ (fun op hop _ => (hrestore op).mp hop) hk,
        applyAll_of_untouched _ fun op hop => htouched op (mem_append_right _ hop),
        applyAll_of_untouched _ fun op hop => htouched op (mem_append_left _ hop)]

end Rollback

end Table

end Lib
