import Upf.Session.State

/-!
# The session store as a list of sessions

The sessions of a store, in some order: `GetAllSessions` walks a concurrent
map, so a snapshot is one of many lists.  The lemmas follow such a list through
insertion, replacement and removal.
-/

namespace Upf

open List AList

/-- A list of all sessions of a store.  Each stands once, and is stored under its
own SEID. -/
structure Lists (store : Store) (l : List PFCPSession) : Prop where
  nodup : (l.map PFCPSession.localSEID).Nodup
  lookup_iff : ∀ seid x, store.lookup seid = some x ↔ x ∈ l ∧ x.localSEID = seid

namespace Lists

variable {store : Store} {l l' : List PFCPSession} {x : PFCPSession} {seid : UInt64}

theorem empty : Lists ∅ [] :=
  ⟨nodup_nil, by simp⟩

theorem eq_empty (h : Lists store []) : store = ∅ := by
  apply AList.ext
  rw [empty_entries, eq_nil_iff_forall_not_mem]
  rintro ⟨seid, x⟩ hx
  exact absurd ((h.lookup_iff seid x).mp (mem_lookup_iff.mpr hx)).1 not_mem_nil

theorem perm (h : Lists store l) (hperm : l.Perm l') : Lists store l' :=
  ⟨(hperm.map _).nodup_iff.mp h.nodup, fun seid x => by rw [h.lookup_iff, hperm.mem_iff]⟩

theorem lookup_of_mem (h : Lists store l) (hx : x ∈ l) : store.lookup x.localSEID = some x :=
  (h.lookup_iff _ x).mpr ⟨hx, rfl⟩

theorem seid_of_lookup (h : Lists store l) (hx : store.lookup seid = some x) :
    x.localSEID = seid :=
  ((h.lookup_iff seid x).mp hx).2

theorem lookup_ne_none_iff (h : Lists store l) :
    store.lookup seid ≠ none ↔ seid ∈ l.map PFCPSession.localSEID := by
  rw [Option.ne_none_iff_exists', mem_map]
  exact exists_congr fun x => h.lookup_iff seid x

theorem exists_perm_cons (h : Lists store l) (hx : store.lookup seid = some x) :
    ∃ rest, l.Perm (x :: rest) := by
  rcases append_of_mem ((h.lookup_iff seid x).mp hx).1 with ⟨before, after, rfl⟩
  exact ⟨before ++ after, perm_middle⟩

theorem notMem_of_cons (h : Lists store (x :: l)) : x.localSEID ∉ l.map PFCPSession.localSEID :=
  (nodup_cons.mp h.nodup).1

theorem insert (h : Lists store l) (hnew : store.lookup x.localSEID = none) :
    Lists (store.insert x.localSEID x) (x :: l) := by
  have hnotMem : x.localSEID ∉ l.map PFCPSession.localSEID := by
    rw [← h.lookup_ne_none_iff, hnew]
    simp
  refine ⟨nodup_cons.mpr ⟨hnotMem, h.nodup⟩, fun seid y => ?_⟩
  by_cases hseid : seid = x.localSEID
  · subst hseid
    rw [lookup_insert, Option.some.injEq, mem_cons]
    constructor
    · rintro rfl
      exact ⟨.inl rfl, rfl⟩
    · rintro ⟨rfl | hy, hsame⟩
      · rfl
      · exact absurd (mem_map.mpr ⟨y, hy, hsame⟩) hnotMem
  · rw [lookup_insert_ne hseid, h.lookup_iff, mem_cons]
    constructor
    · exact fun hy => ⟨.inr hy.1, hy.2⟩
    · rintro ⟨rfl | hy, rfl⟩
      · exact absurd rfl hseid
      · exact ⟨hy, rfl⟩

theorem erase (h : Lists store (x :: l)) : Lists (store.erase x.localSEID) l := by
  have hnotMem := h.notMem_of_cons
  refine ⟨(nodup_cons.mp h.nodup).2, fun seid y => ?_⟩
  by_cases hseid : seid = x.localSEID
  · subst hseid
    rw [lookup_erase]
    constructor
    · exact fun hnone => absurd hnone (by simp)
    · rintro ⟨hy, hsame⟩
      exact absurd (mem_map.mpr ⟨y, hy, hsame⟩) hnotMem
  · rw [lookup_erase_ne hseid, h.lookup_iff, mem_cons]
    constructor
    · rintro ⟨rfl | hy, rfl⟩
      · exact absurd rfl hseid
      · exact ⟨hy, rfl⟩
    · exact fun hy => ⟨.inr hy.1, hy.2⟩

theorem replace (h : Lists store (x :: l)) {y : PFCPSession} (hseid : y.localSEID = x.localSEID) :
    Lists (store.insert y.localSEID y) (y :: l) := by
  have herase : Lists (store.erase y.localSEID) l := by
    rw [hseid]
    exact h.erase
  have hinsert := herase.insert (lookup_erase y.localSEID store)
  refine ⟨hinsert.nodup, fun seid z => ?_⟩
  rw [← hinsert.lookup_iff seid z]
  by_cases hz : seid = y.localSEID
  · subst hz
    rw [lookup_insert, lookup_insert]
  · rw [lookup_insert_ne hz, lookup_insert_ne hz, lookup_erase_ne hz]

theorem entries (hkeyed : ∀ seid x, store.lookup seid = some x → x.localSEID = seid) :
    Lists store (store.entries.map Sigma.snd) := by
  have hself : ∀ e ∈ store.entries, e.2.localSEID = e.1 := fun e he =>
    hkeyed e.1 e.2 (mem_lookup_iff.mpr he)
  constructor
  · have hkeys : (store.entries.map Sigma.snd).map PFCPSession.localSEID = store.keys := by
      rw [map_map]
      exact map_congr_left hself
    rw [hkeys]
    exact store.nodupKeys
  · intro seid x
    constructor
    · intro hx
      exact ⟨mem_map.mpr ⟨⟨seid, x⟩, mem_lookup_iff.mp hx, rfl⟩, hkeyed seid x hx⟩
    · rintro ⟨hx, rfl⟩
      rcases mem_map.mp hx with ⟨e, he, rfl⟩
      rw [hself e he]
      exact mem_lookup_iff.mpr he

theorem insert_any (h : Lists store l) (x : PFCPSession) :
    ∃ l', Lists (store.insert x.localSEID x) l' := by
  cases hold : store.lookup x.localSEID with
  | none => exact ⟨_, h.insert hold⟩
  | some =>
    rcases h.exists_perm_cons hold with ⟨rest, hperm⟩
    exact ⟨_, (h.perm hperm).replace (h.seid_of_lookup hold).symm⟩

theorem erase_seid (h : Lists store l) (seid : UInt64) : ∃ l', Lists (store.erase seid) l' := by
  cases hold : store.lookup seid with
  | none => exact ⟨l, by rwa [PFCPConn.erase_of_lookup_eq_none hold]⟩
  | some =>
    rcases h.exists_perm_cons hold with ⟨rest, hperm⟩
    exact ⟨rest, h.seid_of_lookup hold ▸ (h.perm hperm).erase⟩

end Lists

end Upf
