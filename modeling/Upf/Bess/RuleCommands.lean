import Upf.Bess.Slots

/-!
# Rule commands as sequences of writes

A command decides what to write from the slots as it finds them; only commands
write to the slots, one command at a time, so nothing changes under it.  A slot
for a new mask is a released one of the same mask, an unused one or, once every
slot has been used, any released one, whose mask is rewritten while the workers
are paused.
-/

namespace Upf.Bess

open Lib List Option Bool AList

structure Plan where
  slot : Nat := 0
  writes : List SlotWrite := []
  answer : Except Errno Unit

def Plan.run (p : Plan) (ts : Slots) : Slots := ts.modify p.slot (SlotWrite.applyAll p.writes)

def slotWrites (ts : Slots) (mask : List UInt8) : Except Errno (Nat × List SlotWrite) :=
  match ts.findIdx? fun t => t.occupied && t.mask == mask with
  | some i => .ok (i, [])
  | none =>
    match ts.findIdx? fun t => !t.occupied && t.ht.isSome && t.mask == mask with
    | some i => .ok (i, [.setOccupied true])
    | none =>
      match ts.findIdx? fun t => !t.occupied && t.ht.isNone with
      | some i => .ok (i, [.setMask mask, .setTable, .setOccupied true])
      | none =>
        match ts.findIdx? fun t => !t.occupied && t.ht.isSome with
        | some i => .ok (i, [.pause, .setMask mask, .setOccupied true, .resume])
        | none => .error .enospc

def takes (room : WmTable → List UInt8 → Bool) (key : List UInt8) (t : WmTuple) : Bool :=
  t.ht.any fun ht => room ht key

/-- Whether a slot's table is empty once a key is taken out. -/
def emptied (key : List UInt8) (t : WmTuple) : Bool :=
  t.ht.all fun ht => (ht.erase key).keys.isEmpty

section Plans

variable {A : Type}

def planAdd (room : WmTable → List UInt8 → Bool) (arg : WildcardMatchCommandAddArg)
    (wm : WildcardMatch A) : Plan :=
  match wm.rule arg with
  | .error e => { answer := .error e }
  | .ok r =>
    match slotWrites wm.tuples r.mask with
    | .error e => { answer := .error e }
    | .ok (i, ws) =>
      if wm.tuples[i]?.any fun t => takes room r.key (SlotWrite.applyAll ws t) then
        { slot := i, writes := ws ++ [.insert (stated arg r)], answer := .ok () }
      else { slot := i, writes := ws, answer := .error .einval }

def planDelete (arg : WildcardMatchCommandDeleteArg) (wm : WildcardMatch A) : Plan :=
  match extractKeyMask wm.fields arg.values arg.masks with
  | .error e => { answer := .error e }
  | .ok (key, mask) =>
    match wm.findTuple mask with
    | none => { answer := .error .enoent }
    | some i =>
      { slot := i
        writes := .remove mask key ::
          (if wm.tuples[i]?.any (emptied key) then [.setOccupied false] else [])
        answer := .ok () }

end Plans

section Equations

variable {ts : Slots} {i : Nat} {t : WmTuple}

@[simp] theorem applyAll_nil (t : WmTuple) : SlotWrite.applyAll [] t = t := rfl

@[simp] theorem applyAll_cons (w : SlotWrite) (ws : List SlotWrite) (t : WmTuple) :
    SlotWrite.applyAll (w :: ws) t = SlotWrite.applyAll ws (w.apply t) := rfl

theorem applyAll_append (ws ws' : List SlotWrite) (t : WmTuple) :
    SlotWrite.applyAll (ws ++ ws') t = SlotWrite.applyAll ws' (SlotWrite.applyAll ws t) :=
  foldl_append

theorem modify_congr {f g : WmTuple → WmTuple} (h : ∀ t, ts[i]? = some t → f t = g t) :
    ts.modify i f = ts.modify i g := by
  apply ext_getElem?
  intro j
  by_cases hj : j = i
  · subst hj
    cases hslot : ts[j]? with
    | none => simp [hslot]
    | some t => rw [Slots.getElem?_modify_self hslot, Slots.getElem?_modify_self hslot, h t hslot]
  · rw [Slots.getElem?_modify_ne hj, Slots.getElem?_modify_ne hj]

theorem modify_applyAll_nil : ts.modify i (SlotWrite.applyAll []) = ts := modify_id i ts

theorem Plan.run_refused (ts : Slots) (e : Errno) : ({ answer := .error e } : Plan).run ts = ts :=
  modify_applyAll_nil

variable {A : Type}

theorem slotFor_eq (wm : WildcardMatch A) (mask : List UInt8) :
    wm.slotFor mask = (slotWrites wm.tuples mask).map fun p =>
      (p.1, { wm with tuples := wm.tuples.modify p.1 (SlotWrite.applyAll p.2) }) := by
  unfold WildcardMatch.slotFor WildcardMatch.findTuple slotWrites
  cases List.findIdx? (fun t : WmTuple => t.occupied && t.mask == mask) wm.tuples with
  | some =>
    dsimp only [Except.map]
    rw [modify_applyAll_nil]
  | none =>
    unfold WildcardMatch.addTuple
    dsimp only
    cases List.findIdx? (fun t : WmTuple => !t.occupied && t.ht.isSome && t.mask == mask)
      wm.tuples with
    | some i => rfl
    | none =>
      dsimp only
      cases List.findIdx? (fun t : WmTuple => !t.occupied && t.ht.isNone) wm.tuples with
      | some => rfl
      | none =>
        dsimp only
        cases List.findIdx? (fun t : WmTuple => !t.occupied && t.ht.isSome) wm.tuples with
        | some => rfl
        | none => rfl

theorem insertAt_eq (room : WmTable → List UInt8 → Bool) (wm : WildcardMatch A)
    {s : TernaryRule} {r : WmRule} (hs : s.stored = r) :
    wm.insertAt room i r.key r.data =
      if wm.tuples[i]?.any (takes room r.key) then
        some { wm with tuples := wm.tuples.modify i (SlotWrite.insert s).apply }
      else none := by
  unfold WildcardMatch.insertAt
  cases hslot : wm.tuples[i]? with
  | none => rfl
  | some t =>
    rcases t with ⟨occupied, _ | ht, mask⟩
    · rfl
    · have hany : (some ⟨occupied, some ht, mask⟩ : Option WmTuple).any (takes room r.key) =
          room ht r.key := rfl
      rw [hany]
      dsimp only
      by_cases htakes : room ht r.key = true
      · rw [if_pos htakes, if_pos htakes]
        unfold WildcardMatch.modifyTuple
        congr 2
        apply modify_congr
        intro t ht'
        rw [hslot, some.injEq] at ht'
        rw [← ht', ← hs]
        rfl
      · rw [if_neg htakes, if_neg htakes]

theorem commandAdd_eq_plan (room : WmTable → List UInt8 → Bool)
    (arg : WildcardMatchCommandAddArg) (wm : WildcardMatch A) :
    wm.commandAdd room arg =
      ((planAdd room arg wm).answer,
        { wm with tuples := (planAdd room arg wm).run wm.tuples }) := by
  unfold WildcardMatch.commandAdd planAdd
  cases hrule : wm.rule arg with
  | error =>
    dsimp only
    rw [Plan.run_refused]
  | ok r =>
    dsimp only
    rw [slotFor_eq]
    cases slotWrites wm.tuples r.mask with
    | error =>
      dsimp only [Except.map]
      rw [Plan.run_refused]
    | ok p =>
      rcases p with ⟨i, ws⟩
      dsimp only [Except.map]
      rw [insertAt_eq room _ (stated_stored hrule)]
      have htakes : ((wm.tuples.modify i (SlotWrite.applyAll ws))[i]?.any (takes room r.key)) =
          wm.tuples[i]?.any fun t => takes room r.key (SlotWrite.applyAll ws t) := by
        cases hslot : wm.tuples[i]? with
        | none => simp [hslot]
        | some => rw [Slots.getElem?_modify_self hslot]; rfl
      dsimp only
      rw [htakes]
      split_ifs
      · dsimp only [Plan.run]
        rw [modify_modify_eq]
        congr 3
        funext t
        exact (applyAll_append ws [.insert (stated arg r)] t).symm
      · rfl

theorem commandDelete_eq_plan (arg : WildcardMatchCommandDeleteArg) (wm : WildcardMatch A) :
    wm.commandDelete arg =
      ((planDelete arg wm).answer, { wm with tuples := (planDelete arg wm).run wm.tuples }) := by
  unfold WildcardMatch.commandDelete planDelete
  cases extractKeyMask wm.fields arg.values arg.masks with
  | error =>
    dsimp only
    rw [Plan.run_refused]
  | ok p =>
    rcases p with ⟨key, mask⟩
    dsimp only
    cases wm.findTuple mask with
    | none =>
      dsimp only
      rw [Plan.run_refused]
    | some =>
      dsimp only [Plan.run, WildcardMatch.delEntry, WildcardMatch.modifyTuple]
      congr 2
      apply modify_congr
      rintro ⟨occupied, _ | ht, tmask⟩ hslot
      · rw [hslot]
        cases occupied <;> rfl
      · have hany : (some ⟨occupied, some ht, tmask⟩ : Option WmTuple).any (emptied key) =
            (ht.erase key).keys.isEmpty := rfl
        rw [hslot, hany]
        dsimp only [map_some, any_some]
        cases (ht.erase key).keys.isEmpty <;> cases occupied <;> rfl

end Equations

section Sound

variable {ts : Slots} {i : Nat} {t : WmTuple} {mask : List UInt8}

theorem findIdx?_slot {p : WmTuple → Bool} (h : ts.findIdx? p = some i) :
    ∃ t, ts[i]? = some t ∧ p t = true := by
  rcases findIdx?_eq_some_iff_getElem.mp h with ⟨hi, hp, -⟩
  exact ⟨ts[i], getElem?_eq_getElem hi, hp⟩

theorem findIdx?_none {p : WmTuple → Bool} (h : ts.findIdx? p = none) (hslot : ts[i]? = some t) :
    p t = false :=
  findIdx?_eq_none_iff.mp h t (mem_of_getElem? hslot)

structure Plan.Safe (p : Plan) (ts : Slots) : Prop where
  slot_lt : p.slot < ts.length
  safely : ∀ t, ts[p.slot]? = some t →
    SlotWrite.Safely (OtherMask ts p.slot) false t p.writes

/-- A safe plan that keeps the slots settled: a slot it leaves occupied holds a
rule. -/
structure Plan.Sound (p : Plan) (ts : Slots) : Prop extends Plan.Safe p ts where
  settles : ∀ t, ts[p.slot]? = some t → (SlotWrite.applyAll p.writes t).occupied = true →
    (SlotWrite.applyAll p.writes t).ht ≠ some ∅

theorem Plan.Sound.settled {p : Plan} {live : List TernaryRule} (hp : p.Sound ts)
    (h : Slots.Settled ts) (hholds : Slots.Holds ts live) :
    Slots.Settled (p.run ts) ∧ Slots.Holds (p.run ts) (SlotWrite.liveAll p.writes live) := by
  have hlt := hp.slot_lt
  have hslot : ts[p.slot]? = some ts[p.slot] := getElem?_eq_getElem hlt
  have hrun := h.toWf.writes hholds hslot (hp.safely _ hslot)
  refine ⟨⟨hrun.1, ?_, ?_⟩, hrun.2⟩
  · unfold Plan.run
    rw [length_modify]
    exact h.size
  · intro j u hu hocc
    rcases Slots.getElem?_modify_cases hslot hu with ⟨-, rfl⟩ | ⟨-, hu⟩
    · exact hp.settles _ hslot hocc
    · exact h.nonempty j u hu hocc

theorem Plan.Safe.refused (h : 0 < ts.length) (e : Errno) :
    ({ answer := .error e } : Plan).Safe ts where
  slot_lt := h
  safely _ _ := rfl

/-- The slot of a mask is made ready safely: it ends up occupied, with the mask,
and with an empty table unless it was in use. -/
theorem slotWrites_ready (h : Slots.Wf ts) {ws : List SlotWrite}
    (hws : slotWrites ts mask = .ok (i, ws)) :
    ∃ t, ts[i]? = some t ∧ (SlotWrite.applyAll ws t).occupied = true ∧
      (SlotWrite.applyAll ws t).mask = mask ∧ (ws = [] ∨ (SlotWrite.applyAll ws t).ht = some ∅) ∧
      (∀ w ∈ ws, w.quiet = true) ∧
      ∀ rest, SlotWrite.Safely (OtherMask ts i) false (SlotWrite.applyAll ws t) rest →
        SlotWrite.Safely (OtherMask ts i) false t (ws ++ rest) := by
  unfold slotWrites at hws
  cases hfound : List.findIdx? (fun t : WmTuple => t.occupied && t.mask == mask) ts with
  | some =>
    rw [hfound] at hws
    cases hws
    rcases findIdx?_slot hfound with ⟨t, hslot, ht⟩
    simp only [and_eq_true, beq_iff_eq] at ht
    exact ⟨t, hslot, ht.1, ht.2, .inl rfl, by simp, fun _ hrest => hrest⟩
  | none =>
    -- No occupied slot has the mask, so it may be given to one.
    have hnew : ∀ j, ¬ OtherMask ts j mask := by
      rintro j ⟨k, u, -, hu, hocc, hmask⟩
      have hne := findIdx?_none hfound hu
      simp [hocc, hmask] at hne
    rw [hfound] at hws
    dsimp only at hws
    cases hsame : List.findIdx?
      (fun t : WmTuple => !t.occupied && t.ht.isSome && t.mask == mask) ts with
    | some j =>
      rw [hsame] at hws
      cases hws
      rcases findIdx?_slot hsame with ⟨t, hslot, ht⟩
      simp only [and_eq_true, not_eq_true', beq_iff_eq] at ht
      rcases isSome_iff_exists.mp ht.1.2 with ⟨table, htable⟩
      have hempty : t.ht = some ∅ := by
        rw [htable, h.released i t hslot ht.1.1 table htable]
      refine ⟨t, hslot, rfl, ht.2, .inr hempty, by simp [SlotWrite.quiet], fun rest hrest => ?_⟩
      exact ⟨⟨ht.1.1, ht.1.2, by rw [ht.2]; exact hnew i⟩, hrest⟩
    | none =>
      rw [hsame] at hws
      dsimp only at hws
      cases hunused : List.findIdx? (fun t : WmTuple => !t.occupied && t.ht.isNone) ts with
      | some =>
        rw [hunused] at hws
        cases hws
        rcases findIdx?_slot hunused with ⟨t, hslot, ht⟩
        simp only [and_eq_true, not_eq_true', isNone_iff_eq_none] at ht
        refine ⟨t, hslot, rfl, rfl, .inr rfl, by simp [SlotWrite.quiet], fun rest hrest => ?_⟩
        exact ⟨⟨ht.1, .inl ht.2⟩, ⟨ht.1, ht.2⟩, ⟨ht.1, rfl, hnew i⟩, hrest⟩
      | none =>
        rw [hunused] at hws
        dsimp only at hws
        cases hfree : List.findIdx? (fun t : WmTuple => !t.occupied && t.ht.isSome) ts with
        | some =>
          rw [hfree] at hws
          cases hws
          rcases findIdx?_slot hfree with ⟨t, hslot, ht⟩
          simp only [and_eq_true, not_eq_true'] at ht
          rcases isSome_iff_exists.mp ht.2 with ⟨table, htable⟩
          have hempty : t.ht = some ∅ := by
            rw [htable, h.released i t hslot ht.1 table htable]
          refine ⟨t, hslot, rfl, rfl, .inr hempty, by simp [SlotWrite.quiet], fun rest hrest => ?_⟩
          exact ⟨trivial, ⟨ht.1, .inr rfl⟩, ⟨ht.1, ht.2, hnew i⟩, trivial, hrest⟩
        | none =>
          rw [hfree] at hws
          cases hws

theorem insert_ne_empty (ht : WmTable) (key : List UInt8) (d : WmData) : ht.insert key d ≠ ∅ := by
  intro hempty
  have hlook : (ht.insert key d).lookup key = some d := lookup_insert ht
  rw [hempty, lookup_empty] at hlook
  cases hlook

variable {A : Type} {wm : WildcardMatch A} {room : WmTable → List UInt8 → Bool}

theorem planAdd_safe (room : WmTable → List UInt8 → Bool) (arg : WildcardMatchCommandAddArg)
    (h : Slots.Wf wm.tuples) (hsize : 0 < wm.tuples.length) :
    (planAdd room arg wm).Safe wm.tuples := by
  unfold planAdd
  cases wm.rule arg with
  | error e => exact Plan.Safe.refused hsize e
  | ok r =>
    dsimp only
    cases hws : slotWrites wm.tuples r.mask with
    | error e => exact Plan.Safe.refused hsize e
    | ok p =>
      rcases p with ⟨i, ws⟩
      rcases slotWrites_ready h hws with ⟨t, hslot, hocc, hmask, -, -, hsafely⟩
      have hi : i < wm.tuples.length := (List.getElem?_eq_some_iff.mp hslot).1
      have honly : ∀ u, wm.tuples[i]? = some u → u = t := fun u hu =>
        Option.some.inj (hu.symm.trans hslot)
      dsimp only
      split_ifs
      · refine ⟨hi, fun u hu => ?_⟩
        rw [honly u hu]
        exact hsafely _ ⟨⟨hocc, hmask⟩, rfl⟩
      · refine ⟨hi, fun u hu => ?_⟩
        rw [honly u hu, ← append_nil ws]
        exact hsafely [] rfl

theorem planAdd_sound (arg : WildcardMatchCommandAddArg) (h : Slots.Settled wm.tuples)
    (hroom : ∀ key, room ∅ key = true) : (planAdd room arg wm).Sound wm.tuples := by
  refine ⟨planAdd_safe room arg h.toWf h.size_pos, ?_⟩
  unfold planAdd
  cases wm.rule arg with
  | error => exact h.nonempty 0
  | ok r =>
    dsimp only
    cases hws : slotWrites wm.tuples r.mask with
    | error => exact h.nonempty 0
    | ok p =>
      rcases p with ⟨i, ws⟩
      rcases slotWrites_ready h.toWf hws with ⟨t, hslot, hocc, -, hempty, -, -⟩
      dsimp only
      split_ifs with htakes
      · intro u _ _
        rw [applyAll_append]
        intro hnone
        rcases map_eq_some_iff.mp hnone with ⟨ht, -, hins⟩
        exact insert_ne_empty _ _ _ hins
      · intro u hu _
        rw [Option.some.inj (hu.symm.trans hslot)]
        rcases hempty with rfl | hempty
        · rw [applyAll_nil] at hocc ⊢
          exact h.nonempty i t hslot hocc
        · -- A slot made ready for the rule has an empty table, which takes it.
          rw [hslot, any_some, takes, hempty, any_some, hroom] at htakes
          exact absurd rfl htakes

theorem isEmpty_keys_iff {ht : WmTable} : ht.keys.isEmpty = true ↔ ht = ∅ := by
  rw [List.isEmpty_iff]
  constructor
  · intro hkeys
    apply AList.ext
    exact map_eq_nil_iff.mp hkeys
  · rintro rfl
    rfl

theorem planDelete_safe (arg : WildcardMatchCommandDeleteArg) (h : Slots.Wf wm.tuples)
    (hsize : 0 < wm.tuples.length) : (planDelete arg wm).Safe wm.tuples := by
  unfold planDelete
  cases extractKeyMask wm.fields arg.values arg.masks with
  | error e => exact Plan.Safe.refused hsize e
  | ok p =>
    rcases p with ⟨key, mask⟩
    dsimp only
    cases hfound : wm.findTuple mask with
    | none => exact Plan.Safe.refused hsize _
    | some i =>
      rcases findIdx?_slot hfound with ⟨t, hslot, ht⟩
      simp only [and_eq_true, beq_iff_eq] at ht
      rcases isSome_iff_exists.mp (h.table i t hslot ht.1) with ⟨table, htable⟩
      have hemptied : emptied key t = (table.erase key).keys.isEmpty := by
        simp [emptied, htable]
      refine ⟨(List.getElem?_eq_some_iff.mp hslot).1, fun u hu => ?_⟩
      rw [Option.some.inj (hu.symm.trans hslot)]
      dsimp only
      rw [hslot, any_some, hemptied]
      refine ⟨ht, ?_⟩
      split_ifs with hempty
      · refine ⟨?_, rfl⟩
        change t.ht.map _ = _
        rw [htable, map_some, isEmpty_keys_iff.mp hempty]
      · rfl

theorem planDelete_sound (arg : WildcardMatchCommandDeleteArg) (h : Slots.Settled wm.tuples) :
    (planDelete arg wm).Sound wm.tuples := by
  refine ⟨planDelete_safe arg h.toWf h.size_pos, ?_⟩
  unfold planDelete
  cases extractKeyMask wm.fields arg.values arg.masks with
  | error => exact h.nonempty 0
  | ok p =>
    rcases p with ⟨key, mask⟩
    dsimp only
    cases hfound : wm.findTuple mask with
    | none => exact h.nonempty 0
    | some =>
      intro t hslot hocc
      dsimp only at hslot hocc ⊢
      rw [hslot, any_some] at hocc ⊢
      split_ifs at hocc ⊢ with hempty
      · exact absurd hocc (by simp [SlotWrite.apply])
      · -- The table that is left is not empty.
        intro hnone
        rcases map_eq_some_iff.mp hnone with ⟨table, htable, herase⟩
        apply hempty
        rw [emptied, htable, all_some, herase]
        rfl

theorem planAdd_live (room : WmTable → List UInt8 → Bool) (arg : WildcardMatchCommandAddArg)
    (h : Slots.Wf wm.tuples) (live : List TernaryRule) :
    SlotWrite.liveAll (planAdd room arg wm).writes live =
      match (planAdd room arg wm).answer, wm.rule arg with
      | .ok (), .ok r => (stated arg r).install live
      | _, _ => live := by
  unfold planAdd
  cases wm.rule arg with
  | error => rfl
  | ok r =>
    dsimp only
    cases hws : slotWrites wm.tuples r.mask with
    | error => rfl
    | ok p =>
      rcases p with ⟨i, ws⟩
      rcases slotWrites_ready h hws with ⟨t, -, -, -, -, hquiet, -⟩
      dsimp only
      split_ifs
      · have happend : SlotWrite.liveAll (ws ++ [.insert (stated arg r)]) live =
            SlotWrite.liveAll [.insert (stated arg r)] (SlotWrite.liveAll ws live) :=
          foldl_append
        rw [happend, SlotWrite.liveAll_of_quiet hquiet]
        rfl
      · exact SlotWrite.liveAll_of_quiet hquiet live

theorem planDelete_live (arg : WildcardMatchCommandDeleteArg) (wm : WildcardMatch A)
    (live : List TernaryRule) :
    SlotWrite.liveAll (planDelete arg wm).writes live =
      match (planDelete arg wm).answer, extractKeyMask wm.fields arg.values arg.masks with
      | .ok (), .ok (key, mask) => TernaryRule.discard (mask, key) live
      | _, _ => live := by
  unfold planDelete
  cases extractKeyMask wm.fields arg.values arg.masks with
  | error => rfl
  | ok p =>
    dsimp only
    cases wm.findTuple p.2 with
    | none => rfl
    | some =>
      dsimp only
      split_ifs <;> rfl

theorem slotWrites_enospc {e : Errno} (h : slotWrites ts mask = .error e) :
    e = .enospc ∧ ∀ t ∈ ts, t.occupied = true ∧ t.mask ≠ mask := by
  unfold slotWrites at h
  cases hfound : List.findIdx? (fun t : WmTuple => t.occupied && t.mask == mask) ts with
  | some =>
    rw [hfound] at h
    cases h
  | none =>
    rw [hfound] at h
    dsimp only at h
    split at h
    · cases h
    · split at h
      · cases h
      · rename_i hunused
        split at h
        · cases h
        · rename_i hfree
          refine ⟨(Except.error.inj h).symm, fun t ht => ?_⟩
          have hmask := findIdx?_eq_none_iff.mp hfound t ht
          have hnone := findIdx?_eq_none_iff.mp hunused t ht
          have hsome := findIdx?_eq_none_iff.mp hfree t ht
          cases hocc : t.occupied with
          | false =>
            rw [hocc] at hnone hsome
            cases hht : t.ht <;> simp [hht] at hnone hsome
          | true =>
            rw [hocc] at hmask
            exact ⟨rfl, by simpa using hmask⟩

end Sound

end Upf.Bess
