import Upf.Pfcp.ParsePdr

/-!
# PFD management

A PFD Management Request replaces the table of application filters.  The handler
empties the table first and fills it while it decodes the request, so that every
refusal has to put the old table back.

Main result: `handlePFDMgmtRequest_atomic`.
-/

namespace Upf

open List AList

/-- One Application ID's PFDs IE, as the message library decodes it: the flow
description of each PFD Contents IE, which is empty where there is none.  The decoder of
these last IEs can panic; `parsePFDContents` makes an error of that. -/
structure ApplicationIDsPFDs where
  applicationID : Decoded String
  pfdContext : Decoded (List (Decoded Text))
deriving DecidableEq

/-- The identifier and the contents of every PFD are read, and no description is empty. -/
def ApplicationIDsPFDs.WellFormed (app : ApplicationIDsPFDs) : Prop :=
  ∃ (id : String) (flowDescs : List Text), app.applicationID = .ok id ∧
    app.pfdContext = .ok (flowDescs.map .ok) ∧ [] ∉ flowDescs

/-- The answer to a PFD Management Request. -/
structure PFDManagementResponse where
  cause : Cause
  offendingIE : Option ApplicationIDsPFDs
deriving DecidableEq

/-- What the handler changes of an association. -/
structure PFDConn where
  appPFDs : AppPFDs

namespace PFDConn

/-- `ResetAppPFDs` -/
def resetAppPFDs (_ : PFDConn) : PFDConn := { appPFDs := ∅ }

variable (pConn : PFDConn)

/-- `NewAppPFD` -/
def newAppPFD (appID : String) : PFDConn :=
  { pConn with appPFDs := pConn.appPFDs.insert appID { appID, flowDescs := [] } }

/-- `RemoveAppPFD` -/
def removeAppPFD (appID : String) : PFDConn :=
  { pConn with appPFDs := pConn.appPFDs.erase appID }

/-- The inner loop over the PFD Contents IEs of one application. -/
def readContents (id : String) :
    List (Decoded Text) → List Text → Except GoError (List Text) × PFDConn
  | [], flowDescs => (.ok flowDescs, pConn)
  | .error e :: _, _ => (.error (.decode e), pConn.removeAppPFD id)
  | .ok flowDescription :: rest, flowDescs =>
    if flowDescription = [] then (.error (.decode "flow description not present"), pConn)
    else readContents id rest (flowDescs ++ [flowDescription])

/-- One round of the outer loop. -/
def readApplication (appIDPFD : ApplicationIDsPFDs) : Option GoError × PFDConn :=
  match appIDPFD.applicationID with
  | .error e => (some (.decode e), pConn)
  | .ok id =>
    let pConn := pConn.newAppPFD id
    match appIDPFD.pfdContext with
    | .error e => (some (.decode e), pConn.removeAppPFD id)
    | .ok pfdCtx =>
      match pConn.readContents id pfdCtx [] with
      | (.error e, pConn) => (some e, pConn)
      | (.ok flowDescs, pConn) =>
        (none, { pConn with appPFDs := pConn.appPFDs.insert id { appID := id, flowDescs } })

/-- The outer loop, which answers; `currentAppPFDs` is what a refusal reverts to. -/
def readApplications (currentAppPFDs : AppPFDs) : List ApplicationIDsPFDs → PFDConn →
    (PFDManagementResponse × Option GoError) × PFDConn
  | [], pConn => (({ cause := .requestAccepted, offendingIE := none }, none), pConn)
  | appIDPFD :: rest, pConn =>
    match pConn.readApplication appIDPFD with
    | (some e, pConn) =>
      (({ cause := .requestRejected, offendingIE := some appIDPFD }, some e),
        { pConn with appPFDs := currentAppPFDs })
    | (none, pConn) => readApplications currentAppPFDs rest pConn

/-- `handlePFDMgmtRequest` -/
def handlePFDMgmtRequest (applicationIDsPFDs : List ApplicationIDsPFDs) :
    (PFDManagementResponse × Option GoError) × PFDConn :=
  readApplications pConn.appPFDs applicationIDsPFDs pConn.resetAppPFDs

variable {pConn}
variable {pConn' : PFDConn}

theorem readContents_ok {id : String} {pfdCtx : List (Decoded Text)} {flowDescs result : List Text}
    (h : pConn.readContents id pfdCtx flowDescs = (.ok result, pConn')) :
    ∃ more : List Text, pfdCtx = more.map .ok ∧ [] ∉ more ∧ result = flowDescs ++ more ∧
      pConn' = pConn := by
  induction pfdCtx generalizing flowDescs with
  | nil =>
    rw [readContents, Prod.mk.injEq, Except.ok.injEq] at h
    exact ⟨[], rfl, not_mem_nil, by simp [h.1], h.2.symm⟩
  | cons content rest ih =>
    cases content with
    | error e => simp [readContents] at h
    | ok flowDescription =>
      rw [readContents] at h
      split at h
      · simp at h
      · next hdesc =>
        rcases ih h with ⟨more, rfl, hmore, rfl, rfl⟩
        exact ⟨flowDescription :: more, rfl, by simp [Ne.symm hdesc, hmore], by simp, rfl⟩

theorem readContents_map {id : String} {more : List Text} (h : [] ∉ more) (flowDescs : List Text) :
    pConn.readContents id (more.map .ok) flowDescs = (.ok (flowDescs ++ more), pConn) := by
  induction more generalizing flowDescs with
  | nil => simp [readContents]
  | cons flowDescription more ih =>
    rw [mem_cons, not_or] at h
    rw [map_cons, readContents, if_neg (Ne.symm h.1), ih h.2]
    simp

theorem readApplication_none {appIDPFD : ApplicationIDsPFDs}
    (h : pConn.readApplication appIDPFD = (none, pConn')) :
    ∃ id flowDescs, appIDPFD.applicationID = .ok id ∧
      appIDPFD.pfdContext = .ok (flowDescs.map .ok) ∧ [] ∉ flowDescs ∧
      pConn'.appPFDs = (pConn.newAppPFD id).appPFDs.insert id { appID := id, flowDescs } := by
  unfold readApplication at h
  rcases hid : appIDPFD.applicationID with e | id
  · simp [hid] at h
  · rcases hctx : appIDPFD.pfdContext with e | pfdCtx
    · simp [hid, hctx] at h
    · rcases hread : (pConn.newAppPFD id).readContents id pfdCtx [] with ⟨e | flowDescs, pConn₁⟩
      · simp [hid, hctx, hread] at h
      · rcases readContents_ok hread with ⟨more, rfl, hdescs, hmore, rfl⟩
        rw [nil_append] at hmore
        subst hmore
        simp only [hid, hctx, hread, Prod.mk.injEq, true_and] at h
        exact ⟨id, flowDescs, rfl, rfl, hdescs, by rw [← h]⟩

theorem readApplication_wellFormed {appIDPFD : ApplicationIDsPFDs} (h : appIDPFD.WellFormed) :
    (pConn.readApplication appIDPFD).1 = none := by
  rcases h with ⟨id, flowDescs, hid, hctx, hdescs⟩
  simp only [readApplication, hid, hctx, readContents_map hdescs]

theorem lookup_readApplication {appIDPFD : ApplicationIDsPFDs} {k : String}
    (h : pConn.readApplication appIDPFD = (none, pConn'))
    (hk : appIDPFD.applicationID ≠ .ok k) :
    pConn'.appPFDs.lookup k = pConn.appPFDs.lookup k := by
  rcases readApplication_none h with ⟨id, flowDescs, hid, -, -, htable⟩
  have hne : k ≠ id := by
    rintro rfl
    exact hk hid
  rw [htable, lookup_insert_ne hne, newAppPFD, lookup_insert_ne hne]

/-- What a table holds for an application after the rest of the request is read: the entry
of its last occurrence in it, or else the one from before. -/
theorem lookup_readApplications {current : AppPFDs} {apps : List ApplicationIDsPFDs}
    (h : (readApplications current apps pConn).1.1.cause = .requestAccepted) :
    (∀ k, (∀ app ∈ apps, app.applicationID ≠ .ok k) →
      (readApplications current apps pConn).2.appPFDs.lookup k = pConn.appPFDs.lookup k) ∧
    ∀ earlier app later k, apps = earlier ++ app :: later → app.applicationID = .ok k →
      (∀ x ∈ later, x.applicationID ≠ .ok k) →
      ∃ flowDescs, app.pfdContext = .ok (flowDescs.map .ok) ∧
        (readApplications current apps pConn).2.appPFDs.lookup k =
          some { appID := k, flowDescs } := by
  induction apps generalizing pConn with
  | nil => exact ⟨fun _ _ => rfl, by simp⟩
  | cons first rest ih =>
    rcases hround : pConn.readApplication first with ⟨_ | e, pConn₁⟩
    · have hloop : readApplications current (first :: rest) pConn =
          readApplications current rest pConn₁ := by
        simp only [readApplications, hround]
      rw [hloop] at h ⊢
      rcases ih h with ⟨hother, hlast⟩
      refine ⟨fun k hk => ?_, fun earlier app later k happs hid hlater => ?_⟩
      · rw [forall_mem_cons] at hk
        rw [hother k hk.2, lookup_readApplication hround hk.1]
      · cases earlier with
        | nil =>
          -- The occurrence is read now, and the rest does not name the application.
          rw [nil_append, List.cons.injEq] at happs
          rcases happs with ⟨rfl, rfl⟩
          rcases readApplication_none hround with ⟨id, flowDescs, hid', hctx, -, htable⟩
          rw [hid, Except.ok.injEq] at hid'
          subst hid'
          exact ⟨flowDescs, hctx, by rw [hother k hlater, htable, lookup_insert]⟩
        | cons x earlier =>
          rw [cons_append, List.cons.injEq] at happs
          exact hlast earlier app later k happs.2 hid hlater
    · simp [readApplications, hround] at h

theorem readApplications_rejected {current : AppPFDs} {apps : List ApplicationIDsPFDs}
    (h : (readApplications current apps pConn).1.1.cause ≠ .requestAccepted) :
    (readApplications current apps pConn).2.appPFDs = current := by
  induction apps generalizing pConn with
  | nil => exact absurd rfl h
  | cons first rest ih =>
    rcases hround : pConn.readApplication first with ⟨_ | e, pConn₁⟩
    · simp only [readApplications, hround] at h ⊢
      exact ih h
    · simp only [readApplications, hround]

theorem readApplications_accepted_iff {current : AppPFDs} {apps : List ApplicationIDsPFDs} :
    (readApplications current apps pConn).1.1.cause = .requestAccepted ↔
      ∀ app ∈ apps, app.WellFormed := by
  induction apps generalizing pConn with
  | nil => simp [readApplications]
  | cons first rest ih =>
    rw [forall_mem_cons]
    rcases hround : pConn.readApplication first with ⟨_ | e, pConn₁⟩
    · rcases readApplication_none hround with ⟨id, flowDescs, hid, hctx, hdescs, -⟩
      simp only [readApplications, hround, ih]
      exact ⟨fun h => ⟨⟨id, flowDescs, hid, hctx, hdescs⟩, h⟩, And.right⟩
    · simp only [readApplications, hround]
      refine ⟨nofun, fun h => ?_⟩
      have hread : (pConn.readApplication first).1 = none := readApplication_wellFormed h.1
      rw [hround] at hread
      cases hread

theorem exists_last {apps : List ApplicationIDsPFDs} {k : String}
    (h : ∃ app ∈ apps, app.applicationID = .ok k) :
    ∃ earlier app later, apps = earlier ++ app :: later ∧ app.applicationID = .ok k ∧
      ∀ x ∈ later, x.applicationID ≠ .ok k := by
  induction apps with
  | nil => simp at h
  | cons first rest ih =>
    by_cases hrest : ∃ app ∈ rest, app.applicationID = .ok k
    · rcases ih hrest with ⟨earlier, app, later, rfl, hid, hlater⟩
      exact ⟨first :: earlier, app, later, rfl, hid, hlater⟩
    · rcases h with ⟨app, happ, hid⟩
      simp only [not_exists, not_and] at hrest
      rcases mem_cons.mp happ with rfl | happ
      · exact ⟨[], app, rest, rfl, hid, hrest⟩
      · exact absurd hid (hrest app happ)

/-- PFD management is all or nothing: a request is accepted exactly when it is well formed, and
then replaces the table with the last description of each application it names; a request
that is refused leaves the table as it was. -/
theorem handlePFDMgmtRequest_atomic (pConn : PFDConn) (apps : List ApplicationIDsPFDs) :
    let answer := (pConn.handlePFDMgmtRequest apps).1.1
    let table := (pConn.handlePFDMgmtRequest apps).2.appPFDs
    (answer.cause = .requestAccepted ↔ ∀ app ∈ apps, app.WellFormed) ∧
    (answer.cause ≠ .requestAccepted → table = pConn.appPFDs) ∧
    (answer.cause = .requestAccepted →
      (∀ k, (table.lookup k).isSome ↔ ∃ app ∈ apps, app.applicationID = .ok k) ∧
      ∀ earlier app later k, apps = earlier ++ app :: later → app.applicationID = .ok k →
        (∀ x ∈ later, x.applicationID ≠ .ok k) →
        ∃ flowDescs, app.pfdContext = .ok (flowDescs.map .ok) ∧
          table.lookup k = some { appID := k, flowDescs }) := by
  intro answer table
  refine ⟨readApplications_accepted_iff, readApplications_rejected, fun haccepted => ?_⟩
  rcases lookup_readApplications haccepted with ⟨hother, hlast⟩
  refine ⟨fun k => ⟨fun hsome => ?_, fun hnamed => ?_⟩, hlast⟩
  · by_contra hnone
    simp only [not_exists, not_and] at hnone
    have hempty : table.lookup k = none := hother k hnone
    rw [hempty] at hsome
    cases hsome
  · rcases exists_last hnamed with ⟨earlier, app, later, happs, hid, hlater⟩
    rcases hlast earlier app later k happs hid hlater with ⟨flowDescs, -, hentry⟩
    have hsome : table.lookup k = some { appID := k, flowDescs } := hentry
    rw [hsome]
    rfl

/-- Two descriptions of one application: the second one stays. -/
theorem handlePFDMgmtRequest_atomic_twice :
    ((PFDConn.mk ∅).handlePFDMgmtRequest
      [⟨.ok "a", .ok [.ok ['x']]⟩, ⟨.ok "a", .ok [.ok ['y'], .ok ['z']]⟩]).2.appPFDs.lookup "a" =
        some { appID := "a", flowDescs := [['y'], ['z']] } := by
  have hatomic := handlePFDMgmtRequest_atomic ⟨∅⟩
    [⟨.ok "a", .ok [.ok ['x']]⟩, ⟨.ok "a", .ok [.ok ['y'], .ok ['z']]⟩]
  have haccepted := hatomic.1.mpr (by
    rw [forall_mem_cons, forall_mem_singleton]
    exact ⟨⟨"a", [['x']], rfl, rfl, by decide⟩, "a", [['y'], ['z']], rfl, rfl, by decide⟩)
  obtain ⟨flowDescs, hctx, hlookup⟩ := (hatomic.2.2 haccepted).2
    [⟨.ok "a", .ok [.ok ['x']]⟩] _ [] "a" rfl rfl nofun
  rw [hlookup]
  rcases flowDescs with _ | ⟨y, _ | ⟨z, _ | _⟩⟩ <;> cases hctx
  rfl

end PFDConn

end Upf
