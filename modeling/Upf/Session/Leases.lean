import Upf.Lib.Ledger
import Upf.Pfcp.Subnet
import Upf.Session.Store
import Upf.Session.Written

/-!
# Address leases across associations

Any number of associations share one address pool and one datapath.  This module
takes their session handlers and their teardowns apart into the steps other
associations can get between: one address lookup, one batch, one release.  A
handler holds its association's lock from its first step to its last, so one
association has one handler going at a time; a teardown takes the lock for its
snapshot alone and goes on with the shutdown flag set, which keeps handlers out.

The state also records what the pool and the datapath do not know: which
addresses a session was given, and under which keys the datapath may still hold a
PDR of it.  A delete batch that finished leaves none of its keys; one that did
not may leave any of them.

Two kinds of session are no longer accounted for (`Shared.waived`).  A peer
that does not know a session any more has its address released before its rules
are deleted.  And a modification may end with an entry in the datapath that the
session does not name: a PDR that moved to other keys, a Remove PDR or a rollback
whose batch did not finish.
-/

namespace Upf

open Function Lib List AList Set

/-! ## Keys of rule sets -/

def PacketForwardingRules.pdrKeys (rules : PacketForwardingRules) : Set RuleKey :=
  { k | ∃ p ∈ rules.pdrs, k ∈ (pdrEntries p).map Prod.fst }

theorem PacketForwardingRules.pdrKeys_mono {rules other : PacketForwardingRules}
    (h : ∀ p ∈ rules.pdrs, p ∈ other.pdrs) : rules.pdrKeys ⊆ other.pdrKeys := by
  rintro k ⟨p, hp, hk⟩
  exact ⟨p, h p hp, hk⟩

theorem PacketForwardingRules.pdrKeys_eq_empty {rules : PacketForwardingRules}
    (h : rules.pdrs = []) : rules.pdrKeys = ∅ := by
  simp [pdrKeys, h]

theorem Removes.pdrKeys_subset {s s' : PFCPSession} {deleted : PacketForwardingRules}
    (h : Removes s s' deleted) : s.rules.pdrKeys ⊆ deleted.pdrKeys ∪ s'.rules.pdrKeys := by
  rintro k ⟨p, hp, hk⟩
  rcases mem_append.mp (h.pdrs.mem_iff.mp hp) with hp | hp
  · exact .inl ⟨p, hp, hk⟩
  · exact .inr ⟨p, hp, hk⟩

theorem updated_pdrKeys_subset (before : PacketForwardingRules) (wr : Write) :
    wr.updated.pdrKeys ⊆ before.pdrKeys ∪ (rollBackRemove before wr).pdrKeys := by
  rintro k ⟨p, hp, hk⟩
  rw [← take_append_drop wr.createdPDRs wr.updated.pdrs, mem_append] at hp
  rcases hp with hp | hp
  · exact .inr ⟨p, mem_append_left _ hp, hk⟩
  · cases hmoved : movedPDR before p with
    | true =>
      exact .inr ⟨p, mem_append_right _ (mem_filter.mpr ⟨hp, hmoved⟩), hk⟩
    | false =>
      left
      unfold movedPDR at hmoved
      split at hmoved
      · cases hmoved
      · next was hwas =>
        refine ⟨was, mem_of_find?_eq_some hwas, ?_⟩
        rwa [← keys_of_occupiesSameEntryAs (by simpa using hmoved)]

namespace Leases

/-! ## Shared state -/

structure Shared where
  ippool : Option IPPool
  /-- The addresses each session was given by the pool. -/
  given : UInt64 → Set IP
  /-- The keys under which the datapath may hold a PDR of each session. -/
  held : UInt64 → Set RuleKey
  /-- The SEIDs drawn so far. -/
  used : Set UInt64
  /-- The sessions that are no longer accounted for. -/
  waived : Set UInt64

namespace Shared

variable (sh : Shared)

/-- Ask the pool for the address of a session. -/
def lookup (seid : UInt64) : Shared :=
  match sh.ippool with
  | none => sh
  | some i =>
    match i.lookupOrAllocIP seid with
    | (.ok ip, i) =>
      { sh with
        ippool := some i
        given := update sh.given seid (insert ip (sh.given seid)) }
    | (.error _, i) => { sh with ippool := some i }

/-- Send a batch that adds or modifies rules of a session. -/
def write (seid : UInt64) (rules : PacketForwardingRules) : Shared :=
  { sh with held := update sh.held seid (sh.held seid ∪ rules.pdrKeys) }

def delete (finished : Bool) (rules : PacketForwardingRules) : Shared :=
  { sh with held := fun t => if finished then sh.held t \ rules.pdrKeys else sh.held t }

/-- Give the address of a session back. -/
def release (seid : UInt64) : Shared := { sh with ippool := releaseIP sh.ippool seid }

def draw (seid : UInt64) : Shared := { sh with used := insert seid sh.used }

def waive (seid : UInt64) : Shared := { sh with waived := insert seid sh.waived }

/-- Stop accounting for a session unless a condition is met. -/
def waiveUnless (seid : UInt64) (cond : Prop) : Shared :=
  { sh with waived := { t | t ∈ sh.waived ∨ t = seid ∧ ¬cond } }

/-- The account of the shared state and of what each association knows. -/
def ledger {ι : Type} (known : ι → UInt64 → Option (Set RuleKey)) :
    Ledger ι UInt64 IP RuleKey where
  lease := IPPool.leased sh.ippool
  given := sh.given
  held := sh.held
  known := known
  used := sh.used
  waived := sh.waived

def Leased (seid : UInt64) : Prop := ∀ ip ∈ sh.given seid, IPPool.leased sh.ippool seid = some ip

def Bound (seid : UInt64) (known : Option (Set RuleKey)) : Prop :=
  seid ∉ sh.waived →
    match known with
    | some N => sh.held seid ⊆ N ∧ sh.Leased seid
    | none => sh.held seid = ∅ ∨ sh.Leased seid

end Shared

/-! ## Associations -/

inductive Activity where
  | idle
  /-- An establishment reads its rules. -/
  | establishing (seid : UInt64)
  /-- The datapath refused an establishment. -/
  | undoing (session : PFCPSession)
  /-- The rules of a session are gone and its address is next. -/
  | ending (session : PFCPSession)
  /-- A modification reads its rules. -/
  | modifying (stored : PFCPSession)
  /-- A modification has written its rules. -/
  | written (stored : PFCPSession) (wr : Write)
  | rollingBack (stored : PFCPSession) (wr : Write)
  | restoring (stored : PFCPSession)
  /-- A session is forgotten and its rules are next. -/
  | forgetting (session : PFCPSession)
  /-- The first pass of a teardown. -/
  | removing (todo unfinished : List PFCPSession)
  | removed (session : PFCPSession) (todo unfinished : List PFCPSession)
  /-- The second pass, with what is known of each removal. -/
  | retrying (results : List (PFCPSession × Option Bool))
  | settling (results : List (PFCPSession × Option Bool))
  | closed

structure Association where
  store : Store
  isShutdown : Bool
  activity : Activity

def put (store : Store) (session : PFCPSession) : Store :=
  match putSession store session with
  | .ok store => store
  | .error _ => store

def gone (results : List (PFCPSession × Option Bool)) : List UInt64 :=
  (results.filter fun r => r.2 == some true).map fun r => r.1.localSEID

def Activity.known : Activity → UInt64 → Option (Set RuleKey)
  | establishing seid, t => if t = seid then some ∅ else none
  | undoing session, t => if t = session.localSEID then some session.rules.pdrKeys else none
  | ending session, t => if t = session.localSEID then some ∅ else none
  | written stored wr, t =>
    if t = stored.localSEID then some (stored.rules.pdrKeys ∪ wr.updated.pdrKeys) else none
  | rollingBack stored wr, t =>
    if t = stored.localSEID then some (stored.rules.pdrKeys ∪ wr.updated.pdrKeys) else none
  | removed session _ _, t => if t = session.localSEID then some ∅ else none
  | retrying results, t => if t ∈ gone results then some ∅ else none
  | settling results, t => if t ∈ gone results then some ∅ else none
  | _, _ => none

def Association.known (a : Association) (seid : UInt64) : Option (Set RuleKey) :=
  (a.activity.known seid).or ((a.store.lookup seid).map fun session => session.rules.pdrKeys)

inductive Acts : Association → Shared → Association → Shared → Prop
  -- Establishment.
  | establish {store : Store} {sh : Shared} {seid : UInt64} (hnew : store.lookup seid = none)
      (hfresh : seid ∉ sh.used) :
      Acts ⟨store, false, .idle⟩ sh ⟨store, false, .establishing seid⟩ (sh.draw seid)
  | lookupNew {store : Store} {sh : Shared} {b : Bool} {seid : UInt64} :
      Acts ⟨store, b, .establishing seid⟩ sh ⟨store, b, .establishing seid⟩ (sh.lookup seid)
  | refuse {store : Store} {sh : Shared} {b : Bool} {seid : UInt64} :
      Acts ⟨store, b, .establishing seid⟩ sh ⟨store, b, .idle⟩ (sh.release seid)
  | add {store : Store} {sh : Shared} {b : Bool} {session : PFCPSession} :
      Acts ⟨store, b, .establishing session.localSEID⟩ sh ⟨put store session, b, .idle⟩
        (sh.write session.localSEID session.rules)
  | addRejected {store : Store} {sh : Shared} {b : Bool} {session : PFCPSession} :
      Acts ⟨store, b, .establishing session.localSEID⟩ sh ⟨store, b, .undoing session⟩
        (sh.write session.localSEID session.rules)
  | undone {store : Store} {sh : Shared} {b : Bool} {session : PFCPSession} :
      Acts ⟨store, b, .undoing session⟩ sh ⟨store, b, .ending session⟩
        (sh.delete true session.rules)
  | notUndone {store : Store} {sh : Shared} {b : Bool} {session : PFCPSession} :
      Acts ⟨store, b, .undoing session⟩ sh ⟨put store session, b, .idle⟩
        (sh.delete false session.rules)
  -- Modification.
  | modify {store : Store} {sh : Shared} {stored : PFCPSession}
      (hstored : store.lookup stored.localSEID = some stored) :
      Acts ⟨store, false, .idle⟩ sh ⟨store, false, .modifying stored⟩ sh
  | lookupStored {store : Store} {sh : Shared} {b : Bool} {stored : PFCPSession} :
      Acts ⟨store, b, .modifying stored⟩ sh ⟨store, b, .modifying stored⟩
        (sh.lookup stored.localSEID)
  | refuseModification {store : Store} {sh : Shared} {b : Bool} {stored : PFCPSession} :
      Acts ⟨store, b, .modifying stored⟩ sh ⟨store, b, .idle⟩ sh
  | modWrite {store : Store} {sh : Shared} {b accepted : Bool} {stored session : PFCPSession}
      {m : Parsed} (hseid : session.localSEID = stored.localSEID)
      (hrules : session.rules = stored.rules) :
      Acts ⟨store, b, .modifying stored⟩ sh
        ⟨store, b, if accepted then .written stored (m.write session)
          else .rollingBack stored (m.write session)⟩
        (sh.write stored.localSEID (m.write session).updated)
  | removalFails {store : Store} {sh : Shared} {b : Bool} {stored : PFCPSession} {wr : Write} :
      Acts ⟨store, b, .written stored wr⟩ sh ⟨store, b, .rollingBack stored wr⟩ sh
  | removalRejected {store : Store} {sh : Shared} {b finished : Bool} {stored : PFCPSession}
      {wr : Write} {deleted : PacketForwardingRules} :
      Acts ⟨store, b, .written stored wr⟩ sh ⟨store, b, .rollingBack stored wr⟩
        (sh.delete finished deleted)
  | publish {store : Store} {sh : Shared} {b finished : Bool} {stored session : PFCPSession}
      {wr : Write} {deleted : PacketForwardingRules}
        (hremoves : Removes wr.session session deleted) :
      Acts ⟨store, b, .written stored wr⟩ sh ⟨put store session, b, .idle⟩
        ((sh.delete finished deleted).waiveUnless stored.localSEID
          (stored.rules.pdrKeys ⊆ wr.session.rules.pdrKeys ∧
            (finished = true ∨ deleted.pdrs = [])))
  | rollBack {store : Store} {sh : Shared} {b finished : Bool} {stored : PFCPSession}
      {wr : Write} :
      Acts ⟨store, b, .rollingBack stored wr⟩ sh ⟨store, b, .restoring stored⟩
        ((sh.delete finished (rollBackRemove stored.rules wr)).waiveUnless stored.localSEID
          (finished = true ∨ (rollBackRemove stored.rules wr).pdrs = []))
  | restore {store : Store} {sh : Shared} {b : Bool} {stored : PFCPSession} :
      Acts ⟨store, b, .restoring stored⟩ sh ⟨store, b, .idle⟩
        (sh.write stored.localSEID stored.rules)
  -- Deletion.
  | delete {store : Store} {sh : Shared} {stored : PFCPSession}
      (hstored : store.lookup stored.localSEID = some stored) :
      Acts ⟨store, false, .idle⟩ sh ⟨store, false, .ending stored⟩ (sh.delete true stored.rules)
  | deleteFails {store : Store} {sh : Shared} {finished : Bool} {stored : PFCPSession}
      (hstored : store.lookup stored.localSEID = some stored) :
      Acts ⟨store, false, .idle⟩ sh ⟨store, false, .idle⟩ (sh.delete finished stored.rules)
  | cleanup {store : Store} {sh : Shared} {b : Bool} {session : PFCPSession} :
      Acts ⟨store, b, .ending session⟩ sh ⟨store.erase session.localSEID, b, .idle⟩
        (sh.release session.localSEID)
  -- Report response.
  | forget {store : Store} {sh : Shared} {stored : PFCPSession}
      (hstored : store.lookup stored.localSEID = some stored) :
      Acts ⟨store, false, .idle⟩ sh ⟨store.erase stored.localSEID, false, .forgetting stored⟩
        ((sh.release stored.localSEID).waive stored.localSEID)
  | deleteForgotten {store : Store} {sh : Shared} {b finished : Bool} {session : PFCPSession} :
      Acts ⟨store, b, .forgetting session⟩ sh ⟨store, b, .idle⟩ (sh.delete finished session.rules)
  -- Teardown.
  | shutdown {store : Store} {sh : Shared} {b : Bool} {activity : Activity} :
      Acts ⟨store, b, activity⟩ sh ⟨store, true, activity⟩ sh
  | snapshot {store : Store} {sh : Shared} {todo : List PFCPSession}
      (htodo : todo.Perm (store.entries.map Sigma.snd)) :
      Acts ⟨store, true, .idle⟩ sh ⟨store, true, .removing todo []⟩ sh
  | removeFinished {store : Store} {sh : Shared} {b : Bool} {session : PFCPSession}
      {todo unfinished : List PFCPSession} :
      Acts ⟨store, b, .removing (session :: todo) unfinished⟩ sh
        ⟨store, b, .removed session todo unfinished⟩ (sh.delete true session.rules)
  | removeUnfinished {store : Store} {sh : Shared} {b : Bool} {session : PFCPSession}
      {todo unfinished : List PFCPSession} :
      Acts ⟨store, b, .removing (session :: todo) unfinished⟩ sh
        ⟨store, b, .removing todo (unfinished ++ [session])⟩ (sh.delete false session.rules)
  | removeEnd {store : Store} {sh : Shared} {b : Bool} {session : PFCPSession}
      {todo unfinished : List PFCPSession} :
      Acts ⟨store, b, .removed session todo unfinished⟩ sh
        ⟨store.erase session.localSEID, b, .removing todo unfinished⟩
        (sh.release session.localSEID)
  | retry {store : Store} {sh : Shared} {b : Bool} {unfinished : List PFCPSession} :
      Acts ⟨store, b, .removing [] unfinished⟩ sh
        ⟨store, b, .retrying (unfinished.map fun session => (session, none))⟩ sh
  | retried {store : Store} {sh : Shared} {b finished : Bool} {session : PFCPSession}
      {before after : List (PFCPSession × Option Bool)} :
      Acts ⟨store, b, .retrying (before ++ (session, none) :: after)⟩ sh
        ⟨store, b, .retrying (before ++ (session, some finished) :: after)⟩
        (sh.delete finished session.rules)
  | retriesDone {store : Store} {sh : Shared} {b : Bool}
      {results : List (PFCPSession × Option Bool)} (hdone : ∀ r ∈ results, r.2.isSome) :
      Acts ⟨store, b, .retrying results⟩ sh ⟨store, b, .settling results⟩ sh
  | settleFinished {store : Store} {sh : Shared} {b : Bool} {session : PFCPSession}
      {results : List (PFCPSession × Option Bool)} :
      Acts ⟨store, b, .settling ((session, some true) :: results)⟩ sh
        ⟨store.erase session.localSEID, b, .settling results⟩ (sh.release session.localSEID)
  | settleHeld {store : Store} {sh : Shared} {b : Bool} {session : PFCPSession}
      {results : List (PFCPSession × Option Bool)} :
      Acts ⟨store, b, .settling ((session, some false) :: results)⟩ sh
        ⟨store.erase session.localSEID, b, .settling results⟩ sh
  | close {store : Store} {sh : Shared} {b : Bool} :
      Acts ⟨store, b, .settling []⟩ sh ⟨store, b, .closed⟩ sh

/-! ## What a step does to the shared state -/

structure Shared.Moved (sh sh' : Shared) (seid : UInt64) : Prop where
  lease : ∀ t ≠ seid, IPPool.leased sh'.ippool t = IPPool.leased sh.ippool t
  given : ∀ t ≠ seid, sh'.given t = sh.given t
  held : ∀ t ≠ seid, sh'.held t ⊆ sh.held t
  used : ∀ t ≠ seid, t ∈ sh'.used ↔ t ∈ sh.used
  waived : ∀ t ≠ seid, t ∈ sh'.waived ↔ t ∈ sh.waived

/-- What a step does for the session `seid`: its association knew of the entries `N`
before, and knows `after`. -/
structure Shared.Serves (sh sh' : Shared) (seid : UInt64) (N : Set RuleKey)
    (after : Option (Set RuleKey)) : Prop where
  moved : sh.Moved sh' seid
  used : sh'.used = sh.used
  bound : sh.Bound seid (some N) → sh'.Bound seid after

namespace Shared

variable {sh : Shared} {seid : UInt64} {N N' : Set RuleKey} {rules : PacketForwardingRules}
  {finished : Bool}

/-- A lookup does nothing without a pool, returns the lease, makes one, or finds
the queue empty. -/
theorem lookup_cases (sh : Shared) (seid : UInt64) :
    sh.lookup seid = sh ∨
    (∃ ip, IPPool.leased sh.ippool seid = some ip ∧
      sh.lookup seid =
        { sh with given := update sh.given seid (insert ip (sh.given seid)) }) ∨
    (∃ i ip rest, sh.ippool = some i ∧ i.inventory.lookup seid = none ∧
      i.freePool = ip :: rest ∧
      sh.lookup seid =
        { sh with
          ippool := some { freePool := rest, inventory := i.inventory.insert seid ip }
          given := update sh.given seid (insert ip (sh.given seid)) }) := by
  unfold lookup
  cases hpool : sh.ippool with
  | none => exact .inl rfl
  | some i =>
    rcases IPPool.lookupOrAllocIP_cases i seid with
      ⟨ip, hinv, heq⟩ | ⟨ip, rest, hnone, hfree, heq⟩ | ⟨_, _, heq⟩
    · simp only [heq]
      exact .inr (.inl ⟨ip, hinv, rfl⟩)
    · simp only [heq]
      exact .inr (.inr ⟨i, ip, rest, rfl, hnone, hfree, rfl⟩)
    · simp only [heq]
      exact .inl (by rw [← hpool])

theorem used_lookup (sh : Shared) (seid : UInt64) : (sh.lookup seid).used = sh.used := by
  rcases lookup_cases sh seid with heq | ⟨_, _, heq⟩ | ⟨_, _, _, _, _, _, heq⟩ <;> rw [heq]

theorem moved_lookup (sh : Shared) (seid : UInt64) : sh.Moved (sh.lookup seid) seid := by
  rcases lookup_cases sh seid with heq | ⟨ip, _, heq⟩ | ⟨i, ip, rest, hpool, _, _, heq⟩
  · rw [heq]
    exact ⟨fun _ _ => rfl, fun _ _ => rfl, fun _ _ => subset_rfl, fun _ _ => Iff.rfl,
      fun _ _ => Iff.rfl⟩
  · rw [heq]
    exact ⟨fun _ _ => rfl, fun t ht => by simp [update_of_ne ht],
      fun _ _ => subset_rfl, fun _ _ => Iff.rfl, fun _ _ => Iff.rfl⟩
  · rw [heq]
    refine ⟨fun t ht => ?_, fun t ht => by simp [update_of_ne ht],
      fun _ _ => subset_rfl, fun _ _ => Iff.rfl, fun _ _ => Iff.rfl⟩
    simp [IPPool.leased, hpool, lookup_insert_ne ht]

theorem held_delete_subset (sh : Shared) (finished : Bool) (rules : PacketForwardingRules)
    (t : UInt64) : (sh.delete finished rules).held t ⊆ sh.held t := by
  cases finished with
  | true => exact sdiff_subset
  | false => exact subset_rfl

theorem moved_delete (sh : Shared) (finished : Bool) (rules : PacketForwardingRules)
    (seid : UInt64) : sh.Moved (sh.delete finished rules) seid :=
  ⟨fun _ _ => rfl, fun _ _ => rfl, fun t _ => held_delete_subset sh finished rules t,
    fun _ _ => Iff.rfl, fun _ _ => Iff.rfl⟩

theorem moved_draw (sh : Shared) (seid : UInt64) : sh.Moved (sh.draw seid) seid :=
  ⟨fun _ _ => rfl, fun _ _ => rfl, fun _ _ => subset_rfl,
    fun t ht => by simp [draw, ht], fun _ _ => Iff.rfl⟩

/-! ### The account of the session a step is about -/

theorem Serves.lookup : sh.Serves (sh.lookup seid) seid N (some N) := by
  refine ⟨sh.moved_lookup seid, sh.used_lookup seid, fun h hw => ?_⟩
  rcases lookup_cases sh seid with heq | ⟨ip, hip, heq⟩ | ⟨i, ip, rest, hpool, hnone, _, heq⟩
  · rw [heq] at hw ⊢
    exact h hw
  · rw [heq] at hw ⊢
    rcases h hw with ⟨hheld, hleased⟩
    refine ⟨hheld, fun a ha => ?_⟩
    simp only [update_self, Set.mem_insert_iff] at ha
    rcases ha with rfl | ha
    · exact hip
    · exact hleased a ha
  · rw [heq] at hw ⊢
    rcases h hw with ⟨hheld, hleased⟩
    refine ⟨hheld, fun a ha => ?_⟩
    simp only [update_self, Set.mem_insert_iff] at ha
    rcases ha with rfl | ha
    · exact lookup_insert _
    · -- Nothing was given before, since nothing is leased.
      have hlease := hleased a ha
      simp [IPPool.leased, hpool, hnone] at hlease

theorem Serves.write (hN : N ∪ rules.pdrKeys ⊆ N') :
    sh.Serves (sh.write seid rules) seid N (some N') where
  moved := ⟨fun _ _ => rfl, fun _ _ => rfl, fun t ht => by simp [Shared.write, update_of_ne ht],
    fun _ _ => Iff.rfl, fun _ _ => Iff.rfl⟩
  used := rfl
  bound h hw := by
    rcases h hw with ⟨hheld, hleased⟩
    refine ⟨?_, hleased⟩
    simp only [Shared.write, update_self]
    exact (union_subset_union_left _ hheld).trans hN

theorem Serves.delete (hN : N ⊆ N') : sh.Serves (sh.delete finished rules) seid N (some N') := by
  refine ⟨sh.moved_delete finished rules seid, rfl, fun h hw => ?_⟩
  rcases h hw with ⟨hheld, hleased⟩
  exact ⟨((held_delete_subset sh finished rules seid).trans hheld).trans hN, hleased⟩

theorem Serves.deleted (hN : N ⊆ rules.pdrKeys ∪ N') :
    sh.Serves (sh.delete true rules) seid N (some N') := by
  refine ⟨sh.moved_delete true rules seid, rfl, fun h hw => ?_⟩
  rcases h hw with ⟨hheld, hleased⟩
  refine ⟨?_, hleased⟩
  rintro k ⟨hk, hnot⟩
  exact (hN (hheld hk)).resolve_left hnot

theorem Serves.release : sh.Serves (sh.release seid) seid ∅ none where
  moved := ⟨fun _ ht => IPPool.leased_release_of_ne sh.ippool ht, fun _ _ => rfl,
    fun _ _ => subset_rfl, fun _ _ => Iff.rfl, fun _ _ => Iff.rfl⟩
  used := rfl
  bound h hw := .inl (subset_empty_iff.mp (h hw).1)

theorem Bound.forget (h : sh.Bound seid (some N)) : sh.Bound seid none :=
  fun hw => Or.inr (h hw).2

theorem Serves.waiveUnless {sh' : Shared} {after : Option (Set RuleKey)} {cond : Prop}
    (hmoved : sh.Moved sh' seid) (hused : sh'.used = sh.used)
    (h : cond → sh.Serves sh' seid N after) :
    sh.Serves (sh'.waiveUnless seid cond) seid N after where
  moved := ⟨hmoved.lease, hmoved.given, hmoved.held, hmoved.used,
    fun t ht => by simp [Shared.waiveUnless, ht, hmoved.waived t ht]⟩
  used := hused
  bound hbound hw := by
    simp only [Shared.waiveUnless, mem_ofPred_eq, not_or, not_and, not_not, true_implies] at hw
    exact (h hw.2).bound hbound hw.1

theorem Serves.waive {sh' : Shared} {after : Option (Set RuleKey)} (h : sh.Moved sh' seid)
    (hused : sh'.used = sh.used) : sh.Serves (sh'.waive seid) seid N after where
  moved := ⟨h.lease, h.given, h.held, h.used, fun t ht => by simp [Shared.waive, ht, h.waived t ht]⟩
  used := hused
  bound _ hw := absurd (Set.mem_insert _ _) hw

end Shared

/-! ## What a step does to its association -/

def Activity.Fits (store : Store) : Activity → Prop
  | establishing seid => store.lookup seid = none
  | undoing session => store.lookup session.localSEID = none
  | modifying stored => store.lookup stored.localSEID = some stored
  | written stored wr =>
    store.lookup stored.localSEID = some stored ∧ wr.session.localSEID = stored.localSEID ∧
      wr.updated.Sub wr.session.rules
  | rollingBack stored _ => store.lookup stored.localSEID = some stored
  | restoring stored => store.lookup stored.localSEID = some stored
  | removing todo unfinished => Lists store (todo ++ unfinished)
  | removed session todo unfinished => Lists store (session :: (todo ++ unfinished))
  | retrying results => Lists store (results.map Prod.fst)
  | settling results => Lists store (results.map Prod.fst)
  | _ => True

structure Association.Wf (a : Association) : Prop where
  listed : ∃ l, Lists a.store l
  zero : a.store.lookup 0 = none
  fits : a.activity.Fits a.store

section Put

variable {store : Store} {session : PFCPSession}

theorem put_of_ne (h : session.localSEID ≠ 0) :
    put store session = store.insert session.localSEID session := by
  simp [put, putSession, h]

theorem put_of_zero (h : session.localSEID = 0) : put store session = store := by
  simp [put, putSession, h]

theorem lookup_put_of_ne {t : UInt64} (h : t ≠ session.localSEID) :
    (put store session).lookup t = store.lookup t := by
  by_cases hzero : session.localSEID = 0
  · rw [put_of_zero hzero]
  · rw [put_of_ne hzero, lookup_insert_ne h]

end Put

namespace Association.Wf

variable {store : Store} {session : PFCPSession} {b b' : Bool} {act act' : Activity}

theorem next (h : Wf ⟨store, b, act⟩) (hfits : act'.Fits store) : Wf ⟨store, b', act'⟩ :=
  ⟨h.listed, h.zero, hfits⟩

theorem put (h : Wf ⟨store, b, act⟩) : Wf ⟨Leases.put store session, b', .idle⟩ := by
  by_cases hzero : session.localSEID = 0
  · rw [put_of_zero hzero]
    exact h.next trivial
  · rcases h.listed with ⟨l, hl⟩
    rw [put_of_ne hzero]
    refine ⟨hl.insert_any session, ?_, trivial⟩
    rw [lookup_insert_ne (Ne.symm hzero)]
    exact h.zero

theorem erase (h : Wf ⟨store, b, act⟩) (seid : UInt64)
    (hfits : act'.Fits (store.erase seid)) : Wf ⟨store.erase seid, b', act'⟩ := by
  rcases h.listed with ⟨l, hl⟩
  refine ⟨hl.erase_seid seid, ?_, hfits⟩
  by_cases hzero : 0 = seid
  · rw [← hzero, lookup_erase]
  · rw [lookup_erase_ne hzero]
    exact h.zero

end Association.Wf

theorem Acts.wf {a a' : Association} {sh sh' : Shared} (h : Acts a sh a' sh') (hwf : a.Wf) :
    a'.Wf := by
  have hfits := hwf.fits
  cases h with
  | establish hnew => exact hwf.next hnew
  | lookupNew => exact hwf
  | refuse => exact hwf.next trivial
  | add => exact hwf.put
  | addRejected => exact hwf.next hfits
  | undone => exact hwf.next trivial
  | notUndone => exact hwf.put
  | modify hstored => exact hwf.next hstored
  | lookupStored => exact hwf
  | refuseModification => exact hwf.next trivial
  | @modWrite store sh b accepted stored session m hseid =>
    cases accepted with
    | true => exact hwf.next ⟨hfits, hseid, Parsed.write_updated_sub⟩
    | false => exact hwf.next hfits
  | removalFails => exact hwf.next hfits.1
  | removalRejected => exact hwf.next hfits.1
  | publish => exact hwf.put
  | rollBack => exact hwf.next hfits
  | restore => exact hwf.next trivial
  | delete => exact hwf.next trivial
  | deleteFails => exact hwf.next trivial
  | cleanup => exact hwf.erase _ trivial
  | forget _ => exact hwf.erase _ trivial
  | deleteForgotten => exact hwf.next trivial
  | shutdown => exact hwf.next hfits
  | snapshot htodo =>
    rcases hwf.listed with ⟨l, hl⟩
    refine hwf.next ?_
    have hlisted := (Lists.entries fun _ _ => hl.seid_of_lookup).perm htodo.symm
    simpa [Activity.Fits] using hlisted
  | removeFinished => exact hwf.next hfits
  | removeUnfinished =>
    refine hwf.next (Lists.perm hfits ?_)
    rw [cons_append, ← append_assoc]
    exact (perm_append_singleton _ _).symm
  | removeEnd => exact hwf.erase _ (Lists.erase hfits)
  | retry =>
    refine hwf.next ?_
    simpa [Activity.Fits, comp_def] using hfits
  | retried =>
    refine hwf.next ?_
    simpa [Activity.Fits] using hfits
  | retriesDone => exact hwf.next hfits
  | settleFinished => exact hwf.erase _ (Lists.erase hfits)
  | settleHeld => exact hwf.erase _ (Lists.erase hfits)
  | close => exact hwf.next trivial

/-! ## Every step is about one session -/

/-- How a step changes the account: not at all, apart from entries that go away,
by a new session, or by what it does for one session its association looks
after. -/
inductive Account (a : Association) (sh : Shared) (a' : Association) (sh' : Shared) : Prop
  | quiet (hshared : ∃ held, (∀ t, held t ⊆ sh.held t) ∧ sh' = { sh with held })
      (hknown : ∀ t, a'.known t = a.known t)
  | born (seid : UInt64) (hfresh : seid ∉ sh.used) (hsh : sh' = sh.draw seid)
      (hknown : ∀ t ≠ seid, a'.known t = a.known t) (hown : a'.known seid = some ∅)
  | about (seid : UInt64) (hlive : a.known seid ≠ none) (hmoved : sh.Moved sh' seid)
      (hused : sh'.used = sh.used) (hknown : ∀ t ≠ seid, a'.known t = a.known t)
      (hbound : sh.Bound seid (a.known seid) → sh'.Bound seid (a'.known seid))

section Known

variable {store : Store} {b : Bool} {t : UInt64}

theorem known_eq (act : Activity) : Association.known ⟨store, b, act⟩ t =
    (act.known t).or ((store.lookup t).map fun session => session.rules.pdrKeys) := rfl

theorem known_of_lookup {x : PFCPSession} (act : Activity) (hact : act.known t = none)
    (h : store.lookup t = some x) :
    Association.known ⟨store, b, act⟩ t = some x.rules.pdrKeys := by
  simp [known_eq, hact, h]

theorem known_of_lookup_none (act : Activity) (hact : act.known t = none)
    (h : store.lookup t = none) : Association.known ⟨store, b, act⟩ t = none := by
  simp [known_eq, hact, h]

theorem known_of_activity {N : Set RuleKey} (act : Activity) (hact : act.known t = some N) :
    Association.known ⟨store, b, act⟩ t = some N := by
  simp [known_eq, hact]

theorem known_put {session : PFCPSession} (hzero : store.lookup 0 = none) :
    Association.known ⟨put store session, b, .idle⟩ session.localSEID =
      if session.localSEID = 0 then none else some session.rules.pdrKeys := by
  split
  · next h =>
    refine known_of_lookup_none .idle rfl ?_
    rw [put_of_zero h, h]
    exact hzero
  · next h =>
    refine known_of_lookup .idle rfl ?_
    rw [put_of_ne h]
    exact lookup_insert _

theorem known_put_of_ne {session : PFCPSession} (h : t ≠ session.localSEID) (act : Activity)
    (hact : act.known t = none) :
    Association.known ⟨put store session, b, .idle⟩ t = Association.known ⟨store, b, act⟩ t := by
  rw [known_eq, known_eq, hact, lookup_put_of_ne h]
  rfl

theorem known_erase_self (seid : UInt64) (act : Activity) (hact : act.known seid = none) :
    Association.known ⟨store.erase seid, b, act⟩ seid = none :=
  known_of_lookup_none act hact (lookup_erase seid store)

theorem known_erase_of_ne {seid : UInt64} (h : t ≠ seid) (act act' : Activity)
    (hact : act'.known t = act.known t) :
    Association.known ⟨store.erase seid, b, act'⟩ t = Association.known ⟨store, b, act⟩ t := by
  simp [known_eq, hact, lookup_erase_ne h]

end Known
variable {results : List (PFCPSession × Option Bool)} {sh : Shared} {store : Store}

theorem Shared.Serves.put {b : Bool} {session : PFCPSession} {sh' : Shared} {N : Set RuleKey}
    (hzero : store.lookup 0 = none)
    (h : sh.Serves sh' session.localSEID N (some session.rules.pdrKeys)) :
    sh.Serves sh' session.localSEID N
      (Association.known ⟨Leases.put store session, b, .idle⟩ session.localSEID) := by
  rw [known_put hzero]
  split
  · exact ⟨h.moved, h.used, fun hbound => (h.bound hbound).forget⟩
  · exact h

theorem mem_gone_append {results' : List (PFCPSession × Option Bool)} {t : UInt64} :
    t ∈ gone (results ++ results') ↔ t ∈ gone results ∨ t ∈ gone results' := by
  simp [gone]

theorem mem_gone_cons {r : PFCPSession × Option Bool} {t : UInt64} :
    t ∈ gone (r :: results) ↔ r.2 = some true ∧ t = r.1.localSEID ∨ t ∈ gone results := by
  by_cases hr : r.2 = some true
  · simp [gone, hr]
  · simp [gone, hr]

theorem mem_of_mem_gone {t : UInt64}
    (h : t ∈ gone results) : t ∈ (results.map Prod.fst).map PFCPSession.localSEID := by
  rcases mem_map.mp h with ⟨r, hr, rfl⟩
  exact mem_map_of_mem (mem_map_of_mem (mem_filter.mp hr).1)

theorem Account.of_known {a a' : Association} {sh' : Shared} {seid : UInt64} {N : Set RuleKey}
    {after : Option (Set RuleKey)} (hbefore : a.known seid = some N)
    (hafter : a'.known seid = after) (h : sh.Serves sh' seid N after)
    (hothers : ∀ t ≠ seid, a'.known t = a.known t) : Account a sh a' sh' := by
  refine .about seid (by simp [hbefore]) h.moved h.used hothers ?_
  rw [hbefore, hafter]
  exact h.bound

theorem Account.of_eq {a a' : Association} (hknown : ∀ t, a'.known t = a.known t) :
    Account a sh a' sh :=
  .quiet ⟨sh.held, fun _ => subset_rfl, rfl⟩ hknown

theorem notMem_gone_of_lists {r : PFCPSession × Option Bool}
    (h : Lists store ((r :: results).map Prod.fst)) : r.1.localSEID ∉ gone results :=
  fun hmem => h.notMem_of_cons (mem_of_mem_gone hmem)

theorem account_retried {b finished : Bool} {session : PFCPSession}
    {before after : List (PFCPSession × Option Bool)}
    (hfits : Lists store ((before ++ (session, none) :: after).map Prod.fst)) :
    Account ⟨store, b, .retrying (before ++ (session, none) :: after)⟩ sh
      ⟨store, b, .retrying (before ++ (session, some finished) :: after)⟩
      (sh.delete finished session.rules) := by
  have hothers : session.localSEID ∉ gone before ∧ session.localSEID ∉ gone after := by
    have hperm := hfits.perm (perm_middle.map Prod.fst)
    have hnotMem := notMem_gone_of_lists hperm
    rw [mem_gone_append, not_or] at hnotMem
    exact hnotMem
  have hgone : ∀ t r, t ∈ gone (before ++ (session, r) :: after) ↔
      r = some true ∧ t = session.localSEID ∨ t ∈ gone before ∨ t ∈ gone after := by
    intro t r
    rw [mem_gone_append, mem_gone_cons]
    exact or_left_comm
  have hstored : store.lookup session.localSEID = some session := hfits.lookup_of_mem (by simp)
  have hbefore : Association.known ⟨store, b, .retrying (before ++ (session, none) :: after)⟩
      session.localSEID = some session.rules.pdrKeys :=
    known_of_lookup _ (if_neg (by simp [hgone, hothers])) hstored
  cases finished with
  | true =>
    refine .of_known hbefore (known_of_activity _ (if_pos (by simp [hgone])))
      (.deleted (by simp)) fun t ht => ?_
    simp [known_eq, Activity.known, hgone, ht]
  | false =>
    refine .of_known hbefore (known_of_lookup _ (if_neg (by simp [hgone, hothers])) hstored)
      (.delete subset_rfl) fun t _ => ?_
    simp [known_eq, Activity.known, hgone]

theorem Acts.account {a a' : Association} {sh' : Shared} (h : Acts a sh a' sh') (hwf : a.Wf) :
    Account a sh a' sh' := by
  have hfits := hwf.fits
  have hzero := hwf.zero
  cases h with
  | @establish store sh seid hnew hfresh =>
    refine .born seid hfresh rfl (fun t ht => ?_) ?_
    · simp [known_eq, Activity.known, ht]
    · simp [known_eq, Activity.known]
  | lookupNew =>
    exact .of_known (known_of_activity _ (if_pos rfl))
      (known_of_activity _ (if_pos rfl)) .lookup fun _ _ => rfl
  | refuse =>
    refine .of_known (known_of_activity _ (if_pos rfl))
      (known_of_lookup_none .idle rfl hfits) .release fun t ht => ?_
    simp [known_eq, Activity.known, ht]
  | add =>
    exact .of_known (known_of_activity _ (if_pos rfl)) rfl
      (.put hzero (.write (by simp)))
      fun t ht => known_put_of_ne ht _ (if_neg ht)
  | addRejected =>
    refine .of_known (known_of_activity _ (if_pos rfl)) (known_of_activity _ (if_pos rfl))
      (.write (by simp)) fun t ht => ?_
    simp [known_eq, Activity.known, ht]
  | undone =>
    refine .of_known (known_of_activity _ (if_pos rfl)) (known_of_activity _ (if_pos rfl))
      (.deleted (by simp)) fun t ht => ?_
    simp [known_eq, Activity.known, ht]
  | notUndone =>
    exact .of_known (known_of_activity _ (if_pos rfl)) rfl
      (.put hzero (.delete subset_rfl))
      fun t ht => known_put_of_ne ht _ (if_neg ht)
  | modify => exact .of_eq fun _ => rfl
  | lookupStored =>
    exact .of_known (known_of_lookup _ rfl hfits) (known_of_lookup _ rfl hfits)
      .lookup fun _ _ => rfl
  | refuseModification => exact .of_eq fun _ => rfl
  | @modWrite store sh b accepted stored session m =>
    -- The association knows the same of a refused write as of an accepted one.
    have hact : ∀ t, (if accepted then Activity.written stored (m.write session)
        else .rollingBack stored (m.write session)).known t =
        if t = stored.localSEID then
          some (stored.rules.pdrKeys ∪ (m.write session).updated.pdrKeys) else none := by
      intro t
      cases accepted <;> rfl
    refine .of_known (known_of_lookup _ rfl hfits)
      (known_of_activity _ ((hact _).trans (if_pos rfl)))
      (.write subset_rfl) fun t ht => ?_
    rw [known_eq, hact, if_neg ht]
    rfl
  | removalFails => exact .of_eq fun _ => rfl
  | removalRejected =>
    exact .of_known (known_of_activity _ (if_pos rfl)) (known_of_activity _ (if_pos rfl))
      (.delete subset_rfl) fun _ _ => rfl
  | @publish store sh b finished stored session wr deleted hremoves =>
    rcases hfits with ⟨hstored, hseid, hsub⟩
    have hself : stored.localSEID = session.localSEID := by rw [hremoves.localSEID, hseid]
    refine .of_known (known_of_activity _ (if_pos rfl)) rfl
      (.waiveUnless (sh.moved_delete finished deleted _) rfl fun hcond => ?_)
      fun t ht => known_put_of_ne (hself ▸ ht) _ (if_neg ht)
    rw [hself]
    refine .put hzero ?_
    have hwritten : stored.rules.pdrKeys ∪ wr.updated.pdrKeys ⊆
        deleted.pdrKeys ∪ session.rules.pdrKeys :=
      (union_subset hcond.1 (PacketForwardingRules.pdrKeys_mono hsub.pdrs)).trans
        hremoves.pdrKeys_subset
    rcases hcond.2 with rfl | hnone
    · exact .deleted hwritten
    · rw [PacketForwardingRules.pdrKeys_eq_empty hnone, Set.empty_union] at hwritten
      exact .delete hwritten
  | @rollBack store sh b finished stored wr =>
    refine .of_known (known_of_activity _ (if_pos rfl)) (known_of_lookup _ rfl hfits)
      (.waiveUnless (sh.moved_delete finished _ _) rfl fun hcond => ?_) fun t ht => ?_
    · have hundone : stored.rules.pdrKeys ∪ wr.updated.pdrKeys ⊆
          (rollBackRemove stored.rules wr).pdrKeys ∪ stored.rules.pdrKeys :=
        union_subset subset_union_right
          ((updated_pdrKeys_subset stored.rules wr).trans (union_comm _ _).subset)
      rcases hcond with rfl | hnone
      · exact .deleted hundone
      · rw [PacketForwardingRules.pdrKeys_eq_empty hnone, Set.empty_union] at hundone
        exact .delete hundone
    · simp [known_eq, Activity.known, ht]
  | restore =>
    exact .of_known (known_of_lookup _ rfl hfits) (known_of_lookup _ rfl hfits)
      (.write (by simp)) fun _ _ => rfl
  | delete hstored =>
    refine .of_known (known_of_lookup .idle rfl hstored) (known_of_activity _ (if_pos rfl))
      (.deleted (by simp)) fun t ht => ?_
    simp [known_eq, Activity.known, ht]
  | deleteFails hstored =>
    exact .of_known (known_of_lookup .idle rfl hstored) (known_of_lookup .idle rfl hstored)
      (.delete subset_rfl) fun _ _ => rfl
  | cleanup =>
    exact .of_known (known_of_activity _ (if_pos rfl)) (known_erase_self _ .idle rfl)
      .release fun t ht => known_erase_of_ne ht _ _ (if_neg ht).symm
  | forget hstored =>
    exact .of_known (known_of_lookup .idle rfl hstored) (known_erase_self _ (.forgetting _) rfl)
      (.waive Shared.Serves.release.moved rfl) fun t ht => known_erase_of_ne ht .idle _ rfl
  | @deleteForgotten store sh b finished session =>
    exact .quiet ⟨_, sh.held_delete_subset finished session.rules, rfl⟩ fun _ => rfl
  | shutdown => exact .of_eq fun _ => rfl
  | snapshot _ => exact .of_eq fun _ => rfl
  | removeFinished =>
    refine .of_known (known_of_lookup _ rfl (hfits.lookup_of_mem mem_cons_self))
      (known_of_activity _ (if_pos rfl))
      (.deleted (by simp)) fun t ht => ?_
    simp [known_eq, Activity.known, ht]
  | removeUnfinished =>
    have hstored := hfits.lookup_of_mem mem_cons_self
    exact .of_known (known_of_lookup _ rfl hstored) (known_of_lookup _ rfl hstored)
      (.delete subset_rfl) fun _ _ => rfl
  | removeEnd =>
    exact .of_known (known_of_activity _ (if_pos rfl)) (known_erase_self _ (.removing _ _) rfl)
      .release fun t ht => known_erase_of_ne ht _ _ (if_neg ht).symm
  | @retry store sh b unfinished =>
    have hgone : gone (unfinished.map fun session => (session, none)) = [] := by
      simp [gone, filter_map, comp_def]
    exact .of_eq fun t => by simp [known_eq, Activity.known, hgone]
  | retried =>
    exact account_retried hfits
  | retriesDone _ => exact .of_eq fun _ => rfl
  | settleFinished =>
    have hnotMem := notMem_gone_of_lists hfits
    refine .of_known (known_of_activity _ (if_pos (mem_gone_cons.mpr (.inl ⟨rfl, rfl⟩))))
      (known_erase_self _ (.settling _) (if_neg hnotMem)) .release
      fun t ht => known_erase_of_ne ht _ _ ?_
    simp [Activity.known, mem_gone_cons, ht]
  | @settleHeld store sh b session =>
    have hnotMem := notMem_gone_of_lists hfits
    refine .of_known (known_of_lookup _ ?_ (hfits.lookup_of_mem mem_cons_self))
      (known_erase_self _ (.settling _) (if_neg hnotMem))
      ⟨sh.moved_delete false session.rules _, rfl, .forget⟩
      fun t ht => known_erase_of_ne ht _ _ ?_
    · simp [Activity.known, mem_gone_cons, hnotMem]
    · simp [Activity.known, mem_gone_cons]
  | close => exact .of_eq fun t => by simp [known_eq, Activity.known, gone]

end Leases

end Upf
