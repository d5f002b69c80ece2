import Upf.Session.AllOrNothing
import Upf.Session.Bookkeeping

/-!
# Tearing an association down

`executeShutdown` as a sequence of steps: set the flag, take a snapshot of
the store under the lock, remove the sessions of the snapshot one after the
other, retry together those whose removal did not finish, and settle the retries.
Messages may come in before, between and after these steps; each is handled in
one step, since a handler holds the lock that the snapshot takes.

The state keeps a log of the removals that were tried and of the sessions that
were counted out, and the leases there were at the snapshot.

Main result: `exactly_once`.
-/

namespace Upf

open List PFCPConn AList

/-- An establishment before the shutdown flag would draw the SEID zero, which the store does
not take. -/
def Message.DrawsZero (conf : AgentConf) {σ : Type} (msg : Message) (w : World σ) : Prop :=
  msg.establishes = true ∧ w.conn.isShutdown = false ∧
    w.conn.drawnSEID conf.rng conf.maxRetries = some 0

/-! ## The books between messages -/

structure World.Orderly {σ : Type} (w : World σ) : Prop where
  listed : ∃ l, Lists w.conn.store l ∧ w.conn.sessions = l.length
  leases : ∀ seid, IPPool.leased w.upf.ippool seid ≠ none → w.conn.store.lookup seid ≠ none

namespace World.Orderly

variable {σ : Type} {conf : AgentConf} {msg : Message} {w w' : World σ}

/-- A message keeps the books in order, unless it makes a session the store does
not take. -/
theorem books (h : w.Orderly) (hbooks : Books conf msg w w')
    (hshut : w.conn.isShutdown = false) (hzero : ¬msg.DrawsZero conf w) : w'.Orderly := by
  rcases h.listed with ⟨l, hl, hcount⟩
  cases hbooks with
  | unchanged hpool hstore hsessions =>
    refine ⟨⟨l, hstore ▸ hl, hsessions.trans hcount⟩, ?_⟩
    rw [hpool, hstore]
    exact h.leases
  | born session hmsg hdrawn hnew hpool hstore hsessions =>
    have hne : session.localSEID ≠ 0 := fun heq => hzero ⟨hmsg, hshut, heq ▸ hdrawn⟩
    rw [put_of_ne hne] at hstore
    refine ⟨⟨session :: l, hstore ▸ hl.insert hnew, by simp [hsessions, hcount]⟩, ?_⟩
    intro seid hleased
    rw [hstore]
    by_cases hseid : seid = session.localSEID
    · subst hseid
      simp [lookup_insert]
    · rw [lookup_insert_ne hseid]
      rw [hpool.leased_of_ne hseid] at hleased
      exact h.leases seid hleased
  | aborted seid ippool hmsg hdrawn hnew hlooked hpool hstore hsessions =>
    refine ⟨⟨l, hstore ▸ hl, hsessions.trans hcount⟩, ?_⟩
    intro t hleased
    rw [hpool, releaseIP] at hleased
    have hne : t ≠ seid := by
      rintro rfl
      exact hleased (IPPool.leased_release_self ippool t)
    rw [IPPool.leased_release_of_ne ippool hne, hlooked.leased_of_ne hne] at hleased
    rw [hstore]
    exact h.leases t hleased
  | touched seid stored hstored hpool hstore hsessions =>
    have hseid := hl.seid_of_lookup hstored
    have hlookup : ∀ t, w.conn.store.lookup t ≠ none → w'.conn.store.lookup t ≠ none := by
      intro t ht
      rcases hstore with hsame | ⟨session, hsame, hput⟩
      · rwa [hsame]
      · rw [hput]
        by_cases hzero : session.localSEID = 0
        · rwa [put_of_zero hzero]
        · rw [put_of_ne hzero]
          by_cases hkey : t = session.localSEID
          · simp [hkey]
          · rwa [lookup_insert_ne hkey]
    constructor
    · rcases hstore with hsame | ⟨session, hsame, hput⟩
      · exact ⟨l, hsame ▸ hl, hsessions.trans hcount⟩
      · by_cases hzero : session.localSEID = 0
        · rw [put_of_zero hzero] at hput
          exact ⟨l, hput ▸ hl, hsessions.trans hcount⟩
        · rw [put_of_ne hzero] at hput
          rcases hl.exists_perm_cons hstored with ⟨rest, hperm⟩
          refine ⟨session :: rest, hput ▸ (hl.perm hperm).replace hsame, ?_⟩
          rw [hsessions, hcount, hperm.length_eq]
          rfl
    · intro t hleased
      by_cases ht : t = seid
      · subst ht
        exact hlookup t (by rw [hstored]; simp)
      · rw [hpool.leased_of_ne ht] at hleased
        exact hlookup t (h.leases t hleased)
  | ended seid stored hstored hpool hstore hsessions =>
    have hseid := hl.seid_of_lookup hstored
    subst hseid
    rw [or_self] at hpool
    rcases hl.exists_perm_cons hstored with ⟨rest, hperm⟩
    refine ⟨⟨rest, hstore ▸ (hl.perm hperm).erase, ?_⟩, ?_⟩
    · rw [hsessions, hcount, hperm.length_eq]
      simp
    · intro t hleased
      rw [hpool, releaseIP] at hleased
      have hne : t ≠ stored.localSEID := by
        rintro rfl
        exact hleased (IPPool.leased_release_self _ _)
      rw [IPPool.leased_release_of_ne _ hne] at hleased
      rw [hstore, lookup_erase_ne hne]
      exact h.leases t hleased

end World.Orderly

/-! ## The steps -/

/-- The two passes over the sessions of the snapshot. -/
inductive Pass where
  | first
  | second
deriving DecidableEq

inductive Event where
  | attempt (pass : Pass) (seid : UInt64) (finished : Bool)
  | removed (seid : UInt64)
deriving DecidableEq

/-- Where a teardown is.  The retries carry the outcome of each session's second
removal once it is there. -/
inductive Phase where
  | running
  | flagged
  | removing (todo unfinished : List PFCPSession)
  | retrying (results : List (PFCPSession × Option Bool))
  | settling (results : List (PFCPSession × Option Bool))
  | closed

/-- An association that is torn down, with what is recorded of it. -/
structure Teardown (σ : Type) where
  world : World σ
  phase : Phase := .running
  /-- The sessions stored when the snapshot was taken. -/
  snapshot : List PFCPSession := []
  /-- The leases there were then. -/
  leasedThen : UInt64 → Option IP := fun _ => none
  log : List Event := []

def Phase.pastSnapshot : Phase → Bool
  | .running | .flagged => false
  | _ => true

namespace Teardown

variable {σ : Type}

/-- One step of the teardown, or one message that the condition allows. -/
inductive Step (conf : AgentConf) (dp : Datapath σ) (ok : Message → World σ → Prop) :
    Teardown σ → Teardown σ → Prop
  | handle {t : Teardown σ} (msg : Message) (hok : ok msg t.world) :
      Step conf dp ok t { t with world := msg.handle conf dp t.world }
  | flag {t : Teardown σ} (hphase : t.phase = .running) :
      Step conf dp ok t
        { t with
          world := { t.world with conn := { t.world.conn with isShutdown := true } }
          phase := .flagged }
  | takeSnapshot {t : Teardown σ} {todo : List PFCPSession} (hphase : t.phase = .flagged)
      (htodo : todo.Perm (t.world.conn.store.entries.map Sigma.snd)) :
      Step conf dp ok t
        { t with
          phase := .removing todo []
          snapshot := todo
          leasedThen := IPPool.leased t.world.upf.ippool }
  | removeFinished {t : Teardown σ} {session : PFCPSession} {todo unfinished : List PFCPSession}
      (hphase : t.phase = .removing (session :: todo) unfinished)
      (hsent : (t.world.send dp .del session.rules {}).1.2 = true) :
      Step conf dp ok t
        { t with
          world := (t.world.send dp .del session.rules {}).2.cleanup session
          phase := .removing todo unfinished
          log := t.log ++ [.attempt .first session.localSEID true, .removed session.localSEID] }
  | removeUnfinished {t : Teardown σ} {session : PFCPSession}
      {todo unfinished : List PFCPSession}
      (hphase : t.phase = .removing (session :: todo) unfinished)
      (hsent : (t.world.send dp .del session.rules {}).1.2 = false) :
      Step conf dp ok t
        { t with
          world := (t.world.send dp .del session.rules {}).2
          phase := .removing todo (unfinished ++ [session])
          log := t.log ++ [.attempt .first session.localSEID false] }
  | retry {t : Teardown σ} {unfinished : List PFCPSession}
      (hphase : t.phase = .removing [] unfinished) :
      Step conf dp ok t
        { t with phase := .retrying (unfinished.map fun session => (session, none)) }
  -- The retries run in parallel: any session that has no outcome may get it next.
  | retried {t : Teardown σ} {session : PFCPSession}
      {before after : List (PFCPSession × Option Bool)}
      (hphase : t.phase = .retrying (before ++ (session, none) :: after)) :
      Step conf dp ok t
        { t with
          world := (t.world.send dp .del session.rules {}).2
          phase := .retrying (before ++
            (session, some (t.world.send dp .del session.rules {}).1.2) :: after)
          log := t.log ++ [.attempt .second session.localSEID
            (t.world.send dp .del session.rules {}).1.2] }
  | retriesDone {t : Teardown σ} {results : List (PFCPSession × Option Bool)}
      (hphase : t.phase = .retrying results) (hdone : ∀ r ∈ results, r.2.isSome) :
      Step conf dp ok t { t with phase := .settling results }
  | settleFinished {t : Teardown σ} {session : PFCPSession}
      {results : List (PFCPSession × Option Bool)}
      (hphase : t.phase = .settling ((session, some true) :: results)) :
      Step conf dp ok t
        { t with
          world := t.world.cleanup session
          phase := .settling results
          log := t.log ++ [.removed session.localSEID] }
  | settleHeld {t : Teardown σ} {session : PFCPSession}
      {results : List (PFCPSession × Option Bool)}
      (hphase : t.phase = .settling ((session, some false) :: results)) :
      Step conf dp ok t
        { t with
          world := { t.world with conn := t.world.conn.removeSession session }
          phase := .settling results
          log := t.log ++ [.removed session.localSEID] }
  | close {t : Teardown σ} (hphase : t.phase = .settling []) :
      Step conf dp ok t { t with phase := .closed }

def Runs (conf : AgentConf) (dp : Datapath σ) (ok : Message → World σ → Prop) :
    Teardown σ → Teardown σ → Prop :=
  Relation.ReflTransGen (Step conf dp ok)

structure Start (t : Teardown σ) : Prop where
  phase : t.phase = .running
  log : t.log = []
  snapshot : t.snapshot = []
  store : t.world.conn.store = ∅
  sessions : t.world.conn.sessions = 0
  leases : ∀ seid, IPPool.leased t.world.upf.ippool seid = none

/-! ## The invariant -/

def Stuck (log : List Event) (seid : UInt64) : Prop :=
  Event.attempt .first seid false ∈ log ∧ Event.attempt .second seid false ∈ log

structure Tearing (t : Teardown σ) (pending : List PFCPSession) : Prop where
  shut : t.world.conn.isShutdown = true
  listed : Lists t.world.conn.store pending
  gauge : t.world.conn.sessions = pending.length
  nodup : (t.snapshot.map PFCPSession.localSEID).Nodup
  sub : ∀ x ∈ pending, x.localSEID ∈ t.snapshot.map PFCPSession.localSEID
  count : ∀ seid ∈ t.snapshot.map PFCPSession.localSEID,
    t.log.count (.removed seid) = if seid ∈ pending.map PFCPSession.localSEID then 0 else 1
  leases : ∀ seid, IPPool.leased t.world.upf.ippool seid ≠ none ↔
    seid ∈ t.snapshot.map PFCPSession.localSEID ∧ t.leasedThen seid ≠ none ∧
      (seid ∈ pending.map PFCPSession.localSEID ∨ Stuck t.log seid)

def Logged (log : List Event) (r : PFCPSession × Option Bool) : Prop :=
  Event.attempt .first r.1.localSEID false ∈ log ∧
    (Event.attempt .second r.1.localSEID false ∈ log ↔ r.2 = some false)

def Inv (t : Teardown σ) : Prop :=
  match t.phase with
  | .running => t.world.Orderly ∧ t.log = [] ∧ t.snapshot = []
  | .flagged => t.world.conn.isShutdown = true ∧ t.world.Orderly ∧ t.log = [] ∧ t.snapshot = []
  | .removing todo unfinished =>
    t.Tearing (todo ++ unfinished) ∧
    (∀ x ∈ todo, Event.attempt .first x.localSEID false ∉ t.log) ∧
    (∀ x ∈ unfinished, Event.attempt .first x.localSEID false ∈ t.log) ∧
    ∀ x ∈ todo ++ unfinished, Event.attempt .second x.localSEID false ∉ t.log
  | .retrying results => t.Tearing (results.map Prod.fst) ∧ ∀ r ∈ results, Logged t.log r
  | .settling results => t.Tearing (results.map Prod.fst) ∧ ∀ r ∈ results, Logged t.log r
  | .closed => t.Tearing []

/-! ## What each step keeps -/

section Tearing

variable {t : Teardown σ} {pending : List PFCPSession} {x : PFCPSession}

theorem stuck_append_attempt {log : List Event} {seid other : UInt64} {pass : Pass} {b : Bool}
    (hne : seid ≠ other) : Stuck (log ++ [.attempt pass other b]) seid ↔ Stuck log seid := by
  simp [Stuck, hne]

theorem stuck_append_removed {log : List Event} {seid other : UInt64} :
    Stuck (log ++ [.removed other]) seid ↔ Stuck log seid := by
  simp [Stuck]

theorem Tearing.attempt (h : t.Tearing pending) (hx : x ∈ pending) (dp : Datapath σ)
    (rules : PacketForwardingRules) (phase : Phase) (pass : Pass) (b : Bool) :
    Tearing { t with
      world := (t.world.send dp .del rules {}).2
      phase
      log := t.log ++ [.attempt pass x.localSEID b] } pending where
  shut := h.shut
  listed := h.listed
  gauge := h.gauge
  nodup := h.nodup
  sub := h.sub
  count seid hseid := by
    rw [← h.count seid hseid]
    simp
  leases seid := by
    by_cases hsame : seid = x.localSEID
    · have hpending : seid ∈ pending.map PFCPSession.localSEID :=
        hsame ▸ mem_map_of_mem hx
      simpa [hpending] using h.leases seid
    · simpa [stuck_append_attempt hsame] using h.leases seid

theorem Tearing.count_removed (h : t.Tearing (x :: pending)) :
    ∀ seid ∈ t.snapshot.map PFCPSession.localSEID,
      (t.log ++ [Event.removed x.localSEID]).count (Event.removed seid) =
        if seid ∈ pending.map PFCPSession.localSEID then 0 else 1 := by
  intro seid hseid
  have hcount := h.count seid hseid
  have hnotMem := h.listed.notMem_of_cons
  rw [count_append]
  by_cases hsame : seid = x.localSEID
  · subst hsame
    rw [map_cons, if_pos mem_cons_self] at hcount
    rw [if_neg hnotMem, hcount]
    simp
  · have hother : ([Event.removed x.localSEID]).count (.removed seid) = 0 := by
      rw [count_eq_zero]
      simpa using hsame
    rw [hother, hcount]
    simp [hsame]

/-- The next session is taken out of the store, and keeps its lease if it is stuck. -/
theorem Tearing.remove (h : t.Tearing (x :: pending)) {world : World σ}
    (hconn : world.conn = t.world.conn.removeSession x)
    (hleases : ∀ seid, IPPool.leased world.upf.ippool seid ≠ none ↔
      IPPool.leased t.world.upf.ippool seid ≠ none ∧
        (seid = x.localSEID → Stuck t.log x.localSEID))
    (phase : Phase) :
    Tearing { t with world, phase, log := t.log ++ [.removed x.localSEID] } pending where
  shut := hconn ▸ h.shut
  listed := hconn ▸ h.listed.erase
  gauge := by
    have hgauge : t.world.conn.sessions = (pending.length + 1 : Nat) := h.gauge
    simp only [hconn, PFCPConn.removeSession]
    omega
  nodup := h.nodup
  sub y hy := h.sub y (mem_cons_of_mem x hy)
  count := h.count_removed
  leases seid := by
    have hnotMem := h.listed.notMem_of_cons
    rw [hleases, h.leases seid]
    simp only [stuck_append_removed]
    by_cases hsame : seid = x.localSEID
    · subst hsame
      simp [hnotMem, and_assoc]
    · simp [hsame]

theorem Tearing.finish (h : t.Tearing (x :: pending)) (hstuck : ¬Stuck t.log x.localSEID)
    (phase : Phase) :
    Tearing { t with
      world := t.world.cleanup x
      phase
      log := t.log ++ [.removed x.localSEID] } pending := by
  refine h.remove rfl (fun seid => ?_) phase
  simp only [World.cleanup, releaseIP]
  by_cases hsame : seid = x.localSEID
  · subst hsame
    simp [IPPool.leased_release_self, hstuck]
  · simp [IPPool.leased_release_of_ne _ hsame, hsame]

theorem Tearing.perm {pending' : List PFCPSession} (h : t.Tearing pending)
    (hperm : pending.Perm pending') (phase : Phase) :
    Tearing { t with phase } pending' where
  shut := h.shut
  listed := h.listed.perm hperm
  gauge := by rw [← hperm.length_eq]; exact h.gauge
  nodup := h.nodup
  sub y hy := h.sub y (hperm.mem_iff.mpr hy)
  count seid hseid := by
    rw [h.count seid hseid]
    simp only [(hperm.map PFCPSession.localSEID).mem_iff]
  leases seid := by
    rw [h.leases seid]
    simp only [(hperm.map PFCPSession.localSEID).mem_iff]

theorem tearing_of_snapshot (hshut : t.world.conn.isShutdown = true) (h : t.world.Orderly)
    (hlog : t.log = []) {todo : List PFCPSession}
    (htodo : todo.Perm (t.world.conn.store.entries.map Sigma.snd)) :
    Tearing { t with
      phase := .removing todo []
      snapshot := todo
      leasedThen := IPPool.leased t.world.upf.ippool } todo := by
  rcases h.listed with ⟨l, hl, hcount⟩
  have hlisted : Lists t.world.conn.store todo :=
    (Lists.entries fun _ _ => hl.seid_of_lookup).perm htodo.symm
  refine ⟨hshut, hlisted, ?_, hlisted.nodup, fun x hx => mem_map_of_mem hx, ?_, ?_⟩
  · have hperm : l.Perm todo := by
      have hl_nodup := hl.nodup.of_map
      have htodo_nodup := hlisted.nodup.of_map
      rw [perm_ext_iff_of_nodup hl_nodup htodo_nodup]
      intro x
      have h₁ := hl.lookup_iff x.localSEID x
      have h₂ := hlisted.lookup_iff x.localSEID x
      simp only [and_true] at h₁ h₂
      rw [← h₁, h₂]
    rw [← hperm.length_eq]
    exact hcount
  · intro seid hseid
    rw [if_pos hseid]
    simp [hlog]
  · intro seid
    constructor
    · intro hleased
      have hmem := hlisted.lookup_ne_none_iff.mp (h.leases seid hleased)
      exact ⟨hmem, hleased, .inl hmem⟩
    · exact fun hboth => hboth.2.1

end Tearing
variable {conf : AgentConf} {t : Teardown σ}

theorem Inv.tearing (h : t.Inv) :
    (t.phase.pastSnapshot = false ∧ t.snapshot = []) ∨ ∃ pending, t.Tearing pending := by
  unfold Inv at h
  split at h
  · next hphase => exact .inl ⟨by rw [hphase]; rfl, h.2.2⟩
  · next hphase => exact .inl ⟨by rw [hphase]; rfl, h.2.2.2⟩
  · exact .inr ⟨_, h.1⟩
  · exact .inr ⟨_, h.1⟩
  · exact .inr ⟨_, h.1⟩
  · exact .inr ⟨_, h⟩

theorem Inv.shut (h : t.Inv) (hpast : t.phase.pastSnapshot = true) :
    t.world.conn.isShutdown = true := by
  rcases h.tearing with ⟨hnot, -⟩ | ⟨pending, htearing⟩
  · exact absurd (hpast.symm.trans hnot) (by simp)
  · exact htearing.shut

theorem Inv.handle (h : t.Inv) (dp : Datapath σ)
    {msg : Message} (hok : ¬msg.DrawsZero conf t.world) :
    Inv { t with world := msg.handle conf dp t.world } := by
  by_cases hshut : t.world.conn.isShutdown = true
  · rw [msg.handle_of_isShutdown conf dp hshut]
    exact h
  · -- The flag is not set yet, so there is no snapshot.
    have hrunning : t.phase = .running := by
      by_contra hne
      apply hshut
      cases hphase : t.phase with
      | running => exact absurd hphase hne
      | flagged =>
        simp only [Inv, hphase] at h
        exact h.1
      | removing => exact h.shut (by rw [hphase]; rfl)
      | retrying => exact h.shut (by rw [hphase]; rfl)
      | settling => exact h.shut (by rw [hphase]; rfl)
      | closed => exact h.shut (by rw [hphase]; rfl)
    simp only [Inv, hrunning] at h ⊢
    rw [Bool.not_eq_true] at hshut
    exact ⟨h.1.books (msg.handle_books conf dp t.world) hshut hok, h.2⟩

theorem mem_append_attempt {log : List Event} {pass pass' : Pass} {seid other : UInt64}
    {b b' : Bool}
    (hne : seid ≠ other) :
    Event.attempt pass seid b ∈ log ++ [.attempt pass' other b'] ↔
      Event.attempt pass seid b ∈ log := by
  simp [hne]

theorem Tearing.ne_next (h : t.Tearing (x :: pending)) (y : PFCPSession) (hy : y ∈ pending) :
    y.localSEID ≠ x.localSEID :=
  fun heq => h.listed.notMem_of_cons (heq ▸ mem_map_of_mem hy)

theorem Inv.step {t' : Teardown σ} {dp : Datapath σ} (h : t.Inv)
    (hstep : Step conf dp (fun msg w => ¬msg.DrawsZero conf w) t t') : t'.Inv := by
  cases hstep with
  | handle msg hok => exact h.handle dp hok
  | flag hphase =>
    simp only [Inv, hphase] at h ⊢
    exact ⟨trivial, ⟨h.1.listed, h.1.leases⟩, h.2⟩
  | @takeSnapshot todo hphase htodo =>
    simp only [Inv, hphase] at h ⊢
    rcases h with ⟨hshut, horderly, hlog, -⟩
    refine ⟨?_, by simp [hlog], by simp, by simp [hlog]⟩
    rw [append_nil]
    exact tearing_of_snapshot hshut horderly hlog htodo
  | @removeFinished session todo unfinished hphase =>
    simp only [Inv, hphase] at h ⊢
    rcases h with ⟨htearing, hfirst, hunfinished, hsecond⟩
    have hattempt := htearing.attempt (x := session) mem_cons_self dp session.rules
      (.removing todo unfinished) .first true
    have hdone := hattempt.finish (by simp [Stuck, hfirst session]) (.removing todo unfinished)
    rw [append_assoc] at hdone
    refine ⟨hdone, fun x hx => ?_, fun x hx => ?_, fun x hx => ?_⟩
    · have hne := htearing.ne_next x (mem_append_left _ hx)
      simpa [hne] using hfirst x (mem_cons_of_mem _ hx)
    · simpa using hunfinished x hx
    · have hne := htearing.ne_next x hx
      simpa [hne] using hsecond x (mem_cons_of_mem _ hx)
  | @removeUnfinished session todo unfinished hphase =>
    simp only [Inv, hphase] at h ⊢
    rcases h with ⟨htearing, hfirst, hunfinished, hsecond⟩
    have hattempt := htearing.attempt (x := session) mem_cons_self dp session.rules
      (.removing todo (unfinished ++ [session])) .first false
    have hperm : (session :: (todo ++ unfinished)).Perm (todo ++ (unfinished ++ [session])) := by
      rw [← append_assoc]
      exact (perm_append_singleton _ _).symm
    refine ⟨hattempt.perm hperm _, fun x hx => ?_, fun x hx => ?_, fun x hx => ?_⟩
    · have hne := htearing.ne_next x (mem_append_left _ hx)
      simpa [hne] using hfirst x (mem_cons_of_mem _ hx)
    · rcases mem_append.mp hx with hx | hx
      · simpa using Or.inl (hunfinished x hx)
      · simp [mem_singleton.mp hx]
    · simpa using hsecond x (hperm.mem_iff.mpr hx)
  | @retry unfinished hphase =>
    simp only [Inv, hphase] at h ⊢
    rcases h with ⟨htearing, -, hunfinished, hsecond⟩
    constructor
    · have hsame : (unfinished.map fun session => (session, (none : Option Bool))).map Prod.fst =
          unfinished := by simp [Function.comp_def]
      rw [hsame]
      exact htearing.perm (.refl _) _
    · intro r hr
      rcases mem_map.mp hr with ⟨session, hsession, rfl⟩
      exact ⟨hunfinished session hsession, by simpa using hsecond session hsession⟩
  | @retried session before after hphase =>
    simp only [Inv, hphase] at h ⊢
    rcases h with ⟨htearing, hlogged⟩
    generalize (t.world.send dp .del session.rules {}).1.2 = finished
    have hown := hlogged (session, none) (by simp)
    have hattempt := htearing.attempt (x := session) (by simp) dp session.rules
      (.retrying (before ++ (session, some finished) :: after)) .second finished
    refine ⟨by simpa using hattempt, fun r hr => ?_⟩
    have hothers : ∀ r ∈ before ++ after, r.1.localSEID ≠ session.localSEID := by
      intro r hr heq
      have hperm := htearing.listed.perm (perm_middle.map Prod.fst)
      refine hperm.notMem_of_cons (heq ▸ ?_)
      exact mem_map_of_mem (mem_map_of_mem hr)
    rcases mem_cons.mp (perm_middle.mem_iff.mp hr) with rfl | hr
    · refine ⟨mem_append_left _ hown.1, ?_⟩
      have hnot : Event.attempt .second session.localSEID false ∉ t.log :=
        fun hmem => absurd (hown.2.mp hmem) (by simp)
      simp [hnot, eq_comm]
    · have hne := hothers r hr
      have hr : r ∈ before ++ (session, none) :: after :=
        perm_middle.mem_iff.mpr (mem_cons_of_mem _ hr)
      rw [Logged, mem_append_attempt hne, mem_append_attempt hne]
      exact hlogged r hr
  | @retriesDone results hphase =>
    simp only [Inv, hphase] at h ⊢
    exact ⟨h.1.perm (.refl _) _, h.2⟩
  | @settleFinished session results hphase =>
    simp only [Inv, hphase] at h ⊢
    rcases h with ⟨htearing, hlogged⟩
    have hown := hlogged (session, some true) mem_cons_self
    refine ⟨htearing.finish ?_ _, fun r hr => ?_⟩
    · exact fun hstuck => absurd (hown.2.mp hstuck.2) (by simp)
    · simpa [Logged] using hlogged r (mem_cons_of_mem _ hr)
  | @settleHeld session results hphase =>
    simp only [Inv, hphase] at h ⊢
    rcases h with ⟨htearing, hlogged⟩
    have hown := hlogged (session, some false) mem_cons_self
    have hstuck : Stuck t.log session.localSEID := ⟨hown.1, hown.2.mpr rfl⟩
    refine ⟨htearing.remove rfl (fun _ => by simp [hstuck]) _, fun r hr => ?_⟩
    simpa [Logged] using hlogged r (mem_cons_of_mem _ hr)
  | close hphase =>
    simp only [Inv, hphase] at h ⊢
    exact h.1.perm (.refl _) _

theorem Inv.runs {t' : Teardown σ} {dp : Datapath σ} (h : t.Inv)
    (hruns : Runs conf dp (fun msg w => ¬msg.DrawsZero conf w) t t') : t'.Inv := by
  induction hruns with
  | refl => exact h
  | tail _ hstep ih => exact ih.step hstep

theorem Start.inv (h : t.Start) : t.Inv := by
  simp only [Inv, h.phase]
  refine ⟨⟨⟨[], by rw [h.store]; exact .empty, by rw [h.sessions]; rfl⟩, ?_⟩, h.log, h.snapshot⟩
  exact fun seid hleased => absurd (h.leases seid) hleased

/-! ## The property -/

/-- In every run of messages and one teardown in which no establishment before the flag draws
the SEID zero, messages change nothing once the snapshot is taken, no session of the
snapshot is counted out twice, and at the end each was counted out once, nothing is
stored or counted, and the leases left are those of the sessions whose removal
finished in neither pass. -/
theorem exactly_once {conf : AgentConf} {dp : Datapath σ} {t₀ t : Teardown σ} (hstart : t₀.Start)
    (hruns : Runs conf dp (fun msg w => ¬msg.DrawsZero conf w) t₀ t) :
    (t.phase.pastSnapshot = true → ∀ msg : Message, msg.handle conf dp t.world = t.world) ∧
    (t.snapshot.map PFCPSession.localSEID).Nodup ∧
    (∀ x ∈ t.snapshot, t.log.count (.removed x.localSEID) ≤ 1) ∧
    (t.phase = .closed →
      (∀ x ∈ t.snapshot, t.log.count (.removed x.localSEID) = 1) ∧
      t.world.conn.store = ∅ ∧ t.world.conn.sessions = 0 ∧
      ∀ seid, IPPool.leased t.world.upf.ippool seid ≠ none ↔
        seid ∈ t.snapshot.map PFCPSession.localSEID ∧ t.leasedThen seid ≠ none ∧
          .attempt .first seid false ∈ t.log ∧ .attempt .second seid false ∈ t.log) := by
  have hinv := hstart.inv.runs hruns
  refine ⟨fun hpast msg => msg.handle_of_isShutdown conf dp (hinv.shut hpast), ?_, ?_, ?_⟩
  · rcases hinv.tearing with ⟨-, hnil⟩ | ⟨pending, htearing⟩
    · simp [hnil]
    · exact htearing.nodup
  · intro x hx
    rcases hinv.tearing with ⟨-, hnil⟩ | ⟨pending, htearing⟩
    · simp [hnil] at hx
    · rw [htearing.count x.localSEID (mem_map_of_mem hx)]
      split <;> omega
  · intro hclosed
    simp only [Inv, hclosed] at hinv
    refine ⟨fun x hx => ?_, hinv.listed.eq_empty, hinv.gauge, fun seid => ?_⟩
    · simpa using hinv.count x.localSEID (mem_map_of_mem hx)
    · simpa [Stuck] using hinv.leases seid

theorem runs_of_stuck {dp : Datapath σ} {ok : Message → World σ → Prop}
    (hphase : t.phase = .running) {x : PFCPSession}
    (hentries : t.world.conn.store.entries.map Sigma.snd = [x])
    (hfirst : (t.world.send dp .del x.rules {}).1.2 = false)
    (hsecond : ((t.world.send dp .del x.rules {}).2.send dp .del x.rules {}).1.2 = false) :
    ∃ t', Runs conf dp ok t t' ∧ t'.phase = .closed ∧ t'.snapshot = [x] ∧
      t'.leasedThen = IPPool.leased t.world.upf.ippool ∧
      t'.log = t.log ++ [.attempt .first x.localSEID false] ++
        [.attempt .second x.localSEID false] ++ [.removed x.localSEID] := by
  have h₁ : Runs conf dp ok t _ := .tail .refl (.flag hphase)
  have h₂ := h₁.tail (@Step.takeSnapshot _ conf dp ok _ [x] rfl (.of_eq hentries.symm))
  have h₃ := h₂.tail (.removeUnfinished rfl hfirst)
  have h₄ := h₃.tail (.retry rfl)
  have h₅ := h₄.tail (@Step.retried _ conf dp ok _ x [] [] rfl)
  have h₆ := h₅.tail (.retriesDone rfl (by simp))
  have h₇ := h₆.tail (@Step.settleHeld _ conf dp ok _ x []
    (congrArg (fun finished => Phase.settling [(x, some finished)]) hsecond))
  have h₈ := h₇.tail (.close rfl)
  refine ⟨_, h₈, rfl, rfl, rfl, ?_⟩
  exact congrArg (fun finished => t.log ++ [.attempt .first x.localSEID false] ++
    [.attempt .second x.localSEID finished] ++ [.removed x.localSEID]) hsecond

/-! ## Small runs -/

/-- A new association on a pool of one address, over a scripted datapath. -/
def sample (answers : List (Cause × Bool)) : Teardown (List (Cause × Bool)) where
  world :=
    { upf :=
        { ippool := some ⟨[[10, 60, 0, 1]], ∅⟩, fteidGenerator := {}, datapath := answers }
      conn := { store := ∅, isShutdown := false, sessions := 0, rngPos := 0 } }

theorem sample_start (answers : List (Cause × Bool)) : (sample answers).Start where
  phase := rfl
  log := rfl
  snapshot := rfl
  store := rfl
  sessions := rfl
  leases _ := rfl

def sampleMessage : Message :=
  .request (.establishment (.sample [.downlink 1 .choose] [.sample 1 2] []))

def stuckAnswers : List (Cause × Bool) :=
  [(.requestAccepted, true), (.requestAccepted, false), (.requestAccepted, false)]

/-- A session with an address whose removals do not finish: it is counted out once
and its address stays leased. -/
theorem exactly_once_stuck :
    ∃ t, Runs .sample scripted (fun msg w => ¬msg.DrawsZero .sample w) (sample stuckAnswers) t ∧
      t.phase = .closed ∧ t.log.count (.removed 1) = 1 ∧ t.world.conn.store = ∅ ∧
      t.world.conn.sessions = 0 ∧ IPPool.leased t.world.upf.ippool 1 ≠ none := by
  set w := sampleMessage.handle .sample scripted (sample stuckAnswers).world with hw
  have hhandled : Runs .sample scripted (fun msg w => ¬msg.DrawsZero .sample w)
      (sample stuckAnswers) { sample stuckAnswers with world := w } :=
    .tail .refl (.handle sampleMessage fun hzero => absurd hzero.2.2 (by decide))
  have hseids : (w.conn.store.entries.map Sigma.snd).map PFCPSession.localSEID = [1] := by
    rw [hw]
    decide
  have hanswers : w.upf.datapath = [(.requestAccepted, false), (.requestAccepted, false)] := by
    rw [hw]
    decide
  have hleased : IPPool.leased w.upf.ippool 1 ≠ none := by
    rw [hw]
    decide
  have hone : (w.conn.store.entries.map Sigma.snd).length = 1 := by
    simpa using congrArg List.length hseids
  rcases length_eq_one_iff.mp hone with ⟨x, hx⟩
  have hseid : x.localSEID = 1 := by simpa [hx] using hseids
  have hfirst : (w.send scripted .del x.rules {}).1.2 = false := by
    simp [World.send, scripted, hanswers]
  have hsecond : ((w.send scripted .del x.rules {}).2.send scripted .del x.rules {}).1.2 =
      false := by
    simp [World.send, scripted, hanswers]
  rcases runs_of_stuck (t := { sample stuckAnswers with world := w }) rfl hx hfirst hsecond with
    ⟨t, hruns, hclosed, hsnapshot, hthen, hlog⟩
  rcases exactly_once (sample_start stuckAnswers) (hhandled.trans hruns) with ⟨-, -, -, hend⟩
  rcases hend hclosed with ⟨hcount, hstore, hgauge, hleases⟩
  refine ⟨t, hhandled.trans hruns, hclosed, ?_, hstore, hgauge, ?_⟩
  · exact hseid ▸ hcount x (by simp [hsnapshot])
  · rw [hleases, hsnapshot, hthen, hlog, map_singleton, hseid]
    exact ⟨mem_singleton_self _, hleased, by simp, by simp⟩

/-- An agent whose random source yields the SEID zero. -/
def zeroAgent : AgentConf := { AgentConf.sample with rng := fun _ => 0 }

/-- A session under the SEID zero is accepted and counted, but not stored, so the
teardown ends with it still counted and its address still leased. -/
theorem zero_never_counted_out :
    ∃ t, (sample []).Start ∧ Runs zeroAgent scripted (fun _ _ => True) (sample []) t ∧
      t.phase = .closed ∧ t.snapshot = [] ∧ t.world.conn.sessions = 1 ∧
      IPPool.leased t.world.upf.ippool 0 = some [10, 60, 0, 1] := by
  set w := sampleMessage.handle zeroAgent scripted (sample []).world with hw
  have h₁ : Runs zeroAgent scripted (fun _ _ => True) (sample [])
      { sample [] with world := w } := .tail .refl (.handle sampleMessage trivial)
  have h₂ := h₁.tail (.flag rfl)
  have hnone : w.conn.store.entries.map Sigma.snd = [] := by
    rw [hw]
    decide
  have h₃ := h₂.tail (@Step.takeSnapshot _ zeroAgent scripted _ _ [] rfl (.of_eq hnone.symm))
  have h₄ := h₃.tail (.retry rfl)
  have h₅ := h₄.tail (.retriesDone rfl (by simp))
  have h₆ := h₅.tail (.close rfl)
  refine ⟨_, sample_start [], h₆, rfl, rfl, ?_, ?_⟩
  · show w.conn.sessions = 1
    rw [hw]
    decide
  · show IPPool.leased w.upf.ippool 0 = some [10, 60, 0, 1]
    rw [hw]
    decide

end Teardown

end Upf
