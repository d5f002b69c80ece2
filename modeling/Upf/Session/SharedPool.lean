import Upf.Pfcp.Subnet
import Upf.Session.AllOrNothing
import Upf.Session.Store

/-!
# One address pool, many associations

Every association draws the SEIDs of its sessions from a random source of its
own, and looks only into its own store to see whether a SEID is taken.  The
address pool belongs to the whole process and knows sessions by SEID alone.

Any number of associations work on establishments and deletions.  A handler gives
the others a chance whenever it waits for the datapath: an establishment between
reading its rules and the end of its write, a deletion between its batch and its
cleanup.

Main result: `addresses_exclusive`.
-/

namespace Upf

open Option PFCPConn List AList Function

/-- What an association's handler is waiting for. -/
inductive Busy where
  | idle
  /-- An establishment has read its rules. -/
  | writing (d : Draft)
  /-- The rules of a session are gone. -/
  | ending (stored : PFCPSession)

def Busy.session : Busy → Option PFCPSession
  | idle => none
  | writing d => some d.session
  | ending stored => some stored

/-- Whether a session was given its address by this node. -/
def PFCPSession.Given (x : PFCPSession) : Prop := ∃ p ∈ x.rules.pdrs, p.allocIPFlag = true

/-- The shared resources and all associations. -/
structure Node (σ ι : Type) where
  upf : UPF σ
  conn : ι → PFCPConn
  busy : ι → Busy

namespace Node

variable {σ ι : Type}

def world (n : Node σ ι) (i : ι) : World σ := ⟨n.upf, n.conn i⟩

def leased (n : Node σ ι) (seid : UInt64) : Option IP := IPPool.leased n.upf.ippool seid

def Live (n : Node σ ι) (i : ι) (x : PFCPSession) : Prop :=
  (n.conn i).store.lookup x.localSEID = some x ∨ (n.busy i).session = some x

def Unused (n : Node σ ι) (seid : UInt64) : Prop :=
  n.leased seid = none ∧ ∀ i x, n.Live i x → x.localSEID ≠ seid

def Holds (n : Node σ ι) (i : ι) (x : PFCPSession) : Prop :=
  (n.conn i).store.lookup x.localSEID = some x ∧ x.Given

section Steps

variable [DecidableEq ι]

/-- The handler of one association has come to a new point. -/
def set (n : Node σ ι) (i : ι) (w : World σ) (b : Busy) : Node σ ι where
  upf := w.upf
  conn := Function.update n.conn i w.conn
  busy := Function.update n.busy i b

@[simp] theorem set_busy (n : Node σ ι) (i : ι) (w : World σ) (b : Busy) :
    (n.set i w b).busy i = b := by
  simp [set]

@[simp] theorem set_world (n : Node σ ι) (i : ι) (w : World σ) (b : Busy) :
    (n.set i w b).world i = w := by
  simp [set, world]

@[simp] theorem set_set (n : Node σ ι) (i : ι) (w w' : World σ) (b b' : Busy) :
    (n.set i w b).set i w' b' = n.set i w' b' := by
  simp [set]

theorem live_set {n : Node σ ι} {i : ι} {w : World σ} {b : Busy} {x : PFCPSession} :
    (n.set i w b).Live i x ↔
      w.conn.store.lookup x.localSEID = some x ∨ b.session = some x := by
  simp [Live, set]

theorem live_set_idle {n : Node σ ι} {i : ι} {w : World σ} {x : PFCPSession} :
    (n.set i w .idle).Live i x ↔ w.conn.store.lookup x.localSEID = some x := by
  simp [Live, set, Busy.session]

theorem set_conn_of_ne (n : Node σ ι) {i j : ι} (hne : j ≠ i) (w : World σ) (b : Busy) :
    (n.set i w b).conn j = n.conn j := by
  simp [set, update_of_ne hne]

theorem set_busy_of_ne (n : Node σ ι) {i j : ι} (hne : j ≠ i) (w : World σ) (b : Busy) :
    (n.set i w b).busy j = n.busy j := by
  simp [set, update_of_ne hne]

variable (conf : ι → AgentConf) (dp : Datapath σ)

/-- The steps of the handlers.  An establishment may begin if the condition
allows it. -/
inductive Step (ok : Node σ ι → ι → Prop) : Node σ ι → Node σ ι → Prop
  | refuse {n : Node σ ι} (i : ι) (sereq : SessionEstablishmentRequest)
      (hidle : n.busy i = .idle) (hok : ok n i) {reply : Reply SessionEstablishmentResponse}
      {w : World σ} (hbegin : beginEstablishment (conf i) sereq (n.world i) = (.error reply, w)) :
      Step ok n (n.set i w .idle)
  | establish {n : Node σ ι} (i : ι) (sereq : SessionEstablishmentRequest)
      (hidle : n.busy i = .idle) (hok : ok n i) {d : Draft} {w : World σ}
      (hbegin : beginEstablishment (conf i) sereq (n.world i) = (.ok d, w)) :
      Step ok n (n.set i w (.writing d))
  | write {n : Node σ ι} (i : ι) {d : Draft} (hbusy : n.busy i = .writing d) :
      Step ok n (n.set i (writeEstablishment (conf i) dp d (n.world i)).2 .idle)
  | deleteFails {n : Node σ ι} (i : ι) (hidle : n.busy i = .idle)
      (hshut : (n.conn i).isShutdown = false) {seid : UInt64} {stored : PFCPSession}
      (hstored : (n.conn i).store.lookup seid = some stored)
      (hsent : ((n.world i).send dp .del stored.rules {}).1.1 = .requestRejected ∨
        ((n.world i).send dp .del stored.rules {}).1.2 = false) :
      Step ok n (n.set i ((n.world i).send dp .del stored.rules {}).2 .idle)
  | delete {n : Node σ ι} (i : ι) (hidle : n.busy i = .idle)
      (hshut : (n.conn i).isShutdown = false) {seid : UInt64} {stored : PFCPSession}
      (hstored : (n.conn i).store.lookup seid = some stored)
      (hsent : ((n.world i).send dp .del stored.rules {}).1.1 ≠ .requestRejected ∧
        ((n.world i).send dp .del stored.rules {}).1.2 = true) :
      Step ok n (n.set i ((n.world i).send dp .del stored.rules {}).2 (.ending stored))
  | cleanup {n : Node σ ι} (i : ι) {stored : PFCPSession} (hbusy : n.busy i = .ending stored) :
      Step ok n (n.set i ((n.world i).cleanup stored) .idle)

def Runs (ok : Node σ ι → ι → Prop) : Node σ ι → Node σ ι → Prop :=
  Relation.ReflTransGen (Step conf dp ok)

def DrawsUnused (n : Node σ ι) (i : ι) : Prop :=
  ∀ seid, (n.conn i).drawnSEID (conf i).rng (conf i).maxRetries = some seid → n.Unused seid

structure Start (n : Node σ ι) : Prop where
  pool : ∀ p, n.upf.ippool = some p →
    ∃ parseCIDR poolSubnet, IPPool.newIPPool parseCIDR poolSubnet = .ok p
  store : ∀ i, (n.conn i).store = ∅
  busy : ∀ i, n.busy i = .idle

/-! ## The handlers in two steps -/

variable {n : Node σ ι} {i : ι}

theorem establishment_steps (ok : Node σ ι → ι → Prop)
    (hidle : n.busy i = .idle) (hok : ok n i) (sereq : SessionEstablishmentRequest) :
    Runs conf dp ok n
      (n.set i (handleSessionEstablishmentRequest (conf i) dp sereq (n.world i)).2 .idle) := by
  rw [handleSessionEstablishmentRequest_eq]
  rcases hbegin : beginEstablishment (conf i) sereq (n.world i) with ⟨reply | d, w⟩
  · exact .single (.refuse i sereq hidle hok hbegin)
  · have hfirst : Runs conf dp ok n _ := .single (.establish i sereq hidle hok hbegin)
    have hsecond := hfirst.tail (.write i (set_busy n i w (.writing d)))
    rw [set_world, set_set] at hsecond
    exact hsecond

theorem deletion_steps (ok : Node σ ι → ι → Prop)
    (hidle : n.busy i = .idle) (sdreq : SessionDeletionRequest) :
    Runs conf dp ok n
      (n.set i (handleSessionDeletionRequest dp sdreq (n.world i)).2 .idle) := by
  rcases deletion_cases dp sdreq (n.world i) with
    ⟨reply, hcase, -⟩ |
    ⟨stored, hstored, hshut, ⟨hsent, reply, -, hcase⟩ | ⟨hsent, reply, -, hcase⟩⟩
  · have hsame : n.set i (n.world i) .idle = n := by
      simp [set, world, ← hidle]
    rw [hcase, hsame]
    exact .refl
  · rw [hcase]
    exact .single (.deleteFails i hidle hshut hstored hsent)
  · rw [hcase]
    have hfirst : Runs conf dp ok n _ := .single (.delete i hidle hshut hstored hsent)
    have hsecond := hfirst.tail (.cleanup i (set_busy n i _ (.ending stored)))
    rw [set_world, set_set] at hsecond
    exact hsecond

/-! ## The invariant -/

structure Sound (n : Node σ ι) : Prop where
  exclusive : ∀ p, n.upf.ippool = some p → p.Exclusive
  listed : ∀ i, ∃ l, Lists (n.conn i).store l
  apart : ∀ i j x y, n.Live i x → n.Live j y → x.localSEID = y.localSEID → i = j
  writing : ∀ i d, n.busy i = .writing d → (n.conn i).store.lookup d.session.localSEID = none
  ending : ∀ i x, n.busy i = .ending x → (n.conn i).store.lookup x.localSEID = some x
  given : ∀ i x, n.Live i x → x.Given → n.leased x.localSEID ≠ none

/-- A step leaves the address of every session that lives on. -/
def Keeps (n n' : Node σ ι) : Prop :=
  ∀ j y, n.Holds j y → n'.Holds j y → n'.leased y.localSEID = n.leased y.localSEID

theorem Sound.set (h : n.Sound) {w : World σ} {b : Busy}
    (hexclusive : ∀ p, w.upf.ippool = some p → p.Exclusive)
    (hlisted : ∃ l, Lists w.conn.store l)
    (hseids : ∀ x, (n.set i w b).Live i x →
      (∃ y, n.Live i y ∧ y.localSEID = x.localSEID) ∨ n.Unused x.localSEID)
    (hwriting : ∀ d, b = .writing d → w.conn.store.lookup d.session.localSEID = none)
    (hending : ∀ x, b = .ending x → w.conn.store.lookup x.localSEID = some x)
    (hgiven : ∀ x, (n.set i w b).Live i x → x.Given →
      IPPool.leased w.upf.ippool x.localSEID ≠ none)
    (hkeeps : ∀ j x, n.Live j x → (j = i → w.conn.store.lookup x.localSEID = some x) →
      IPPool.leased w.upf.ippool x.localSEID = n.leased x.localSEID) :
    (n.set i w b).Sound ∧ n.Keeps (n.set i w b) := by
  have hsame : ∀ j x, j ≠ i → ((n.set i w b).Live j x ↔ n.Live j x) := by
    intro j x hne
    simp only [Live, set_conn_of_ne n hne, set_busy_of_ne n hne]
  have hself : (n.set i w b).conn i = w.conn := by simp [Node.set]
  -- A session of the handler and one of another association.
  have hapart : ∀ j x y, j ≠ i → (n.set i w b).Live i x → n.Live j y →
      x.localSEID ≠ y.localSEID := by
    intro j x y hne hx hy heq
    rcases hseids x hx with ⟨z, hz, hzx⟩ | hunused
    · exact hne (h.apart i j z y hz hy (hzx.trans heq)).symm
    · exact hunused.2 j y hy heq.symm
  refine ⟨⟨hexclusive, ?_, ?_, ?_, ?_, ?_⟩, ?_⟩
  · intro j
    by_cases hj : j = i
    · rw [hj, hself]
      exact hlisted
    · rw [set_conn_of_ne n hj]
      exact h.listed j
  · intro j j' x y hx hy heq
    by_cases hj : j = i <;> by_cases hj' : j' = i
    · rw [hj, hj']
    · exact absurd heq (hapart j' x y hj' (hj ▸ hx) ((hsame j' y hj').mp hy))
    · exact absurd heq.symm (hapart j y x hj (hj' ▸ hy) ((hsame j x hj).mp hx))
    · exact h.apart j j' x y ((hsame j x hj).mp hx) ((hsame j' y hj').mp hy) heq
  · intro j d hbusy
    by_cases hj : j = i
    · subst hj
      rw [set_busy] at hbusy
      rw [hself]
      exact hwriting d hbusy
    · rw [set_busy_of_ne n hj] at hbusy
      rw [set_conn_of_ne n hj]
      exact h.writing j d hbusy
  · intro j x hbusy
    by_cases hj : j = i
    · subst hj
      rw [set_busy] at hbusy
      rw [hself]
      exact hending x hbusy
    · rw [set_busy_of_ne n hj] at hbusy
      rw [set_conn_of_ne n hj]
      exact h.ending j x hbusy
  · intro j x hx hg
    by_cases hj : j = i
    · exact hgiven x (hj ▸ hx) hg
    · have hx := (hsame j x hj).mp hx
      have hleased : (n.set i w b).leased x.localSEID = n.leased x.localSEID :=
        hkeeps j x hx fun heq => absurd heq hj
      rw [hleased]
      exact h.given j x hx hg
  · intro j y hy hy'
    refine hkeeps j y (.inl hy.1) fun heq => ?_
    subst heq
    rw [← hself]
    exact hy'.1

theorem exclusive_of_looked {seid : UInt64} {ippool ippool' : Option IPPool}
    (hlooked : IPPool.Looked seid ippool ippool') (h : ∀ p, ippool = some p → p.Exclusive) :
    ∀ p, ippool' = some p → p.Exclusive := by
  rcases hlooked with rfl | ⟨i, rfl, rfl⟩
  · exact h
  · rintro p hp
    rw [some.injEq] at hp
    exact hp ▸ (h i rfl).lookupOrAllocIP seid

theorem exclusive_releaseIP {seid : UInt64} {ippool : Option IPPool}
    (h : ∀ p, ippool = some p → p.Exclusive) :
    ∀ p, releaseIP ippool seid = some p → p.Exclusive := by
  intro p hp
  rcases map_eq_some_iff.mp hp with ⟨i, hi, rfl⟩
  exact (h i hi).release seid

theorem Sound.refuse (h : n.Sound) {sereq : SessionEstablishmentRequest}
    (hok : DrawsUnused conf n i) {reply : Reply SessionEstablishmentResponse} {w : World σ}
    (hbegin : beginEstablishment (conf i) sereq (n.world i) = (.error reply, w)) :
    (n.set i w .idle).Sound ∧ n.Keeps (n.set i w .idle) := by
  -- Whatever it did to the pool, the store is as before.
  suffices hbooks : w.conn.store = (n.conn i).store ∧
      (∀ p, w.upf.ippool = some p → p.Exclusive) ∧
      ∀ j x, n.Live j x → IPPool.leased w.upf.ippool x.localSEID = n.leased x.localSEID by
    rcases hbooks with ⟨hstore, hexclusive, hleased⟩
    have hlive : ∀ x, (n.set i w .idle).Live i x → n.Live i x := by
      intro x hx
      rw [live_set_idle, hstore] at hx
      exact .inl hx
    refine h.set hexclusive (hstore ▸ h.listed i) (fun x hx => Or.inl ⟨x, hlive x hx, rfl⟩)
      (by simp) (by simp) (fun x hx hg => ?_) (fun j x hx _ => hleased j x hx)
    rw [hleased i x (hlive x hx)]
    exact h.given i x (hlive x hx) hg
  rcases begin_cases (conf i) sereq (n.world i) with
    ⟨reply', rngPos, hcase, -⟩ |
    ⟨k, fseid, rngPos, res, -, hnew, hdrawn, hlooked,
      ⟨reply', hcase, -⟩ | ⟨m, -, -, hcase⟩⟩
  · rw [hcase, Prod.mk.injEq] at hbegin
    rw [← hbegin.2]
    exact ⟨rfl, h.exclusive, fun _ _ _ => rfl⟩
  · have hunused := hok _ hdrawn
    rw [hcase, Prod.mk.injEq] at hbegin
    rw [← hbegin.2]
    refine ⟨erase_of_lookup_eq_none hnew,
      exclusive_releaseIP (exclusive_of_looked hlooked h.exclusive), fun j x hx => ?_⟩
    have hne := hunused.2 j x hx
    exact (IPPool.leased_release_of_ne _ hne).trans (hlooked.leased_of_ne hne)
  · rw [hcase] at hbegin
    cases hbegin

theorem Sound.establish (h : n.Sound)
    {sereq : SessionEstablishmentRequest} (hok : DrawsUnused conf n i) {d : Draft} {w : World σ}
    (hbegin : beginEstablishment (conf i) sereq (n.world i) = (.ok d, w)) :
    (n.set i w (.writing d)).Sound ∧ n.Keeps (n.set i w (.writing d)) := by
  rcases begin_cases (conf i) sereq (n.world i) with
    ⟨reply', rngPos, hcase, -⟩ |
    ⟨k, fseid, rngPos, res, -, hnew, hdrawn, hlooked,
      ⟨reply', hcase, -⟩ | ⟨m, -, hreads, hcase⟩⟩
  · rw [hcase] at hbegin
    cases hbegin
  · rw [hcase] at hbegin
    cases hbegin
  · have hunused := hok _ hdrawn
    rw [hcase, Prod.mk.injEq, Except.ok.injEq] at hbegin
    rcases hbegin with ⟨rfl, rfl⟩
    set new : PFCPSession := { localSEID := (conf i).rng k, remoteSEID := fseid.seid }
    have hinstalled : (markEstablishment (m.create { session := new })).session =
        m.installed new := rfl
    have hseid : (m.installed new).localSEID = (conf i).rng k := by
      rw [Parsed.installed_eq rfl]
    have hleased : ∀ j x, n.Live j x →
        IPPool.leased res.1 x.localSEID = n.leased x.localSEID := fun j x hx =>
      hlooked.leased_of_ne (hunused.2 j x hx)
    have hlive : ∀ x, (n.set i ((n.world i).withDraws rngPos res)
        (.writing (markEstablishment (m.create { session := new })))).Live i x →
        n.Live i x ∨ x = m.installed new := by
      intro x hx
      rcases live_set.mp hx with hx | hx
      · exact .inl (.inl hx)
      · exact .inr (Option.some.inj hx).symm
    refine h.set (exclusive_of_looked hlooked h.exclusive) (h.listed i) (fun x hx => ?_)
      (fun d hd => ?_) (by simp) (fun x hx hg => ?_) (fun j x hx _ => hleased j x hx)
    · rcases hlive x hx with hx | rfl
      · exact .inl ⟨x, hx, rfl⟩
      · exact .inr (hseid ▸ hunused)
    · cases hd
      rw [hinstalled, hseid]
      exact hnew
    · rcases hlive x hx with hx | rfl
      · have hsame := hleased i x hx
        rw [show ((n.world i).withDraws rngPos res).upf.ippool = res.1 from rfl, hsame]
        exact h.given i x hx hg
      · -- A PDR with the flag has asked the pool.
        rcases hg with ⟨p, hp, hflag⟩
        rw [Parsed.installed_eq rfl] at hp
        rcases List.mem_map.mp hp with ⟨p₀, hp₀, rfl⟩
        rw [Parsed.markInstalled_eq] at hflag
        rcases List.forall₂_iff_get.mp hreads with ⟨hlen, hget⟩
        rcases mem_iff_get.mp hp₀ with ⟨idx, rfl⟩
        rcases hget idx.1 (by rw [hlen]; exact idx.2) idx.2 with ⟨pdi, -, hread⟩
        rw [hseid]
        exact isSome_iff_ne_none.mp (hread.alloc hflag)

theorem Sound.release (h : n.Sound) {x : PFCPSession} (hlive : n.Live i x)
    {w : World σ} (hstore : w.conn.store = (n.conn i).store.erase x.localSEID)
    (hpool : w.upf.ippool = releaseIP n.upf.ippool x.localSEID) :
    (n.set i w .idle).Sound ∧ n.Keeps (n.set i w .idle) := by
  have hback : ∀ y, w.conn.store.lookup y.localSEID = some y →
      n.Live i y ∧ y.localSEID ≠ x.localSEID := by
    intro y hy
    rw [hstore] at hy
    by_cases hseid : y.localSEID = x.localSEID
    · rw [hseid, lookup_erase] at hy
      cases hy
    · rw [lookup_erase_ne hseid] at hy
      exact ⟨.inl hy, hseid⟩
  have hleased : ∀ y : PFCPSession, y.localSEID ≠ x.localSEID →
      IPPool.leased w.upf.ippool y.localSEID = n.leased y.localSEID := by
    intro y hne
    rw [hpool]
    exact IPPool.leased_release_of_ne _ hne
  refine h.set ?_ ?_ (fun y hy => Or.inl ⟨y, (hback y (live_set_idle.mp hy)).1, rfl⟩) (by simp)
    (by simp) (fun y hy hg => ?_) (fun j y hy hstays => hleased y ?_)
  · rw [hpool]
    exact exclusive_releaseIP h.exclusive
  · rcases h.listed i with ⟨l, hl⟩
    rw [hstore]
    exact hl.erase_seid x.localSEID
  · rcases hback y (live_set_idle.mp hy) with ⟨hy, hne⟩
    rw [hleased y hne]
    exact h.given i y hy hg
  · intro heq
    have hj := h.apart j i y x hy hlive heq
    exact (hback y (hstays hj)).2 heq

theorem Sound.write (h : n.Sound) {d : Draft}
    (hbusy : n.busy i = .writing d) :
    (n.set i (writeEstablishment (conf i) dp d (n.world i)).2 .idle).Sound ∧
      n.Keeps (n.set i (writeEstablishment (conf i) dp d (n.world i)).2 .idle) := by
  have hnew := h.writing i d hbusy
  have hlive : n.Live i d.session := Or.inr (by rw [hbusy]; rfl)
  -- The session is stored, unless the store does not take it.
  have hput : ∀ w : World σ, w.conn = (n.conn i).put d.session →
      w.upf.ippool = n.upf.ippool → (n.set i w .idle).Sound ∧ n.Keeps (n.set i w .idle) := by
    intro w hconn hpool
    have hback : ∀ x, (n.set i w .idle).Live i x → n.Live i x := by
      intro x hx
      rw [live_set_idle, hconn] at hx
      by_cases hzero : d.session.localSEID = 0
      · rw [put_of_zero hzero] at hx
        exact .inl hx
      · rw [put_of_ne hzero] at hx
        by_cases hseid : x.localSEID = d.session.localSEID
        · rw [hseid, lookup_insert, some.injEq] at hx
          exact hx ▸ hlive
        · rw [lookup_insert_ne hseid] at hx
          exact .inl hx
    refine h.set (hpool ▸ h.exclusive) ?_ (fun x hx => Or.inl ⟨x, hback x hx, rfl⟩) (by simp)
      (by simp) (fun x hx => ?_) (fun j x _ _ => by rw [hpool]; rfl)
    · rcases h.listed i with ⟨l, hl⟩
      rw [hconn]
      by_cases hzero : d.session.localSEID = 0
      · rw [put_of_zero hzero]
        exact ⟨l, hl⟩
      · rw [put_of_ne hzero]
        exact hl.insert_any d.session
    · rw [hpool]
      exact h.given i x (hback x hx)
  rcases writeEstablishment_cases (conf i) dp d (n.world i) with
    ⟨-, -, hend⟩ | ⟨-, -, hend⟩ | ⟨-, response, -, hend⟩
  · rw [hend]
    exact hput _ rfl rfl
  · rw [hend]
    exact h.release hlive rfl rfl
  · rw [hend]
    exact hput _ rfl rfl

theorem Sound.send (h : n.Sound) {rules : PacketForwardingRules} {b : Busy}
    (hbusy : b = .idle ∨ ∃ x, b = .ending x ∧ (n.conn i).store.lookup x.localSEID = some x) :
    (n.set i ((n.world i).send dp .del rules {}).2 b).Sound ∧
      n.Keeps (n.set i ((n.world i).send dp .del rules {}).2 b) := by
  have hback : ∀ x, (n.set i ((n.world i).send dp .del rules {}).2 b).Live i x → n.Live i x := by
    intro x hx
    rcases live_set.mp hx with hx | hx
    · exact .inl hx
    · rcases hbusy with rfl | ⟨y, rfl, hy⟩
      · exact absurd hx (by simp [Busy.session])
      · rw [Busy.session, some.injEq] at hx
        exact .inl (hx ▸ hy)
  refine h.set h.exclusive (h.listed i) (fun x hx => Or.inl ⟨x, hback x hx, rfl⟩) (fun d hd => ?_)
    (fun x hx => ?_) (fun x hx => h.given i x (hback x hx)) (fun _ _ _ _ => rfl)
  · rcases hbusy with rfl | ⟨y, rfl, -⟩ <;> cases hd
  · rcases hbusy with rfl | ⟨y, rfl, hy⟩
    · cases hx
    · cases hx
      exact hy

theorem Sound.step {n' : Node σ ι} (h : n.Sound) (hstep : Step conf dp (DrawsUnused conf) n n') :
    n'.Sound ∧ n.Keeps n' := by
  cases hstep with
  | refuse i sereq hidle hok hbegin => exact h.refuse conf hok hbegin
  | establish i sereq hidle hok hbegin => exact h.establish conf hok hbegin
  | write i hbusy => exact h.write conf dp hbusy
  | deleteFails => exact h.send dp (.inl rfl)
  | @delete i hidle hshut seid stored hstored =>
    rcases h.listed i with ⟨l, hl⟩
    exact h.send dp (.inr ⟨stored, rfl, by rw [hl.seid_of_lookup hstored]; exact hstored⟩)
  | @cleanup i stored hbusy => exact h.release (.inr (by rw [hbusy]; rfl)) rfl rfl

omit [DecidableEq ι] in
theorem Start.sound (h : n.Start) : n.Sound := by
  have hlive : ∀ i x, ¬n.Live i x := by
    intro i x hx
    rcases hx with hx | hx
    · simp [h.store i] at hx
    · simp [h.busy i, Busy.session] at hx
  refine ⟨?_, ?_, ?_, ?_, ?_, ?_⟩
  · intro p hp
    rcases h.pool p hp with ⟨parseCIDR, poolSubnet, hnew⟩
    exact IPPool.exclusive_newIPPool hnew
  · exact fun i => ⟨[], h.store i ▸ .empty⟩
  · exact fun i _ x _ hx => absurd hx (hlive i x)
  · intro i d hd
    exact absurd ((h.busy i).symm.trans hd) (by simp)
  · intro i x hx
    exact absurd ((h.busy i).symm.trans hx) (by simp)
  · exact fun i x hx => absurd hx (hlive i x)

theorem Sound.runs {n₀ : Node σ ι} (h : n₀.Sound)
    (hruns : Runs conf dp (DrawsUnused conf) n₀ n) : n.Sound := by
  induction hruns with
  | refl => exact h
  | tail _ hstep ih => exact (ih.step conf dp hstep).1

/-! ## The property -/

/-- In every run in which no establishment draws a SEID that is in use anywhere,
two stored sessions that were given addresses hold different ones, and no step
takes the address from a session that lives on. -/
theorem addresses_exclusive {n₀ n : Node σ ι} (hstart : n₀.Start)
    (hruns : Runs conf dp (DrawsUnused conf) n₀ n) :
    (∀ i j x y, n.Holds i x → n.Holds j y → (i, x.localSEID) ≠ (j, y.localSEID) →
      ∃ a b, n.leased x.localSEID = some a ∧ n.leased y.localSEID = some b ∧ a ≠ b) ∧
    ∀ n', Step conf dp (DrawsUnused conf) n n' →
      ∀ j y, n.Holds j y → n'.Holds j y → n'.leased y.localSEID = n.leased y.localSEID := by
  have hsound := hstart.sound.runs conf dp hruns
  refine ⟨?_, fun n' hstep => (hsound.step conf dp hstep).2⟩
  intro i j x y hx hy hne
  have hseids : x.localSEID ≠ y.localSEID := by
    intro heq
    have hij := hsound.apart i j x y (.inl hx.1) (.inl hy.1) heq
    exact hne (by rw [hij, heq])
  rcases ne_none_iff_exists'.mp (hsound.given i x (.inl hx.1) hx.2) with ⟨a, ha⟩
  rcases ne_none_iff_exists'.mp (hsound.given j y (.inl hy.1) hy.2) with ⟨b, hb⟩
  refine ⟨a, b, ha, hb, ?_⟩
  rintro rfl
  -- One address under two SEIDs.
  simp only [leased, IPPool.leased, bind_eq_some_iff] at ha hb
  rcases ha with ⟨p, hp, ha⟩
  rcases hb with ⟨q, hq, hb⟩
  have hpq : p = q := Option.some.inj (hp.symm.trans hq)
  subst hpq
  exact hseids ((hsound.exclusive p hp).injective _ _ a ha hb)

end Steps

/-! ## Small runs -/

def sample : Node (List (Cause × Bool)) Bool where
  upf :=
    { ippool := some ⟨[[10, 60, 0, 1], [10, 60, 0, 2]], ∅⟩, fteidGenerator := {}, datapath := [] }
  conn _ := { store := ∅, isShutdown := false, sessions := 0, rngPos := 0 }
  busy _ := .idle

theorem sample_start : sample.Start where
  pool p hp := by
    refine ⟨fun _ => .ok ([10, 60, 0, 0], [255, 255, 255, 252]), "10.60.0.0/30", ?_⟩
    rw [← Option.some.inj hp]
    have hsubnet : subnetFrom [10, 60, 0, 0] [255, 255, 255, 252] (256 ^ 4) [10, 60, 0, 0] =
        [[10, 60, 0, 0], [10, 60, 0, 1], [10, 60, 0, 2], [10, 60, 0, 3]] := by decide
    have hnetwork : maskIP [255, 255, 255, 252] [10, 60, 0, 0] = [10, 60, 0, 0] := by decide
    simp only [IPPool.newIPPool, hnetwork, length_cons, length_nil, Nat.zero_add,
      Nat.reduceAdd, hsubnet]
    rfl
  store _ := rfl
  busy _ := rfl

def sampleRequest : SessionEstablishmentRequest := .sample [.downlink 1 .choose] [.sample 1 2] []

def attach (conf : Bool → AgentConf) (i : Bool) (n : Node (List (Cause × Bool)) Bool) :
    Node (List (Cause × Bool)) Bool :=
  n.set i (handleSessionEstablishmentRequest (conf i) scripted sampleRequest (n.world i)).2 .idle

def detach (i : Bool) (seid : UInt64) (n : Node (List (Cause × Bool)) Bool) :
    Node (List (Cause × Bool)) Bool :=
  n.set i (handleSessionDeletionRequest scripted ⟨seid⟩ (n.world i)).2 .idle

def storesGiven (n : Node (List (Cause × Bool)) Bool) (i : Bool) (seid : UInt64) : Bool :=
  match (n.conn i).store.lookup seid with
  | none => false
  | some x => x.localSEID == seid && x.rules.pdrs.any fun p => p.allocIPFlag

theorem holds_of_storesGiven {n : Node (List (Cause × Bool)) Bool} {i : Bool} {seid : UInt64}
    (h : n.storesGiven i seid = true) : ∃ x, n.Holds i x ∧ x.localSEID = seid := by
  unfold storesGiven at h
  split at h
  · cases h
  · next x hx =>
    simp only [Bool.and_eq_true, beq_iff_eq, List.any_eq_true] at h
    exact ⟨x, ⟨h.1.symm ▸ hx, h.2⟩, h.1⟩

/-- Both associations draw the SEID one.  Their sessions share an address, and the
deletion of one session takes it from the other. -/
theorem seid_collision :
    let n := attach (fun _ => .sample) true (attach (fun _ => .sample) false sample)
    sample.Start ∧ Runs (fun _ => .sample) scripted (fun _ _ => True) sample n ∧
    (∃ x y, n.Holds false x ∧ n.Holds true y ∧ n.leased x.localSEID = some [10, 60, 0, 1] ∧
      n.leased y.localSEID = some [10, 60, 0, 1]) ∧
    Runs (fun _ => .sample) scripted (fun _ _ => True) n (detach false 1 n) ∧
    ∃ y, (detach false 1 n).Holds true y ∧ (detach false 1 n).leased y.localSEID = none := by
  intro n
  have h₁ := establishment_steps (n := sample) (i := false) (fun _ => .sample) scripted
    (fun _ _ => True) rfl trivial sampleRequest
  have h₂ := establishment_steps (n := attach (fun _ => .sample) false sample) (i := true)
    (fun _ => .sample) scripted (fun _ _ => True) rfl trivial sampleRequest
  have hfirst : n.storesGiven false 1 = true := by decide
  have hsecond : n.storesGiven true 1 = true := by decide
  have hlater : (detach false 1 n).storesGiven true 1 = true := by decide
  rcases holds_of_storesGiven hfirst with ⟨x, hx, hseid⟩
  rcases holds_of_storesGiven hsecond with ⟨y, hy, hseid'⟩
  rcases holds_of_storesGiven hlater with ⟨z, hz, hseid''⟩
  refine ⟨sample_start, h₁.trans h₂, ⟨x, y, hx, hy, ?_, ?_⟩,
    deletion_steps (fun _ => .sample) scripted (fun _ _ => True) rfl ⟨1⟩, z, hz, ?_⟩
  · rw [hseid]
    decide
  · rw [hseid']
    decide
  · rw [hseid'']
    decide

theorem unused_of_idle {σ ι : Type} {n : Node σ ι} {seid : UInt64}
    (hbusy : ∀ i, n.busy i = .idle) (hleased : n.leased seid = none)
    (hstore : ∀ i, (n.conn i).store.lookup seid = none) : n.Unused seid := by
  refine ⟨hleased, fun i x hx heq => ?_⟩
  rcases hx with hx | hx
  · rw [heq, hstore i] at hx
    cases hx
  · rw [hbusy i] at hx
    exact absurd hx (by simp [Busy.session])

/-- Two associations whose random sources yield different SEIDs. -/
def sampleConf : Bool → AgentConf
  | false => .sample
  | true => { AgentConf.sample with rng := fun k => k.toUInt64 + 5 }

/-- Their sessions get different addresses. -/
theorem addresses_exclusive_two :
    let n := attach sampleConf true (attach sampleConf false sample)
    ∃ x y, n.Holds false x ∧ n.Holds true y ∧
      ∃ a b, n.leased x.localSEID = some a ∧ n.leased y.localSEID = some b ∧ a ≠ b := by
  intro n
  have hok₁ : DrawsUnused sampleConf sample false := by
    intro seid hdrawn
    have hone : seid = 1 := Option.some.inj (hdrawn.symm.trans (by decide))
    subst hone
    exact unused_of_idle (fun _ => rfl) rfl fun _ => rfl
  have hok₂ : DrawsUnused sampleConf (attach sampleConf false sample) true := by
    intro seid hdrawn
    have hfive : seid = 5 := Option.some.inj (hdrawn.symm.trans (by decide))
    subst hfive
    exact unused_of_idle (fun i => by cases i <;> rfl) (by decide) (by decide)
  have h₁ := establishment_steps sampleConf scripted (DrawsUnused sampleConf) rfl hok₁
    sampleRequest
  have h₂ := establishment_steps sampleConf scripted (DrawsUnused sampleConf) rfl hok₂
    sampleRequest
  have hfirst : n.storesGiven false 1 = true := by decide
  have hsecond : n.storesGiven true 5 = true := by decide
  rcases holds_of_storesGiven hfirst with ⟨x, hx, hseid⟩
  rcases holds_of_storesGiven hsecond with ⟨y, hy, hseid'⟩
  exact ⟨x, y, hx, hy, (addresses_exclusive sampleConf scripted sample_start (h₁.trans h₂)).1
    false true x y hx hy (by simp)⟩

end Node

end Upf
