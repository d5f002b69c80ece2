import Upf.Lib.Ownership
import Upf.Pfcp.Tunnel
import Upf.Session.Teardown

/-!
# Who holds the F-TEIDs

A PDR that was marked when it was read holds the TEID it has as one of this
node's.  An establishment draws these TEIDs from the generator while it reads its
Create PDRs.
-/

namespace Upf

open Lib KeyedList List AList PFCPConn

/-! ## Holders -/

def Tunnel.fteid? (t : Tunnel) : Option UInt32 :=
  if t.upAllocateFteid then some t.tunnelTEID else none

def Pdr.fteid? (p : Pdr) : Option UInt32 := p.tunnel.fteid?

def fteidsOf (ps : List Pdr) : List UInt32 := ps.filterMap Pdr.fteid?

def PFCPSession.fteids (x : PFCPSession) : List UInt32 := fteidsOf x.rules.pdrs

def PFCPConn.fteids (conn : PFCPConn) (seid : UInt64) : List UInt32 :=
  ((conn.store.lookup seid).map PFCPSession.fteids).getD []

theorem fteidsOf_eq (ps : List Pdr) :
    fteidsOf ps = (ps.map Pdr.tunnel).filterMap Tunnel.fteid? := by
  rw [filterMap_map]
  rfl

theorem markPdr_tunnel (pdrs : List Pdr) (qers : List Qer) (p : Pdr) :
    (markPdr pdrs qers p).tunnel = p.tunnel := by
  rw [markPdr_eq]
  rfl

theorem markSessionQer_tunnels (pdrs : List Pdr) (qers : List Qer) :
    (markSessionQer pdrs qers).1.map Pdr.tunnel = pdrs.map Pdr.tunnel := by
  rw [markSessionQer_pdrs, map_map]
  exact map_congr_left fun p _ => markPdr_tunnel pdrs qers p

theorem markEstablishment_tunnels (d : Draft) :
    (markEstablishment d).session.rules.pdrs.map Pdr.tunnel =
      d.session.rules.pdrs.map Pdr.tunnel := by
  simp only [markEstablishment, PFCPSession.markSessionQer, markSessionQer_tunnels]

section Store

variable {conn conn' : PFCPConn} {seid : UInt64} {x : PFCPSession}

theorem PFCPConn.fteids_of_some (h : conn.store.lookup seid = some x) :
    conn.fteids seid = x.fteids := by
  simp [fteids, h]

theorem PFCPConn.fteids_of_none (h : conn.store.lookup seid = none) : conn.fteids seid = [] := by
  simp [fteids, h]

theorem PFCPConn.fteids_congr (h : conn'.store = conn.store) : conn'.fteids = conn.fteids := by
  funext seid
  rw [fteids, fteids, h]

theorem PFCPConn.fteids_put_self (h : x.localSEID ≠ 0) :
    (conn.put x).fteids x.localSEID = x.fteids :=
  fteids_of_some (lookup_put_self conn h)

theorem PFCPConn.fteids_put_of_ne (h : seid ≠ x.localSEID) :
    (conn.put x).fteids seid = conn.fteids seid := by
  by_cases hzero : x.localSEID = 0
  · rw [put_of_zero hzero]
  · rw [put_of_ne hzero, fteids, fteids, lookup_insert_ne h]

theorem PFCPConn.fteids_erase_self (h : conn'.store = conn.store.erase seid) :
    conn'.fteids seid = [] :=
  fteids_of_none (by rw [h, lookup_erase])

theorem PFCPConn.fteids_erase_of_ne {seid' : UInt64} (h : conn'.store = conn.store.erase seid)
    (hne : seid' ≠ seid) : conn'.fteids seid' = conn.fteids seid' := by
  rw [fteids, fteids, h, lookup_erase_ne hne]

def PFCPConn.Keyed (conn : PFCPConn) : Prop :=
  ∀ seid x, conn.store.lookup seid = some x → x.localSEID = seid

theorem PFCPConn.Keyed.put (h : conn.Keyed) (x : PFCPSession)
    (hstore : conn'.store = (conn.put x).store) : conn'.Keyed := by
  intro seid y hy
  rw [hstore] at hy
  by_cases hzero : x.localSEID = 0
  · rw [put_of_zero hzero] at hy
    exact h seid y hy
  · rw [put_of_ne hzero] at hy
    by_cases hseid : seid = x.localSEID
    · subst hseid
      rw [lookup_insert] at hy
      rw [← Option.some.inj hy]
    · rw [lookup_insert_ne hseid] at hy
      exact h seid y hy

theorem PFCPConn.Keyed.sub (h : conn.Keyed)
    (hsub : ∀ seid x, conn'.store.lookup seid = some x → conn.store.lookup seid = some x) :
    conn'.Keyed :=
  fun seid x hx => h seid x (hsub seid x hx)

theorem lookup_of_lookup_erase {store : Store} {seid seid' : UInt64}
    (h : (store.erase seid').lookup seid = some x) : store.lookup seid = some x := by
  by_cases hseid : seid = seid'
  · rw [hseid, lookup_erase] at h
    cases h
  · rwa [lookup_erase_ne hseid] at h

theorem PFCPConn.Keyed.books {σ : Type} {conf : AgentConf} {msg : Message} {w w' : World σ}
    (h : w.conn.Keyed) (hbooks : Books conf msg w w') : w'.conn.Keyed := by
  have hsame : w'.conn.store = w.conn.store → w'.conn.Keyed :=
    fun hstore => h.sub fun seid x hx => hstore ▸ hx
  cases hbooks with
  | unchanged _ hstore => exact hsame hstore
  | born session _ _ _ _ hstore => exact h.put session hstore
  | aborted _ _ _ _ _ _ _ hstore => exact hsame hstore
  | touched _ _ _ _ hstore =>
    rcases hstore with hstore | ⟨session, -, hstore⟩
    · exact hsame hstore
    · exact h.put session hstore
  | ended _ _ _ _ hstore =>
    exact h.sub fun seid x hx => lookup_of_lookup_erase (hstore ▸ hx)

end Store

/-! ## What an establishment draws -/

/-- The generator has handed out some identifiers that were not in use. -/
structure Drawn (g : FTEIDGenerator) (ids : List UInt32) (g' : FTEIDGenerator) : Prop where
  wf : g'.Wf
  nodup : ids.Nodup
  fresh : ∀ id ∈ ids, g.isAllocated id = false
  used : ∀ id, g'.isAllocated id = true ↔ g.isAllocated id = true ∨ id ∈ ids

namespace Drawn

variable {g g₁ g₂ : FTEIDGenerator} {ids ids' : List UInt32}

theorem refl (h : g.Wf) : Drawn g [] g := ⟨h, by simp, by simp, by simp⟩

theorem allocate (h : g.Wf) {id : UInt32} (halloc : g.allocate = (.ok id, g₁)) :
    Drawn g [id] g₁ := by
  rcases FTEIDGenerator.allocate_ok h halloc with ⟨-, hfresh, hwf, hused⟩
  exact ⟨hwf, by simp, by simpa using hfresh, by simpa using hused⟩

theorem append (h : Drawn g ids g₁) (h' : Drawn g₁ ids' g₂) : Drawn g (ids ++ ids') g₂ where
  wf := h'.wf
  nodup := by
    refine List.Nodup.append h.nodup h'.nodup ?_
    intro id hid hid'
    have hused := (h.used id).mpr (.inr hid)
    rw [h'.fresh id hid'] at hused
    cases hused
  fresh id hid := by
    rcases mem_append.mp hid with hid | hid
    · exact h.fresh id hid
    · have hfresh := h'.fresh id hid
      rw [Bool.eq_false_iff] at hfresh ⊢
      exact fun hused => hfresh ((h.used id).mpr (.inl hused))
  used id := by
    rw [h'.used, h.used, mem_append, or_assoc]

end Drawn

section Reading

variable {conf : AgentConf} {seid : UInt64} {fseidIP : UInt32} {res res' : Resources}

def Tunnel.chosen (conf : AgentConf) (fteid : UInt32) : Tunnel where
  upAllocateFteid := true
  tunnelTEID := fteid
  tunnelTEIDMask := 0xFFFFFFFF
  tunnelIP4Dst := ip2int conf.addresses.accessIP
  tunnelIP4DstMask := 0xFFFFFFFF

/-- The tunnel of a PDR of an establishment, given the TEID it was drawn if the
choice is this node's. -/
def PdrIE.tunnelWith (conf : AgentConf) (ie : PdrIE) (fteid : UInt32) : Tunnel :=
  if ie.choosesFteid then Tunnel.chosen conf fteid else ie.fteids.foldl Tunnel.read {}

/-- The TEIDs Create PDRs will be drawn, in order. -/
def drawEach (g : FTEIDGenerator) : List PdrIE → List (Option UInt32)
  | [] => []
  | ie :: ies =>
    if ie.choosesFteid then g.allocate.1.toOption :: drawEach g.allocate.2 ies
    else none :: drawEach g ies

structure TunnelsRead (conf : AgentConf) (g : FTEIDGenerator) (ies : List PdrIE)
    (ts : List Tunnel) (g' : FTEIDGenerator) : Prop where
  drawn : Drawn g (ts.filterMap Tunnel.fteid?) g'
  ids : ts.map Tunnel.fteid? = drawEach g ies
  tunnels : List.Forall₂ (fun ie t => t = ie.tunnelWith conf t.tunnelTEID) ies ts

theorem readCreatePDR_generator {ie : PdrIE} {p : Pdr}
    (h : readCreatePDR conf seid fseidIP ie res = (.ok p, res')) :
    (if ie.choosesFteid then res.2.allocate.2 else res.2) = res'.2 := by
  rcases readCreatePDR_parsed h with
    ⟨p₀, ippool, hparse, ⟨hchoose, fteid, gen, halloc, rfl, rfl⟩ | ⟨hchoose, rfl, rfl⟩⟩
  · rw [← parsePDR_upAllocateFteid hparse, if_pos hchoose, halloc]
  · rw [← parsePDR_upAllocateFteid hparse, hchoose]
    rfl

theorem readCreatePDR_tunnel {ie : PdrIE} {p : Pdr} (hwf : res.2.Wf)
    (h : readCreatePDR conf seid fseidIP ie res = (.ok p, res')) :
    TunnelsRead conf res.2 [ie] [p.tunnel] res'.2 := by
  rcases readCreatePDR_parsed h with
    ⟨p₀, ippool, hparse, ⟨hchoose, fteid, gen, halloc, rfl, rfl⟩ | ⟨hchoose, rfl, rfl⟩⟩
  · have hie : ie.choosesFteid = true := parsePDR_upAllocateFteid hparse ▸ hchoose
    have hp : Pdr.tunnel { setFteid conf p₀ fteid with fseidIP } =
        Tunnel.chosen conf fteid := by
      simp only [Pdr.tunnel, setFteid, Tunnel.chosen, hchoose]
    rw [hp]
    refine ⟨.allocate hwf halloc, ?_, .cons ?_ .nil⟩
    · simp only [drawEach, hie, halloc, if_true]
      rfl
    · simp [PdrIE.tunnelWith, hie, Tunnel.chosen]
  · have hie : ie.choosesFteid = false := parsePDR_upAllocateFteid hparse ▸ hchoose
    have hnone : p₀.tunnel.fteid? = none := by simp [Tunnel.fteid?, Pdr.tunnel, hchoose]
    change TunnelsRead conf res.2 [ie] [p₀.tunnel] res.2
    refine ⟨?_, ?_, .cons ?_ .nil⟩
    · simpa [hnone] using Drawn.refl hwf
    · simp [drawEach, hie, hnone]
    · simp only [PdrIE.tunnelWith, hie, Bool.false_eq_true, if_false, parsePDR_tunnel hparse]

theorem readCreatePDRs_tunnels {ies : List PdrIE} {d d' : Draft} (hwf : res.2.Wf)
    (h : readEach (readCreatePDR conf seid fseidIP) Draft.createPDR ies d res = (.ok d', res')) :
    ∃ ps : List Pdr, d' = ps.foldl Draft.createPDR d ∧
      TunnelsRead conf res.2 ies (ps.map Pdr.tunnel) res'.2 := by
  induction ies generalizing d res with
  | nil =>
    simp only [readEach, Prod.mk.injEq, Except.ok.injEq] at h
    rcases h with ⟨rfl, rfl⟩
    exact ⟨[], rfl, .refl hwf, rfl, .nil⟩
  | cons ie ies ih =>
    rcases andThen_ok h with ⟨p, res₁, hread, hloop⟩
    have hone := readCreatePDR_tunnel hwf hread
    rcases ih hone.drawn.wf hloop with ⟨ps, rfl, hrest⟩
    refine ⟨p :: ps, rfl, ?_, ?_, ?_⟩
    · have hsplit : ((p :: ps).map Pdr.tunnel).filterMap Tunnel.fteid? =
          [p.tunnel].filterMap Tunnel.fteid? ++ (ps.map Pdr.tunnel).filterMap Tunnel.fteid? := by
        rw [← filterMap_append]
        rfl
      rw [hsplit]
      exact hone.drawn.append hrest.drawn
    · have hfirst := hone.ids
      have hgen : (if ie.choosesFteid then res.2.allocate.2 else res.2) = res₁.2 :=
        readCreatePDR_generator hread
      simp only [drawEach, map_cons, map_nil] at hfirst ⊢
      rw [hrest.ids]
      cases hie : ie.choosesFteid with
      | true =>
        simp only [hie, if_true, List.cons.injEq, and_true] at hfirst hgen ⊢
        rw [hfirst, hgen]
        exact ⟨rfl, rfl⟩
      | false =>
        simp only [hie, Bool.false_eq_true, if_false, List.cons.injEq, and_true] at hfirst hgen ⊢
        rw [hfirst, hgen]
        exact ⟨rfl, rfl⟩
    · cases hone.tunnels with
      | cons hie => exact .cons hie hrest.tunnels

theorem readEstablishment_tunnels {sereq : SessionEstablishmentRequest} {d d' : Draft}
    (hwf : res.2.Wf) (hnew : d.session.rules.pdrs = [])
    (h : readEstablishment conf seid fseidIP sereq d res = (.ok d', res')) :
    TunnelsRead conf res.2 sereq.createPDR (d'.session.rules.pdrs.map Pdr.tunnel) res'.2 := by
  rcases andThen_ok h with ⟨d₁, res₁, hpdr, hrest⟩
  obtain rfl : res₁ = res' := by rw [← readFARsQERs_resources _ _ d₁ res₁, hrest]
  rcases readCreatePDRs_tunnels hwf hpdr with ⟨ps, rfl, htunnels⟩
  rcases andThen_ok hrest with ⟨_, _, hfar, hqer⟩
  rcases readEach_ok_reads hfar with ⟨fs, rfl, -⟩
  rcases readEach_ok_reads hqer with ⟨qs, rfl, -⟩
  simpa [foldl_createQER, foldl_createFAR, foldl_createPDR, hnew] using htunnels

theorem readCreatePDR_generator_of_not {ie : PdrIE} (hchoose : ie.choosesFteid = false)
    (res : Resources) : (readCreatePDR conf seid fseidIP ie res).2.2 = res.2 := by
  unfold readCreatePDR
  rcases hparse : parsePDR ie seid conf.appPFDs res.1 with ⟨f | p, ippool⟩
  · rfl
  · have hmark : p.upAllocateFteid = false := (parsePDR_upAllocateFteid hparse).trans hchoose
    simp [hmark]

variable (conf seid fseidIP) in
theorem readEstablishment_generator {sereq : SessionEstablishmentRequest}
    (hchoose : ∀ ie ∈ sereq.createPDR, ie.choosesFteid = false) (d : Draft) (res : Resources) :
    (readEstablishment conf seid fseidIP sereq d res).2.2 = res.2 := by
  rw [readEstablishment_resources]
  exact readEach_resource_of_mem (fun p q : Resources => q.2 = p.2) (fun _ => rfl)
    (fun _ _ _ h h' => h'.trans h) _
    (fun ie hie res => readCreatePDR_generator_of_not (hchoose ie hie) res) d res

end Reading

section Begin

variable {σ : Type} {conf : AgentConf} {sereq : SessionEstablishmentRequest} {w w' : World σ}

theorem beginEstablishment_tunnels {d : Draft} (hwf : w.upf.fteidGenerator.Wf)
    (h : beginEstablishment conf sereq w = (.ok d, w')) :
    TunnelsRead conf w.upf.fteidGenerator sereq.createPDR
      (d.session.rules.pdrs.map Pdr.tunnel) w'.upf.fteidGenerator := by
  unfold beginEstablishment at h
  cases hcheck : checkEstablishment conf sereq w.conn with
  | error => simp [hcheck] at h
  | ok fseid =>
    simp only [hcheck] at h
    rcases newPFCPSession_cases conf.rng fseid.seid conf.maxRetries w.conn with
      ⟨n, hnone | ⟨i, -, -, hsome⟩⟩
    · simp [hnone] at h
    · simp only [hsome] at h
      rcases hread : readEstablishment conf (conf.rng i) (ip2int fseid.ipv4Address) sereq
        { session := { localSEID := conf.rng i, remoteSEID := fseid.seid } }
        (w.upf.ippool, w.upf.fteidGenerator) with ⟨refusal | d₀, res⟩
      · simp [hread] at h
      · simp only [hread, Prod.mk.injEq, Except.ok.injEq] at h
        rcases h with ⟨rfl, rfl⟩
        rw [markEstablishment_tunnels]
        exact readEstablishment_tunnels hwf rfl hread

theorem beginEstablishment_drawn {d : Draft} (hwf : w.upf.fteidGenerator.Wf)
    (h : beginEstablishment conf sereq w = (.ok d, w')) :
    Drawn w.upf.fteidGenerator d.session.fteids w'.upf.fteidGenerator := by
  rw [PFCPSession.fteids, fteidsOf_eq]
  exact (beginEstablishment_tunnels hwf h).drawn

variable (conf) in
theorem beginEstablishment_generator
    (hchoose : ∀ ie ∈ sereq.createPDR, ie.choosesFteid = false) (w : World σ) :
    (beginEstablishment conf sereq w).2.upf.fteidGenerator = w.upf.fteidGenerator := by
  unfold beginEstablishment
  cases checkEstablishment conf sereq w.conn with
  | error => rfl
  | ok fseid =>
    dsimp only
    rcases w.conn.newPFCPSession conf.rng fseid.seid conf.maxRetries with ⟨_ | session, conn⟩
    · rfl
    · have hgen := readEstablishment_generator conf session.localSEID
        (ip2int fseid.ipv4Address) hchoose { session } (w.upf.ippool, w.upf.fteidGenerator)
      dsimp only
      cases (readEstablishment conf session.localSEID (ip2int fseid.ipv4Address) sereq
        { session } (w.upf.ippool, w.upf.fteidGenerator)).1 <;> exact hgen

variable (conf sereq) in
theorem beginEstablishment_store (w : World σ) :
    (beginEstablishment conf sereq w).2.conn.store = w.conn.store := by
  rcases begin_cases conf sereq w with
    ⟨_, _, hbegin, -⟩ | ⟨_, _, _, _, -, hnew, -, -, ⟨_, hbegin, -⟩ | ⟨_, -, -, hbegin⟩⟩
  · rw [hbegin]
  · rw [hbegin]
    exact erase_of_lookup_eq_none hnew
  · rw [hbegin]
    rfl

theorem beginEstablishment_fresh {d : Draft} (h : beginEstablishment conf sereq w = (.ok d, w')) :
    w.conn.store.lookup d.session.localSEID = none := by
  rcases begin_cases conf sereq w with
    ⟨_, _, hbegin, -⟩ | ⟨i, fseid, _, _, -, hnew, -, -, ⟨_, hbegin, -⟩ | ⟨m, -, -, hbegin⟩⟩
  · simp [h] at hbegin
  · simp [h] at hbegin
  · simp only [h, Prod.mk.injEq, Except.ok.injEq] at hbegin
    rw [hbegin.1, Parsed.create_draft]
    exact hnew

end Begin

end Upf
