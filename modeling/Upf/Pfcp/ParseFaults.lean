import Upf.Lib.Loop
import Upf.Pfcp.PfdManagement

/-!
# Where reading a PDR faults

Reading a PDR is meant to end in a PDR or in an error.  Two things bring the
process down instead.  A UE address IE that leaves the choice to this node asks
the pool, also where no pool is configured.  A flow description need not name its
two networks in order to parse, and the filters read both.

The condition under which this happens is stated over the message, the
application filters and the pool: an IE or a description of this kind comes up
before anything that ends the reading with an error.

Main result: `parsePDR_returns_iff`.
-/

namespace Upf

open Lib List AList

/-! ## The networks of a flow description -/

def Endpoint.Sized (ep : Endpoint) : Prop := ∀ net, ep.ipNet = some net → 4 ≤ net.mask.length

theorem length_of_mapM_some {A B : Type} {f : A → Option B} {as : List A} {bs : List B}
    (h : as.mapM f = some bs) : bs.length = as.length := by
  induction as generalizing bs with
  | nil =>
    cases h
    rfl
  | cons a as ih =>
    rw [mapM_cons] at h
    obtain ⟨b, _, h⟩ := Option.bind_eq_some_iff.mp h
    obtain ⟨bs', hbs, h⟩ := Option.bind_eq_some_iff.mp h
    cases h
    rw [length_cons, length_cons, ih hbs]

theorem parseIPv4Fields_length {s : Text} {ip : IP} (h : parseIPv4Fields s = some ip) :
    ip.length = 4 := by
  simp only [parseIPv4Fields] at h
  split at h
  case isTrue hfour =>
    rw [← hfour]
    exact length_of_mapM_some h
  case isFalse => cases h

theorem parseIPv6_length {s : Text} {ip : IP} (h : parseIPv6 s = some ip) : 16 ≤ ip.length := by
  unfold parseIPv6 at h
  obtain ⟨⟨out, ellipsis⟩, _, hout⟩ := Option.bind_eq_some_iff.mp h
  cases ellipsis with
  | none =>
    simp only at hout
    split at hout
    · cases hout
    · cases hout
      omega
  | some =>
    simp only at hout
    split at hout
    · cases hout
      simp only [length_append, length_take, length_replicate, length_drop]
      omega
    · cases hout

theorem parseAddr_length {s : Text} {ip : IP} (h : parseAddr s = some ip) : 4 ≤ ip.length := by
  unfold parseAddr at h
  split at h
  · cases h
  · split at h
    · exact Nat.le_of_eq (parseIPv4Fields_length h).symm
    · exact Nat.le_trans (by decide) (parseIPv6_length h)
    · cases h

theorem parseCIDR_mask {s : Text} {net : IPNet} (h : parseCIDR s = some net) :
    4 ≤ net.mask.length := by
  unfold parseCIDR at h
  split at h
  case h_1 addr mask _ =>
    obtain ⟨ip, hip, h⟩ := Option.bind_eq_some_iff.mp h
    obtain ⟨n, _, h⟩ := Option.bind_eq_some_iff.mp h
    split at h
    · cases h
      rw [cidrMask, length_map, length_range]
      exact parseAddr_length hip
    · cases h
  case h_2 => cases h

variable {ep ep' : Endpoint} {ipf ipf' : IpFilterRule} {rest : List Text} {ueIP word : Text}

theorem parseNet_ok {text : Text} (h : ep.parseNet text = .ok ep') :
    ep'.ipNet.isSome ∧ ep'.Sized := by
  unfold Endpoint.parseNet at h
  simp only at h
  split at h
  · cases h
  · split at h
    case h_1 net hnet =>
      cases h
      refine ⟨rfl, ?_⟩
      rintro net' ⟨rfl⟩
      exact parseCIDR_mask hnet
    case h_2 => cases h

theorem parsePort_ok {text : Text} (h : ep.parsePort text = .ok ep') :
    ep'.ipNet = ep.ipNet := by
  have hrange {lowText highText : Text}
      (h : (do
        let low ← parseUint lowText 16
        let high ← parseUint highText 16
        if low > high then
          .error (.invalidArgumentWithReason "port" (.text (String.ofList text))
            "invalid port range")
        else return { ep with
          ports := newRangeMatchPortRange (UInt16.ofNat low) (UInt16.ofNat high) }) =
        Except.ok (ε := GoError) ep') : ep'.ipNet = ep.ipNet := by
    obtain ⟨low, _, h⟩ := bind_ok h
    obtain ⟨high, _, h⟩ := bind_ok h
    split at h
    · cases h
    · cases h
      rfl
  simp only [Endpoint.parsePort] at h
  split at h
  · exact hrange h
  · exact hrange h
  · cases h

def IsKeyword (word : Text) : Prop := word = wordFrom ∨ word = wordTo

theorem xform_keyword (h : IsKeyword word) (ueIP : Text) :
    xform ueIP word = word := by
  rcases h with rfl | rfl <;> rfl

theorem not_keyword_of_parseNet
    (h : ep.parseNet (xform ueIP word) = .ok ep') : ¬ IsKeyword word := by
  intro hword
  rw [xform_keyword hword] at h
  rcases hword with rfl | rfl
  · exact absurd h (by rw [Endpoint.parseNet]; exact nofun)
  · exact absurd h (by rw [Endpoint.parseNet]; exact nofun)

theorem not_keyword_of_parsePort
    (h : ep.parsePort (xform ueIP word) = .ok ep') : ¬ IsKeyword word := by
  intro hword
  rw [xform_keyword hword] at h
  rcases hword with rfl | rfl
  · exact absurd h (by rw [Endpoint.parsePort]; exact nofun)
  · exact absurd h (by rw [Endpoint.parsePort]; exact nofun)

/-- What a walk over the words has done to the two endpoints. -/
structure Walked (words : List Text) (ipf ipf' : IpFilterRule) : Prop where
  src : ipf'.src.ipNet.isSome ↔ ipf.src.ipNet.isSome ∨ wordFrom ∈ words
  dst : ipf'.dst.ipNet.isSome ↔ ipf.dst.ipNet.isSome ∨ wordTo ∈ words
  srcSized : ipf.src.Sized → ipf'.src.Sized
  dstSized : ipf.dst.Sized → ipf'.dst.Sized

theorem Walked.skip (hword : ¬ IsKeyword word) (h : Walked rest ipf ipf') :
    Walked (word :: rest) ipf ipf' := by
  have hfrom : wordFrom ≠ word := fun heq => hword (.inl heq.symm)
  have hto : wordTo ≠ word := fun heq => hword (.inr heq.symm)
  refine ⟨?_, ?_, h.srcSized, h.dstSized⟩
  · rw [h.src, mem_cons, or_iff_right hfrom]
  · rw [h.dst, mem_cons, or_iff_right hto]

theorem Walked.source {src : Endpoint}
    (hsome : src.ipNet.isSome) (hsized : src.Sized) (h : Walked rest { ipf with src } ipf') :
    Walked (wordFrom :: rest) ipf ipf' := by
  refine ⟨?_, ?_, fun _ => h.srcSized hsized, h.dstSized⟩
  · rw [h.src]
    exact ⟨fun _ => .inr mem_cons_self, fun _ => .inl hsome⟩
  · rw [h.dst, mem_cons, or_iff_right (by decide : ¬ wordTo = wordFrom)]

theorem Walked.destination {dst : Endpoint}
    (hsome : dst.ipNet.isSome) (hsized : dst.Sized) (h : Walked rest { ipf with dst } ipf') :
    Walked (wordTo :: rest) ipf ipf' := by
  refine ⟨?_, ?_, h.srcSized, fun _ => h.dstSized hsized⟩
  · rw [h.src, mem_cons, or_iff_right (by decide : ¬ wordFrom = wordTo)]
  · rw [h.dst]
    exact ⟨fun _ => .inr mem_cons_self, fun _ => .inl hsome⟩

theorem Walked.nil (ipf : IpFilterRule) : Walked [] ipf ipf :=
  ⟨by simp, by simp, id, id⟩

theorem processFlowFields_walked {words : List Text}
    (h : processFlowFields ueIP words ipf = .ok ipf') : Walked words ipf ipf' := by
  fun_induction processFlowFields ueIP words ipf
  case case1 ipf =>
    cases h
    exact .nil _
  case case3 ipf net =>
    cases hnet : ipf.src.parseNet (xform ueIP net) with
    | error =>
      rw [hnet] at h
      cases h
    | ok =>
      rw [hnet] at h
      cases h
      obtain ⟨hsome, hsized⟩ := parseNet_ok hnet
      exact .source hsome hsized (.skip (not_keyword_of_parseNet hnet) (.nil _))
  case case5 ipf net rest src hnet ih =>
    obtain ⟨hsome, hsized⟩ := parseNet_ok hnet
    exact .source hsome hsized (.skip (not_keyword_of_parseNet hnet) (ih h))
  case case7 ipf net port rest src₁ hnet _ src hport ih =>
    obtain ⟨hsome, hsized⟩ := parseNet_ok hnet
    have hsame := parsePort_ok hport
    exact .source (by rw [hsame]; exact hsome) (by rw [Endpoint.Sized, hsame]; exact hsized)
      (.skip (not_keyword_of_parseNet hnet) (.skip (not_keyword_of_parsePort hport) (ih h)))
  case case9 ipf net _ =>
    cases hnet : ipf.dst.parseNet (xform ueIP net) with
    | error =>
      rw [hnet] at h
      cases h
    | ok =>
      rw [hnet] at h
      cases h
      obtain ⟨hsome, hsized⟩ := parseNet_ok hnet
      exact .destination hsome hsized (.skip (not_keyword_of_parseNet hnet) (.nil _))
  case case12 ipf net port rest dst₁ hnet dst hport _ ih =>
    obtain ⟨hsome, hsized⟩ := parseNet_ok hnet
    have hsame := parsePort_ok hport
    exact .destination (by rw [hsame]; exact hsome) (by rw [Endpoint.Sized, hsame]; exact hsized)
      (.skip (not_keyword_of_parseNet hnet) (.skip (not_keyword_of_parsePort hport) (ih h)))
  case case13 word rest ipf hfrom hto ih =>
    exact .skip (not_or.mpr ⟨hfrom, hto⟩) (ih h)
  all_goals cases h

def NamesNetworks (flowDesc : Text) : Prop :=
  wordFrom ∈ (textFields flowDesc).drop 3 ∧ wordTo ∈ (textFields flowDesc).drop 3

instance (flowDesc : Text) : Decidable (NamesNetworks flowDesc) :=
  inferInstanceAs (Decidable (_ ∧ _))

theorem parseFlowDesc_networks {flowDesc : Text}
    (h : parseFlowDesc flowDesc ueIP = .ok ipf) :
    (ipf.src.ipNet.isSome ↔ wordFrom ∈ (textFields flowDesc).drop 3) ∧
    (ipf.dst.ipNet.isSome ↔ wordTo ∈ (textFields flowDesc).drop 3) ∧
    ipf.src.Sized ∧ ipf.dst.Sized := by
  unfold parseFlowDesc at h
  split at h
  case h_1 action dir proto rest hfields =>
    obtain ⟨_, _, h⟩ := bind_ok h
    obtain ⟨direction, _, h⟩ := bind_ok h
    obtain ⟨proto, _, h⟩ := bind_ok h
    have hwalk := processFlowFields_walked h
    rw [hfields]
    exact ⟨by simpa using hwalk.src, by simpa using hwalk.dst,
      hwalk.srcSized (fun _ hnet => (nomatch hnet)), hwalk.dstSized (fun _ hnet => (nomatch hnet))⟩
  case h_2 => cases h

/-! ## Reading the two networks -/

theorem ipMask2int_ok {mask : IP} (h : 4 ≤ mask.length) : ∃ n, ipMask2int mask = .ok n := by
  unfold ipMask2int
  split
  · exact ⟨_, rfl⟩
  · rw [if_neg (by omega)]
    exact ⟨_, rfl⟩

theorem Endpoint.netInts_ok (hsome : ep.ipNet.isSome) (hsized : ep.Sized) :
    ∃ r, ep.netInts = .ok r := by
  obtain ⟨net, hnet⟩ := Option.isSome_iff_exists.mp hsome
  obtain ⟨mask, hmask⟩ := ipMask2int_ok (hsized net hnet)
  exact ⟨(ip2int net.ip, mask), by rw [netInts, hnet]; simp only [hmask]⟩

theorem Endpoint.netInts_none (h : ¬ ep.ipNet.isSome) :
    ep.netInts = .error .panicked := by
  rw [netInts, Option.not_isSome_iff_eq_none.mp h]

def readBoth {A : Type} (first second : Endpoint)
    (use : UInt32 × UInt32 → UInt32 × UInt32 → A) : Except Fault A := do
  let a ← first.netInts
  let b ← second.netInts
  return use a b

theorem readBoth_cases {A : Type} {first second : Endpoint} (hfirst : first.Sized)
    (hsecond : second.Sized) (use : UInt32 × UInt32 → UInt32 × UInt32 → A) :
    (first.ipNet.isSome ∧ second.ipNet.isSome ∧ ∃ a b, readBoth first second use = .ok (use a b)) ∨
    (¬ (first.ipNet.isSome ∧ second.ipNet.isSome) ∧
      readBoth first second use = .error .panicked) := by
  by_cases h₁ : first.ipNet.isSome
  · obtain ⟨a, ha⟩ := Endpoint.netInts_ok h₁ hfirst
    by_cases h₂ : second.ipNet.isSome
    · obtain ⟨b, hb⟩ := Endpoint.netInts_ok h₂ hsecond
      exact .inl ⟨h₁, h₂, a, b, by rw [readBoth, ha, hb]; rfl⟩
    · exact .inr ⟨fun h => h₂ h.2, by rw [readBoth, ha, Endpoint.netInts_none h₂]; rfl⟩
  · exact .inr ⟨fun h => h₁ h.1, by rw [readBoth, Endpoint.netInts_none h₁]; rfl⟩

/-! ## The second pass -/

/-- The three ways a step of the reading ends: with something good, with the
process down, or with an error. -/
structure Ends {S : Type} (r : Except Fault S) (fine bad : Prop) (good : S → Prop) : Prop where
  ok : fine → ∃ s, r = .ok s ∧ good s
  fault : bad → r = .error .panicked
  err : ¬ fine → ¬ bad → ∃ e, r = .error (.err e)

structure SideKept (p p' : Pdr) : Prop where
  srcIface : p'.srcIface = p.srcIface
  ueAddress : p'.ueAddress = p.ueAddress

def AppliesTo (srcIface : UInt8) (ipf : IpFilterRule) : Prop :=
  (srcIface = access ∧ ipf.direction = .out) ∨ (srcIface = core ∧ ipf.direction = .in)

instance (srcIface : UInt8) (ipf : IpFilterRule) : Decidable (AppliesTo srcIface ipf) :=
  inferInstanceAs (Decidable (_ ∨ _))

section Filters

variable (srcIface : UInt8) (ueIP : Text) (appPFDs : AppPFDs)

def FlowSkipped (flowDesc : Text) : Prop :=
  ∃ ipf, parseFlowDesc flowDesc ueIP = .ok ipf ∧ ¬ AppliesTo srcIface ipf

def FlowTaken (flowDesc : Text) : Prop :=
  ∃ ipf, parseFlowDesc flowDesc ueIP = .ok ipf ∧ AppliesTo srcIface ipf

def AppFaults (flowDescs : List Text) : Prop :=
  Meets (FlowSkipped srcIface ueIP)
    (fun flowDesc => FlowTaken srcIface ueIP flowDesc ∧ ¬ NamesNetworks flowDesc) flowDescs

def AppReads (flowDescs : List Text) : Prop :=
  (∀ flowDesc ∈ flowDescs, FlowSkipped srcIface ueIP flowDesc) ∨
  Meets (FlowSkipped srcIface ueIP)
    (fun flowDesc => FlowTaken srcIface ueIP flowDesc ∧ NamesNetworks flowDesc) flowDescs

def SdfFaults (flowDesc : Text) : Prop :=
  (∃ ipf, parseFlowDesc flowDesc ueIP = .ok ipf) ∧ (srcIface = core ∨ srcIface = access) ∧
    ¬ NamesNetworks flowDesc

def SdfReads (flowDesc : Text) : Prop :=
  (∃ ipf, parseFlowDesc flowDesc ueIP = .ok ipf) ∧
    (srcIface = core ∨ srcIface = access → NamesNetworks flowDesc)

def PdiIE.LacksNetwork : PdiIE → Prop
  | .applicationID (.ok id) =>
    ∃ apfd, appPFDs.lookup id = some apfd ∧ AppFaults srcIface ueIP apfd.flowDescs
  | .sdfFilter (.ok flowDesc) => SdfFaults srcIface ueIP flowDesc
  | _ => False

def PdiIE.FilterReads : PdiIE → Prop
  | .applicationID (.ok id) =>
    ∃ apfd, appPFDs.lookup id = some apfd ∧ AppReads srcIface ueIP apfd.flowDescs
  | .applicationID (.error _) => False
  | .sdfFilter (.ok flowDesc) => SdfReads srcIface ueIP flowDesc
  | .sdfFilter (.error _) => False
  | _ => True

end Filters

variable {p : Pdr} {appPFDs : AppPFDs}
variable {flowDesc ueIP : Text} {srcIface : UInt8}

theorem parseFlowDesc_names {ipf : IpFilterRule}
    (h : parseFlowDesc flowDesc ueIP = .ok ipf) :
    ipf.dst.ipNet.isSome ∧ ipf.src.ipNet.isSome ↔ NamesNetworks flowDesc := by
  obtain ⟨hsrc, hdst, -, -⟩ := parseFlowDesc_networks h
  rw [hsrc, hdst, NamesNetworks, and_comm]

theorem readBoth_ends {ipf : IpFilterRule}
    (h : parseFlowDesc flowDesc ueIP = .ok ipf)
    {use : UInt32 × UInt32 → UInt32 × UInt32 → Pdr} (huse : ∀ a b, SideKept p (use a b)) :
    Ends (readBoth ipf.dst ipf.src use) (NamesNetworks flowDesc) (¬ NamesNetworks flowDesc)
      (SideKept p) := by
  obtain ⟨-, -, hsrc, hdst⟩ := parseFlowDesc_networks h
  rcases readBoth_cases hdst hsrc use with ⟨h₁, h₂, a, b, hok⟩ | ⟨hnone, hfault⟩
  · have hnames := (parseFlowDesc_names h).mp ⟨h₁, h₂⟩
    exact ⟨fun _ => ⟨_, hok, huse a b⟩, fun hnot => absurd hnames hnot,
      fun hnot _ => absurd hnames hnot⟩
  · have hnames : ¬ NamesNetworks flowDesc := fun hn => hnone ((parseFlowDesc_names h).mpr hn)
    exact ⟨fun hn => absurd hn hnames, fun _ => hfault, fun _ hn => absurd hnames hn⟩

def appPdr (p : Pdr) (ipf : IpFilterRule) (dst src : UInt32 × UInt32) : Pdr :=
  { p with appFilter := { p.appFilter.setProto ipf.proto with
      dstIP := dst.1, dstIPMask := dst.2, srcIP := src.1, srcIPMask := src.2,
      dstPortRange := ipf.dst.ports, srcPortRange := ipf.src.ports } }

theorem parseAppFlows_cons (flowDesc : Text) (rest : List Text) :
    parseAppFlows p (flowDesc :: rest) =
      match parseFlowDesc flowDesc (ipv4String p.ueAddress) with
      | .error _ => .error (.err .badFilterDesc)
      | .ok ipf => if AppliesTo p.srcIface ipf then readBoth ipf.dst ipf.src (appPdr p ipf)
          else parseAppFlows p rest := rfl

theorem appFaults_cons {rest : List Text} :
    AppFaults srcIface ueIP (flowDesc :: rest) ↔
      (FlowTaken srcIface ueIP flowDesc ∧ ¬ NamesNetworks flowDesc) ∨
      (FlowSkipped srcIface ueIP flowDesc ∧ AppFaults srcIface ueIP rest) := meets_cons _ _

theorem appReads_cons {rest : List Text} :
    AppReads srcIface ueIP (flowDesc :: rest) ↔
      (FlowTaken srcIface ueIP flowDesc ∧ NamesNetworks flowDesc) ∨
      (FlowSkipped srcIface ueIP flowDesc ∧ AppReads srcIface ueIP rest) := by
  unfold AppReads
  rw [forall_mem_cons, meets_cons, and_or_left]
  exact ⟨fun h => h.elim (fun h => .inr (.inl h)) (fun h => h.imp_right .inr),
    fun h => h.elim (fun h => .inr (.inl h)) (fun h => h.imp_right .inr)⟩

theorem Ends.congr {S : Type} {r : Except Fault S} {fine fine' bad bad' : Prop} {good : S → Prop}
    (h : Ends r fine bad good) (hfine : fine' ↔ fine) (hbad : bad' ↔ bad) :
    Ends r fine' bad' good := by
  rw [hfine, hbad]
  exact h

theorem flow_cases (srcIface : UInt8) (ueIP flowDesc : Text) :
    (∃ ipf, parseFlowDesc flowDesc ueIP = .ok ipf ∧ AppliesTo srcIface ipf ∧
      FlowTaken srcIface ueIP flowDesc ∧ ¬ FlowSkipped srcIface ueIP flowDesc) ∨
    (∃ ipf, parseFlowDesc flowDesc ueIP = .ok ipf ∧ ¬ AppliesTo srcIface ipf ∧
      ¬ FlowTaken srcIface ueIP flowDesc ∧ FlowSkipped srcIface ueIP flowDesc) ∨
    (∃ e, parseFlowDesc flowDesc ueIP = .error e ∧
      ¬ FlowTaken srcIface ueIP flowDesc ∧ ¬ FlowSkipped srcIface ueIP flowDesc) := by
  unfold FlowTaken FlowSkipped
  cases hparse : parseFlowDesc flowDesc ueIP with
  | error e => exact .inr (.inr ⟨e, rfl, by simp, by simp⟩)
  | ok ipf =>
    by_cases happlies : AppliesTo srcIface ipf
    · exact .inl ⟨ipf, rfl, happlies, by simpa using happlies, by simpa using happlies⟩
    · exact .inr (.inl ⟨ipf, rfl, happlies, by simpa using happlies, by simpa using happlies⟩)

theorem parseAppFlows_ends (flowDescs : List Text) :
    Ends (parseAppFlows p flowDescs) (AppReads p.srcIface (ipv4String p.ueAddress) flowDescs)
      (AppFaults p.srcIface (ipv4String p.ueAddress) flowDescs) (SideKept p) := by
  induction flowDescs with
  | nil =>
    refine ⟨fun _ => ⟨p, rfl, rfl, rfl⟩, fun hbad => absurd hbad not_meets_nil, ?_⟩
    exact fun hnot _ => absurd (.inl fun _ hmem => (nomatch hmem)) hnot
  | cons flowDesc rest ih =>
    rw [parseAppFlows_cons]
    rcases flow_cases p.srcIface (ipv4String p.ueAddress) flowDesc with
      ⟨ipf, hparse, happlies, htaken, hskip⟩ | ⟨ipf, hparse, happlies, htaken, hskip⟩ |
      ⟨e, hparse, htaken, hskip⟩
    · simp only [hparse, if_pos happlies]
      have hkept : ∀ dst src, SideKept p (appPdr p ipf dst src) := fun _ _ => ⟨rfl, rfl⟩
      apply (readBoth_ends hparse hkept).congr
      · simp only [appReads_cons, htaken, hskip, true_and, false_and, or_false]
      · simp only [appFaults_cons, htaken, hskip, true_and, false_and, or_false]
    · simp only [hparse, if_neg happlies]
      apply ih.congr
      · simp only [appReads_cons, htaken, hskip, true_and, false_and, false_or]
      · simp only [appFaults_cons, htaken, hskip, true_and, false_and, false_or]
    · simp only [hparse]
      refine ⟨fun h => ?_, fun h => ?_, fun _ _ => ⟨_, rfl⟩⟩
      · simp only [appReads_cons, htaken, hskip, false_and, or_self] at h
      · simp only [appFaults_cons, htaken, hskip, false_and, or_self] at h

/-- Every application is stored under its own identifier. -/
def AppPFDs.Keyed (appPFDs : AppPFDs) : Prop :=
  ∀ id apfd, appPFDs.lookup id = some apfd → apfd.appID = id

theorem parseApplicationID_ends (hkeyed : appPFDs.Keyed) (ie : Decoded String) :
    Ends (parseApplicationID p ie appPFDs)
      ((PdiIE.applicationID ie).FilterReads p.srcIface (ipv4String p.ueAddress) appPFDs)
      ((PdiIE.applicationID ie).LacksNetwork p.srcIface (ipv4String p.ueAddress) appPFDs)
      (SideKept p) := by
  cases ie with
  | error => exact ⟨fun h => h.elim, fun h => h.elim, fun _ _ => ⟨_, rfl⟩⟩
  | ok id =>
    simp only [parseApplicationID, PdiIE.FilterReads, PdiIE.LacksNetwork]
    cases hlook : appPFDs.lookup id with
    | none =>
      refine ⟨?_, ?_, fun _ _ => ⟨_, rfl⟩⟩
      · rintro ⟨apfd, hsome, -⟩
        cases hsome
      · rintro ⟨apfd, hsome, -⟩
        cases hsome
    | some apfd =>
      simp only [hkeyed id apfd hlook, ne_eq, not_true_eq_false, if_false]
      apply (parseAppFlows_ends apfd.flowDescs).congr
      · simp
      · simp

def sdfPdr (p : Pdr) (ipf : IpFilterRule) (dst src : UInt32 × UInt32) : Pdr :=
  let ports := flipPorts ipf.dst.ports ipf.src.ports
  if p.srcIface = core then
    { p with appFilter := { p.appFilter.setProto ipf.proto with
        dstIP := dst.1, dstIPMask := dst.2, srcIP := src.1, srcIPMask := src.2,
        dstPortRange := ports.1, srcPortRange := ports.2 } }
  else
    { p with appFilter := { p.appFilter.setProto ipf.proto with
        srcIP := dst.1, srcIPMask := dst.2, dstIP := src.1, dstIPMask := src.2,
        srcPortRange := ports.1, dstPortRange := ports.2 } }

theorem sdfPdr_kept (ipf : IpFilterRule) (dst src : UInt32 × UInt32) :
    SideKept p (sdfPdr p ipf dst src) := by
  unfold sdfPdr
  split
  · exact ⟨rfl, rfl⟩
  · exact ⟨rfl, rfl⟩

theorem parseSDFFilter_of_ok {ipf : IpFilterRule}
    (h : parseFlowDesc flowDesc (ipv4String p.ueAddress) = .ok ipf) :
    parseSDFFilter p (.ok flowDesc) =
      if p.srcIface = core ∨ p.srcIface = access then readBoth ipf.dst ipf.src (sdfPdr p ipf)
      else .ok { p with appFilter := p.appFilter.setProto ipf.proto } := by
  have hne : flowDesc ≠ [] := by
    rintro rfl
    cases h
  unfold parseSDFFilter sdfPdr
  simp only [if_neg hne, h]
  by_cases hcore : p.srcIface = core
  · simp only [hcore, true_or, if_true]
    rfl
  · by_cases haccess : p.srcIface = access
    · simp only [haccess, or_true, if_true]
      rfl
    · simp only [hcore, haccess, or_self, if_false]

theorem parseSDFFilter_ends (ie : Decoded Text) :
    Ends (parseSDFFilter p ie)
      ((PdiIE.sdfFilter ie).FilterReads p.srcIface (ipv4String p.ueAddress) appPFDs)
      ((PdiIE.sdfFilter ie).LacksNetwork p.srcIface (ipv4String p.ueAddress) appPFDs)
      (SideKept p) := by
  cases ie with
  | error => exact ⟨fun h => h.elim, fun h => h.elim, fun _ _ => ⟨_, rfl⟩⟩
  | ok flowDesc =>
    unfold PdiIE.FilterReads PdiIE.LacksNetwork SdfReads SdfFaults
    cases hparse : parseFlowDesc flowDesc (ipv4String p.ueAddress) with
    | error =>
      refine ⟨fun h => by simp [hparse] at h, fun h => by simp [hparse] at h, fun _ _ => ?_⟩
      simp only [parseSDFFilter, hparse]
      split
      · exact ⟨_, rfl⟩
      · exact ⟨_, rfl⟩
    | ok ipf =>
      rw [parseSDFFilter_of_ok hparse]
      split
      case isTrue hside =>
        apply (readBoth_ends hparse (sdfPdr_kept ipf)).congr
        · simp [hside, hparse]
        · simp [hside, hparse]
      case isFalse hside =>
        refine ⟨fun _ => ⟨_, rfl, rfl, rfl⟩, fun h => absurd h.2.1 hside, fun h _ => ?_⟩
        exact absurd ⟨⟨ipf, hparse⟩, fun h => absurd h hside⟩ h

theorem filterIE_ends (hkeyed : appPFDs.Keyed) (ie : PdiIE) :
    Ends (filterIE appPFDs ie p) (ie.FilterReads p.srcIface (ipv4String p.ueAddress) appPFDs)
      (ie.LacksNetwork p.srcIface (ipv4String p.ueAddress) appPFDs) (SideKept p) := by
  cases ie with
  | applicationID id => exact parseApplicationID_ends hkeyed id
  | sdfFilter flowDescription => exact parseSDFFilter_ends flowDescription
  | _ => exact ⟨fun _ => ⟨p, rfl, rfl, rfl⟩, fun h => h.elim, fun h => absurd trivial h⟩

theorem parsePDIFilters_faults_iff (hkeyed : appPFDs.Keyed) {address : UInt32}
    (ies : List PdiIE) {p : Pdr} (hiface : p.srcIface = srcIface) (haddr : p.ueAddress = address) :
    (parsePDIFilters appPFDs ies p).2 = some .panicked ↔
      Meets (PdiIE.FilterReads srcIface (ipv4String address) appPFDs)
        (PdiIE.LacksNetwork srcIface (ipv4String address) appPFDs) ies := by
  induction ies generalizing p with
  | nil => exact ⟨fun h => (nomatch h), fun h => absurd h not_meets_nil⟩
  | cons ie rest ih =>
    have hends := filterIE_ends hkeyed ie (p := p)
    rw [hiface, haddr] at hends
    rw [meets_cons, parsePDIFilters]
    by_cases hbad : ie.LacksNetwork srcIface (ipv4String address) appPFDs
    · simp only [hends.fault hbad, hbad, true_or]
    · by_cases hfine : ie.FilterReads srcIface (ipv4String address) appPFDs
      · obtain ⟨p', hok, hkept⟩ := hends.ok hfine
        simp only [hok, hbad, hfine, true_and, false_or]
        exact ih (hkept.srcIface.trans hiface) (hkept.ueAddress.trans haddr)
      · obtain ⟨e, herr⟩ := hends.err hfine hbad
        simp [herr, hbad, hfine]

/-! ## The first pass -/

section Basic

variable (seid : UInt64) (ippool : Option IPPool)

def UEIPAddressFields.address (fields : UEIPAddressFields) : Option IP :=
  if needAllocIP fields then ippool.bind fun pool => (pool.lookupOrAllocIP seid).1.toOption
  else some fields.ipv4Address

def PdiIE.BasicReads : PdiIE → Prop
  | .ueIPAddress (.ok fields) => ∃ ip, fields.address seid ippool = some ip ∧ ip.length = 4
  | .ueIPAddress (.error _) => False
  | .sourceInterface (.ok srcIface) => srcIface ≠ srcInterfaceCPFunction
  | .sourceInterface (.error _) => False
  | .fteid (.error _) => False
  | _ => True

def PdiIE.LacksPool : PdiIE → Prop
  | .ueIPAddress (.ok fields) => needAllocIP fields = true ∧ ippool = none
  | _ => False

def interfaceAfter (srcIface : UInt8) : PdiIE → UInt8
  | .sourceInterface (.ok value) =>
    if value = srcInterfaceAccess then access
    else if value = srcInterfaceCore then core
    else srcIface
  | _ => srcIface

def addressAfter (ueAddress : UInt32) : PdiIE → UInt32
  | .ueIPAddress (.ok fields) => ((fields.address seid ippool).map ip2int).getD ueAddress
  | _ => ueAddress

def statedInterface (pdi : List PdiIE) : UInt8 := pdi.foldl interfaceAfter 0
def statedAddress (pdi : List PdiIE) : UInt32 := pdi.foldl (addressAfter seid ippool) 0

end Basic

variable {seid : UInt64} {ippool pool : Option IPPool}

theorem address_of_looked (h : IPPool.Looked seid ippool pool) (fields : UEIPAddressFields) :
    fields.address seid pool = fields.address seid ippool := by
  rcases h with rfl | ⟨i, rfl, rfl⟩
  · rfl
  · unfold UEIPAddressFields.address
    rcases IPPool.lookupOrAllocIP_cases i seid with
      ⟨ip, hinv, heq⟩ | ⟨ip, rest, -, -, heq⟩ | ⟨-, -, heq⟩
    · simp only [heq]
    · have hagain : IPPool.lookupOrAllocIP
          { freePool := rest, inventory := i.inventory.insert seid ip } seid =
          (.ok ip, { freePool := rest, inventory := i.inventory.insert seid ip }) :=
        IPPool.lookupOrAllocIP_of_some (lookup_insert _)
      simp only [heq, Option.bind_some, hagain]
    · simp only [heq]

theorem IPPool.Looked.eq_none_iff (h : IPPool.Looked seid ippool pool) :
    pool = none ↔ ippool = none := by
  rcases h with rfl | ⟨i, rfl, rfl⟩
  · rfl
  · simp

/-- A PDR in the middle of the first pass, and the pool beside it. -/
structure ReadWith (seid : UInt64) (ippool : Option IPPool) (srcIface : UInt8) (ueAddress : UInt32)
    (p : Pdr) (pool : Option IPPool) : Prop where
  fseID : p.fseID = seid
  looked : IPPool.Looked seid ippool pool
  srcIface : p.srcIface = srcIface
  ueAddress : p.ueAddress = ueAddress

variable {appPFDs : AppPFDs} {p : Pdr} {fields : UEIPAddressFields} {ueAddress : UInt32}
  {srcIface : UInt8}

theorem setUEAddress_of_length {ip : IP} (h : ip.length = 4) :
    setUEAddress p ip = .ok { p with ueAddress := ip2int ip } := by
  rw [setUEAddress, if_neg (not_not.mpr h)]

theorem setUEAddress_of_ne {ip : IP} (h : ip.length ≠ 4) :
    ∃ e, setUEAddress p ip = .error (.err e) := by
  rw [setUEAddress, if_pos h]
  exact ⟨_, rfl⟩

theorem parseUEAddressIE_of_lacksPool
    (hneed : needAllocIP fields = true) (p : Pdr) :
    (parseUEAddressIE p (.ok fields) none).1 = .error .panicked := by
  simp [parseUEAddressIE, hneed]

theorem parseUEAddressIE_of_some {ip : IP}
    (h : fields.address p.fseID pool = some ip) :
    ∃ flag, (parseUEAddressIE p (.ok fields) pool).1 =
      setUEAddress { p with allocIPFlag := flag } ip := by
  unfold UEIPAddressFields.address at h
  unfold parseUEAddressIE
  split at h
  case isTrue hneed =>
    obtain ⟨i, rfl, hip⟩ := Option.bind_eq_some_iff.mp h
    refine ⟨true, ?_⟩
    rcases hlook : i.lookupOrAllocIP p.fseID with ⟨e | ip', i'⟩
    · rw [hlook] at hip
      cases hip
    · rw [hlook] at hip
      cases hip
      simp only [hneed, hlook, if_true]
  case isFalse hneed =>
    cases h
    exact ⟨p.allocIPFlag, by simp only [hneed]; rfl⟩

theorem parseUEAddressIE_of_none
    (h : fields.address p.fseID pool = none) (hpool : pool ≠ none) :
    ∃ e, (parseUEAddressIE p (.ok fields) pool).1 = .error (.err e) := by
  unfold UEIPAddressFields.address at h
  unfold parseUEAddressIE
  split at h
  case isTrue hneed =>
    obtain ⟨i, rfl⟩ := Option.ne_none_iff_exists'.mp hpool
    rcases hlook : i.lookupOrAllocIP p.fseID with ⟨e | ip', i'⟩
    · exact ⟨e, by simp only [hneed, hlook, if_true]⟩
    · rw [Option.bind_some, hlook] at h
      cases h
  case isFalse hneed => cases h

theorem needAllocIP_of_address_none
    (h : fields.address seid ippool = none) : needAllocIP fields = true := by
  unfold UEIPAddressFields.address at h
  split at h
  · assumption
  · cases h

theorem ueIPAddress_ends
    (hread : ReadWith seid ippool srcIface ueAddress p pool) (fields : UEIPAddressFields)
    (hlooked : IPPool.Looked seid ippool (parseUEAddressIE p (.ok fields) pool).2) :
    Ends (parseUEAddressIE p (.ok fields) pool).1
      ((PdiIE.ueIPAddress (.ok fields)).BasicReads seid ippool)
      ((PdiIE.ueIPAddress (.ok fields)).LacksPool ippool)
      (fun p' => ReadWith seid ippool srcIface
        (addressAfter seid ippool ueAddress (.ueIPAddress (.ok fields))) p'
        (parseUEAddressIE p (.ok fields) pool).2) := by
  have haddr : fields.address p.fseID pool = fields.address seid ippool := by
    rw [hread.fseID, address_of_looked hread.looked]
  refine ⟨?_, ?_, ?_⟩
  · rintro ⟨ip, hip, hlen⟩
    obtain ⟨flag, hset⟩ := parseUEAddressIE_of_some (haddr.trans hip)
    refine ⟨_, hset.trans (setUEAddress_of_length hlen), hread.fseID, hlooked, hread.srcIface, ?_⟩
    simp only [addressAfter, hip, Option.map_some, Option.getD_some]
  · rintro ⟨hneed, hnone⟩
    rw [hread.looked.eq_none_iff.mpr hnone]
    exact parseUEAddressIE_of_lacksPool hneed p
  · intro hreads hlacks
    cases hip : fields.address seid ippool with
    | none =>
      apply parseUEAddressIE_of_none (haddr.trans hip)
      exact fun hnone => hlacks ⟨needAllocIP_of_address_none hip,
        hread.looked.eq_none_iff.mp hnone⟩
    | some ip =>
      obtain ⟨flag, hset⟩ := parseUEAddressIE_of_some (haddr.trans hip)
      rw [hset]
      exact setUEAddress_of_ne fun hlen => hreads ⟨ip, hip, hlen⟩

theorem basicIE_ends
    (hread : ReadWith seid ippool srcIface ueAddress p pool) (ie : PdiIE) :
    Ends (basicIE ie p pool).1 (ie.BasicReads seid ippool) (ie.LacksPool ippool)
      (fun p' => ReadWith seid ippool (interfaceAfter srcIface ie)
        (addressAfter seid ippool ueAddress ie) p' (basicIE ie p pool).2) := by
  cases ie with
  | ueIPAddress fields =>
    cases fields with
    | error => exact ⟨fun h => h.elim, fun h => h.elim, fun _ _ => ⟨_, rfl⟩⟩
    | ok fields =>
      have hpool := parseUEAddressIE_pool p (.ok fields) pool
      rw [hread.fseID] at hpool
      exact ueIPAddress_ends hread fields (hread.looked.trans hpool)
  | sourceInterface value =>
    cases value with
    | error => exact ⟨fun h => h.elim, fun h => h.elim, fun _ _ => ⟨_, rfl⟩⟩
    | ok =>
      simp only [basicIE, parseSourceInterfaceIE, PdiIE.BasicReads, PdiIE.LacksPool,
        interfaceAfter, addressAfter]
      refine ⟨fun hne => ?_, fun h => h.elim, fun h _ => ?_⟩
      · rw [if_neg hne]
        split_ifs
        · exact ⟨_, rfl, hread.fseID, hread.looked, rfl, hread.ueAddress⟩
        · exact ⟨_, rfl, hread.fseID, hread.looked, rfl, hread.ueAddress⟩
        · exact ⟨_, rfl, hread⟩
      · rw [if_pos (not_not.mp h)]
        exact ⟨_, rfl⟩
  | fteid fields =>
    cases fields with
    | error => exact ⟨fun h => h.elim, fun h => h.elim, fun _ _ => ⟨_, rfl⟩⟩
    | ok =>
      refine ⟨fun _ => ?_, fun h => h.elim, fun h => absurd trivial h⟩
      simp only [basicIE, parseFTEID, interfaceAfter, addressAfter]
      split_ifs
      · exact ⟨_, rfl, hread.fseID, hread.looked, hread.srcIface, hread.ueAddress⟩
      · exact ⟨_, rfl, hread.fseID, hread.looked, hread.srcIface, hread.ueAddress⟩
      · exact ⟨_, rfl, hread⟩
  | _ => exact ⟨fun _ => ⟨p, rfl, hread⟩, fun h => h.elim, fun h => absurd trivial h⟩

/-- How the first pass ends: with the interface and the address the IEs state,
with the process down, or with an error. -/
theorem processBasicPDI_ends (ies : List PdiIE)
    {pool : Option IPPool} (hread : ReadWith seid ippool srcIface ueAddress p pool) :
    ((∀ ie ∈ ies, ie.BasicReads seid ippool) →
      ∃ p' pool', processBasicPDI ies p pool = ((p', none), pool') ∧
        p'.srcIface = ies.foldl interfaceAfter srcIface ∧
        p'.ueAddress = ies.foldl (addressAfter seid ippool) ueAddress) ∧
    ((processBasicPDI ies p pool).1.2 = some .panicked ↔
      Meets (PdiIE.BasicReads seid ippool) (PdiIE.LacksPool ippool) ies) ∧
    ((processBasicPDI ies p pool).1.2 = none → ∀ ie ∈ ies, ie.BasicReads seid ippool) := by
  induction ies generalizing p pool srcIface ueAddress with
  | nil =>
    refine ⟨fun _ => ⟨p, pool, rfl, hread.srcIface, hread.ueAddress⟩, ?_, fun _ ie hie => ?_⟩
    · exact ⟨fun h => (by cases h), fun h => absurd h not_meets_nil⟩
    · cases hie
  | cons ie rest ih =>
    have hends := basicIE_ends hread ie
    rw [meets_cons, forall_mem_cons, processBasicPDI]
    rcases hie : basicIE ie p pool with ⟨f | p', pool'⟩
    · rw [hie] at hends
      have hreads : ¬ ie.BasicReads seid ippool := fun hfine => by
        obtain ⟨p', hok, -⟩ := hends.ok hfine
        cases hok
      simp only [hreads, false_and, or_false, foldl_cons]
      refine ⟨fun h => h.elim, ?_, fun h => by cases h⟩
      constructor
      · intro hfault
        by_contra hlacks
        obtain ⟨e, herr⟩ := hends.err hreads hlacks
        rw [Except.error.injEq] at herr
        rw [herr] at hfault
        cases hfault
      · intro hlacks
        have herr := hends.fault hlacks
        rw [Except.error.injEq] at herr
        rw [herr]
    · rw [hie] at hends
      have hlacks : ¬ ie.LacksPool ippool := fun hbad => by cases hends.fault hbad
      have hreads : ie.BasicReads seid ippool := by
        by_contra hnot
        obtain ⟨e, herr⟩ := hends.err hnot hlacks
        cases herr
      obtain ⟨p'', hok, hread'⟩ := hends.ok hreads
      cases hok
      simp only [hlacks, hreads, true_and, false_or, foldl_cons]
      exact ih hread'

/-! ## PFD management -/

/-- The table of application filters after some PFD Management Requests. -/
def pfdManagement (requests : List (List ApplicationIDsPFDs)) : AppPFDs :=
  (requests.foldl (fun pConn request => (PFDConn.handlePFDMgmtRequest pConn request).2)
    ⟨∅⟩).appPFDs

theorem AppPFDs.Keyed.insert (h : appPFDs.Keyed) (id : String)
    (flowDescs : List Text) :
    AppPFDs.Keyed (AList.insert id { appID := id, flowDescs } appPFDs) := by
  intro k apfd hlook
  by_cases hk : k = id
  · subst hk
    rw [lookup_insert] at hlook
    cases hlook
    rfl
  · rw [lookup_insert_ne hk] at hlook
    exact h k apfd hlook

theorem AppPFDs.keyed_empty : AppPFDs.Keyed ∅ := fun id apfd h => by
  rw [lookup_empty] at h
  cases h

theorem PFDConn.readApplications_keyed {pConn : PFDConn} {current : AppPFDs}
    (hcurrent : current.Keyed) (h : pConn.appPFDs.Keyed) (apps : List ApplicationIDsPFDs) :
    (readApplications current apps pConn).2.appPFDs.Keyed := by
  induction apps generalizing pConn with
  | nil => exact h
  | cons first rest ih =>
    rcases hround : pConn.readApplication first with ⟨_ | e, pConn₁⟩
    · rcases readApplication_none hround with ⟨id, flowDescs, -, -, -, htable⟩
      simp only [readApplications, hround]
      apply ih
      rw [htable]
      exact (h.insert id []).insert id flowDescs
    · simp only [readApplications, hround]
      exact hcurrent

theorem pfdManagement_keyed (requests : List (List ApplicationIDsPFDs)) :
    (pfdManagement requests).Keyed := by
  suffices h : ∀ pConn : PFDConn, pConn.appPFDs.Keyed → AppPFDs.Keyed (requests.foldl
      (fun pConn request => (pConn.handlePFDMgmtRequest request).2) pConn).appPFDs from
    h ⟨∅⟩ AppPFDs.keyed_empty
  induction requests with
  | nil => exact fun pConn h => h
  | cons request rest ih =>
    exact fun pConn h => ih _ (PFDConn.readApplications_keyed h AppPFDs.keyed_empty request)

/-! ## The whole PDR -/

/-- Reading a PDR comes to an IE that needs an absent pool, or, after a first pass
that reads every IE, to a filter without one of its networks. -/
def PdrIE.MeetsFault (ie1 : PdrIE) (seid : UInt64) (appPFDs : AppPFDs) (ippool : Option IPPool) :
    Prop :=
  ∃ pdrID precedence pdi,
    ie1.pdrID = .ok pdrID ∧ ie1.precedence = .ok precedence ∧ ie1.pdi = .ok pdi ∧
    (Meets (PdiIE.BasicReads seid ippool) (PdiIE.LacksPool ippool) pdi ∨
      ((∀ ie ∈ pdi, ie.BasicReads seid ippool) ∧
        Meets (PdiIE.FilterReads (statedInterface pdi)
            (ipv4String (statedAddress seid ippool pdi)) appPFDs)
          (PdiIE.LacksNetwork (statedInterface pdi)
            (ipv4String (statedAddress seid ippool pdi)) appPFDs) pdi))

theorem setUEFilter_kept (p : Pdr) : SideKept p (setUEFilter p) := by
  unfold setUEFilter
  split_ifs
  · exact ⟨rfl, rfl⟩
  · exact ⟨rfl, rfl⟩
  · exact ⟨rfl, rfl⟩

theorem parsePDI_faults_iff (hkeyed : appPFDs.Keyed) (seid : UInt64) (ippool : Option IPPool)
    (pdi : List PdiIE) :
    (parsePDI { fseID := seid } pdi appPFDs ippool).1.2 = some .panicked ↔
      Meets (PdiIE.BasicReads seid ippool) (PdiIE.LacksPool ippool) pdi ∨
      ((∀ ie ∈ pdi, ie.BasicReads seid ippool) ∧
        Meets (PdiIE.FilterReads (statedInterface pdi)
            (ipv4String (statedAddress seid ippool pdi)) appPFDs)
          (PdiIE.LacksNetwork (statedInterface pdi)
            (ipv4String (statedAddress seid ippool pdi)) appPFDs) pdi) := by
  have hstart : ReadWith seid ippool 0 0 { fseID := seid } ippool :=
    ⟨rfl, .refl _ _, rfl, rfl⟩
  obtain ⟨hok, hfault, hreads⟩ := processBasicPDI_ends pdi hstart
  rw [parsePDI, ← hfault]
  rcases hbasic : processBasicPDI pdi { fseID := seid } ippool with ⟨⟨p, _ | f⟩, pool⟩
  · have hall := hreads (by rw [hbasic])
    obtain ⟨p', pool', heq, hiface, haddr⟩ := hok hall
    rw [hbasic] at heq
    cases heq
    have hkept := setUEFilter_kept p
    rw [parsePDIFilters_faults_iff hkeyed pdi (hkept.srcIface.trans hiface)
      (hkept.ueAddress.trans haddr)]
    exact ⟨fun h => .inr ⟨hall, h⟩, fun h => h.elim (fun h => (nomatch h)) And.right⟩
  · constructor
    · exact fun h => .inl h
    · rintro (h | ⟨hall, -⟩)
      · exact h
      · obtain ⟨p', pool', heq, -⟩ := hok hall
        rw [hbasic] at heq
        cases heq

theorem fatalPDI_eq_panicked {f : Option Fault} :
    fatalPDI f = some .panicked ↔ f = some .panicked := by
  cases f with
  | none => rfl
  | some f =>
    cases f with
    | panicked => rfl
    | err e => cases e <;> simp [fatalPDI]

theorem finishPDR_ne_panicked (p : Pdr) (ie1 : PdrIE) (pdrID : UInt16) (precedence : UInt32) :
    finishPDR p ie1 pdrID precedence ≠ .error .panicked := by
  unfold finishPDR
  split
  · exact nofun
  · split
    · exact nofun
    · exact nofun

theorem parsePDR_faults_iff (hkeyed : appPFDs.Keyed) (ie1 : PdrIE) :
    (parsePDR ie1 seid appPFDs ippool).1 = .error .panicked ↔
      ie1.MeetsFault seid appPFDs ippool := by
  unfold parsePDR PdrIE.MeetsFault
  split
  case h_1 e hid => exact ⟨nofun, fun ⟨_, _, _, h, _⟩ => by rw [hid] at h; exact (nomatch h)⟩
  case h_2 e _ hprec =>
    exact ⟨nofun, fun ⟨_, _, _, _, h, _⟩ => by rw [hprec] at h; exact (nomatch h)⟩
  case h_3 e _ _ hpdi =>
    exact ⟨nofun, fun ⟨_, _, _, _, _, h, _⟩ => by rw [hpdi] at h; exact (nomatch h)⟩
  case h_4 pdrID precedence pdi hid hprec hpdi =>
    have hiff := parsePDI_faults_iff hkeyed seid ippool pdi
    rcases hparse : parsePDI { fseID := seid } pdi appPFDs ippool with ⟨⟨p, err⟩, pool⟩
    rw [hparse] at hiff
    constructor
    · intro h
      refine ⟨pdrID, precedence, pdi, hid, hprec, hpdi, hiff.mp ?_⟩
      cases hfatal : fatalPDI err with
      | none =>
        simp only [hfatal] at h
        exact absurd h (finishPDR_ne_panicked p ie1 pdrID precedence)
      | some =>
        simp only [hfatal, Except.error.injEq] at h
        rw [h] at hfatal
        exact fatalPDI_eq_panicked.mp hfatal
    · rintro ⟨_, _, pdi', _, _, hpdi', hmeets⟩
      rw [hpdi, Except.ok.injEq] at hpdi'
      subst hpdi'
      have hfatal : fatalPDI err = some .panicked := fatalPDI_eq_panicked.mpr (hiff.mpr hmeets)
      simp only [hfatal]

/-- Whatever PFD management has stored, reading a PDR returns a PDR or an error
exactly when it does not come to an IE that needs an absent pool, nor to a filter
that lacks a network. -/
theorem parsePDR_returns_iff (requests : List (List ApplicationIDsPFDs)) (ie1 : PdrIE)
    (seid : UInt64) (ippool : Option IPPool) :
    ((∃ p, (parsePDR ie1 seid (pfdManagement requests) ippool).1 = .ok p) ∨
      ∃ e, (parsePDR ie1 seid (pfdManagement requests) ippool).1 = .error (.err e)) ↔
      ¬ ie1.MeetsFault seid (pfdManagement requests) ippool := by
  rw [← parsePDR_faults_iff (pfdManagement_keyed requests)]
  rcases (parsePDR ie1 seid (pfdManagement requests) ippool).1 with (e | _) | p
  · simp
  · simp
  · simp

def PdrIE.openFilter : PdrIE :=
  { PdrIE.sample 1 7 [] with
    pdi := .ok [.sourceInterface (.ok srcInterfaceAccess),
      .sdfFilter (.ok "permit out ip".toList)] }

def PdrIE.chosenAddress : PdrIE :=
  { PdrIE.sample 1 7 [] with
    pdi := .ok [.ueIPAddress (.ok { flags := 0x10, ipv4Address := [] })] }

/-- A description without networks, and an address to be chosen without a pool,
bring the process down. -/
theorem parsePDR_panics :
    (parsePDR .openFilter 1 (pfdManagement []) none).1 = .error .panicked ∧
    (parsePDR .chosenAddress 1 (pfdManagement []) none).1 = .error .panicked :=
  ⟨rfl, rfl⟩

end Upf
