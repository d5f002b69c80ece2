import Upf.Bess.Precedence
import Upf.Session.Conformance

/-!
# The path of a packet through the match modules

`pdrLookup` writes identifiers to a packet in the byte order of the host, and
the rate tables and `farLookup` read them back as parts of their keys.  The key
a packet presents is therefore the key of the QER and of the FAR whose identifiers
its PDR was programmed with.  The QER is the first of the PDR's list, and it has an
entry in the application table unless the session-QER selection sent it to the
other one.

Main result: `packet_meets_own_rules_iff`.
-/

namespace Upf.Bess

open Lib List UInt32 AList

/-! ## Keys -/

def appQERKey (srcIface : UInt8) (qerID : UInt32) (fseid : UInt64) : List UInt8 :=
  [srcIface] ++ leBytes 4 qerID.toNat ++ leBytes 8 fseid.toNat ++ padding appQERLookupFields

def farKey (farID : UInt32) (fseid : UInt64) : List UInt8 :=
  leBytes 4 farID.toNat ++ leBytes 8 fseid.toNat ++ padding farLookupFields

theorem leBytes_one (b : UInt8) : leBytes 1 b.toNat = [b] := by
  simp [leBytes]

theorem appQERKey_qerID {i i' : UInt8} {n n' : UInt32} {m m' : UInt64}
    (h : appQERKey i n m = appQERKey i' n' m') : n = n' := by
  unfold appQERKey at h
  simp only [append_assoc, cons_append, nil_append, List.cons.injEq] at h
  have hbytes := (append_inj h.2 (by simp)).1
  exact UInt32.toNat_inj.mp (leBytes_inj n.toNat_lt n'.toNat_lt hbytes)

theorem field_attrField {pkt : Packet Attr} {a : Attr} {bytes : List UInt8} {size : Nat}
    (h : pkt.attr a = bytes) (hlen : bytes.length = size) (hsize : size ≤ wordSize) :
    pkt.field (attrField a size) = bytes := by
  rw [attrField, Packet.field_attr (by rw [h, hlen]) hsize, h]

variable {mods : Modules} {pkt : Packet Attr}

theorem makeKey_app (hconf : mods.Configured) {i : UInt8} {n : UInt32} {m : UInt64}
    (hi : pkt.attr .srcIface = [i]) (hn : pkt.attr .qerId = leBytes 4 n.toNat)
    (hm : pkt.attr .fseid = leBytes 8 m.toNat) (buf : Buffer) :
    mods.appQERLookup.makeKey pkt buf = appQERKey i n m := by
  have hsize : ∀ f ∈ mods.appQERLookup.fields, f.size ≤ wordSize := by
    rw [hconf.appFields]
    decide
  have hne : mods.appQERLookup.fields ≠ [] := by
    rw [hconf.appFields]
    decide
  have hfi : pkt.field (attrField .srcIface 1) = [i] := field_attrField hi rfl (by decide)
  have hfn := field_attrField hn (leBytes_length 4 _) (by decide)
  have hfm := field_attrField hm (leBytes_length 8 _) (by decide)
  rw [Qos.makeKey_eq hsize hne, hconf.appFields, appQERKey, fieldBytes, appQERLookupFields]
  simp only [flatMap_cons, flatMap_nil, hfi, hfn, hfm, append_nil,
    append_assoc]

theorem makeKey_far (hconf : mods.Configured) {n : UInt32} {m : UInt64}
    (hn : pkt.attr .farId = leBytes 4 n.toNat) (hm : pkt.attr .fseid = leBytes 8 m.toNat)
    (buf : Buffer) : mods.farLookup.makeKey pkt buf = farKey n m := by
  have hfn := field_attrField hn (leBytes_length 4 _) (by decide)
  have hfm := field_attrField hm (leBytes_length 8 _) (by decide)
  rw [ExactMatch.makeKey_eq hconf.farFields (by decide) (by decide), farKey, fieldBytes,
    farLookupFields]
  simp only [flatMap_cons, flatMap_nil, hfn, hfm, append_nil]

/-! ## Keys in commands -/

theorem toUInt64_toNat_lt (n : UInt32) : n.toUInt64.toNat < 256 ^ 4 := by
  rw [toNat_toUInt64]
  exact n.toNat_lt

theorem extractKey_app (hconf : mods.Configured) (i : UInt8) {q : Qer}
    (hlevel : q.qosLevel = .applicationQos) :
    mods.appQERLookup.extractKey (qerFields i q) = .ok (appQERKey i q.qerID q.fseID) := by
  have hfit : List.Forall₂ (fun (f : Field Attr) (n : UInt64) => n.toNat < 256 ^ f.size)
      appQERLookupFields [i.toUInt64, q.qerID.toUInt64, q.fseID] := by
    refine .cons ?_ (.cons (toUInt64_toNat_lt _) (.cons q.fseID.toNat_lt .nil))
    rw [UInt8.toNat_toUInt64]
    exact i.toNat_lt
  have hvalues := extractValues_ints hfit
  have hfields : qerFields i q =
      [i.toUInt64, q.qerID.toUInt64, q.fseID].map FieldData.valueInt := by
    unfold qerFields
    rw [hlevel]
    rfl
  unfold Qos.extractKey
  rw [hconf.appFields, hfields, hvalues]
  simp [appQERKey, appQERLookupFields, attrField, leBytes_one, bind, Except.bind, pure,
    Except.pure]

theorem gatherKey_far (hconf : mods.Configured) (f : Far) :
    mods.farLookup.gatherKey (farFields f) = .ok (farKey f.farID f.fseID) := by
  have hkey : mods.farLookup.keyFields = farLookupFields := by
    rw [ExactMatch.keyFields, hconf.farFields]
    rfl
  unfold ExactMatch.gatherKey
  rw [hkey, hconf.farFields]
  simp [farFields, farKey, farLookupFields, attrField, ExactMatch.ruleFieldsFromPb, intEnc,
    ExactMatch.ruleField, ExactMatch.gather, (uint64ToBin_eq _ _).1, bind, Except.bind, pure,
    Except.pure]

/-! ## What a packet carries after the first lookup -/

theorem keyv_of_mem_pdrRules (hconf : mods.Configured) {p : Pdr} {r : WmRule}
    (h : r ∈ mods.pdrLookup.pdrRules p) :
    r.data.keyv = leBytes 4 p.pdrID.toNat ++ leBytes 8 p.fseID.toNat ++
      leBytes 4 p.ctrID.toNat ++ leBytes 4 (firstQer p).toNat ++ leBytes 4 p.farID.toNat := by
  rcases WildcardMatch.mem_pdrRules h with ⟨pr, hrule⟩
  have hvalue := (WildcardMatch.rule_ok hrule).2.1
  have hfit : List.Forall₂ (fun (f : Field Attr) (n : UInt64) => n.toNat < 256 ^ f.size)
      pdrLookupValues [p.pdrID.toUInt64, p.fseID, p.ctrID.toUInt64, (firstQer p).toUInt64,
        p.farID.toUInt64] :=
    .cons (toUInt64_toNat_lt _) (.cons p.fseID.toNat_lt
      (.cons (toUInt64_toNat_lt _) (.cons (toUInt64_toNat_lt _)
        (.cons (toUInt64_toNat_lt _) .nil))))
  have hvalues := extractValues_ints hfit
  have hargs : (addPDRArg p pr).valuesv = [p.pdrID.toUInt64, p.fseID, p.ctrID.toUInt64,
      (firstQer p).toUInt64, p.farID.toUInt64].map FieldData.valueInt := rfl
  rw [hargs, hconf.pdrValues, extractValue, if_neg (by simp [pdrLookupValues]), hvalues,
    Except.ok.injEq] at hvalue
  rw [← hvalue]
  simp [pdrLookupValues, attrField]

/-- The first lookup leaves the source interface alone and writes the identifiers
of the PDR it answers with. -/
theorem attrs_of_answer (hconf : mods.Configured) {p : Pdr} {buf : Buffer} {r : WmRule}
    (hr : r ∈ mods.pdrLookup.pdrRules p)
    (hanswer : mods.pdrLookup.lookupBulkEntry (mods.pdrLookup.makeKey pkt buf) = some r.data) :
    let pkt' := (mods.pdrLookup.processPacket buf pkt).2
    pkt'.attr .srcIface = pkt.attr .srcIface ∧ pkt'.attr .fseid = leBytes 8 p.fseID.toNat ∧
      pkt'.attr .qerId = leBytes 4 (firstQer p).toNat ∧
      pkt'.attr .farId = leBytes 4 p.farID.toNat := by
  have hkeyv := keyv_of_mem_pdrRules hconf hr
  unfold WildcardMatch.processPacket
  rw [hanswer, hconf.pdrValues]
  simp [setValues, pdrLookupValues, attrField, Packet.set, hkeyv]

/-! ## Entries of the application table -/

variable {conf : BessConf} {lib : Libraries} {rules : PacketForwardingRules}

theorem mem_commands_add {c : Upf.Command} :
    c ∈ commands conf .add rules ↔ (∃ p ∈ rules.pdrs, c ∈ (addPDR p).toOption.getD []) ∨
      (∃ f ∈ rules.fars, c ∈ addFAR conf f) ∨ ∃ q ∈ rules.qers, c ∈ addQER conf q := by
  simp [commands, workers, Except.toOption]

variable {q : Qer}

theorem app_of_mem_addQER {arg : QosCommandAddArg}
    (h : .qerLookupAdd .appQERLookup arg ∈ addQER conf q) :
    q.qosLevel = .applicationQos ∧ ∃ rates i, arg = addQERArg rates i q ∧
      (i = access ∨ i = core) ∧
      (rates.gate = qerGateMeter ∨ rates.gate = qerGateStatusDrop ∨
        rates.gate = qerGateUnmeter) := by
  have hgate : ∀ qfi status mbr gbr, (qosRates conf qfi status mbr gbr).gate = qerGateMeter ∨
      (qosRates conf qfi status mbr gbr).gate = qerGateStatusDrop ∨
      (qosRates conf qfi status mbr gbr).gate = qerGateUnmeter := by
    intro qfi status mbr gbr
    unfold qosRates
    dsimp only
    split_ifs <;> simp
  have htable : q.table = .appQERLookup → q.qosLevel = .applicationQos := by
    cases hlevel : q.qosLevel <;> simp [Qer.table, hlevel]
  simp only [addQER, handleUplinkQER, handleDownlinkQER, mem_cons,
    Upf.Command.qerLookupAdd.injEq, not_mem_nil, or_false] at h
  rcases h with ⟨hq, rfl⟩ | ⟨hq, rfl⟩
  · exact ⟨htable hq.symm, _, access, rfl, .inl rfl, hgate _ _ _ _⟩
  · exact ⟨htable hq.symm, _, core, rfl, .inr rfl, hgate _ _ _ _⟩

theorem qer_of_mem_commands {c : Upf.Command} (h : c ∈ commands conf .add rules) :
    (∃ arg, c = .pdrLookupAdd arg) ∨ (∃ arg, c = .farLookupAdd arg) ∨
      (∃ gnbIp, c = .gtpuPathMonitoring .add gnbIp) ∨ ∃ q ∈ rules.qers, c ∈ addQER conf q := by
  rcases mem_commands_add.mp h with ⟨p, -, hc⟩ | ⟨f, -, hc⟩ | hc
  · unfold addPDR at hc
    cases hports : createPortRangeCartesianProduct p.appFilter.srcPortRange
        p.appFilter.dstPortRange with
    | error e => simp [hports, Except.map, Except.toOption] at hc
    | ok portRules =>
      simp only [hports, Except.map, Except.toOption, Option.getD_some, mem_map] at hc
      rcases hc with ⟨r, -, rfl⟩
      exact .inl ⟨_, rfl⟩
  · rcases mem_cons.mp hc with rfl | hc
    · exact .inr (.inl ⟨_, rfl⟩)
    · unfold pathMonitoring at hc
      split_ifs at hc
      · exact .inr (.inr (.inl ⟨_, mem_singleton.mp hc⟩))
      · exact absurd hc not_mem_nil
  · exact .inr (.inr (.inr hc))

def HasAppEntry (conf : BessConf) (lib : Libraries) (mods : Modules) (key : List UInt8)
    (q : Qer) : Prop :=
  ∃ arg e, .qerLookupAdd .appQERLookup arg ∈ addQER conf q ∧
    mods.appQERLookup.entry lib.qos arg = .ok (key, e) ∧
    mods.appQERLookup.table.lookup key = some e

theorem hasAppEntry_of_run {cs : List Upf.Command} {mods' : Modules}
    (hperm : cs.Perm (commands conf .add rules)) (hconf : mods.Configured)
    (hrun : runAll (Modules.step lib) cs mods = some mods') (hq : q ∈ rules.qers)
    (hlevel : q.qosLevel = .applicationQos) {i : UInt8} (hi : i = access ∨ i = core) :
    ∃ q' ∈ rules.qers, HasAppEntry conf lib mods' (appQERKey i q.qerID q.fseID) q' := by
  obtain ⟨rates, hcmd⟩ : ∃ rates, .qerLookupAdd .appQERLookup (addQERArg rates i q) ∈
      addQER conf q := by
    have htable : q.table = .appQERLookup := by simp [Qer.table, hlevel]
    rcases hi with rfl | rfl
    · exact ⟨_, by simp only [addQER, handleUplinkQER, htable]; exact mem_cons_self⟩
    · exact ⟨_, by
        simp only [addQER, handleDownlinkQER, htable]
        exact mem_cons_of_mem _ mem_cons_self⟩
  have hmem : .qerLookupAdd .appQERLookup (addQERArg rates i q) ∈ cs :=
    hperm.mem_iff.mpr (mem_commands_add.mpr (.inr (.inr ⟨q, hq, hcmd⟩)))
  refine runAll_established (I := Modules.Configured)
    (P := fun s => ∃ q' ∈ rules.qers, HasAppEntry conf lib s (appQERKey i q.qerID q.fseID) q')
    ?_ ?_ ?_ hmem hrun hconf
  · intro c _ s s' hstep hs
    exact hs.step hstep
  · rintro c hc s s' hstep - ⟨q', hq', arg', e', hcmd', hentry', hlook'⟩
    have hfrom := qer_of_mem_commands (hperm.mem_iff.mp hc)
    cases Modules.step_cases hstep with
    | qerAdd table arg key e hentry =>
      cases table with
      | sessionQERLookup => exact ⟨q', hq', arg', e', hcmd', hentry', hlook'⟩
      | appQERLookup =>
        -- Another entry: under the same key it is one of this batch too.
        by_cases hkey : key = appQERKey i q.qerID q.fseID
        · subst hkey
          simp only [reduceCtorEq, exists_false, false_or] at hfrom
          rcases hfrom with ⟨q₂, hq₂, hcmd₂⟩
          exact ⟨q₂, hq₂, arg, e, hcmd₂, hentry, lookup_insert _⟩
        · exact ⟨q', hq', arg', e', hcmd', hentry',
            (lookup_insert_ne (Ne.symm hkey)).trans hlook'⟩
    | qerDelete => simp [addQER, handleUplinkQER, handleDownlinkQER] at hfrom
    | _ => exact ⟨q', hq', arg', e', hcmd', hentry', hlook'⟩
  · intro s s' hstep hs
    cases Modules.step_cases hstep with
    | qerAdd _ _ key e hentry =>
      have hkey : s.appQERLookup.extractKey (qerFields i q) = .ok key := (Qos.entry_ok hentry).1
      rw [extractKey_app hs i hlevel, Except.ok.injEq] at hkey
      subst hkey
      exact ⟨q, hq, _, e, hcmd, hentry, lookup_insert _⟩

/-! ## Packets of an established session -/

def sessionQerID (pdrs : List Pdr) (qers : List Qer) : Option UInt32 :=
  (selectSessionQer pdrs qers).bind fun choice => (qers[choice.sessionIdx]?).map Qer.qerID

theorem sessionQos_iff {pdrs : List Pdr} {qers : List Qer}
    (happ : ∀ q ∈ qers, q.qosLevel = .applicationQos) (hnodup : (qers.map Qer.qerID).Nodup)
    (hq : q ∈ (markSessionQer pdrs qers).2) :
    q.qosLevel = .sessionQos ↔ sessionQerID pdrs qers = some q.qerID := by
  rw [markSessionQer_qers] at hq
  unfold sessionQerID
  cases hsel : selectSessionQer pdrs qers with
  | none =>
    rw [hsel] at hq
    simp [happ q hq]
  | some choice =>
    rw [hsel] at hq
    rcases mem_iff_getElem.mp hq with ⟨j, hj, rfl⟩
    rw [length_modify] at hj
    have hid : ∀ j', (qers[j']?).map Qer.qerID = some (qers[j].qerID) → j' = j := by
      intro j' hmap
      rw [← getElem?_map, ← getElem_map Qer.qerID (h := by simpa using hj)] at hmap
      rcases List.getElem?_eq_some_iff.mp hmap with ⟨hj', heq⟩
      exact (hnodup.getElem_inj_iff).mp heq
    by_cases hchoice : choice.sessionIdx = j
    · subst hchoice
      simp [Qer.markSession, hj]
    · have hne := mt (hid choice.sessionIdx) hchoice
      simp only [Option.bind_some, getElem_modify, hchoice, if_false, hne, iff_false]
      simp [happ _ (getElem_mem hj)]

structure SelfContained (m : Parsed) : Prop where
  pdrIDs : (m.createPDRs.map Pdr.pdrID).Nodup
  farIDs : (m.createFARs.map Far.farID).Nodup
  qerIDs : (m.createQERs.map Qer.qerID).Nodup
  fars : ∀ p ∈ m.createPDRs, p.farID ∈ m.createFARs.map Far.farID
  qers : ∀ p ∈ m.createPDRs, p.qerIDList ≠ [] ∧
    ∀ id ∈ p.qerIDList, id ∈ m.createQERs.map Qer.qerID

instance (m : Parsed) : Decidable (SelfContained m) :=
  decidable_of_iff ((m.createPDRs.map Pdr.pdrID).Nodup ∧ (m.createFARs.map Far.farID).Nodup ∧
      (m.createQERs.map Qer.qerID).Nodup ∧
      (∀ p ∈ m.createPDRs, p.farID ∈ m.createFARs.map Far.farID) ∧
      ∀ p ∈ m.createPDRs, p.qerIDList ≠ [] ∧
        p.qerIDList.all (fun id => decide (id ∈ m.createQERs.map Qer.qerID)) = true)
    ⟨fun ⟨h₁, h₂, h₃, h₄, h₅⟩ => ⟨h₁, h₂, h₃, h₄, by simpa only [all_eq_true,
        decide_eq_true_eq] using h₅⟩,
      fun ⟨h₁, h₂, h₃, h₄, h₅⟩ => ⟨h₁, h₂, h₃, h₄, by simpa only [all_eq_true,
        decide_eq_true_eq] using h₅⟩⟩

/-- A packet further down the pipeline, with the metadata that matters here. -/
def Carries (pkt pkt' : Packet Attr) : Prop :=
  ∀ a ∈ [Attr.srcIface, .fseid, .qerId, .farId], pkt'.attr a = pkt.attr a

/-- The key a packet presents to the application table is that of an entry
programmed from a QER its PDR names, so that it does not leave by the gate for
failed lookups, and the key it presents to `farLookup` is that of the FAR of
its PDR. -/
structure MeetsOwnRules (conf : BessConf) (lib : Libraries) (rules : PacketForwardingRules)
    (p : Pdr) (mods : Modules) (pkt : Packet Attr) : Prop where
  qer : ∀ pkt' buf, Carries pkt pkt' → ∃ q ∈ rules.qers, q.qerID ∈ p.qerIDList ∧
    HasAppEntry conf lib mods (mods.appQERLookup.makeKey pkt' buf) q
  noFailure : ∀ pkt' buf color, Carries pkt pkt' →
    (mods.appQERLookup.processPacket color buf pkt').1 ≠ qerFailGate
  far : ∀ pkt' buf, Carries pkt pkt' → ∃ f ∈ rules.fars, f.farID = p.farID ∧ f.fseID = p.fseID ∧
    mods.farLookup.gatherKey (farFields f) = .ok (mods.farLookup.makeKey pkt' buf)

/-- An entry programmed from a QER never sends a packet to the gate for failed
lookups. -/
theorem HasAppEntry.gate_ne {key : List UInt8} (h : HasAppEntry conf lib mods key q)
    {color : MeterParams → Color} {buf : Buffer} (hkey : mods.appQERLookup.makeKey pkt buf = key) :
    (mods.appQERLookup.processPacket color buf pkt).1 ≠ qerFailGate := by
  rcases h with ⟨arg, e, hcmd, hentry, hlook⟩
  rcases app_of_mem_addQER hcmd with ⟨-, rates, i, rfl, -, hgate⟩
  rcases Qos.entry_ok hentry with ⟨-, hogate, hmeter⟩
  unfold Qos.processPacket
  rw [hkey, hlook]
  dsimp only
  unfold QosEntry.gate
  cases hm : e.meter with
  | some params =>
    dsimp only
    generalize color params = c
    cases c <;> decide
  | none =>
    dsimp only
    have hne := hmeter hm
    rw [hogate] at hne ⊢
    change rates.gate.toUInt16 ≠ meterGate at hne
    change rates.gate.toUInt16 ≠ qerFailGate
    rcases hgate with hgate | hgate | hgate
    · rw [hgate] at hne
      exact absurd rfl hne
    · rw [hgate]
      decide
    · rw [hgate]
      decide

theorem HasAppEntry.qerID_eq {i : UInt8} {n : UInt32} {seid : UInt64}
    (hconf : mods.Configured) (h : HasAppEntry conf lib mods (appQERKey i n seid) q) :
    q.qosLevel = .applicationQos ∧ q.qerID = n := by
  rcases h with ⟨arg, e, hcmd, hentry, -⟩
  rcases app_of_mem_addQER hcmd with ⟨hlevel, rates, i', rfl, -, -⟩
  have hkey : mods.appQERLookup.extractKey (qerFields i' q) = .ok (appQERKey i n seid) :=
    (Qos.entry_ok hentry).1
  rw [extractKey_app hconf i' hlevel, Except.ok.injEq] at hkey
  exact ⟨hlevel, appQERKey_qerID hkey⟩

def establishmentParsed {σ : Type} (agent : AgentConf) (sereq : SessionEstablishmentRequest)
    (w : World σ) : Option Parsed :=
  match checkEstablishment agent sereq w.conn with
  | .error _ => none
  | .ok fseid =>
    (w.conn.newPFCPSession agent.rng fseid.seid agent.maxRetries).1.bind fun session =>
      (readEstablishment agent session.localSEID (ip2int fseid.ipv4Address) sereq { session }
        (w.upf.ippool, w.upf.fteidGenerator)).1.toOption.map fun d =>
          { createPDRs := d.addPDRs, createFARs := d.addFARs, createQERs := d.addQERs }

theorem sent_of_accepted {agent : AgentConf} {oracle : Nat → BatchOutcome}
    {sereq : SessionEstablishmentRequest} {w : World BessState} {m : Parsed}
    (h : (handleSessionEstablishmentRequest agent (bess conf oracle) sereq
      w).1.acceptsEstablishment = true)
    (hm : establishmentParsed agent sereq w = some m) :
    ∃ (new : PFCPSession) (added : BatchRecord), new.rules = {} ∧ m.Owned new.localSEID ∧
      added.Sends .add (m.installed new).rules ∧
      w.sent (handleSessionEstablishmentRequest agent (bess conf oracle) sereq w).2 =
        [added] := by
  unfold establishmentParsed at hm
  unfold handleSessionEstablishmentRequest at h ⊢
  cases hcheck : checkEstablishment agent sereq w.conn with
  | error => simp [hcheck] at hm
  | ok fseid =>
    rw [hcheck] at h hm
    dsimp only at h hm ⊢
    rcases PFCPConn.newPFCPSession_cases agent.rng fseid.seid agent.maxRetries w.conn with
      ⟨n, hnone | ⟨i, -, -, hsome⟩⟩
    · simp [hnone] at hm
    · rw [hsome] at h hm ⊢
      set new : PFCPSession := { localSEID := agent.rng i, remoteSEID := fseid.seid }
      dsimp only [Option.bind_some] at h hm ⊢
      unfold establish at h ⊢
      dsimp only at h ⊢
      rcases hread : readEstablishment agent new.localSEID (ip2int fseid.ipv4Address) sereq
        { session := new } (w.upf.ippool, w.upf.fteidGenerator) with ⟨refusal | d, res⟩
      · simp [hread, Except.toOption] at hm
      · rcases readEstablishment_ok hread with ⟨m', hfrom, rfl, -⟩
        have hm' : m' = m := by
          rcases hfrom.updates with ⟨hup, huf, huq⟩
          rcases m' with ⟨cps, cfs, cqs, ups, ufs, uqs⟩
          dsimp only at hup huf huq
          subst hup huf huq
          simpa [hread, Except.toOption, Parsed.create_draft] using hm
        subst hm'
        rw [hread] at h
        dsimp only at h ⊢
        set marked := markEstablishment (m'.create { session := new })
        change (writeEstablishment agent (bess conf oracle) marked
          (w.withDraws n res)).1.acceptsEstablishment = true at h
        change ∃ new added, _ ∧ _ ∧ _ ∧ w.sent (writeEstablishment agent (bess conf oracle)
          marked (w.withDraws n res)).2 = [added]
        have hadv : w.Advanced conf (w.withDraws n res) [] :=
          (World.Advanced.refl w).congr rfl rfl
        set added := (w.withDraws n res).nextBatch oracle .add marked.session.rules marked.added
        refine ⟨new, added, rfl, hfrom.owned, ⟨rfl, rfl⟩, ?_⟩
        rcases writeEstablishment_cases agent (bess conf oracle) marked (w.withDraws n res) with
          ⟨-, -, hend⟩ | ⟨-, -, hend⟩ | ⟨-, response, -, hend⟩
        · rw [hend, acceptsEstablishment_errProcessReply _ _ (by decide)] at h
          exact absurd h (by decide)
        · rw [hend, acceptsEstablishment_errProcessReply _ _ (by decide)] at h
          exact absurd h (by decide)
        · rw [hend]
          exact World.sent_of_log (hadv.after added).log

theorem keys_of_answer {mods : Modules} (hconf : mods.Configured) {p : Pdr} {i : UInt8}
    {pkt pkt' : Packet Attr} {buf : Buffer} {r : WmRule} (hi : pkt.attr .srcIface = [i])
    (hr : r ∈ mods.pdrLookup.pdrRules p)
    (hanswer : mods.pdrLookup.lookupBulkEntry (mods.pdrLookup.makeKey pkt buf) = some r.data)
    (hcarries : Carries (mods.pdrLookup.processPacket buf pkt).2 pkt') (buf' : Buffer) :
    mods.appQERLookup.makeKey pkt' buf' = appQERKey i (firstQer p) p.fseID ∧
      mods.farLookup.makeKey pkt' buf' = farKey p.farID p.fseID := by
  rcases attrs_of_answer hconf hr hanswer with ⟨hsrc, hseid, hqer, hfar⟩
  have hsrc' := (hcarries .srcIface (by decide)).trans (hsrc.trans hi)
  have hseid' := (hcarries .fseid (by decide)).trans hseid
  have hqer' := (hcarries .qerId (by decide)).trans hqer
  have hfar' := (hcarries .farId (by decide)).trans hfar
  exact ⟨makeKey_app hconf hsrc' hqer' hseid' buf', makeKey_far hconf hfar' hseid' buf'⟩

theorem firstQer_of_selfContained {m : Parsed} (hself : SelfContained m) {p : Pdr}
    (hp : p ∈ m.createPDRs) :
    (m.markInstalled p).qerIDList.head? = some (firstQer (m.markInstalled p)) ∧
      firstQer (m.markInstalled p) ∈ (m.markInstalled p).qerIDList ∧
      ∃ q ∈ (markSessionQer m.createPDRs m.createQERs).2,
        q.qerID = firstQer (m.markInstalled p) := by
  have hperm : (m.markInstalled p).qerIDList.Perm p.qerIDList :=
    (markPdr_perm _ _ _).trans (markPdr_perm _ _ _)
  rcases hself.qers p hp with ⟨hne, hnamed⟩
  cases hlist : (m.markInstalled p).qerIDList with
  | nil => exact absurd (perm_nil.mp (hlist ▸ hperm).symm) hne
  | cons id =>
    have hfirst : firstQer (m.markInstalled p) = id := by simp [firstQer, hlist]
    have hid : id ∈ m.createQERs.map Qer.qerID :=
      hnamed id (hperm.mem_iff.mp (hlist ▸ mem_cons_self))
    rw [← markSessionQer_ids m.createPDRs] at hid
    rw [hfirst]
    exact ⟨rfl, mem_cons_self, mem_map.mp hid⟩

theorem meetsOwnRules_iff {m : Parsed} {seid : UInt64} (hown : m.Owned seid)
    (hself : SelfContained m) {rules : PacketForwardingRules} (hfars : rules.fars = m.createFARs)
    (hqers : rules.qers = (markSessionQer m.createPDRs m.createQERs).2) {mods mods' : Modules}
    {cs : List Upf.Command} (hconf : mods.Configured) (hperm : cs.Perm (commands conf .add rules))
    (hrun : runAll (Modules.step lib) cs mods = some mods') {p : Pdr} (hp : p ∈ m.createPDRs)
    {pkt : Packet Attr} {buf : Buffer} {i : UInt8} (hsrc : pkt.attr .srcIface = [i])
    (hi : i = access ∨ i = core) {r : WmRule}
    (hr : r ∈ mods'.pdrLookup.pdrRules (m.markInstalled p))
    (hanswer : mods'.pdrLookup.lookupBulkEntry (mods'.pdrLookup.makeKey pkt buf) = some r.data) :
    MeetsOwnRules conf lib rules (m.markInstalled p) mods'
        (mods'.pdrLookup.processPacket buf pkt).2 ↔
      (m.markInstalled p).qerIDList.head? ≠ sessionQerID m.createPDRs m.createQERs := by
  have hconf' : mods'.Configured :=
    runAll_invariant (fun c _ s s' hstep hs => hs.step hstep) hrun hconf
  have hkeys := fun pkt' (hcarries : Carries _ pkt') =>
    keys_of_answer hconf' hsrc hr hanswer hcarries
  have happ : ∀ q ∈ m.createQERs, q.qosLevel = .applicationQos := fun q hq =>
    (hown.qers q (mem_append_left _ hq)).2
  have hseid : (m.markInstalled p).fseID = seid := by
    rw [Parsed.markInstalled_eq]
    exact hown.pdrs p (mem_append_left _ hp)
  rcases firstQer_of_selfContained hself hp with ⟨hhead, hnames, q, hq, hid⟩
  have hlevel : ∀ {q}, q ∈ (markSessionQer m.createPDRs m.createQERs).2 →
      (q.qosLevel = .sessionQos ↔ sessionQerID m.createPDRs m.createQERs = some q.qerID) :=
    fun hq => sessionQos_iff happ hself.qerIDs hq
  constructor
  · intro hmeets hsession
    -- The entry the packet hits belongs to the first QER, which is at session level.
    rcases hmeets.qer _ (fun _ => 0) (fun _ _ => rfl) with ⟨q', hq', -, hentry⟩
    rw [(hkeys _ (fun _ _ => rfl) _).1] at hentry
    rcases hentry.qerID_eq hconf' with ⟨hlevel', hid'⟩
    rw [hqers] at hq'
    have := (hlevel hq').mpr (by rw [← hsession, hhead, hid'])
    rw [hlevel'] at this
    exact absurd this (by decide)
  · intro hne
    have hqlevel : q.qosLevel = .applicationQos := by
      cases hcase : q.qosLevel with
      | applicationQos => rfl
      | sessionQos => exact absurd ((hlevel hq).mp hcase) (by rw [hid, ← hhead]; exact hne.symm)
    have hqseid : q.fseID = seid := by
      rcases mem_markSessionQer_qers hq with ⟨q₀, hq₀, heq⟩
      have := (hown.qers q₀ (mem_append_left _ hq₀)).1
      rcases heq with rfl | rfl <;> exact this
    rcases hasAppEntry_of_run hperm hconf hrun (hqers ▸ hq) hqlevel hi with ⟨q', hq', hentry⟩
    rw [hid, hqseid, ← hseid] at hentry
    have hid' := (hentry.qerID_eq hconf').2
    constructor
    · intro pkt' buf' hcarries
      rw [(hkeys pkt' hcarries buf').1]
      exact ⟨q', hq', hid' ▸ hnames, hentry⟩
    · intro pkt' buf' color hcarries
      exact hentry.gate_ne (hkeys pkt' hcarries buf').1
    · intro pkt' buf' hcarries
      rcases mem_map.mp (hself.fars p hp) with ⟨f, hf, hfid⟩
      have hpfar : (m.markInstalled p).farID = p.farID := by rw [Parsed.markInstalled_eq]
      have hfseid : f.fseID = seid := hown.fars f (mem_append_left _ hf)
      refine ⟨f, hfars ▸ hf, hfid.trans hpfar.symm, hfseid.trans hseid.symm, ?_⟩
      rw [(hkeys pkt' hcarries buf').2, gatherKey_far hconf', hpfar, hfid, hfseid, hseid]

/-- A packet of an accepted establishment meets a QER its PDR names and its PDR's
own FAR, whatever the modules held before, in whichever order the commands arrived
and whatever stands behind the fields in the packet, exactly when the first QER of
the PDR is not the one the selection sent to the session table. -/
theorem packet_meets_own_rules_iff (agent : AgentConf) (conf : BessConf)
    (oracle : Nat → BatchOutcome) (sereq : SessionEstablishmentRequest) (w : World BessState)
    (haccepted : (handleSessionEstablishmentRequest agent (bess conf oracle) sereq
      w).1.acceptsEstablishment = true)
    (m : Parsed) (hm : establishmentParsed agent sereq w = some m) (hself : SelfContained m)
    (added : BatchRecord) (hsent : w.sent (handleSessionEstablishmentRequest agent
      (bess conf oracle) sereq w).2 = [added])
    (lib : Libraries) (mods mods' : Modules) (hconf : mods.Configured) (cs : List Upf.Command)
    (hperm : cs.Perm (added.commands conf))
    (hrun : runAll (Modules.step lib) cs mods = some mods') (p : Pdr) (hp : p ∈ m.createPDRs)
    (pkt : Packet Attr) (buf : Buffer)
    (hsrc : pkt.attr .srcIface = [access] ∨ pkt.attr .srcIface = [core])
    (hanswer : ∃ r ∈ mods'.pdrLookup.pdrRules (m.markInstalled p),
      mods'.pdrLookup.lookupBulkEntry (mods'.pdrLookup.makeKey pkt buf) = some r.data) :
    MeetsOwnRules conf lib added.rules (m.markInstalled p) mods'
        (mods'.pdrLookup.processPacket buf pkt).2 ↔
      (m.markInstalled p).qerIDList.head? ≠ sessionQerID m.createPDRs m.createQERs := by
  rcases sent_of_accepted haccepted hm with ⟨new, added', hrules, hown, hsends, hsent'⟩
  rw [hsent, List.cons.injEq] at hsent'
  rcases hsent' with ⟨rfl, -⟩
  rcases hanswer with ⟨r, hr, hanswer⟩
  have hinstalled : added.rules = _ :=
    hsends.rules.trans (congrArg PFCPSession.rules (Parsed.installed_eq hrules))
  have hcommands : added.commands conf = commands conf .add added.rules := by
    rw [BatchRecord.commands, hsends.method]
  rw [hcommands] at hperm
  have hboth := fun i hsrc hi => meetsOwnRules_iff (i := i) hown hself
    (by rw [hinstalled]) (by rw [hinstalled]) hconf hperm hrun hp hsrc hi hr hanswer
  rcases hsrc with hsrc | hsrc
  · exact hboth access hsrc (.inl rfl)
  · exact hboth core hsrc (.inr rfl)

/-! ## Evaluation -/

def establishTwoLevels (qerIDs : List UInt32) : SessionEstablishmentRequest :=
  .sample [.sample 1 100 qerIDs] [.sample 1 actionDrop] [.sample 1 1000, .sample 2 2000]

def twoLevelsEnd (qerIDs : List UInt32) : Reply SessionEstablishmentResponse × World BessState :=
  handleSessionEstablishmentRequest .sample (bess .sample (carryOut .sample []))
    (establishTwoLevels qerIDs) .sample

def twoLevelsParsed (qerIDs : List UInt32) : Parsed :=
  (establishmentParsed .sample (establishTwoLevels qerIDs) World.sample).getD {}

def twoLevelsBatch (qerIDs : List UInt32) : BatchRecord :=
  (World.sample.sent (twoLevelsEnd qerIDs).2).headD
    { method := .del, rules := {}, outcome := carryOut .sample [] 0 }

def twoLevelsModules (qerIDs : List UInt32) : Modules :=
  (runAll (Modules.step .willing) ((twoLevelsBatch qerIDs).commands .sample) {}).getD {}

def twoLevelsPdr (qerIDs : List UInt32) : Pdr := (twoLevelsParsed qerIDs).createPDRs.headD {}

def tunnelPacket : Packet Attr := (uplinkPacket 100).set (.attr .tunnelIpv4Dst) [198, 18, 0, 1]

/-- A PDR that names both QERs is programmed with the one at application level. -/
theorem packet_meets_own_rules_both :
    let mods := twoLevelsModules [1, 2]
    (twoLevelsEnd [1, 2]).1.acceptsEstablishment = true ∧
      MeetsOwnRules .sample .willing (twoLevelsBatch [1, 2]).rules
        ((twoLevelsParsed [1, 2]).markInstalled (twoLevelsPdr [1, 2])) mods
        (mods.pdrLookup.processPacket (fun _ => 0xaa) tunnelPacket).2 := by
  refine ⟨by decide, ?_⟩
  apply (packet_meets_own_rules_iff .sample .sample (carryOut .sample [])
    (establishTwoLevels [1, 2]) .sample (by decide) (twoLevelsParsed [1, 2]) ?_ (by decide)
    (twoLevelsBatch [1, 2]) ?_ .willing {} (twoLevelsModules [1, 2]) ⟨rfl, rfl, rfl, rfl⟩
    ((twoLevelsBatch [1, 2]).commands .sample) (.refl _) ?_ (twoLevelsPdr [1, 2]) (by decide)
    tunnelPacket (fun _ => 0xaa) (.inl rfl) (by decide)).mpr (by decide)
  · rfl
  · rfl
  · rfl

/-- A PDR that names the session QER only is programmed with it.  Its packets have
no entry in the application table and leave by the gate for failed lookups. -/
theorem session_qer_only_fails :
    let mods := twoLevelsModules [2]
    let pkt := (mods.pdrLookup.processPacket (fun _ => 0xaa) tunnelPacket).2
    (twoLevelsEnd [2]).1.acceptsEstablishment = true ∧ SelfContained (twoLevelsParsed [2]) ∧
      runAll (Modules.step .willing) ((twoLevelsBatch [2]).commands .sample) {} = some mods ∧
      (∃ r ∈ mods.pdrLookup.pdrRules ((twoLevelsParsed [2]).markInstalled (twoLevelsPdr [2])),
        mods.pdrLookup.lookupBulkEntry (mods.pdrLookup.makeKey tunnelPacket fun _ => 0xaa) =
          some r.data) ∧
      (mods.appQERLookup.processPacket (fun _ => .green) (fun _ => 0xaa) pkt).1 = qerFailGate :=
  ⟨by decide, by decide, rfl, by decide, by decide⟩

end Upf.Bess
