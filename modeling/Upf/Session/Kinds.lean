import Upf.Lib.Families
import Upf.Session.Outcomes

/-!
# The three kinds of rules

PDRs, FARs and QERs are programmed alike: each rule has an ID within its session
and compiles to entries of the tables of its kind.  `RuleKind` is what the
three have in common, so that the correspondence between store and tables is
developed once.
-/

namespace Upf

open Lib List Family

/-- A kind of rule: where its rules stand, what they compile to, and the keys of
its tables. -/
structure RuleKind (conf : BessConf) where
  Rule : Type
  rules : PacketForwardingRules → List Rule
  family : Family Rule UInt32 RuleKey RuleEntry
  fseID : Rule → UInt64
  isKey : RuleKey → Prop
  mem_entries : ∀ {rs k e}, isKey k → ((k, e) ∈ rs.entries conf ↔ (k, e) ∈ family.all (rules rs))
  isKey_of_mem : ∀ {r k e}, (k, e) ∈ family.entries r → isKey k
  carries : ∀ {r k e seid}, (k, e) ∈ family.entries r → (carriesFSEID seid k e ↔ fseID r = seid)
  owned : ∀ {rs seid}, rs.OwnedBy seid → ∀ r ∈ rules rs, fseID r = seid
  removes : ∀ {s s' deleted}, Removes s s' deleted →
    (rules s.rules).Perm (rules deleted ++ rules s'.rules)
  empty : rules {} = []

def RuleKey.isPdr : RuleKey → Prop
  | .pdrLookup _ _ => True
  | _ => False

def RuleKey.isFar : RuleKey → Prop
  | .farLookup _ => True
  | _ => False

def RuleKey.isQer : RuleKey → Prop
  | .qerLookup _ _ => True
  | _ => False

section Instances

variable (conf : BessConf)
variable {e : RuleEntry} {k : RuleKey}

theorem isPdr_of_mem {p : Pdr} (h : (k, e) ∈ pdrEntries p) :
    k.isPdr := by
  rcases mem_pdrEntries.mp h with ⟨-, r, -, rfl⟩
  trivial

theorem isQer_of_mem {q : Qer} (h : (k, e) ∈ qerEntries conf q) :
    k.isQer := by
  simp only [qerEntries, qerEntry, mem_cons, Prod.mk.injEq, not_mem_nil, or_false] at h
  rcases h with ⟨rfl, -⟩ | ⟨rfl, -⟩ <;> trivial

theorem mem_entries_of_isPdr {rs : PacketForwardingRules}
    (hk : k.isPdr) : (k, e) ∈ rs.entries conf ↔ ∃ p ∈ rs.pdrs, (k, e) ∈ pdrEntries p := by
  rw [mem_entries]
  constructor
  · rintro (hp | ⟨f, -, hf⟩ | ⟨q, -, hq⟩)
    · exact hp
    · cases hf
      exact absurd hk (by simp [RuleKey.isPdr])
    · have hkq := isQer_of_mem conf hq
      cases k <;> simp_all [RuleKey.isPdr, RuleKey.isQer]
  · exact .inl

theorem mem_entries_of_isFar {rs : PacketForwardingRules}
    (hk : k.isFar) : (k, e) ∈ rs.entries conf ↔ ∃ f ∈ rs.fars, (k, e) ∈ [farEntry f] := by
  rw [mem_entries]
  constructor
  · rintro (⟨p, -, hp⟩ | ⟨f, hf, hfar⟩ | ⟨q, -, hq⟩)
    · have hkp := isPdr_of_mem hp
      cases k <;> simp_all [RuleKey.isPdr, RuleKey.isFar]
    · exact ⟨f, hf, by simp [hfar]⟩
    · have hkq := isQer_of_mem conf hq
      cases k <;> simp_all [RuleKey.isFar, RuleKey.isQer]
  · rintro ⟨f, hf, hfar⟩
    exact .inr (.inl ⟨f, hf, (mem_singleton.mp hfar).symm⟩)

theorem mem_entries_of_isQer {rs : PacketForwardingRules}
    (hk : k.isQer) : (k, e) ∈ rs.entries conf ↔ ∃ q ∈ rs.qers, (k, e) ∈ qerEntries conf q := by
  rw [mem_entries]
  constructor
  · rintro (⟨p, -, hp⟩ | ⟨f, -, hf⟩ | hq)
    · have hkp := isPdr_of_mem hp
      cases k <;> simp_all [RuleKey.isPdr, RuleKey.isQer]
    · cases hf
      exact absurd hk (by simp [RuleKey.isQer])
    · exact hq
  · exact fun hq => Or.inr (.inr hq)

def pdrFamily : Family Pdr UInt32 RuleKey RuleEntry where
  id := Pdr.pdrID
  entries := pdrEntries
  single p k v v' hv hv' := by
    rw [(mem_pdrEntries.mp hv).1, (mem_pdrEntries.mp hv').1]

def farFamily : Family Far UInt32 RuleKey RuleEntry where
  id := Far.farID
  entries f := [farEntry f]
  single f k v v' hv hv' := by
    rw [mem_singleton] at hv hv'
    rw [← hv'] at hv
    exact (Prod.mk.inj hv).2.symm

theorem qerEntries_single (q : Qer) (k : RuleKey) (v v' : RuleEntry)
    (hv : (k, v) ∈ qerEntries conf q) (hv' : (k, v') ∈ qerEntries conf q) : v' = v := by
  have hne : qerFields access q ≠ qerFields core q := by
    cases hlevel : q.qosLevel <;> simp [qerFields, hlevel] <;> decide
  simp only [qerEntries, qerEntry, mem_cons, Prod.mk.injEq, not_mem_nil, or_false]
    at hv hv'
  rcases hv with ⟨rfl, rfl⟩ | ⟨rfl, rfl⟩ <;> rcases hv' with ⟨hk, rfl⟩ | ⟨hk, rfl⟩
  · rfl
  · exact absurd (RuleKey.qerLookup.inj hk).2 hne
  · exact absurd (RuleKey.qerLookup.inj hk).2.symm hne
  · rfl

def qerFamily : Family Qer UInt32 RuleKey RuleEntry where
  id := Qer.qerID
  entries := qerEntries conf
  single := qerEntries_single conf

def pdrKind : RuleKind conf where
  Rule := Pdr
  rules := PacketForwardingRules.pdrs
  family := pdrFamily
  fseID := Pdr.fseID
  isKey := RuleKey.isPdr
  mem_entries hk := by rw [mem_entries_of_isPdr conf hk, mem_all]; rfl
  isKey_of_mem := isPdr_of_mem
  carries := carriesFSEID_pdr
  owned h := h.pdrs
  removes h := h.pdrs
  empty := rfl

def farKind : RuleKind conf where
  Rule := Far
  rules := PacketForwardingRules.fars
  family := farFamily
  fseID := Far.fseID
  isKey := RuleKey.isFar
  mem_entries hk := by rw [mem_entries_of_isFar conf hk, mem_all]; rfl
  isKey_of_mem h := by
    rw [(Prod.mk.inj (mem_singleton.mp h)).1]
    trivial
  carries h := by
    rw [(Prod.mk.inj (mem_singleton.mp h)).1]
    exact carriesFSEID_far
  owned h := h.fars
  removes h := h.fars
  empty := rfl

def qerKind : RuleKind conf where
  Rule := Qer
  rules := PacketForwardingRules.qers
  family := qerFamily conf
  fseID := Qer.fseID
  isKey := RuleKey.isQer
  mem_entries hk := by rw [mem_entries_of_isQer conf hk, mem_all]; rfl
  isKey_of_mem := isQer_of_mem conf
  carries := carriesFSEID_qer
  owned h := h.qers
  removes h := h.qers
  empty := rfl

end Instances

namespace RuleKind

variable {conf : BessConf} (K : RuleKind conf)

/-- What the tables hold of this kind for a session. -/
def own (seid : UInt64) (k : RuleKey) (e : RuleEntry) : Prop := K.isKey k ∧ carriesFSEID seid k e

def entriesOf (rs : PacketForwardingRules) : List (RuleKey × RuleEntry) :=
  K.family.all (K.rules rs)

variable {K}

theorem own_of_mem_entriesOf {rs : PacketForwardingRules} {seid : UInt64} (h : rs.OwnedBy seid)
    {k : RuleKey} {e : RuleEntry} (he : (k, e) ∈ K.entriesOf rs) : K.own seid k e := by
  rcases mem_all.mp he with ⟨r, hr, hre⟩
  exact ⟨K.isKey_of_mem hre, (K.carries hre).mpr (K.owned h r hr)⟩

variable {batch : BatchRecord}

theorem mem_ops_iff_puts (h : batch.TookEffect conf) (hmethod : batch.method ≠ .del)
    (op : Table.Op RuleKey RuleEntry) (hk : K.isKey op.key) :
    op ∈ batch.ops conf ↔ op ∈ Table.puts (K.entriesOf batch.rules) := by
  rw [h.mem_ops_iff_puts hmethod, Table.mem_puts, Table.mem_puts]
  constructor
  · rintro ⟨k, e, he, rfl⟩
    exact ⟨k, e, (K.mem_entries hk).mp he, rfl⟩
  · rintro ⟨k, e, he, rfl⟩
    exact ⟨k, e, (K.mem_entries hk).mpr he, rfl⟩

theorem mem_ops_iff_dels (h : batch.TookEffect conf) (hmethod : batch.method = .del)
    (op : Table.Op RuleKey RuleEntry) (hk : K.isKey op.key) :
    op ∈ batch.ops conf ↔ op ∈ (Table.dels ((K.entriesOf batch.rules).map Prod.fst)) := by
  rw [h.mem_ops_iff_dels hmethod, Table.mem_dels, Table.mem_dels]
  constructor
  · rintro ⟨k, hk', rfl⟩
    rcases mem_map.mp hk' with ⟨⟨k, e⟩, he, rfl⟩
    exact ⟨k, mem_map_of_mem ((K.mem_entries hk).mp he), rfl⟩
  · rintro ⟨k, hk', rfl⟩
    rcases mem_map.mp hk' with ⟨⟨k, e⟩, he, rfl⟩
    exact ⟨k, mem_map_of_mem ((K.mem_entries hk).mpr he), rfl⟩

theorem exists_rule_of_mem_ops {op : Table.Op RuleKey RuleEntry} (hop : op ∈ batch.ops conf)
    (hk : K.isKey op.key) :
    ∃ r ∈ K.rules batch.rules, ∃ e, (op.key, e) ∈ K.family.entries r ∧
      ∀ v, op.result = some v → v = e := by
  by_cases hmethod : batch.method = .del
  · rcases Table.mem_dels.mp (BatchRecord.mem_dels_of_mem_ops hmethod hop) with ⟨k, hk', rfl⟩
    rcases mem_map.mp hk' with ⟨⟨k, e⟩, he, rfl⟩
    rcases mem_all.mp ((K.mem_entries hk).mp he) with ⟨r, hr, hre⟩
    exact ⟨r, hr, e, hre, by simp⟩
  · rcases Table.mem_puts.mp (BatchRecord.mem_puts_of_mem_ops hmethod hop) with ⟨k, e, he, rfl⟩
    rcases mem_all.mp ((K.mem_entries hk).mp he) with ⟨r, hr, hre⟩
    exact ⟨r, hr, e, hre, by simp [eq_comm]⟩

theorem frame {w w' : World BessState} {batches : List BatchRecord} {seid seid' : UInt64}
    {rs : PacketForwardingRules} (h : Table.Holds w.tables (K.own seid') (K.entriesOf rs))
    (hadv : w.Advanced conf w' batches) (howned : ∀ batch ∈ batches, batch.rules.OwnedBy seid)
    (hne : seid' ≠ seid)
    (hcross : ∀ batch ∈ batches, ∀ r ∈ K.rules batch.rules, ∀ r' ∈ K.rules rs,
      K.family.Disjoint r r') :
    Table.Holds w'.tables (K.own seid') (K.entriesOf rs) := by
  rw [hadv.tables]
  apply h.frame
  · intro op hop v hv hown
    rcases mem_flatMap.mp hop with ⟨batch, hbatch, hop⟩
    rcases exists_rule_of_mem_ops hop hown.1 with ⟨r, hr, e, hre, -⟩
    rcases mem_all.mp ((h op.key v).mp ⟨hv, hown⟩) with ⟨r', hr', hrv⟩
    exact hcross batch hbatch r hr r' hr' op.key e v hre hrv
  · intro op hop v hv hown
    rcases mem_flatMap.mp hop with ⟨batch, hbatch, hop⟩
    rcases exists_rule_of_mem_ops hop hown.1 with ⟨r, hr, e, hre, hres⟩
    rw [hres v hv, own, K.carries hre, K.owned (howned batch hbatch) r hr] at hown
    exact hne hown.2.symm

end RuleKind

end Upf
