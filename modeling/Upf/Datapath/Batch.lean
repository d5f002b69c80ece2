import Upf.Datapath.Entries

/-!
# Batches and their outcome

The handlers know the datapath through an interface: they send a batch and learn
a cause and whether it finished.  `Datapath` is that interface with an
explicit state.  `bess` is the instance behind it: an oracle says, batch by
batch, which commands the modules carried out and in which order, whether one
was refused, and whether all workers were through in time.  The state keeps the
match tables and a log of the batches.
-/

namespace Upf

open Lib List

/-- The datapath as the session handlers use it. -/
structure Datapath (σ : Type) where
  sendMsgToUPFWithCompletion :
    UpfMsgType → PacketForwardingRules → PacketForwardingRules → σ → (Cause × Bool) × σ
  sendEndMarkers : List (List UInt8) → σ → σ

/-- A batch that was sent, and what the datapath answered. -/
structure BatchAnswer where
  method : UpfMsgType
  rules : PacketForwardingRules
  cause : Cause
  finished : Bool
deriving DecidableEq

/-- A datapath state together with all that has crossed the interface. -/
structure Observed (σ : Type) where
  state : σ
  answers : List BatchAnswer := []
  endMarkers : List (List UInt8) := []

def Datapath.observed {σ : Type} (dp : Datapath σ) : Datapath (Observed σ) where
  sendMsgToUPFWithCompletion method rules updated s :=
    let sent := dp.sendMsgToUPFWithCompletion method rules updated s.state
    (sent.1, { s with
      state := sent.2
      answers := s.answers ++ [
        { method, rules := batchRules method rules updated,
          cause := sent.1.1, finished := sent.1.2 }] })
  sendEndMarkers endMarkerList s :=
    { s with
      state := dp.sendEndMarkers endMarkerList s.state
      endMarkers := s.endMarkers ++ endMarkerList }

def scripted : Datapath (List (Cause × Bool)) where
  sendMsgToUPFWithCompletion _ _ _ s :=
    match s with
    | [] => ((.requestAccepted, true), [])
    | answer :: rest => (answer, rest)
  sendEndMarkers _ s := s

/-- What becomes of a batch: the commands carried out, in order, whether a
module refused one, and whether every worker reported in time. -/
structure BatchOutcome where
  carriedOut : List Command
  refused : Bool
  finished : Bool

structure BatchRecord where
  method : UpfMsgType
  rules : PacketForwardingRules
  outcome : BatchOutcome

structure BessState where
  tables : Tables
  endMarkerChan : List (List UInt8) := []
  log : List BatchRecord := []

namespace BatchRecord

variable (conf : BessConf) (batch : BatchRecord)

def commands : List Command := Upf.commands conf batch.method batch.rules

def ops : List (Table.Op RuleKey RuleEntry) :=
  (batch.outcome.carriedOut.filter fun c => c ∈ batch.commands conf).filterMap Command.op

def translated : Bool :=
  (workers conf batch.method batch.rules).all fun w => w.toOption.isSome

def calls : Nat := batch.rules.pdrs.length + batch.rules.fars.length + batch.rules.qers.length

/-- The answer to the batch.  A batch without workers is accepted at once; one
that finished is rejected if a worker reported failure, because a module
refused a command or a rule did not translate. -/
def result : Cause × Bool :=
  if batch.calls = 0 then (.requestAccepted, true)
  else if batch.outcome.finished && (batch.outcome.refused || !batch.translated conf) then
    (.requestRejected, true)
  else (.requestAccepted, batch.outcome.finished)

def TookEffect : Prop := ∀ c ∈ batch.commands conf, c ∈ batch.outcome.carriedOut

/-- The batch finished, was carried out in full, and no module refused a
command. -/
structure Clean : Prop where
  tookEffect : batch.TookEffect conf
  refused : batch.outcome.refused = false
  finished : batch.outcome.finished = true

instance : Decidable (batch.TookEffect conf) :=
  inferInstanceAs (Decidable (∀ c ∈ batch.commands conf, c ∈ batch.outcome.carriedOut))

instance : Decidable (batch.Clean conf) :=
  decidable_of_iff (_ ∧ _ ∧ _)
    ⟨fun h => ⟨h.1, h.2.1, h.2.2⟩, fun h => ⟨h.tookEffect, h.refused, h.finished⟩⟩

variable {conf batch}
variable {op : Table.Op RuleKey RuleEntry}

theorem mem_ops_of_mem (h : op ∈ batch.ops conf) :
    op ∈ (batch.commands conf).filterMap Command.op := by
  simp only [ops, mem_filterMap, mem_filter, decide_eq_true_eq] at h ⊢
  rcases h with ⟨c, ⟨-, hc⟩, hop⟩
  exact ⟨c, hc, hop⟩

theorem mem_ops_of_tookEffect (h : batch.TookEffect conf) :
    op ∈ batch.ops conf ↔ op ∈ (batch.commands conf).filterMap Command.op := by
  constructor
  · exact mem_ops_of_mem
  · simp only [ops, mem_filterMap, mem_filter, decide_eq_true_eq]
    rintro ⟨c, hc, hop⟩
    exact ⟨c, ⟨h c hc, hc⟩, hop⟩

theorem mem_puts_of_mem_ops (hmethod : batch.method ≠ .del)
    (h : op ∈ batch.ops conf) : op ∈ Table.puts (batch.rules.entries conf) := by
  rw [← commands_write_ops conf hmethod]
  exact mem_ops_of_mem h

theorem mem_dels_of_mem_ops (hmethod : batch.method = .del)
    (h : op ∈ batch.ops conf) :
    op ∈ Table.dels ((batch.rules.entries conf).map Prod.fst) := by
  rw [← commands_del_ops conf, ← hmethod]
  exact mem_ops_of_mem h

theorem TookEffect.mem_ops_iff_puts (h : batch.TookEffect conf) (hmethod : batch.method ≠ .del) :
    op ∈ batch.ops conf ↔ op ∈ Table.puts (batch.rules.entries conf) := by
  rw [← commands_write_ops conf hmethod]
  exact mem_ops_of_tookEffect h

theorem TookEffect.mem_ops_iff_dels (h : batch.TookEffect conf) (hmethod : batch.method = .del) :
    op ∈ batch.ops conf ↔ op ∈ Table.dels ((batch.rules.entries conf).map Prod.fst) := by
  rw [← commands_del_ops conf, ← hmethod]
  exact mem_ops_of_tookEffect h

theorem Clean.result (h : batch.Clean conf) :
    batch.result conf =
      (if batch.calls ≠ 0 ∧ batch.translated conf = false then .requestRejected
        else .requestAccepted, true) := by
  unfold BatchRecord.result
  by_cases hcalls : batch.calls = 0
  · simp [hcalls]
  · cases htrans : batch.translated conf <;> simp [hcalls, h.refused, h.finished]

end BatchRecord

/-- Whether the ports of a PDR translate to ternary rules. -/
def Pdr.translates (p : Pdr) : Bool :=
  (createPortRangeCartesianProduct p.appFilter.srcPortRange
    p.appFilter.dstPortRange).toOption.isSome

theorem BatchRecord.translated_eq (conf : BessConf) (batch : BatchRecord) :
    batch.translated conf = batch.rules.pdrs.all Pdr.translates := by
  have hpdr : ∀ p : Pdr, (addPDR p).toOption.isSome = p.translates ∧
      (delPDR p).toOption.isSome = p.translates := by
    intro p
    unfold addPDR delPDR Pdr.translates
    cases createPortRangeCartesianProduct p.appFilter.srcPortRange p.appFilter.dstPortRange <;>
      exact ⟨rfl, rfl⟩
  have hok : ∀ cs : List Command, (Except.ok cs : Except GoError (List Command)).toOption.isSome =
      true := fun _ => rfl
  have hall : ∀ {α : Type} (l : List α), (l.all fun _ => true) = true := by simp
  unfold BatchRecord.translated workers
  cases batch.method <;>
    simp [all_append, all_map, Function.comp_def, hpdr, hok, hall]

theorem BatchRecord.Clean.accepted_iff {conf : BessConf} {batch : BatchRecord}
    (h : batch.Clean conf) :
    (batch.result conf).1 ≠ .requestRejected ↔ ∀ p ∈ batch.rules.pdrs, p.translates = true := by
  rw [h.result, translated_eq, ← all_eq_true]
  by_cases hcalls : batch.calls = 0
  · have hnil : batch.rules.pdrs = [] := by
      simp only [BatchRecord.calls, Nat.add_eq_zero_iff, length_eq_zero_iff] at hcalls
      exact hcalls.1.1
    simp [hcalls, hnil]
  · cases hall : batch.rules.pdrs.all Pdr.translates <;> simp [hcalls]

def carryOut (conf : BessConf) (sets : List PacketForwardingRules) (_ : Nat) : BatchOutcome where
  carriedOut := sets.flatMap fun rules => commands conf .mod rules ++ commands conf .del rules
  refused := false
  finished := true

def bess (conf : BessConf) (oracle : Nat → BatchOutcome) : Datapath BessState where
  sendMsgToUPFWithCompletion method rules updated s :=
    let batch : BatchRecord :=
      { method, rules := batchRules method rules updated, outcome := oracle s.log.length }
    (batch.result conf,
      { s with tables := s.tables.applyAll (batch.ops conf), log := s.log ++ [batch] })
  sendEndMarkers endMarkerList s :=
    { s with endMarkerChan := s.endMarkerChan ++ endMarkerList }

end Upf
