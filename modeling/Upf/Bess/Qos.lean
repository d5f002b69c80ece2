import Upf.Bess.WildcardMatch

/-!
# The metering module

`Qos` is an exact match on a composite key whose entries meter the packets
that hit them.  The key of a packet is built by wide loads, and the whole key is
masked after each, so that neither the trailing bytes of a load nor what the key
buffer held stay in it.

The colour a meter gives a packet and the meter parameters it is configured with
are the business of a library: both are parameters.
-/

namespace Upf.Bess

open Lib

def meterGate : GateIdx := 0
def meterGreenGate : GateIdx := 1
def meterYellowGate : GateIdx := 2
def meterRedGate : GateIdx := 3

def isValidQosGate (gate : GateIdx) : Bool :=
  gate == meterGate || (meterRedGate < gate && gate < maxGates) || gate == dropGate

inductive Color where
  | green
  | yellow
  | red
deriving DecidableEq

def Color.gate : Color → GateIdx
  | .green => meterGreenGate
  | .yellow => meterYellowGate
  | .red => meterRedGate

structure MeterParams where
  cir : UInt64
  pir : UInt64
  cbs : UInt64
  pbs : UInt64
deriving DecidableEq

structure QosEntry where
  ogate : GateIdx
  meter : Option MeterParams
  data : List UInt8
deriving DecidableEq

def QosEntry.gate (color : MeterParams → Color) (e : QosEntry) : GateIdx :=
  match e.meter with
  | some params => (color params).gate
  | none => e.ogate

abbrev QosEntries := AList fun _ : List UInt8 => QosEntry

structure Qos (A : Type) where
  fields : List (Field A)
  values : List (Field A)
  defaultGate : GateIdx := dropGate
  table : QosEntries := ∅

/-- What the module leaves to the libraries below it: which parameters a meter
takes, and which insertions a table refuses. -/
structure QosEnv where
  profileConfig : MeterParams → Except Errno Unit
  room : QosEntries → List UInt8 → Bool

namespace Qos

variable {A : Type}

def extractKey (qos : Qos A) (fields : List FieldData) : Except Errno (List UInt8) := do
  if fields.length ≠ qos.fields.length then .error .einval
  else
    let key ← extractValues qos.fields fields
    return key ++ padding qos.fields

def entry (env : QosEnv) (qos : Qos A) (arg : QosCommandAddArg) :
    Except Errno (List UInt8 × QosEntry) := do
  let gate := arg.gate.toUInt16
  if !isValidQosGate gate then .error .einval
  else
    let key ← qos.extractKey arg.fields
    let data ← extractValues qos.values arg.values
    if gate == meterGate then
      let params : MeterParams := { cir := arg.cir, pir := arg.pir, cbs := arg.cbs, pbs := arg.pbs }
      env.profileConfig params
      return (key, { ogate := gate, meter := some params, data })
    else return (key, { ogate := gate, meter := none, data })

theorem entry_ok {env : QosEnv} {qos : Qos A} {arg : QosCommandAddArg} {key : List UInt8}
    {e : QosEntry} (h : qos.entry env arg = .ok (key, e)) :
    qos.extractKey arg.fields = .ok key ∧ e.ogate = arg.gate.toUInt16 ∧
      (e.meter = none → e.ogate ≠ meterGate) := by
  unfold entry at h
  dsimp only at h
  split_ifs at h with hvalid hmeter
  · rcases bind_ok h with ⟨key', hkey, h⟩
    rcases bind_ok h with ⟨data, -, h⟩
    rcases bind_ok h with ⟨_, -, h⟩
    cases h
    exact ⟨hkey, rfl, by simp⟩
  · rcases bind_ok h with ⟨key', hkey, h⟩
    rcases bind_ok h with ⟨data, -, h⟩
    cases h
    exact ⟨hkey, rfl, fun _ => by simpa using hmeter⟩

def commandAdd (env : QosEnv) (arg : QosCommandAddArg) (qos : Qos A) :
    Except Errno Unit × Qos A :=
  match qos.entry env arg with
  | .error e => (.error e, qos)
  | .ok (key, entry) =>
    if env.room qos.table key then (.ok (), { qos with table := qos.table.insert key entry })
    else (.error .enospc, qos)

/-- A key the table does not hold is not an error here. -/
def commandDelete (arg : QosCommandDeleteArg) (qos : Qos A) : Except Errno Unit × Qos A :=
  match qos.extractKey arg.fields with
  | .error e => (.error e, qos)
  | .ok key => (.ok (), { qos with table := qos.table.erase key })

def commandClear (qos : Qos A) : Qos A := { qos with table := ∅ }

theorem commandAdd_ok {env : QosEnv} {arg : QosCommandAddArg} {qos qos' : Qos A}
    (h : qos.commandAdd env arg = (.ok (), qos')) :
    ∃ key e, qos.entry env arg = .ok (key, e) ∧
      qos' = { qos with table := qos.table.insert key e } := by
  unfold commandAdd at h
  split at h
  · simp at h
  · rename_i key e hentry
    split_ifs at h
    · exact ⟨key, e, hentry, (Prod.mk.inj h).2.symm⟩
    · simp at h

theorem commandDelete_ok {arg : QosCommandDeleteArg} {qos qos' : Qos A}
    (h : qos.commandDelete arg = (.ok (), qos')) :
    ∃ key, qos.extractKey arg.fields = .ok key ∧
      qos' = { qos with table := qos.table.erase key } := by
  unfold commandDelete at h
  split at h
  · simp at h
  · rename_i key hkey
    exact ⟨key, hkey, (Prod.mk.inj h).2.symm⟩

/-- Keep the bytes of the fields and zero the padding. -/
def applyMask (fields : List (Field A)) (buf : Buffer) : Buffer := fun i =>
  if i < totalKeySize fields then buf i &&& (if i < rawKeySize fields then 0xff else 0)
  else buf i

def loadFields (fields : List (Field A)) (pos : Nat) : List (Nat × List UInt8) → Buffer → Buffer
  | [], buf => buf
  | (size, word) :: rest, buf =>
    loadFields fields (pos + size) rest (applyMask fields (buf.write pos word))

def makeKey (qos : Qos A) (pkt : Packet A) (buf : Buffer) : List UInt8 :=
  (loadFields qos.fields 0 (keyItems qos.fields pkt) buf).read 0 (totalKeySize qos.fields)

def processPacket [DecidableEq A] (color : MeterParams → Color) (qos : Qos A) (buf : Buffer)
    (pkt : Packet A) : GateIdx × Packet A :=
  match qos.table.lookup (qos.makeKey pkt buf) with
  | none => (qos.defaultGate, pkt)
  | some e => (QosEntry.gate color e, setValues qos.values e.data pkt)

variable {fields : List (Field A)} {buf buf' : Buffer}

theorem applyMask_of_not_padding {i : Nat}
    (h : i < rawKeySize fields ∨ totalKeySize fields ≤ i) : applyMask fields buf i = buf i := by
  unfold applyMask
  split_ifs with htotal hraw
  · exact UInt8.and_neg_one
  · omega
  · rfl

theorem applyMask_of_padding {i : Nat} (hraw : rawKeySize fields ≤ i)
    (htotal : i < totalKeySize fields) : applyMask fields buf i = 0 := by
  unfold applyMask
  rw [if_pos htotal, if_neg (Nat.not_lt.mpr hraw), UInt8.and_zero]

theorem loadFields_eq {pos : Nat} {items : List (Nat × List UInt8)} (h : items ≠ []) :
    loadFields fields pos items buf = applyMask fields (buf.layOut pos items) := by
  induction items generalizing pos buf with
  | nil => exact absurd rfl h
  | cons item rest ih =>
    rcases item with ⟨size, word⟩
    rw [loadFields, Buffer.layOut]
    cases rest with
    | nil => rfl
    | cons item' rest' =>
      rw [ih (by simp)]
      funext i
      by_cases hpad : i < rawKeySize fields ∨ totalKeySize fields ≤ i
      · rw [applyMask_of_not_padding hpad, applyMask_of_not_padding hpad]
        exact Buffer.layOut_congr _ (applyMask_of_not_padding hpad)
      · rw [not_or, Nat.not_lt, Nat.not_le] at hpad
        rw [applyMask_of_padding hpad.1 hpad.2, applyMask_of_padding hpad.1 hpad.2]

theorem makeKey_eq {qos : Qos A} (hsize : ∀ f ∈ qos.fields, f.size ≤ wordSize)
    (hne : qos.fields ≠ []) (pkt : Packet A) (buf : Buffer) :
    qos.makeKey pkt buf = fieldBytes qos.fields pkt ++ padding qos.fields := by
  have hitems : keyItems qos.fields pkt ≠ [] := by simpa [keyItems] using hne
  unfold makeKey
  rw [loadFields_eq hitems]
  apply read_totalKeySize
  · rw [← read_keyItems hsize pkt buf]
    apply Buffer.read_congr
    intro i hi
    rw [Nat.zero_add]
    exact applyMask_of_not_padding (.inl hi)
  · intro i hraw htotal
    exact applyMask_of_padding hraw htotal

end Qos

end Upf.Bess
