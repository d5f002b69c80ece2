import Upf.Bess.Qos
import Upf.Bess.WildcardMatchSaved

/-!
# Keys of packets and keys of rules

A packet's key is put together from 8-byte loads that overlap in a buffer of any content,
a rule's key from arguments that are copied field by field.  Both modules make the same
key of the same field bytes.

Main result: `keys_agree`.
-/

namespace Upf.Bess

open Lib List WildcardMatch

variable {A : Type} {fields : List (Field A)}

def packetValues (fields : List (Field A)) (pkt : Packet A) (mask : List UInt8) : List FieldData :=
  List.zipWith (fun f m => .valueBin (List.zipWith (· &&& ·) (pkt.field f) m)) fields
    (fieldSlices fields mask)

theorem field_length {f : Field A} (h : f.size ≤ wordSize) (pkt : Packet A) :
    (pkt.field f).length = f.size := by
  rw [Packet.field, length_take, Packet.load_length, Nat.min_eq_left h]

theorem toWord_bin {size : Nat} {bigEndian : Bool} {b : List UInt8} (hb : b.length = size)
    (h : size ≤ wordSize) :
    toWord size bigEndian (.valueBin b) = .ok (b ++ List.replicate (wordSize - size) 0) := by
  dsimp only [toWord]
  rw [hb, if_neg (not_lt.mpr h)]

/-! ## Masked keys -/

theorem outside_masked (b m : List UInt8) :
    ∀ c ∈ WildcardMatch.outside (List.zipWith (· &&& ·) b m) m, c = 0 := by
  induction b generalizing m with
  | nil => simp [WildcardMatch.outside]
  | cons x b ih =>
    cases m with
    | nil => simp [WildcardMatch.outside]
    | cons y m =>
      have hbyte : x &&& y &&& ~~~y = 0 := by
        rw [UInt8.and_assoc, UInt8.and_not_self, UInt8.and_zero]
      simpa [WildcardMatch.outside, hbyte] using ih m

theorem extractField_masked {f : Field A} (hsize : f.size ≤ wordSize) {value mask : FieldData}
    {v m b : List UInt8} (h : extractField f value mask = .ok (v, m)) (hb : b.length = f.size) :
    extractField f (.valueBin (List.zipWith (· &&& ·) b m)) mask =
      .ok (List.zipWith (· &&& ·) b m, m) := by
  have hm := (extractField_extracted hsize h).mask
  rcases bind_ok h with ⟨v', hv, h⟩
  rcases bind_ok h with ⟨m', hm', h⟩
  split_ifs at h
  cases h
  have hlen : (List.zipWith (· &&& ·) b (m'.take f.size)).length = f.size := by
    simpa [hb] using hm
  -- The zeros behind the field are under the rest of the word of the mask.
  have hword : List.zipWith (· &&& ·) b (m'.take f.size) ++
      List.replicate (wordSize - f.size) 0 =
        List.zipWith (· &&& ·) (b ++ List.replicate (wordSize - f.size) 0) m' := by
    have hrest : (m'.drop f.size).length = wordSize - f.size := by
      rw [length_drop, toWord_length hsize hm']
    conv_rhs => rw [← take_append_drop f.size m']
    rw [zipWith_append (hb.trans hm.symm)]
    congr 1
    apply ext_getElem
    · simp [hrest]
    · intro i h₁ h₂
      simp
  have hinside : ¬ (List.zipWith (fun v m => v &&& ~~~m)
      (List.zipWith (· &&& ·) b (m'.take f.size) ++ List.replicate (wordSize - f.size) 0)
      m').any (· != 0) = true := by
    intro hany
    rcases any_eq_true.mp hany with ⟨c, hc, hne⟩
    rw [hword] at hc
    exact bne_iff_ne.mp hne (outside_masked _ _ c hc)
  unfold extractField
  rw [toWord_bin hlen hsize, hm']
  dsimp only [bind, Except.bind]
  rw [if_neg hinside]
  congr 2
  rw [take_append_of_le_length hlen.ge, take_of_length_le hlen.le]

theorem extractFields_packetValues (hsize : ∀ f ∈ fields, f.size ≤ wordSize)
    {values masks : List FieldData} {key mask : List UInt8}
    (hvalues : values.length = fields.length) (hmasks : masks.length = fields.length)
    (h : extractFields fields values masks = .ok (key, mask)) (pkt : Packet A)
    (rest : List UInt8) :
    extractFields fields (packetValues fields pkt (mask ++ rest)) masks =
      .ok (List.zipWith (· &&& ·) (fieldBytes fields pkt) mask, mask) := by
  induction fields generalizing values masks key mask with
  | nil =>
    have hvalues := length_eq_zero_iff.mp hvalues
    subst hvalues
    cases h
    rfl
  | cons f fs ih =>
    rcases values with - | ⟨value, values⟩
    · cases hvalues
    rcases masks with - | ⟨mask₀, masks⟩
    · cases hmasks
    rcases bind_ok h with ⟨⟨v, m⟩, hone, h⟩
    rcases bind_ok h with ⟨⟨vs, ms⟩, hrest, h⟩
    cases h
    rw [forall_mem_cons] at hsize
    have hm := (extractField_extracted hsize.1 hone).mask
    have hb := field_length hsize.1 pkt
    have hagain := ih hsize.2 (Nat.succ.inj hvalues) (Nat.succ.inj hmasks) hrest
    have hargs : packetValues (f :: fs) pkt (m ++ ms ++ rest) =
        .valueBin (List.zipWith (· &&& ·) (pkt.field f) m) ::
          packetValues fs pkt (ms ++ rest) := by
      rw [packetValues, fieldSlices, append_assoc, ← hm, take_left, drop_left]
      rfl
    rw [hargs]
    unfold extractFields
    rw [extractField_masked hsize.1 hone hb]
    dsimp only [bind, Except.bind]
    rw [hagain]
    have hbytes : fieldBytes (f :: fs) pkt = pkt.field f ++ fieldBytes fs pkt := flatMap_cons
    rw [hbytes, zipWith_append (hb.trans hm.symm)]
    rfl

/-! ## Keys without a mask -/

theorem extractValues_fields (hsize : ∀ f ∈ fields, f.size ≤ wordSize) (pkt : Packet A) :
    extractValues fields (fields.map fun f => .valueBin (pkt.field f)) =
      .ok (fieldBytes fields pkt) := by
  induction fields with
  | nil => rfl
  | cons f fs ih =>
    rw [forall_mem_cons] at hsize
    have hb := field_length hsize.1 pkt
    rw [map_cons, extractValues, toWord_bin hb hsize.1, ih hsize.2]
    dsimp only [bind, Except.bind, pure, Except.pure]
    rw [take_append_of_le_length hb.ge, take_of_length_le hb.le]
    rfl

theorem Qos.makeKey_eq_fieldBytes (qos : Qos A) (hsize : ∀ f ∈ qos.fields, f.size ≤ wordSize)
    (pkt : Packet A) (buf : Buffer) :
    qos.makeKey pkt buf = fieldBytes qos.fields pkt ++ padding qos.fields := by
  rcases eq_nil_or_concat qos.fields with hnil | ⟨fs, f, hfields⟩
  · rw [Qos.makeKey, hnil]
    simp [Buffer.read, totalKeySize, rawKeySize, alignCeil, wordSize, fieldBytes, padding]
  · exact Qos.makeKey_eq hsize (by simp [hfields]) pkt buf

theorem length_append_padding {bytes : List UInt8} (h : bytes.length = rawKeySize fields) :
    (bytes ++ padding fields).length = totalKeySize fields := by
  have hle : rawKeySize fields ≤ totalKeySize fields := le_alignCeil _
  rw [length_append, h, padding, length_replicate]
  omega

theorem fieldBytes_length (hsize : ∀ f ∈ fields, f.size ≤ wordSize) (pkt : Packet A) :
    (fieldBytes fields pkt).length = rawKeySize fields := by
  rw [← read_keyItems hsize pkt fun _ => 0, Buffer.read_length]

theorem load_within_key {before after : List (Field A)} {f : Field A}
    (hcount : (before ++ f :: after).length ≤ 8)
    (hsize : ∀ g ∈ before ++ f :: after, g.size ≤ wordSize) :
    rawKeySize before + wordSize ≤ hashKeySize := by
  have hraw := rawKeySize_le fun g hg => hsize g (mem_append_left _ hg)
  rw [length_append, length_cons] at hcount
  simp only [wordSize, hashKeySize, maxFields] at hraw ⊢
  omega

/-- The key looked up for a packet is, in both modules, the one that a command with its field
bytes (under the mask of a tuple, where keys are masked) builds, whatever the key buffer held,
whatever follows a field in the packet and whatever the other packets of the batch are. -/
theorem keys_agree (hcount : fields.length ≤ 8)
    (hsize : ∀ f ∈ fields, 1 ≤ f.size ∧ f.size ≤ wordSize) (batch : List (Packet A × Buffer)) :
    (∀ before f after, fields = before ++ f :: after →
      rawKeySize before + wordSize ≤ hashKeySize) ∧
    (∀ wm : WildcardMatch A, wm.fields = fields → ∀ values masks key mask,
      extractKeyMask fields values masks = .ok (key, mask) → ∀ p ∈ batch,
        (maskKey (wm.makeKey p.1 p.2) mask).length = totalKeySize fields ∧
        extractKeyMask fields (packetValues fields p.1 mask) masks =
          .ok (maskKey (wm.makeKey p.1 p.2) mask, mask)) ∧
    ∀ qos : Qos A, qos.fields = fields → ∀ p ∈ batch,
      (qos.makeKey p.1 p.2).length = totalKeySize fields ∧
      qos.extractKey (fields.map fun f => .valueBin (p.1.field f)) = .ok (qos.makeKey p.1 p.2) := by
  have hword : ∀ f ∈ fields, f.size ≤ wordSize := fun f hf => (hsize f hf).2
  refine ⟨?_, ?_, ?_⟩
  · rintro before f after rfl
    exact load_within_key hcount hword
  · rintro wm rfl values masks key mask hextract p -
    rcases extractKeyMask_ok hextract with
      ⟨vs, ms, hvalues, hmasks, hfields, -, rfl⟩
    have hkey := maskKey_makeKey hword hvalues hmasks hfields p.1 p.2
    rcases extractFields_again hword hvalues hmasks hfields [] [] with ⟨hms, -⟩
    have hbytes := fieldBytes_length hword p.1
    rw [hkey]
    refine ⟨length_append_padding (by simp [hbytes, hms]), ?_⟩
    have hcountArgs : (packetValues wm.fields p.1 (ms ++ padding wm.fields)).length =
        wm.fields.length := by
      simp [packetValues, fieldSlices_length]
    rw [extractKeyMask, if_neg (not_not.mpr hcountArgs), if_neg (not_not.mpr hmasks),
      extractFields_packetValues hword hvalues hmasks hfields]
    rfl
  · rintro qos rfl p -
    rw [Qos.makeKey_eq_fieldBytes qos hword]
    refine ⟨length_append_padding (fieldBytes_length hword p.1), ?_⟩
    rw [Qos.extractKey, if_neg (by simp), extractValues_fields hword]
    rfl

def twoFields : List (Field Unit) := [⟨.attr (), 4⟩, ⟨.offset 2, 1⟩]

def sevens : Packet Unit := ⟨fun _ => 7, fun _ => [1, 2, 3, 4], fun _ _ => 9⟩

def twoMasks : List FieldData := [.valueBin [255, 255, 0, 0], .valueBin [240]]

theorem keys_agree_twoFields :
    (let wm : WildcardMatch Unit := { fields := twoFields, values := [] }
      let mask := [255, 255, 0, 0, 240, 0, 0, 0]
      extractKeyMask twoFields (packetValues twoFields sevens mask) twoMasks =
        .ok (maskKey (wm.makeKey sevens fun _ => 5) mask, mask)) ∧
    Qos.extractKey ⟨twoFields, [], 0, ∅⟩ (twoFields.map fun f => .valueBin (sevens.field f)) =
      .ok (Qos.makeKey ⟨twoFields, [], 0, ∅⟩ sevens fun _ => 5) := by
  have hagree := keys_agree (show twoFields.length ≤ 8 by decide) (by decide)
    [(sevens, fun _ => 5)]
  have hextract : extractKeyMask twoFields [.valueBin [9, 0, 0, 0], .valueBin [16]] twoMasks =
      .ok ([9, 0, 0, 0, 16, 0, 0, 0], [255, 255, 0, 0, 240, 0, 0, 0]) := by decide
  exact ⟨(hagree.2.1 { fields := twoFields, values := [] } rfl _ _ _ _ hextract _
      (mem_singleton_self _)).2,
    (hagree.2.2 ⟨twoFields, [], 0, ∅⟩ rfl _ (mem_singleton_self _)).2⟩

end Upf.Bess
