import Mathlib.Algebra.Order.Ring.Nat
import Mathlib.Data.List.GetD

/-!
# GTP-U headers

The length of a GTP-U header is found by walking its chain of extension headers,
each of which gives its own length.  `GtpuParser` reads the inner packet behind
the header, `GtpuDecap` cuts everything in front of it.  Neither compares what
the walk finds with the end of the packet, so the walk is modelled over the
buffer: the bytes received, and whatever lies behind them.

Main result: `inner_offset_inside_iff`.
-/

namespace Upf.Bess

open List Option Nat

/-- A received packet, and what the buffer holds at the positions behind it. -/
structure Frame where
  bytes : List UInt8
  beyond : Nat → UInt8
  length_lt : bytes.length < 2 ^ 16

namespace Frame

def read (f : Frame) (i : Nat) : UInt8 := f.bytes.getD i (f.beyond i)

/-- The field of `size` bytes at a position, as it lies there. -/
def field (f : Frame) (i size : Nat) : List UInt8 := (List.range size).map fun k => f.read (i + k)

theorem read_of_drop {f : Frame} {i : Nat} {b : UInt8} {rest : List UInt8}
    (h : f.bytes.drop i = b :: rest) : f.read i = b := by
  have hget : f.bytes[i]? = some b := by
    rw [← head?_drop, h, head?_cons]
  rw [read, getD_eq_getElem?_getD, hget, getD_some]

theorem drop_eq_cons {f : Frame} {i : Nat} (h : i < f.bytes.length) :
    f.bytes.drop i = f.read i :: f.bytes.drop (i + 1) := by
  rw [drop_eq_getElem_cons h, read, getD_eq_getElem _ _ h]

end Frame

def sizeofEthernet : Nat := 14
def sizeofUdp : Nat := 8
def sizeofGtpv1 : Nat := 8

def kIpv4 : List UInt8 := [0x08, 0x00]
def kArp : List UInt8 := [0x08, 0x06]
def kTcp : UInt8 := 6
def kUdp : UInt8 := 17
def kIcmp : UInt8 := 1
def kEsp : UInt8 := 50

def udpPortGtpu : List UInt8 := [0x08, 0x68]

namespace Frame

def etherType (f : Frame) : List UInt8 := f.field 12 2

/-- The length of the IPv4 header at a position, from its `header_length` field. -/
def ipv4Length (f : Frame) (iph : Nat) : Nat := (f.read iph).toNat % 16 * 4

def ipv4Protocol (f : Frame) (iph : Nat) : UInt8 := f.read (iph + 9)
def ipv4Src (f : Frame) (iph : Nat) : List UInt8 := f.field (iph + 12) 4
def ipv4Dst (f : Frame) (iph : Nat) : List UInt8 := f.field (iph + 16) 4

/-- The ports of a TCP or UDP header. -/
def srcPort (f : Frame) (l4 : Nat) : List UInt8 := f.field l4 2
def dstPort (f : Frame) (l4 : Nat) : List UInt8 := f.field (l4 + 2) 2

def iph (_ : Frame) : Nat := sizeofEthernet
def udph (f : Frame) : Nat := f.iph + f.ipv4Length f.iph
def gtph (f : Frame) : Nat := f.udph + sizeofUdp

end Frame

def pdn (flags : UInt8) : Bool := flags.toNat.testBit 0
def seq (flags : UInt8) : Bool := flags.toNat.testBit 1
def ex (flags : UInt8) : Bool := flags.toNat.testBit 2

def optionsLength (flags : UInt8) : Nat := if seq flags || pdn flags || ex flags then 4 else 0

/-- The loop over the extension headers.  The byte in front of position
`len` is the type of the next one, the byte there its length in words;
`fuel` bounds the number of tests. -/
def probe (f : Frame) (gtph : Nat) : (fuel : Nat) → (len : Nat) → Option Nat
  | 0, _ => none
  | fuel + 1, len =>
    if f.read (gtph + (len - 1)) = 0 then some len
    else probe f gtph fuel (len + (f.read (gtph + len)).toNat * 4)

def headerLength (f : Frame) (gtph fuel : Nat) : Option Nat :=
  let flags := f.read gtph
  let len := sizeofGtpv1 + optionsLength flags
  if ex flags then probe f gtph fuel len else some len

/-- What `set_gtp_parsing_attrs` writes to a packet. -/
structure ParsedAttrs where
  srcIp : List UInt8
  dstIp : List UInt8
  srcPort : List UInt8
  dstPort : List UInt8
  teid : List UInt8
  tunnelIp4Dst : List UInt8
  proto : UInt8
deriving DecidableEq

inductive ParserGate
  | default
  | forward
deriving DecidableEq

/-- Where a packet goes, what was written to it, and where an inner packet was
read, if one was. -/
structure ParserOutput where
  gate : ParserGate
  attrs : Option ParsedAttrs := none
  inner : Option Nat := none
deriving DecidableEq

def constVal (size : Nat) : List UInt8 := List.replicate size 0xFF

/-- The addresses, ports and protocol of the packet whose IPv4 header is at
`iph`, for the tunnel given. -/
def parseFlow (f : Frame) (iph : Nat) (teid tunnelIp4Dst : List UInt8) : ParsedAttrs :=
  let l4 := iph + f.ipv4Length iph
  let proto := f.ipv4Protocol iph
  let ported := proto = kTcp ∨ proto = kUdp
  { srcIp := f.ipv4Src iph
    dstIp := f.ipv4Dst iph
    srcPort := if ported then f.srcPort l4 else constVal 2
    dstPort := if ported then f.dstPort l4 else constVal 2
    teid
    tunnelIp4Dst
    proto }

/-- One packet of `GtpuParser::ProcessBatch`. -/
def gtpuParser (f : Frame) (fuel : Nat) : Option ParserOutput :=
  if f.etherType ≠ kIpv4 ∧ f.etherType ≠ kArp then some { gate := .default }
  else
    let proto := f.ipv4Protocol f.iph
    if proto = kUdp ∧ f.dstPort f.udph = udpPortGtpu then
      match headerLength f f.gtph fuel with
      | none => none
      | some len =>
        let inner := f.gtph + len
        some {
          gate := .forward
          attrs := some (parseFlow f inner (f.field (f.gtph + 4) 4) (f.ipv4Dst f.iph))
          inner := some inner }
    else if proto = kTcp ∨ proto = kUdp ∨ proto = kIcmp ∨ proto = kEsp then
      some { gate := .forward, attrs := some (parseFlow f f.iph (constVal 4) (constVal 4)) }
    else some { gate := .forward }

/-- `Packet::adj` takes its argument as sixteen bits; `none` is the null
pointer. -/
def adj (bytes : List UInt8) (len : Nat) : Option (List UInt8) :=
  let len := len % 2 ^ 16
  if bytes.length < len then none else some (bytes.drop len)

/-- The position of the inner packet, and what is left of the packet, unless the
Ethernet header is copied to a null pointer. -/
structure DecapOutput where
  inner : Nat
  bytes : Option (List UInt8)
deriving DecidableEq

/-- One packet of `GtpuDecap::ProcessBatch`. -/
def gtpuDecap (f : Frame) (fuel : Nat) : Option DecapOutput :=
  match headerLength f f.gtph fuel with
  | none => none
  | some len =>
    let eth := f.field 0 sizeofEthernet
    some {
      inner := f.gtph + len
      bytes := (adj f.bytes (f.ipv4Length f.iph + sizeofUdp + len)).map fun newP =>
        (eth ++ newP.drop sizeofEthernet).take newP.length }

structure ExtensionHeader where
  length : UInt8
  content : List UInt8
  nextType : UInt8
  length_eq : content.length + 2 = length.toNat * 4

def ExtensionHeader.bytes (e : ExtensionHeader) : List UInt8 :=
  e.length :: (e.content ++ [e.nextType])

def Chained : UInt8 → List ExtensionHeader → Prop
  | type, [] => type = 0
  | type, e :: es => type ≠ 0 ∧ Chained e.nextType es

def extensionBytes (es : List ExtensionHeader) : List UInt8 := es.flatMap ExtensionHeader.bytes

/-- A GTP-U header: the flags, the seven bytes behind them, the options and the
extension headers that the flags call for. -/
structure GtpuHeader where
  flags : UInt8
  body : List UInt8
  options : List UInt8
  extensions : List ExtensionHeader
  body_length : body.length = 7
  options_length : options.length = optionsLength flags
  chained : if ex flags then Chained (options.getLastD 0) extensions else extensions = []

def GtpuHeader.bytes (h : GtpuHeader) : List UInt8 :=
  h.flags :: (h.body ++ (h.options ++ extensionBytes h.extensions))

def Frame.Carries (f : Frame) (h : GtpuHeader) (payload : List UInt8) : Prop :=
  f.bytes.drop f.gtph = h.bytes ++ payload

theorem ExtensionHeader.bytes_length (e : ExtensionHeader) :
    e.bytes.length = e.length.toNat * 4 := by
  rw [← e.length_eq, bytes, length_cons, length_append, length_singleton]

theorem extensionBytes_cons (e : ExtensionHeader) (es : List ExtensionHeader) :
    extensionBytes (e :: es) = e.bytes ++ extensionBytes es := flatMap_cons

theorem length_le_extensionBytes (es : List ExtensionHeader) :
    es.length ≤ (extensionBytes es).length := by
  induction es with
  | nil => exact Nat.le_refl 0
  | cons e =>
    have hlen := e.bytes_length
    have hfits := e.length_eq
    rw [extensionBytes_cons, length_append, length_cons]
    omega

theorem GtpuHeader.bytes_length (h : GtpuHeader) :
    h.bytes.length =
      sizeofGtpv1 + optionsLength h.flags + (extensionBytes h.extensions).length := by
  rw [bytes, length_cons, length_append, length_append, h.body_length,
    h.options_length, sizeofGtpv1]
  omega

theorem fixedPart_pos (flags : UInt8) : 0 < sizeofGtpv1 + optionsLength flags := by
  rw [sizeofGtpv1]
  omega

theorem optionsLength_of_ex {flags : UInt8} (h : ex flags = true) : optionsLength flags = 4 := by
  rw [optionsLength, h, Bool.or_true, if_pos rfl]

variable {f : Frame} {payload : List UInt8} {fuel gtph len : Nat}

theorem probe_of_chained
    (es : List ExtensionHeader) :
    ∀ {type : UInt8} {fuel len : Nat}, 0 < len → es.length < fuel → Chained type es →
      f.bytes.drop (gtph + (len - 1)) = type :: (extensionBytes es ++ payload) →
      probe f gtph fuel len = some (len + (extensionBytes es).length) := by
  induction es with
  | nil =>
    intro type fuel len _ hfuel hchain hdrop
    obtain ⟨fuel, rfl⟩ := exists_eq_succ_of_ne_zero (Nat.ne_of_gt hfuel)
    have hzero : f.read (gtph + (len - 1)) = 0 := (Frame.read_of_drop hdrop).trans hchain
    rw [probe, if_pos hzero]
    rfl
  | cons e es ih =>
    intro type fuel len hpos hfuel hchain hdrop
    obtain ⟨fuel, rfl⟩ : ∃ k, fuel = k + 1 := ⟨fuel - 1, by omega⟩
    have htype : f.read (gtph + (len - 1)) ≠ 0 := by
      rw [Frame.read_of_drop hdrop]
      exact hchain.1
    -- the header itself starts one byte further on, its last byte ends it
    have hhead : f.bytes.drop (gtph + len) = e.bytes ++ (extensionBytes es ++ payload) := by
      rw [show gtph + len = gtph + (len - 1) + 1 by omega, ← drop_drop, hdrop,
        extensionBytes_cons, append_assoc]
      rfl
    have hlen : f.read (gtph + len) = e.length := Frame.read_of_drop hhead
    have hnext : f.bytes.drop (gtph + (len + e.length.toNat * 4 - 1)) =
        e.nextType :: (extensionBytes es ++ payload) := by
      have hskip : gtph + (len + e.length.toNat * 4 - 1) =
          gtph + len + (e.length :: e.content).length := by
        have := e.length_eq
        rw [length_cons]
        omega
      rw [hskip, ← drop_drop, hhead, ExtensionHeader.bytes, ← cons_append,
        append_assoc, drop_left]
      rfl
    have hlast := ih (by omega) (by simpa using hfuel) hchain.2 hnext
    rw [probe, if_neg htype, hlen, hlast, extensionBytes_cons, length_append,
      e.bytes_length, Nat.add_assoc]

/-- The walk over a well-formed header takes one test for each extension header
and one more, and ends at the payload. -/
theorem headerLength_of_header {h : GtpuHeader}
    (hf : f.Carries h payload) (hfuel : h.extensions.length < fuel) :
    headerLength f f.gtph fuel = some h.bytes.length := by
  have hflags : f.read f.gtph = h.flags := Frame.read_of_drop hf
  have hchained := h.chained
  unfold headerLength
  rw [hflags, h.bytes_length]
  by_cases hex : ex h.flags = true
  · simp only [hex, if_true] at hchained ⊢
    have hfour : h.options.length = 4 := h.options_length.trans (optionsLength_of_ex hex)
    -- the last byte of the options is the type of the first extension header
    have hsplit : h.options = h.options.dropLast ++ [h.options.getLastD 0] := by
      have hne : h.options ≠ [] := fun hnil => by simp [hnil] at hfour
      rw [getLastD_eq_getLast?, getLast?_eq_some_getLast hne, getD_some,
        dropLast_concat_getLast]
    apply probe_of_chained h.extensions (fixedPart_pos h.flags) hfuel hchained
    have hplace : f.gtph + (sizeofGtpv1 + optionsLength h.flags - 1) =
        f.gtph + (h.flags :: (h.body ++ h.options.dropLast)).length := by
      rw [length_cons, length_append, length_dropLast, h.body_length, hfour,
        optionsLength_of_ex hex, sizeofGtpv1]
    have hbytes : h.bytes ++ payload = (h.flags :: (h.body ++ h.options.dropLast)) ++
        (h.options.getLastD 0 :: (extensionBytes h.extensions ++ payload)) := by
      rw [GtpuHeader.bytes, hsplit]
      simp
    rw [hplace, ← drop_drop, hf, hbytes, drop_left]
  · simp only [hex] at hchained ⊢
    rw [hchained]
    rfl

theorem Frame.Carries.length {h : GtpuHeader}
    (hf : f.Carries h payload) : f.bytes.length = f.gtph + (h.bytes.length + payload.length) := by
  have hlen := congrArg List.length hf
  have hpos : 0 < h.bytes.length := by rw [GtpuHeader.bytes]; exact succ_pos _
  rw [length_drop, length_append] at hlen
  omega

theorem Frame.Carries.extensions_lt {h : GtpuHeader}
    (hf : f.Carries h payload) : h.extensions.length < f.bytes.length := by
  have hlen := hf.length
  have hheader := h.bytes_length
  have hexts := length_le_extensionBytes h.extensions
  have hsize : sizeofGtpv1 = 8 := rfl
  omega

theorem Frame.field_eq {i size : Nat} (h : i + size ≤ f.bytes.length) :
    f.field i size = (f.bytes.drop i).take size := by
  apply ext_getElem
  · rw [field, length_map, length_range, length_take, length_drop]
    omega
  · intro k hk hk'
    have hin : i + k < f.bytes.length := by
      rw [field, length_map, length_range] at hk
      omega
    simp only [field, getElem_map, getElem_range, getElem_take, getElem_drop,
      read]
    exact getD_eq_getElem _ _ hin

theorem gtpuDecap_of_header {h : GtpuHeader}
    (hf : f.Carries h payload) (hfuel : h.extensions.length < fuel) :
    gtpuDecap f fuel = some
      { inner := f.gtph + h.bytes.length
        bytes := some (f.bytes.take sizeofEthernet ++ payload) } := by
  have hlen := hf.length
  have hlt := f.length_lt
  have hgtph : f.gtph = sizeofEthernet + f.ipv4Length f.iph + sizeofUdp := rfl
  have hcut : f.ipv4Length f.iph + sizeofUdp + h.bytes.length < 2 ^ 16 := by omega
  have hstays : ¬ f.bytes.length < f.ipv4Length f.iph + sizeofUdp + h.bytes.length := by omega
  have heth : f.field 0 sizeofEthernet = f.bytes.take sizeofEthernet := by
    rw [Frame.field_eq (by omega), drop_zero]
  have hbehind : (f.bytes.drop (f.ipv4Length f.iph + sizeofUdp + h.bytes.length)).drop
      sizeofEthernet = payload := by
    rw [drop_drop, show f.ipv4Length f.iph + sizeofUdp + h.bytes.length + sizeofEthernet =
      f.gtph + h.bytes.length by omega, ← drop_drop, hf, drop_left]
  unfold gtpuDecap adj
  rw [headerLength_of_header hf hfuel]
  simp only [mod_eq_of_lt hcut, if_neg hstays, map_some, heth, hbehind]
  congr 3
  apply take_of_length_le
  rw [length_append, length_take, length_drop]
  omega

theorem le_of_probe :
    ∀ {len len' : Nat}, probe f gtph fuel len = some len' → len ≤ len' := by
  induction fuel with
  | zero => exact fun h => (nomatch h)
  | succ fuel ih =>
    intro len len' h
    rw [probe] at h
    split at h
    · exact Nat.le_of_eq (Option.some.inj h)
    · exact Nat.le_trans (Nat.le_add_right _ _) (ih h)

/-- The extension header at a position, if its length is not zero and it lies
inside the packet. -/
def Frame.extensionAt (f : Frame) (i : Nat) (hpos : 0 < (f.read i).toNat)
    (hin : i + (f.read i).toNat * 4 ≤ f.bytes.length) : ExtensionHeader where
  length := f.read i
  content := (f.bytes.drop (i + 1)).take ((f.read i).toNat * 4 - 2)
  nextType := f.read (i + (f.read i).toNat * 4 - 1)
  length_eq := by
    rw [length_take, length_drop]
    omega

theorem Frame.drop_extensionAt {i : Nat} (hpos : 0 < (f.read i).toNat)
    (hin : i + (f.read i).toNat * 4 ≤ f.bytes.length) :
    f.bytes.drop i =
      (f.extensionAt i hpos hin).bytes ++ f.bytes.drop (i + (f.read i).toNat * 4) := by
  have hlast := Frame.drop_eq_cons (f := f) (i := i + (f.read i).toNat * 4 - 1) (by omega)
  rw [show i + (f.read i).toNat * 4 - 1 + 1 = i + (f.read i).toNat * 4 by omega] at hlast
  have hcontent := take_append_drop ((f.read i).toNat * 4 - 2) (f.bytes.drop (i + 1))
  rw [drop_drop, show i + 1 + ((f.read i).toNat * 4 - 2) = i + (f.read i).toNat * 4 - 1
    by omega, hlast] at hcontent
  rw [Frame.drop_eq_cons (by omega : i < f.bytes.length), ← hcontent]
  simp [ExtensionHeader.bytes, extensionAt]

theorem chained_of_probe :
    ∀ {len len' : Nat}, 0 < len → probe f gtph fuel len = some len' →
      gtph + len' ≤ f.bytes.length → ∃ es, Chained (f.read (gtph + (len - 1))) es ∧
        f.bytes.drop (gtph + len) = extensionBytes es ++ f.bytes.drop (gtph + len') := by
  induction fuel with
  | zero => exact fun _ h => (nomatch h)
  | succ fuel ih =>
    intro len len' hpos h hin
    rw [probe] at h
    split at h
    case isTrue hzero =>
      cases h
      exact ⟨[], hzero, rfl⟩
    case isFalse htype =>
      have hle := le_of_probe h
      by_cases hlen : (f.read (gtph + len)).toNat = 0
      · -- a length of zero leaves the loop where it was, so it ended for the rest
        rw [hlen, Nat.zero_mul, Nat.add_zero] at h
        exact ih hpos h hin
      · obtain ⟨es, hchain, hdrop⟩ := ih (by omega) h hin
        have hpos' : 0 < (f.read (gtph + len)).toNat := Nat.pos_of_ne_zero hlen
        have hin' : gtph + len + (f.read (gtph + len)).toNat * 4 ≤ f.bytes.length := by omega
        refine ⟨f.extensionAt (gtph + len) hpos' hin' :: es, ⟨htype, ?_⟩, ?_⟩
        · have hplace : gtph + (len + (f.read (gtph + len)).toNat * 4 - 1) =
              gtph + len + (f.read (gtph + len)).toNat * 4 - 1 := by omega
          rw [hplace] at hchain
          exact hchain
        · rw [Frame.drop_extensionAt hpos' hin', extensionBytes_cons, append_assoc,
            Nat.add_assoc gtph len, hdrop]

theorem extensions_of_headerLength
    (h : headerLength f gtph fuel = some len) (hin : gtph + len ≤ f.bytes.length) :
    ∃ es, (if ex (f.read gtph) then
        Chained (f.read (gtph + (sizeofGtpv1 + optionsLength (f.read gtph) - 1))) es
      else es = []) ∧
      f.bytes.drop (gtph + (sizeofGtpv1 + optionsLength (f.read gtph))) =
        extensionBytes es ++ f.bytes.drop (gtph + len) := by
  simp only [headerLength] at h
  by_cases hex : ex (f.read gtph) = true
  · simp only [hex, if_true] at h ⊢
    exact chained_of_probe (fixedPart_pos _) h hin
  · simp only [hex] at h ⊢
    cases h
    exact ⟨[], rfl, rfl⟩

theorem le_of_headerLength
    (h : headerLength f gtph fuel = some len) :
    sizeofGtpv1 + optionsLength (f.read gtph) ≤ len := by
  simp only [headerLength] at h
  split at h
  · exact le_of_probe h
  · exact Nat.le_of_eq (Option.some.inj h)

theorem getLastD_options (hin : gtph + 12 ≤ f.bytes.length) :
    ((f.bytes.drop (gtph + 8)).take 4).getLastD 0 = f.read (gtph + 11) := by
  rw [getLastD_eq_getLast?, getLast?_take, if_neg (by decide), getElem?_drop,
    getElem?_eq_getElem (by omega : gtph + 8 + (4 - 1) < f.bytes.length), Frame.read,
    getD_eq_getElem _ _ (by omega : gtph + 11 < f.bytes.length)]
  rfl

/-- A walk that ends inside the packet has read a well-formed header. -/
theorem header_of_headerLength
    (h : headerLength f f.gtph fuel = some len) (hin : f.gtph + len < f.bytes.length) :
    ∃ header payload, f.Carries header payload ∧ payload ≠ [] := by
  have hle := le_of_headerLength h
  obtain ⟨es, hchain, hdrop⟩ := extensions_of_headerLength h (Nat.le_of_lt hin)
  simp only [sizeofGtpv1] at hle hchain hdrop
  -- the flags, the seven bytes behind them, the options
  have hflags := Frame.drop_eq_cons (f := f) (i := f.gtph) (by omega)
  have hbody := take_append_drop 7 (f.bytes.drop (f.gtph + 1))
  have hoptions := take_append_drop (optionsLength (f.read f.gtph))
    (f.bytes.drop (f.gtph + 8))
  rw [drop_drop] at hbody hoptions
  rw [Nat.add_assoc, hdrop] at hoptions
  let header : GtpuHeader :=
    { flags := f.read f.gtph
      body := (f.bytes.drop (f.gtph + 1)).take 7
      options := (f.bytes.drop (f.gtph + 8)).take (optionsLength (f.read f.gtph))
      extensions := es
      body_length := by
        rw [length_take, length_drop]
        omega
      options_length := by
        rw [length_take, length_drop]
        omega
      chained := by
        by_cases hex : ex (f.read f.gtph) = true
        · rw [if_pos hex, optionsLength_of_ex hex] at hchain
          rw [optionsLength_of_ex hex] at hle
          rw [if_pos hex, optionsLength_of_ex hex, getLastD_options (by omega)]
          exact hchain
        · rw [if_neg hex] at hchain
          rw [if_neg hex]
          exact hchain }
  refine ⟨header, f.bytes.drop (f.gtph + len), ?_, ?_⟩
  · have hbytes : header.bytes ++ f.bytes.drop (f.gtph + len) =
        f.read f.gtph :: ((f.bytes.drop (f.gtph + 1)).take 7 ++
          ((f.bytes.drop (f.gtph + 8)).take (optionsLength (f.read f.gtph)) ++
            (extensionBytes es ++ f.bytes.drop (f.gtph + len)))) := by
      simp [header, GtpuHeader.bytes]
    rw [Frame.Carries, hbytes, hoptions, hbody, hflags]
  · intro hnil
    rw [drop_eq_nil_iff] at hnil
    omega

structure Frame.ToGtpu (f : Frame) : Prop where
  etherType : f.etherType = kIpv4
  proto : f.ipv4Protocol f.iph = kUdp
  dstPort : f.dstPort f.udph = udpPortGtpu

/-- With `steps` tests at most both modules find the length of the header,
and an inner packet they go on to starts inside the packet. -/
structure Frame.InnerInside (f : Frame) (steps : Nat) : Prop where
  parser : ∃ out, gtpuParser f steps = some out ∧ ∀ off, out.inner = some off →
    off < f.bytes.length
  decap : ∃ out, gtpuDecap f steps = some out ∧ out.inner < f.bytes.length

theorem gtpuParser_of_toGtpu (hf : f.ToGtpu) (fuel : Nat) :
    gtpuParser f fuel = (headerLength f f.gtph fuel).map fun len =>
      { gate := .forward
        attrs := some (parseFlow f (f.gtph + len) (f.field (f.gtph + 4) 4) (f.ipv4Dst f.iph))
        inner := some (f.gtph + len) } := by
  unfold gtpuParser
  rw [if_neg (fun hne => hne.1 hf.etherType)]
  simp only [hf.proto, hf.dstPort, and_self, if_true]
  cases headerLength f f.gtph fuel <;> rfl

/-- Both modules find the inner packet inside the packet, with at most as many
tests as the packet has bytes, exactly when a well-formed header and a payload
follow the UDP header. -/
theorem inner_offset_inside_iff (f : Frame) (hf : f.ToGtpu) :
    f.InnerInside f.bytes.length ↔
      ∃ header payload, f.Carries header payload ∧ payload ≠ [] := by
  constructor
  · intro hinside
    obtain ⟨out, hout, hin⟩ := hinside.decap
    unfold gtpuDecap at hout
    cases hlen : headerLength f f.gtph f.bytes.length with
    | none =>
      rw [hlen] at hout
      cases hout
    | some =>
      rw [hlen] at hout
      cases hout
      exact header_of_headerLength hlen hin
  · rintro ⟨header, payload, hcarries, hne⟩
    have hpayload : 0 < payload.length := length_pos_iff.mpr hne
    have hlen := hcarries.length
    have hlt : f.gtph + header.bytes.length < f.bytes.length := by omega
    constructor
    · rw [gtpuParser_of_toGtpu hf, headerLength_of_header hcarries hcarries.extensions_lt]
      refine ⟨_, rfl, ?_⟩
      rintro off ⟨rfl⟩
      exact hlt
    · exact ⟨_, gtpuDecap_of_header hcarries hcarries.extensions_lt, hlt⟩

def gtpuFrame (gtpu : List UInt8) (h : gtpu.length ≤ 1000) : Frame where
  bytes :=
    [0, 0, 0, 0, 0, 1, 0, 0, 0, 0, 0, 2, 0x08, 0x00] ++
    [0x45, 0, 0, 64, 0, 0, 0, 0, 64, 17, 0, 0, 198, 18, 0, 2, 198, 18, 0, 1] ++
    [0x08, 0x68, 0x08, 0x68, 0, 44, 0, 0] ++ gtpu
  beyond := fun _ => 0
  length_lt := by
    simp only [length_append, length_cons, length_nil]
    omega

def GtpuHeader.sample : GtpuHeader where
  flags := 0x34
  body := [0xFF, 0, 9, 0, 0, 0, 1]
  options := [0, 0, 0, 0x85]
  extensions := [⟨1, [0x10, 9], 0, rfl⟩]
  body_length := rfl
  options_length := rfl
  chained := by
    rw [if_pos (by decide)]
    exact ⟨by decide, rfl⟩

theorem inner_offset_inside_sample :
    (gtpuFrame (GtpuHeader.sample.bytes ++ [0x45]) (by decide)).InnerInside
      (gtpuFrame (GtpuHeader.sample.bytes ++ [0x45]) (by decide)).bytes.length :=
  (inner_offset_inside_iff _ ⟨by decide, by decide, by decide⟩).mpr
    ⟨GtpuHeader.sample, [0x45], rfl, by decide⟩

theorem probe_eq_none (htype : f.read (gtph + (len - 1)) ≠ 0)
    (hlen : f.read (gtph + len) = 0) (fuel : Nat) : probe f gtph fuel len = none := by
  induction fuel with
  | zero => rfl
  | succ fuel ih =>
    rw [probe, if_neg htype, hlen]
    exact ih

/-- A packet whose first extension header has length zero. -/
def stallingFrame : Frame :=
  gtpuFrame [0x34, 0xFF, 0, 8, 0, 0, 0, 1, 0, 0, 0, 0x85, 0, 0x10, 9, 0, 0x45] (by decide)

/-- No number of steps takes either module past this packet. -/
theorem zero_length_extension_stalls :
    stallingFrame.ToGtpu ∧
      ∀ steps, gtpuParser stallingFrame steps = none ∧ gtpuDecap stallingFrame steps = none := by
  have hto : stallingFrame.ToGtpu := ⟨by decide, by decide, by decide⟩
  refine ⟨hto, fun steps => ?_⟩
  have hprobe : probe stallingFrame stallingFrame.gtph steps 12 = none :=
    probe_eq_none (by decide) (by decide) steps
  have hnone : headerLength stallingFrame stallingFrame.gtph steps = none := hprobe
  constructor
  · rw [gtpuParser_of_toGtpu hto, hnone]
    rfl
  · rw [gtpuDecap, hnone]

end Upf.Bess
