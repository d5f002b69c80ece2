import Upf.Pfcp.PortRange

/-!
# Flow descriptions

The parser of `parse_sdf.go` for IPFilterRule strings, with the pieces of
the standard library it leans on: splitting at white space, decimal numbers of
a given width, and CIDR networks of either family.  Text is a list of
characters throughout.
-/

namespace Upf

abbrev Text := List Char

def isSpace (c : Char) : Bool :=
  let n := c.toNat
  (9 ≤ n && n ≤ 13) || n == 0x20 || n == 0x85 || n == 0xA0 || n == 0x1680 ||
  (0x2000 ≤ n && n ≤ 0x200a) || n == 0x2028 || n == 0x2029 || n == 0x202f ||
  n == 0x205f || n == 0x3000

/-- The non-empty runs between white space. -/
def textFields (s : Text) : List Text := (s.splitOnP isSpace).filter (· ≠ [])

def isDigit (c : Char) : Bool := '0' ≤ c && c ≤ '9'

def digitVal (c : Char) : Nat := c.toNat - '0'.toNat

/-- The value of a non-empty run of decimal digits. -/
def decimal (s : Text) : Option Nat :=
  if s ≠ [] && s.all isDigit then some (s.foldl (fun acc c => acc * 10 + digitVal c) 0)
  else none

/-- `strconv.ParseUint` in base ten: digits only, and small enough. -/
def parseUint (s : Text) (bitSize : Nat) : Except GoError Nat :=
  match decimal s with
  | some n => if n < 2 ^ bitSize then .ok n else .error (.decode "value out of range")
  | none => .error (.decode "invalid syntax")

/-- A network: an address with its host bits cleared, and the mask. -/
structure IPNet where
  ip : IP
  mask : IP
deriving DecidableEq

def parseOctet (s : Text) : Option UInt8 :=
  match s with
  | '0' :: _ :: _ => none
  | _ => (decimal s).bind fun n => if n ≤ 255 then some (UInt8.ofNat n) else none

def parseIPv4Fields (s : Text) : Option IP :=
  let parts := s.splitOn '.'
  if parts.length = 4 then parts.mapM parseOctet else none

def isHex (c : Char) : Bool :=
  isDigit c || ('a' ≤ c && c ≤ 'f') || ('A' ≤ c && c ≤ 'F')

def hexVal (c : Char) : Nat :=
  if isDigit c then digitVal c
  else if 'a' ≤ c && c ≤ 'f' then c.toNat - 'a'.toNat + 10
  else c.toNat - 'A'.toNat + 10

/-- The groups of an IPv6 address: the bytes read, and where the ellipsis
stands.  A dotted quad may end it. -/
def parseIPv6Groups : Nat → Text → List UInt8 → Option Nat → Option (List UInt8 × Option Nat)
  | 0, s, out, ellipsis => if s = [] then some (out, ellipsis) else none
  | fuel + 1, s, out, ellipsis =>
    let hex := s.takeWhile isHex
    let rest := s.dropWhile isHex
    if hex.length = 0 || hex.length > 4 then none
    else if rest.head? = some '.' then
      if (ellipsis.isNone && out.length ≠ 12) || out.length + 4 > 16 then none
      else (parseIPv4Fields s).map fun v4 => (out ++ v4, ellipsis)
    else
      let acc := hex.foldl (fun acc c => acc * 16 + hexVal c) 0
      let out := out ++ [UInt8.ofNat (acc / 256), UInt8.ofNat acc]
      match rest with
      | [] => some (out, ellipsis)
      | ':' :: ':' :: more =>
        if ellipsis.isSome then none
        else if more = [] then some (out, some out.length)
        else parseIPv6Groups fuel more out (some out.length)
      | ':' :: c :: more => parseIPv6Groups fuel (c :: more) out ellipsis
      | _ => none

def parseIPv6 (s : Text) : Option IP :=
  let start : Option (List UInt8 × Option Nat) :=
    match s with
    | ':' :: ':' :: [] => some ([], some 0)
    | ':' :: ':' :: more => parseIPv6Groups 8 more [] (some 0)
    | _ => parseIPv6Groups 8 s [] none
  start.bind fun (out, ellipsis) =>
    match ellipsis with
    | none => if out.length < 16 then none else some out
    | some at_ =>
      if out.length < 16 then
        some (out.take at_ ++ List.replicate (16 - out.length) 0 ++ out.drop at_)
      else none

/-- An address of either family, told apart by the first separator. -/
def parseAddr (s : Text) : Option IP :=
  if s.contains '%' then none
  else
    match s.find? (fun c => c == '.' || c == ':') with
    | some '.' => parseIPv4Fields s
    | some ':' => parseIPv6 s
    | _ => none

/-- The byte of a mask at position `i` when `n` leading bits are set. -/
def maskByte (n i : Nat) : UInt8 :=
  let ones := min 8 (n - 8 * i)
  UInt8.ofNat (256 - 2 ^ (8 - ones))

/-- A mask of `n` leading ones over `len` bytes. -/
def cidrMask (n len : Nat) : IP := (List.range len).map (maskByte n)

/-- `net.ParseCIDR`: an address, a slash, and a prefix length. -/
def parseCIDR (s : Text) : Option IPNet :=
  match s.splitOn '/' with
  | [addr, mask] =>
    (parseAddr addr).bind fun ip =>
      (decimal mask).bind fun n =>
        if n ≤ 8 * ip.length then
          let m := cidrMask n ip.length
          some { ip := List.zipWith (· &&& ·) ip m, mask := m }
        else none
  | _ => none

/-- Dotted form of a 32-bit address. -/
def ipv4String (nn : UInt32) : Text :=
  ['.'].intercalate ((int2ip nn).map fun b => Nat.toDigits 10 b.toNat)

/-- An endpoint of a flow: the network is absent until one is parsed. -/
structure Endpoint where
  ipNet : Option IPNet := none
  ports : PortRange
deriving DecidableEq

namespace Endpoint

def parseNet (ep : Endpoint) (ipnet : Text) : Except GoError Endpoint :=
  let ipNetFields := ipnet.splitOn '/'
  let parsed : Except GoError Text :=
    match ipNetFields with
    | [addr] => .ok (addr ++ "/32".toList)
    | [_, _] => .ok ipnet
    | _ => .error (.invalidArgument "network string" (.num ipNetFields.length))
  match parsed with
  | .error e => .error e
  | .ok text =>
    match parseCIDR text with
    | some net => .ok { ep with ipNet := some net }
    | none => .error (.operationFailedWithReason "ParseCIDR" "invalid CIDR address")

def parsePort (ep : Endpoint) (port : Text) : Except GoError Endpoint := do
  let (lowText, highText) ←
    match port.splitOn '-' with
    | [one] => pure (one, one)
    | [low, high] => pure (low, high)
    | _ => .error (.invalidArgument "port string" (.text (String.ofList port)))
  let low ← parseUint lowText 16
  let high ← parseUint highText 16
  if low > high then
    .error (.invalidArgumentWithReason "port" (.text (String.ofList port)) "invalid port range")
  else return { ep with ports := newRangeMatchPortRange (UInt16.ofNat low) (UInt16.ofNat high) }

end Endpoint

def reservedProto : UInt8 := 0xff

inductive FilterDirection where
  | «in»
  | out
deriving DecidableEq

/-- A parsed flow description.  The action is checked and not used again. -/
structure IpFilterRule where
  direction : FilterDirection := .in
  proto : UInt8 := 0
  src : Endpoint := { ports := newWildcardPortRange }
  dst : Endpoint := { ports := newWildcardPortRange }
deriving DecidableEq

def parseAction (action : Text) : Except GoError Unit :=
  if action = ['p', 'e', 'r', 'm', 'i', 't'] || action = ['d', 'e', 'n', 'y'] then .ok ()
  else .error .badFilterDesc

def parseDirection (dir : Text) : Except GoError FilterDirection :=
  if dir = ['i', 'n'] then .ok .in
  else if dir = ['o', 'u', 't'] then .ok .out
  else .error .badFilterDesc

def parseL4Proto (proto : Text) : Except GoError UInt8 :=
  match parseUint proto 8 with
  | .ok p => .ok (UInt8.ofNat p)
  | .error _ =>
    if proto = ['i', 'p'] then .ok reservedProto
    else if proto = ['u', 'd', 'p'] then .ok 17
    else if proto = ['t', 'c', 'p'] then .ok 6
    else .error .badFilterDesc

def ipv4WildcardNet : Text := ['0', '.', '0', '.', '0', '.', '0', '/', '0']

/-- Replace the words `any` and `assigned` by networks. -/
def xform (ueIP : Text) (field : Text) : Text :=
  if field = ['a', 'n', 'y'] then ipv4WildcardNet
  else if field = ['a', 's', 's', 'i', 'g', 'n', 'e', 'd'] then
    if ueIP = ['0', '.', '0', '.', '0', '.', '0'] || ueIP = [] then ipv4WildcardNet else ueIP
  else field

def wordFrom : Text := ['f', 'r', 'o', 'm']

def wordTo : Text := ['t', 'o']

/-- The walk over the fields past the protocol.  Words it does not know are
skipped.  A port may follow a source network unless the next word is
`to`, and anything that follows a destination network is a port. -/
def processFlowFields (ueIP : Text) : List Text → IpFilterRule → Except GoError IpFilterRule
  | [], ipf => .ok ipf
  | word :: rest, ipf =>
    if word = wordFrom then
      match rest with
      | [] => .error .badFilterDesc
      | [net] => (ipf.src.parseNet (xform ueIP net)).map fun src => { ipf with src }
      | net :: port :: rest =>
        match ipf.src.parseNet (xform ueIP net) with
        | .error e => .error e
        | .ok src =>
          if port = wordTo then
            processFlowFields ueIP (port :: rest) { ipf with src }
          else
            match src.parsePort (xform ueIP port) with
            | .error e => .error e
            | .ok src => processFlowFields ueIP rest { ipf with src }
    else if word = wordTo then
      match rest with
      | [] => .error .badFilterDesc
      | [net] => (ipf.dst.parseNet (xform ueIP net)).map fun dst => { ipf with dst }
      | net :: port :: rest =>
        match ipf.dst.parseNet (xform ueIP net) with
        | .error e => .error e
        | .ok dst =>
          match dst.parsePort (xform ueIP port) with
          | .error e => .error e
          | .ok dst => processFlowFields ueIP rest { ipf with dst }
    else processFlowFields ueIP rest ipf

def parseFlowDesc (flowDesc ueIP : Text) : Except GoError IpFilterRule :=
  match textFields flowDesc with
  | action :: dir :: proto :: rest => do
      parseAction action
      let direction ← parseDirection dir
      let proto ← parseL4Proto proto
      processFlowFields ueIP rest { direction, proto }
  | _ => .error .badFilterDesc

/-- A description with a port on the source side, for the address 10.0.0.7. -/
example : (parseFlowDesc "permit out udp from 10.1.0.0/16 80-81 to assigned".toList
      (ipv4String 0x0A000007)).toOption.map (fun ipf => (ipf.src, ipf.dst.ipNet)) =
    some ({ ipNet := some { ip := [10, 1, 0, 0], mask := [255, 255, 0, 0] },
            ports := { low := 80, high := 81 } },
          some { ip := [10, 0, 0, 7], mask := [255, 255, 255, 255] }) := by
  decide +kernel

end Upf
