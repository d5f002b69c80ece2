import Mathlib.Algebra.Order.Ring.Nat
import Mathlib.Data.List.Basic

/-!
# Errors, causes and addresses of the PFCP agent

The vocabulary the rest of the agent is written in: the error values of
`errors.go`, the cause values an answer carries, the interface constants
of `upf.go` and the address helpers of `utils.go`.

Addresses are byte lists, as `net.IP` is a byte slice whose length is read
at run time.
-/

namespace Upf

/-- A value printed into an error text. -/
inductive Param where
  | num (n : Nat)
  | ports (low high : UInt16)
  | bytes (b : List UInt8)
  | text (s : String)
deriving DecidableEq

/-- The errors the agent returns, one constructor for each builder of
`errors.go` and each sentinel of the handlers.  An error the message
library returns while decoding is `decode`. -/
inductive GoError where
  | unsupported (what : String) (value : Param)
  | notFound (what : String)
  | notFoundWithParam (what paramName : String) (value : Param)
  | invalidArgument (name : String) (value : Param)
  | invalidArgumentWithReason (name : String) (value : Param) (reason : String)
  | operationFailedWithReason (operation reason : String)
  | operationFailedWithParam (operation paramName : String) (value : Param)
  | badFilterDesc
  | noAvailableID
  | writeToDatapath
  | assocNotFound
  | allocateSession
  | nodeIDMissing
  | cpfSEIDMissing
  | causeMissing
  | assocReleasing
  | decode (what : String)
deriving DecidableEq

/-- How a piece of code that does not return a value ends: with an error it
returns, or with a run-time fault nothing recovers from. -/
inductive Fault where
  | err (e : GoError)
  | panicked
deriving DecidableEq

/-- What an accessor of the message library returns: a value, or the text of a
decoding error. -/
abbrev Decoded (α : Type) := Except String α

inductive Cause where
  | requestAccepted
  | requestRejected
  | sessionContextNotFound
  | mandatoryIEMissing
  | noEstablishedPFCPAssociation
  | noResourcesAvailable
deriving DecidableEq

/-- Source interface value of packets from the access network. -/
def access : UInt8 := 0x1

/-- Source interface value of packets from the core network. -/
def core : UInt8 := 0x2

def tunnelGTPUPort : UInt16 := 2152

def srcInterfaceAccess : UInt8 := 0
def srcInterfaceCore : UInt8 := 1
def srcInterfaceCPFunction : UInt8 := 3

def dstInterfaceAccess : UInt8 := 0
def dstInterfaceCore : UInt8 := 1
def dstInterfaceSGiLANN6LAN : UInt8 := 2

abbrev IP := List UInt8

/-- Big-endian value of a byte list, as a 32-bit word. -/
def bigEndianUint32 (bs : List UInt8) : UInt32 :=
  bs.foldl (fun acc b => (acc <<< 8) ||| b.toUInt32) 0

/-- Read an address as a number; too short a slice reads as zero. -/
def ip2int (ip : IP) : UInt32 :=
  if ip.length < 4 then 0
  else if ip.length = 16 then bigEndianUint32 ((ip.drop 12).take 4)
  else bigEndianUint32 (ip.take 4)

/-- Read a mask as a number.  Too short a slice is out of bounds. -/
def ipMask2int (mask : IP) : Except Fault UInt32 :=
  if mask.length = 16 then .ok (bigEndianUint32 ((mask.drop 12).take 4))
  else if mask.length < 4 then .error .panicked
  else .ok (bigEndianUint32 (mask.take 4))

/-- Write a number as a four-byte address. -/
def int2ip (nn : UInt32) : IP :=
  [(nn >>> 24).toUInt8, (nn >>> 16).toUInt8, (nn >>> 8).toUInt8, nn.toUInt8]

def has2ndBit (f : UInt8) : Bool := (f &&& 0x02) >>> 1 == 1

/-- The test the source makes for the fifth bit.  The masked value is compared
with one, not shifted first, so it never holds. -/
def has5thBit (f : UInt8) : Bool := (f &&& 0x10) == 1

end Upf
