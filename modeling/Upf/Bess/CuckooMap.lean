import Mathlib.Algebra.Order.Ring.Nat
import Mathlib.Data.List.Basic

/-!
# The cuckoo hash map

The layout of `CuckooMap`: key-value pairs in an array of entries and, beside it,
buckets of four slots.  A slot in use holds the hash of a key and the index of its
entry; a hash is never zero, which marks an empty slot.  What a map lists is found by
walking its slots.
-/

namespace Upf.Bess

/-- A slot of a bucket; it is empty if its hash is zero. -/
structure Slot where
  hash : UInt32 := 0
  entry : Nat := 0
deriving DecidableEq

abbrev Bucket := List Slot

structure CuckooMap (K V : Type) where
  bucketMask : UInt32
  numEntries : Nat := 0
  buckets : List Bucket
  entries : List (K × V)
  /-- The stack of free entries. -/
  freeEntryIndices : List Nat
deriving DecidableEq

namespace CuckooMap

def kEntriesPerBucket : Nat := 4

section Layout

variable {K V : Type}

def new [Inhabited K] [Inhabited V] (reserveBuckets reserveEntries : Nat) : CuckooMap K V where
  bucketMask := UInt32.ofNat reserveBuckets - 1
  buckets := List.replicate reserveBuckets (List.replicate kEntriesPerBucket {})
  entries := List.replicate reserveEntries default
  freeEntryIndices := List.range reserveEntries

def entryAt [Inhabited K] [Inhabited V] (m : CuckooMap K V) (i : Nat) : K × V :=
  m.entries.getD i default

def visited (m : CuckooMap K V) : List Nat :=
  m.buckets.flatten.filterMap fun s => if s.hash = 0 then none else some s.entry

def toList [Inhabited K] [Inhabited V] (m : CuckooMap K V) : List (K × V) :=
  m.visited.map m.entryAt

end Layout

end CuckooMap

end Upf.Bess
