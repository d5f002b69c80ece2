import Upf.Lib.Extents

/-!
# The pool of memory for DMA

Hugepages are kept as a set of free regions, from which blocks are cut and to which they
are given back.  The set is in the order of addresses, and a block that is given back is
spliced with the free regions next to it.

A pointer is its address, with zero for none.  A failing `CHECK` ends the program and is no
result.  `Alloc` and `AllocUpto` go on to read a region after erasing it from the set, from a
node that is gone: what they read there is a parameter `stale`.  What the kernel answers to
requests for hugepages is a parameter too.
-/

namespace Upf.Bess.Dma

open Lib Extent Option

/-- Machine arithmetic on `uint64_t`. -/
def wrap (n : Nat) : Nat := n % 2 ^ 64

theorem wrap_of_lt {n : Nat} (h : n < 2 ^ 64) : wrap n = n := Nat.mod_eq_of_lt h

def alignFloor (v align : Nat) : Nat := v - v % align

def alignCeil (v align : Nat) : Nat := alignFloor (wrap (v + align - 1)) align

theorem alignCeil_spec {n : Nat} (hn : n ≤ 2 ^ 63) :
    4096 ∣ alignCeil n 4096 ∧ n ≤ alignCeil n 4096 ∧ alignCeil n 4096 < n + 4096 := by
  have hwrap : wrap (n + 4096 - 1) = n + 4095 := wrap_of_lt (by omega)
  rw [alignCeil, alignFloor, hwrap]
  omega

abbrev ContiguousRegion := Extent

/-- The part of `AddRegion` about the region before the new one. -/
def splicePrev (regions : List ContiguousRegion) (newRegion : ContiguousRegion) :
    Option ContiguousRegion → Option (List ContiguousRegion × ContiguousRegion)
  | some prev =>
    if wrap (prev.addr + prev.size) ≤ newRegion.addr then
      if wrap (prev.addr + prev.size) = newRegion.addr then
        some (regions.erase prev, ⟨prev.addr, wrap (newRegion.size + prev.size)⟩)
      else some (regions, newRegion)
    else none
  | none => some (regions, newRegion)

/-- The part of `AddRegion` about the region after the new one. -/
def spliceNext (regions : List ContiguousRegion) (newRegion : ContiguousRegion) :
    Option ContiguousRegion → Option (List ContiguousRegion × ContiguousRegion)
  | some next =>
    if wrap (newRegion.addr + newRegion.size) ≤ next.addr then
      if wrap (newRegion.addr + newRegion.size) = next.addr then
        some (regions.erase next, ⟨newRegion.addr, wrap (newRegion.size + next.size)⟩)
      else some (regions, newRegion)
    else none
  | none => some (regions, newRegion)

/-- `DmaMemoryPool::AddRegion` -/
def addRegion (regions : List ContiguousRegion) (addr size : Nat) :
    Option (List ContiguousRegion) := do
  let prev := before regions addr
  let next := after regions addr
  let (regions, newRegion) ← splicePrev regions ⟨addr, size⟩ prev
  let (regions, newRegion) ← spliceNext regions newRegion next
  return Extent.insert newRegion regions

structure DmaMemoryPool where
  regions : List ContiguousRegion := []
  pages : List Nat := []
  alloced : Nat → Option Nat := fun _ => none
  initialized : Bool := false
  totalFreeBytes : Nat := 0

/-- `std::map::emplace` and `insert`, which leave a key that is there. -/
def emplace (alloced : Nat → Option Nat) (ptr size : Nat) : Nat → Option Nat :=
  if (alloced ptr).isSome then alloced else Function.update alloced ptr (some size)

def maxElement : List ContiguousRegion → Option ContiguousRegion
  | [] => none
  | region :: regions =>
    some (regions.foldl (fun largest r => if largest.size < r.size then r else largest) region)

namespace DmaMemoryPool

variable (stale : ContiguousRegion → ContiguousRegion) (pool : DmaMemoryPool)

/-- `DmaMemoryPool::Alloc`, first fit.  The pointer is read before the region is erased, and
what is left of the region is computed from the erased node. -/
def alloc (size : Nat) : Option (Nat × DmaMemoryPool) :=
  if size = 0 then none
  else
    let size := alignCeil size 4096
    match pool.regions.find? (fun region => size ≤ region.size) with
    | some region =>
      let regions := pool.regions.erase region
      let read := stale region
      let regions :=
        if size < read.size then
          Extent.insert ⟨wrap (read.addr + size), read.size - size⟩ regions
        else regions
      some (region.addr, { pool with
        alloced := emplace pool.alloced region.addr size
        regions := regions
        totalFreeBytes := wrap (pool.totalFreeBytes + 2 ^ 64 - size) })
    | none => some (0, pool)

/-- `DmaMemoryPool::AllocUpto` -/
def allocUpto (size : Nat) : Option ((Nat × Nat) × DmaMemoryPool) :=
  if size = 0 then none
  else
    let alignedSize := alignCeil size 4096
    (pool.alloc stale alignedSize).bind fun (ret, pool) =>
      if ret ≠ 0 then some ((ret, size), pool)
      else
        match maxElement pool.regions with
        | none => some ((0, 0), pool)
        | some it =>
          if it.size ≤ alignedSize then
            some ((it.addr, it.size), { pool with
              alloced := emplace pool.alloced it.addr it.size
              regions := pool.regions.erase it
              totalFreeBytes := wrap (pool.totalFreeBytes + 2 ^ 64 - (stale it).size) })
          else none

/-- `DmaMemoryPool::Free` -/
def free (ptr : Nat) : Option DmaMemoryPool :=
  if ptr = 0 then some pool
  else
    match pool.alloced ptr with
    | none => none
    | some size =>
      (addRegion pool.regions ptr size).map fun regions =>
        { pool with
          regions := regions
          alloced := Function.update pool.alloced ptr none
          totalFreeBytes := wrap (pool.totalFreeBytes + size) }

end DmaMemoryPool

inductive HugepageSize where
  | k2MB
  | k1GB
deriving DecidableEq

def HugepageSize.bytes : HugepageSize → Nat
  | k2MB => 2 ^ 21
  | k1GB => 2 ^ 30

def addPage (pool : DmaMemoryPool) (page : Extent) : Option DmaMemoryPool :=
  (addRegion pool.regions page.addr page.size).map fun regions =>
    { pool with
      totalFreeBytes := wrap (pool.totalFreeBytes + page.size)
      regions := regions
      pages := pool.pages ++ [page.addr] }

/-- The loop of the constructor.  The pointers are what `AllocHugepageFromSocket` returns,
after which it returns no page. -/
def gather (size : Nat) : HugepageSize → List Nat → DmaMemoryPool → Option DmaMemoryPool
  | _, [], pool => some pool
  | pageSize, ptr :: ptrs, pool =>
    if pool.totalFreeBytes < size then
      if ptr ≠ 0 then (addPage pool ⟨ptr, pageSize.bytes⟩).bind (gather size pageSize ptrs)
      else
        match pageSize with
        | .k1GB => gather size .k2MB ptrs pool
        | .k2MB => some pool
    else some pool

/-- `DmaMemoryPool::DmaMemoryPool`.  A pool that could not get its size gives its pages back
and keeps its regions. -/
def construct (size : Nat) (ptrs : List Nat) : Option DmaMemoryPool :=
  if size = 0 then none
  else
    (gather size .k1GB ptrs {}).map fun pool =>
      if size ≤ pool.totalFreeBytes then { pool with initialized := true }
      else { pool with pages := [] }

/-- The pages that the constructor gets. -/
def hugepages (size : Nat) : HugepageSize → List Nat → Nat → List Extent
  | _, [], _ => []
  | pageSize, ptr :: ptrs, got =>
    if got < size then
      if ptr ≠ 0 then
        ⟨ptr, pageSize.bytes⟩ :: hugepages size pageSize ptrs (wrap (got + pageSize.bytes))
      else
        match pageSize with
        | .k1GB => hugepages size .k2MB ptrs got
        | .k2MB => []
    else []

theorem gather_eq (size : Nat) (pageSize : HugepageSize) (ptrs : List Nat)
    (pool : DmaMemoryPool) : gather size pageSize ptrs pool =
      (hugepages size pageSize ptrs pool.totalFreeBytes).foldlM addPage pool := by
  induction ptrs generalizing pageSize pool with
  | nil => rfl
  | cons ptr ptrs ih =>
    simp only [gather, hugepages]
    split
    · split
      · rw [List.foldlM_cons]
        cases hadd : addPage pool ⟨ptr, pageSize.bytes⟩ with
        | none => rfl
        | some next =>
          have htotal : next.totalFreeBytes = wrap (pool.totalFreeBytes + pageSize.bytes) := by
            obtain ⟨regions, -, rfl⟩ := map_eq_some_iff.mp hadd
            rfl
          rw [bind_some, ih, htotal]
          rfl
      · cases pageSize with
        | k1GB => exact ih .k2MB pool
        | k2MB => rfl
    · rfl

section AddRegion

variable {regions : List ContiguousRegion} {region : ContiguousRegion}

theorem splicePrev_eq (h : Fits regions region) (prev : Option ContiguousRegion)
    (hprev : ∀ p, prev = some p → p ∈ regions ∧ p.addr < region.addr)
    (hbound : ∀ p ∈ regions, p.stop < 2 ^ 64) (hstop : region.stop < 2 ^ 64) :
    splicePrev regions region prev = some (joinBefore regions region prev) := by
  cases prev with
  | none => rfl
  | some p =>
    obtain ⟨hp, hlt⟩ := hprev p rfl
    have hwrap : wrap (p.addr + p.size) = p.stop := wrap_of_lt (hbound p hp)
    have hbeside := h.beside p hp
    have hpos := h.filled
    have hle : p.stop ≤ region.addr := by
      simp only [stop] at hbeside ⊢
      omega
    rw [splicePrev, joinBefore, hwrap, if_pos hle]
    by_cases htouch : p.stop = region.addr
    · rw [if_pos htouch, if_pos htouch, wrap_of_lt (by simp only [stop] at htouch hstop; omega)]
    · rw [if_neg htouch, if_neg htouch]

theorem spliceNext_eq (h : Fits regions region) (next : Option ContiguousRegion)
    (hnext : ∀ n, next = some n → n ∈ regions ∧ region.addr ≤ n.addr)
    (hbound : ∀ n ∈ regions, n.stop < 2 ^ 64) (hstop : region.stop < 2 ^ 64) :
    spliceNext regions region next = some (joinAfter regions region next) := by
  cases next with
  | none => rfl
  | some n =>
    obtain ⟨hn, hle⟩ := hnext n rfl
    have hwrap : wrap (region.addr + region.size) = region.stop := wrap_of_lt hstop
    have hnb := hbound n hn
    have hbeside := h.beside n hn
    have hpos := h.spaced.filled n hn
    have hle' : region.stop ≤ n.addr := by
      simp only [stop] at hbeside ⊢
      omega
    rw [spliceNext, joinAfter, hwrap, if_pos hle']
    by_cases htouch : region.stop = n.addr
    · rw [if_pos htouch, if_pos htouch, wrap_of_lt (by simp only [stop] at htouch hnb; omega)]
    · rw [if_neg htouch, if_neg htouch]

theorem addRegion_eq {addr size : Nat} (h : Fits regions ⟨addr, size⟩)
    (hbound : ∀ r ∈ regions, r.stop < 2 ^ 64) (hstop : addr + size < 2 ^ 64) :
    addRegion regions addr size = some (join regions ⟨addr, size⟩) := by
  have hleft := h.leftJoined
  have hprev := splicePrev_eq h (before regions addr)
    (fun p hp => ⟨(h.spaced.before_some hp).1, (h.spaced.before_some hp).2.1⟩) hbound hstop
  have hnext := spliceNext_eq hleft.merged.fits (after regions addr) ?_
    (fun n hn => hbound n (hleft.subset n hn)) ?_
  · rw [addRegion]
    simp only [hprev, bind_eq_bind, bind_some, hnext]
    rfl
  · intro n hn
    obtain ⟨hmem, hle, -⟩ := h.spaced.after_some hn
    exact ⟨hleft.rest n hmem hle, hleft.addr_le.trans hle⟩
  · rw [hleft.stop_eq]
    exact hstop

end AddRegion

end Upf.Bess.Dma
