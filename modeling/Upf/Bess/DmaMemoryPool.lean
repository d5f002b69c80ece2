import Upf.Bess.DmaMemory

/-!
# The pool of memory for DMA is a sound allocator

Free regions and allocated blocks tile the hugepages that the pool holds, free regions do
not touch, and the number of free bytes is that of the free regions.  Every operation keeps
that, none of the checks fails, and a block is as large as the request unless there is no
free region of that size.

A constructor that does not get its size gives its pages back and keeps the regions in them,
so that blocks are then cut from memory the pool does not hold.

Main results:

- Theorem `dmaMemoryPool_sound`: the pool is sound after every run exactly when its
  constructor got its size or nothing.
- Theorem `failed_pool_allocates`: a failed pool returns a block of a page it gave back.
-/

namespace Upf.Bess.Dma

open Function Lib Extent List Nat

/-- Pages that do not overlap, at multiples of the size of a small page, somewhere in the
address space. -/
structure Hugepages (pages : List Extent) : Prop where
  apart : pages.Pairwise fun p q => ∀ x, p.Has x → ¬ q.Has x
  aligned : Aligned 4096 pages
  inSpace : ∀ p ∈ pages, 0 < p.addr ∧ p.stop < 2 ^ 64

/-- Free regions and blocks tile the pages, at multiples of the size of a small page. -/
structure Sound (pages : List Extent) (pool : DmaMemoryPool) : Prop where
  spaced : Spaced pool.regions
  aligned : Aligned 4096 pool.regions
  block : ∀ {ptr size}, pool.alloced ptr = some size → 0 < size ∧ 4096 ∣ ptr ∧ 4096 ∣ size
  covers : ∀ x, Covers pages x ↔
    Covers pool.regions x ∨ ∃ ptr size, pool.alloced ptr = some size ∧ (Extent.mk ptr size).Has x
  apart : ∀ {ptr size x}, pool.alloced ptr = some size → (Extent.mk ptr size).Has x →
    ¬ Covers pool.regions x
  blocksApart : ∀ {ptr size ptr' size' x}, pool.alloced ptr = some size →
    pool.alloced ptr' = some size' → (Extent.mk ptr size).Has x → (Extent.mk ptr' size').Has x →
    ptr = ptr'
  counted : pool.totalFreeBytes = total pool.regions

section Bounds

variable {pages : List Extent} {pool : DmaMemoryPool} {e : Extent}

theorem Hugepages.extent (h : Hugepages pages) (he : 0 < e.size)
    (hcovers : ∀ x, e.Has x → Covers pages x) : 0 < e.addr ∧ e.stop < 2 ^ 64 := by
  have hfirst : e.Has e.addr := by
    simp only [Has, stop]
    omega
  have hlast : e.Has (e.stop - 1) := by
    simp only [Has, stop]
    omega
  obtain ⟨p, hp, hpx⟩ := hcovers _ hfirst
  obtain ⟨q, hq, hqx⟩ := hcovers _ hlast
  have hpin := h.inSpace p hp
  have hqin := h.inSpace q hq
  simp only [Has, stop] at hpx hqx hqin ⊢
  omega

theorem Sound.region_bounds (h : Sound pages pool) (hpages : Hugepages pages)
    (he : e ∈ pool.regions) : 0 < e.addr ∧ e.stop < 2 ^ 64 :=
  hpages.extent (h.spaced.filled e he) fun x hx => (h.covers x).mpr (.inl ⟨e, he, hx⟩)

theorem Sound.block_bounds (h : Sound pages pool) (hpages : Hugepages pages) {ptr size : Nat}
    (hblock : pool.alloced ptr = some size) : 0 < ptr ∧ ptr + size < 2 ^ 64 :=
  hpages.extent (e := ⟨ptr, size⟩) (h.block hblock).1 fun x hx =>
    (h.covers x).mpr (.inr ⟨ptr, size, hblock, hx⟩)

theorem Hugepages.total_lt (h : Hugepages pages) {regions : List Extent}
    (hspaced : Spaced regions) (hcovers : ∀ x, Covers regions x → Covers pages x) :
    total regions < 2 ^ 64 := by
  have hle := hspaced.total_le 0 (2 ^ 64 - 1) (fun e he => ⟨Nat.zero_le _, ?_⟩) (Nat.zero_le _)
  · omega
  · have hbounds := h.extent (hspaced.filled e he) fun x hx => hcovers x ⟨e, he, hx⟩
    omega

end Bounds

variable {pages : List Extent} {pool : DmaMemoryPool}

/-- The pages among those the constructor got that the pool holds. -/
def DmaMemoryPool.backing (got : List Extent) (pool : DmaMemoryPool) : List Extent :=
  got.filter fun page => page.addr ∈ pool.pages

/-- Cut a block off a free region. -/
def take (pool : DmaMemoryPool) (region : Extent) (size : Nat) : DmaMemoryPool :=
  { pool with
    alloced := emplace pool.alloced region.addr size
    regions := carve pool.regions region size
    totalFreeBytes := wrap (pool.totalFreeBytes + 2 ^ 64 - size) }

variable {region : Extent} {size : Nat}

theorem Sound.alloced_region (h : Sound pages pool)
    (hregion : region ∈ pool.regions) : pool.alloced region.addr = none := by
  cases hblock : pool.alloced region.addr with
  | none => rfl
  | some =>
    have hpos := h.spaced.filled region hregion
    have hsize := (h.block hblock).1
    refine absurd ⟨region, hregion, ?_⟩ (h.apart (x := region.addr) hblock ?_)
    · simp only [Has, stop]
      omega
    · simp only [Has, stop]
      omega

theorem Sound.emplace (h : Sound pages pool) (hregion : region ∈ pool.regions)
    (size : Nat) :
    emplace pool.alloced region.addr size =
      update pool.alloced region.addr (some size) := by
  rw [Dma.emplace, h.alloced_region hregion]
  rfl

theorem Sound.take (h : Sound pages pool) (hpages : Hugepages pages)
    (hregion : region ∈ pool.regions) (hpos : 0 < size) (hle : size ≤ region.size)
    (haligned : 4096 ∣ size) : Sound pages (take pool region size) := by
  obtain ⟨hspaced, hcovers, happart, htotal, halign⟩ := h.spaced.carve hregion hpos hle
  have halloced : (Dma.take pool region size).alloced =
      update pool.alloced region.addr (some size) := h.emplace hregion size
  -- The blocks are the former ones and the new one.
  have hblocks : ∀ {ptr n}, (Dma.take pool region size).alloced ptr = some n →
      (ptr = region.addr ∧ n = size) ∨ (ptr ≠ region.addr ∧ pool.alloced ptr = some n) := by
    intro ptr n hptr
    rw [halloced] at hptr
    by_cases heq : ptr = region.addr
    · rw [heq, update_self, Option.some.injEq] at hptr
      exact .inl ⟨heq, hptr.symm⟩
    · rw [update_of_ne heq] at hptr
      exact .inr ⟨heq, hptr⟩
  have hold : ∀ {ptr n x}, pool.alloced ptr = some n → (Extent.mk ptr n).Has x →
      ¬ (Extent.mk region.addr size).Has x := by
    intro ptr n x hptr hx hnew
    exact h.apart hptr hx ((hcovers x).mpr (.inl hnew))
  refine ⟨hspaced, halign 4096 haligned h.aligned, ?_, fun x => ?_, ?_, ?_, ?_⟩
  · intro ptr n hptr
    rcases hblocks hptr with ⟨rfl, rfl⟩ | ⟨-, hptr⟩
    · exact ⟨hpos, (h.aligned region hregion).1, haligned⟩
    · exact h.block hptr
  · rw [h.covers x, hcovers x]
    constructor
    · rintro ((hnew | hfree) | ⟨ptr, n, hptr, hx⟩)
      · exact .inr ⟨region.addr, size, by rw [halloced, update_self], hnew⟩
      · exact .inl hfree
      · have hne : ptr ≠ region.addr := by
          rintro rfl
          rw [h.alloced_region hregion] at hptr
          cases hptr
        exact .inr ⟨ptr, n, by rw [halloced, update_of_ne hne, hptr], hx⟩
    · rintro (hfree | ⟨ptr, n, hptr, hx⟩)
      · exact .inl (.inr hfree)
      · rcases hblocks hptr with ⟨rfl, rfl⟩ | ⟨-, hptr⟩
        · exact .inl (.inl hx)
        · exact .inr ⟨ptr, n, hptr, hx⟩
  · intro ptr n x hptr hx hfree
    rcases hblocks hptr with ⟨rfl, rfl⟩ | ⟨-, hptr⟩
    · exact happart x hx hfree
    · exact h.apart hptr hx ((hcovers x).mpr (.inr hfree))
  · intro ptr n ptr' n' x hptr hptr' hx hx'
    rcases hblocks hptr with ⟨rfl, rfl⟩ | ⟨-, hblock⟩ <;>
      rcases hblocks hptr' with ⟨rfl, rfl⟩ | ⟨-, hblock'⟩
    · rfl
    · exact absurd hx (hold hblock' hx')
    · exact absurd hx' (hold hblock hx)
    · exact h.blocksApart hblock hblock' hx hx'
  · have hlt := hpages.total_lt h.spaced fun x hx => (h.covers x).mpr (.inl hx)
    have hcounted := h.counted
    have hmod : pool.totalFreeBytes + 2 ^ 64 - size =
        total (carve pool.regions region size) + 2 ^ 64 := by omega
    change wrap (pool.totalFreeBytes + 2 ^ 64 - size) = total (carve pool.regions region size)
    rw [hmod, wrap, add_mod_right, mod_eq_of_lt (by omega)]

theorem Spaced.addRegion {regions : List Extent} {addr : Nat} (h : Spaced regions)
    (hbound : ∀ r ∈ regions, r.stop < 2 ^ 64) (hsize : 0 < size) (hstop : addr + size < 2 ^ 64)
    (hnew : ∀ x, (Extent.mk addr size).Has x → ¬ Covers regions x) :
    ∃ regions', addRegion regions addr size = some regions' ∧ Spaced regions' ∧
      (∀ x, Covers regions' x ↔ (Extent.mk addr size).Has x ∨ Covers regions x) ∧
      total regions' = size + total regions ∧
      (4096 ∣ addr ∧ 4096 ∣ size → Aligned 4096 regions → Aligned 4096 regions') := by
  have hfits : Fits regions ⟨addr, size⟩ := h.fits hsize hnew
  obtain ⟨hspaced, hcovers, htotal, haligned⟩ := hfits.join
  refine ⟨_, addRegion_eq hfits hbound hstop, hspaced, hcovers, htotal, fun hnew hold => ?_⟩
  apply haligned
  intro r hr
  rcases mem_cons.mp hr with rfl | hr
  · exact hnew
  · exact hold r hr

theorem Sound.free (h : Sound pages pool) (hpages : Hugepages pages) {ptr : Nat}
    (hptr : pool.alloced ptr = some size) :
    ∃ pool', pool.free ptr = some pool' ∧ Sound pages pool' ∧
      pool'.alloced = update pool.alloced ptr none := by
  obtain ⟨hsize, haligned⟩ := h.block hptr
  obtain ⟨hpos, hstop⟩ := h.block_bounds hpages hptr
  obtain ⟨regions', hadd, hspaced, hcovers, htotal, halign⟩ := Spaced.addRegion h.spaced
    (fun r hr => (h.region_bounds hpages hr).2) hsize hstop fun x hx => h.apart hptr hx
  let pool' : DmaMemoryPool := { pool with
    regions := regions', alloced := update pool.alloced ptr none
    totalFreeBytes := wrap (pool.totalFreeBytes + size) }
  have hblocks : ∀ {ptr' n}, pool'.alloced ptr' = some n →
      ptr' ≠ ptr ∧ pool.alloced ptr' = some n := by
    intro ptr' n hptr'
    by_cases heq : ptr' = ptr
    · rw [heq] at hptr'
      exact absurd hptr' (by simp [pool'])
    · refine ⟨heq, hptr' ▸ ?_⟩
      exact (update_of_ne heq _ _).symm
  have hcovers' : ∀ x, Covers pages x ↔ Covers pool'.regions x ∨
      ∃ ptr size, pool'.alloced ptr = some size ∧ (Extent.mk ptr size).Has x := by
    intro x
    rw [h.covers x]
    constructor
    · rintro (hfree | ⟨ptr', n, hptr', hx⟩)
      · exact .inl ((hcovers x).mpr (.inr hfree))
      · by_cases heq : ptr' = ptr
        · rw [heq, hptr, Option.some.injEq] at hptr'
          rw [heq, ← hptr'] at hx
          exact .inl ((hcovers x).mpr (.inl hx))
        · exact .inr ⟨ptr', n, by rw [← hptr']; exact update_of_ne heq _ _, hx⟩
    · rintro (hfree | ⟨ptr', n, hptr', hx⟩)
      · rcases (hcovers x).mp hfree with hx | hfree
        · exact .inr ⟨ptr, size, hptr, hx⟩
        · exact .inl hfree
      · exact .inr ⟨ptr', n, (hblocks hptr').2, hx⟩
  refine ⟨pool', ?_, ⟨hspaced, halign haligned h.aligned, fun hptr' => h.block (hblocks hptr').2,
    hcovers', ?_, fun hp hp' => h.blocksApart (hblocks hp).2 (hblocks hp').2, ?_⟩, rfl⟩
  · rw [DmaMemoryPool.free, if_neg (Nat.ne_of_gt hpos)]
    simp only [hptr, hadd, Option.map_some]
    rfl
  · intro ptr' n x hptr' hx hfree
    obtain ⟨hne, hptr'⟩ := hblocks hptr'
    rcases (hcovers x).mp hfree with hx' | hfree
    · exact hne (h.blocksApart hptr' hptr hx hx')
    · exact h.apart hptr' hx hfree
  · have hlt := hpages.total_lt hspaced fun x hx => (hcovers' x).mpr (.inl hx)
    have hcounted := h.counted
    change wrap (pool.totalFreeBytes + size) = total regions'
    rw [wrap_of_lt (by omega)]
    omega

theorem Hugepages.sublist {pages' : List Extent} (h : Hugepages pages)
    (hsub : pages'.Sublist pages) : Hugepages pages' :=
  ⟨h.apart.sublist hsub, fun p hp => h.aligned p (hsub.mem hp),
    fun p hp => h.inSpace p (hsub.mem hp)⟩

theorem Sound.addPage (h : Sound pages pool) {page : Extent}
    (hpages : Hugepages (page :: pages)) (hsize : 0 < page.size) :
    ∃ pool', addPage pool page = some pool' ∧ Sound (page :: pages) pool' ∧
      pool'.pages = pool.pages ++ [page.addr] ∧
      pool'.totalFreeBytes = pool.totalFreeBytes + page.size := by
  have hold := hpages.sublist (sublist_cons_self page pages)
  have hnew : ∀ x, page.Has x → ¬ Covers pages x := by
    rintro x hx ⟨p, hp, hpx⟩
    exact (pairwise_cons.mp hpages.apart).1 p hp x hx hpx
  obtain ⟨regions', hadd, hspaced, hcovers, htotal, halign⟩ := Spaced.addRegion h.spaced
    (fun r hr => (h.region_bounds hold hr).2) hsize (hpages.inSpace page mem_cons_self).2
    fun x hx hfree => hnew x hx ((h.covers x).mpr (.inl hfree))
  have hcovers' : ∀ x, Covers (page :: pages) x ↔ Covers regions' x ∨
      ∃ ptr size, pool.alloced ptr = some size ∧ (Extent.mk ptr size).Has x := by
    intro x
    rw [covers_cons, h.covers x, hcovers x, or_assoc]
  let pool' : DmaMemoryPool := { pool with
    totalFreeBytes := wrap (pool.totalFreeBytes + page.size), regions := regions'
    pages := pool.pages ++ [page.addr] }
  have hadd' : Dma.addPage pool page = some pool' := by
    rw [Dma.addPage, hadd]
    rfl
  have hlt := hpages.total_lt hspaced fun x hx => (hcovers' x).mpr (.inl hx)
  have hcounted := h.counted
  have hfree : pool'.totalFreeBytes = pool.totalFreeBytes + page.size :=
    wrap_of_lt (by omega)
  refine ⟨pool', hadd', ⟨hspaced, halign (hpages.aligned page mem_cons_self) h.aligned,
    h.block, hcovers', ?_, h.blocksApart, ?_⟩, rfl, hfree⟩
  · intro ptr size x hptr hx hfree
    rcases (hcovers x).mp hfree with hpage | hfree
    · exact hnew x hpage ((h.covers x).mpr (.inr ⟨ptr, size, hptr, hx⟩))
    · exact h.apart hptr hx hfree
  · change pool'.totalFreeBytes = total regions'
    omega

theorem HugepageSize.bytes_pos (pageSize : HugepageSize) : 0 < pageSize.bytes := by
  cases pageSize <;> decide

theorem hugepages_size {pageSize : HugepageSize} {ptrs : List Nat} {got : Nat}
    {p : Extent} (hp : p ∈ hugepages size pageSize ptrs got) : 0 < p.size := by
  induction ptrs generalizing pageSize got with
  | nil => cases hp
  | cons ptr ptrs ih =>
    simp only [hugepages] at hp
    split at hp
    · split at hp
      · rcases mem_cons.mp hp with rfl | hp
        · exact pageSize.bytes_pos
        · exact ih hp
      · cases pageSize with
        | k1GB => exact ih hp
        | k2MB => cases hp
    · cases hp

theorem Sound.congr {pages' : List Extent} (h : Sound pages pool)
    (hsame : pages.Perm pages') : Sound pages' pool :=
  ⟨h.spaced, h.aligned, h.block, fun x => (covers_of_perm hsame).symm.trans (h.covers x),
    h.apart, h.blocksApart, h.counted⟩

theorem Sound.addPages {new : List Extent} (h : Sound pages pool)
    (hpages : Hugepages (new ++ pages)) (hsize : ∀ p ∈ new, 0 < p.size) :
    ∃ pool', new.foldlM Dma.addPage pool = some pool' ∧ Sound (new ++ pages) pool' ∧
      pool'.pages = pool.pages ++ new.map Extent.addr ∧
      pool'.totalFreeBytes = pool.totalFreeBytes + total new := by
  induction new generalizing pages pool with
  | nil => exact ⟨pool, rfl, h, by simp, rfl⟩
  | cons page new ih =>
    have hperm : (page :: new ++ pages).Perm (new ++ page :: pages) := perm_middle.symm
    have hmoved : Hugepages (new ++ page :: pages) :=
      ⟨(hperm.pairwise_iff fun hapart x hx hx' => hapart x hx' hx).mp hpages.apart,
        hpages.aligned.of_perm hperm, fun p hp => hpages.inSpace p (hperm.mem_iff.mpr hp)⟩
    obtain ⟨next, hadd, hnext, hheld, hgot⟩ := h.addPage
      (hmoved.sublist (sublist_append_right new (page :: pages)))
      (hsize page mem_cons_self)
    obtain ⟨pool', hrest, hsound, hheld', hgot'⟩ := ih hnext hmoved
      fun p hp => hsize p (mem_cons_of_mem page hp)
    refine ⟨pool', ?_, hsound.congr hperm.symm, by simp [hheld', hheld], ?_⟩
    · rw [foldlM_cons, hadd]
      exact hrest
    · rw [hgot', hgot, total_cons, Nat.add_assoc]

theorem sound_empty : Sound [] {} := by
  refine ⟨spaced_nil, nofun, nofun, fun x => ?_, nofun, nofun, rfl⟩
  simp [Covers]

theorem Sound.withPages (h : Sound pages pool) (initialized : Bool) (kept : List Nat) :
    Sound pages { pool with initialized, pages := kept } :=
  ⟨h.spaced, h.aligned, h.block, h.covers, h.apart, h.blocksApart, h.counted⟩

theorem construct_eq {ptrs : List Nat} (hsize : 0 < size)
    (hpages : Hugepages (hugepages size .k1GB ptrs 0)) :
    ∃ pool, Sound (hugepages size .k1GB ptrs 0) pool ∧
      pool.pages = (hugepages size .k1GB ptrs 0).map Extent.addr ∧
      construct size ptrs = some (if size ≤ total (hugepages size .k1GB ptrs 0)
        then { pool with initialized := true } else { pool with pages := [] }) := by
  have hnil := append_nil (hugepages size .k1GB ptrs 0)
  obtain ⟨pool, hgather, hsound, hheld, hgot⟩ := sound_empty.addPages (hnil.symm ▸ hpages)
    fun p hp => hugepages_size hp
  rw [hnil] at hsound
  have hgather' : gather size .k1GB ptrs {} = some pool := (gather_eq ..).trans hgather
  have hfree : pool.totalFreeBytes = total (hugepages size .k1GB ptrs 0) :=
    hgot.trans (Nat.zero_add _)
  refine ⟨pool, hsound, hheld, ?_⟩
  rw [construct, if_neg (Nat.ne_of_gt hsize), hgather', Option.map_some, hfree]

/-- A call on the pool. -/
inductive PoolOp where
  | alloc (size : Nat)
  | allocUpto (size : Nat)
  | free (ptr : Nat)

namespace DmaMemoryPool

/-- Sizes are positive and at most half the address space, and what is freed is no pointer or
a block. -/
def Allowed (pool : DmaMemoryPool) : PoolOp → Prop
  | .alloc size => 1 ≤ size ∧ size ≤ 2 ^ 63
  | .allocUpto size => 1 ≤ size ∧ size ≤ 2 ^ 63
  | .free ptr => ptr = 0 ∨ (pool.alloced ptr).isSome

/-- The pool after an operation, unless a check fails. -/
def step (stale : ContiguousRegion → ContiguousRegion) (pool : DmaMemoryPool) :
    PoolOp → Option DmaMemoryPool
  | .alloc size => (pool.alloc stale size).map Prod.snd
  | .allocUpto size => (pool.allocUpto stale size).map Prod.snd
  | .free ptr => pool.free ptr

/-- A block that was free before an operation, and is all that the operation adds. -/
def NewBlock (pool pool' : DmaMemoryPool) (ptr size : Nat) : Prop :=
  ptr ≠ 0 ∧ 4096 ∣ ptr ∧ pool.alloced ptr = none ∧
    pool'.alloced = update pool.alloced ptr (some size)

/-- What an operation does: no check fails, blocks are large enough, and a request that is not
met finds no free region of the size. -/
def Does (stale : ContiguousRegion → ContiguousRegion) (pool : DmaMemoryPool) : PoolOp → Prop
  | .alloc size => ∃ ret pool', pool.alloc stale size = some (ret, pool') ∧
      ((∃ n, size ≤ n ∧ NewBlock pool pool' ret n) ∨
        (ret = 0 ∧ pool' = pool ∧ ∀ r ∈ pool.regions, r.size < size))
  | .allocUpto size => ∃ ret got pool', pool.allocUpto stale size = some ((ret, got), pool') ∧
      ((got = size ∧ ∃ n, size ≤ n ∧ NewBlock pool pool' ret n) ∨
        (got < size ∧ (∀ r ∈ pool.regions, r.size ≤ got) ∧
          ((Extent.mk ret got ∈ pool.regions ∧ NewBlock pool pool' ret got) ∨
            (pool.regions = [] ∧ ret = 0 ∧ got = 0 ∧ pool' = pool))))
  | .free ptr => ∃ pool', pool.free ptr = some pool' ∧
      pool'.alloced = update pool.alloced ptr none

end DmaMemoryPool

open DmaMemoryPool

variable {stale : ContiguousRegion → ContiguousRegion}

theorem Sound.newBlock (h : Sound pages pool) (hpages : Hugepages pages) {region : Extent}
    (hregion : region ∈ pool.regions) (size : Nat) :
    NewBlock pool (Dma.take pool region size) region.addr size :=
  ⟨Nat.ne_of_gt (h.region_bounds hpages hregion).1, (h.aligned region hregion).1,
    h.alloced_region hregion, h.emplace hregion size⟩

theorem Sound.alloc (hintact : ∀ r, stale r = r) (h : Sound pages pool)
    (hpages : Hugepages pages) {size : Nat} (hpos : 1 ≤ size) :
    (∃ region ∈ pool.regions, alignCeil size 4096 ≤ region.size ∧
      pool.alloc stale size = some (region.addr, Dma.take pool region (alignCeil size 4096))) ∨
    (pool.alloc stale size = some (0, pool) ∧
      ∀ r ∈ pool.regions, r.size < alignCeil size 4096) := by
  rw [DmaMemoryPool.alloc, if_neg (Nat.ne_of_gt hpos)]
  cases hfind : pool.regions.find? (fun region => alignCeil size 4096 ≤ region.size) with
  | none =>
    refine .inr ⟨by simp only [hfind], fun r hr => ?_⟩
    have hsmall := find?_eq_none.mp hfind r hr
    simpa using hsmall
  | some region =>
    have hregion := mem_of_find?_eq_some hfind
    have hlarge : alignCeil size 4096 ≤ region.size := by simpa using find?_some hfind
    have hstop := (h.region_bounds hpages hregion).2
    refine .inl ⟨region, hregion, hlarge, ?_⟩
    rw [stop] at hstop
    simp only [hfind, hintact, Dma.take, carve, wrap_of_lt (n := region.addr + alignCeil size 4096)
      (by omega)]

theorem foldl_largest (first : Extent) (rest : List Extent) :
    rest.foldl (fun largest r => if largest.size < r.size then r else largest) first ∈
        first :: rest ∧
      ∀ q ∈ first :: rest, q.size ≤
        (rest.foldl (fun largest r => if largest.size < r.size then r else largest)
          first).size := by
  induction rest generalizing first with
  | nil => simp
  | cons next rest ih =>
    obtain ⟨hmem, hmax⟩ := ih (if first.size < next.size then next else first)
    rw [foldl_cons]
    refine ⟨?_, fun q hq => ?_⟩
    · rcases mem_cons.mp hmem with heq | hmem
      · rw [heq]
        split <;> simp
      · exact mem_cons_of_mem _ (mem_cons_of_mem _ hmem)
    · have hlarger := hmax _ mem_cons_self
      rcases mem_cons.mp hq with rfl | hq
      · refine Nat.le_trans ?_ hlarger
        split <;> omega
      · rcases mem_cons.mp hq with rfl | hq
        · refine Nat.le_trans ?_ hlarger
          split <;> omega
        · exact hmax q (mem_cons_of_mem _ hq)

theorem maxElement_some {regions : List Extent} {r : Extent} (h : maxElement regions = some r) :
    r ∈ regions ∧ ∀ q ∈ regions, q.size ≤ r.size := by
  cases regions with
  | nil => cases h
  | cons first rest =>
    rw [maxElement, Option.some.injEq] at h
    rw [← h]
    exact foldl_largest first rest

theorem maxElement_none {regions : List Extent} (h : maxElement regions = none) : regions = [] := by
  cases regions with
  | nil => rfl
  | cons => cases h

/-- A request that is not met in full takes the largest free region. -/
theorem Sound.allocUpto (hintact : ∀ r, stale r = r) (h : Sound pages pool)
    (hpages : Hugepages pages) {size : Nat} (hpos : 1 ≤ size) (hle : size ≤ 2 ^ 63) :
    (∃ region ∈ pool.regions, alignCeil size 4096 ≤ region.size ∧ pool.allocUpto stale size =
      some ((region.addr, size), Dma.take pool region (alignCeil size 4096))) ∨
    (∃ region ∈ pool.regions, (∀ r ∈ pool.regions, r.size ≤ region.size) ∧ region.size < size ∧
      pool.allocUpto stale size =
        some ((region.addr, region.size), Dma.take pool region region.size)) ∨
    (pool.regions = [] ∧ pool.allocUpto stale size = some ((0, 0), pool)) := by
  obtain ⟨hdvd, hceil, hlt⟩ := alignCeil_spec hle
  have htop : alignCeil size 4096 ≤ 2 ^ 63 := by omega
  have hagain : alignCeil (alignCeil size 4096) 4096 = alignCeil size 4096 := by
    obtain ⟨hdvd', hceil', hlt'⟩ := alignCeil_spec htop
    omega
  have hcode : pool.allocUpto stale size = (pool.alloc stale (alignCeil size 4096)).bind _ :=
    if_neg (Nat.ne_of_gt hpos)
  rw [hcode]
  rcases h.alloc hintact hpages (hpos.trans hceil) with ⟨region, hregion, hlarge, halloc⟩ |
    ⟨halloc, hsmall⟩
  · rw [hagain] at hlarge halloc
    have hne := Nat.ne_of_gt (h.region_bounds hpages hregion).1
    refine .inl ⟨region, hregion, hlarge, ?_⟩
    rw [halloc, Option.bind_some]
    exact if_pos hne
  · rw [hagain] at hsmall
    refine .inr ?_
    rw [halloc, Option.bind_some]
    cases hmax : maxElement pool.regions with
    | none =>
      refine .inr ⟨maxElement_none hmax, ?_⟩
      simp only [hmax, ne_eq, not_true_eq_false, if_false]
    | some region =>
      obtain ⟨hregion, hlargest⟩ := maxElement_some hmax
      have hless := hsmall region hregion
      have haligned := (h.aligned region hregion).2
      refine .inl ⟨region, hregion, hlargest, by omega, ?_⟩
      simp only [hmax, ne_eq, not_true_eq_false, if_false, if_pos (Nat.le_of_lt hless), hintact,
        Dma.take, carve, Nat.lt_irrefl]

theorem Sound.does (hintact : ∀ r, stale r = r) (h : Sound pages pool)
    (hpages : Hugepages pages) {op : PoolOp} (hallowed : pool.Allowed op) :
    pool.Does stale op ∧ ∀ pool', pool.step stale op = some pool' → Sound pages pool' := by
  cases op with
  | alloc =>
    obtain ⟨hpos, hle⟩ := hallowed
    obtain ⟨hdvd, hceil, hlt⟩ := alignCeil_spec hle
    rcases h.alloc hintact hpages hpos with ⟨region, hregion, hlarge, halloc⟩ | ⟨halloc, hsmall⟩
    · refine ⟨⟨_, _, halloc, .inl ⟨_, hceil, h.newBlock hpages hregion _⟩⟩, fun pool' hstep => ?_⟩
      rw [DmaMemoryPool.step, halloc, Option.map_some, Option.some.injEq] at hstep
      rw [← hstep]
      exact h.take hpages hregion (by omega) hlarge hdvd
    · refine ⟨⟨_, _, halloc, .inr ⟨rfl, rfl, fun r hr => ?_⟩⟩, fun pool' hstep => ?_⟩
      · have hless := hsmall r hr
        have haligned := (h.aligned r hr).2
        omega
      · rw [DmaMemoryPool.step, halloc, Option.map_some, Option.some.injEq] at hstep
        rwa [← hstep]
  | allocUpto =>
    obtain ⟨hpos, hle⟩ := hallowed
    obtain ⟨hdvd, hceil, hlt⟩ := alignCeil_spec hle
    rcases h.allocUpto hintact hpages hpos hle with ⟨region, hregion, hlarge, halloc⟩ |
      ⟨region, hregion, hlargest, hless, halloc⟩ | ⟨hnil, halloc⟩
    · refine ⟨⟨_, _, _, halloc, .inl ⟨rfl, _, hceil, h.newBlock hpages hregion _⟩⟩,
        fun pool' hstep => ?_⟩
      rw [DmaMemoryPool.step, halloc, Option.map_some, Option.some.injEq] at hstep
      rw [← hstep]
      exact h.take hpages hregion (by omega) hlarge hdvd
    · refine ⟨⟨_, _, _, halloc, .inr ⟨hless, hlargest, .inl ⟨hregion,
        h.newBlock hpages hregion _⟩⟩⟩, fun pool' hstep => ?_⟩
      rw [DmaMemoryPool.step, halloc, Option.map_some, Option.some.injEq] at hstep
      rw [← hstep]
      exact h.take hpages hregion (h.spaced.filled region hregion) (Nat.le_refl _)
        (h.aligned region hregion).2
    · refine ⟨⟨_, _, _, halloc, .inr ⟨hpos, by simp [hnil], .inr ⟨hnil, rfl, rfl, rfl⟩⟩⟩,
        fun pool' hstep => ?_⟩
      rw [DmaMemoryPool.step, halloc, Option.map_some, Option.some.injEq] at hstep
      rwa [← hstep]
  | free ptr =>
    cases hptr : pool.alloced ptr with
    | none =>
      have hnull : ptr = 0 := hallowed.resolve_right (by simp [hptr])
      have hfree : pool.free ptr = some pool := if_pos hnull
      refine ⟨⟨pool, hfree, ?_⟩, fun pool' hstep => ?_⟩
      · rw [← hptr, update_eq_self]
      · rw [DmaMemoryPool.step, hfree, Option.some.injEq] at hstep
        rwa [← hstep]
    | some =>
      obtain ⟨next, hfree, hsound, halloced⟩ := h.free hpages hptr
      refine ⟨⟨next, hfree, halloced⟩, fun pool' hstep => ?_⟩
      rw [DmaMemoryPool.step, hfree, Option.some.injEq] at hstep
      rwa [← hstep]

/-- The pools after runs of calls that are allowed. -/
inductive Reached (stale : ContiguousRegion → ContiguousRegion) (start : DmaMemoryPool) :
    DmaMemoryPool → Prop
  | start : Reached stale start start
  | step {pool pool' : DmaMemoryPool} {op : PoolOp} (h : Reached stale start pool)
      (hallowed : pool.Allowed op) (hstep : pool.step stale op = some pool') :
      Reached stale start pool'

theorem Sound.reached (hintact : ∀ r, stale r = r) (hpages : Hugepages pages)
    {start : DmaMemoryPool} (h : Sound pages start) (hreached : Reached stale start pool) :
    Sound pages pool := by
  induction hreached with
  | start => exact h
  | step _ hallowed hstep ih => exact (ih.does hintact hpages hallowed).2 _ hstep

theorem backing_eq_self {got : List Extent} (h : pool.pages = got.map Extent.addr) :
    pool.backing got = got := by
  rw [backing, filter_eq_self, h]
  intro page hpage
  simpa using ⟨page, hpage, rfl⟩

theorem Sound.nil_of_covers {got : List Extent} (h : Sound got pool) (hnil : Sound [] pool)
    (hpos : ∀ page ∈ got, 0 < page.size) : got = [] := by
  rw [eq_nil_iff_forall_not_mem]
  intro page hpage
  have hhas : page.Has page.addr := by
    have hsize := hpos page hpage
    simp only [Has, stop]
    omega
  obtain ⟨_, hmem, -⟩ := (hnil.covers _).mpr ((h.covers _).mp ⟨page, hpage, hhas⟩)
  cases hmem

/-- As long as an erased node reads as it did, a pool is sound after every run, over the pages
its constructor left it with, and every further call does what it should, exactly when the
constructor got its size or got nothing. -/
theorem dmaMemoryPool_sound (hintact : ∀ r, stale r = r) {size : Nat} {ptrs : List Nat}
    (hsize : 0 < size) (hpages : Hugepages (hugepages size .k1GB ptrs 0)) :
    (∃ start, construct size ptrs = some start ∧ ∀ pool, Reached stale start pool →
      Sound (start.backing (hugepages size .k1GB ptrs 0)) pool ∧
        ∀ op, pool.Allowed op → pool.Does stale op) ↔
      hugepages size .k1GB ptrs 0 = [] ∨ size ≤ total (hugepages size .k1GB ptrs 0) := by
  obtain ⟨pool₀, hsound, hheld, hconstruct⟩ := construct_eq hsize hpages
  set got := hugepages size .k1GB ptrs 0
  -- What is left to do once the pool is known to hold all that it got.
  have hruns : ∀ start, Sound got start → start.pages = got.map Extent.addr →
      ∀ pool, Reached stale start pool →
        Sound (start.backing got) pool ∧ ∀ op, pool.Allowed op → pool.Does stale op := by
    intro start hstart hpagesEq pool hreached
    have hpool := hstart.reached hintact hpages hreached
    rw [backing_eq_self hpagesEq]
    exact ⟨hpool, fun op hallowed => (hpool.does hintact hpages hallowed).1⟩
  constructor
  · rintro ⟨start, hstart, hall⟩
    by_cases hgot : size ≤ total got
    · exact .inr hgot
    · rw [hconstruct, if_neg hgot, Option.some.injEq] at hstart
      subst hstart
      have hnone := (hall _ .start).1
      rw [show DmaMemoryPool.backing got { pool₀ with pages := [] } = [] by simp [backing]]
        at hnone
      exact .inl ((hsound.withPages pool₀.initialized []).nil_of_covers hnone
        fun page hpage => hugepages_size hpage)
  · rintro (hnil | hgot)
    · rw [if_neg (by rw [hnil]; exact Nat.not_le.mpr hsize)] at hconstruct
      exact ⟨_, hconstruct, hruns _ (hsound.withPages pool₀.initialized []) (by simp [hnil])⟩
    · rw [if_pos hgot] at hconstruct
      exact ⟨_, hconstruct, hruns _ (hsound.withPages true pool₀.pages) hheld⟩

/-- Two pages of 2 MB next to each other, after none of 1 GB. -/
theorem dmaMemoryPool_sound_twoPages :
    ∃ start, construct (2 ^ 22) [0, 2 ^ 30, 2 ^ 30 + 2 ^ 21] = some start ∧
      ∀ pool, Reached id start pool →
        Sound (start.backing (hugepages (2 ^ 22) .k1GB [0, 2 ^ 30, 2 ^ 30 + 2 ^ 21] 0)) pool ∧
          ∀ op, pool.Allowed op → pool.Does id op := by
  have hgot : hugepages (2 ^ 22) .k1GB [0, 2 ^ 30, 2 ^ 30 + 2 ^ 21] 0 =
      [⟨2 ^ 30, 2 ^ 21⟩, ⟨2 ^ 30 + 2 ^ 21, 2 ^ 21⟩] := by decide
  refine (dmaMemoryPool_sound (fun _ => rfl) (by decide) ⟨?_, ?_, ?_⟩).mpr (.inr ?_) <;> rw [hgot]
  · simp [Has, stop]
    omega
  · simp only [Aligned]
    decide
  · simp only [stop]
    decide
  · decide

/-- A pool of 4 MB that gets one page of 2 MB gives it back, and then cuts a block from it. -/
theorem failed_pool_allocates :
    ∃ pool, construct (2 ^ 22) [0, 2 ^ 30] = some pool ∧ pool.pages = [] ∧
      ∀ stale, ∃ pool', pool.alloc stale 4096 = some (2 ^ 30, pool') ∧
        ¬ Sound (pool.backing (hugepages (2 ^ 22) .k1GB [0, 2 ^ 30] 0)) pool' := by
  refine ⟨_, rfl, rfl, fun stale => ⟨_, rfl, fun hsound => ?_⟩⟩
  have hnone : Sound [] _ := hsound
  obtain ⟨page, hpage, -⟩ := (hnone.covers (2 ^ 30)).mpr
    (.inr ⟨2 ^ 30, 4096, rfl, Nat.le_refl _, by decide⟩)
  cases hpage

end Upf.Bess.Dma
