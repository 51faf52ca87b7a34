import V2Engine.Memory.Slab
import Mathlib.Logic.Function.Basic

/-! The slabs of one block size (core/common/memory/central_cache.hpp). A slab is named by
the address of its memory, which is the key of `slabMap_`. Every operation runs under the
cache's mutex; where one needs a new slab, `memory` is what `operator new` answers. -/
namespace Memory

structure CentralCache where
  blockSize : Nat
  slabSize : Nat
  slabs : List Nat
  slabMap : Nat → Option Slab
  partialSlabs : List Nat
  allocatedBlocks : Nat

namespace CentralCache

def init (blockSize slabSize : Nat) : CentralCache := ⟨blockSize, slabSize, [], fun _ => none, [], 0⟩

def addSlab (c : CentralCache) (memory : Nat) : CentralCache :=
  { c with
    slabMap := Function.update c.slabMap memory (some (.create memory c.blockSize c.slabSize))
    slabs := c.slabs ++ [memory] }

/-- The key of the slab that a block lies in. -/
def mask (c : CentralCache) (ptr : Nat) : Nat := ptr - ptr % c.slabSize

def findSlab (c : CentralCache) (ptr : Nat) : Option Slab := c.slabMap (c.mask ptr)

def transitionState (c : CentralCache) (before : SlabState) (slab : Slab) : CentralCache :=
  let after := slab.state
  if before = after then c
  else
    let kept := if before = .partially then c.partialSlabs.filter (· ≠ slab.memory) else c.partialSlabs
    { c with partialSlabs := if after = .partially then kept ++ [slab.memory] else kept }

/-- Write a changed slab back and classify it again. -/
def store (c : CentralCache) (before : Slab) (slab : Slab) : CentralCache :=
  { c with slabMap := Function.update c.slabMap slab.memory (some slab) }.transitionState before.state slab

def allocate (c : CentralCache) (memory : Nat) : Option Nat × CentralCache :=
  let (c, key) := match c.partialSlabs with
    | [] => (c.addSlab memory, memory)
    | first :: _ => (c, first)
  match c.slabMap key with
  | none => (none, c)
  | some slab =>
      let (ptr, after) := slab.allocate
      (ptr, { c.store slab after with allocatedBlocks := c.allocatedBlocks + 1 })

def deallocate (c : CentralCache) (ptr : Nat) : CentralCache :=
  match c.findSlab ptr with
  | none => c
  | some slab => { c.store slab (slab.deallocate ptr) with allocatedBlocks := c.allocatedBlocks - 1 }

/-- Up to `maxCount` blocks of one slab. -/
def takeFrom (c : CentralCache) (key maxCount : Nat) : List Nat × CentralCache :=
  match c.slabMap key with
  | none => ([], c)
  | some slab => ((slab.allocateBatch maxCount).1, c.store slab (slab.allocateBatch maxCount).2)

/-- The first loop of `fetchBatch`, over the partial slabs. A slab that has become full
leaves the list behind the iterator. -/
def fetchPartial : List Nat → Nat → CentralCache → List Nat × CentralCache
  | [], _, c => ([], c)
  | _, 0, c => ([], c)
  | key :: rest, batchSize + 1, c =>
      let (out, c) := c.takeFrom key (batchSize + 1)
      let (more, c) := fetchPartial rest (batchSize + 1 - out.length) c
      (out ++ more, c)

/-- The second loop of `fetchBatch`. A new slab that is not full after it has given what is
still missing has given all of it, so that the loop ends after one turn either way. -/
def fetchNew (memory : Nat) : Nat → CentralCache → List Nat × CentralCache
  | 0, c => ([], c)
  | missing + 1, c => (c.addSlab memory).takeFrom memory (missing + 1)

def fetchBatch (c : CentralCache) (memory batchSize : Nat) : List Nat × CentralCache :=
  let (out, c) := fetchPartial c.partialSlabs batchSize c
  let (more, c) := fetchNew memory (batchSize - out.length) c
  (out ++ more, { c with allocatedBlocks := c.allocatedBlocks + (out ++ more).length })

/-- The loop of `returnBatch`, with the number of blocks whose slab was found. -/
def returnLoop : List Nat → CentralCache → Nat × CentralCache
  | [], c => (0, c)
  | ptr :: rest, c =>
      match c.findSlab ptr with
      | none => returnLoop rest c
      | some slab =>
          let (returned, c) := returnLoop rest (c.store slab (slab.deallocate ptr))
          (returned + 1, c)

def returnBatch (c : CentralCache) (blocks : List Nat) : CentralCache :=
  let (returned, c) := returnLoop blocks c
  { c with allocatedBlocks := c.allocatedBlocks - returned }

section Fields

variable (c : CentralCache) (before slab : Slab) (memory : Nat)

theorem transitionState_fields (state : SlabState) :
    (c.transitionState state slab).slabMap = c.slabMap ∧ (c.transitionState state slab).slabs = c.slabs ∧
      (c.transitionState state slab).blockSize = c.blockSize ∧
        (c.transitionState state slab).slabSize = c.slabSize := by
  unfold transitionState
  dsimp only
  split <;> exact ⟨rfl, rfl, rfl, rfl⟩

@[simp] theorem slabMap_store :
    (c.store before slab).slabMap = Function.update c.slabMap slab.memory (some slab) :=
  (transitionState_fields ..).1

@[simp] theorem slabs_store : (c.store before slab).slabs = c.slabs := (transitionState_fields ..).2.1

@[simp] theorem blockSize_store : (c.store before slab).blockSize = c.blockSize :=
  (transitionState_fields ..).2.2.1

@[simp] theorem slabSize_store : (c.store before slab).slabSize = c.slabSize :=
  (transitionState_fields ..).2.2.2

theorem partialSlabs_store : (c.store before slab).partialSlabs =
    if before.state = slab.state then c.partialSlabs
    else (if before.state = .partially then c.partialSlabs.filter (· ≠ slab.memory) else c.partialSlabs) ++
      if slab.state = .partially then [slab.memory] else [] := by
  unfold store transitionState
  dsimp only
  split
  · rfl
  · split <;> simp

/-- Only the slab that has changed can come to the list of partial slabs. -/
theorem mem_partialSlabs_store {key : Nat} (h : key ∈ (c.store before slab).partialSlabs) :
    key = slab.memory ∨ key ∈ c.partialSlabs := by
  rw [partialSlabs_store] at h
  split at h
  · exact .inr h
  · rcases List.mem_append.mp h with hKept | hNew
    · right
      split at hKept
      · exact (List.mem_filter.mp hKept).1
      · exact hKept
    · left
      split at hNew
      · exact List.mem_singleton.mp hNew
      · cases hNew

end Fields

/-- A slab is cut for this cache: its memory begins at its key, and its free list holds
blocks of its own. -/
structure Cut (c : CentralCache) (key : Nat) (s : Slab) : Prop where
  memory : s.memory = key
  aligned : key % c.slabSize = 0
  blockSize : s.blockSize = c.blockSize
  slabSize : s.slabSize = c.slabSize
  own : ∀ p ∈ s.freeList, p ∈ s.blocks

/-- All slabs of a cache are cut for it, and the partial ones among them are its own. -/
structure Shaped (c : CentralCache) : Prop where
  positive : 0 < c.blockSize
  fits : c.blockSize ≤ c.slabSize
  cut : ∀ {key s}, c.slabMap key = some s → c.Cut key s
  listed : ∀ {key}, key ∈ c.partialSlabs → ∃ s, c.slabMap key = some s

/-- The slab that an address belongs to has a block there. -/
def Block (c : CentralCache) (p : Nat) : Prop := ∃ s, c.findSlab p = some s ∧ p ∈ s.blocks

theorem shaped_init {blockSize slabSize : Nat} (hPositive : 0 < blockSize) (hFits : blockSize ≤ slabSize) :
    (init blockSize slabSize).Shaped :=
  ⟨hPositive, hFits, nofun, nofun⟩

section Shape

variable {c : CentralCache} {key p maxCount memory : Nat} {s : Slab}

/-- `allocatedBlocks_` is for information only. -/
theorem Shaped.recount (shaped : c.Shaped) (n : Nat) :
    ({ c with allocatedBlocks := n } : CentralCache).Shaped := by
  refine ⟨shaped.positive, shaped.fits, fun hSlab => ?_, shaped.listed⟩
  obtain ⟨hMemory, hAligned, hBlock, hSize, hOwn⟩ := shaped.cut hSlab
  exact ⟨hMemory, hAligned, hBlock, hSize, hOwn⟩

theorem Cut.mask_eq (cut : c.Cut key s) (hPositive : 0 < c.blockSize) (hMem : p ∈ s.blocks) :
    c.mask p = key := by
  unfold mask
  rw [← cut.slabSize, Slab.mask_block _ _ hMem, cut.memory]
  · rw [cut.blockSize]
    exact hPositive
  · rw [cut.memory, cut.slabSize]
    exact cut.aligned

/-- A block of some slab of the cache is found there. -/
theorem Shaped.block (shaped : c.Shaped) (hSlab : c.slabMap key = some s) (hMem : p ∈ s.blocks) :
    c.mask p = key ∧ c.Block p := by
  have hMask := (shaped.cut hSlab).mask_eq shaped.positive hMem
  exact ⟨hMask, s, by rw [findSlab, hMask, hSlab], hMem⟩

/-- A slab is written back after a change to its free list. -/
theorem Shaped.store (shaped : c.Shaped) (hSlab : c.slabMap key = some s) (after : Slab)
    (hBlocks : after.blocks = s.blocks)
    (hSame : after.memory = s.memory ∧ after.blockSize = s.blockSize ∧ after.slabSize = s.slabSize)
    (hOwn : ∀ p ∈ after.freeList, p ∈ s.blocks) : (c.store s after).Shaped := by
  have cut := shaped.cut hSlab
  have hKey : after.memory = key := hSame.1.trans cut.memory
  constructor
  case positive => simpa using shaped.positive
  case fits => simpa using shaped.fits
  case cut =>
    intro k t hFind
    rw [slabMap_store, hKey] at hFind
    by_cases hk : k = key
    · subst hk
      rw [Function.update_self, Option.some.injEq] at hFind
      subst hFind
      constructor
      case memory => exact hKey
      case aligned => simpa using cut.aligned
      case blockSize => simpa using hSame.2.1.trans cut.blockSize
      case slabSize => simpa using hSame.2.2.trans cut.slabSize
      case own => rwa [hBlocks]
    · rw [Function.update_of_ne hk] at hFind
      have old := shaped.cut hFind
      exact ⟨old.memory, by simpa using old.aligned, by simpa using old.blockSize,
        by simpa using old.slabSize, old.own⟩
  case listed =>
    intro k hk
    rw [slabMap_store, hKey]
    by_cases hSelf : k = key
    · exact ⟨after, by simp [hSelf]⟩
    · rcases mem_partialSlabs_store _ _ _ hk with hNew | hOld
      · exact absurd (hNew.trans hKey) hSelf
      · rw [Function.update_of_ne hSelf]
        exact shaped.listed hOld

theorem Shaped.allocateBatch (shaped : c.Shaped) (hSlab : c.slabMap key = some s) :
    (c.store s (s.allocateBatch maxCount).2).Shaped := by
  apply shaped.store hSlab (s.allocateBatch maxCount).2 rfl ⟨rfl, rfl, rfl⟩
  intro p hp
  apply (shaped.cut hSlab).own
  have hp' : p ∈ (s.freeList.popBatch maxCount).2 := hp
  rw [FreeList.popBatch_eq] at hp'
  exact List.mem_of_mem_drop hp'

/-- Blocks taken from a slab are blocks of it. -/
theorem Shaped.taken (shaped : c.Shaped) (hSlab : c.slabMap key = some s)
    (hp : p ∈ (s.allocateBatch maxCount).1) : p ∈ s.blocks := by
  apply (shaped.cut hSlab).own
  have hp' : p ∈ (s.freeList.popBatch maxCount).1 := hp
  rw [FreeList.popBatch_eq] at hp'
  exact List.mem_of_mem_take hp'

theorem Shaped.deallocate (shaped : c.Shaped) (hSlab : c.slabMap key = some s) (hMem : p ∈ s.blocks) :
    (c.store s (s.deallocate p)).Shaped := by
  apply shaped.store hSlab (s.deallocate p) rfl ⟨rfl, rfl, rfl⟩
  intro q hq
  rcases List.mem_cons.mp hq with rfl | hq
  · exact hMem
  · exact (shaped.cut hSlab).own q hq

theorem Shaped.addSlab (shaped : c.Shaped) (hAligned : memory % c.slabSize = 0)
    (hFresh : c.slabMap memory = none) : (c.addSlab memory).Shaped := by
  constructor
  case positive => exact shaped.positive
  case fits => exact shaped.fits
  case cut =>
    intro k t hFind
    by_cases hk : k = memory
    · subst hk
      simp only [CentralCache.addSlab, Function.update_self, Option.some.injEq] at hFind
      subst hFind
      refine ⟨rfl, hAligned, rfl, rfl, fun p hp => ?_⟩
      rw [Slab.freeList_create] at hp
      exact List.mem_reverse.mp hp
    · simp only [CentralCache.addSlab, Function.update_of_ne hk] at hFind
      have old := shaped.cut hFind
      exact ⟨old.memory, old.aligned, old.blockSize, old.slabSize, old.own⟩
  case listed =>
    intro k hk
    obtain ⟨s, hSlab⟩ := shaped.listed hk
    have hne : k ≠ memory := by
      rintro rfl
      rw [hFresh] at hSlab
      cases hSlab
    exact ⟨s, by simp [CentralCache.addSlab, hne, hSlab]⟩

/-- Which addresses are blocks does not change with the free lists. -/
theorem block_store (hSlab : c.slabMap key = some s) {after : Slab} (hBlocks : after.blocks = s.blocks)
    (hMemory : after.memory = key) : (c.store s after).Block p ↔ c.Block p := by
  have hMask : (c.store s after).mask p = c.mask p := by simp [mask]
  simp only [Block, findSlab, hMask, slabMap_store, hMemory]
  by_cases hk : c.mask p = key
  · simp [hk, hSlab, hBlocks]
  · simp [Function.update_of_ne hk]

theorem block_addSlab (hFresh : c.slabMap memory = none) (h : c.Block p) : (c.addSlab memory).Block p := by
  obtain ⟨s, hFind, hMem⟩ := h
  refine ⟨s, ?_, hMem⟩
  have hne : c.mask p ≠ memory := by
    intro hSame
    rw [findSlab, hSame, hFresh] at hFind
    cases hFind
  show Function.update c.slabMap memory _ (c.mask p) = some s
  rw [Function.update_of_ne hne]
  exact hFind

end Shape

end CentralCache

end Memory
