import V2Engine.Memory.PoolBalance

/-! Which pools can serve what they are asked for. The constructor only looks at the bits of
the slab size; whether a slab has room for a block is another question, and another one for
each size class. -/
namespace Memory

open Interleaving SizeClass

namespace SizeClass

/-- No class before the one that is found is large enough. -/
theorem index_le {size : Nat} {idx : Fin kNumSizeClasses} (h : size ≤ blockSize idx) : index size ≤ idx := by
  unfold index
  cases hFind : (List.finRange kNumSizeClasses).find? (size ≤ blockSize ·) with
  | none =>
      have hNone := List.find?_eq_none.mp hFind idx (List.mem_finRange idx)
      exact absurd h (by simpa using hNone)
  | some first =>
      obtain ⟨_, before, after, hSplit, hBefore⟩ := List.find?_eq_some_iff_append.mp hFind
      have hSorted : (before ++ first :: after).Pairwise (· < ·) := hSplit ▸ List.pairwise_lt_finRange _
      have hMem : idx ∈ before ++ first :: after := hSplit ▸ List.mem_finRange idx
      rcases List.mem_append.mp hMem with hEarly | hLate
      · exact absurd h (by simpa using hBefore idx hEarly)
      · rcases List.mem_cons.mp hLate with rfl | hLater
        · exact le_rfl
        · exact (List.rel_of_pairwise_cons (List.pairwise_append.mp hSorted).2.1 hLater).le

theorem blockSize_mono {i j : Fin kNumSizeClasses} (h : i ≤ j) : blockSize i ≤ blockSize j := by
  revert i j
  decide

/-- A larger request goes to a class with blocks at least as large. -/
theorem blockSize_index_mono {size limit : Nat} (h : size ≤ limit) (hLimit : limit ≤ kMaxAllocSize) :
    blockSize (index size) ≤ blockSize (index limit) :=
  blockSize_mono (index_le (h.trans (size_le hLimit)))

end SizeClass

namespace CentralCache

/-- The free blocks of the cache are all of the kind `Q`. -/
def Only (Q : Nat → Prop) (c : CentralCache) : Prop :=
  ∀ key s, c.slabMap key = some s → ∀ p ∈ s.freeList, Q p

/-- Blocks are handed out, and those that are left are of the kind `Q` as well. -/
structure Hands (Q : Nat → Prop) (c after : CentralCache) (out : List Nat) : Prop where
  only : after.Only Q
  out : ∀ p ∈ out, Q p
  sizes : after.blockSize = c.blockSize ∧ after.slabSize = c.slabSize
  slabs : after.slabs = c.slabs

section Hands

variable {Q : Nat → Prop} {c : CentralCache} {key n memory : Nat}

theorem Only.mono {R : Nat → Prop} (h : c.Only Q) (hMore : ∀ p, Q p → R p) : c.Only R :=
  fun key s hSlab p hp => hMore p (h key s hSlab p hp)

theorem Only.store (h : c.Only Q) (before after : Slab) (hAfter : ∀ p ∈ after.freeList, Q p) :
    (c.store before after).Only Q := by
  intro key s hSlab
  rw [slabMap_store] at hSlab
  by_cases hKey : key = after.memory
  · subst hKey
    rw [Function.update_self] at hSlab
    cases hSlab
    exact hAfter
  · rw [Function.update_of_ne hKey] at hSlab
    exact h key s hSlab

theorem Only.takeFrom (h : c.Only Q) (key n : Nat) :
    Hands Q c (c.takeFrom key n).2 (c.takeFrom key n).1 := by
  unfold CentralCache.takeFrom
  cases hSlab : c.slabMap key with
  | none => exact ⟨h, nofun, ⟨rfl, rfl⟩, rfl⟩
  | some s =>
      have hList := h key s hSlab
      refine ⟨h.store _ _ fun p hp => hList p ?_, fun p hp => hList p ?_, ⟨by simp, by simp⟩, by simp⟩
      · replace hp : p ∈ (s.freeList.popBatch n).2 := hp
        rw [FreeList.popBatch_eq] at hp
        exact List.mem_of_mem_drop hp
      · replace hp : p ∈ (s.freeList.popBatch n).1 := hp
        rw [FreeList.popBatch_eq] at hp
        exact List.mem_of_mem_take hp

theorem Hands.trans {middle after : CentralCache} {out more : List Nat} (first : Hands Q c middle out)
    (second : Hands Q middle after more) : Hands Q c after (out ++ more) where
  only := second.only
  out p hp := (List.mem_append.mp hp).elim (first.out p) (second.out p)
  sizes := ⟨second.sizes.1.trans first.sizes.1, second.sizes.2.trans first.sizes.2⟩
  slabs := second.slabs.trans first.slabs

theorem Only.fetchPartial (h : c.Only Q) (keys : List Nat) (n : Nat) :
    Hands Q c (fetchPartial keys n c).2 (fetchPartial keys n c).1 := by
  have hNothing : Hands Q c c [] := ⟨h, nofun, ⟨rfl, rfl⟩, rfl⟩
  induction keys generalizing c n with
  | nil => exact hNothing
  | cons key rest ih =>
      cases n with
      | zero => exact hNothing
      | succ n =>
          have hFirst := h.takeFrom key (n + 1)
          have hLater := ih hFirst.only (n + 1 - (c.takeFrom key (n + 1)).1.length)
            ⟨hFirst.only, nofun, ⟨rfl, rfl⟩, rfl⟩
          exact hFirst.trans hLater

theorem Only.addSlab (h : c.Only Q)
    (hNew : ∀ p ∈ (Slab.create memory c.blockSize c.slabSize).blocks, Q p) : (c.addSlab memory).Only Q := by
  intro key s hSlab p hp
  by_cases hKey : key = memory
  · subst hKey
    simp only [CentralCache.addSlab, Function.update_self, Option.some.injEq] at hSlab
    subst hSlab
    rw [Slab.freeList_create] at hp
    exact hNew p (List.mem_reverse.mp hp)
  · simp only [CentralCache.addSlab, Function.update_of_ne hKey] at hSlab
    exact h key s hSlab p hp

/-- What `fetchBatch` hands out comes from old slabs, or from a new one that it adds. -/
theorem Only.fetchBatch (h : c.Only Q) (memory n : Nat)
    (hNew : memory ∈ (c.fetchBatch memory n).2.slabs →
      ∀ p ∈ (Slab.create memory c.blockSize c.slabSize).blocks, Q p) :
    (c.fetchBatch memory n).2.Only Q ∧ (∀ p ∈ (c.fetchBatch memory n).1, Q p) ∧
      (c.fetchBatch memory n).2.blockSize = c.blockSize ∧
      (c.fetchBatch memory n).2.slabSize = c.slabSize ∧
      ((c.fetchBatch memory n).2.slabs = c.slabs ∨ (c.fetchBatch memory n).2.slabs = c.slabs ++ [memory]) := by
  have hFirst := h.fetchPartial c.partialSlabs n
  unfold CentralCache.fetchBatch at hNew ⊢
  cases hPartial : CentralCache.fetchPartial c.partialSlabs n c with
  | mk out middle =>
      rw [hPartial] at hFirst hNew
      dsimp only at hFirst hNew ⊢
      cases hMissing : n - out.length with
      | zero =>
          refine ⟨hFirst.only, ?_, hFirst.sizes.1, hFirst.sizes.2, .inl hFirst.slabs⟩
          intro p hp
          exact hFirst.out p (by simpa [fetchNew] using hp)
      | succ missing =>
          rw [hMissing] at hNew
          have hSlabs : (fetchNew memory (missing + 1) middle).2.slabs = c.slabs ++ [memory] := by
            have hAny : (middle.addSlab memory).Only fun _ => True := fun _ _ _ _ _ => trivial
            rw [← hFirst.slabs]
            exact (hAny.takeFrom memory (missing + 1)).slabs
          have hBlocks : ∀ p ∈ (Slab.create memory middle.blockSize middle.slabSize).blocks, Q p := by
            rw [hFirst.sizes.1, hFirst.sizes.2]
            apply hNew
            rw [hSlabs]
            simp
          have hSecond := (hFirst.only.addSlab hBlocks).takeFrom memory (missing + 1)
          refine ⟨hSecond.only, ?_, hSecond.sizes.1.trans hFirst.sizes.1,
            hSecond.sizes.2.trans hFirst.sizes.2, .inr hSlabs⟩
          intro p hp
          exact (List.mem_append.mp hp).elim (hFirst.out p) (hSecond.out p)

/-- A new slab gives what is missing, as far as it has blocks. -/
theorem length_fetchNew (c : CentralCache) (memory missing : Nat) :
    (fetchNew memory missing c).1.length = min missing (c.slabSize / c.blockSize) := by
  cases missing with
  | zero => simp [fetchNew]
  | succ missing =>
      have hFind : (c.addSlab memory).slabMap memory = some (.create memory c.blockSize c.slabSize) :=
        Function.update_self ..
      have hList : (Slab.create memory c.blockSize c.slabSize).freeList.length =
          c.slabSize / c.blockSize := by
        rw [Slab.freeList_create, List.length_reverse]
        simp [Slab.blocks, Slab.totalBlocks, Slab.create]
      simp only [fetchNew, CentralCache.takeFrom, hFind, Slab.allocateBatch, FreeList.popBatch_eq,
        List.length_take, hList]

/-- A batch is not empty if a new slab has a block. -/
theorem fetchBatch_ne_nil (memory : Nat) (hRoom : 0 < c.slabSize / c.blockSize) (hBatch : 0 < n) :
    (c.fetchBatch memory n).1 ≠ [] := by
  have hAny : c.Only fun _ => True := fun _ _ _ _ _ => trivial
  have hSizes := (hAny.fetchPartial c.partialSlabs n).sizes
  unfold CentralCache.fetchBatch
  cases hPartial : CentralCache.fetchPartial c.partialSlabs n c with
  | mk out middle =>
      rw [hPartial] at hSizes
      cases out with
      | cons first rest => simp
      | nil =>
          have hLength := length_fetchNew middle memory n
          rw [hSizes.1, hSizes.2] at hLength
          intro hNil
          replace hNil : (fetchNew memory n middle).1 = [] := hNil
          rw [hNil, List.length_nil] at hLength
          omega

/-- The slabs of a class that they have no room for give nothing. -/
theorem fetchBatch_eq_nil {blockSize slabSize : Nat} (memory n : Nat) (hRoom : slabSize / blockSize = 0) :
    ((init blockSize slabSize).fetchBatch memory n).1 = [] := by
  have hLength := length_fetchNew (init blockSize slabSize) memory n
  rw [show (init blockSize slabSize).slabSize / (init blockSize slabSize).blockSize = 0 from hRoom,
    Nat.min_zero] at hLength
  exact List.length_eq_zero_iff.mp hLength

theorem Only.returnLoop (h : c.Only Q) (blocks : List Nat) (hBlocks : ∀ p ∈ blocks, Q p) :
    Hands Q c (returnLoop blocks c).2 [] := by
  induction blocks generalizing c with
  | nil => exact ⟨h, nofun, ⟨rfl, rfl⟩, rfl⟩
  | cons ptr rest ih =>
      have hRest : ∀ p ∈ rest, Q p := fun p hp => hBlocks p (List.mem_cons_of_mem _ hp)
      cases hFind : c.findSlab ptr with
      | none =>
          simp only [CentralCache.returnLoop, hFind]
          exact ih h hRest
      | some s =>
          simp only [CentralCache.returnLoop, hFind]
          have hStored : (c.store s (s.deallocate ptr)).Only Q := by
            apply h.store
            intro p hp
            rcases List.mem_cons.mp hp with rfl | hOld
            · exact hBlocks p (List.mem_cons_self ..)
            · exact h _ s hFind p hOld
          obtain ⟨hOnly, hOut, hSizes, hSlabs⟩ := ih hStored hRest
          exact ⟨hOnly, hOut, by simpa using hSizes, hSlabs.trans (by simp)⟩

theorem Only.returnBatch (h : c.Only Q) {blocks : List Nat} (hBlocks : ∀ p ∈ blocks, Q p) :
    Hands Q c (c.returnBatch blocks) [] := by
  obtain ⟨hOnly, hOut, hSizes, hSlabs⟩ := h.returnLoop blocks hBlocks
  exact ⟨hOnly, hOut, hSizes, hSlabs⟩

end Hands

end CentralCache

namespace Heap

/-- A slab of the class has room for a block there. -/
def Holds (heap : Heap) (idx : Fin kNumSizeClasses) (p : Nat) : Prop :=
  ∃ key ∈ (heap.pool.central idx).slabs, 0 < key ∧ key ≤ p ∧ p + blockSize idx ≤ key + heap.pool.slabSize

/-- Wherever the heap keeps blocks, they are in slabs of their class. -/
structure Stocked (heap : Heap) : Prop where
  limit : heap.pool.maxAllocSize ≤ kMaxAllocSize
  sizes : ∀ idx, (heap.pool.central idx).blockSize = blockSize idx ∧
    (heap.pool.central idx).slabSize = heap.pool.slabSize
  only : ∀ idx, (heap.pool.central idx).Only (heap.Holds idx)
  live : ∀ a ∈ heap.live, heap.pool.serves a.size a.alignment → heap.Holds (index (adjusted a.size)) a.ptr

/-- Slabs are added and never given back. -/
structure Grown (heap heap' : Heap) : Prop where
  limit : heap'.pool.maxAllocSize = heap.pool.maxAllocSize
  slabSize : heap'.pool.slabSize = heap.pool.slabSize
  slabs : ∀ idx, (heap.pool.central idx).slabs ⊆ (heap'.pool.central idx).slabs

end Heap

/-- The blocks in the lists of a thread are in slabs of their class. -/
def Place.Stocked (heap : Heap) (here : Place) : Prop :=
  (∀ idx, ∀ p ∈ here.cache.caches idx, heap.Holds idx p) ∧
    ∀ size alignment, here.call = .fetching size alignment → heap.pool.serves size alignment

section Steps

variable {heap heap' : Heap} {here here' : Place} {idx : Fin kNumSizeClasses} {p ptr size alignment : Nat}

theorem Heap.Grown.refl (heap : Heap) : Heap.Grown heap heap := ⟨rfl, rfl, fun _ _ => id⟩

theorem Heap.Grown.trans {heap'' : Heap} (first : Heap.Grown heap heap') (second : Heap.Grown heap' heap'') :
    Heap.Grown heap heap'' :=
  ⟨second.limit.trans first.limit, second.slabSize.trans first.slabSize,
    fun idx _ hKey => second.slabs idx (first.slabs idx hKey)⟩

theorem Heap.Holds.grown (h : heap.Holds idx p) (hGrown : Heap.Grown heap heap') : heap'.Holds idx p := by
  obtain ⟨key, hKey, hPositive, hLow, hHigh⟩ := h
  refine ⟨key, hGrown.slabs idx hKey, hPositive, hLow, ?_⟩
  rw [hGrown.slabSize]
  exact hHigh

theorem Heap.Grown.serves (hGrown : Heap.Grown heap heap') :
    heap'.pool.serves size alignment ↔ heap.pool.serves size alignment := by
  simp only [MemoryPool.serves, hGrown.limit]

theorem Place.Stocked.grown (h : here.Stocked heap) (hGrown : Heap.Grown heap heap') :
    here.Stocked heap' := by
  obtain ⟨hLists, hCall⟩ := h
  exact ⟨fun idx p hp => (hLists idx p hp).grown hGrown,
    fun size alignment hHere => hGrown.serves.mpr (hCall size alignment hHere)⟩

theorem Heap.grown_setCentral {central : CentralCache}
    (hSlabs : (heap.pool.central idx).slabs ⊆ central.slabs) :
    Heap.Grown heap (heap.setCentral idx central) := by
  refine ⟨rfl, rfl, fun i => ?_⟩
  rw [Heap.central_setCentral]
  split
  · rename_i hi
    exact hi ▸ hSlabs
  · exact List.Subset.refl _

/-- A central cache is written back after it has given or taken blocks. -/
theorem Heap.Stocked.setCentral (h : heap.Stocked) {central : CentralCache}
    (hSizes : central.blockSize = (heap.pool.central idx).blockSize ∧
      central.slabSize = (heap.pool.central idx).slabSize)
    (hSlabs : (heap.pool.central idx).slabs ⊆ central.slabs)
    (hOnly : central.Only ((heap.setCentral idx central).Holds idx)) :
    (heap.setCentral idx central).Stocked := by
  have hGrown : Heap.Grown heap (heap.setCentral idx central) := Heap.grown_setCentral hSlabs
  refine ⟨h.limit, fun i => ?_, fun i => ?_, fun a ha hServes => ?_⟩
  · rw [Heap.central_setCentral]
    split
    · rename_i hi
      subst hi
      exact ⟨hSizes.1.trans (h.sizes i).1, hSizes.2.trans (h.sizes i).2⟩
    · exact h.sizes i
  · rw [Heap.central_setCentral]
    split
    · rename_i hi
      subst hi
      exact hOnly
    · exact (h.only i).mono fun p hp => hp.grown hGrown
  · exact (h.live a ha hServes).grown hGrown

/-- `fetchBatch` hands out blocks of the class, if need be of a new slab. -/
theorem Heap.Stocked.fetchBatch (h : heap.Stocked) (idx : Fin kNumSizeClasses) {memory : Nat} (hMemory : 0 < memory) (n : Nat) :
    let after := ((heap.pool.central idx).fetchBatch memory n).2
    (heap.setCentral idx after).Stocked ∧ Heap.Grown heap (heap.setCentral idx after) ∧
      ∀ p ∈ ((heap.pool.central idx).fetchBatch memory n).1, (heap.setCentral idx after).Holds idx p := by
  intro after
  have hAny : (heap.pool.central idx).Only fun _ => True := fun _ _ _ _ _ => trivial
  obtain ⟨_, _, hBlock, hSize, hSlabs⟩ := hAny.fetchBatch memory n fun _ _ _ => trivial
  have hSubset : (heap.pool.central idx).slabs ⊆ after.slabs := by
    rcases hSlabs with hSame | hAdded
    · exact hSame ▸ List.Subset.refl _
    · exact hAdded ▸ List.subset_append_left ..
  have hGrown := Heap.grown_setCentral hSubset
  have hAfter : (heap.setCentral idx after).pool.central idx = after := by
    rw [Heap.central_setCentral, if_pos rfl]
  obtain ⟨hOnly, hOut, _⟩ := ((h.only idx).mono fun p hp => hp.grown hGrown).fetchBatch memory n
    (by
      intro hAdded p hp
      obtain ⟨hLow, hHigh⟩ := Slab.block_fits hp
      refine ⟨memory, by rw [hAfter]; exact hAdded, hMemory, hLow, ?_⟩
      have hSizes := h.sizes idx
      show p + blockSize idx ≤ memory + heap.pool.slabSize
      rw [← hSizes.1, ← hSizes.2]
      exact hHigh)
  exact ⟨h.setCentral ⟨hBlock, hSize⟩ hSubset hOnly, hGrown, hOut⟩

/-- Blocks of the class go back to their slabs. -/
theorem Heap.Stocked.returnBatch (h : heap.Stocked) {blocks : List Nat}
    (hBlocks : ∀ p ∈ blocks, heap.Holds idx p) :
    let after := (heap.pool.central idx).returnBatch blocks
    (heap.setCentral idx after).Stocked ∧ Heap.Grown heap (heap.setCentral idx after) := by
  intro after
  have hands := (h.only idx).returnBatch hBlocks
  have hSubset : (heap.pool.central idx).slabs ⊆ after.slabs := hands.slabs ▸ List.Subset.refl _
  have hGrown := Heap.grown_setCentral hSubset
  exact ⟨h.setCentral hands.sizes hSubset (hands.only.mono fun p hp => hp.grown hGrown), hGrown⟩

/-- A pointer goes to a caller. -/
theorem Heap.Stocked.give (h : heap.Stocked)
    (hHolds : heap.pool.serves size alignment → heap.Holds (index (adjusted size)) ptr) :
    (heap.give ptr size alignment).Stocked := by
  refine ⟨h.limit, h.sizes, h.only, fun a ha hServes => ?_⟩
  rcases List.mem_cons.mp ha with rfl | hOld
  · exact hHolds hServes
  · exact h.live a hOld hServes

/-- A local list is exchanged for one of blocks of the same class. -/
theorem Place.Stocked.set (h : here.Stocked heap) (initialized : Bool) {list : FreeList}
    (hList : ∀ p ∈ list, heap.Holds idx p) :
    ∀ i, ∀ p ∈ (ThreadLocalCache.set ⟨initialized, here.cache.caches⟩ idx list).caches i, heap.Holds i p := by
  intro i p hp
  rw [MemoryPool.caches_set] at hp
  split at hp
  · rename_i hi
    subst hi
    exact hList p hp
  · exact h.1 i p hp

theorem Heap.Stocked.erase (h : heap.Stocked) (a : Allocation) :
    ({ heap with live := heap.live.erase a } : Heap).Stocked :=
  ⟨h.limit, h.sizes, h.only, fun b hb => h.live b (List.mem_of_mem_erase hb)⟩

/-- The blocks that a list loses and those that it keeps. -/
theorem mem_popBatch {list : FreeList} {n : Nat} (h : p ∈ (list.popBatch n).1 ∨ p ∈ (list.popBatch n).2) :
    p ∈ list := by
  rw [FreeList.popBatch_eq] at h
  exact h.elim List.mem_of_mem_take List.mem_of_mem_drop

/-- A thread gives the first blocks of a list back. -/
theorem Place.Stocked.back (h : here.Stocked heap) (hHeap : heap.Stocked)
    (idx : Fin kNumSizeClasses) (n : Nat) :
    let after := (heap.pool.central idx).returnBatch ((here.cache.caches idx).popBatch n).1
    (heap.setCentral idx after).Stocked ∧ Heap.Grown heap (heap.setCentral idx after) ∧
      ∀ i, ∀ p ∈ (here.cache.set idx ((here.cache.caches idx).popBatch n).2).caches i,
        (heap.setCentral idx after).Holds i p := by
  intro after
  obtain ⟨hStocked, hGrown⟩ := hHeap.returnBatch fun p hp => h.1 idx p (mem_popBatch (.inl hp))
  refine ⟨hStocked, hGrown, fun i p hp => ?_⟩
  exact (h.set here.cache.initialized (fun p hp => h.1 idx p (mem_popBatch (.inr hp)))
    i p hp).grown hGrown

/-- The batch goes to the local list, but for the block that goes to the caller. -/
theorem Heap.Stocked.fetchFromCentral (h : heap.Stocked) (hHere : here.Stocked heap) (idx : Fin kNumSizeClasses)
    {memory : Nat} (hMemory : 0 < memory) :
    let after := here.cache.fetchFromCentral idx (heap.pool.central idx) memory
    (heap.setCentral idx after.2.2).Stocked ∧ Heap.Grown heap (heap.setCentral idx after.2.2) ∧
      (∀ i, ∀ p ∈ after.2.1.caches i, (heap.setCentral idx after.2.2).Holds i p) ∧
      ∀ ptr, after.1 = some ptr → (heap.setCentral idx after.2.2).Holds idx ptr := by
  obtain ⟨hStocked, hGrown, hOut⟩ := h.fetchBatch idx hMemory (batchSize idx)
  unfold ThreadLocalCache.fetchFromCentral
  cases hBatch : (heap.pool.central idx).fetchBatch memory (batchSize idx) with
  | mk out central =>
      rw [hBatch] at hStocked hGrown hOut
      have hLists := (hHere.grown hGrown).1
      cases out with
      | nil => exact ⟨hStocked, hGrown, hLists, nofun⟩
      | cons first rest =>
          refine ⟨hStocked, hGrown, ?_, fun ptr hPtr => ?_⟩
          · apply (hHere.grown hGrown).set here.cache.initialized
            intro p hp
            rw [FreeList.pushBatch_eq] at hp
            rcases List.mem_append.mp hp with hNew | hOld
            · exact hOut p (List.mem_cons_of_mem _ (List.mem_reverse.mp hNew))
            · exact hLists idx p hOld
          · cases hPtr
            exact hOut first (List.mem_cons_self ..)

theorem Heap.grown_answer (heap : Heap) (ptr : Option Nat) (size alignment : Nat) :
    Heap.Grown heap (heap.answer ptr size alignment) := by
  cases ptr <;> exact ⟨rfl, rfl, fun _ _ => id⟩

theorem Heap.Stocked.answer (h : heap.Stocked) {ptr : Option Nat}
    (hHolds : ∀ p, ptr = some p → heap.Holds (index (adjusted size)) p) :
    (heap.answer ptr size alignment).Stocked := by
  cases ptr with
  | none => exact h
  | some p => exact h.give fun _ => hHolds p rfl

/-- `fetchFromCentral`, and what becomes of the block. -/
theorem code_fetching {Θ : Type*} {t : Θ} {memory : Nat} {cache : ThreadLocalCache}
    (hStep : MemoryPool.code t heap ⟨cache, .fetching size alignment⟩ (.enter memory) = some (heap', here')) :
    heap.Fresh memory heap.pool.slabSize ∧ memory % heap.pool.slabSize = 0 ∧
      heap' = (heap.setCentral (index (adjusted size)) (cache.fetchFromCentral (index (adjusted size))
        (heap.pool.central (index (adjusted size))) memory).2.2).answer
          (cache.fetchFromCentral (index (adjusted size))
            (heap.pool.central (index (adjusted size))) memory).1 size alignment ∧
      here' = ⟨(cache.fetchFromCentral (index (adjusted size))
        (heap.pool.central (index (adjusted size))) memory).2.1, .idle⟩ := by
  obtain ⟨⟨hFresh, hAligned⟩, hStep⟩ := Option.ite_none_right_eq_some.mp hStep
  cases hStep
  exact ⟨hFresh, hAligned, rfl, rfl⟩

/-- A step keeps the blocks in slabs of their classes. -/
theorem stocked_step {Θ : Type*} {t : Θ} {choice : Choice} (h : heap.Stocked) (hHere : here.Stocked heap)
    (hStep : MemoryPool.code t heap here choice = some (heap', here')) :
    heap'.Stocked ∧ here'.Stocked heap' ∧ Heap.Grown heap heap' := by
  obtain ⟨cache, call⟩ := here
  cases call with
  | idle =>
      cases choice with
      | allocate size alignment region =>
          obtain ⟨hPower, hStep⟩ := Option.ite_none_right_eq_some.mp hStep
          by_cases hServes : heap.pool.serves size alignment
          · rw [if_pos hServes] at hStep
            dsimp only at hStep
            split at hStep
            · cases hStep
              exact ⟨h, ⟨hHere.1, fun _ _ hCall => by cases hCall; exact hServes⟩, .refl _⟩
            · rename_i ptr rest hList
              cases hStep
              have hHead : ∀ p ∈ ptr :: rest, heap.Holds (index (adjusted size)) p := fun p hp =>
                hHere.1 _ p (hList ▸ hp)
              refine ⟨h.give fun _ => hHead ptr (List.mem_cons_self ..),
                ⟨?_, fun _ _ hCall => by cases hCall⟩, ⟨rfl, rfl, fun _ _ => id⟩⟩
              exact hHere.set true fun p hp => hHead p (List.mem_cons_of_mem _ hp)
          · rw [if_neg hServes] at hStep
            obtain ⟨_, hStep⟩ := Option.ite_none_right_eq_some.mp hStep
            cases hStep
            exact ⟨h.give fun hServed => absurd hServed hServes, hHere, ⟨rfl, rfl, fun _ _ => id⟩⟩
      | deallocate ptr size alignment =>
          simp only [MemoryPool.code] at hStep
          split at hStep
          · cases hStep
            exact ⟨h, hHere, .refl _⟩
          · obtain ⟨hMem, hStep⟩ := Option.ite_none_right_eq_some.mp hStep
            split at hStep
            · rename_i hServes
              cases hStep
              refine ⟨h.erase _, ⟨?_, ?_⟩, ⟨rfl, rfl, fun _ _ => id⟩⟩
              · apply hHere.set true
                intro p hp
                rcases List.mem_cons.mp hp with rfl | hOld
                · exact h.live _ hMem hServes
                · exact hHere.1 _ p hOld
              · intro _ _ hCall
                dsimp only at hCall
                split at hCall <;> cases hCall
            · cases hStep
              exact ⟨h.erase _, hHere, ⟨rfl, rfl, fun _ _ => id⟩⟩
      | exit =>
          cases hStep
          exact ⟨h, ⟨hHere.1, fun _ _ hCall => by cases hCall⟩, .refl _⟩
      | enter memory => cases hStep
  | fetching size alignment =>
      cases choice with
      | enter memory =>
          obtain ⟨hFresh, _, rfl, rfl⟩ := code_fetching hStep
          obtain ⟨hStocked, hGrown, hLists, hAnswer⟩ :=
            h.fetchFromCentral hHere (index (adjusted size)) hFresh.1
          have hAnswered := Heap.grown_answer (heap.setCentral (index (adjusted size))
            (cache.fetchFromCentral (index (adjusted size)) (heap.pool.central (index (adjusted size))) memory).2.2)
            (cache.fetchFromCentral (index (adjusted size)) (heap.pool.central (index (adjusted size))) memory).1
            size alignment
          exact ⟨hStocked.answer hAnswer,
            ⟨fun i p hp => (hLists i p hp).grown hAnswered, fun _ _ hCall => by cases hCall⟩,
            hGrown.trans hAnswered⟩
      | _ => cases hStep
  | returning idx =>
      cases choice with
      | enter memory =>
          cases hStep
          obtain ⟨hStocked, hGrown, hLists⟩ := hHere.back h idx
            (if (cache.caches idx).length < batchSize idx then (cache.caches idx).length else batchSize idx)
          exact ⟨hStocked, ⟨hLists, fun _ _ hCall => by cases hCall⟩, hGrown⟩
      | _ => cases hStep
  | draining i =>
      cases choice with
      | enter memory =>
          have hDrain : MemoryPool.drain heap cache i = (heap', here') := Option.some.inj hStep
          rcases MemoryPool.drain_cases heap cache i with ⟨hi, _, hCase⟩ | ⟨hi, _, hCase⟩ | ⟨_, hCase⟩ <;>
            rw [hCase] at hDrain <;> cases hDrain
          · exact ⟨h, ⟨hHere.1, fun _ _ hCall => by cases hCall⟩, .refl _⟩
          · obtain ⟨hStocked, hGrown, hLists⟩ := hHere.back h ⟨i, hi⟩ ThreadLocalCache.kMaxBatchSize
            exact ⟨hStocked, ⟨hLists, fun _ _ hCall => by cases hCall⟩, hGrown⟩
          · exact ⟨h, ⟨hHere.1, fun _ _ hCall => by cases hCall⟩, .refl _⟩
      | _ => cases hStep
  | gone => cases choice <;> cases hStep

end Steps

namespace MemoryPool

/-- The constructor, which throws for a slab size with more than one bit. Its assertions are
compiled out. -/
def construct (slabSize maxAllocSize : Nat) : Option MemoryPool :=
  if slabSize &&& (slabSize - 1) ≠ 0 then none else some (create slabSize maxAllocSize)

def startWith {Θ : Type*} (pool : MemoryPool) : Config Θ Heap Place :=
  ⟨⟨pool, []⟩, fun _ => ⟨⟨false, fun _ => []⟩, .idle⟩⟩

/-- A call of `allocate` comes back in this step. -/
def Returns (before after : Place) (choice : Choice) (size alignment : Nat) : Prop :=
  after.call = .idle ∧
    ((before.call = .idle ∧ ∃ region, choice = .allocate size alignment region) ∨
      (before.call = .fetching size alignment ∧ ∃ memory, choice = .enter memory))

/-- The caller gets a pointer to enough memory. -/
def Answered (before after : Heap) (size alignment : Nat) : Prop :=
  ∃ ptr, after.live = ⟨ptr, size, alignment⟩ :: before.live ∧ 0 < ptr ∧
    (before.pool.serves size alignment → ∃ key ∈ (after.pool.central (index (adjusted size))).slabs,
      key ≤ ptr ∧ ptr + adjusted size ≤ key + after.pool.slabSize)

/-- Whatever the threads do with the pool, `operator new` can give what `allocate` needs, and
`allocate` then returns enough memory. -/
structure Serves (Θ : Type*) [DecidableEq Θ] (pool : MemoryPool) : Prop where
  begins : ∀ c : Config Θ Heap Place, Reach code (· = startWith pool) anyStep c → ∀ t size alignment,
    2 ^ alignment.log2 = alignment → (c.here t).call = .idle →
    ∃ region d, Program.next code c t (.allocate size alignment region) = some d
  ends : ∀ c : Config Θ Heap Place, Reach code (· = startWith pool) anyStep c → ∀ t size alignment,
    (c.here t).call = .fetching size alignment →
    ∃ memory d, Program.next code c t (.enter memory) = some d
  answers : ∀ c : Config Θ Heap Place, Reach code (· = startWith pool) anyStep c →
    ∀ t choice d size alignment, Program.next code c t choice = some d →
      Returns (c.here t) (d.here t) choice size alignment → Answered c.shared d.shared size alignment

/-- The blocks of the largest class that the pool serves fit into a slab. -/
def Suits (pool : MemoryPool) : Prop :=
  pool.maxAllocSize = 0 ∨ blockSize (index pool.maxAllocSize) ≤ pool.slabSize

section Supply

variable {Θ : Type*} [DecidableEq Θ] {slabSize maxAllocSize : Nat} {c : Config Θ Heap Place}

/-- There is memory beyond everything that is in use. -/
theorem exists_fresh (heap : Heap) (size : Nat) {step : Nat} (hStep : 0 < step) :
    ∃ memory, heap.Fresh memory size ∧ memory % step = 0 := by
  let ends := (List.finRange kNumSizeClasses).flatMap (fun idx =>
    (heap.pool.central idx).slabs.map (· + heap.pool.slabSize)) ++
      heap.live.map fun a => a.ptr + adjusted a.size
  have hBeyond : ∀ x ∈ ends, x ≤ step * (ends.sum + 1) := by
    intro x hx
    have hSum : x ≤ ends.sum := List.le_sum_of_mem hx
    exact hSum.trans ((Nat.le_succ _).trans (Nat.le_mul_of_pos_left _ hStep))
  refine ⟨step * (ends.sum + 1), ⟨Nat.mul_pos hStep (Nat.succ_pos _), ?_, ?_⟩, Nat.mul_mod_right ..⟩
  · intro idx key hKey
    apply Or.inr
    apply hBeyond
    apply List.mem_append_left
    exact List.mem_flatMap.mpr ⟨idx, List.mem_finRange idx, List.mem_map_of_mem hKey⟩
  · intro a ha _
    apply Or.inr
    apply hBeyond
    apply List.mem_append_right
    exact List.mem_map_of_mem ha

/-- What every run keeps. -/
structure Kept (slabSize maxAllocSize : Nat) (c : Config Θ Heap Place) : Prop where
  heap : c.shared.Stocked
  places : ∀ t, (c.here t).Stocked c.shared
  limit : c.shared.pool.maxAllocSize = min maxAllocSize kMaxAllocSize
  slabSize : c.shared.pool.slabSize = slabSize

theorem kept (reach : Reach code (· = startWith (create slabSize maxAllocSize)) anyStep c) :
    Kept slabSize maxAllocSize c := by
  apply reach.invariant (I := Kept slabSize maxAllocSize)
  · rintro c rfl
    refine ⟨⟨Nat.min_le_right .., fun _ => ⟨rfl, rfl⟩, fun _ => nofun, nofun⟩, fun _ => ⟨?_, nofun⟩, rfl, rfl⟩
    exact fun _ _ => nofun
  · intro c t choice heap here _ kept _ hLocal
    obtain ⟨hHeap, hHere, hGrown⟩ := stocked_step kept.heap (kept.places t) hLocal
    refine ⟨hHeap, fun u => ?_, hGrown.limit.trans kept.limit, hGrown.slabSize.trans kept.slabSize⟩
    show Place.Stocked heap (Function.update c.here t here u)
    by_cases hu : u = t
    · subst hu
      rw [Function.update_self]
      exact hHere
    · rw [Function.update_of_ne hu]
      exact (kept.places u).grown hGrown

omit [DecidableEq Θ] in
/-- The classes that a suitable pool uses have slabs with a block at least. -/
theorem room (kept : Kept slabSize maxAllocSize c) (hSuits : (create slabSize maxAllocSize).Suits)
    {size alignment : Nat} (hServes : c.shared.pool.serves size alignment) :
    0 < (c.shared.pool.central (index (adjusted size))).slabSize /
      (c.shared.pool.central (index (adjusted size))).blockSize := by
  have hLimit : adjusted size ≤ min maxAllocSize kMaxAllocSize := kept.limit ▸ hServes.1
  have hPositive : 0 < adjusted size := by
    unfold adjusted
    split <;> omega
  have hFits : blockSize (index (adjusted size)) ≤ slabSize := by
    rcases hSuits with hNothing | hLargest
    · have hZero : min maxAllocSize kMaxAllocSize = 0 := hNothing
      omega
    · exact (blockSize_index_mono hLimit (Nat.min_le_right ..)).trans hLargest
  rw [(kept.heap.sizes _).1, (kept.heap.sizes _).2, kept.slabSize]
  exact Nat.div_pos hFits (Nat.lt_of_lt_of_le (by decide) (blockSize_bounds _).1)

omit [DecidableEq Θ] in
theorem slabSize_pos (kept : Kept slabSize maxAllocSize c) (hSuits : (create slabSize maxAllocSize).Suits)
    {size alignment : Nat} (hServes : c.shared.pool.serves size alignment) :
    0 < c.shared.pool.slabSize := by
  have hRoom := room kept hSuits hServes
  rw [(kept.heap.sizes _).2] at hRoom
  exact Nat.pos_of_ne_zero fun hZero => by simp [hZero] at hRoom

/-- A pointer to a block of the class is an answer. -/
theorem answered_give {before after : Heap} {ptr size alignment : Nat}
    (hLive : after.live = ⟨ptr, size, alignment⟩ :: before.live) (hLimit : before.pool.maxAllocSize ≤ kMaxAllocSize)
    (hHolds : after.Holds (index (adjusted size)) ptr) : Answered before after size alignment := by
  obtain ⟨key, hKey, hPositive, hLow, hHigh⟩ := hHolds
  refine ⟨ptr, hLive, Nat.lt_of_lt_of_le hPositive hLow, fun hServes => ⟨key, hKey, hLow, ?_⟩⟩
  have hSize := size_le (hServes.1.trans hLimit)
  omega

theorem fetchFromCentral_eq_some (cache : ThreadLocalCache) {idx : Fin kNumSizeClasses}
    {central : CentralCache} {memory : Nat} (h : (central.fetchBatch memory (batchSize idx)).1 ≠ []) :
    ∃ ptr, (cache.fetchFromCentral idx central memory).1 = some ptr := by
  unfold ThreadLocalCache.fetchFromCentral
  cases hBatch : central.fetchBatch memory (batchSize idx) with
  | mk out after =>
      rw [hBatch] at h
      cases out with
      | nil => exact absurd rfl h
      | cons first rest => exact ⟨first, rfl⟩

omit [DecidableEq Θ] in
/-- A call of `allocate` that finds memory goes on. -/
theorem code_allocate (t : Θ) {heap : Heap} (cache : ThreadLocalCache) {size alignment region : Nat}
    (hPower : 2 ^ alignment.log2 = alignment) (hFresh : heap.Fresh region (adjusted size))
    (hAligned : region % largeAlign alignment = 0) :
    ∃ after, code t heap ⟨cache, .idle⟩ (.allocate size alignment region) = some after := by
  simp only [code, if_pos hPower]
  split
  · split <;> exact ⟨_, rfl⟩
  · exact ⟨_, if_pos ⟨hFresh, hAligned⟩⟩

omit [DecidableEq Θ] in
/-- A call of `allocate` that does not need the central cache. -/
theorem answered_allocate {t : Θ} {heap heap' : Heap} {cache : ThreadLocalCache} {here' : Place}
    {size alignment region : Nat} (hHeap : heap.Stocked) (hHere : Place.Stocked heap ⟨cache, .idle⟩)
    (hStep : code t heap ⟨cache, .idle⟩ (.allocate size alignment region) = some (heap', here'))
    (hReturned : here'.call = .idle) : Answered heap heap' size alignment := by
  obtain ⟨_, hStep⟩ := Option.ite_none_right_eq_some.mp hStep
  by_cases hServes : heap.pool.serves size alignment
  · rw [if_pos hServes] at hStep
    dsimp only at hStep
    split at hStep
    · cases hStep
      cases hReturned
    · rename_i ptr rest hList
      cases hStep
      apply answered_give rfl hHeap.limit
      apply hHere.1
      rw [hList]
      exact List.mem_cons_self ..
  · rw [if_neg hServes] at hStep
    obtain ⟨hFresh, hStep⟩ := Option.ite_none_right_eq_some.mp hStep
    cases hStep
    exact ⟨region, rfl, hFresh.1.1, fun hServed => absurd hServed hServes⟩

theorem serves_of_suits (hSuits : (create slabSize maxAllocSize).Suits) :
    (create slabSize maxAllocSize).Serves Θ where
  begins c reach t size alignment hPower hIdle := by
    have hAlign : 0 < largeAlign alignment := by
      unfold largeAlign kDefaultAlign
      split <;> omega
    obtain ⟨region, hFresh, hAligned⟩ := exists_fresh c.shared (adjusted size) hAlign
    unfold Program.next
    cases hHere : c.here t with
    | mk cache call =>
        rw [hHere] at hIdle
        cases hIdle
        obtain ⟨after, hStep⟩ := code_allocate t cache hPower hFresh hAligned
        refine ⟨region, ⟨after.1, Function.update c.here t after.2⟩, ?_⟩
        rw [hStep]
        rfl
  ends c reach t size alignment hFetching := by
    have hKept := kept reach
    have hServes := (hKept.places t).2 size alignment hFetching
    obtain ⟨memory, hFresh, hAligned⟩ := exists_fresh c.shared c.shared.pool.slabSize
      (slabSize_pos hKept hSuits hServes)
    unfold Program.next
    cases hHere : c.here t with
    | mk cache call =>
        rw [hHere] at hFetching
        cases hFetching
        have hStep : ∃ after, code t c.shared ⟨cache, .fetching size alignment⟩ (.enter memory) = some after :=
          ⟨_, if_pos ⟨hFresh, hAligned⟩⟩
        obtain ⟨after, hStep⟩ := hStep
        refine ⟨memory, ⟨after.1, Function.update c.here t after.2⟩, ?_⟩
        rw [hStep]
        rfl
  answers c reach t choice d size alignment hNext hReturns := by
    have hKept := kept reach
    obtain ⟨heap, here, hLocal, rfl⟩ := Program.next_eq_some.mp hNext
    have hPlace := hKept.places t
    obtain ⟨hReturned, hCalled⟩ := hReturns
    replace hReturned : (Function.update c.here t here t).call = .idle := hReturned
    rw [Function.update_self] at hReturned
    generalize c.here t = before at hLocal hPlace hCalled
    obtain ⟨cache, call⟩ := before
    rcases hCalled with ⟨hIdle, region, rfl⟩ | ⟨hFetching, memory, rfl⟩
    · cases hIdle
      exact answered_allocate hKept.heap hPlace hLocal hReturned
    · cases hFetching
      obtain ⟨hFresh, _, rfl, rfl⟩ := code_fetching hLocal
      have hRoom := room hKept hSuits (hPlace.2 size alignment rfl)
      obtain ⟨ptr, hPtr⟩ := fetchFromCentral_eq_some cache
        (CentralCache.fetchBatch_ne_nil memory hRoom (batchSize_bounds _).1)
      obtain ⟨_, _, _, hAnswer⟩ := hKept.heap.fetchFromCentral hPlace (index (adjusted size)) hFresh.1
      have hHolds := hAnswer ptr hPtr
      show Answered c.shared (Heap.answer _ _ _ _) _ _
      rw [hPtr]
      exact answered_give rfl hKept.heap.limit hHolds

/-- A request of the largest size gets nothing if no slab has room for it. -/
theorem suits_of_serves [Nonempty Θ] (hServes : (create slabSize maxAllocSize).Serves Θ) :
    (create slabSize maxAllocSize).Suits := by
  by_contra hUnsuited
  obtain ⟨hSome, hFew⟩ := not_or.mp hUnsuited
  have t : Θ := Classical.arbitrary Θ
  let largest := min maxAllocSize kMaxAllocSize
  let idle : Heap := ⟨create slabSize maxAllocSize, []⟩
  have hAdjusted : adjusted largest = largest := if_neg hSome
  have hServed : idle.pool.serves largest 1 := ⟨Nat.le_of_eq hAdjusted, by decide⟩
  have hAsk : code t idle ⟨⟨false, fun _ => []⟩, .idle⟩ (.allocate largest 1 0) =
      some (idle, ⟨⟨true, fun _ => []⟩, .fetching largest 1⟩) := by
    simp only [code]
    rw [if_pos (by decide), if_pos hServed]
    rfl
  let asked : Config Θ Heap Place := ⟨idle, Function.update (fun _ => ⟨⟨false, fun _ => []⟩, .idle⟩) t
    ⟨⟨true, fun _ => []⟩, .fetching largest 1⟩⟩
  have reach : Reach code (· = startWith (create slabSize maxAllocSize)) anyStep asked := by
    have start : Reach code (· = startWith (create slabSize maxAllocSize)) anyStep
        (startWith (create slabSize maxAllocSize) : Config Θ Heap Place) := .start rfl
    exact .step start trivial (Program.next_eq_some.mpr ⟨_, _, hAsk, rfl⟩)
  have hHere : asked.here t = ⟨⟨true, fun _ => []⟩, .fetching largest 1⟩ := by
    simp [asked]
  obtain ⟨memory, d, hNext⟩ := hServes.ends asked reach t largest 1 (by rw [hHere])
  obtain ⟨heap, here, hLocal, rfl⟩ := Program.next_eq_some.mp hNext
  rw [hHere] at hLocal
  obtain ⟨_, _, hHeap, hPlace⟩ := code_fetching hLocal
  have hReturns : Returns (asked.here t) here (.enter memory) largest 1 := by
    rw [hHere, hPlace]
    exact ⟨rfl, .inr ⟨rfl, memory, rfl⟩⟩
  obtain ⟨ptr, hLive, _⟩ := hServes.answers asked reach t (.enter memory) _ largest 1 hNext
    (show Returns _ (Function.update asked.here t here t) _ _ _ by rwa [Function.update_self])
  have hRoom : slabSize / blockSize (index (adjusted largest)) = 0 := by
    rw [hAdjusted]
    exact Nat.div_eq_of_lt (Nat.lt_of_not_le hFew)
  have hNone : (ThreadLocalCache.fetchFromCentral ⟨true, fun _ => []⟩ (index (adjusted largest))
      (idle.pool.central (index (adjusted largest))) memory).1 = none := by
    have hNothing := CentralCache.fetchBatch_eq_nil memory (batchSize (index (adjusted largest))) hRoom
    unfold ThreadLocalCache.fetchFromCentral
    cases hBatch : (idle.pool.central (index (adjusted largest))).fetchBatch memory
        (batchSize (index (adjusted largest))) with
    | mk out after =>
        have hOut : out = [] := (congrArg Prod.fst hBatch).symm.trans hNothing
        subst hOut
        rfl
  rw [show asked.shared = idle from rfl, hNone] at hHeap
  replace hLive : heap.live = ⟨ptr, largest, 1⟩ :: [] := hLive
  rw [hHeap] at hLive
  cases hLive

/-- A pool that the constructor accepts serves every request exactly if a slab has room for a block
of the largest class that the pool uses. -/
theorem serves_iff_suits (Θ : Type*) [DecidableEq Θ] [Nonempty Θ] {pool : MemoryPool}
    (hConstruct : construct slabSize maxAllocSize = some pool) : pool.Serves Θ ↔ pool.Suits := by
  unfold construct at hConstruct
  split at hConstruct <;> cases hConstruct
  exact ⟨suits_of_serves, serves_of_suits⟩

/-- Two threads with the pool of the default configuration. -/
theorem serves_default : (create 4096 2048).Serves (Fin 2) := by
  have hConstruct : construct 4096 2048 = some (create 4096 2048) := if_neg (by decide)
  exact (serves_iff_suits (Fin 2) hConstruct).mpr (.inr (by decide))

/-- Slabs of 1024 bytes are accepted, and have no block for a request of 2048. -/
theorem not_serves_small : construct 1024 2048 = some (create 1024 2048) ∧
    ¬ (create 1024 2048).Serves (Fin 1) := by
  have hUnsuited : ¬ (create 1024 2048).Suits := by
    rintro (hNothing | hLargest)
    · exact absurd hNothing (by decide)
    · exact absurd hLargest (by decide)
  exact ⟨if_neg (by decide), fun serves => hUnsuited (suits_of_serves serves)⟩

end Supply

end MemoryPool

end Memory
