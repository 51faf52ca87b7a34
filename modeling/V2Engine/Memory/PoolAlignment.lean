import V2Engine.Memory.PoolOwnership

/-! How the pointers of a pool are aligned. Every class but the smallest has blocks of a
multiple of 16 bytes; the smallest serves requests for 16-byte alignment as well. -/
namespace Memory

open Interleaving SizeClass

/-- The block on top of the free list of a new slab is its last one. -/
theorem Slab.freeList_create_last {memory blockSize slabSize last : Nat} (h : slabSize / blockSize = last + 1) :
    ∃ rest, (create memory blockSize slabSize).freeList = (memory + last * blockSize) :: rest := by
  have hTotal : (create memory blockSize slabSize).totalBlocks = last + 1 := h
  rw [freeList_create, blocks, hTotal, List.range_succ, List.map_append, List.reverse_append]
  exact ⟨_, rfl⟩

namespace MemoryPool

variable {Θ : Type*} [Fintype Θ] {c : Config Θ Heap Place}

theorem two_pow_dvd {alignment n : Nat} (hPower : 2 ^ alignment.log2 = alignment) (h : alignment ≤ 2 ^ n) :
    alignment ∣ 2 ^ n := by
  rw [← hPower] at h ⊢
  exact Nat.pow_dvd_pow 2 ((Nat.pow_le_pow_iff_right (by decide)).mp h)

theorem two_pow_eq_sixteen {alignment : Nat} (hPower : 2 ^ alignment.log2 = alignment) (hLow : 8 < alignment)
    (hHigh : alignment ≤ 16) : alignment = 16 := by
  rw [← hPower] at hLow hHigh ⊢
  have hAbove : 3 < alignment.log2 := (Nat.pow_lt_pow_iff_right (by decide : 1 < 2)).mp hLow
  have hBelow : alignment.log2 ≤ 4 := (Nat.pow_le_pow_iff_right (by decide : 1 < 2)).mp hHigh
  have hLog : alignment.log2 = 4 := by omega
  rw [hLog]
  rfl

theorem Sorted.dvd_slabSize (h : Sorted c) : 16 ∣ c.shared.pool.slabSize := by
  obtain ⟨k, hPower⟩ := h.ready.power
  have hRoom := h.ready.room
  rw [hPower] at hRoom ⊢
  have hLog : 11 ≤ k := (Nat.pow_le_pow_iff_right (by decide : 1 < 2)).mp hRoom
  exact Nat.pow_dvd_pow 2 (by omega : 4 ≤ k)

/-- Blocks lie on multiples of their size. -/
theorem Sorted.block_aligned (h : Sorted c) {idx : Fin kNumSizeClasses} {p : Nat}
    (hBlock : (c.shared.pool.central idx).Block p) : p % 8 = 0 ∧ (idx ≠ 0 → p % 16 = 0) := by
  obtain ⟨key, s, hSlab, hMem, _, hAligned, _⟩ := h.region hBlock
  obtain ⟨i, _, rfl⟩ := Slab.mem_blocks.mp hMem
  have hCut := (h.ready.indexed idx).shaped.cut hSlab
  rw [hCut.memory, hCut.blockSize, (h.ready.sizes idx).1]
  have hKey : 16 ∣ key := h.dvd_slabSize.trans (Nat.dvd_of_mod_eq_zero hAligned)
  obtain ⟨hEight, hSixteen⟩ := blockSize_mod idx
  have hBlock8 : 8 ∣ i * blockSize idx := (Nat.dvd_of_mod_eq_zero hEight).mul_left i
  constructor
  · exact Nat.mod_eq_zero_of_dvd ((Nat.dvd_trans (by decide) hKey).add hBlock8)
  · intro hne
    exact Nat.mod_eq_zero_of_dvd (hKey.add ((Nat.dvd_of_mod_eq_zero (hSixteen hne)).mul_left i))

/-- A pointer is aligned as asked, unless it is a block of the smallest class for 16. -/
theorem Sorted.aligned (h : Sorted c) {a : Allocation} (hMem : a ∈ c.shared.live)
    (hClass : ¬(adjusted a.size ≤ 8 ∧ a.alignment = 16 ∧ adjusted a.size ≤ c.shared.pool.maxAllocSize)) :
    a.ptr % a.alignment = 0 := by
  obtain ⟨hPower, hLarge⟩ := h.granted a hMem
  by_cases hServes : c.shared.pool.serves a.size a.alignment
  · obtain ⟨hEight, hSixteen⟩ := h.block_aligned (h.served hMem hServes)
    by_cases hLow : a.alignment ≤ 8
    · have hDvd : a.alignment ∣ 8 := two_pow_dvd (n := 3) hPower hLow
      exact Nat.mod_eq_zero_of_dvd (hDvd.trans (Nat.dvd_of_mod_eq_zero hEight))
    · have hDvd : a.alignment ∣ 16 := two_pow_dvd (n := 4) hPower hServes.2
      have hExact := two_pow_eq_sixteen hPower (by omega) hServes.2
      have hBig : 8 < adjusted a.size := by
        by_contra hSmall
        exact hClass ⟨by omega, hExact, hServes.1⟩
      exact Nat.mod_eq_zero_of_dvd (hDvd.trans (Nat.dvd_of_mod_eq_zero
        (hSixteen (index_ne_zero hBig (adjusted_le h.ready hServes)))))
  · have hAsked := hLarge hServes
    unfold largeAlign at hAsked
    split at hAsked
    · exact hAsked
    · rename_i hLow
      have hDvd : a.alignment ∣ 16 := two_pow_dvd (n := 4) hPower (Nat.le_of_not_lt hLow)
      exact Nat.mod_eq_zero_of_dvd (hDvd.trans (Nat.dvd_of_mod_eq_zero hAsked))

/-- The first batch of a size class: the last block of the new slab goes to the caller. -/
theorem fetch_first {idx : Fin kNumSizeClasses} {slabSize memory last : Nat} {cache : ThreadLocalCache}
    (h : slabSize / blockSize idx = last + 1) :
    (cache.fetchFromCentral idx (.init (blockSize idx) slabSize) memory).1 =
      some (memory + last * blockSize idx) := by
  obtain ⟨n, hBatch⟩ := Nat.exists_eq_succ_of_ne_zero (Nat.ne_of_gt (batchSize_bounds idx).1)
  obtain ⟨rest, hList⟩ : ∃ rest, (Slab.create memory (blockSize idx) slabSize).freeList =
      (memory + last * blockSize idx) :: rest := Slab.freeList_create_last h
  have hFetch : ((CentralCache.init (blockSize idx) slabSize).fetchBatch memory (batchSize idx)).1 =
      (memory + last * blockSize idx) :: (FreeList.popBatch rest n).1 := by
    rw [hBatch]
    simp [CentralCache.fetchBatch, CentralCache.init, CentralCache.fetchPartial, CentralCache.fetchNew,
      CentralCache.takeFrom, CentralCache.addSlab, Slab.allocateBatch, hList, FreeList.popBatch]
  unfold ThreadLocalCache.fetchFromCentral
  cases hResult : (CentralCache.init (blockSize idx) slabSize).fetchBatch memory (batchSize idx) with
  | mk out central =>
      rw [hResult] at hFetch
      dsimp only at hFetch
      subst hFetch
      rfl

variable [DecidableEq Θ]

omit [Fintype Θ] in
/-- The first pointer that a new pool gives for a small request. -/
theorem reach_first (t : Θ) {k maxAllocSize size : Nat} (hRoom : 2048 ≤ 2 ^ k) (hSize : adjusted size ≤ 8)
    (hMax : adjusted size ≤ maxAllocSize) :
    ∃ c : Config Θ Heap Place, Reach code (· = startAt (2 ^ k) maxAllocSize) anyStep c ∧
      ⟨2 ^ k + (2 ^ k / 8 - 1) * 8, size, 16⟩ ∈ c.shared.live := by
  have hServes : (create (2 ^ k) maxAllocSize).serves size 16 := by
    refine ⟨?_, Nat.le_refl _⟩
    show adjusted size ≤ min maxAllocSize 2048
    omega
  have hTotal : 2 ^ k / blockSize 0 = (2 ^ k / 8 - 1) + 1 := by
    show 2 ^ k / 8 = _
    omega
  have hFresh : Heap.Fresh ⟨create (2 ^ k) maxAllocSize, []⟩ (2 ^ k) (2 ^ k) := by
    refine ⟨by omega, fun idx => ?_, fun _ => nofun⟩
    intro key hKey
    cases hKey
  have hAsk : code t ⟨create (2 ^ k) maxAllocSize, []⟩ ⟨⟨false, fun _ => []⟩, .idle⟩ (.allocate size 16 0) =
      some (⟨create (2 ^ k) maxAllocSize, []⟩, ⟨⟨true, fun _ => []⟩, .fetching size 16⟩) := by
    simp only [code]
    rw [if_pos (by decide), if_pos hServes]
    rfl
  have hTake : ∃ heap here, code t ⟨create (2 ^ k) maxAllocSize, []⟩
      ⟨⟨true, fun _ => []⟩, .fetching size 16⟩ (.enter (2 ^ k)) = some (heap, here) ∧
        ⟨2 ^ k + (2 ^ k / 8 - 1) * 8, size, 16⟩ ∈ heap.live := by
    refine ⟨_, _, if_pos ⟨hFresh, Nat.mod_self _⟩, ?_⟩
    have hFirst : (ThreadLocalCache.fetchFromCentral ⟨true, fun _ => []⟩ 0 (.init (blockSize 0) (2 ^ k))
        (2 ^ k)).1 = some (2 ^ k + (2 ^ k / 8 - 1) * blockSize 0) := fetch_first hTotal
    rw [index_eq_zero hSize]
    show _ ∈ (Heap.answer _ (ThreadLocalCache.fetchFromCentral _ 0 (.init (blockSize 0) (2 ^ k)) _).1 _ _).live
    rw [hFirst]
    exact List.mem_cons_self ..
  obtain ⟨heap, here, hStep, hMem⟩ := hTake
  have hStart : Reach code (· = startAt (2 ^ k) maxAllocSize) anyStep
      (startAt (2 ^ k) maxAllocSize : Config Θ Heap Place) := .start rfl
  have hAsked := hStart.step trivial (Program.next_eq_some.mpr ⟨_, _, hAsk, rfl⟩)
  obtain ⟨middle, hReach, hShared, hHere⟩ : ∃ middle : Config Θ Heap Place,
      Reach code (· = startAt (2 ^ k) maxAllocSize) anyStep middle ∧
        middle.shared = ⟨create (2 ^ k) maxAllocSize, []⟩ ∧
          middle.here t = ⟨⟨true, fun _ => []⟩, .fetching size 16⟩ :=
    ⟨_, hAsked, rfl, Function.update_self ..⟩
  rw [← hShared, ← hHere] at hStep
  exact ⟨_, hReach.step trivial (Program.next_eq_some.mpr ⟨heap, here, hStep, rfl⟩), hMem⟩

/-- The limit of a pool does not change. -/
theorem sorted_limit {slabSize maxAllocSize : Nat} (hPower : ∃ k, slabSize = 2 ^ k)
    (hRoom : kMaxAllocSize ≤ slabSize) (reach : Reach code (· = startAt slabSize maxAllocSize) anyStep c) :
    Sorted c ∧ c.shared.pool.maxAllocSize = min maxAllocSize kMaxAllocSize := by
  apply reach.invariant
  · rintro c rfl
    exact ⟨sorted_start hPower hRoom, rfl⟩
  · rintro c t choice heap here _ ⟨h, hLimit⟩ _ hStep
    have hMoved := moved h.ready (h.fits t) (fun idx p hp => h.block_of_cached hp) hStep
    exact ⟨h.step hStep, hMoved.same.1.trans hLimit⟩

/-- For a size and an alignment, every pointer that the pool returns in any of its states is
a multiple of the alignment, unless the pool serves the size from its smallest class and the
alignment is 16. -/
theorem aligned_iff [Nonempty Θ] {k maxAllocSize : Nat} (hRoom : 2048 ≤ 2 ^ k) (size alignment : Nat) :
    (∀ c : Config Θ Heap Place, Reach code (· = startAt (2 ^ k) maxAllocSize) anyStep c →
      ∀ ptr, ⟨ptr, size, alignment⟩ ∈ c.shared.live → ptr % alignment = 0) ↔
      ¬(adjusted size ≤ 8 ∧ alignment = 16 ∧ adjusted size ≤ maxAllocSize) := by
  constructor
  · rintro hAligned ⟨hSize, rfl, hMax⟩
    obtain ⟨t⟩ := ‹Nonempty Θ›
    obtain ⟨c, hReach, hMem⟩ := reach_first t hRoom hSize hMax
    have hZero := hAligned c hReach _ hMem
    have hSlab : 16 ∣ 2 ^ k := by
      have hLog : 11 ≤ k := (Nat.pow_le_pow_iff_right (by decide : 1 < 2)).mp hRoom
      exact Nat.pow_dvd_pow 2 (by omega : 4 ≤ k)
    omega
  · intro hClass c hReach ptr hMem
    obtain ⟨h, hLimit⟩ := sorted_limit ⟨k, rfl⟩ hRoom hReach
    apply h.aligned hMem
    rintro ⟨hSize, hSixteen, hMax⟩
    rw [hLimit] at hMax
    exact hClass ⟨hSize, hSixteen, hMax.trans (Nat.min_le_left ..)⟩

section Runs

theorem aligned_iff_eight :
    (∀ c : Config (Fin 2) Heap Place, Reach code (· = startAt (2 ^ 12) 2048) anyStep c →
      ∀ ptr, ⟨ptr, 8, 8⟩ ∈ c.shared.live → ptr % 8 = 0) ↔
      ¬(adjusted 8 ≤ 8 ∧ 8 = 16 ∧ adjusted 8 ≤ 2048) :=
  aligned_iff (by decide) 8 8

/-- The first allocation of 8 bytes with the default alignment. -/
theorem not_aligned_small : ∃ c : Config (Fin 1) Heap Place, Reach code (· = startAt (2 ^ 12) 2048) anyStep c ∧
    ⟨8184, 8, 16⟩ ∈ c.shared.live ∧ 8184 % 16 ≠ 0 := by
  obtain ⟨c, hReach, hMem⟩ := reach_first (0 : Fin 1) (k := 12) (by decide) (by decide : adjusted 8 ≤ 8)
    (by decide : adjusted 8 ≤ 2048)
  exact ⟨c, hReach, hMem, by decide⟩

end Runs

end MemoryPool

end Memory
