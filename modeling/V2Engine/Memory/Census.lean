import V2Engine.Memory.CentralCache

/-! Where one address is counted in a central cache: on the free list of the slab that it
belongs to, and among the blocks of that slab. What an operation hands out leaves the
first count, and a new slab adds to both. -/
namespace Memory.CentralCache

/-- How often an address is on the free list of its slab. -/
def free (c : CentralCache) (p : Nat) : Nat :=
  match c.findSlab p with
  | none => 0
  | some s => s.freeList.count p

/-- How often an address is a block of its slab. -/
def cut (c : CentralCache) (p : Nat) : Nat :=
  match c.findSlab p with
  | none => 0
  | some s => s.blocks.count p

/-- The list of slabs names exactly the keys of the map. -/
structure Indexed (c : CentralCache) : Prop where
  shaped : c.Shaped
  keys : ∀ {key}, key ∈ c.slabs ↔ ∃ s, c.slabMap key = some s

variable {c after : CentralCache} {key memory maxCount p : Nat} {s : Slab} {out : List Nat}

theorem free_eq (hFind : c.findSlab p = some s) : c.free p = s.freeList.count p := by simp [free, hFind]

theorem cut_eq (hFind : c.findSlab p = some s) : c.cut p = s.blocks.count p := by simp [cut, hFind]

theorem block_of_cut (h : 0 < c.cut p) : c.Block p := by
  unfold cut at h
  split at h
  · cases h
  · exact ⟨_, by assumption, List.count_pos_iff.mp h⟩

theorem cut_of_block (hPositive : 0 < c.blockSize) (hShaped : c.Shaped) (h : c.Block p) : c.cut p = 1 := by
  obtain ⟨s, hFind, hMem⟩ := h
  rw [cut_eq hFind]
  have hSize : 0 < s.blockSize := by
    rw [(hShaped.cut hFind).blockSize]
    exact hPositive
  exact List.count_eq_one_of_mem (Slab.blocks_nodup hSize) hMem

theorem indexed_init {blockSize slabSize : Nat} (hPositive : 0 < blockSize) (hFits : blockSize ≤ slabSize) :
    (init blockSize slabSize).Indexed :=
  ⟨shaped_init hPositive hFits, by simp [init]⟩

section Store

variable {changed : Slab}

theorem findSlab_store (hMemory : changed.memory = key) :
    (c.store s changed).findSlab p = if c.mask p = key then some changed else c.findSlab p := by
  have hMask : (c.store s changed).mask p = c.mask p := by simp [mask]
  rw [findSlab, hMask, slabMap_store, hMemory, Function.update_apply]
  rfl

theorem free_store (hMemory : changed.memory = key) :
    (c.store s changed).free p = if c.mask p = key then changed.freeList.count p else c.free p := by
  unfold free
  rw [findSlab_store hMemory]
  by_cases hKey : c.mask p = key <;> simp [hKey]

theorem cut_store (hSlab : c.slabMap key = some s) (hMemory : changed.memory = key)
    (hBlocks : changed.blocks = s.blocks) : (c.store s changed).cut p = c.cut p := by
  unfold cut
  rw [findSlab_store hMemory]
  by_cases hKey : c.mask p = key
  · have hFind : c.findSlab p = some s := by rw [findSlab, hKey, hSlab]
    simp [hKey, hFind, hBlocks]
  · simp [hKey]

theorem Indexed.store (h : c.Indexed) (hSlab : c.slabMap key = some s) (hMemory : changed.memory = key)
    (hShaped : (c.store s changed).Shaped) : (c.store s changed).Indexed := by
  refine ⟨hShaped, fun {k} => ?_⟩
  rw [slabs_store, h.keys, slabMap_store, hMemory]
  by_cases hk : k = key
  · subst hk
    simp [hSlab]
  · simp [Function.update_of_ne hk]

end Store

/-- Blocks handed out, against the free lists. -/
structure Supplied (c after : CentralCache) (out : List Nat) : Prop where
  indexed : after.Indexed
  sizes : after.blockSize = c.blockSize ∧ after.slabSize = c.slabSize
  count : ∀ p, after.free p + out.count p + c.cut p = c.free p + after.cut p

theorem Supplied.recount (h : Supplied c after out) (n : Nat) :
    Supplied c { after with allocatedBlocks := n } out :=
  ⟨⟨h.indexed.shaped.recount n, h.indexed.keys⟩, h.sizes, h.count⟩

theorem Supplied.refl (h : c.Indexed) : Supplied c c [] := ⟨h, ⟨rfl, rfl⟩, fun p => by simp⟩

theorem Supplied.trans {middle : CentralCache} {more : List Nat} (first : Supplied c middle out)
    (second : Supplied middle after more) : Supplied c after (out ++ more) where
  indexed := second.indexed
  sizes := ⟨second.sizes.1.trans first.sizes.1, second.sizes.2.trans first.sizes.2⟩
  count p := by
    have hFirst := first.count p
    have hSecond := second.count p
    rw [List.count_append]
    omega

/-- Blocks of one slab. -/
theorem takeFrom_supplied (h : c.Indexed) (hSlab : c.slabMap key = some s)
    (hTake : c.takeFrom key maxCount = (out, after)) : Supplied c after out ∧ after.slabs = c.slabs := by
  simp only [takeFrom, hSlab, Prod.mk.injEq] at hTake
  obtain ⟨rfl, rfl⟩ := hTake
  have hMemory : (s.allocateBatch maxCount).2.memory = key := (h.shaped.cut hSlab).memory
  refine ⟨⟨h.store hSlab hMemory (h.shaped.allocateBatch hSlab), by simp, fun p => ?_⟩, by simp⟩
  rw [cut_store hSlab hMemory rfl, free_store hMemory]
  by_cases hKey : c.mask p = key
  · have hFind : c.findSlab p = some s := by rw [findSlab, hKey, hSlab]
    have hCount : (s.allocateBatch maxCount).1.count p + (s.allocateBatch maxCount).2.freeList.count p =
        s.freeList.count p := FreeList.count_popBatch ..
    rw [if_pos hKey, free_eq hFind]
    omega
  · have hNone : (s.allocateBatch maxCount).1.count p = 0 := by
      rw [List.count_eq_zero]
      intro hMem
      exact hKey (h.shaped.block hSlab (h.shaped.taken hSlab hMem)).1
    rw [if_neg hKey, hNone, Nat.add_zero]

theorem fetchPartial_supplied {keys : List Nat} {n : Nat} (h : c.Indexed)
    (hFetch : fetchPartial keys n c = (out, after)) : Supplied c after out ∧ after.slabs = c.slabs := by
  induction keys generalizing c out n with
  | nil =>
      cases hFetch
      exact ⟨.refl h, rfl⟩
  | cons key rest ih =>
      cases n with
      | zero =>
          cases hFetch
          exact ⟨.refl h, rfl⟩
      | succ n =>
          cases hTake : c.takeFrom key (n + 1) with
          | mk first middle =>
              cases hRest : fetchPartial rest (n + 1 - first.length) middle with
              | mk more last =>
                  simp only [fetchPartial, hTake, hRest, Prod.mk.injEq] at hFetch
                  obtain ⟨rfl, rfl⟩ := hFetch
                  have hFirst : Supplied c middle first ∧ middle.slabs = c.slabs := by
                    cases hSlab : c.slabMap key with
                    | none =>
                        simp only [takeFrom, hSlab, Prod.mk.injEq] at hTake
                        obtain ⟨rfl, rfl⟩ := hTake
                        exact ⟨.refl h, rfl⟩
                    | some s => exact takeFrom_supplied h hSlab hTake
                  obtain ⟨hLater, hSlabs⟩ := ih hFirst.1.indexed hRest
                  exact ⟨hFirst.1.trans hLater, hSlabs.trans hFirst.2⟩

/-- A new slab has all its blocks on its free list. -/
theorem addSlab_supplied (h : c.Indexed) (hAligned : memory % c.slabSize = 0) (hFresh : memory ∉ c.slabs) :
    Supplied c (c.addSlab memory) [] := by
  have hNone : c.slabMap memory = none := by
    rw [← Option.not_isSome_iff_eq_none, Option.isSome_iff_exists, ← h.keys]
    exact hFresh
  refine ⟨⟨h.shaped.addSlab hAligned hNone, fun {k} => ?_⟩, ⟨rfl, rfl⟩, fun p => ?_⟩
  · by_cases hk : k = memory
    · subst hk
      simp [addSlab]
    · simp [addSlab, hk, h.keys]
  · have hFind : (c.addSlab memory).findSlab p =
        if c.mask p = memory then some (.create memory c.blockSize c.slabSize) else c.findSlab p := by
      show Function.update c.slabMap memory _ (c.mask p) = _
      rw [Function.update_apply]
      rfl
    unfold free cut
    rw [hFind]
    by_cases hKey : c.mask p = memory
    · have hOld : c.findSlab p = none := by rw [findSlab, hKey, hNone]
      simp [hKey, hOld, Slab.freeList_create]
    · simp [hKey]

/-- A batch comes from the partial slabs and, if these do not have enough, from a new one. -/
theorem fetchBatch_supplied {batchSize : Nat} (h : c.Indexed) (hAligned : memory % c.slabSize = 0)
    (hFresh : memory ∉ c.slabs) (hFetch : c.fetchBatch memory batchSize = (out, after)) :
    Supplied c after out ∧ ∀ key ∈ after.slabs, key ∈ c.slabs ∨ key = memory := by
  cases hFirst : fetchPartial c.partialSlabs batchSize c with
  | mk first middle =>
      cases hSecond : fetchNew memory (batchSize - first.length) middle with
      | mk more last =>
          simp only [fetchBatch, hFirst, hSecond, Prod.mk.injEq] at hFetch
          obtain ⟨rfl, rfl⟩ := hFetch
          obtain ⟨hPartial, hSlabs⟩ := fetchPartial_supplied h hFirst
          have hLast : Supplied middle last more ∧ ∀ key ∈ last.slabs, key ∈ c.slabs ∨ key = memory := by
            cases hMissing : batchSize - first.length with
            | zero =>
                rw [hMissing] at hSecond
                cases hSecond
                rw [hSlabs]
                exact ⟨.refl hPartial.indexed, fun key hKey => .inl hKey⟩
            | succ missing =>
                rw [hMissing] at hSecond
                have hAdded : Supplied middle (middle.addSlab memory) [] :=
                  addSlab_supplied hPartial.indexed (by rwa [hPartial.sizes.2]) (by rwa [hSlabs])
                obtain ⟨hTaken, hSame⟩ := takeFrom_supplied hAdded.indexed
                  (Function.update_self ..) hSecond
                refine ⟨hAdded.trans hTaken, fun key hKey => ?_⟩
                rw [hSame] at hKey
                simpa [addSlab, hSlabs] using hKey
          exact ⟨(hPartial.trans hLast.1).recount _, hLast.2⟩

/-- Blocks come back to the slabs they were cut from. -/
theorem returnLoop_supplied {blocks : List Nat} {returned : Nat} (h : c.Indexed)
    (hBlocks : ∀ ptr ∈ blocks, c.Block ptr) (hLoop : returnLoop blocks c = (returned, after)) :
    after.Indexed ∧ (after.blockSize = c.blockSize ∧ after.slabSize = c.slabSize) ∧ after.slabs = c.slabs ∧
      returned = blocks.length ∧
      ∀ p, after.free p = c.free p + blocks.count p ∧ after.cut p = c.cut p := by
  induction blocks generalizing c returned with
  | nil =>
      cases hLoop
      exact ⟨h, ⟨rfl, rfl⟩, rfl, rfl, fun p => ⟨rfl, rfl⟩⟩
  | cons ptr rest ih =>
      obtain ⟨s, hFind, hMem⟩ := hBlocks ptr (List.mem_cons_self ..)
      have hSlab : c.slabMap (c.mask ptr) = some s := hFind
      have hMemory : (s.deallocate ptr).memory = c.mask ptr := (h.shaped.cut hSlab).memory
      have hStored := h.store hSlab hMemory (h.shaped.deallocate hSlab hMem)
      cases hRest : returnLoop rest (c.store s (s.deallocate ptr)) with
      | mk more last =>
          simp only [returnLoop, hFind, hRest, Prod.mk.injEq] at hLoop
          obtain ⟨rfl, rfl⟩ := hLoop
          obtain ⟨hIndexed, hSizes, hSlabs, hMore, hCount⟩ := ih hStored (fun q hq =>
            (block_store hSlab (Slab.blocks_deallocate ..) hMemory).mpr (hBlocks q (List.mem_cons_of_mem _ hq))) hRest
          refine ⟨hIndexed, ?_, hSlabs.trans (by simp), ?_, fun p => ?_⟩
          · simpa using hSizes
          · rw [hMore, List.length_cons]
          · obtain ⟨hFree, hCut⟩ := hCount p
            rw [hFree, hCut, cut_store hSlab hMemory rfl, free_store hMemory]
            refine ⟨?_, rfl⟩
            by_cases hKey : c.mask p = c.mask ptr
            · have hSame : c.findSlab p = some s := by rw [findSlab, hKey, hSlab]
              rw [if_pos hKey, free_eq hSame]
              show (ptr :: s.freeList).count p + _ = _
              rw [List.count_cons, List.count_cons]
              omega
            · have hne : ptr ≠ p := fun hSame => hKey (by rw [hSame])
              rw [if_neg hKey, List.count_cons_of_ne hne]

theorem returnBatch_supplied {blocks : List Nat} (h : c.Indexed) (hBlocks : ∀ ptr ∈ blocks, c.Block ptr) :
    (c.returnBatch blocks).Indexed ∧
      ((c.returnBatch blocks).blockSize = c.blockSize ∧ (c.returnBatch blocks).slabSize = c.slabSize) ∧
      (c.returnBatch blocks).slabs = c.slabs ∧
      ∀ p, (c.returnBatch blocks).free p = c.free p + blocks.count p ∧
        (c.returnBatch blocks).cut p = c.cut p := by
  cases hLoop : returnLoop blocks c with
  | mk returned after =>
      obtain ⟨hIndexed, hSizes, hSlabs, _, hCount⟩ := returnLoop_supplied h hBlocks hLoop
      simp only [returnBatch, hLoop]
      exact ⟨⟨hIndexed.shaped.recount _, hIndexed.keys⟩, hSizes, hSlabs, hCount⟩

end Memory.CentralCache
