import V2Engine.Memory.SlabBound

/-! What a central cache writes down about its slabs, after any sequence of calls
(core/common/memory/central_cache.hpp). Unlike the number of slabs, it does not depend on which
blocks come back. -/
namespace Memory

open Interleaving

namespace CentralCache

/-- The slabs agree with the blocks that are out, and none is listed twice. -/
structure Tidy (c : CentralCache) (outstanding : List Nat) : Prop extends c.Balanced outstanding where
  once : c.partialSlabs.Nodup

variable {c after : CentralCache} {outstanding out : List Nat} {key memory maxCount p : Nat} {s : Slab}

@[simp] theorem allocatedBlocks_store (c : CentralCache) (before slab : Slab) :
    (c.store before slab).allocatedBlocks = c.allocatedBlocks := by
  unfold store transitionState
  dsimp only
  split <;> rfl

/-- A slab that comes to the list was not on it, or was taken off before. -/
theorem Balanced.once_store (h : c.Balanced outstanding) (hOnce : c.partialSlabs.Nodup)
    (hSlab : c.slabMap key = some s) {changed : Slab} (hMemory : changed.memory = key) :
    (c.store s changed).partialSlabs.Nodup := by
  rw [partialSlabs_store, hMemory]
  split
  · exact hOnce
  · have hKept : (if s.state = .partially then c.partialSlabs.filter (· ≠ key) else c.partialSlabs).Nodup ∧
        key ∉ if s.state = .partially then c.partialSlabs.filter (· ≠ key) else c.partialSlabs := by
      split
      · exact ⟨hOnce.filter _, by simp⟩
      · rename_i hState
        exact ⟨hOnce, fun hListed => hState ((h.listed hSlab).mp hListed)⟩
    generalize (if s.state = .partially then c.partialSlabs.filter (· ≠ key) else c.partialSlabs) = kept at hKept ⊢
    split
    · exact List.Nodup.append hKept.1 (List.nodup_singleton _) (by simpa using hKept.2)
    · rw [List.append_nil]
      exact hKept.1

theorem Tidy.recount (h : c.Tidy outstanding) (n : Nat) :
    ({ c with allocatedBlocks := n } : CentralCache).Tidy outstanding :=
  ⟨h.toBalanced.recount n, h.once⟩

theorem Tidy.addSlab (h : c.Tidy outstanding) (hAligned : memory % c.slabSize = 0)
    (hFresh : c.slabMap memory = none) : (c.addSlab memory).Tidy outstanding :=
  ⟨h.toBalanced.addSlab hAligned hFresh, h.once⟩

theorem tidy_init {blockSize slabSize : Nat} (hPositive : 0 < blockSize) (hFits : blockSize ≤ slabSize) :
    (init blockSize slabSize).Tidy [] :=
  ⟨balanced_init hPositive hFits, List.nodup_nil⟩

/-- What handing out blocks of slabs that are there leaves behind. -/
structure Gives (c after : CentralCache) (out outstanding : List Nat) : Prop where
  tidy : after.Tidy (out ++ outstanding)
  slabs : after.slabs = c.slabs
  slabSize : after.slabSize = c.slabSize
  allocated : after.allocatedBlocks = c.allocatedBlocks

theorem Gives.slabMap_eq_none (h : Gives c after out outstanding) (before : c.Tidy outstanding)
    (hFresh : c.slabMap memory = none) : after.slabMap memory = none := by
  by_contra hSome
  have hListed := h.tidy.keys.mpr (Option.ne_none_iff_exists'.mp hSome)
  rw [h.slabs, before.keys, hFresh] at hListed
  obtain ⟨s, hSlab⟩ := hListed
  cases hSlab

theorem Gives.trans {middle : CentralCache} {more : List Nat} (first : Gives c middle out outstanding)
    (second : Gives middle after more (out ++ outstanding)) : Gives c after (out ++ more) outstanding where
  tidy := by
    refine ⟨second.tidy.toBalanced.perm ?_, second.tidy.once⟩
    rw [List.append_assoc]
    exact List.perm_append_comm_assoc ..
  slabs := second.slabs.trans first.slabs
  slabSize := second.slabSize.trans first.slabSize
  allocated := second.allocated.trans first.allocated

theorem takeFrom_gives (h : c.Tidy outstanding) (hSlab : c.slabMap key = some s)
    (hTake : c.takeFrom key maxCount = (out, after)) : Gives c after out outstanding := by
  rw [takeFrom_eq hSlab] at hTake
  cases hTake
  constructor
  case tidy => exact ⟨h.allocateBatch hSlab maxCount, h.once_store h.once hSlab (h.shaped.cut hSlab).memory⟩
  case slabs => simp
  case slabSize => simp
  case allocated => simp

theorem fetchPartial_gives {keys : List Nat} {n : Nat} (h : c.Tidy outstanding)
    (hKeys : ∀ key ∈ keys, key ∈ c.slabs) (hFetch : fetchPartial keys n c = (out, after)) :
    Gives c after out outstanding := by
  induction keys generalizing c outstanding out n with
  | nil =>
      cases hFetch
      exact ⟨h, rfl, rfl, rfl⟩
  | cons key rest ih =>
      cases n with
      | zero =>
          cases hFetch
          exact ⟨h, rfl, rfl, rfl⟩
      | succ n =>
          obtain ⟨s, hSlab⟩ := h.keys.mp (hKeys key (List.mem_cons_self ..))
          cases hTake : c.takeFrom key (n + 1) with
          | mk first middle =>
              cases hRest : fetchPartial rest (n + 1 - first.length) middle with
              | mk more last =>
                  simp only [fetchPartial, hTake, hRest, Prod.mk.injEq] at hFetch
                  obtain ⟨rfl, rfl⟩ := hFetch
                  have hFirst := takeFrom_gives h hSlab hTake
                  apply hFirst.trans (ih hFirst.tidy _ hRest)
                  intro k hk
                  rw [hFirst.slabs]
                  exact hKeys k (List.mem_cons_of_mem _ hk)

theorem Tidy.mem_slabs (h : c.Tidy outstanding) (hListed : key ∈ c.partialSlabs) : key ∈ c.slabs :=
  h.keys.mpr (h.shaped.listed hListed)

theorem slabMap_addSlab (c : CentralCache) (memory : Nat) :
    (c.addSlab memory).slabMap memory = some (.create memory c.blockSize c.slabSize) := by
  simp [CentralCache.addSlab]

theorem fetchBatch_tidy {batchSize : Nat} (h : c.Tidy outstanding) (hAligned : memory % c.slabSize = 0)
    (hFresh : c.slabMap memory = none) (hFetch : c.fetchBatch memory batchSize = (out, after)) :
    after.Tidy (out ++ outstanding) ∧ after.allocatedBlocks = c.allocatedBlocks + out.length := by
  cases hFirst : fetchPartial c.partialSlabs batchSize c with
  | mk first middle =>
      have hGives := fetchPartial_gives h (fun key hk => h.mem_slabs hk) hFirst
      cases hMissing : batchSize - first.length with
      | zero =>
          simp only [fetchBatch, hFirst, hMissing, fetchNew, List.append_nil, Prod.mk.injEq] at hFetch
          obtain ⟨rfl, rfl⟩ := hFetch
          exact ⟨hGives.tidy.recount _, by simp [hGives.allocated]⟩
      | succ missing =>
          cases hNew : (middle.addSlab memory).takeFrom memory (missing + 1) with
          | mk more last =>
              simp only [fetchBatch, hFirst, hMissing, fetchNew, hNew, Prod.mk.injEq] at hFetch
              obtain ⟨rfl, rfl⟩ := hFetch
              have hAdded := hGives.tidy.addSlab (by rwa [hGives.slabSize]) (hGives.slabMap_eq_none h hFresh)
              have hLast := takeFrom_gives hAdded (slabMap_addSlab ..) hNew
              have hTidy : last.Tidy (first ++ more ++ outstanding) := by
                refine ⟨hLast.tidy.toBalanced.perm ?_, hLast.tidy.once⟩
                rw [List.append_assoc]
                exact List.perm_append_comm_assoc ..
              exact ⟨hTidy.recount _, congrArg (· + _) (hLast.allocated.trans hGives.allocated)⟩

/-- A slab with a free block gives one. -/
theorem takeFrom_one (hSlab : c.slabMap key = some s) (hFree : s.freeList ≠ [])
    (hTake : c.takeFrom key 1 = (out, after)) : ∃ p, out = [p] := by
  rw [takeFrom_eq hSlab, Prod.mk.injEq] at hTake
  obtain ⟨first, rest, hList⟩ := List.exists_cons_of_ne_nil hFree
  refine ⟨first, hTake.1.symm.trans ?_⟩
  show (s.freeList.popBatch 1).1 = _
  rw [hList, FreeList.popBatch_eq]
  rfl

theorem Balanced.free_of_partial (h : c.Balanced outstanding) (hSlab : c.slabMap key = some s)
    (hState : s.state = .partially) : s.freeList ≠ [] := by
  intro hNil
  have hUsed := h.used hSlab
  rw [hNil, List.length_nil, Nat.add_zero] at hUsed
  simp only [Slab.state, hUsed, if_true] at hState
  split at hState <;> cases hState

theorem Balanced.free_of_new (h : (c.addSlab memory).Balanced outstanding) :
    (Slab.create memory c.blockSize c.slabSize).freeList ≠ [] := by
  intro hNil
  have hUsed := h.used (slabMap_addSlab c memory)
  rw [h.totalBlocks_eq (slabMap_addSlab c memory), hNil] at hUsed
  exact Nat.ne_of_lt h.totalBlocks_pos hUsed

theorem allocate_tidy {ptr : Option Nat} (h : c.Tidy outstanding) (hAligned : memory % c.slabSize = 0)
    (hFresh : c.slabMap memory = none) (hAllocate : c.allocate memory = (ptr, after)) :
    ∃ p, ptr = some p ∧ after.Tidy (p :: outstanding) ∧ after.allocatedBlocks = c.allocatedBlocks + 1 := by
  cases hListed : c.partialSlabs with
  | nil =>
      have hAdded := h.addSlab hAligned hFresh
      rw [allocate_new hListed] at hAllocate
      cases hTake : (c.addSlab memory).takeFrom memory 1 with
      | mk out middle =>
          obtain ⟨p, rfl⟩ := takeFrom_one (slabMap_addSlab ..) hAdded.free_of_new hTake
          rw [hTake] at hAllocate
          cases hAllocate
          exact ⟨p, rfl, (takeFrom_gives hAdded (slabMap_addSlab ..) hTake).tidy.recount _, rfl⟩
  | cons first rest =>
      have hMem : first ∈ c.partialSlabs := by simp [hListed]
      obtain ⟨s, hSlab⟩ := h.shaped.listed hMem
      rw [allocate_listed hListed hSlab] at hAllocate
      cases hTake : c.takeFrom first 1 with
      | mk out middle =>
          obtain ⟨p, rfl⟩ := takeFrom_one hSlab (h.free_of_partial hSlab ((h.listed hSlab).mp hMem)) hTake
          rw [hTake] at hAllocate
          cases hAllocate
          exact ⟨p, rfl, (takeFrom_gives h hSlab hTake).tidy.recount _, rfl⟩

theorem Tidy.deallocate (h : c.Tidy outstanding) (hMem : p ∈ outstanding) (hFind : c.findSlab p = some s) :
    (c.store s (s.deallocate p)).Tidy (outstanding.erase p) :=
  ⟨h.toBalanced.deallocate hMem hFind, h.once_store h.once hFind (h.shaped.cut hFind).memory⟩

theorem returnLoop_tidy {blocks : List Nat} {returned : Nat} (h : c.Tidy outstanding)
    (hOut : blocks.Subperm outstanding) (hLoop : returnLoop blocks c = (returned, after)) :
    after.Tidy (outstanding.diff blocks) ∧ after.allocatedBlocks = c.allocatedBlocks ∧
      returned = blocks.length := by
  induction blocks generalizing c outstanding returned with
  | nil =>
      cases hLoop
      exact ⟨h, rfl, rfl⟩
  | cons ptr rest ih =>
      have hMem : ptr ∈ outstanding := hOut.subset (List.mem_cons_self ..)
      obtain ⟨s, hFind, _⟩ := h.found hMem
      have hSubperm : rest.Subperm (outstanding.erase ptr) := by
        simpa using hOut.erase ptr
      cases hRest : returnLoop rest (c.store s (s.deallocate ptr)) with
      | mk more last =>
          simp only [returnLoop, hFind, hRest, Prod.mk.injEq] at hLoop
          obtain ⟨rfl, rfl⟩ := hLoop
          obtain ⟨hTidy, hAllocated, hMore⟩ := ih (h.deallocate hMem hFind) hSubperm hRest
          rw [List.diff_cons]
          exact ⟨hTidy, hAllocated.trans (allocatedBlocks_store ..), by rw [hMore, List.length_cons]⟩

/-- `usedCount_` of a slab of the cache. -/
def usedCount (c : CentralCache) (key : Nat) : Nat :=
  match c.slabMap key with
  | none => 0
  | some s => s.usedCount

/-- The blocks in use are the blocks that are out. -/
theorem Balanced.sum_usedCount (h : c.Balanced outstanding) :
    (c.slabs.map c.usedCount).sum = outstanding.length := by
  have hCount : ∀ keys : List Nat, keys.Nodup → (∀ key ∈ keys, ∃ s, c.slabMap key = some s) →
      (keys.map c.usedCount).sum = outstanding.countP (fun p => c.mask p ∈ keys) := by
    intro keys hNodup hKeys
    induction keys with
    | nil => simp
    | cons key rest ih =>
        obtain ⟨hFresh, hRest⟩ := List.nodup_cons.mp hNodup
        obtain ⟨s, hSlab⟩ := hKeys key (List.mem_cons_self ..)
        rw [Balanced.countP_mem_cons c.mask hFresh, List.map_cons, List.sum_cons,
          ih hRest fun k hk => hKeys k (List.mem_cons_of_mem _ hk), h.counted hSlab]
        simp [usedCount, hSlab]
  rw [hCount c.slabs h.nodup fun key hk => h.keys.mp hk]
  apply List.countP_eq_length.mpr
  intro p hp
  obtain ⟨s, hFind, _⟩ := h.found hp
  simpa using h.keys.mpr ⟨s, hFind⟩

section Iteration

/-- The node behind a node of the list, if it is not the last one. -/
def nextNode (list : List Nat) (key : Nat) : Option Nat := (list.dropWhile (· ≠ key)).tail.head?

/-- The first loop of `fetchBatch` as it is written: `it` walks along the list while
`transitionState` changes it. The loop fails where `it` is not in the list any more. -/
def iterate : Nat → Option Nat → Nat → CentralCache → Option (List Nat × CentralCache)
  | _, none, _, c => some ([], c)
  | _, some _, 0, c => some ([], c)
  | 0, some _, _ + 1, _ => none
  | turns + 1, some it, missing + 1, c =>
      if it ∈ c.partialSlabs then
        let next := nextNode c.partialSlabs it
        let (out, c) := c.takeFrom it (missing + 1)
        match iterate turns next (missing + 1 - out.length) c with
        | none => none
        | some (more, c) => some (out ++ more, c)
      else none

theorem nextNode_append {passed rest : List Nat} (hOnce : (passed ++ key :: rest).Nodup) :
    nextNode (passed ++ key :: rest) key = rest.head? := by
  have hPassed : ∀ k ∈ passed, decide (k ≠ key) = true := by
    intro k hk
    rw [List.nodup_append] at hOnce
    simpa using hOnce.2.2 k hk key (List.mem_cons_self ..)
  rw [nextNode, List.dropWhile_append_of_pos hPassed, List.dropWhile_cons_of_neg (by simp), List.tail_cons]

/-- Blocks taken from a partial slab leave it on the list, or take it off the list. -/
theorem partialSlabs_takeFrom (h : c.Tidy outstanding) {passed rest : List Nat}
    (hList : c.partialSlabs = passed ++ key :: rest) (hTake : c.takeFrom key maxCount = (out, after)) :
    ∃ before, after.partialSlabs = before ++ rest := by
  have hMem : key ∈ c.partialSlabs := by simp [hList]
  obtain ⟨s, hSlab⟩ := h.shaped.listed hMem
  have hState := (h.listed hSlab).mp hMem
  have hMemory : (s.allocateBatch maxCount).2.memory = key := (h.shaped.cut hSlab).memory
  have hFilter : (passed ++ key :: rest).filter (· ≠ key) = passed ++ rest := by
    have hOnce := h.once
    rw [hList, List.nodup_append, List.nodup_cons] at hOnce
    obtain ⟨_, ⟨hRest, _⟩, hPassed⟩ := hOnce
    rw [List.filter_append, List.filter_cons_of_neg (by simp), List.filter_eq_self.mpr, List.filter_eq_self.mpr]
    · intro k hk
      simpa using ne_of_mem_of_not_mem hk hRest
    · intro k hk
      simpa using hPassed k hk key (List.mem_cons_self ..)
  rw [takeFrom_eq hSlab] at hTake
  cases hTake
  rw [partialSlabs_store, hMemory, hState, hList]
  split
  · exact ⟨passed ++ [key], by simp⟩
  · rename_i hLeft
    rw [if_pos rfl, if_neg fun hStays => hLeft hStays.symm, List.append_nil, hFilter]
    exact ⟨passed, rfl⟩

/-- The loop never steps on a node that has left the list, and takes from the slabs that were
partial at its begin. -/
theorem iterate_eq (h : c.Tidy outstanding) {passed rest : List Nat} {turns n : Nat}
    (hList : c.partialSlabs = passed ++ rest) (hTurns : rest.length ≤ turns) :
    iterate turns rest.head? n c = some (fetchPartial rest n c) := by
  induction rest generalizing c outstanding passed turns n with
  | nil => cases turns <;> rfl
  | cons key rest ih =>
      cases n with
      | zero => cases turns <;> rfl
      | succ n =>
          obtain ⟨turns, rfl⟩ := Nat.exists_eq_add_one_of_ne_zero (Nat.ne_of_gt (Nat.lt_of_lt_of_le
            (Nat.succ_pos _) hTurns))
          have hMem : key ∈ c.partialSlabs := by simp [hList]
          obtain ⟨s, hSlab⟩ := h.shaped.listed hMem
          have hNext : nextNode c.partialSlabs key = rest.head? := by
            rw [hList]
            exact nextNode_append (hList ▸ h.once)
          cases hTake : c.takeFrom key (n + 1) with
          | mk first middle =>
              obtain ⟨before, hBefore⟩ := partialSlabs_takeFrom h hList hTake
              have hRest := ih (n := n + 1 - first.length) (takeFrom_gives h hSlab hTake).tidy hBefore
                (Nat.le_of_succ_le_succ hTurns)
              simp only [List.head?_cons, iterate, if_pos hMem, hNext, hTake, hRest, fetchPartial]

end Iteration

end CentralCache

namespace Usage

/-- What a cache writes down about its slabs. -/
structure Booked (u : Usage) : Prop where
  listed : ∀ key, key ∈ u.cache.partialSlabs ↔ ∃ s, u.cache.slabMap key = some s ∧ s.state = .partially
  once : u.cache.partialSlabs.Nodup
  used : ∀ key s, u.cache.slabMap key = some s → s.usedCount + s.freeList.length = s.totalBlocks
  /-- A slab only hands out blocks that are found in it again. -/
  home : ∀ key s, u.cache.slabMap key = some s → ∀ p ∈ s.freeList, u.cache.findSlab p = some s
  found : ∀ p ∈ u.outstanding, ∃ s, u.cache.findSlab p = some s ∧ p ∈ s.blocks
  allocated : u.cache.allocatedBlocks = (u.cache.slabs.map u.cache.usedCount).sum
  /-- What is subtracted from `allocatedBlocks_` is never more than it. -/
  deallocates : ∀ p ∈ u.outstanding, 1 ≤ u.cache.allocatedBlocks
  returns : ∀ blocks, blocks.Subperm u.outstanding →
    (CentralCache.returnLoop blocks u.cache).1 ≤ u.cache.allocatedBlocks
  /-- The first loop of `fetchBatch` goes over the slabs that were partial when it began. -/
  iterates : ∀ batchSize, CentralCache.iterate u.cache.partialSlabs.length u.cache.partialSlabs.head? batchSize
    u.cache = some (CentralCache.fetchPartial u.cache.partialSlabs batchSize u.cache)

/-- Between two calls. -/
structure Recorded (u : Usage) : Prop where
  tidy : u.cache.Tidy u.outstanding
  allocated : u.cache.allocatedBlocks = u.outstanding.length

variable {u u' : Usage} {op : CentralOp}

theorem Recorded.step (h : u.Recorded) (hStep : Usage.step op u = some u') : u'.Recorded := by
  cases op with
  | allocate memory =>
      obtain ⟨⟨hAligned, hFresh⟩, hAfter⟩ := Option.ite_none_right_eq_some.mp hStep
      cases hAllocate : u.cache.allocate memory with
      | mk ptr after =>
          obtain ⟨p, rfl, hTidy, hCount⟩ := CentralCache.allocate_tidy h.tidy hAligned
            (Option.isNone_iff_eq_none.mp hFresh) hAllocate
          rw [hAllocate] at hAfter
          cases hAfter
          exact ⟨hTidy, hCount.trans (congrArg (· + 1) h.allocated)⟩
  | deallocate ptr =>
      obtain ⟨hMem, hAfter⟩ := Option.ite_none_right_eq_some.mp hStep
      cases hAfter
      obtain ⟨s, hFind, _⟩ := h.tidy.found hMem
      have hCall : u.cache.deallocate ptr = { u.cache.store s (s.deallocate ptr) with
          allocatedBlocks := u.cache.allocatedBlocks - 1 } := by
        rw [CentralCache.deallocate, hFind]
      constructor
      · show (u.cache.deallocate ptr).Tidy _
        rw [hCall]
        exact (h.tidy.deallocate hMem hFind).recount _
      · show (u.cache.deallocate ptr).allocatedBlocks = (u.outstanding.erase ptr).length
        rw [hCall, List.length_erase_of_mem hMem, ← h.allocated]
  | fetchBatch memory batchSize =>
      obtain ⟨⟨hAligned, hFresh, _⟩, hAfter⟩ := Option.ite_none_right_eq_some.mp hStep
      cases hFetch : u.cache.fetchBatch memory batchSize with
      | mk out after =>
          obtain ⟨hTidy, hCount⟩ := CentralCache.fetchBatch_tidy h.tidy hAligned
            (Option.isNone_iff_eq_none.mp hFresh) hFetch
          rw [hFetch] at hAfter
          cases hAfter
          refine ⟨hTidy, ?_⟩
          show after.allocatedBlocks = (out ++ u.outstanding).length
          rw [hCount, h.allocated, List.length_append, Nat.add_comm]
  | returnBatch blocks =>
      obtain ⟨hOut, hAfter⟩ := Option.ite_none_right_eq_some.mp hStep
      cases hAfter
      cases hLoop : CentralCache.returnLoop blocks u.cache with
      | mk returned after =>
          obtain ⟨hTidy, hCount, rfl⟩ := CentralCache.returnLoop_tidy h.tidy hOut hLoop
          have hCall : u.cache.returnBatch blocks =
              { after with allocatedBlocks := after.allocatedBlocks - blocks.length } := by
            rw [CentralCache.returnBatch, hLoop]
          constructor
          · show (u.cache.returnBatch blocks).Tidy _
            rw [hCall]
            exact hTidy.recount _
          · show (u.cache.returnBatch blocks).allocatedBlocks = (u.outstanding.diff blocks).length
            have hBack := (List.subperm_append_diff_self_of_count_le fun p _ => hOut.count_le p).length_eq
            rw [List.length_append] at hBack
            rw [hCall]
            show after.allocatedBlocks - blocks.length = _
            rw [hCount, h.allocated]
            omega

end Usage

end Memory
