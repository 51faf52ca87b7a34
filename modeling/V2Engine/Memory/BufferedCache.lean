import V2Engine.Memory.PoolBalance
import V2Engine.Memory.StackBuffer

/-! A thread's cache with the buffers on the stack that carry blocks to the central caches and
back (core/common/memory/thread_local_cache.hpp). An operation fails where it indexes its buffer
out of range or an assertion of it does not hold. -/
namespace Memory

open SizeClass

namespace CentralCache

variable {c after : CentralCache} {out : List Nat} {key memory n p : Nat}

/-- Blocks are handed out, all of them blocks of slabs, and no block ceases to be one. -/
structure Serves (c after : CentralCache) (out : List Nat) : Prop where
  kept : ∀ p, c.Block p → after.Block p
  out : ∀ p ∈ out, after.Block p
  slabs : after.slabs = c.slabs

theorem Serves.trans {middle : CentralCache} {more : List Nat} (first : Serves c middle out)
    (second : Serves middle after more) : Serves c after (out ++ more) where
  kept p hBlock := second.kept p (first.kept p hBlock)
  out p hp := (List.mem_append.mp hp).elim (fun hFirst => second.kept p (first.out p hFirst)) (second.out p)
  slabs := second.slabs.trans first.slabs

theorem takeFrom_serves (h : c.Shaped) (hTake : c.takeFrom key n = (out, after)) :
    Serves c after out ∧ out.length ≤ n := by
  unfold takeFrom at hTake
  split at hTake
  · cases hTake
    exact ⟨⟨fun _ => id, nofun, rfl⟩, Nat.zero_le _⟩
  · rename_i s hSlab
    cases hTake
    have hSame : ∀ p, (c.store s (s.allocateBatch n).2).Block p ↔ c.Block p :=
      fun p => block_store hSlab rfl (h.cut hSlab).memory
    refine ⟨⟨fun p => (hSame p).mpr, fun p hp => (hSame p).mpr ?_, by simp⟩, ?_⟩
    · exact (h.block hSlab (h.taken hSlab hp)).2
    · show (s.freeList.popBatch n).1.length ≤ n
      rw [FreeList.popBatch_eq]
      exact List.length_take_le ..

theorem fetchPartial_serves {keys : List Nat} (h : c.Indexed) (hFetch : fetchPartial keys n c = (out, after)) :
    Serves c after out ∧ out.length ≤ n := by
  induction keys generalizing c out n with
  | nil =>
      cases hFetch
      exact ⟨⟨fun _ => id, nofun, rfl⟩, Nat.zero_le _⟩
  | cons key rest ih =>
      cases n with
      | zero =>
          cases hFetch
          exact ⟨⟨fun _ => id, nofun, rfl⟩, Nat.le_refl _⟩
      | succ n =>
          cases hTake : c.takeFrom key (n + 1) with
          | mk first middle =>
              cases hRest : fetchPartial rest (n + 1 - first.length) middle with
              | mk more last =>
                  have hIndexed : middle.Indexed := by
                    have hOne : fetchPartial [key] (n + 1) c = (first, middle) := by
                      simp [fetchPartial, hTake]
                    exact (fetchPartial_supplied h hOne).1.indexed
                  simp only [fetchPartial, hTake, hRest, Prod.mk.injEq] at hFetch
                  obtain ⟨rfl, rfl⟩ := hFetch
                  obtain ⟨hFirst, hLength⟩ := takeFrom_serves h.shaped hTake
                  obtain ⟨hLater, hMore⟩ := ih hIndexed hRest
                  refine ⟨hFirst.trans hLater, ?_⟩
                  rw [List.length_append]
                  omega

/-- A batch is no larger than asked for. -/
theorem fetchBatch_serves (h : c.Indexed) (hAligned : memory % c.slabSize = 0)
    (hFresh : c.slabMap memory = none) (hFetch : c.fetchBatch memory n = (out, after)) :
    (∀ p, c.Block p → after.Block p) ∧ (∀ p ∈ out, after.Block p) ∧ out.length ≤ n := by
  cases hFirst : fetchPartial c.partialSlabs n c with
  | mk first middle =>
      obtain ⟨hServes, hLength⟩ := fetchPartial_serves h hFirst
      have hSupplied := (fetchPartial_supplied h hFirst).1
      cases hMissing : n - first.length with
      | zero =>
          simp only [fetchBatch, hFirst, hMissing, fetchNew, List.append_nil, Prod.mk.injEq] at hFetch
          obtain ⟨rfl, rfl⟩ := hFetch
          exact ⟨hServes.kept, hServes.out, hLength⟩
      | succ missing =>
          cases hNew : (middle.addSlab memory).takeFrom memory (missing + 1) with
          | mk more last =>
              simp only [fetchBatch, hFirst, hMissing, fetchNew, hNew, Prod.mk.injEq] at hFetch
              obtain ⟨rfl, rfl⟩ := hFetch
              have hNone : middle.slabMap memory = none := by
                rw [← Option.not_isSome_iff_eq_none, Option.isSome_iff_exists, ← hSupplied.indexed.keys,
                  hServes.slabs, h.keys, hFresh]
                rintro ⟨s, hSlab⟩
                cases hSlab
              have hShaped := hSupplied.indexed.shaped.addSlab (by rwa [hSupplied.sizes.2]) hNone
              obtain ⟨hLater, hMore⟩ := takeFrom_serves hShaped hNew
              have hKept : ∀ p, middle.Block p → last.Block p :=
                fun p hBlock => hLater.kept p (block_addSlab hNone hBlock)
              refine ⟨fun p hBlock => hKept p (hServes.kept p hBlock), fun p hp => ?_, ?_⟩
              · rcases List.mem_append.mp hp with hOld | hMem
                · exact hKept p (hServes.out p hOld)
                · exact hLater.out p hMem
              · rw [List.length_append]
                omega

/-- Blocks come back, and all of them are accepted. -/
theorem returnBatch_serves {blocks : List Nat} (h : c.Indexed) (hBlocks : ∀ ptr ∈ blocks, c.Block ptr) :
    (c.returnBatch blocks).Indexed ∧ (∀ p, c.Block p → (c.returnBatch blocks).Block p) ∧
      (returnLoop blocks c).1 = blocks.length := by
  obtain ⟨hIndexed, _, _, hCount⟩ := returnBatch_supplied h hBlocks
  refine ⟨hIndexed, fun p hBlock => ?_, ?_⟩
  · apply block_of_cut
    rw [(hCount p).2, cut_of_block h.shaped.positive h.shaped hBlock]
    exact Nat.one_pos
  · cases hLoop : returnLoop blocks c with
    | mk returned after => exact (returnLoop_supplied h hBlocks hLoop).2.2.2.1

end CentralCache

namespace ThreadLocalCache

abbrev Buffer := StackBuffer Nat kMaxBatchSize

/-- `fetchFromCentral` with its buffer. `central_` is null before the first use. -/
def fetchBuffered (cache : ThreadLocalCache) (idx : Fin kNumSizeClasses) (central : CentralCache)
    (memory : Nat) : Option (Option Nat × ThreadLocalCache × CentralCache) :=
  if cache.initialized then
    let (out, central) := central.fetchBatch memory (batchSize idx)
    match (StackBuffer.empty : Buffer).fill 0 out with
    | none => none
    | some buf =>
        if out.length = 0 then some (none, cache, central)
        else
          match buf.slice 1 (out.length - 1), buf.read 0 with
          | some rest, some first =>
              some (some first, cache.set idx ((cache.caches idx).pushBatch rest), central)
          | _, _ => none
  else none

/-- The loop of `returnToCentral` that fills the buffer. A null pointer is no block. -/
def popInto (buf : Buffer) (i : Nat) : Nat → FreeList → Option (Buffer × FreeList)
  | 0, list => some (buf, list)
  | _ + 1, [] => none
  | n + 1, block :: list =>
      match buf.write i block with
      | none => none
      | some buf => popInto buf (i + 1) n list

/-- `returnToCentral` with its buffer and its assertion. -/
def returnBuffered (cache : ThreadLocalCache) (idx : Fin kNumSizeClasses) (central : CentralCache) :
    Option (ThreadLocalCache × CentralCache) :=
  if cache.initialized then
    let returnCount := if (cache.caches idx).length < batchSize idx then (cache.caches idx).length else batchSize idx
    match popInto StackBuffer.empty 0 returnCount (cache.caches idx) with
    | none => none
    | some (buf, left) =>
        match buf.slice 0 returnCount with
        | none => none
        | some blocks =>
            if (CentralCache.returnLoop blocks central).1 = returnCount then
              some (cache.set idx left, central.returnBatch blocks)
            else none
  else none

/-- One turn of the inner loop of `drainAll` with its buffer. -/
def drainBuffered (cache : ThreadLocalCache) (idx : Fin kNumSizeClasses) (central : CentralCache) :
    Option (Option (ThreadLocalCache × CentralCache)) :=
  let (ptrs, left) := (cache.caches idx).popBatch kMaxBatchSize
  match (StackBuffer.empty : Buffer).fill 0 ptrs with
  | none => none
  | some buf =>
      if ptrs.length = 0 then some none
      else
        match buf.slice 0 ptrs.length with
        | none => none
        | some blocks => some (some (cache.set idx left, central.returnBatch blocks))

variable {cache : ThreadLocalCache} {idx : Fin kNumSizeClasses} {central : CentralCache} {memory : Nat}

theorem fetchBuffered_eq (hInit : cache.initialized = true)
    (hLength : (central.fetchBatch memory (batchSize idx)).1.length ≤ kMaxBatchSize) :
    cache.fetchBuffered idx central memory = some (cache.fetchFromCentral idx central memory) := by
  unfold fetchBuffered fetchFromCentral
  rw [if_pos hInit]
  cases hBatch : central.fetchBatch memory (batchSize idx) with
  | mk out after =>
      rw [hBatch] at hLength
      obtain ⟨buf, hFill, hRead, _⟩ := StackBuffer.fill_spec StackBuffer.empty (i := 0) (by simpa using hLength)
      dsimp only
      rw [hFill]
      cases out with
      | nil => rfl
      | cons first rest =>
          have hFirst : buf.read 0 = some first := hRead 0 (Nat.succ_pos _)
          have hRest : buf.slice 1 rest.length = some rest := by
            apply StackBuffer.slice_of_read
            intro k hk
            have hLater := hRead (k + 1) (Nat.succ_lt_succ hk)
            rw [List.getElem_cons_succ, show 0 + (k + 1) = 1 + k by omega] at hLater
            exact hLater
          have hSome : (first :: rest).length ≠ 0 := Nat.succ_ne_zero _
          dsimp only
          rw [if_neg hSome, List.length_cons, Nat.add_sub_cancel, hRest, hFirst]

theorem popInto_eq {buf : Buffer} {i n : Nat} {list : FreeList} (h : n ≤ list.length) :
    popInto buf i n list = (buf.fill i (list.take n)).map fun filled => (filled, list.drop n) := by
  induction n generalizing buf i list with
  | zero => rfl
  | succ n ih =>
      cases list with
      | nil => exact absurd h (Nat.not_succ_le_zero n)
      | cons block list =>
          rw [popInto, List.take_succ_cons, StackBuffer.fill, List.drop_succ_cons]
          cases buf.write i block with
          | none => rfl
          | some buf => exact ih (Nat.le_of_succ_le_succ h)

theorem returnBuffered_eq (hInit : cache.initialized = true)
    (hAccepts : ∀ blocks ⊆ cache.caches idx, (CentralCache.returnLoop blocks central).1 = blocks.length) :
    cache.returnBuffered idx central = some (cache.returnToCentral idx central) := by
  unfold returnBuffered returnToCentral
  rw [if_pos hInit]
  dsimp only
  generalize hCount : (if (cache.caches idx).length < batchSize idx then (cache.caches idx).length
    else batchSize idx) = returnCount
  have hBatch := (batchSize_bounds idx).2
  have hCounts : returnCount ≤ (cache.caches idx).length ∧ returnCount ≤ 64 := by
    split at hCount <;> omega
  have hTaken : ((cache.caches idx).take returnCount).length = returnCount := List.length_take_of_le hCounts.1
  obtain ⟨buf, hFill, hSlice⟩ := StackBuffer.slice_fill (i := 0) (StackBuffer.empty : Buffer)
    ((cache.caches idx).take returnCount) (by rw [hTaken, Nat.zero_add]; exact hCounts.2)
  rw [hTaken] at hSlice
  rw [popInto_eq hCounts.1, hFill, Option.map_some]
  dsimp only
  rw [hSlice]
  dsimp only
  rw [hAccepts _ (List.take_subset ..), hTaken, if_pos rfl, FreeList.popBatch_eq]

theorem drainBuffered_eq : cache.drainBuffered idx central = some (cache.drainBatch idx central) := by
  unfold drainBuffered drainBatch
  rw [FreeList.popBatch_eq]
  obtain ⟨buf, hFill, hSlice⟩ := StackBuffer.slice_fill (i := 0) (StackBuffer.empty : Buffer)
    ((cache.caches idx).take kMaxBatchSize) (by rw [Nat.zero_add]; exact List.length_take_le ..)
  dsimp only
  rw [hFill]
  dsimp only
  cases hTaken : (cache.caches idx).take kMaxBatchSize with
  | nil => rfl
  | cons first rest =>
      rw [hTaken] at hSlice
      have hSome : (first :: rest).length ≠ 0 := Nat.succ_ne_zero _
      rw [if_neg hSome, hSlice]

end ThreadLocalCache

end Memory
