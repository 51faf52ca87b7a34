import V2Engine.Interleaving.Ledger
import V2Engine.Memory.PoolLayout

/-! Where the blocks of a pool are. For each size class and each address a ledger adds what
is on the free list of a slab, on the lists of the threads, and in the hands of callers;
it comes to one for the blocks of slabs and to nothing for all other addresses. -/
namespace Memory

open Interleaving SizeClass

namespace Heap

def free (heap : Heap) (idx : Fin kNumSizeClasses) (p : Nat) : Nat := (heap.pool.central idx).free p

def cut (heap : Heap) (idx : Fin kNumSizeClasses) (p : Nat) : Nat := (heap.pool.central idx).cut p

/-- How many callers hold the address as a block of the class. -/
def held (heap : Heap) (idx : Fin kNumSizeClasses) (p : Nat) : Nat :=
  heap.live.countP fun a =>
    heap.pool.serves a.size a.alignment ∧ index (adjusted a.size) = idx ∧ a.ptr = p

/-- The blocks that are not with threads. -/
def balance (idx : Fin kNumSizeClasses) (p : Nat) (heap : Heap) : Int :=
  heap.free idx p + heap.held idx p - heap.cut idx p

end Heap

/-- A thread's copies of an address. -/
def Place.count (here : Place) (idx : Fin kNumSizeClasses) (p : Nat) : Nat :=
  (here.cache.caches idx).count p

section Counts

variable (heap : Heap) (idx i : Fin kNumSizeClasses) (ptr size alignment p : Nat) (central : CentralCache)

theorem Heap.held_give : (heap.give ptr size alignment).held i p = heap.held i p +
    if heap.pool.serves size alignment ∧ index (adjusted size) = i ∧ ptr = p then 1 else 0 := by
  show List.countP _ (_ :: heap.live) = _
  rw [List.countP_cons]
  simp only [decide_eq_true_eq]
  rfl

theorem Heap.held_erase {a : Allocation} (hMem : a ∈ heap.live) :
    ({ heap with live := heap.live.erase a } : Heap).held i p +
      (if heap.pool.serves a.size a.alignment ∧ index (adjusted a.size) = i ∧ a.ptr = p then 1 else 0) =
    heap.held i p := by
  unfold held
  rw [(List.perm_cons_erase hMem).countP_eq, List.countP_cons]
  simp only [decide_eq_true_eq]

@[simp] theorem Heap.held_setCentral : (heap.setCentral idx central).held i p = heap.held i p := rfl

theorem Heap.central_setCentral : (heap.setCentral idx central).pool.central i =
    if i = idx then central else heap.pool.central i :=
  Function.update_apply ..

theorem Place.count_set (cache : ThreadLocalCache) (list : FreeList) (call : Call) :
    Place.count ⟨cache.set idx list, call⟩ i p =
      if i = idx then list.count p else (cache.caches i).count p := by
  unfold Place.count ThreadLocalCache.set
  dsimp only
  rw [Function.update_apply]
  split <;> rfl

end Counts

/-- The facts about the central caches that no step of a thread breaks. -/
structure Heap.Ready (heap : Heap) : Prop where
  limit : heap.pool.maxAllocSize ≤ kMaxAllocSize
  power : ∃ k, heap.pool.slabSize = 2 ^ k
  room : kMaxAllocSize ≤ heap.pool.slabSize
  indexed : ∀ idx, (heap.pool.central idx).Indexed
  sizes : ∀ idx, (heap.pool.central idx).blockSize = blockSize idx ∧
    (heap.pool.central idx).slabSize = heap.pool.slabSize
  layout : heap.Layout

/-- What a thread's own place says about its lists. -/
def Place.Fits (heap : Heap) (here : Place) : Prop :=
  (here.cache.initialized = false → ∀ idx, here.cache.caches idx = []) ∧
    match here.call with
    | .fetching size alignment => heap.pool.serves size alignment ∧ here.cache.initialized = true ∧
        2 ^ alignment.log2 = alignment
    | .draining i => ∀ idx, idx.val < i → here.cache.caches idx = []
    | .gone => ∀ idx, here.cache.caches idx = []
    | _ => True

/-- What one step does to the ledgers. -/
structure Moved (heap : Heap) (here : Place) (heap' : Heap) (here' : Place) : Prop where
  ready : heap'.Ready
  same : heap'.pool.maxAllocSize = heap.pool.maxAllocSize ∧ heap'.pool.slabSize = heap.pool.slabSize
  fits : here'.Fits heap'
  asked : ∀ a ∈ heap'.live, a ∈ heap.live ∨ heap.Granted a
  count : ∀ idx p, heap'.free idx p + heap'.held idx p + here'.count idx p + heap.cut idx p =
    heap.free idx p + heap.held idx p + here.count idx p + heap'.cut idx p

namespace MemoryPool

variable {heap heap' : Heap} {here here' : Place} {choice : Choice} {idx : Fin kNumSizeClasses}
  {central : CentralCache} {Θ : Type*} {t : Θ}

theorem ready_setCentral (h : heap.Ready) (hIndexed : central.Indexed)
    (hSizes : central.blockSize = (heap.pool.central idx).blockSize ∧
      central.slabSize = (heap.pool.central idx).slabSize)
    (hLayout : (heap.setCentral idx central).Layout) : (heap.setCentral idx central).Ready := by
  constructor
  case limit => exact h.limit
  case power => exact h.power
  case room => exact h.room
  case indexed =>
    intro i
    rw [Heap.central_setCentral]
    split
    · exact hIndexed
    · exact h.indexed i
  case sizes =>
    intro i
    rw [Heap.central_setCentral]
    split
    · rename_i hi
      subst hi
      exact ⟨hSizes.1.trans (h.sizes i).1, hSizes.2.trans (h.sizes i).2⟩
    · exact h.sizes i
  case layout => exact hLayout

theorem ready_give (h : heap.Ready) {ptr size alignment : Nat}
    (hLayout : (heap.give ptr size alignment).Layout) : (heap.give ptr size alignment).Ready :=
  ⟨h.limit, h.power, h.room, h.indexed, h.sizes, hLayout⟩

theorem adjusted_le (h : heap.Ready) {size alignment : Nat} (hServes : heap.pool.serves size alignment) :
    adjusted size ≤ kMaxAllocSize :=
  hServes.1.trans h.limit

theorem asked_give {ptr size alignment : Nat} (hPower : 2 ^ alignment.log2 = alignment)
    (hAligned : ¬heap.pool.serves size alignment → ptr % largeAlign alignment = 0) (a : Allocation)
    (hMem : a ∈ (heap.give ptr size alignment).live) : a ∈ heap.live ∨ heap.Granted a := by
  rcases List.mem_cons.mp hMem with rfl | hOld
  · exact .inr ⟨hPower, hAligned⟩
  · exact .inl hOld

/-- A block goes from a thread's own list to the caller. -/
theorem moved_pop (h : heap.Ready) {size alignment ptr : Nat} {rest : List Nat}
    (hPower : 2 ^ alignment.log2 = alignment) (hServes : heap.pool.serves size alignment)
    (hList : here.cache.caches (index (adjusted size)) = ptr :: rest) :
    Moved heap here (heap.give ptr size alignment)
      ⟨here.cache.init.set (index (adjusted size)) rest, .idle⟩ := by
  refine ⟨ready_give h (h.layout.give hServes), ⟨rfl, rfl⟩, ⟨nofun, trivial⟩,
    asked_give hPower fun hLarge => absurd hServes hLarge, fun i p => ?_⟩
  show heap.free i p + _ + _ + heap.cut i p = heap.free i p + _ + _ + heap.cut i p
  rw [Heap.held_give, Place.count_set]
  by_cases hi : i = index (adjusted size)
  · subst hi
    rw [if_pos rfl, Place.count, hList, List.count_cons]
    by_cases hp : ptr = p
    · simp [hServes, hp]
      omega
    · simp [hp]
  · rw [if_neg hi, if_neg fun hSame => hi hSame.2.1.symm]
    rfl

theorem moved_fetching (h : heap.Ready) {size alignment : Nat} (hPower : 2 ^ alignment.log2 = alignment)
    (hServes : heap.pool.serves size alignment) :
    Moved heap here heap ⟨here.cache.init, .fetching size alignment⟩ :=
  ⟨h, ⟨rfl, rfl⟩, ⟨nofun, hServes, rfl, hPower⟩, fun _ hMem => .inl hMem, fun _ _ => rfl⟩

theorem moved_allocateLarge (h : heap.Ready) (hFits : here.Fits heap) {size alignment region : Nat}
    (hPower : 2 ^ alignment.log2 = alignment) (hServes : ¬heap.pool.serves size alignment)
    (hFresh : heap.Fresh region (adjusted size)) (hAligned : region % largeAlign alignment = 0) :
    Moved heap here (heap.give region size alignment) here := by
  refine ⟨ready_give h (h.layout.giveLarge hFresh), ⟨rfl, rfl⟩, hFits,
    asked_give hPower fun _ => hAligned, fun i p => ?_⟩
  show heap.free i p + _ + _ + heap.cut i p = heap.free i p + _ + _ + heap.cut i p
  rw [Heap.held_give, if_neg fun hSame => hServes hSame.1, Nat.add_zero]

section Central

variable {out : List Nat} {i : Fin kNumSizeClasses} {p : Nat}

theorem free_setCentral : (heap.setCentral idx central).free i p =
    if i = idx then central.free p else heap.free i p := by
  unfold Heap.free
  rw [Heap.central_setCentral]
  split <;> rfl

theorem cut_setCentral : (heap.setCentral idx central).cut i p =
    if i = idx then central.cut p else heap.cut i p := by
  unfold Heap.cut
  rw [Heap.central_setCentral]
  split <;> rfl

end Central

/-- A batch comes from the central cache: the first block goes to the caller. -/
theorem moved_fetch (h : heap.Ready) {size alignment memory : Nat} {cache : ThreadLocalCache}
    {ptr : Option Nat} (hPower : 2 ^ alignment.log2 = alignment) (hServes : heap.pool.serves size alignment)
    (hInit : here.cache.initialized = true)
    (hFresh : heap.Fresh memory heap.pool.slabSize) (hAligned : memory % heap.pool.slabSize = 0)
    (hIndex : index (adjusted size) = idx)
    (hFetch : here.cache.fetchFromCentral idx (heap.pool.central idx) memory = (ptr, cache, central)) :
    Moved heap here ((heap.setCentral idx central).answer ptr size alignment) ⟨cache, .idle⟩ := by
  have hPositive : 0 < heap.pool.slabSize := Nat.lt_of_lt_of_le (by decide) h.room
  have hNew : memory ∉ (heap.pool.central idx).slabs := by
    intro hKey
    have := hFresh.2.1 idx memory hKey
    omega
  cases hBatch : (heap.pool.central idx).fetchBatch memory (batchSize idx) with
  | mk out after =>
      obtain ⟨hSupplied, hSlabs⟩ := CentralCache.fetchBatch_supplied (h.indexed idx)
        (by rwa [(h.sizes idx).2]) hNew hBatch
      have hLayout := h.layout.addSlab hFresh hPositive hSlabs
      have hReady := ready_setCentral h hSupplied.indexed hSupplied.sizes hLayout
      have hCount : ∀ p, after.free p + out.count p + heap.cut idx p = heap.free idx p + after.cut p :=
        hSupplied.count
      cases out with
      | nil =>
          simp only [ThreadLocalCache.fetchFromCentral, hBatch] at hFetch
          cases hFetch
          show Moved heap here (heap.setCentral idx central) _
          refine ⟨hReady, ⟨rfl, rfl⟩, ⟨by simp [hInit], trivial⟩, fun _ hMem => .inl hMem, fun i p => ?_⟩
          rw [free_setCentral, cut_setCentral, Heap.held_setCentral]
          show _ + _ + here.count i p + _ = _
          by_cases hi : i = idx
          · subst hi
            have hTotal := hCount p
            rw [List.count_nil] at hTotal
            simp only [if_pos]
            omega
          · simp only [if_neg hi]
      | cons first rest =>
          simp only [ThreadLocalCache.fetchFromCentral, hBatch] at hFetch
          cases hFetch
          show Moved heap here ((heap.setCentral idx central).give first size alignment) _
          refine ⟨ready_give hReady (hLayout.give hServes), ⟨rfl, rfl⟩, ⟨by simp [ThreadLocalCache.set, hInit], trivial⟩,
            asked_give hPower fun hLarge => absurd hServes hLarge, fun i p => ?_⟩
          show (heap.setCentral idx central).free i p + _ + _ + heap.cut i p =
            _ + (heap.setCentral idx central).cut i p
          rw [free_setCentral, cut_setCentral, Heap.held_give, Place.count_set, FreeList.pushBatch_eq]
          have hStill : (heap.setCentral idx central).pool.serves size alignment := hServes
          by_cases hi : i = idx
          · subst hi
            have hTotal := hCount p
            rw [List.count_cons] at hTotal
            simp only [if_pos, hStill, hIndex, true_and, List.count_append, List.count_reverse,
              Heap.held_setCentral, Place.count]
            by_cases hp : first = p
            · simp only [hp, beq_self_eq_true, if_true] at hTotal ⊢
              omega
            · simp only [hp, beq_eq_false_iff_ne.mpr hp, if_false] at hTotal ⊢
              simp at hTotal
              omega
          · have hOther : ¬(index (adjusted size) = i) := fun hSame => hi (hSame.symm.trans hIndex)
            simp [hi, hOther, Place.count]

/-- A block goes from its caller to the list of the thread that frees it. -/
theorem moved_push (h : heap.Ready) {a : Allocation} {call : Call}
    (hServes : heap.pool.serves a.size a.alignment) (hMem : a ∈ heap.live)
    (hCall : call = .idle ∨ call = .returning (index (adjusted a.size))) :
    Moved heap here { heap with live := heap.live.erase a }
      ⟨here.cache.init.set (index (adjusted a.size))
        ((here.cache.caches (index (adjusted a.size))).push a.ptr), call⟩ := by
  constructor
  case ready => exact ⟨h.limit, h.power, h.room, h.indexed, h.sizes, h.layout.erase⟩
  case same => exact ⟨rfl, rfl⟩
  case asked => exact fun _ hLive => .inl (List.mem_of_mem_erase hLive)
  case fits =>
    refine ⟨nofun, ?_⟩
    rcases hCall with rfl | rfl <;> trivial
  case count =>
    intro i p
    show heap.free i p + _ + _ + heap.cut i p = heap.free i p + _ + _ + heap.cut i p
    rw [← heap.held_erase i p hMem, Place.count_set]
    by_cases hi : i = index (adjusted a.size)
    · subst hi
      rw [if_pos rfl, FreeList.push, List.count_cons]
      by_cases hp : a.ptr = p
      · simp [hServes, hp, Place.count]
        omega
      · simp [hp, Place.count]
    · rw [if_neg hi, if_neg fun hSame => hi hSame.2.1.symm]
      rfl

theorem moved_deallocateLarge (h : heap.Ready) (hFits : here.Fits heap) {a : Allocation}
    (hServes : ¬heap.pool.serves a.size a.alignment) (hMem : a ∈ heap.live) :
    Moved heap here { heap with live := heap.live.erase a } here := by
  constructor
  case ready => exact ⟨h.limit, h.power, h.room, h.indexed, h.sizes, h.layout.erase⟩
  case same => exact ⟨rfl, rfl⟩
  case fits => exact hFits
  case asked => exact fun _ hLive => .inl (List.mem_of_mem_erase hLive)
  case count =>
    intro i p
    show heap.free i p + _ + _ + heap.cut i p = heap.free i p + _ + _ + heap.cut i p
    rw [← heap.held_erase i p hMem, if_neg fun hSame => hServes hSame.1, Nat.add_zero]

/-- Blocks on a thread's own list go back to the slabs they were cut from. -/
theorem moved_return (h : heap.Ready) {n : Nat} {call : Call}
    (hBlocks : ∀ p ∈ here.cache.caches idx, (heap.pool.central idx).Block p)
    (hFits : Place.Fits heap ⟨here.cache.set idx ((here.cache.caches idx).popBatch n).2, call⟩) :
    Moved heap here
      (heap.setCentral idx ((heap.pool.central idx).returnBatch ((here.cache.caches idx).popBatch n).1))
      ⟨here.cache.set idx ((here.cache.caches idx).popBatch n).2, call⟩ := by
  have hTaken : ∀ p ∈ ((here.cache.caches idx).popBatch n).1, (heap.pool.central idx).Block p := by
    intro p hp
    rw [FreeList.popBatch_eq] at hp
    exact hBlocks p (List.mem_of_mem_take hp)
  obtain ⟨hIndexed, hSizes, hSlabs, hCount⟩ := CentralCache.returnBatch_supplied (h.indexed idx) hTaken
  constructor
  case ready => exact ready_setCentral h hIndexed hSizes (h.layout.setCentral hSlabs)
  case same => exact ⟨rfl, rfl⟩
  case fits => exact hFits
  case asked => exact fun _ hLive => .inl hLive
  case count =>
    intro i p
    rw [free_setCentral, cut_setCentral, Heap.held_setCentral, Place.count_set]
    by_cases hi : i = idx
    · subst hi
      have hPopped := FreeList.count_popBatch (here.cache.caches i) n p
      simp only [if_pos, (hCount p).1, (hCount p).2]
      show _ + _ + heap.held i p + _ + heap.cut i p =
        heap.free i p + heap.held i p + (here.cache.caches i).count p + heap.cut i p
      show heap.free i p + _ + heap.held i p + _ + heap.cut i p = _
      omega
    · simp only [if_neg hi]
      rfl

/-- A list that gets shorter stays empty if it was. -/
theorem popBatch_of_nil {list : FreeList} {n : Nat} (h : list = []) : (list.popBatch n).2 = [] := by
  rw [FreeList.popBatch_eq, h, List.drop_nil]

theorem caches_set {cache : ThreadLocalCache} {list : FreeList} {i : Fin kNumSizeClasses} :
    (cache.set idx list).caches i = if i = idx then list else cache.caches i :=
  Function.update_apply ..

theorem drained_set {cache : ThreadLocalCache} {n : Nat} {i : Fin kNumSizeClasses} (h : cache.caches i = []) :
    (cache.set idx ((cache.caches idx).popBatch n).2).caches i = [] := by
  rw [caches_set]
  split
  · rename_i hi
    subst hi
    exact popBatch_of_nil h
  · exact h

theorem empty_succ {cache : ThreadLocalCache} {i : Nat} {hi : i < kNumSizeClasses}
    (hBelow : ∀ j : Fin kNumSizeClasses, j.val < i → cache.caches j = []) (h : cache.caches ⟨i, hi⟩ = [])
    (j : Fin kNumSizeClasses) (hj : j.val < i + 1) : cache.caches j = [] := by
  rcases Nat.lt_succ_iff_lt_or_eq.mp hj with hLess | rfl
  · exact hBelow j hLess
  · exact h

/-- `drainBatch` takes up to 64 blocks, or finds the list empty. -/
theorem drainBatch_cases (cache : ThreadLocalCache) (idx : Fin kNumSizeClasses) (central : CentralCache) :
    (cache.caches idx = [] ∧ cache.drainBatch idx central = none) ∨
      (cache.caches idx ≠ [] ∧ cache.drainBatch idx central =
        some (cache.set idx ((cache.caches idx).popBatch ThreadLocalCache.kMaxBatchSize).2,
          central.returnBatch ((cache.caches idx).popBatch ThreadLocalCache.kMaxBatchSize).1)) := by
  unfold ThreadLocalCache.drainBatch
  rw [FreeList.popBatch_eq]
  cases hList : cache.caches idx with
  | nil => exact .inl ⟨rfl, rfl⟩
  | cons first rest => exact .inr ⟨nofun, rfl⟩

/-- The turns of `drainAll`. -/
theorem drain_cases (heap : Heap) (cache : ThreadLocalCache) (i : Nat) :
    (∃ hi : i < kNumSizeClasses, (cache.initialized = false ∨ cache.caches ⟨i, hi⟩ = []) ∧
      drain heap cache i = (heap, ⟨cache, .draining (i + 1)⟩)) ∨
    (∃ hi : i < kNumSizeClasses, cache.caches ⟨i, hi⟩ ≠ [] ∧ drain heap cache i =
      (heap.setCentral ⟨i, hi⟩ ((heap.pool.central ⟨i, hi⟩).returnBatch
        ((cache.caches ⟨i, hi⟩).popBatch ThreadLocalCache.kMaxBatchSize).1),
      ⟨cache.set ⟨i, hi⟩ ((cache.caches ⟨i, hi⟩).popBatch ThreadLocalCache.kMaxBatchSize).2, .draining i⟩)) ∨
    (kNumSizeClasses ≤ i ∧ drain heap cache i = (heap, ⟨{ cache with initialized := false }, .gone⟩)) := by
  by_cases hi : i < kNumSizeClasses
  · cases hInit : cache.initialized with
    | false => exact .inl ⟨hi, .inl rfl, by simp [drain, hi, hInit]⟩
    | true =>
        rcases drainBatch_cases cache ⟨i, hi⟩ (heap.pool.central ⟨i, hi⟩) with
          ⟨hEmpty, hNone⟩ | ⟨hMore, hSome⟩
        · exact .inl ⟨hi, .inr hEmpty, by simp [drain, hi, hInit, hNone]⟩
        · exact .inr (.inl ⟨hi, hMore, by simp [drain, hi, hInit, hSome]⟩)
  · exact .inr (.inr ⟨Nat.le_of_not_lt hi, by simp [drain, hi]⟩)

theorem moved_drain {cache : ThreadLocalCache} {i : Nat} (h : heap.Ready)
    (hFits : Place.Fits heap ⟨cache, .draining i⟩)
    (hBlocks : ∀ idx, ∀ p ∈ cache.caches idx, (heap.pool.central idx).Block p) :
    Moved heap ⟨cache, .draining i⟩ (drain heap cache i).1 (drain heap cache i).2 := by
  obtain ⟨hInit, hBelow⟩ := hFits
  rcases drain_cases heap cache i with ⟨hi, hEmpty, hDrain⟩ | ⟨hi, _, hDrain⟩ | ⟨hi, hDrain⟩
  · rw [hDrain]
    have hList : cache.caches ⟨i, hi⟩ = [] := by
      rcases hEmpty with hNot | hEmpty
      · exact hInit hNot _
      · exact hEmpty
    exact ⟨h, ⟨rfl, rfl⟩, ⟨hInit, empty_succ hBelow hList⟩, fun _ hLive => .inl hLive, fun _ _ => rfl⟩
  · rw [hDrain]
    apply moved_return h (hBlocks ⟨i, hi⟩)
    exact ⟨fun hNot j => drained_set (hInit hNot j), fun j hj => drained_set (hBelow j hj)⟩
  · rw [hDrain]
    have hEmpty : ∀ j, cache.caches j = [] := fun j => hBelow j (by omega)
    exact ⟨h, ⟨rfl, rfl⟩, ⟨fun _ => hEmpty, hEmpty⟩, fun _ hLive => .inl hLive, fun _ _ => rfl⟩

/-- Each step of a thread moves blocks from one place to another. -/
theorem moved (h : heap.Ready) (hFits : here.Fits heap)
    (hBlocks : ∀ idx, ∀ p ∈ here.cache.caches idx, (heap.pool.central idx).Block p)
    (hStep : code t heap here choice = some (heap', here')) : Moved heap here heap' here' := by
  obtain ⟨cache, call⟩ := here
  cases call with
  | idle =>
      cases choice with
      | allocate size alignment region =>
          obtain ⟨hPower, hStep⟩ := Option.ite_none_right_eq_some.mp hStep
          by_cases hServes : heap.pool.serves size alignment
          · rw [if_pos hServes] at hStep
            dsimp only at hStep
            split at hStep
            · cases hStep
              exact moved_fetching h hPower hServes
            · cases hStep
              exact moved_pop h hPower hServes (by assumption)
          · rw [if_neg hServes] at hStep
            obtain ⟨hFresh, hStep⟩ := Option.ite_none_right_eq_some.mp hStep
            cases hStep
            exact moved_allocateLarge h hFits hPower hServes hFresh.1 hFresh.2
      | deallocate ptr size alignment =>
          simp only [code] at hStep
          split at hStep
          · cases hStep
            exact ⟨h, ⟨rfl, rfl⟩, hFits, fun _ hLive => .inl hLive, fun _ _ => rfl⟩
          · obtain ⟨hMem, hStep⟩ := Option.ite_none_right_eq_some.mp hStep
            split at hStep
            · cases hStep
              apply moved_push h (by assumption) hMem
              split <;> simp
            · cases hStep
              exact moved_deallocateLarge h hFits (by assumption) hMem
      | exit =>
          cases hStep
          exact ⟨h, ⟨rfl, rfl⟩, ⟨hFits.1, fun _ hLess => absurd hLess (Nat.not_lt_zero _)⟩, fun _ hLive => .inl hLive, fun _ _ => rfl⟩
      | enter memory => cases hStep
  | fetching size alignment =>
      cases choice with
      | enter memory =>
          obtain ⟨⟨hFresh, hAligned⟩, hStep⟩ := Option.ite_none_right_eq_some.mp hStep
          cases hStep
          exact moved_fetch h hFits.2.2.2 hFits.2.1 hFits.2.2.1 hFresh hAligned rfl rfl
      | _ => cases hStep
  | returning idx =>
      cases choice with
      | enter memory =>
          cases hStep
          apply moved_return h (hBlocks idx)
          exact ⟨fun hInit i => drained_set (hFits.1 hInit i), trivial⟩
      | _ => cases hStep
  | draining i =>
      cases choice with
      | enter memory =>
          have hDrain : drain heap cache i = (heap', here') := Option.some.inj hStep
          have hMoved := moved_drain h hFits hBlocks
          rw [hDrain] at hMoved
          exact hMoved
      | _ => cases hStep
  | gone => cases choice <;> cases hStep

end MemoryPool

end Memory
