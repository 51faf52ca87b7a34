import V2Engine.Interleaving.Inevitable
import Mathlib.Algebra.BigOperators.Ring.Finset
import V2Engine.Memory.PoolBalance

/-! Every block of a pool is in exactly one place, whatever its threads do and in
whatever order. -/
namespace Memory.MemoryPool

open Interleaving SizeClass

variable {Θ : Type*} [Fintype Θ] {c : Config Θ Heap Place}

/-- The invariant of all runs. -/
structure Sorted (c : Config Θ Heap Place) : Prop where
  ready : c.shared.Ready
  fits : ∀ t, (c.here t).Fits c.shared
  granted : ∀ a ∈ c.shared.live, c.shared.Granted a
  total : ∀ idx p, ledger (Heap.balance idx p) (fun _ here => (here.count idx p : Int)) c = 0

/-- The ledger in whole numbers. -/
theorem Sorted.sum (h : Sorted c) (idx : Fin kNumSizeClasses) (p : Nat) :
    c.shared.free idx p + ∑ t, (c.here t).count idx p + c.shared.held idx p = c.shared.cut idx p := by
  have hTotal := h.total idx p
  have hEntries : entries (fun _ here => (Place.count here idx p : Int)) c.here =
      ((∑ t, (c.here t).count idx p : Nat) : Int) := by
    rw [Nat.cast_sum]
    rfl
  rw [ledger, hEntries, Heap.balance] at hTotal
  omega

theorem Sorted.block_of_cached (h : Sorted c) {t : Θ} {idx : Fin kNumSizeClasses} {p : Nat}
    (hp : p ∈ (c.here t).cache.caches idx) : (c.shared.pool.central idx).Block p := by
  apply CentralCache.block_of_cut
  have hOwn : (c.here t).count idx p ≤ ∑ u, (c.here u).count idx p :=
    Finset.single_le_sum (f := fun u => (c.here u).count idx p) (fun _ _ => Nat.zero_le _) (Finset.mem_univ t)
  have hPositive : 0 < (c.here t).count idx p := List.count_pos_iff.mpr hp
  have hSum := h.sum idx p
  show 0 < c.shared.cut idx p
  omega

theorem fits_congr {heap heap' : Heap} {here : Place}
    (hSame : heap'.pool.maxAllocSize = heap.pool.maxAllocSize) (h : here.Fits heap) : here.Fits heap' := by
  obtain ⟨cache, call⟩ := here
  refine ⟨h.1, ?_⟩
  cases call with
  | fetching size alignment =>
      obtain ⟨hServes, hInit, hPower⟩ := h.2
      refine ⟨⟨?_, hServes.2⟩, hInit, hPower⟩
      rw [hSame]
      exact hServes.1
  | _ => exact h.2

theorem sorted_start {slabSize maxAllocSize : Nat} (hPower : ∃ k, slabSize = 2 ^ k)
    (hRoom : kMaxAllocSize ≤ slabSize) :
    Sorted (startAt slabSize maxAllocSize : Config Θ Heap Place) := by
  constructor
  case ready =>
    constructor
    case limit => exact Nat.min_le_right ..
    case power => exact hPower
    case room => exact hRoom
    case indexed =>
      intro idx
      have hBounds := blockSize_bounds idx
      apply CentralCache.indexed_init
      · omega
      · exact hBounds.2.trans hRoom
    case sizes => exact fun idx => ⟨rfl, rfl⟩
    case layout => exact ⟨fun _ _ => nofun, fun _ _ _ => nofun, fun _ => nofun, .nil⟩
  case fits => exact fun t => ⟨fun _ _ => rfl, trivial⟩
  case granted => exact fun _ => nofun
  case total =>
    intro idx p
    have hNobody : entries (fun _ here => (Place.count here idx p : Int))
        (startAt slabSize maxAllocSize : Config Θ Heap Place).here = 0 := entries_eq_zero fun t => rfl
    rw [ledger, hNobody]
    rfl

section Regions

variable {idx i j : Fin kNumSizeClasses} {p q : Nat} {a b : Allocation}

theorem Sorted.held_le (h : Sorted c) (idx : Fin kNumSizeClasses) (p : Nat) : c.shared.held idx p ≤ 1 := by
  have hSum := h.sum idx p
  by_cases hCut : 0 < c.shared.cut idx p
  · have hReady := h.ready.indexed idx
    have hOne : c.shared.cut idx p = 1 :=
      CentralCache.cut_of_block hReady.shaped.positive hReady.shaped (CentralCache.block_of_cut hCut)
    omega
  · omega

theorem Sorted.served (h : Sorted c) (hMem : a ∈ c.shared.live)
    (hServes : c.shared.pool.serves a.size a.alignment) :
    (c.shared.pool.central (index (adjusted a.size))).Block a.ptr := by
  apply CentralCache.block_of_cut
  have hHeld : 0 < c.shared.held (index (adjusted a.size)) a.ptr :=
    List.countP_pos_iff.mpr ⟨a, hMem, by simp [hServes]⟩
  have hSum := h.sum (index (adjusted a.size)) a.ptr
  show 0 < c.shared.cut (index (adjusted a.size)) a.ptr
  omega

/-- A block lies in the region of a slab of its class. -/
theorem Sorted.region (h : Sorted c) (hBlock : (c.shared.pool.central idx).Block p) :
    ∃ key s, (c.shared.pool.central idx).slabMap key = some s ∧ p ∈ s.blocks ∧
      key ∈ (c.shared.pool.central idx).slabs ∧ key % c.shared.pool.slabSize = 0 ∧
      key ≤ p ∧ p + blockSize idx ≤ key + c.shared.pool.slabSize := by
  obtain ⟨s, hFind, hMem⟩ := hBlock
  have hReady := h.ready.indexed idx
  have hSizes := h.ready.sizes idx
  have hCut := hReady.shaped.cut hFind
  have hFits := Slab.block_fits hMem
  rw [hCut.memory, hCut.blockSize, hCut.slabSize, hSizes.1, hSizes.2] at hFits
  have hAligned := hCut.aligned
  rw [hSizes.2] at hAligned
  exact ⟨_, s, hFind, hMem, hReady.keys.mpr ⟨s, hFind⟩, hAligned, hFits⟩

/-- Two slabs of one size do not overlap. -/
theorem slabs_apart {size k l : Nat} (hk : k % size = 0) (hl : l % size = 0) (hne : k ≠ l) :
    k + size ≤ l ∨ l + size ≤ k := by
  obtain ⟨m, rfl⟩ := Nat.dvd_of_mod_eq_zero hk
  obtain ⟨n, rfl⟩ := Nat.dvd_of_mod_eq_zero hl
  rcases Nat.lt_trichotomy m n with hLess | rfl | hLess
  · left
    exact Nat.mul_le_mul_left size hLess
  · exact absurd rfl hne
  · right
    exact Nat.mul_le_mul_left size hLess

theorem Sorted.blocks_apart (h : Sorted c) (hp : (c.shared.pool.central i).Block p)
    (hq : (c.shared.pool.central j).Block q) (hne : i ≠ j ∨ p ≠ q) :
    Heap.Apart p (blockSize i) q (blockSize j) := by
  obtain ⟨k, s, hSlab, hMem, hKey, hAligned, hLow, hHigh⟩ := h.region hp
  obtain ⟨l, u, hSlab', hMem', hKey', hAligned', hLow', hHigh'⟩ := h.region hq
  by_cases hkl : k = l
  · subst hkl
    obtain rfl := h.ready.layout.owner i j k hKey hKey'
    rw [hSlab, Option.some.injEq] at hSlab'
    subst hSlab'
    have hApart := Slab.blocks_apart hMem hMem' (by simpa using hne)
    have hCut := (h.ready.indexed i).shaped.cut hSlab
    rwa [hCut.blockSize, (h.ready.sizes i).1] at hApart
  · unfold Heap.Apart
    rcases slabs_apart hAligned hAligned' hkl with hBefore | hAfter <;> omega

theorem Sorted.block_apart_large (h : Sorted c) (hp : (c.shared.pool.central i).Block p)
    (hMem : b ∈ c.shared.live) (hLarge : c.shared.Large b) :
    Heap.Apart p (blockSize i) b.ptr (adjusted b.size) := by
  obtain ⟨k, s, _, _, hKey, _, hLow, hHigh⟩ := h.region hp
  have hApart := h.ready.layout.large b hMem hLarge i k hKey
  unfold Heap.Apart at hApart ⊢
  omega

/-- Two live allocations do not overlap. -/
theorem Sorted.apart (h : Sorted c) :
    c.shared.live.Pairwise fun a b => Heap.Apart a.ptr (c.shared.room a) b.ptr (c.shared.room b) := by
  rw [List.pairwise_iff_forall_sublist]
  intro a b hPair
  have hMemA : a ∈ c.shared.live := hPair.subset (by simp)
  have hMemB : b ∈ c.shared.live := hPair.subset (by simp)
  unfold Heap.room
  by_cases hA : c.shared.pool.serves a.size a.alignment
  · have hBlockA := h.served hMemA hA
    rw [if_pos hA]
    by_cases hB : c.shared.pool.serves b.size b.alignment
    · rw [if_pos hB]
      apply h.blocks_apart hBlockA (h.served hMemB hB)
      -- The same block twice would be held twice.
      by_contra hSame
      push Not at hSame
      have hTwice := hPair.countP_le (p := fun d => c.shared.pool.serves d.size d.alignment ∧
        index (adjusted d.size) = index (adjusted a.size) ∧ d.ptr = a.ptr)
      have hHeld := h.held_le (index (adjusted a.size)) a.ptr
      rw [Heap.held] at hHeld
      simp only [List.countP_cons, List.countP_nil, hA, hB, hSame.1, hSame.2, decide_true, and_self,
        if_true] at hTwice hHeld
      omega
    · rw [if_neg hB]
      exact h.block_apart_large hBlockA hMemB hB
  · rw [if_neg hA]
    by_cases hB : c.shared.pool.serves b.size b.alignment
    · rw [if_pos hB]
      exact Heap.Apart.symm (h.block_apart_large (h.served hMemB hB) hMemA hA)
    · rw [if_neg hB]
      exact List.pairwise_iff_forall_sublist.mp h.ready.layout.apart hPair hA hB

end Regions

theorem size_le_room {heap : Heap} (h : heap.Ready) (a : Allocation) : a.size ≤ heap.room a := by
  have hAdjusted : a.size ≤ adjusted a.size := by
    unfold adjusted
    split <;> omega
  unfold Heap.room
  split
  · rename_i hServes
    exact hAdjusted.trans (size_le (adjusted_le h hServes))
  · exact hAdjusted

/-- The steps that a thread's exit still takes. -/
def remaining (here : Place) : Nat :=
  match here.call with
  | .draining i => (kNumSizeClasses - i) + ∑ idx, (here.cache.caches idx).length + 1
  | _ => 0

theorem sum_lengths_set (cache : ThreadLocalCache) (idx : Fin kNumSizeClasses) (list : FreeList) :
    ∑ i, ((cache.set idx list).caches i).length + (cache.caches idx).length =
      ∑ i, (cache.caches i).length + list.length := by
  have hAfter := Finset.add_sum_erase Finset.univ
    (fun i => ((cache.set idx list).caches i).length) (Finset.mem_univ idx)
  have hBefore := Finset.add_sum_erase Finset.univ
    (fun i => (cache.caches i).length) (Finset.mem_univ idx)
  have hRest : ∑ i ∈ Finset.univ.erase idx, ((cache.set idx list).caches i).length =
      ∑ i ∈ Finset.univ.erase idx, (cache.caches i).length := by
    apply Finset.sum_congr rfl
    intro i hi
    rw [caches_set, if_neg (Finset.ne_of_mem_erase hi)]
  rw [caches_set, if_pos rfl] at hAfter
  omega

/-- Each turn of `drainAll` brings a thread nearer to its end. -/
theorem remaining_drain (heap : Heap) (cache : ThreadLocalCache) (i : Nat) :
    ((∃ j, (drain heap cache i).2.call = .draining j) ∨ (drain heap cache i).2.call = .gone) ∧
      remaining (drain heap cache i).2 < remaining ⟨cache, .draining i⟩ := by
  rcases drain_cases heap cache i with ⟨hi, _, hDrain⟩ | ⟨hi, hMore, hDrain⟩ | ⟨_, hDrain⟩
  · rw [hDrain]
    refine ⟨.inl ⟨_, rfl⟩, ?_⟩
    simp only [remaining]
    omega
  · rw [hDrain]
    refine ⟨.inl ⟨_, rfl⟩, ?_⟩
    have hSum := sum_lengths_set cache ⟨i, hi⟩
      ((cache.caches ⟨i, hi⟩).popBatch ThreadLocalCache.kMaxBatchSize).2
    have hLength : 0 < (cache.caches ⟨i, hi⟩).length := List.length_pos_iff.mpr hMore
    simp only [FreeList.popBatch_eq, List.length_drop, ThreadLocalCache.kMaxBatchSize] at hSum
    simp only [remaining, FreeList.popBatch_eq, ThreadLocalCache.kMaxBatchSize]
    omega
  · rw [hDrain]
    refine ⟨.inr rfl, ?_⟩
    simp only [remaining]
    omega

variable [DecidableEq Θ]

theorem Sorted.step (h : Sorted c) {t : Θ} {choice : Choice} {heap : Heap} {here : Place}
    (hStep : code t c.shared (c.here t) choice = some (heap, here)) :
    Sorted ⟨heap, Function.update c.here t here⟩ := by
  have hMoved := moved h.ready (h.fits t) (fun idx p hp => h.block_of_cached hp) hStep
  constructor
  case ready => exact hMoved.ready
  case fits =>
    intro u
    dsimp only
    by_cases hu : u = t
    · subst hu
      rw [Function.update_self]
      exact hMoved.fits
    · rw [Function.update_of_ne hu]
      exact fits_congr hMoved.same.1 (h.fits u)
  case granted =>
    intro a hMem
    have hGranted : c.shared.Granted a := by
      rcases hMoved.asked a hMem with hOld | hNew
      · exact h.granted a hOld
      · exact hNew
    refine ⟨hGranted.1, fun hLarge => hGranted.2 fun hServes => hLarge ⟨?_, hServes.2⟩⟩
    rw [hMoved.same.1]
    exact hServes.1
  case total =>
    intro idx p
    have hCount := hMoved.count idx p
    have hBefore := h.total idx p
    rw [ledger_step, hBefore]
    simp only [Heap.balance]
    omega

theorem sorted (reach : Reach code Starting anyStep c) : Sorted c := by
  apply reach.invariant
  · rintro c ⟨k, maxAllocSize, hRoom, rfl⟩
    exact sorted_start ⟨k, rfl⟩ hRoom
  · exact fun c t choice heap here _ h _ hStep => h.step hStep

/-- Who owns which memory. -/
structure Owned (c : Config Θ Heap Place) : Prop where
  /-- A block of a slab is on the slab's free list, on one thread's list, or with a caller. -/
  onePlace : ∀ idx key s p, (c.shared.pool.central idx).slabMap key = some s → p ∈ s.blocks →
    s.freeList.count p + ∑ t, (c.here t).count idx p + c.shared.held idx p = 1
  /-- What is on a slab's free list was cut from that slab. -/
  home : ∀ idx key s, (c.shared.pool.central idx).slabMap key = some s → ∀ p ∈ s.freeList, p ∈ s.blocks
  /-- A thread's lists hold blocks of their size class, and each finds its slab. -/
  cached : ∀ t idx, ∀ p ∈ (c.here t).cache.caches idx, (c.shared.pool.central idx).Block p
  served : ∀ a ∈ c.shared.live, c.shared.pool.serves a.size a.alignment →
    (c.shared.pool.central (index (adjusted a.size))).Block a.ptr
  enough : ∀ a ∈ c.shared.live, a.size ≤ c.shared.room a
  apart : c.shared.live.Pairwise fun a b => Heap.Apart a.ptr (c.shared.room a) b.ptr (c.shared.room b)
  /-- A thread that exits comes to its end, and takes no block along. -/
  exits : ∀ t i, (c.here t).call = .draining i →
    Inevitable (fun d e => ∃ choice, Program.next code d t choice = some e) (fun d => (d.here t).call = .gone) c
  drained : ∀ t, (c.here t).call = .gone → ∀ idx, (c.here t).cache.caches idx = []
  /-- At the end each slab has all its blocks back. -/
  returned : (∀ t, (c.here t).call = .gone) → c.shared.live = [] →
    ∀ idx key s, (c.shared.pool.central idx).slabMap key = some s → s.freeList.Perm s.blocks

omit [Fintype Θ] in
/-- The destructor of a thread's cache comes to its end. -/
theorem exits {t : Θ} {i : Nat} (h : (c.here t).call = .draining i) :
    Inevitable (fun d e => ∃ choice, Program.next code d t choice = some e)
      (fun d => (d.here t).call = .gone) c := by
  apply Inevitable.of_measure (I := fun d : Config Θ Heap Place =>
    (∃ i, (d.here t).call = .draining i) ∨ (d.here t).call = .gone) Nat.lt_wfRel.wf
    (fun d => remaining (d.here t))
  · rintro d (⟨i, hCall⟩ | hGone)
    · right
      have hStep : code t d.shared (d.here t) (.enter 0) = some (drain d.shared (d.here t).cache i) := by
        generalize d.here t = place at hCall
        obtain ⟨cache, call⟩ := place
        cases hCall
        rfl
      exact ⟨_, .enter 0, Program.next_eq_some.mpr ⟨_, _, hStep, rfl⟩⟩
    · exact .inl hGone
  · rintro d e hCall ⟨choice, hNext⟩
    obtain ⟨heap, here, hStep, rfl⟩ := Program.next_eq_some.mp hNext
    dsimp only
    rw [Function.update_self]
    generalize d.here t = place at hCall hStep
    obtain ⟨cache, call⟩ := place
    rcases hCall with ⟨i, hCall⟩ | hGone
    · cases hCall
      cases choice with
      | enter memory =>
          have hDrain : drain d.shared cache i = (heap, here) := Option.some.inj hStep
          have hNearer := remaining_drain d.shared cache i
          rw [hDrain] at hNearer
          exact hNearer
      | _ => cases hStep
    · cases hGone
      cases choice <;> cases hStep
  · exact .inl ⟨i, h⟩

/-- Every block is in one place, live allocations do not overlap and are large enough, and
every block finds its way back to the slab it was cut from. -/
theorem owned (reach : Reach code Starting anyStep c) : Owned c := by
  have h := sorted reach
  constructor
  case onePlace =>
    intro idx key s p hSlab hMem
    have hShaped := (h.ready.indexed idx).shaped
    obtain ⟨hMask, hBlock⟩ := hShaped.block hSlab hMem
    have hSum := h.sum idx p
    have hCut : c.shared.cut idx p = 1 := CentralCache.cut_of_block hShaped.positive hShaped hBlock
    have hFree : c.shared.free idx p = s.freeList.count p :=
      CentralCache.free_eq (by rw [CentralCache.findSlab, hMask, hSlab])
    omega
  case home => exact fun idx key s hSlab => ((h.ready.indexed idx).shaped.cut hSlab).own
  case cached => exact fun t idx p hp => h.block_of_cached hp
  case served => exact fun a hMem hServes => h.served hMem hServes
  case enough => exact fun a _ => size_le_room h.ready a
  case apart => exact h.apart
  case exits => exact fun t i hCall => exits hCall
  case drained =>
    intro t hGone
    have hFits := (h.fits t).2
    rw [hGone] at hFits
    exact hFits
  case returned =>
    intro hGone hNone idx key s hSlab
    have hShaped := (h.ready.indexed idx).shaped
    have hCut := hShaped.cut hSlab
    have hSize : 0 < s.blockSize := by
      rw [hCut.blockSize]
      exact hShaped.positive
    have hDrained : ∀ t p, (c.here t).count idx p = 0 := by
      intro t p
      have hFits := (h.fits t).2
      rw [hGone t] at hFits
      rw [Place.count, hFits idx, List.count_nil]
    rw [List.perm_iff_count]
    intro p
    by_cases hMem : p ∈ s.blocks
    · obtain ⟨hMask, hBlock⟩ := hShaped.block hSlab hMem
      have hSum := h.sum idx p
      have hOne : c.shared.cut idx p = 1 := CentralCache.cut_of_block hShaped.positive hShaped hBlock
      have hFree : c.shared.free idx p = s.freeList.count p :=
        CentralCache.free_eq (by rw [CentralCache.findSlab, hMask, hSlab])
      have hHeld : c.shared.held idx p = 0 := by rw [Heap.held, hNone, List.countP_nil]
      rw [Finset.sum_eq_zero fun t _ => hDrained t p] at hSum
      rw [List.count_eq_one_of_mem (Slab.blocks_nodup hSize) hMem]
      omega
    · rw [List.count_eq_zero_of_not_mem hMem, List.count_eq_zero_of_not_mem fun hFree => hMem (hCut.own p hFree)]

section Runs

/-- A block is allocated by one thread and freed by another, which then exits; a large
allocation stays. -/
def exitSchedule : List (Fin 2 × Choice) :=
  ([(0, .allocate 2000 8 0), (0, .enter 4096), (0, .allocate 5000 64 8192), (1, .deallocate 4096 2000 8),
    (1, .exit)] : List (Fin 2 × Choice)) ++ (List.replicate 11 (1, .enter 0) : List (Fin 2 × Choice))

def afterExit : Config (Fin 2) Heap Place :=
  (Program.replay code anyStep (startAt (2 ^ 11) 2048) exitSchedule).get (by decide +kernel)

theorem owned_afterExit : Owned afterExit :=
  owned (.replay (.start ⟨11, 2048, by decide, rfl⟩) (Option.some_get _).symm)

end Runs

end Memory.MemoryPool
