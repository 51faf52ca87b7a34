import V2Engine.Interleaving.Inevitable
import V2Engine.Memory.BufferedCache

/-! How many blocks the caches of any number of threads hold, over the same central caches
(core/common/memory/thread_local_cache.hpp). Each use of a central cache is one step, under its
mutex. A thread whose buffer or assertion fails is broken. -/
namespace Memory

open Interleaving SizeClass

/-- The central caches, and the blocks that callers hold, each with its class. -/
structure Centrals where
  central : Fin kNumSizeClasses → CentralCache
  live : List (Fin kNumSizeClasses × Nat)

inductive Busy where
  | idle
  | fetching (idx : Fin kNumSizeClasses)
  | returning (idx : Fin kNumSizeClasses)
  /-- In `drain`. -/
  | draining (i : Nat)
  /-- In `drainAll`. -/
  | leaving (i : Nat)
  | gone
  | broken
deriving DecidableEq

structure CachePlace where
  cache : ThreadLocalCache
  busy : Busy

inductive CacheChoice where
  | init
  | allocate (size : Nat)
  | deallocate (ptr size : Nat)
  | drain
  | exit
  /-- `memory` is what `operator new` answers if a slab is added. -/
  | enter (memory : Nat)

namespace Centrals

def set (shared : Centrals) (idx : Fin kNumSizeClasses) (central : CentralCache) : Centrals :=
  { shared with central := Function.update shared.central idx central }

def give (shared : Centrals) (idx : Fin kNumSizeClasses) (ptr : Nat) : Centrals :=
  { shared with live := (idx, ptr) :: shared.live }

def answer (shared : Centrals) (idx : Fin kNumSizeClasses) : Option Nat → Centrals
  | none => shared
  | some ptr => shared.give idx ptr

end Centrals

namespace CachePlace

/-- `returnToCentral`, and where the thread goes on. -/
def returns (here : CachePlace) (shared : Centrals) (idx : Fin kNumSizeClasses) (next : Busy) :
    Centrals × CachePlace :=
  match here.cache.returnBuffered idx (shared.central idx) with
  | none => (shared, { here with busy := .broken })
  | some (cache, central) => (shared.set idx central, ⟨cache, next⟩)

/-- One step of a thread. A cache is used after `init`, for sizes that have a class, and blocks come
back in the class they were handed out in. -/
def code {Θ : Type*} : Program Θ Centrals CachePlace CacheChoice := fun _ shared here choice =>
  match here.busy, choice with
  | .idle, .init => some (shared, ⟨here.cache.init, .idle⟩)
  | .idle, .allocate size =>
      if here.cache.initialized ∧ 0 < size ∧ size ≤ kMaxAllocSize then
        let idx := index size
        match here.cache.caches idx with
        | [] => some (shared, { here with busy := .fetching idx })
        | ptr :: rest => some (shared.give idx ptr, ⟨here.cache.set idx rest, .idle⟩)
      else none
  | .fetching idx, .enter memory =>
      if 0 < memory ∧ memory % (shared.central idx).slabSize = 0 ∧
          ∀ i, ((shared.central i).slabMap memory).isNone then
        match here.cache.fetchBuffered idx (shared.central idx) memory with
        | none => some (shared, { here with busy := .broken })
        | some (ptr, cache, central) => some ((shared.set idx central).answer idx ptr, ⟨cache, .idle⟩)
      else none
  | .idle, .deallocate ptr size =>
      if here.cache.initialized ∧ 0 < size ∧ size ≤ kMaxAllocSize ∧ (index size, ptr) ∈ shared.live then
        let idx := index size
        let list := (here.cache.caches idx).push ptr
        some ({ shared with live := shared.live.erase (idx, ptr) },
          ⟨here.cache.set idx list, if list.length > batchSize idx then .returning idx else .idle⟩)
      else none
  | .returning idx, .enter _ => some (here.returns shared idx .idle)
  | .idle, .drain => some (shared, { here with busy := .draining 0 })
  | .draining i, .enter _ =>
      if h : i < kNumSizeClasses then
        if (here.cache.caches ⟨i, h⟩).length > 0 then some (here.returns shared ⟨i, h⟩ (.draining (i + 1)))
        else some (shared, { here with busy := .draining (i + 1) })
      else some (shared, { here with busy := .idle })
  | .idle, .exit => some (shared, { here with busy := .leaving 0 })
  | .leaving i, .enter _ =>
      if h : i < kNumSizeClasses then
        if here.cache.initialized then
          match here.cache.drainBuffered ⟨i, h⟩ (shared.central ⟨i, h⟩) with
          | none => some (shared, { here with busy := .broken })
          | some none => some (shared, { here with busy := .leaving (i + 1) })
          | some (some (cache, central)) => some (shared.set ⟨i, h⟩ central, ⟨cache, .leaving i⟩)
        else some (shared, { here with busy := .leaving (i + 1) })
      else some (shared, ⟨{ here.cache with initialized := false }, .gone⟩)
  | _, _ => none

/-- New central caches, whose slabs have room for a block, and no thread has used its cache yet. -/
def start {Θ : Type*} (slabSize : Fin kNumSizeClasses → Nat) : Config Θ Centrals CachePlace :=
  ⟨⟨fun idx => .init (blockSize idx) (slabSize idx), []⟩, fun _ => ⟨⟨false, fun _ => []⟩, .idle⟩⟩

def Starting {Θ : Type*} (c : Config Θ Centrals CachePlace) : Prop :=
  ∃ slabSize, (∀ idx, blockSize idx ≤ slabSize idx ∧ ∃ k, slabSize idx = 2 ^ k) ∧ c = start slabSize

end CachePlace

/-- Whatever is handed out is a block of a slab of its class. -/
structure Centrals.Sound (shared : Centrals) : Prop where
  indexed : ∀ idx, (shared.central idx).Indexed
  live : ∀ b ∈ shared.live, (shared.central b.1).Block b.2

/-- No block ceases to be one. -/
def Centrals.Grows (shared shared' : Centrals) : Prop :=
  ∀ idx p, (shared.central idx).Block p → (shared'.central idx).Block p

/-- A list is longer than a batch only while the batch is on its way back. -/
def Busy.room (busy : Busy) (idx : Fin kNumSizeClasses) : Nat :=
  if busy = .returning idx then batchSize idx + 1 else batchSize idx

/-- What a thread relies on where it stands. -/
def Busy.Ready (cache : ThreadLocalCache) : Busy → Prop
  | .idle => True
  | .fetching idx => cache.initialized = true ∧ cache.caches idx = []
  | .returning _ => cache.initialized = true
  | .draining i => ∀ j : Fin kNumSizeClasses, j.val < i → cache.caches j = []
  | .leaving i => ∀ j : Fin kNumSizeClasses, j.val < i → cache.caches j = []
  | .gone => ∀ j, cache.caches j = []
  | .broken => False

structure CachePlace.Held (shared : Centrals) (here : CachePlace) : Prop where
  blocks : ∀ idx, ∀ p ∈ here.cache.caches idx, (shared.central idx).Block p
  bounded : ∀ idx, (here.cache.caches idx).length ≤ here.busy.room idx
  unused : here.cache.initialized = false → ∀ idx, here.cache.caches idx = []
  ready : here.busy.Ready here.cache

namespace CachePlace

variable {shared shared' : Centrals} {here here' : CachePlace} {idx i : Fin kNumSizeClasses}
  {central : CentralCache} {busy : Busy} {list : FreeList} {p : Nat}

theorem Held.grows (h : here.Held shared) (hGrows : shared.Grows shared') : here.Held shared' :=
  ⟨fun idx p hp => hGrows idx p (h.blocks idx p hp), h.bounded, h.unused, h.ready⟩

theorem central_set : (shared.set idx central).central i = if i = idx then central else shared.central i :=
  Function.update_apply ..

theorem grows_set (shared : Centrals) (hKept : ∀ p, (shared.central idx).Block p → central.Block p) :
    shared.Grows (shared.set idx central) := by
  intro i p hBlock
  rw [central_set]
  split
  · rename_i hi
    subst hi
    exact hKept p hBlock
  · exact hBlock

theorem Sound.set (h : shared.Sound) (hIndexed : central.Indexed)
    (hKept : ∀ p, (shared.central idx).Block p → central.Block p) : (shared.set idx central).Sound := by
  refine ⟨fun i => ?_, fun b hb => grows_set shared hKept b.1 b.2 (h.live b hb)⟩
  rw [central_set]
  split
  · exact hIndexed
  · exact h.indexed i

theorem batch_le_room (busy : Busy) (idx : Fin kNumSizeClasses) : batchSize idx ≤ busy.room idx := by
  unfold Busy.room
  split <;> omega

/-- A list is replaced, and the thread is no longer on its way with a batch. -/
theorem Held.set (h : here.Held shared) (hGrows : shared.Grows shared')
    (hBlocks : ∀ p ∈ list, (shared'.central idx).Block p) (hLength : list.length ≤ busy.room idx)
    (hOther : ∀ i, i ≠ idx → here.busy.room i ≤ busy.room i) (hInit : here.cache.initialized = true)
    (hReady : busy.Ready (here.cache.set idx list)) : CachePlace.Held shared' ⟨here.cache.set idx list, busy⟩ := by
  constructor
  case blocks =>
    intro i p hp
    rw [MemoryPool.caches_set] at hp
    split at hp
    · rename_i hi
      subst hi
      exact hBlocks p hp
    · exact hGrows i p (h.blocks i p hp)
  case bounded =>
    intro i
    dsimp only
    rw [MemoryPool.caches_set]
    split
    · rename_i hi
      subst hi
      exact hLength
    · rename_i hi
      exact (h.bounded i).trans (hOther i hi)
  case unused =>
    intro hNot
    exact absurd (hInit.symm.trans hNot) (by simp)
  case ready => exact hReady

/-- The thread goes on without a change to its lists. -/
theorem Held.goes (h : here.Held shared) (hRoom : ∀ i, here.busy.room i ≤ busy.room i)
    (hReady : busy.Ready here.cache) : CachePlace.Held shared { here with busy := busy } :=
  ⟨h.blocks, fun i => (h.bounded i).trans (hRoom i), h.unused, hReady⟩

theorem room_le (hBusy : ∀ i, here.busy ≠ .returning i) (busy : Busy) (i : Fin kNumSizeClasses) :
    here.busy.room i ≤ busy.room i := by
  rw [Busy.room, if_neg (hBusy i)]
  exact batch_le_room busy i

/-- All blocks of a thread's list are accepted by its central cache. -/
theorem Held.accepts (h : here.Held shared) (hSound : shared.Sound) {blocks : List Nat}
    (hBlocks : blocks ⊆ here.cache.caches idx) :
    (CentralCache.returnLoop blocks (shared.central idx)).1 = blocks.length :=
  (CentralCache.returnBatch_serves (hSound.indexed idx) fun p hp => h.blocks idx p (hBlocks hp)).2.2

/-- How many blocks `returnToCentral` takes from a list of length `n`. -/
def returned (idx : Fin kNumSizeClasses) (n : Nat) : Nat := if n < batchSize idx then n else batchSize idx

theorem returns_eq (h : here.Held shared) (hSound : shared.Sound) (hInit : here.cache.initialized = true)
    (idx : Fin kNumSizeClasses) (next : Busy) :
    here.returns shared idx next = (shared.set idx ((shared.central idx).returnBatch
        ((here.cache.caches idx).take (returned idx (here.cache.caches idx).length))),
      ⟨here.cache.set idx ((here.cache.caches idx).drop (returned idx (here.cache.caches idx).length)), next⟩) := by
  unfold returns
  rw [ThreadLocalCache.returnBuffered_eq hInit fun blocks hBlocks => h.accepts hSound hBlocks,
    ThreadLocalCache.returnToCentral, FreeList.popBatch_eq]
  rfl

/-- A list that is no longer than a batch goes back as a whole. -/
theorem drop_returned (h : list.length ≤ batchSize idx) : list.drop (returned idx list.length) = [] := by
  apply List.drop_eq_nil_of_le
  unfold returned
  split <;> omega

/-- What a step keeps. -/
structure Kept (shared shared' : Centrals) (here' : CachePlace) : Prop where
  sound : shared'.Sound
  held : here'.Held shared'
  grows : shared.Grows shared'

/-- A batch goes back, and no more than the batch was missing room. -/
theorem kept_returns (h : here.Held shared) (hSound : shared.Sound) (hInit : here.cache.initialized = true)
    (idx : Fin kNumSizeClasses) (next : Busy) (hRoom : ∀ i, i ≠ idx → here.busy.room i ≤ next.room i)
    (hReady : next.Ready (here.cache.set idx
      ((here.cache.caches idx).drop (returned idx (here.cache.caches idx).length)))) :
    Kept shared (here.returns shared idx next).1 (here.returns shared idx next).2 := by
  rw [returns_eq h hSound hInit]
  have hTaken : ∀ p ∈ (here.cache.caches idx).take (returned idx (here.cache.caches idx).length),
      (shared.central idx).Block p := fun p hp => h.blocks idx p (List.mem_of_mem_take hp)
  obtain ⟨hIndexed, hKept, _⟩ := CentralCache.returnBatch_serves (hSound.indexed idx) hTaken
  have hGrows := grows_set shared hKept
  refine ⟨Sound.set hSound hIndexed hKept, ?_, hGrows⟩
  apply h.set hGrows
  · exact fun p hp => hGrows idx p (h.blocks idx p (List.mem_of_mem_drop hp))
  · have hLength := h.bounded idx
    have hBatch := (batchSize_bounds idx).1
    have hNext := batch_le_room next idx
    rw [List.length_drop, returned]
    unfold Busy.room at hLength
    split at hLength <;> split <;> omega
  · exact hRoom
  · exact hInit
  · exact hReady

theorem kept_goes (h : here.Held shared) (hSound : shared.Sound) (hBusy : ∀ i, here.busy ≠ .returning i)
    (hReady : busy.Ready here.cache) : Kept shared shared { here with busy := busy } :=
  ⟨hSound, h.goes (room_le hBusy busy) hReady, fun _ _ => id⟩

/-- A batch comes from the central cache into an empty list. -/
theorem kept_fetch {memory : Nat} {ptr : Option Nat} {cache : ThreadLocalCache} (h : here.Held shared)
    (hSound : shared.Sound) (hBusy : here.busy = .fetching idx)
    (hAligned : memory % (shared.central idx).slabSize = 0) (hFresh : (shared.central idx).slabMap memory = none)
    (hFetch : here.cache.fetchFromCentral idx (shared.central idx) memory = (ptr, cache, central)) :
    Kept shared ((shared.set idx central).answer idx ptr) ⟨cache, .idle⟩ := by
  have hReady := h.ready
  rw [hBusy] at hReady
  obtain ⟨hInit, hEmpty⟩ := hReady
  have hFree : ∀ i, here.busy ≠ .returning i := by simp [hBusy]
  cases hBatch : (shared.central idx).fetchBatch memory (batchSize idx) with
  | mk out after =>
      have hListed : memory ∉ (shared.central idx).slabs := by
        rw [(hSound.indexed idx).keys, hFresh]
        rintro ⟨s, hSlab⟩
        cases hSlab
      have hIndexed := (CentralCache.fetchBatch_supplied (hSound.indexed idx) hAligned hListed hBatch).1.indexed
      obtain ⟨hKept, hOut, hLength⟩ := CentralCache.fetchBatch_serves (hSound.indexed idx) hAligned hFresh hBatch
      have hGrows := grows_set shared hKept
      have hSet := Sound.set hSound hIndexed hKept
      have hBlock : ∀ p ∈ out, ((shared.set idx after).central idx).Block p := by
        intro p hp
        rw [central_set, if_pos rfl]
        exact hOut p hp
      cases out with
      | nil =>
          simp only [ThreadLocalCache.fetchFromCentral, hBatch] at hFetch
          cases hFetch
          exact ⟨hSet, (h.grows hGrows).goes (room_le hFree .idle) trivial, hGrows⟩
      | cons first rest =>
          simp only [ThreadLocalCache.fetchFromCentral, hBatch, hEmpty, FreeList.pushBatch_eq, List.append_nil] at hFetch
          cases hFetch
          refine ⟨⟨hSet.indexed, fun b hb => ?_⟩, ?_, hGrows⟩
          · rcases List.mem_cons.mp hb with rfl | hOld
            · exact hBlock first (List.mem_cons_self ..)
            · exact hSet.live b hOld
          · have hGiven : shared.Grows ((shared.set idx central).answer idx (some first)) := hGrows
            apply h.set hGiven
            · exact fun p hp => hBlock p (List.mem_cons_of_mem _ (List.mem_reverse.mp hp))
            · rw [List.length_reverse]
              exact (Nat.le_of_succ_le hLength).trans (batch_le_room _ _)
            · exact fun i _ => room_le hFree .idle i
            · exact hInit
            · trivial

/-- One turn of `drainAll`. -/
theorem kept_drainBatch {i : Nat} {hi : i < kNumSizeClasses} {cache : ThreadLocalCache} (h : here.Held shared)
    (hSound : shared.Sound) (hBusy : here.busy = .leaving i) (hInit : here.cache.initialized = true)
    (hDrain : here.cache.drainBatch ⟨i, hi⟩ (shared.central ⟨i, hi⟩) = some (cache, central)) :
    Kept shared (shared.set ⟨i, hi⟩ central) ⟨cache, .leaving i⟩ := by
  rcases MemoryPool.drainBatch_cases here.cache ⟨i, hi⟩ (shared.central ⟨i, hi⟩) with
    ⟨_, hNone⟩ | ⟨_, hSome⟩
  · rw [hNone] at hDrain
    cases hDrain
  · rw [hSome, FreeList.popBatch_eq] at hDrain
    cases hDrain
    have hReady := h.ready
    rw [hBusy] at hReady
    obtain ⟨hIndexed, hKept, _⟩ := CentralCache.returnBatch_serves (hSound.indexed ⟨i, hi⟩)
      fun p hp => h.blocks ⟨i, hi⟩ p (List.mem_of_mem_take hp)
    have hGrows := grows_set shared hKept
    refine ⟨Sound.set hSound hIndexed hKept, ?_, hGrows⟩
    apply h.set hGrows
    · exact fun p hp => hGrows _ p (h.blocks _ p (List.mem_of_mem_drop hp))
    · rw [List.length_drop]
      exact (Nat.sub_le ..).trans ((h.bounded _).trans (room_le (by simp [hBusy]) _ _))
    · exact fun j _ => room_le (by simp [hBusy]) _ j
    · exact hInit
    · intro j hj
      rw [MemoryPool.caches_set, if_neg fun hSame => absurd (congrArg Fin.val hSame) (Nat.ne_of_lt hj)]
      exact hReady j hj

/-- The first block of a list is handed out. -/
theorem kept_allocate {ptr : Nat} {rest : FreeList} (h : here.Held shared) (hSound : shared.Sound)
    (hBusy : here.busy = .idle) (hInit : here.cache.initialized = true)
    (hList : here.cache.caches idx = ptr :: rest) :
    Kept shared (shared.give idx ptr) ⟨here.cache.set idx rest, .idle⟩ := by
  have hMem : ∀ p ∈ ptr :: rest, (shared.central idx).Block p := by
    rw [← hList]
    exact h.blocks idx
  refine ⟨⟨hSound.indexed, fun b hb => ?_⟩, ?_, fun _ _ => id⟩
  · rcases List.mem_cons.mp hb with rfl | hOld
    · exact hMem ptr (List.mem_cons_self ..)
    · exact hSound.live b hOld
  · have hGiven : shared.Grows (shared.give idx ptr) := fun _ _ => id
    apply h.set hGiven
    · exact fun p hp => hMem p (List.mem_cons_of_mem _ hp)
    · have hLength := h.bounded idx
      rw [hList, hBusy] at hLength
      exact Nat.le_of_succ_le hLength
    · exact fun i _ => room_le (by simp [hBusy]) _ i
    · exact hInit
    · trivial

/-- A block comes back to its list, which may now be one longer than a batch. -/
theorem kept_deallocate {ptr : Nat} (h : here.Held shared) (hSound : shared.Sound)
    (hBusy : here.busy = .idle) (hInit : here.cache.initialized = true) (hLive : (idx, ptr) ∈ shared.live) :
    Kept shared { shared with live := shared.live.erase (idx, ptr) }
      ⟨here.cache.set idx ((here.cache.caches idx).push ptr),
        if ((here.cache.caches idx).push ptr).length > batchSize idx then .returning idx else .idle⟩ := by
  refine ⟨⟨hSound.indexed, fun b hb => hSound.live b (List.mem_of_mem_erase hb)⟩, ?_, fun _ _ => id⟩
  have hTaken : shared.Grows { shared with live := shared.live.erase (idx, ptr) } := fun _ _ => id
  apply h.set hTaken
  · intro p hp
    rcases List.mem_cons.mp hp with rfl | hOld
    · exact hSound.live _ hLive
    · exact h.blocks _ p hOld
  · have hLength := h.bounded idx
    rw [hBusy] at hLength
    rw [FreeList.push, List.length_cons]
    split
    · rw [Busy.room, if_pos rfl]
      exact Nat.succ_le_succ hLength
    · exact (Nat.le_of_not_lt (by assumption)).trans (batch_le_room _ _)
  · exact fun i _ => room_le (by simp [hBusy]) _ i
  · exact hInit
  · split
    · exact hInit
    · trivial

/-- One list in `drain`, which a single batch empties. -/
theorem kept_drain {i : Nat} {hi : i < kNumSizeClasses} (h : here.Held shared) (hSound : shared.Sound)
    (hBusy : here.busy = .draining i) (hSome : here.cache.caches ⟨i, hi⟩ ≠ []) :
    Kept shared (here.returns shared ⟨i, hi⟩ (.draining (i + 1))).1
      (here.returns shared ⟨i, hi⟩ (.draining (i + 1))).2 := by
  have hReady := h.ready
  have hLength := h.bounded ⟨i, hi⟩
  rw [hBusy] at hReady hLength
  have hInit : here.cache.initialized = true := by
    by_contra hNot
    exact hSome (h.unused (by simpa using hNot) _)
  apply kept_returns h hSound hInit
  · exact fun j _ => room_le (by simp [hBusy]) _ j
  · rw [drop_returned hLength]
    intro j hj
    rw [MemoryPool.caches_set]
    split
    · rfl
    · rename_i hne
      exact hReady j (Nat.lt_of_le_of_ne (Nat.le_of_lt_succ hj) fun hSame => hne (Fin.ext hSame))

theorem kept_step {Θ : Type*} {t : Θ} {choice : CacheChoice} (h : here.Held shared) (hSound : shared.Sound)
    (hStep : code t shared here choice = some (shared', here')) : Kept shared shared' here' := by
  obtain ⟨cache, busy⟩ := here
  have hReady := h.ready
  cases busy with
  | idle =>
      have hFree : ∀ i, Busy.idle ≠ .returning i := nofun
      cases choice with
      | init =>
          cases hStep
          exact ⟨hSound, ⟨h.blocks, h.bounded, nofun, trivial⟩, fun _ _ => id⟩
      | allocate size =>
          obtain ⟨⟨hInit, _⟩, hStep⟩ := Option.ite_none_right_eq_some.mp hStep
          dsimp only at hStep
          split at hStep
          · rename_i hEmpty
            cases hStep
            exact kept_goes h hSound hFree ⟨hInit, hEmpty⟩
          · rename_i ptr rest hList
            cases hStep
            exact kept_allocate h hSound rfl hInit hList
      | deallocate ptr size =>
          obtain ⟨⟨hInit, _, _, hLive⟩, hStep⟩ := Option.ite_none_right_eq_some.mp hStep
          cases hStep
          exact kept_deallocate h hSound rfl hInit hLive
      | drain =>
          cases hStep
          exact kept_goes h hSound hFree fun j hj => absurd hj (Nat.not_lt_zero _)
      | exit =>
          cases hStep
          exact kept_goes h hSound hFree fun j hj => absurd hj (Nat.not_lt_zero _)
      | enter memory => cases hStep
  | fetching idx =>
      cases choice with
      | enter memory =>
          obtain ⟨⟨_, hAligned, hFresh⟩, hStep⟩ := Option.ite_none_right_eq_some.mp hStep
          have hNone := Option.isNone_iff_eq_none.mp (hFresh idx)
          have hLength : ((shared.central idx).fetchBatch memory (batchSize idx)).1.length ≤ 64 :=
            (CentralCache.fetchBatch_serves (hSound.indexed idx) hAligned hNone rfl).2.2.trans (batchSize_bounds idx).2
          dsimp only at hStep
          rw [ThreadLocalCache.fetchBuffered_eq hReady.1 hLength] at hStep
          cases hStep
          exact kept_fetch h hSound rfl hAligned hNone rfl
      | _ => cases hStep
  | returning idx =>
      cases choice with
      | enter memory =>
          have hKept := kept_returns h hSound hReady idx .idle
            (fun i hi => by simp [Busy.room, Ne.symm hi]) trivial
          rw [Option.some.inj hStep] at hKept
          exact hKept
      | _ => cases hStep
  | draining i =>
      cases choice with
      | enter memory =>
          simp only [code] at hStep
          split at hStep
          · rename_i hi
            split at hStep
            · rename_i hSome
              have hKept := kept_drain h hSound rfl (List.length_pos_iff.mp hSome)
              rw [Option.some.inj hStep] at hKept
              exact hKept
            · rename_i hNone
              cases hStep
              apply kept_goes h hSound (by simp)
              exact MemoryPool.empty_succ hReady (List.length_eq_zero_iff.mp (Nat.eq_zero_of_not_pos hNone))
          · cases hStep
            exact kept_goes h hSound (by simp) trivial
      | _ => cases hStep
  | leaving i =>
      cases choice with
      | enter memory =>
          simp only [code, ThreadLocalCache.drainBuffered_eq] at hStep
          split at hStep
          · rename_i hi
            split at hStep
            · rename_i hInit
              cases hDrain : cache.drainBatch ⟨i, hi⟩ (shared.central ⟨i, hi⟩) with
              | none =>
                  rw [hDrain] at hStep
                  cases hStep
                  apply kept_goes h hSound (by simp)
                  rcases MemoryPool.drainBatch_cases cache ⟨i, hi⟩ (shared.central ⟨i, hi⟩) with
                    ⟨hEmpty, _⟩ | ⟨_, hSome⟩
                  · exact MemoryPool.empty_succ hReady hEmpty
                  · rw [hDrain] at hSome
                    cases hSome
              | some after =>
                  obtain ⟨left, central⟩ := after
                  rw [hDrain] at hStep
                  cases hStep
                  exact kept_drainBatch h hSound rfl hInit hDrain
            · rename_i hNot
              cases hStep
              apply kept_goes h hSound (by simp)
              exact MemoryPool.empty_succ hReady (h.unused (by simpa using hNot) ⟨i, hi⟩)
          · rename_i hEnd
            cases hStep
            have hEmpty : ∀ j, cache.caches j = [] := fun j => hReady j (by omega)
            refine ⟨hSound, ⟨h.blocks, fun j => ?_, fun _ => hEmpty, hEmpty⟩, fun _ _ => id⟩
            exact (h.bounded j).trans (batch_le_room _ j)
      | _ => cases hStep
  | gone => cases choice <;> cases hStep
  | broken => exact hReady.elim

variable {Θ : Type*} {t : Θ} {c : Config Θ Centrals CachePlace}

/-- A thread in `drain` goes on to the next class, or is done with all. -/
theorem draining_step {n : Nat} {choice : CacheChoice} (h : here.Held shared) (hSound : shared.Sound)
    (hBusy : here.busy = .draining n) (hStep : code t shared here choice = some (shared', here')) :
    n < kNumSizeClasses ∧ here'.busy = .draining (n + 1) ∨
      kNumSizeClasses ≤ n ∧ here'.busy = .idle ∧ ∀ idx, here'.cache.caches idx = [] := by
  have hReady := h.ready
  obtain ⟨cache, busy⟩ := here
  cases hBusy
  cases choice with
  | enter memory =>
      simp only [code] at hStep
      split at hStep
      · rename_i hn
        refine .inl ⟨hn, ?_⟩
        split at hStep
        · rename_i hSome
          have hInit : cache.initialized = true := by
            by_contra hNot
            rw [h.unused (by simpa using hNot)] at hSome
            cases hSome
          rw [returns_eq h hSound hInit] at hStep
          cases hStep
          rfl
        · cases hStep
          rfl
      · rename_i hEnd
        cases hStep
        exact .inr ⟨Nat.le_of_not_lt hEnd, rfl, fun idx => hReady idx (by omega)⟩
  | _ => cases hStep

theorem draining_enabled (t : Θ) (shared : Centrals) {n : Nat} (hBusy : here.busy = .draining n) :
    ∃ after, code t shared here (.enter 0) = some after := by
  obtain ⟨cache, busy⟩ := here
  cases hBusy
  simp only [code]
  split
  · split <;> exact ⟨_, rfl⟩
  · exact ⟨_, rfl⟩

/-- What the threads hold between any two steps. -/
structure AllHeld (c : Config Θ Centrals CachePlace) : Prop where
  sound : c.shared.Sound
  held : ∀ t, (c.here t).Held c.shared

theorem allHeld_start {slabSize : Fin kNumSizeClasses → Nat} (hFits : ∀ idx, blockSize idx ≤ slabSize idx) :
    AllHeld (start slabSize : Config Θ Centrals CachePlace) := by
  constructor
  case sound =>
    refine ⟨fun idx => CentralCache.indexed_init ?_ (hFits idx), fun _ => nofun⟩
    exact Nat.lt_of_lt_of_le (by decide) (blockSize_bounds idx).1
  case held => exact fun t => ⟨fun _ _ => nofun, fun idx => Nat.zero_le _, fun _ _ => rfl, trivial⟩

variable [DecidableEq Θ]

theorem AllHeld.step {choice : CacheChoice} (h : AllHeld c)
    (hStep : code t c.shared (c.here t) choice = some (shared', here')) :
    AllHeld ⟨shared', Function.update c.here t here'⟩ := by
  obtain ⟨hSound, hHeld, hGrows⟩ := kept_step (h.held t) h.sound hStep
  refine ⟨hSound, fun u => ?_⟩
  dsimp only
  by_cases hu : u = t
  · subst hu
    rw [Function.update_self]
    exact hHeld
  · rw [Function.update_of_ne hu]
    exact (h.held u).grows hGrows

/-- The steps of one thread. -/
def moves (t : Θ) (c d : Config Θ Centrals CachePlace) : Prop :=
  ∃ choice, Program.next code c t choice = some d

theorem moves_of_draining {n : Nat} (hBusy : (c.here t).busy = .draining n) : ∃ d, moves t c d := by
  obtain ⟨⟨shared', here'⟩, hStep⟩ := draining_enabled t c.shared hBusy
  exact ⟨_, .enter 0, Program.next_eq_some.mpr ⟨shared', here', hStep, rfl⟩⟩

/-- `drain` comes to its end, and then all lists are empty. -/
theorem AllHeld.drains {n : Nat} (h : AllHeld c) (hBusy : (c.here t).busy = .draining n) :
    Inevitable (moves t) (fun d => (d.here t).busy = .idle ∧ ∀ idx, (d.here t).cache.caches idx = []) c := by
  induction hLeft : kNumSizeClasses + 1 - n generalizing n c with
  | zero =>
      refine .later (moves_of_draining hBusy) ?_
      rintro d ⟨choice, hNext⟩
      obtain ⟨shared', here', hStep, rfl⟩ := Program.next_eq_some.mp hNext
      rcases draining_step (h.held t) h.sound hBusy hStep with ⟨hn, _⟩ | ⟨_, hDone⟩
      · omega
      · apply Inevitable.done
        dsimp only
        rw [Function.update_self]
        exact hDone
  | succ left ih =>
      refine .later (moves_of_draining hBusy) ?_
      rintro d ⟨choice, hNext⟩
      obtain ⟨shared', here', hStep, rfl⟩ := Program.next_eq_some.mp hNext
      rcases draining_step (h.held t) h.sound hBusy hStep with ⟨_, hNextClass⟩ | ⟨_, hDone⟩
      · apply ih (h.step hStep) (n := n + 1)
        · dsimp only
          rw [Function.update_self]
          exact hNextClass
        · omega
      · apply Inevitable.done
        dsimp only
        rw [Function.update_self]
        exact hDone

/-- How the caches of the threads stay within their bounds. -/
structure WithinBounds (c : Config Θ Centrals CachePlace) : Prop where
  /-- Only on its way to the central cache is a list longer than a batch. -/
  bounded : ∀ t idx, (c.here t).busy ≠ .returning idx →
    ((c.here t).cache.caches idx).length ≤ batchSize idx
  /-- No buffer was indexed out of range, and no assertion has failed. -/
  unbroken : ∀ t, (c.here t).busy ≠ .broken
  accepted : ∀ t idx, ∀ blocks ⊆ (c.here t).cache.caches idx,
    (CentralCache.returnLoop blocks (c.shared.central idx)).1 = blocks.length
  /-- However the other threads go on, `drain` leaves all lists empty. -/
  drained : ∀ t n d, (c.here t).busy = .draining n → moves t c d → (d.here t).busy = .idle →
    ∀ idx, (d.here t).cache.caches idx = []
  drains : ∀ t n, (c.here t).busy = .draining n →
    Inevitable (moves t) (fun d => (d.here t).busy = .idle ∧ ∀ idx, (d.here t).cache.caches idx = []) c

/-- The bounds are kept in every run of the threads. -/
theorem withinBounds (reach : Reach code Starting anyStep c) : WithinBounds c := by
  have h : AllHeld c := by
    apply reach.invariant
    · rintro c ⟨slabSize, hSizes, rfl⟩
      exact allHeld_start fun idx => (hSizes idx).1
    · exact fun c t choice shared' here' _ h _ hStep => h.step hStep
  constructor
  case bounded =>
    intro t idx hBusy
    have hLength := (h.held t).bounded idx
    rwa [Busy.room, if_neg hBusy] at hLength
  case unbroken =>
    intro t hBroken
    have hReady := (h.held t).ready
    rw [hBroken] at hReady
    exact hReady
  case accepted => exact fun t idx blocks hBlocks => (h.held t).accepts h.sound hBlocks
  case drained =>
    rintro t n d hBusy ⟨choice, hNext⟩ hIdle
    obtain ⟨shared', here', hStep, rfl⟩ := Program.next_eq_some.mp hNext
    dsimp only at hIdle ⊢
    rw [Function.update_self] at hIdle ⊢
    rcases draining_step (h.held t) h.sound hBusy hStep with ⟨_, hNextClass⟩ | ⟨_, _, hEmpty⟩
    · rw [hNextClass] at hIdle
      cases hIdle
    · exact hEmpty
  case drains => exact fun t n hBusy => h.drains hBusy

section Runs

/-- Two threads with blocks of the largest class, of which two are a batch: thread 1 frees three,
and thread 0 is in `drain`. -/
def afterThree : Config (Fin 2) Centrals CachePlace :=
  (Program.replay code anyStep (start fun _ => 2 ^ 12)
    [(0, .init), (1, .init), (0, .allocate 2000), (0, .enter 4096), (0, .allocate 2048), (1, .allocate 1500),
      (1, .enter 8192), (1, .deallocate 6144 2048), (1, .deallocate 4096 1100), (1, .enter 0),
      (0, .drain), (0, .enter 0)]).get (by decide +kernel)

theorem withinBounds_afterThree : WithinBounds afterThree :=
  withinBounds (.replay (.start ⟨fun _ => 2 ^ 12,
    fun idx => ⟨(blockSize_bounds idx).2.trans (show 2048 ≤ 2 ^ 12 by decide), 12, rfl⟩, rfl⟩)
    (Option.some_get _).symm)

end Runs

end CachePlace

end Memory
