import V2Engine.Memory.PoolSupply

/-! Several pools, which come and go while the threads keep a cache for each of them
(core/common/memory/memory_pool.hpp and thread_local_cache.hpp). A cache outlives its pool if
the thread does. -/
namespace Memory

open Interleaving SizeClass

/-- The length of the array `poolCaches`. -/
def kMaxPools : Nat := 16

/-- Blocks that a drain has brought to a central cache, and whether the pool was still there. -/
structure Touch where
  pool : Nat
  alive : Bool
  idx : Fin kNumSizeClasses
  blocks : List Nat

/-- A pool is named by its `poolId_`, which is the number of pools constructed before. From
`indexed` on the fields are a record: the elements of `poolCaches` that were asked for, and what
drains have touched. -/
structure Pools where
  nextPoolId : Nat
  heaps : Nat → Heap
  alive : Nat → Bool
  indexed : List Nat
  touched : List Touch

/-- Where a thread stands: in a call of a pool, in `drain`, or in the destructors of its caches,
which run from the last to the first. -/
inductive Doing where
  | idle
  | calling (pool : Nat)
  | draining (pool i : Nat)
  | leaving (caches : Nat)
  | gone
  deriving DecidableEq

structure ThreadCaches where
  caches : Nat → Place
  doing : Doing

inductive PoolsChoice where
  | construct (slabSize maxAllocSize : Nat)
  | destroy (pool : Nat)
  | allocate (pool size alignment region : Nat)
  | deallocate (pool ptr size alignment : Nat)
  | enter (memory : Nat)
  | drain (pool : Nat)
  | exit

namespace Pools

def setHeap (pools : Pools) (p : Nat) (heap : Heap) : Pools :=
  { pools with heaps := Function.update pools.heaps p heap }

/-- `poolCaches[poolId_]` is looked up for a small request. -/
def index (pools : Pools) (p size alignment : Nat) : Pools :=
  if (pools.heaps p).pool.serves size alignment then { pools with indexed := p :: pools.indexed } else pools

/-- A batch from the list of class `idx` goes back, if the list is not empty. -/
def touch (pools : Pools) (p : Nat) (idx : Fin kNumSizeClasses) (blocks : List Nat) : Pools :=
  if blocks = [] then pools
  else { pools with touched := ⟨p, pools.alive p, idx, blocks⟩ :: pools.touched }

end Pools

namespace ThreadCaches

def setPlace (here : ThreadCaches) (p : Nat) (place : Place) (doing : Doing) : ThreadCaches :=
  ⟨Function.update here.caches p place, doing⟩

/-- A call of a pool is over, or waits for the mutex of a central cache. -/
def called (here : ThreadCaches) (p : Nat) (place : Place) : ThreadCaches :=
  here.setPlace p place (if place.call = .idle then .idle else .calling p)

end ThreadCaches

/-- How many blocks `returnToCentral` takes from a list. -/
def returnCount (list : FreeList) (idx : Fin kNumSizeClasses) : Nat :=
  if list.length < batchSize idx then list.length else batchSize idx

/-- The batch that `drainAll` is about to take, and its class. -/
def Place.batch? (place : Place) : Option (Fin kNumSizeClasses × List Nat) :=
  match place.call with
  | .draining i =>
      if h : i < kNumSizeClasses then
        if place.cache.initialized then
          some (⟨i, h⟩, ((place.cache.caches ⟨i, h⟩).popBatch ThreadLocalCache.kMaxBatchSize).1)
        else none
      else none
  | _ => none

namespace Pools

/-- One step of a thread. A pool is destroyed after all its blocks were freed, and is not called
afterwards. -/
def code {Θ : Type*} : Program Θ Pools ThreadCaches PoolsChoice := fun t pools here choice =>
  match here.doing, choice with
  | .idle, .construct slabSize maxAllocSize =>
      match MemoryPool.construct slabSize maxAllocSize with
      | none => some ({ pools with nextPoolId := pools.nextPoolId + 1 }, here)
      | some pool => some ({ pools with
          nextPoolId := pools.nextPoolId + 1
          heaps := Function.update pools.heaps pools.nextPoolId ⟨pool, []⟩
          alive := Function.update pools.alive pools.nextPoolId true }, here)
  | .idle, .destroy p =>
      if pools.alive p = true ∧ (pools.heaps p).live = [] then
        some ({ pools with alive := Function.update pools.alive p false }, here)
      else none
  | .idle, .allocate p size alignment region =>
      if pools.alive p then
        (MemoryPool.code t (pools.heaps p) (here.caches p) (.allocate size alignment region)).map fun after =>
          ((pools.index p size alignment).setHeap p after.1, here.called p after.2)
      else none
  | .idle, .deallocate p ptr size alignment =>
      if pools.alive p then
        (MemoryPool.code t (pools.heaps p) (here.caches p) (.deallocate ptr size alignment)).map fun after =>
          ((if ptr = 0 then pools else pools.index p size alignment).setHeap p after.1, here.called p after.2)
      else none
  | .calling p, .enter memory =>
      (MemoryPool.code t (pools.heaps p) (here.caches p) (.enter memory)).map fun after =>
        (pools.setHeap p after.1, here.called p after.2)
  | .idle, .drain p => if p < kMaxPools then some (pools, { here with doing := .draining p 0 }) else none
  | .draining p i, .enter _ =>
      if h : i < kNumSizeClasses then
        let list := (here.caches p).cache.caches ⟨i, h⟩
        if list = [] then some (pools, { here with doing := .draining p (i + 1) })
        else
          let (cache, central) := (here.caches p).cache.returnToCentral ⟨i, h⟩ ((pools.heaps p).pool.central ⟨i, h⟩)
          some ((pools.touch p ⟨i, h⟩ (list.popBatch (returnCount list ⟨i, h⟩)).1).setHeap p
            ((pools.heaps p).setCentral ⟨i, h⟩ central),
            here.setPlace p ⟨cache, (here.caches p).call⟩ (.draining p (i + 1)))
      else some (pools, { here with doing := .idle })
  | .idle, .exit => some (pools, { here with doing := .leaving kMaxPools })
  | .leaving 0, .exit => some (pools, { here with doing := .gone })
  | .leaving (p + 1), .exit =>
      match (here.caches p).call with
      | .gone => some (pools, { here with doing := .leaving p })
      | .idle => (MemoryPool.code t (pools.heaps p) (here.caches p) .exit).map fun after =>
          (pools.setHeap p after.1, here.setPlace p after.2 (.leaving (p + 1)))
      | _ => (MemoryPool.code t (pools.heaps p) (here.caches p) (.enter 0)).map fun after =>
          let touched := match (here.caches p).batch? with
            | none => pools
            | some (idx, blocks) => pools.touch p idx blocks
          (touched.setHeap p after.1, here.setPlace p after.2 (.leaving (p + 1)))
  | _, _ => none

def start {Θ : Type*} : Config Θ Pools ThreadCaches :=
  ⟨⟨0, fun _ => ⟨.create 0 0, []⟩, fun _ => false, [], []⟩,
    fun _ => ⟨fun _ => ⟨⟨false, fun _ => []⟩, .idle⟩, .idle⟩⟩

/-- No thread is in a call of a pool that is destroyed. -/
def wellUsed {Θ : Type*} (c : Config Θ Pools ThreadCaches) (_ : Θ) : PoolsChoice → Prop
  | .destroy p => ∀ t, (c.here t).doing ≠ .calling p
  | _ => True

/-- No cache holds a block of a pool that is destroyed, and small requests go to the first sixteen
pools only. -/
def keepsCaches {Θ : Type*} (c : Config Θ Pools ThreadCaches) (t : Θ) (choice : PoolsChoice) : Prop :=
  wellUsed c t choice ∧ match choice with
    | .destroy p => ∀ t idx, ((c.here t).caches p).cache.caches idx = []
    | .allocate p size alignment _ => (c.shared.heaps p).pool.serves size alignment → p < kMaxPools
    | _ => True

section Decide

variable {Θ : Type*} [Fintype Θ] (c : Config Θ Pools ThreadCaches) (t : Θ) (choice : PoolsChoice)

instance : Decidable (wellUsed c t choice) := by
  cases choice <;> unfold wellUsed <;> infer_instance

instance : Decidable (keepsCaches c t choice) := by
  cases choice <;> unfold keepsCaches <;> infer_instance

end Decide

/-- Drains touch living pools and their blocks only, and no element of `poolCaches` behind its
end is used. -/
structure Lasting (pools : Pools) : Prop where
  touched : ∀ touch ∈ pools.touched, touch.alive = true ∧
    ∀ p ∈ touch.blocks, (pools.heaps touch.pool).Holds touch.idx p
  indexed : ∀ p ∈ pools.indexed, p < kMaxPools

/-- What a thread may find when it comes to its cache of a pool. -/
structure Apart (pools : Pools) (p : Nat) (place : Place) (doing : Doing) : Prop where
  stocked : place.Stocked (pools.heaps p)
  empty : pools.alive p = false → ∀ idx, place.cache.caches idx = []
  fetching : ∀ size alignment, place.call = .fetching size alignment → doing = .calling p ∧ p < kMaxPools

/-- The caches of a dead pool are empty, and nobody is about to fill one. -/
structure Housed {Θ : Type*} (c : Config Θ Pools ThreadCaches) : Prop extends Lasting c.shared where
  stocked : ∀ p, (c.shared.heaps p).Stocked
  constructed : ∀ p, c.shared.alive p = true → p < c.shared.nextPoolId
  apart : ∀ t p, Apart c.shared p ((c.here t).caches p) (c.here t).doing
  calling : ∀ t p, (c.here t).doing = .calling p → c.shared.alive p = true
  small : ∀ p, ∀ a ∈ (c.shared.heaps p).live,
    (c.shared.heaps p).pool.serves a.size a.alignment → p < kMaxPools
  earlier : ∀ touch ∈ c.shared.touched, touch.pool < c.shared.nextPoolId

/-- What a step may do to the pools that uses one of them. -/
structure Uses (pools : Pools) (p : Nat) (heap : Heap) (pools' : Pools) : Prop where
  nextPoolId : pools'.nextPoolId = pools.nextPoolId
  alive : pools'.alive = pools.alive
  heaps : pools'.heaps = Function.update pools.heaps p heap
  touched : ∀ touch ∈ pools'.touched, touch ∈ pools.touched ∨ (touch.pool = p ∧
    touch.alive = true ∧ pools.alive p = true ∧ ∀ b ∈ touch.blocks, heap.Holds touch.idx b)
  indexed : ∀ q ∈ pools'.indexed, q ∈ pools.indexed ∨ q < kMaxPools

end Pools

section OneCall

variable {Θ : Type*} {t : Θ} {heap heap' : Heap} {here here' : Place} {choice : Choice}

/-- Where the pointers and the blocks come from that a step adds. -/
structure Traced (heap : Heap) (here : Place) (choice : Choice) (heap' : Heap) (here' : Place) : Prop where
  waits : ∀ size alignment, here'.call = .fetching size alignment →
    here.call = .idle ∧ heap.pool.serves size alignment ∧ ∃ region, choice = .allocate size alignment region
  live : ∀ a ∈ heap'.live, a ∈ heap.live ∨ here.call = .fetching a.size a.alignment ∨
    ∃ region, choice = .allocate a.size a.alignment region
  lists : (∀ size alignment, here.call ≠ .fetching size alignment) →
    (∀ ptr size alignment, choice ≠ .deallocate ptr size alignment) →
    ∀ idx, here'.cache.caches idx ⊆ here.cache.caches idx

/-- A list that loses blocks, next to the others. -/
theorem ThreadLocalCache.set_subset (cache : ThreadLocalCache) (initialized : Bool) {idx : Fin kNumSizeClasses}
    {list : FreeList} (h : list ⊆ cache.caches idx) (i : Fin kNumSizeClasses) :
    (ThreadLocalCache.set ⟨initialized, cache.caches⟩ idx list).caches i ⊆ cache.caches i := by
  intro p hp
  rw [MemoryPool.caches_set] at hp
  split at hp
  · rename_i hi
    subst hi
    exact h hp
  · exact hp

theorem ThreadLocalCache.popBatch_subset (list : FreeList) (n : Nat) : (list.popBatch n).2 ⊆ list :=
  fun _ hp => mem_popBatch (.inr hp)

theorem code_traced (hStep : MemoryPool.code t heap here choice = some (heap', here')) :
    Traced heap here choice heap' here' := by
  obtain ⟨cache, call⟩ := here
  have hSame : ∀ a ∈ heap.live, a ∈ heap.live ∨ call = .fetching a.size a.alignment ∨
      ∃ region, choice = .allocate a.size a.alignment region := fun a ha => .inl ha
  cases call with
  | idle =>
      cases choice with
      | allocate size alignment region =>
          have hGiven : ∀ ptr, ∀ a ∈ (heap.give ptr size alignment).live,
              a ∈ heap.live ∨ Call.idle = .fetching a.size a.alignment ∨
                ∃ r, Choice.allocate size alignment region = .allocate a.size a.alignment r := by
            intro ptr a ha
            rcases List.mem_cons.mp ha with rfl | hOld
            · exact .inr (.inr ⟨region, rfl⟩)
            · exact .inl hOld
          obtain ⟨_, hStep⟩ := Option.ite_none_right_eq_some.mp hStep
          split at hStep
          · rename_i hServes
            dsimp only at hStep
            split at hStep
            · cases hStep
              refine ⟨fun _ _ hCall => ?_, hSame, fun _ _ _ => List.Subset.refl _⟩
              cases hCall
              exact ⟨rfl, hServes, region, rfl⟩
            · rename_i ptr rest hList
              cases hStep
              refine ⟨(fun _ _ hCall => by cases hCall), hGiven ptr, fun _ _ => cache.set_subset true ?_⟩
              rw [hList]
              exact List.subset_cons_self ..
          · obtain ⟨_, hStep⟩ := Option.ite_none_right_eq_some.mp hStep
            cases hStep
            exact ⟨(fun _ _ hCall => by cases hCall), hGiven region, fun _ _ _ => List.Subset.refl _⟩
      | deallocate ptr size alignment =>
          simp only [MemoryPool.code] at hStep
          split at hStep
          · cases hStep
            exact ⟨(fun _ _ hCall => by cases hCall), hSame, fun _ hChoice => (hChoice _ _ _ rfl).elim⟩
          · obtain ⟨_, hStep⟩ := Option.ite_none_right_eq_some.mp hStep
            split at hStep <;> cases hStep
            · refine ⟨fun _ _ hCall => ?_, fun a ha => .inl (List.mem_of_mem_erase ha),
                fun _ hChoice => (hChoice _ _ _ rfl).elim⟩
              dsimp only at hCall
              split at hCall <;> cases hCall
            · exact ⟨(fun _ _ hCall => by cases hCall), fun a ha => .inl (List.mem_of_mem_erase ha),
                fun _ hChoice => (hChoice _ _ _ rfl).elim⟩
      | exit =>
          cases hStep
          exact ⟨(fun _ _ hCall => by cases hCall), hSame, fun _ _ _ => List.Subset.refl _⟩
      | enter memory => cases hStep
  | fetching size alignment =>
      cases choice with
      | enter memory =>
          obtain ⟨_, _, rfl, rfl⟩ := code_fetching hStep
          refine ⟨(fun _ _ hCall => by cases hCall), fun a ha => ?_, fun hCall => (hCall _ _ rfl).elim⟩
          unfold Heap.answer at ha
          split at ha
          · exact .inl ha
          · rcases List.mem_cons.mp ha with rfl | hOld
            · exact .inr (.inl rfl)
            · exact .inl hOld
      | _ => cases hStep
  | returning idx =>
      cases choice with
      | enter memory =>
          cases hStep
          exact ⟨(fun _ _ hCall => by cases hCall), hSame, fun _ _ => cache.set_subset cache.initialized
            (ThreadLocalCache.popBatch_subset ..)⟩
      | _ => cases hStep
  | draining i =>
      cases choice with
      | enter memory =>
          have hDrain : MemoryPool.drain heap cache i = (heap', here') := Option.some.inj hStep
          rcases MemoryPool.drain_cases heap cache i with ⟨hi, _, hCase⟩ | ⟨hi, _, hCase⟩ | ⟨_, hCase⟩ <;>
            rw [hCase] at hDrain <;> cases hDrain
          · exact ⟨(fun _ _ hCall => by cases hCall), hSame, fun _ _ _ => List.Subset.refl _⟩
          · exact ⟨(fun _ _ hCall => by cases hCall), hSame, fun _ _ => cache.set_subset cache.initialized
              (ThreadLocalCache.popBatch_subset ..)⟩
          · exact ⟨(fun _ _ hCall => by cases hCall), hSame, fun _ _ _ => List.Subset.refl _⟩
      | _ => cases hStep
  | gone => cases choice <;> cases hStep

/-- What goes back was in the hands of a caller. -/
theorem mem_live_of_code {ptr size alignment : Nat} {after : Heap × Place}
    (hStep : MemoryPool.code t heap here (.deallocate ptr size alignment) = some after) (hPtr : ptr ≠ 0) :
    ⟨ptr, size, alignment⟩ ∈ heap.live := by
  obtain ⟨cache, call⟩ := here
  cases call with
  | idle =>
      simp only [MemoryPool.code, if_neg hPtr] at hStep
      exact (Option.ite_none_right_eq_some.mp hStep).1
  | _ => cases hStep

end OneCall

namespace Pools

section Steps

variable {Θ : Type*} {pools pools' : Pools} {p : Nat} {heap : Heap}

theorem Uses.itself (uses : Uses pools p heap pools') : pools'.heaps p = heap := by
  rw [uses.heaps, Function.update_self]

theorem Uses.others (uses : Uses pools p heap pools') {q : Nat} (hq : q ≠ p) :
    pools'.heaps q = pools.heaps q := by
  rw [uses.heaps, Function.update_of_ne hq]

/-- No pool loses slabs. -/
theorem Uses.grown (uses : Uses pools p heap pools') (hGrown : Heap.Grown (pools.heaps p) heap) (q : Nat) :
    Heap.Grown (pools.heaps q) (pools'.heaps q) := by
  by_cases hq : q = p
  · subst hq
    rw [uses.itself]
    exact hGrown
  · rw [uses.others hq]
    exact .refl _

theorem Apart.grown {q : Nat} {place : Place} {doing : Doing} (apart : Apart pools q place doing)
    (hAlive : pools'.alive = pools.alive) (hGrown : Heap.Grown (pools.heaps q) (pools'.heaps q)) :
    Apart pools' q place doing :=
  ⟨apart.stocked.grown hGrown, fun hDead => apart.empty (hAlive ▸ hDead), apart.fetching⟩

variable [DecidableEq Θ] {c : Config Θ Pools ThreadCaches} {t : Θ}

/-- A thread does something with one pool and goes on. -/
theorem Housed.used (h : Housed c) {place : Place} {doing : Doing} (uses : Uses c.shared p heap pools')
    (hStocked : heap.Stocked) (hGrown : Heap.Grown (c.shared.heaps p) heap)
    (hApart : Apart pools' p place doing)
    (hSmall : ∀ a ∈ heap.live, heap.pool.serves a.size a.alignment → p < kMaxPools)
    (hCalling : ∀ q, doing = .calling q → c.shared.alive q = true)
    (hOthers : ∀ q ≠ p, (c.here t).doing ≠ .calling q) :
    Housed ⟨pools', Function.update c.here t ((c.here t).setPlace p place doing)⟩ where
  touched touch hTouch := by
    rcases uses.touched touch hTouch with hOld | ⟨hPool, hAlive, _, hHolds⟩
    · obtain ⟨hAlive, hHolds⟩ := h.touched touch hOld
      exact ⟨hAlive, fun b hb => (hHolds b hb).grown (uses.grown hGrown _)⟩
    · subst hPool
      refine ⟨hAlive, fun b hb => ?_⟩
      show (pools'.heaps touch.pool).Holds touch.idx b
      rw [uses.itself]
      exact hHolds b hb
  indexed q hq := (uses.indexed q hq).elim (h.indexed q) id
  stocked q := by
    show (pools'.heaps q).Stocked
    by_cases hq : q = p
    · subst hq
      rw [uses.itself]
      exact hStocked
    · rw [uses.others hq]
      exact h.stocked q
  constructed q hAlive := by
    show q < pools'.nextPoolId
    rw [uses.nextPoolId]
    apply h.constructed
    rw [← uses.alive]
    exact hAlive
  apart u q := by
    show Apart pools' q ((Function.update c.here t _ u).caches q) (Function.update c.here t _ u).doing
    by_cases hu : u = t
    · subst hu
      rw [Function.update_self]
      by_cases hq : q = p
      · subst hq
        simp only [ThreadCaches.setPlace, Function.update_self]
        exact hApart
      · simp only [ThreadCaches.setPlace, Function.update_of_ne hq]
        obtain ⟨hPlace, hEmpty, hFetching⟩ := (h.apart u q).grown uses.alive (uses.grown hGrown q)
        refine ⟨hPlace, hEmpty, fun size alignment hCall => ?_⟩
        exact absurd (hFetching size alignment hCall).1 (hOthers q hq)
    · rw [Function.update_of_ne hu]
      exact (h.apart u q).grown uses.alive (uses.grown hGrown q)
  calling u q hDoing := by
    show pools'.alive q = true
    rw [uses.alive]
    replace hDoing : (Function.update c.here t ((c.here t).setPlace p place doing) u).doing = .calling q := hDoing
    by_cases hu : u = t
    · subst hu
      rw [Function.update_self] at hDoing
      exact hCalling q hDoing
    · rw [Function.update_of_ne hu] at hDoing
      exact h.calling u q hDoing
  small q := by
    show ∀ a ∈ (pools'.heaps q).live, (pools'.heaps q).pool.serves a.size a.alignment → q < kMaxPools
    by_cases hq : q = p
    · subst hq
      rw [uses.itself]
      exact hSmall
    · rw [uses.others hq]
      exact h.small q
  earlier touch hTouch := by
    show touch.pool < pools'.nextPoolId
    rw [uses.nextPoolId]
    rcases uses.touched touch hTouch with hOld | ⟨hPool, _, hAlive, _⟩
    · exact h.earlier touch hOld
    · exact hPool ▸ h.constructed p hAlive

/-- A step of a call, from which the thread returns or in which it then waits. -/
theorem Housed.called (h : Housed c) {place : Place} {choice : Choice} (uses : Uses c.shared p heap pools')
    (hAlive : c.shared.alive p = true) (hDoing : (c.here t).doing = .idle ∨ (c.here t).doing = .calling p)
    (hStep : MemoryPool.code t (c.shared.heaps p) ((c.here t).caches p) choice = some (heap, place))
    (hChoice : ∀ size alignment region, choice = .allocate size alignment region →
      (c.shared.heaps p).pool.serves size alignment → p < kMaxPools) :
    Housed ⟨pools', Function.update c.here t ((c.here t).called p place)⟩ := by
  obtain ⟨hStocked, hPlace, hGrown⟩ := stocked_step (h.stocked p) (h.apart t p).stocked hStep
  have traced := code_traced hStep
  apply h.used uses hStocked hGrown
  · refine ⟨?_, fun hDead => ?_, fun size alignment hCall => ?_⟩
    · rw [uses.itself]
      exact hPlace
    · rw [uses.alive, hAlive] at hDead
      cases hDead
    · obtain ⟨_, hServes, region, hAllocate⟩ := traced.waits size alignment hCall
      rw [if_neg (by simp [hCall])]
      exact ⟨rfl, hChoice size alignment region hAllocate hServes⟩
  · intro a ha hServes
    rw [hGrown.serves] at hServes
    rcases traced.live a ha with hOld | hFetching | ⟨region, hAllocate⟩
    · exact h.small p a hOld hServes
    · exact ((h.apart t p).fetching _ _ hFetching).2
    · exact hChoice _ _ region hAllocate hServes
  · intro q hq
    split at hq <;> cases hq
    exact hAlive
  · intro q hq hCalling
    rcases hDoing with hIdle | hHere
    · rw [hIdle] at hCalling
      cases hCalling
    · rw [hHere] at hCalling
      cases hCalling
      exact hq rfl

/-- A step outside the calls of a pool, in which caches lose blocks only. -/
theorem Housed.emptied (h : Housed c) {place : Place} {doing : Doing} (uses : Uses c.shared p heap pools')
    (hStocked : heap.Stocked) (hGrown : Heap.Grown (c.shared.heaps p) heap) (hPlace : place.Stocked heap)
    (hLive : heap.live ⊆ (c.shared.heaps p).live) (hCall : ∀ size alignment, place.call ≠ .fetching size alignment)
    (hLists : ∀ idx, place.cache.caches idx ⊆ ((c.here t).caches p).cache.caches idx)
    (hBefore : ∀ q, (c.here t).doing ≠ .calling q) (hAfter : ∀ q, doing ≠ .calling q) :
    Housed ⟨pools', Function.update c.here t ((c.here t).setPlace p place doing)⟩ := by
  apply h.used uses hStocked hGrown
  · refine ⟨?_, fun hDead idx => ?_, fun size alignment hFetching => absurd hFetching (hCall size alignment)⟩
    · rw [uses.itself]
      exact hPlace
    · rw [uses.alive] at hDead
      have hEmpty := (h.apart t p).empty hDead idx
      have hSubset := hLists idx
      rw [hEmpty] at hSubset
      exact List.subset_nil.mp hSubset
  · intro a ha hServes
    rw [hGrown.serves] at hServes
    exact h.small p a (hLive ha) hServes
  · exact fun q hq => absurd hq (hAfter q)
  · exact fun q _ => hBefore q

/-- A step that neither touches a pool nor a cache. -/
theorem Housed.moved (h : Housed c) {doing : Doing} (hBefore : ∀ q, (c.here t).doing ≠ .calling q)
    (hAfter : ∀ q, doing ≠ .calling q) :
    Housed ⟨c.shared, Function.update c.here t { c.here t with doing := doing }⟩ where
  toLasting := h.toLasting
  stocked := h.stocked
  constructed := h.constructed
  apart u q := by
    show Apart c.shared q ((Function.update c.here t _ u).caches q) (Function.update c.here t _ u).doing
    by_cases hu : u = t
    · subst hu
      rw [Function.update_self]
      obtain ⟨hPlace, hEmpty, hFetching⟩ := h.apart u q
      exact ⟨hPlace, hEmpty, fun size alignment hCall =>
        absurd (hFetching size alignment hCall).1 (hBefore q)⟩
    · rw [Function.update_of_ne hu]
      exact h.apart u q
  calling u q hDoing := by
    replace hDoing : (Function.update c.here t { c.here t with doing := doing } u).doing = .calling q := hDoing
    by_cases hu : u = t
    · subst hu
      rw [Function.update_self] at hDoing
      exact absurd hDoing (hAfter q)
    · rw [Function.update_of_ne hu] at hDoing
      exact h.calling u q hDoing
  small := h.small
  earlier := h.earlier

omit [DecidableEq Θ] in
/-- A constructor that throws has taken a number. -/
theorem Housed.throws (h : Housed c) :
    Housed ⟨{ c.shared with nextPoolId := c.shared.nextPoolId + 1 }, c.here⟩ where
  toLasting := ⟨h.touched, h.indexed⟩
  stocked := h.stocked
  constructed q hAlive := Nat.lt_succ_of_lt (h.constructed q hAlive)
  apart u q := ⟨(h.apart u q).stocked, (h.apart u q).empty, (h.apart u q).fetching⟩
  calling := h.calling
  small := h.small
  earlier touch hTouch := Nat.lt_succ_of_lt (h.earlier touch hTouch)

omit [DecidableEq Θ] in
/-- A new pool belongs to nobody yet. -/
theorem Housed.constructs (h : Housed c) (slabSize maxAllocSize : Nat) :
    Housed ⟨{ c.shared with
      nextPoolId := c.shared.nextPoolId + 1
      heaps := Function.update c.shared.heaps c.shared.nextPoolId ⟨.create slabSize maxAllocSize, []⟩
      alive := Function.update c.shared.alive c.shared.nextPoolId true }, c.here⟩ where
  touched touch hTouch := by
    obtain ⟨hAlive, hHolds⟩ := h.touched touch hTouch
    refine ⟨hAlive, fun b hb => ?_⟩
    show (Function.update c.shared.heaps _ _ touch.pool).Holds touch.idx b
    rw [Function.update_of_ne (h.earlier touch hTouch).ne]
    exact hHolds b hb
  indexed := h.indexed
  stocked q := by
    show (Function.update c.shared.heaps _ _ q).Stocked
    by_cases hq : q = c.shared.nextPoolId
    · subst hq
      rw [Function.update_self]
      exact ⟨Nat.min_le_right .., fun _ => ⟨rfl, rfl⟩, fun _ => nofun, nofun⟩
    · rw [Function.update_of_ne hq]
      exact h.stocked q
  constructed q hAlive := by
    show q < c.shared.nextPoolId + 1
    by_cases hq : q = c.shared.nextPoolId
    · exact hq ▸ Nat.lt_succ_self _
    · apply Nat.lt_succ_of_lt
      apply h.constructed
      exact (Function.update_of_ne hq true c.shared.alive).symm.trans hAlive
  apart u q := by
    obtain ⟨hPlace, hEmpty, hFetching⟩ := h.apart u q
    by_cases hq : q = c.shared.nextPoolId
    · have hUnused : c.shared.alive q = false := by
        cases hAlive : c.shared.alive q with
        | false => rfl
        | true => exact absurd (h.constructed q hAlive) (by omega)
      have hIdle : ∀ size alignment, ((c.here u).caches q).call ≠ .fetching size alignment := by
        intro size alignment hCall
        have hAlive := h.calling u q (hFetching size alignment hCall).1
        rw [hUnused] at hAlive
        cases hAlive
      refine ⟨⟨fun idx b hb => ?_, fun size alignment hCall => absurd hCall (hIdle size alignment)⟩,
        fun _ => hEmpty hUnused, hFetching⟩
      rw [hEmpty hUnused idx] at hb
      cases hb
    · refine ⟨?_, fun hDead => hEmpty ?_, hFetching⟩
      · show Place.Stocked (Function.update c.shared.heaps _ _ q) _
        rw [Function.update_of_ne hq]
        exact hPlace
      · exact (Function.update_of_ne hq true c.shared.alive).symm.trans hDead
  calling u q hDoing := by
    show Function.update c.shared.alive _ true q = true
    have hAlive := h.calling u q hDoing
    rw [Function.update_of_ne (h.constructed q hAlive).ne]
    exact hAlive
  small q := by
    show ∀ a ∈ (Function.update c.shared.heaps _ _ q).live, (Function.update c.shared.heaps _ _ q).pool.serves
      a.size a.alignment → q < kMaxPools
    by_cases hq : q = c.shared.nextPoolId
    · subst hq
      rw [Function.update_self]
      exact nofun
    · rw [Function.update_of_ne hq]
      exact h.small q
  earlier touch hTouch := Nat.lt_succ_of_lt (h.earlier touch hTouch)

omit [DecidableEq Θ] in
/-- A pool may go when no thread keeps a block of it. -/
theorem Housed.destroyed (h : Housed c) (p : Nat) (hUnused : ∀ u, (c.here u).doing ≠ .calling p)
    (hEmpty : ∀ u idx, ((c.here u).caches p).cache.caches idx = []) :
    Housed ⟨{ c.shared with alive := Function.update c.shared.alive p false }, c.here⟩ where
  toLasting := ⟨h.touched, h.indexed⟩
  stocked := h.stocked
  constructed q hAlive := by
    by_cases hq : q = p
    · subst hq
      cases (Function.update_self q false c.shared.alive).symm.trans hAlive
    · exact h.constructed q ((Function.update_of_ne hq false c.shared.alive).symm.trans hAlive)
  apart u q := by
    obtain ⟨hPlace, hBefore, hFetching⟩ := h.apart u q
    refine ⟨hPlace, fun hDead => ?_, hFetching⟩
    by_cases hq : q = p
    · exact hq ▸ hEmpty u
    · exact hBefore ((Function.update_of_ne hq false c.shared.alive).symm.trans hDead)
  calling u q hDoing := by
    have hq : q ≠ p := by
      rintro rfl
      exact hUnused u hDoing
    exact (Function.update_of_ne hq false c.shared.alive).trans (h.calling u q hDoing)
  small := h.small
  earlier := h.earlier

/-- The thread is where it was. -/
theorem Housed.stays (here : Θ → ThreadCaches) (t : Θ) {pools : Pools} (h : Housed ⟨pools, here⟩) :
    Housed ⟨pools, Function.update here t (here t)⟩ := by
  rw [Function.update_eq_self]
  exact h

theorem uses_setHeap (pools : Pools) (p : Nat) (heap : Heap) : Uses pools p heap (pools.setHeap p heap) :=
  ⟨rfl, rfl, rfl, fun _ => .inl, fun _ => .inl⟩

theorem uses_index (pools : Pools) {p size alignment : Nat} (heap : Heap)
    (hSmall : (pools.heaps p).pool.serves size alignment → p < kMaxPools) :
    Uses pools p heap ((pools.index p size alignment).setHeap p heap) := by
  unfold Pools.index
  split
  · rename_i hServes
    refine ⟨rfl, rfl, rfl, fun _ => .inl, fun q hq => ?_⟩
    rcases List.mem_cons.mp hq with rfl | hOld
    · exact .inr (hSmall hServes)
    · exact .inl hOld
  · exact uses_setHeap pools p heap

theorem uses_touch (pools : Pools) {p : Nat} {idx : Fin kNumSizeClasses} {blocks : List Nat} (heap : Heap)
    (hAlive : blocks ≠ [] → pools.alive p = true) (hHolds : ∀ b ∈ blocks, heap.Holds idx b) :
    Uses pools p heap ((pools.touch p idx blocks).setHeap p heap) := by
  unfold Pools.touch
  split
  · exact uses_setHeap pools p heap
  · rename_i hBlocks
    refine ⟨rfl, rfl, rfl, fun touch hTouch => ?_, fun _ => .inl⟩
    rcases List.mem_cons.mp hTouch with rfl | hOld
    · exact .inr ⟨rfl, hAlive hBlocks, hAlive hBlocks, hHolds⟩
    · exact .inl hOld

/-- The destructor of a cache. -/
theorem Housed.leaves (h : Housed c) {place : Place} {choice : Choice} (uses : Uses c.shared p heap pools')
    (hStep : MemoryPool.code t (c.shared.heaps p) ((c.here t).caches p) choice = some (heap, place))
    (hChoice : (∃ memory, choice = .enter memory) ∨ choice = .exit)
    (hDoing : (c.here t).doing = .leaving (p + 1)) :
    Housed ⟨pools', Function.update c.here t ((c.here t).setPlace p place (.leaving (p + 1)))⟩ := by
  obtain ⟨hStocked, hPlace, hGrown⟩ := stocked_step (h.stocked p) (h.apart t p).stocked hStep
  have traced := code_traced hStep
  have hBefore : ∀ q, (c.here t).doing ≠ .calling q := by
    intro q hq
    rw [hDoing] at hq
    cases hq
  have hIdle : ∀ size alignment, ((c.here t).caches p).call ≠ .fetching size alignment :=
    fun size alignment hCall => hBefore p ((h.apart t p).fetching size alignment hCall).1
  have hOther : (∀ size alignment region, choice ≠ .allocate size alignment region) ∧
      ∀ ptr size alignment, choice ≠ .deallocate ptr size alignment := by
    rcases hChoice with ⟨memory, rfl⟩ | rfl <;> exact ⟨nofun, nofun⟩
  apply h.emptied uses hStocked hGrown hPlace
  · intro a ha
    rcases traced.live a ha with hOld | hFetching | ⟨region, hAllocate⟩
    · exact hOld
    · exact absurd hFetching (hIdle _ _)
    · exact absurd hAllocate (hOther.1 _ _ region)
  · intro size alignment hCall
    obtain ⟨_, _, region, hAllocate⟩ := traced.waits size alignment hCall
    exact hOther.1 size alignment region hAllocate
  · exact traced.lists hIdle hOther.2
  · exact hBefore
  · exact nofun

/-- The batch that a destructor takes comes from a list of its class. -/
theorem batch?_subset {place : Place} {idx : Fin kNumSizeClasses} {blocks : List Nat}
    (h : place.batch? = some (idx, blocks)) : blocks ⊆ place.cache.caches idx := by
  unfold Place.batch? at h
  split at h
  · split at h
    · obtain ⟨_, h⟩ := Option.ite_none_right_eq_some.mp h
      cases h
      exact fun _ hb => mem_popBatch (.inl hb)
    · cases h
  · cases h

omit [DecidableEq Θ] in
/-- Blocks from a thread's list may be touched. -/
theorem Housed.holds (h : Housed c) {idx : Fin kNumSizeClasses} {blocks : List Nat}
    (hBlocks : blocks ⊆ ((c.here t).caches p).cache.caches idx) :
    (blocks ≠ [] → c.shared.alive p = true) ∧ ∀ b ∈ blocks, (c.shared.heaps p).Holds idx b := by
  refine ⟨fun hSome => ?_, fun b hb => (h.apart t p).stocked.1 idx b (hBlocks hb)⟩
  cases hAlive : c.shared.alive p with
  | true => rfl
  | false =>
      rw [(h.apart t p).empty hAlive idx] at hBlocks
      exact absurd (List.subset_nil.mp hBlocks) hSome

/-- A turn of `drain`. -/
theorem Housed.drains (h : Housed c) (idx : Fin kNumSizeClasses) (hDoing : ∃ i, (c.here t).doing = .draining p i)
    (j n : Nat) :
    let list := ((c.here t).caches p).cache.caches idx
    Housed ⟨(c.shared.touch p idx (list.popBatch n).1).setHeap p
        ((c.shared.heaps p).setCentral idx (((c.shared.heaps p).pool.central idx).returnBatch (list.popBatch n).1)),
      Function.update c.here t ((c.here t).setPlace p
        ⟨((c.here t).caches p).cache.set idx (list.popBatch n).2, ((c.here t).caches p).call⟩ (.draining p j))⟩ := by
  intro list
  obtain ⟨i, hDoing⟩ := hDoing
  have hBefore : ∀ q, (c.here t).doing ≠ .calling q := by
    intro q hq
    rw [hDoing] at hq
    cases hq
  have hBatch : (list.popBatch n).1 ⊆ ((c.here t).caches p).cache.caches idx :=
    fun _ hb => mem_popBatch (.inl hb)
  obtain ⟨hAlive, hHolds⟩ := h.holds hBatch
  obtain ⟨hStocked, hGrown, hLists⟩ := (h.apart t p).stocked.back (h.stocked p) idx n
  have hIdle : ∀ size alignment, ((c.here t).caches p).call ≠ .fetching size alignment :=
    fun size alignment hCall => hBefore p ((h.apart t p).fetching size alignment hCall).1
  apply h.emptied (uses_touch c.shared _ hAlive fun b hb => (hHolds b hb).grown hGrown) hStocked hGrown
  · exact ⟨hLists, fun size alignment hCall => absurd hCall (hIdle size alignment)⟩
  · exact List.Subset.refl _
  · exact hIdle
  · exact ThreadLocalCache.set_subset _ _ (ThreadLocalCache.popBatch_subset list n)
  · exact hBefore
  · exact nofun

/-- What a thread does between its calls. -/
theorem Housed.step_idle (h : Housed c) (hDoing : (c.here t).doing = .idle) {choice : PoolsChoice}
    {pools : Pools} {here : ThreadCaches} (admitted : keepsCaches c t choice)
    (hLocal : code t c.shared (c.here t) choice = some (pools, here)) :
    Housed ⟨pools, Function.update c.here t here⟩ := by
  have hBefore : ∀ q, (c.here t).doing ≠ .calling q := by
    intro q hq
    rw [hDoing] at hq
    cases hq
  obtain ⟨hUsed, hKeeps⟩ := admitted
  cases choice with
  | construct slabSize maxAllocSize =>
      simp only [code, hDoing, MemoryPool.construct] at hLocal
      split at hLocal
      · cases hLocal
        exact h.throws.stays c.here t
      · rename_i pool hConstruct
        split at hConstruct <;> cases hConstruct
        cases hLocal
        exact (h.constructs slabSize maxAllocSize).stays c.here t
  | destroy p =>
      simp only [code, hDoing] at hLocal
      obtain ⟨_, hLocal⟩ := Option.ite_none_right_eq_some.mp hLocal
      cases hLocal
      exact (h.destroyed p hUsed hKeeps).stays c.here t
  | allocate p size alignment region =>
      simp only [code, hDoing] at hLocal
      obtain ⟨hAlive, hLocal⟩ := Option.ite_none_right_eq_some.mp hLocal
      obtain ⟨⟨heap, place⟩, hStep, hAfter⟩ := Option.map_eq_some_iff.mp hLocal
      cases hAfter
      apply h.called (uses_index c.shared heap hKeeps) hAlive (.inl hDoing) hStep
      rintro _ _ _ hSame
      cases hSame
      exact hKeeps
  | deallocate p ptr size alignment =>
      simp only [code, hDoing] at hLocal
      obtain ⟨hAlive, hLocal⟩ := Option.ite_none_right_eq_some.mp hLocal
      obtain ⟨⟨heap, place⟩, hStep, hAfter⟩ := Option.map_eq_some_iff.mp hLocal
      cases hAfter
      apply h.called _ hAlive (.inl hDoing) hStep nofun
      split
      · exact uses_setHeap c.shared p heap
      · rename_i hPtr
        apply uses_index
        exact h.small p _ (mem_live_of_code hStep hPtr)
  | enter memory => simp [code, hDoing] at hLocal
  | drain p =>
      simp only [code, hDoing] at hLocal
      obtain ⟨_, hLocal⟩ := Option.ite_none_right_eq_some.mp hLocal
      cases hLocal
      exact h.moved hBefore nofun
  | exit =>
      simp only [code, hDoing] at hLocal
      cases hLocal
      exact h.moved hBefore nofun

/-- What a thread does in a call, in `drain` and in the destructors of its caches. -/
theorem Housed.step_busy (h : Housed c) (hBusy : (c.here t).doing ≠ .idle) {choice : PoolsChoice}
    {pools : Pools} {here : ThreadCaches}
    (hLocal : code t c.shared (c.here t) choice = some (pools, here)) :
    Housed ⟨pools, Function.update c.here t here⟩ := by
  cases hDoing : (c.here t).doing with
  | idle => exact absurd hDoing hBusy
  | calling p =>
      cases choice with
      | enter memory =>
          simp only [code, hDoing] at hLocal
          obtain ⟨⟨heap, place⟩, hStep, hAfter⟩ := Option.map_eq_some_iff.mp hLocal
          cases hAfter
          exact h.called (uses_setHeap c.shared p heap) (h.calling t p hDoing) (.inr hDoing) hStep nofun
      | _ => simp [code, hDoing] at hLocal
  | draining p i =>
      have hBefore : ∀ q, (c.here t).doing ≠ .calling q := by
        intro q hq
        rw [hDoing] at hq
        cases hq
      cases choice with
      | enter memory =>
          simp only [code, hDoing] at hLocal
          split at hLocal
          · rename_i hi
            split at hLocal
            · cases hLocal
              exact h.moved hBefore nofun
            · cases hLocal
              exact h.drains ⟨i, hi⟩ ⟨i, hDoing⟩ (i + 1) _
          · cases hLocal
            exact h.moved hBefore nofun
      | _ => simp [code, hDoing] at hLocal
  | leaving caches =>
      have hBefore : ∀ q, (c.here t).doing ≠ .calling q := by
        intro q hq
        rw [hDoing] at hq
        cases hq
      cases choice with
      | exit =>
          cases caches with
          | zero =>
              simp only [code, hDoing] at hLocal
              cases hLocal
              exact h.moved hBefore nofun
          | succ p =>
              simp only [code, hDoing] at hLocal
              split at hLocal
              · cases hLocal
                exact h.moved hBefore nofun
              · obtain ⟨⟨heap, place⟩, hStep, hAfter⟩ := Option.map_eq_some_iff.mp hLocal
                cases hAfter
                exact h.leaves (uses_setHeap c.shared p heap) hStep (.inr rfl) hDoing
              · obtain ⟨⟨heap, place⟩, hStep, hAfter⟩ := Option.map_eq_some_iff.mp hLocal
                cases hAfter
                apply h.leaves _ hStep (.inl ⟨0, rfl⟩) hDoing
                have hGrown := (stocked_step (h.stocked p) (h.apart t p).stocked hStep).2.2
                split
                · exact uses_setHeap c.shared p heap
                · rename_i idx blocks hBatch
                  obtain ⟨hAlive, hHolds⟩ := h.holds (batch?_subset hBatch)
                  exact uses_touch c.shared heap hAlive fun b hb => (hHolds b hb).grown hGrown
      | _ => simp [code, hDoing] at hLocal
  | gone => simp [code, hDoing] at hLocal

/-- The caches are well kept in every run that empties them before their pools go. -/
theorem housed (reach : Reach code (· = start) keepsCaches c) : Housed c := by
  apply reach.invariant (I := Housed)
  · rintro c rfl
    refine ⟨⟨nofun, nofun⟩, fun _ => ?_, nofun, fun t p => ?_, nofun, fun _ => nofun, nofun⟩
    · exact ⟨Nat.zero_le _, fun _ => ⟨rfl, rfl⟩, fun _ => nofun, nofun⟩
    · exact ⟨⟨fun _ => nofun, nofun⟩, fun _ _ => rfl, nofun⟩
  · intro c t choice pools here _ h admitted hLocal
    by_cases hDoing : (c.here t).doing = .idle
    · exact h.step_idle hDoing admitted hLocal
    · exact h.step_busy hDoing hLocal

end Steps

/-- When a thread drains its caches, in `drain` or at its end, it only touches pools that are there,
and no pool is looked up behind the end of `poolCaches`, in every run that keeps the rules. -/
theorem lasting {Θ : Type*} [DecidableEq Θ] {c : Config Θ Pools ThreadCaches}
    (reach : Reach code (· = start) keepsCaches c) : Lasting c.shared :=
  (housed reach).toLasting

/-- Thread 1 frees its block and gives it back to the pool before thread 0 destroys it. -/
def afterDrain : Config (Fin 2) Pools ThreadCaches :=
  (code.replay keepsCaches start
    (([(0, .construct 4096 2048), (1, .allocate 0 8 8 0), (1, .enter 4096), (1, .deallocate 0 8184 8 8),
      (1, .drain 0)] : List (Fin 2 × PoolsChoice)) ++ (List.replicate 10 (1, .enter 0) : List (Fin 2 × PoolsChoice)) ++
      ([(0, .destroy 0), (1, .exit)] : List (Fin 2 × PoolsChoice)))).get (by decide +kernel)

theorem lasting_afterDrain : Lasting afterDrain.shared :=
  lasting (Reach.replay (.start rfl) (Option.some_get _).symm)

/-- The main thread frees its block, destroys the pool and ends. -/
def afterExit : Config (Fin 1) Pools ThreadCaches :=
  (code.replay wellUsed start
    (([(0, .construct 4096 2048), (0, .allocate 0 8 8 0), (0, .enter 4096), (0, .deallocate 0 8184 8 8),
      (0, .destroy 0)] : List (Fin 1 × PoolsChoice)) ++ (List.replicate 184 (0, .exit) : List (Fin 1 × PoolsChoice)))).get (by decide +kernel)

/-- The seventeenth pool is asked for a small block. -/
def afterSeventeen : Config (Fin 1) Pools ThreadCaches :=
  (code.replay wellUsed start
    (List.replicate 17 (0, .construct 4096 2048) ++ [(0, .allocate 16 8 8 0)])).get (by decide +kernel)

/-- The thread's cache of the destroyed pool gives its blocks to the pool that is gone, and the cache
of the seventeenth pool is looked up in an array of sixteen. -/
theorem not_lasting :
    (Reach code (· = start) wellUsed afterExit ∧ ¬ Lasting afterExit.shared) ∧
      Reach code (· = start) wellUsed afterSeventeen ∧ ¬ Lasting afterSeventeen.shared := by
  refine ⟨⟨Reach.replay (.start rfl) (Option.some_get _).symm, fun hLasting => ?_⟩,
    Reach.replay (.start rfl) (Option.some_get _).symm, fun hLasting => ?_⟩
  · have hTouched : ∃ touch ∈ afterExit.shared.touched, touch.alive = false := by decide +kernel
    obtain ⟨touch, hMem, hDead⟩ := hTouched
    have hAlive := (hLasting.touched touch hMem).1
    rw [hDead] at hAlive
    cases hAlive
  · have hIndexed : 16 ∈ afterSeventeen.shared.indexed := by decide +kernel
    exact absurd (hLasting.indexed 16 hIndexed) (by decide)

end Pools

end Memory
