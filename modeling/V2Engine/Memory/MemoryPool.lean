import V2Engine.Interleaving.Program
import V2Engine.Memory.CentralCache
import V2Engine.Memory.SizeClass

/-! A memory pool used by any number of threads (core/common/memory/memory_pool.hpp and
thread_local_cache.hpp). A thread's own lists are seen by no other thread, so what it does
to them around a call of the central cache belongs to the step that holds the mutex. -/
namespace Memory

open Interleaving SizeClass

/-- `alignof(std::max_align_t)`, which `operator new` grants without being asked. -/
def kDefaultAlign : Nat := 16

structure ThreadLocalCache where
  initialized : Bool
  caches : Fin kNumSizeClasses → FreeList

namespace ThreadLocalCache

def init (cache : ThreadLocalCache) : ThreadLocalCache := { cache with initialized := true }

def set (cache : ThreadLocalCache) (idx : Fin kNumSizeClasses) (list : FreeList) : ThreadLocalCache :=
  { cache with caches := Function.update cache.caches idx list }

/-- The first block goes to the caller and the others to the local list. -/
def fetchFromCentral (cache : ThreadLocalCache) (idx : Fin kNumSizeClasses) (central : CentralCache)
    (memory : Nat) : Option Nat × ThreadLocalCache × CentralCache :=
  match central.fetchBatch memory (batchSize idx) with
  | ([], central) => (none, cache, central)
  | (first :: rest, central) => (some first, cache.set idx ((cache.caches idx).pushBatch rest), central)

def returnToCentral (cache : ThreadLocalCache) (idx : Fin kNumSizeClasses) (central : CentralCache) :
    ThreadLocalCache × CentralCache :=
  let returnCount := if (cache.caches idx).length < batchSize idx then (cache.caches idx).length else batchSize idx
  let (buf, left) := (cache.caches idx).popBatch returnCount
  (cache.set idx left, central.returnBatch buf)

def kMaxBatchSize : Nat := 64

/-- One turn of the inner loop of `drainAll`, if there is one. -/
def drainBatch (cache : ThreadLocalCache) (idx : Fin kNumSizeClasses) (central : CentralCache) :
    Option (ThreadLocalCache × CentralCache) :=
  match (cache.caches idx).popBatch kMaxBatchSize with
  | ([], _) => none
  | (first :: rest, left) => some (cache.set idx left, central.returnBatch (first :: rest))

end ThreadLocalCache

structure MemoryPool where
  slabSize : Nat
  maxAllocSize : Nat
  central : Fin kNumSizeClasses → CentralCache

/-- A pointer in the hands of a caller, with what it asked for. -/
structure Allocation where
  ptr : Nat
  size : Nat
  alignment : Nat
deriving DecidableEq, Repr

namespace MemoryPool

def create (slabSize maxAllocSize : Nat) : MemoryPool :=
  ⟨slabSize, min maxAllocSize kMaxAllocSize, fun idx => .init (blockSize idx) slabSize⟩

def set (pool : MemoryPool) (idx : Fin kNumSizeClasses) (central : CentralCache) : MemoryPool :=
  { pool with central := Function.update pool.central idx central }

end MemoryPool

/-- No request is for nothing. -/
def adjusted (size : Nat) : Nat := if size = 0 then 1 else size

/-- The pool and the pointers that callers hold. -/
structure Heap where
  pool : MemoryPool
  live : List Allocation

/-- The test that both `allocate` and `deallocate` make. -/
def MemoryPool.serves (pool : MemoryPool) (size alignment : Nat) : Prop :=
  adjusted size ≤ pool.maxAllocSize ∧ alignment ≤ kDefaultAlign

instance (pool : MemoryPool) (size alignment : Nat) : Decidable (pool.serves size alignment) :=
  inferInstanceAs (Decidable (_ ∧ _))

inductive Call where
  | idle
  | fetching (size alignment : Nat)
  | returning (idx : Fin kNumSizeClasses)
  | draining (i : Nat)
  | gone
deriving DecidableEq

structure Place where
  cache : ThreadLocalCache
  call : Call

inductive Choice where
  /-- `region` is what `operator new` answers to a large request. -/
  | allocate (size alignment region : Nat)
  | deallocate (ptr size alignment : Nat)
  /-- `memory` is what `operator new` answers if a slab is added. -/
  | enter (memory : Nat)
  | exit

namespace Heap

def give (heap : Heap) (ptr size alignment : Nat) : Heap :=
  { heap with live := ⟨ptr, size, alignment⟩ :: heap.live }

/-- `allocate` returns a pointer or null. -/
def answer (heap : Heap) (ptr : Option Nat) (size alignment : Nat) : Heap :=
  match ptr with
  | none => heap
  | some ptr => heap.give ptr size alignment

def setCentral (heap : Heap) (idx : Fin kNumSizeClasses) (central : CentralCache) : Heap :=
  { heap with pool := heap.pool.set idx central }

/-- The memory that an allocation occupies. -/
def room (heap : Heap) (a : Allocation) : Nat :=
  if heap.pool.serves a.size a.alignment then blockSize (index (adjusted a.size)) else adjusted a.size

/-- The region overlaps no slab and no large allocation. -/
def Fresh (heap : Heap) (memory size : Nat) : Prop :=
  0 < memory ∧
    (∀ idx, ∀ key ∈ (heap.pool.central idx).slabs,
      memory + size ≤ key ∨ key + heap.pool.slabSize ≤ memory) ∧
    ∀ a ∈ heap.live, ¬heap.pool.serves a.size a.alignment →
      memory + size ≤ a.ptr ∨ a.ptr + adjusted a.size ≤ memory

instance (heap : Heap) (memory size : Nat) : Decidable (heap.Fresh memory size) :=
  inferInstanceAs (Decidable (_ ∧ _ ∧ _))

end Heap

/-- What `allocateLarge` asks `operator new` to align to. -/
def largeAlign (alignment : Nat) : Nat := if alignment > kDefaultAlign then alignment else kDefaultAlign

/-- What the arguments of an allocation were checked for. -/
def Heap.Granted (heap : Heap) (a : Allocation) : Prop :=
  2 ^ a.alignment.log2 = a.alignment ∧
    (¬heap.pool.serves a.size a.alignment → a.ptr % largeAlign a.alignment = 0)

namespace MemoryPool

/-- The destructor of a thread's cache, in class `i`: `central_` is null before the first use. -/
def drain (heap : Heap) (cache : ThreadLocalCache) (i : Nat) : Heap × Place :=
  if h : i < kNumSizeClasses then
    if cache.initialized then
      match cache.drainBatch ⟨i, h⟩ (heap.pool.central ⟨i, h⟩) with
      | none => (heap, ⟨cache, .draining (i + 1)⟩)
      | some (cache, central) => (heap.setCentral ⟨i, h⟩ central, ⟨cache, .draining i⟩)
    else (heap, ⟨cache, .draining (i + 1)⟩)
  else (heap, ⟨{ cache with initialized := false }, .gone⟩)

/-- One step of a thread: `allocate` and `deallocate` up to the mutex of a central cache,
what is done under it, and the destructor of the thread's cache. -/
def code {Θ : Type*} : Program Θ Heap Place Choice := fun _ heap here choice =>
  match here.call, choice with
  | .idle, .allocate size alignment region =>
      if 2 ^ alignment.log2 = alignment then
        if heap.pool.serves size alignment then
          let idx := index (adjusted size)
          match here.cache.caches idx with
          | [] => some (heap, ⟨here.cache.init, .fetching size alignment⟩)
          | ptr :: rest => some (heap.give ptr size alignment, ⟨here.cache.init.set idx rest, .idle⟩)
        else if heap.Fresh region (adjusted size) ∧ region % largeAlign alignment = 0 then
          some (heap.give region size alignment, here)
        else none
      else none
  | .fetching size alignment, .enter memory =>
      let idx := index (adjusted size)
      if heap.Fresh memory heap.pool.slabSize ∧ memory % heap.pool.slabSize = 0 then
        let (ptr, cache, central) := here.cache.fetchFromCentral idx (heap.pool.central idx) memory
        some ((heap.setCentral idx central).answer ptr size alignment, ⟨cache, .idle⟩)
      else none
  | .idle, .deallocate ptr size alignment =>
      if ptr = 0 then some (heap, here)
      else if ⟨ptr, size, alignment⟩ ∈ heap.live then
        let heap := { heap with live := heap.live.erase ⟨ptr, size, alignment⟩ }
        if heap.pool.serves size alignment then
          let idx := index (adjusted size)
          let list := (here.cache.caches idx).push ptr
          some (heap, ⟨here.cache.init.set idx list,
            if list.length > batchSize idx then .returning idx else .idle⟩)
        else some (heap, here)
      else none
  | .returning idx, .enter _ =>
      let (cache, central) := here.cache.returnToCentral idx (heap.pool.central idx)
      some (heap.setCentral idx central, ⟨cache, .idle⟩)
  | .idle, .exit => some (heap, ⟨here.cache, .draining 0⟩)
  | .draining i, .enter _ => some (drain heap here.cache i)
  | _, _ => none

/-- A new pool before its first use. -/
def startAt {Θ : Type*} (slabSize maxAllocSize : Nat) : Config Θ Heap Place :=
  ⟨⟨create slabSize maxAllocSize, []⟩, fun _ => ⟨⟨false, fun _ => []⟩, .idle⟩⟩

/-- The constructor refuses slab sizes that are not a power of two. -/
def Starting {Θ : Type*} (c : Config Θ Heap Place) : Prop :=
  ∃ k maxAllocSize, 2048 ≤ 2 ^ k ∧ c = startAt (2 ^ k) maxAllocSize

end MemoryPool

end Memory
