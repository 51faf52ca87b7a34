import V2Engine.Interleaving.Calls
import V2Engine.Memory.Balanced

/-! How many slabs a central cache comes to own. A slab is added only when all slabs are
full, as long as no slab has got its last block in use back. -/
namespace Memory

open Interleaving

/-- A central cache with the blocks its callers hold, and the most they have held at once. -/
structure Usage where
  cache : CentralCache
  outstanding : List Nat
  peak : Nat

inductive CentralOp where
  | allocate (memory : Nat)
  | deallocate (ptr : Nat)
  | fetchBatch (memory batchSize : Nat)
  | returnBatch (blocks : List Nat)

namespace Usage

def start (blockSize slabSize : Nat) : Usage := ⟨.init blockSize slabSize, [], 0⟩

def became (u : Usage) (cache : CentralCache) (outstanding : List Nat) : Usage :=
  ⟨cache, outstanding, max u.peak outstanding.length⟩

/-- One call. `operator new` answers with aligned memory that is not in use, and callers
return only what they hold. -/
def step : CentralOp → Usage → Option Usage
  | .allocate memory, u =>
      if memory % u.cache.slabSize = 0 ∧ (u.cache.slabMap memory).isNone then
        match u.cache.allocate memory with
        | (none, cache) => some (u.became cache u.outstanding)
        | (some ptr, cache) => some (u.became cache (ptr :: u.outstanding))
      else none
  | .deallocate ptr, u =>
      if ptr ∈ u.outstanding then some (u.became (u.cache.deallocate ptr) (u.outstanding.erase ptr)) else none
  | .fetchBatch memory batchSize, u =>
      if memory % u.cache.slabSize = 0 ∧ (u.cache.slabMap memory).isNone ∧ 0 < batchSize then
        let fetched := u.cache.fetchBatch memory batchSize
        some (u.became fetched.2 (fetched.1 ++ u.outstanding))
      else none
  | .returnBatch blocks, u =>
      if blocks.Subperm u.outstanding then
        some (u.became (u.cache.returnBatch blocks) (u.outstanding.diff blocks))
      else none

/-- No slab gets its last block in use back. -/
def keepsInUse (u : Usage) : CentralOp → Prop
  | .deallocate ptr => ∀ s ∈ u.cache.findSlab ptr, 1 < s.usedCount
  | .returnBatch blocks => ∀ ptr ∈ blocks, ∀ s ∈ u.cache.findSlab ptr,
      blocks.countP (u.cache.mask · = u.cache.mask ptr) < s.usedCount
  | _ => True

/-- Slabs are added only while all that there are are full, and there are no more of them
than the most blocks ever held at once need. -/
structure Sparing (u : Usage) : Prop where
  added : ∀ op u', step op u = some u' → u'.cache.slabs ≠ u.cache.slabs →
    ∀ key ∈ u.cache.slabs, u'.cache.Full key
  bounded : u.cache.slabs.length * (u.cache.slabSize / u.cache.blockSize) <
    u.peak + u.cache.slabSize / u.cache.blockSize

/-- Between two calls. -/
structure Kept (u : Usage) : Prop where
  balanced : u.cache.Balanced u.outstanding
  inUse : u.cache.InUse
  held : u.outstanding.length ≤ u.peak
  bounded : u.cache.slabs.length * (u.cache.slabSize / u.cache.blockSize) <
    u.peak + u.cache.slabSize / u.cache.blockSize

variable {u u' : Usage} {op : CentralOp} {cache : CentralCache} {outstanding : List Nat}

theorem kept_start {blockSize slabSize : Nat} (hPositive : 0 < blockSize) (hFits : blockSize ≤ slabSize) :
    (start blockSize slabSize).Kept where
  balanced := CentralCache.balanced_init hPositive hFits
  inUse := nofun
  held := Nat.le_refl _
  bounded := by simpa [start, CentralCache.init] using Nat.div_pos hFits hPositive

/-- A slab more is paid for by the blocks that are out. -/
theorem Kept.became (h : u.Kept) (hBalanced : cache.Balanced outstanding) (hInUse : cache.InUse)
    (hThrifty : u.cache.Thrifty cache outstanding)
    (hSizes : cache.blockSize = u.cache.blockSize ∧ cache.slabSize = u.cache.slabSize) :
    (u.became cache outstanding).Kept := by
  constructor
  case balanced => exact hBalanced
  case inUse => exact hInUse
  case held => exact Nat.le_max_right ..
  case bounded =>
    have hBounded := h.bounded
    show cache.slabs.length * (cache.slabSize / cache.blockSize) <
      max u.peak outstanding.length + cache.slabSize / cache.blockSize
    rw [hSizes.1, hSizes.2]
    rcases hThrifty with hSame | ⟨memory, hAdded, _, hMany⟩
    · rw [hSame]
      omega
    · rw [hAdded, List.length_append, List.length_singleton, Nat.succ_mul]
      omega

/-- What a call that leaves every slab in use does to the slabs. -/
theorem Kept.call (h : u.Kept) (hKeeps : u.keepsInUse op) (hStep : step op u = some u') :
    ∃ cache outstanding, u' = u.became cache outstanding ∧ cache.Balanced outstanding ∧ cache.InUse ∧
      u.cache.Thrifty cache outstanding ∧
      cache.blockSize = u.cache.blockSize ∧ cache.slabSize = u.cache.slabSize := by
  cases op with
  | allocate memory =>
      obtain ⟨⟨hAligned, hFresh⟩, hAfter⟩ := Option.ite_none_right_eq_some.mp hStep
      cases hAllocate : u.cache.allocate memory with
      | mk ptr after =>
          obtain ⟨p, rfl, hGranted⟩ := CentralCache.allocate_grants h.balanced h.inUse hAligned
            (Option.isNone_iff_eq_none.mp hFresh) hAllocate
          rw [hAllocate] at hAfter
          cases hAfter
          exact ⟨_, _, rfl, hGranted⟩
  | deallocate ptr =>
      obtain ⟨hMem, hAfter⟩ := Option.ite_none_right_eq_some.mp hStep
      cases hAfter
      obtain ⟨s, hFind, _⟩ := h.balanced.found hMem
      obtain ⟨hBalanced, hInUse, hSlabs, hSizes⟩ :=
        CentralCache.deallocate_spec h.balanced h.inUse hMem hFind (hKeeps s hFind)
      exact ⟨_, _, rfl, hBalanced, hInUse, .inl hSlabs, hSizes⟩
  | fetchBatch memory batchSize =>
      obtain ⟨⟨hAligned, hFresh, _⟩, hAfter⟩ := Option.ite_none_right_eq_some.mp hStep
      cases hFetch : u.cache.fetchBatch memory batchSize with
      | mk out after =>
          have hGranted := CentralCache.fetchBatch_grants h.balanced h.inUse hAligned
            (Option.isNone_iff_eq_none.mp hFresh) hFetch
          rw [hFetch] at hAfter
          cases hAfter
          exact ⟨_, _, rfl, hGranted⟩
  | returnBatch blocks =>
      obtain ⟨hOut, hAfter⟩ := Option.ite_none_right_eq_some.mp hStep
      cases hAfter
      obtain ⟨hBalanced, hInUse, hSlabs, hSizes⟩ :=
        CentralCache.returnBatch_spec h.balanced h.inUse hOut hKeeps
      exact ⟨_, _, rfl, hBalanced, hInUse, .inl hSlabs, hSizes⟩

theorem Kept.step (h : u.Kept) (hKeeps : u.keepsInUse op) (hStep : Usage.step op u = some u') : u'.Kept := by
  obtain ⟨cache, outstanding, rfl, hBalanced, hInUse, hThrifty, hSizes⟩ := h.call hKeeps hStep
  exact h.became hBalanced hInUse hThrifty hSizes

/-- Whatever the call, a slab is added only while all that there are are full. -/
theorem Kept.added (h : u.Kept) (hStep : Usage.step op u = some u')
    (hMore : u'.cache.slabs ≠ u.cache.slabs) : ∀ key ∈ u.cache.slabs, u'.cache.Full key := by
  have hKeeps : u.keepsInUse op := by
    cases op with
    | allocate memory => trivial
    | fetchBatch memory batchSize => trivial
    | deallocate ptr =>
        obtain ⟨_, hAfter⟩ := Option.ite_none_right_eq_some.mp hStep
        cases hAfter
        exact absurd (CentralCache.slabs_deallocate ..) hMore
    | returnBatch blocks =>
        obtain ⟨_, hAfter⟩ := Option.ite_none_right_eq_some.mp hStep
        cases hAfter
        exact absurd (CentralCache.slabs_returnBatch ..) hMore
  obtain ⟨cache, outstanding, rfl, _, _, hThrifty, _⟩ := h.call hKeeps hStep
  rcases hThrifty with hSame | ⟨memory, _, hFull, _⟩
  · exact absurd hSame hMore
  · exact hFull

/-- A cache for blocks of at least a pointer's size, with slabs of a power of two. -/
def Starting (u : Usage) : Prop :=
  ∃ blockSize k, 8 ≤ blockSize ∧ blockSize ≤ 2 ^ k ∧ u = start blockSize (2 ^ k)

instance (u : Usage) : (op : CentralOp) → Decidable (u.keepsInUse op)
  | .allocate _ => .isTrue trivial
  | .deallocate ptr => inferInstanceAs (Decidable (∀ s ∈ u.cache.findSlab ptr, 1 < s.usedCount))
  | .fetchBatch _ _ => .isTrue trivial
  | .returnBatch blocks => inferInstanceAs (Decidable (∀ ptr ∈ blocks, ∀ s ∈ u.cache.findSlab ptr,
      blocks.countP (u.cache.mask · = u.cache.mask ptr) < s.usedCount))

section Runs

/-- Slabs of two blocks each: the second is added while the first is full, and a block of
either goes back and out again. -/
def afterCycles : Usage :=
  (Calls.replay step keepsInUse (start 2048 (2 ^ 12)) [.fetchBatch 4096 3, .fetchBatch 8192 3,
    .deallocate 6144, .allocate 12288, .returnBatch [4096, 8192], .fetchBatch 12288 2]).get (by decide +kernel)

/-- The only block in use comes back, and the next one is cut from a new slab. -/
def afterLost : Usage :=
  (Calls.replay step anyCall (start 2048 (2 ^ 12)) [.allocate 4096, .deallocate 6144,
    .allocate 8192]).get (by decide +kernel)

end Runs

end Usage

end Memory
