import V2Engine.Memory.MemoryPool
import V2Engine.Memory.Census

/-! Where the memory of a pool lies. Slabs, and large allocations that callers hold, are
regions of their own; blocks lie within their slabs. -/
namespace Memory

open Interleaving SizeClass

namespace Heap

/-- Two regions do not overlap. -/
def Apart (p size q room : Nat) : Prop := p + size ≤ q ∨ q + room ≤ p

theorem Apart.symm {p size q room : Nat} (h : Apart p size q room) : Apart q room p size := Or.symm h

def Large (heap : Heap) (a : Allocation) : Prop := ¬heap.pool.serves a.size a.alignment

/-- The regions that `operator new` has answered with. -/
structure Layout (heap : Heap) : Prop where
  positive : ∀ idx, ∀ key ∈ (heap.pool.central idx).slabs, 0 < key
  /-- A slab belongs to one size class. -/
  owner : ∀ i j, ∀ key ∈ (heap.pool.central i).slabs, key ∈ (heap.pool.central j).slabs → i = j
  large : ∀ a ∈ heap.live, heap.Large a → ∀ idx, ∀ key ∈ (heap.pool.central idx).slabs,
    Apart a.ptr (adjusted a.size) key heap.pool.slabSize
  apart : heap.live.Pairwise fun a b =>
    heap.Large a → heap.Large b → Apart a.ptr (adjusted a.size) b.ptr (adjusted b.size)

namespace Layout

variable {heap : Heap} {idx : Fin kNumSizeClasses} {central : CentralCache} {a : Allocation}
  {memory ptr size alignment : Nat}

theorem setCentral (h : heap.Layout) (hSlabs : central.slabs = (heap.pool.central idx).slabs) :
    (heap.setCentral idx central).Layout := by
  have hSame : ∀ j, ((heap.setCentral idx central).pool.central j).slabs = (heap.pool.central j).slabs := by
    intro j
    show (Function.update heap.pool.central idx central j).slabs = _
    by_cases hj : j = idx
    · subst hj
      rw [Function.update_self, hSlabs]
    · rw [Function.update_of_ne hj]
  constructor
  case positive =>
    intro j key hKey
    exact h.positive j key (by rwa [hSame] at hKey)
  case owner =>
    intro i j key hi hj
    rw [hSame] at hi hj
    exact h.owner i j key hi hj
  case large =>
    intro b hb hLarge j key hKey
    rw [hSame] at hKey
    exact h.large b hb hLarge j key hKey
  case apart => exact h.apart

/-- A slab is added in a region of its own. -/
theorem addSlab (h : heap.Layout) (hFresh : heap.Fresh memory heap.pool.slabSize)
    (hPositive : 0 < heap.pool.slabSize)
    (hSlabs : ∀ key ∈ central.slabs, key ∈ (heap.pool.central idx).slabs ∨ key = memory) :
    (heap.setCentral idx central).Layout := by
  obtain ⟨hNotNull, hSlab, hLive⟩ := hFresh
  have hNew : ∀ j, memory ∉ (heap.pool.central j).slabs := by
    intro j hKey
    have := hSlab j memory hKey
    omega
  have hCases : ∀ j key, key ∈ ((heap.setCentral idx central).pool.central j).slabs →
      key ∈ (heap.pool.central j).slabs ∨ (j = idx ∧ key = memory) := by
    intro j key hKey
    by_cases hj : j = idx
    · subst hj
      have hKey' : key ∈ (Function.update heap.pool.central j central j).slabs := hKey
      rw [Function.update_self] at hKey'
      rcases hSlabs key hKey' with hOld | rfl
      · exact .inl hOld
      · exact .inr ⟨rfl, rfl⟩
    · have hKey' : key ∈ (Function.update heap.pool.central idx central j).slabs := hKey
      rw [Function.update_of_ne hj] at hKey'
      exact .inl hKey'
  constructor
  case positive =>
    intro j key hKey
    rcases hCases j key hKey with hOld | ⟨_, rfl⟩
    · exact h.positive j key hOld
    · exact hNotNull
  case owner =>
    intro i j key hi hj
    rcases hCases i key hi with hOldI | ⟨rfl, rfl⟩
    · rcases hCases j key hj with hOldJ | ⟨rfl, rfl⟩
      · exact h.owner i j key hOldI hOldJ
      · exact absurd hOldI (hNew i)
    · rcases hCases j key hj with hOldJ | ⟨rfl, _⟩
      · exact absurd hOldJ (hNew j)
      · rfl
  case large =>
    intro b hb hLarge j key hKey
    rcases hCases j key hKey with hOld | ⟨_, rfl⟩
    · exact h.large b hb hLarge j key hOld
    · exact Apart.symm (hLive b hb hLarge)
  case apart => exact h.apart

/-- A block goes to a caller. -/
theorem give (h : heap.Layout) (hServes : heap.pool.serves size alignment) :
    (heap.give ptr size alignment).Layout := by
  constructor
  case positive => exact h.positive
  case owner => exact h.owner
  case large =>
    intro b hb hLarge
    rcases List.mem_cons.mp hb with rfl | hb
    · exact absurd hServes hLarge
    · exact h.large b hb hLarge
  case apart =>
    apply List.Pairwise.cons
    · exact fun b _ hLarge => absurd hServes hLarge
    · exact h.apart

/-- A region of its own goes to a caller. -/
theorem giveLarge (h : heap.Layout) (hFresh : heap.Fresh ptr (adjusted size)) :
    (heap.give ptr size alignment).Layout := by
  obtain ⟨_, hSlab, hLive⟩ := hFresh
  constructor
  case positive => exact h.positive
  case owner => exact h.owner
  case large =>
    intro b hb hLarge
    rcases List.mem_cons.mp hb with rfl | hb
    · exact hSlab
    · exact h.large b hb hLarge
  case apart =>
    apply List.Pairwise.cons
    · exact fun b hb _ hLarge => hLive b hb hLarge
    · exact h.apart

theorem erase (h : heap.Layout) : ({ heap with live := heap.live.erase a } : Heap).Layout where
  positive := h.positive
  owner := h.owner
  large := fun b hb => h.large b (List.mem_of_mem_erase hb)
  apart := h.apart.sublist List.erase_sublist

end Layout

end Heap

end Memory
