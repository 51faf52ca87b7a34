import Mathlib.Data.List.Nodup
import Mathlib.Data.List.Range
import Mathlib.Tactic.Ring

/-! Blocks of one size cut from one region of memory (core/common/memory/slab.hpp), and the
list threaded through the blocks that are free (free_list.hpp). Addresses are numbers. -/
namespace Memory

/-- `FreeList`: the addresses of its blocks, head first. `count_` is the length. -/
abbrev FreeList := List Nat

namespace FreeList

def push (list : FreeList) (block : Nat) : FreeList := block :: list

def pushBatch : FreeList → List Nat → FreeList
  | list, [] => list
  | list, block :: rest => pushBatch (list.push block) rest

def popBatch : FreeList → Nat → List Nat × FreeList
  | list, 0 => ([], list)
  | [], _ + 1 => ([], [])
  | block :: list, maxCount + 1 => (block :: (popBatch list maxCount).1, (popBatch list maxCount).2)

theorem pushBatch_eq (list : FreeList) (blocks : List Nat) :
    list.pushBatch blocks = blocks.reverse ++ list := by
  induction blocks generalizing list with
  | nil => rfl
  | cons block rest ih =>
      rw [pushBatch, ih]
      simp [push]

theorem popBatch_eq (list : FreeList) (maxCount : Nat) :
    list.popBatch maxCount = (list.take maxCount, list.drop maxCount) := by
  induction maxCount generalizing list with
  | zero => simp [popBatch]
  | succ maxCount ih =>
      cases list with
      | nil => simp [popBatch]
      | cons block list => simp [popBatch, ih]

/-- What is popped and what is left make up the list. -/
theorem count_popBatch (list : FreeList) (maxCount p : Nat) :
    (list.popBatch maxCount).1.count p + (list.popBatch maxCount).2.count p = list.count p := by
  rw [popBatch_eq, ← List.count_append, List.take_append_drop]

end FreeList

inductive SlabState where
  | empty
  | partially
  | full
deriving DecidableEq, Repr

structure Slab where
  memory : Nat
  blockSize : Nat
  slabSize : Nat
  usedCount : Nat
  freeList : FreeList
deriving Repr

namespace Slab

def totalBlocks (s : Slab) : Nat := s.slabSize / s.blockSize

/-- The addresses of the blocks, in the order in which the constructor pushes them. -/
def blocks (s : Slab) : List Nat := (List.range s.totalBlocks).map fun i => s.memory + i * s.blockSize

/-- The constructor, once `operator new` has answered with `memory`. -/
def create (memory blockSize slabSize : Nat) : Slab :=
  let s : Slab := ⟨memory, blockSize, slabSize, 0, []⟩
  { s with freeList := FreeList.pushBatch [] s.blocks }

def allocate (s : Slab) : Option Nat × Slab :=
  match s.freeList with
  | [] => (none, s)
  | block :: rest => (some block, { s with usedCount := s.usedCount + 1, freeList := rest })

def allocateBatch (s : Slab) (maxCount : Nat) : List Nat × Slab :=
  let (out, left) := s.freeList.popBatch maxCount
  (out, { s with usedCount := s.usedCount + out.length, freeList := left })

def deallocate (s : Slab) (ptr : Nat) : Slab :=
  { s with usedCount := s.usedCount - 1, freeList := s.freeList.push ptr }

def state (s : Slab) : SlabState :=
  if s.usedCount = 0 then .empty else if s.usedCount = s.totalBlocks then .full else .partially

theorem mem_blocks {s : Slab} {p : Nat} :
    p ∈ s.blocks ↔ ∃ i, i < s.totalBlocks ∧ p = s.memory + i * s.blockSize := by
  simp [blocks, eq_comm]

theorem blocks_nodup {s : Slab} (hSize : 0 < s.blockSize) : s.blocks.Nodup := by
  apply List.Nodup.map _ List.nodup_range
  intro i j hSame
  exact Nat.eq_of_mul_eq_mul_right hSize (Nat.add_left_cancel hSame)

/-- A block lies within its slab. -/
theorem block_fits {s : Slab} {p : Nat} (hMem : p ∈ s.blocks) :
    s.memory ≤ p ∧ p + s.blockSize ≤ s.memory + s.slabSize := by
  obtain ⟨i, hi, rfl⟩ := mem_blocks.mp hMem
  have hNext : (i + 1) * s.blockSize ≤ s.totalBlocks * s.blockSize := Nat.mul_le_mul_right _ hi
  have hTotal : s.totalBlocks * s.blockSize ≤ s.slabSize := Nat.div_mul_le_self ..
  rw [Nat.add_mul, Nat.one_mul] at hNext
  omega

/-- Masking the address of a block finds the begin of its slab. -/
theorem mask_block {s : Slab} {p : Nat} (hSize : 0 < s.blockSize) (hAligned : s.memory % s.slabSize = 0)
    (hMem : p ∈ s.blocks) : p - p % s.slabSize = s.memory := by
  obtain ⟨hLow, hHigh⟩ := block_fits hMem
  obtain ⟨d, rfl⟩ := Nat.exists_eq_add_of_le hLow
  have hMod : (s.memory + d) % s.slabSize = d := by
    rw [Nat.add_mod, hAligned, Nat.zero_add, Nat.mod_mod, Nat.mod_eq_of_lt (by omega)]
  omega

/-- Two blocks of a slab are the same or do not overlap. -/
theorem blocks_apart {s : Slab} {p q : Nat} (hp : p ∈ s.blocks) (hq : q ∈ s.blocks) (hne : p ≠ q) :
    p + s.blockSize ≤ q ∨ q + s.blockSize ≤ p := by
  obtain ⟨i, _, rfl⟩ := mem_blocks.mp hp
  obtain ⟨j, _, rfl⟩ := mem_blocks.mp hq
  rcases Nat.lt_trichotomy i j with hLt | rfl | hLt
  · left
    have := Nat.mul_le_mul_right s.blockSize hLt
    rw [Nat.succ_mul] at this
    omega
  · exact absurd rfl hne
  · right
    have := Nat.mul_le_mul_right s.blockSize hLt
    rw [Nat.succ_mul] at this
    omega

section Fields

variable (s : Slab) (ptr maxCount memory blockSize slabSize : Nat)

@[simp] theorem blocks_allocateBatch : (s.allocateBatch maxCount).2.blocks = s.blocks := rfl

@[simp] theorem blocks_deallocate : (s.deallocate ptr).blocks = s.blocks := rfl

theorem freeList_create :
    (create memory blockSize slabSize).freeList = (create memory blockSize slabSize).blocks.reverse := by
  show FreeList.pushBatch [] _ = _
  rw [FreeList.pushBatch_eq, List.append_nil]
  rfl

/-- One block is a batch of one. -/
theorem allocate_eq : s.allocate = ((s.allocateBatch 1).1.head?, (s.allocateBatch 1).2) := by
  obtain ⟨memory, blockSize, slabSize, usedCount, freeList⟩ := s
  cases freeList <;> simp [allocate, allocateBatch, FreeList.popBatch]

end Fields

end Slab

end Memory
