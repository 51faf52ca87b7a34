import Mathlib.Data.Fintype.Basic
import Mathlib.Data.Fin.Basic

/-! The table of block sizes (core/common/memory/size_class.hpp). -/
namespace Memory.SizeClass

abbrev kNumSizeClasses : Nat := 9

def kMaxAllocSize : Nat := 2048

structure Entry where
  blockSize : Nat
  batchSize : Nat
deriving Repr

def kTable : Vector Entry kNumSizeClasses :=
  #v[⟨8, 64⟩, ⟨16, 64⟩, ⟨32, 32⟩, ⟨64, 32⟩, ⟨128, 16⟩, ⟨256, 16⟩, ⟨512, 8⟩, ⟨1024, 4⟩, ⟨2048, 2⟩]

def blockSize (idx : Fin kNumSizeClasses) : Nat := kTable[idx].blockSize

def batchSize (idx : Fin kNumSizeClasses) : Nat := kTable[idx].batchSize

/-- The first class whose blocks are large enough, or class 0 where the source asserts. -/
def index (size : Nat) : Fin kNumSizeClasses :=
  ((List.finRange kNumSizeClasses).find? (size ≤ blockSize ·)).getD 0

theorem size_le {size : Nat} (h : size ≤ kMaxAllocSize) : size ≤ blockSize (index size) := by
  unfold index
  cases hFind : (List.finRange kNumSizeClasses).find? (size ≤ blockSize ·) with
  | none =>
      have hLast : ¬size ≤ blockSize 8 := by
        simpa using List.find?_eq_none.mp hFind 8 (List.mem_finRange 8)
      exact absurd h hLast
  | some idx => simpa using List.find?_some hFind

/-- A size above the smallest block goes to a larger class. -/
theorem index_ne_zero {size : Nat} (hLow : 8 < size) (h : size ≤ kMaxAllocSize) : index size ≠ 0 := by
  intro hZero
  have hFits := size_le h
  rw [hZero] at hFits
  exact absurd hFits (Nat.not_le_of_lt hLow)

theorem index_eq_zero {size : Nat} (hLow : size ≤ 8) : index size = 0 := by
  have hFits : size ≤ blockSize 0 := hLow
  have hFirst : (List.finRange kNumSizeClasses).find? (size ≤ blockSize ·) = some 0 :=
    List.find?_cons_of_pos (decide_eq_true hFits)
  rw [index, hFirst]
  rfl

theorem blockSize_bounds (idx : Fin kNumSizeClasses) : 8 ≤ blockSize idx ∧ blockSize idx ≤ kMaxAllocSize := by
  revert idx
  decide

theorem batchSize_bounds (idx : Fin kNumSizeClasses) : 0 < batchSize idx ∧ batchSize idx ≤ 64 := by
  revert idx
  decide

/-- Blocks are a multiple of 8 bytes, and of 16 except in the smallest class. -/
theorem blockSize_mod (idx : Fin kNumSizeClasses) :
    blockSize idx % 8 = 0 ∧ (idx ≠ 0 → blockSize idx % 16 = 0) := by
  revert idx
  decide

end Memory.SizeClass
