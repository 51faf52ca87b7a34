import V2Engine.Memory.ByteMemory
import V2Engine.Memory.PoolOwnership
import V2Engine.Interleaving.Calls

/-! `FreeList` as it lies in memory (core/common/memory/free_list.hpp): its links are in the
first bytes of the blocks themselves, which belong to their users again once they are popped.
Slabs and thread caches have such lists, all of them through the same memory. -/
namespace Memory.Threaded

open ByteMemory Interleaving

/-- `sizeof(Node)`. -/
def kNodeSize : Nat := 8

/-- The blocks that memory is cut into: room for a link in each, none at the null address, and
no two that overlap. -/
structure Blocks where
  Is : Nat → Prop
  size : Nat → Nat
  node_le : ∀ {p}, Is p → kNodeSize ≤ size p
  pos : ∀ {p}, Is p → 0 < p
  fits : ∀ {p}, Is p → p + size p ≤ 2 ^ 64
  apart : ∀ {p q}, Is p → Is q → p ≠ q → p + size p ≤ q ∨ q + size q ≤ p

/-- The members of a `FreeList`: `head_`, null being 0, and `count_`. -/
structure Links where
  head : Nat
  count : Nat
  deriving DecidableEq

/-- Memory, the free lists in it, and the blocks that are in none. `contents` is what the
users of these blocks have written, or found when they got them; nothing reads it. -/
structure Heap (κ : Type*) where
  bytes : Bytes
  lists : κ → Links
  live : List Nat
  contents : Bytes

variable {κ : Type*} [DecidableEq κ]

def Heap.push (s : Heap κ) (k : κ) (block : Nat) : Heap κ :=
  { s with
    bytes := store s.bytes block (s.lists k).head kNodeSize
    lists := Function.update s.lists k ⟨block, (s.lists k).count + 1⟩
    live := s.live.erase block }

def Heap.pushBatch (s : Heap κ) (k : κ) : List Nat → Heap κ
  | [] => s
  | block :: rest => (s.push k block).pushBatch k rest

def Heap.pop (B : Blocks) (s : Heap κ) (k : κ) : Option Nat × Heap κ :=
  let node := (s.lists k).head
  if node = 0 then (none, s)
  else
    (some node, { s with
      lists := Function.update s.lists k ⟨load s.bytes node kNodeSize, (s.lists k).count - 1⟩
      live := node :: s.live
      contents := fun a => if node ≤ a ∧ a < node + B.size node then s.bytes a else s.contents a })

def Heap.popBatch (B : Blocks) (s : Heap κ) (k : κ) : Nat → List Nat × Heap κ
  | 0 => ([], s)
  | maxCount + 1 =>
      match s.pop B k with
      | (none, s) => ([], s)
      | (some node, s) => (node :: (s.popBatch B k maxCount).1, (s.popBatch B k maxCount).2)

/-- The user of a block writes a byte of it. -/
def Heap.write (s : Heap κ) (addr : Nat) (byte : UInt8) : Heap κ :=
  { s with
    bytes := Function.update s.bytes addr byte
    contents := Function.update s.contents addr byte }

/-- The memory-level lists are the lists of addresses, head first; a block is in one list, or
in the hands of a user and holds what that user has written. -/
structure Refines (B : Blocks) (s : Heap κ) (lists : κ → FreeList) : Prop where
  linked : ∀ k, Linked s.bytes kNodeSize (s.lists k).head (lists k)
  count : ∀ k, (s.lists k).count = (lists k).length
  own : ∀ k, ∀ p ∈ lists k, B.Is p
  nodup : ∀ k, (lists k).Nodup
  one : ∀ k j p, p ∈ lists k → p ∈ lists j → k = j
  out : ∀ k, ∀ p ∈ lists k, p ∉ s.live
  live_own : ∀ p ∈ s.live, B.Is p
  live_nodup : s.live.Nodup
  contents : ∀ p ∈ s.live, ∀ i, i < B.size p → s.bytes (p + i) = s.contents (p + i)

theorem mem_push {lists : κ → FreeList} {k j : κ} {p q : Nat} :
    q ∈ Function.update lists k ((lists k).push p) j ↔ j = k ∧ q = p ∨ q ∈ lists j := by
  by_cases hj : j = k
  · subst hj
    simp [FreeList.push]
  · simp [hj]

namespace Refines

variable {B : Blocks} {s : Heap κ} {lists : κ → FreeList} {k : κ} {p : Nat}

omit [DecidableEq κ] in
/-- A head is an address. -/
theorem head_lt (h : Refines B s lists) (k : κ) : (s.lists k).head < 256 ^ kNodeSize := by
  have hLinked := h.linked k
  cases hList : lists k with
  | nil =>
      rw [hList] at hLinked
      rw [show (s.lists k).head = 0 from hLinked]
      decide
  | cons node rest =>
      rw [hList] at hLinked
      have hOwn := h.own k node (by rw [hList]; exact List.mem_cons_self)
      have hFits := B.fits hOwn
      have hNode := B.node_le hOwn
      have hPow : (256 : Nat) ^ kNodeSize = 2 ^ 64 := by decide
      rw [hLinked.1, hPow]
      unfold kNodeSize at hNode
      omega

theorem push (h : Refines B s lists) (hLive : p ∈ s.live) :
    Refines B (s.push k p) (Function.update lists k ((lists k).push p)) := by
  have hOwn := h.live_own p hLive
  have hNode := B.node_le hOwn
  have hOut : ∀ j, p ∉ lists j := fun j hMem => h.out j p hMem hLive
  have hApart : ∀ j, ∀ q ∈ lists j, q + B.size q ≤ p ∨ p + B.size p ≤ q := fun j q hMem =>
    B.apart (h.own j q hMem) hOwn fun hSame => hOut j (hSame ▸ hMem)
  have hErase : ∀ q, q ∈ s.live.erase p ↔ q ≠ p ∧ q ∈ s.live := fun q => h.live_nodup.mem_erase_iff
  refine ⟨fun j => ?_, fun j => ?_, fun j q hMem => ?_, fun j => ?_, fun i j q hi hj => ?_,
    fun j q hMem => ?_, fun q hMem => ?_, h.live_nodup.erase p, fun q hMem i hi => ?_⟩
  · by_cases hj : j = k
    · subst hj
      simp only [Heap.push, Function.update_self]
      refine (h.linked j).cons (B.pos hOwn).ne' (h.head_lt j) fun q hMem => ?_
      have := hApart j q hMem
      have := B.node_le (h.own j q hMem)
      omega
    · simp only [Heap.push, Function.update_of_ne hj]
      refine (h.linked j).congr fun q hMem i hi => store_of_apart ?_
      have := hApart j q hMem
      have := B.node_le (h.own j q hMem)
      omega
  · by_cases hj : j = k
    · subst hj
      simp [Heap.push, FreeList.push, h.count]
    · simp [Heap.push, Function.update_of_ne hj, h.count]
  · rcases mem_push.mp hMem with ⟨_, rfl⟩ | hOld
    · exact hOwn
    · exact h.own j q hOld
  · by_cases hj : j = k
    · subst hj
      rw [Function.update_self]
      exact List.nodup_cons.mpr ⟨hOut j, h.nodup j⟩
    · rw [Function.update_of_ne hj]
      exact h.nodup j
  · rcases mem_push.mp hi with ⟨hi, hq⟩ | hi <;> rcases mem_push.mp hj with ⟨hj, hq'⟩ | hj
    · exact hi.trans hj.symm
    · exact absurd hj (hq ▸ hOut j)
    · exact absurd hi (hq' ▸ hOut i)
    · exact h.one i j q hi hj
  · show q ∉ s.live.erase p
    rw [hErase]
    rcases mem_push.mp hMem with ⟨_, rfl⟩ | hOld
    · exact fun hBoth => hBoth.1 rfl
    · exact fun hBoth => h.out j q hOld hBoth.2
  · exact h.live_own q ((hErase q).mp hMem).2
  · obtain ⟨hne, hOld⟩ := (hErase q).mp hMem
    have hDisjoint := B.apart (h.live_own q hOld) hOwn hne
    exact (store_of_apart (by omega)).trans (h.contents q hOld i hi)

theorem pushBatch (h : Refines B s lists) {blocks : List Nat} (hNodup : blocks.Nodup)
    (hLive : ∀ q ∈ blocks, q ∈ s.live) :
    Refines B (s.pushBatch k blocks) (Function.update lists k ((lists k).pushBatch blocks)) := by
  induction blocks generalizing s lists with
  | nil => simpa [Heap.pushBatch, FreeList.pushBatch] using h
  | cons block rest ih =>
      obtain ⟨hNew, hRest⟩ := List.nodup_cons.mp hNodup
      have hPush := h.push (k := k) (hLive block List.mem_cons_self)
      have hLeft : ∀ q ∈ rest, q ∈ (s.push k block).live := fun q hMem => by
        refine h.live_nodup.mem_erase_iff.mpr ⟨?_, hLive q (List.mem_cons_of_mem _ hMem)⟩
        rintro rfl
        exact hNew hMem
      simpa [Heap.pushBatch, FreeList.pushBatch] using ih hPush hRest hLeft

omit [DecidableEq κ] in
/-- A list of which the head is null is empty, and the head of another is its first block. -/
theorem head_eq (h : Refines B s lists) (k : κ) :
    (s.lists k).head = 0 ∧ lists k = [] ∨
      (s.lists k).head ≠ 0 ∧ ∃ rest, lists k = (s.lists k).head :: rest ∧
        Linked s.bytes kNodeSize (load s.bytes (s.lists k).head kNodeSize) rest := by
  have hLinked := h.linked k
  cases hList : lists k with
  | nil =>
      rw [hList] at hLinked
      exact .inl ⟨hLinked, rfl⟩
  | cons node rest =>
      rw [hList] at hLinked
      obtain ⟨hHead, hNode, hRest⟩ := hLinked
      exact .inr ⟨hHead ▸ hNode, rest, by rw [hHead], hHead ▸ hRest⟩

theorem pop_none (h : Refines B s lists) (hList : lists k = []) : s.pop B k = (none, s) := by
  rcases h.head_eq k with ⟨hHead, _⟩ | ⟨_, rest, hOther, _⟩
  · rw [Heap.pop, if_pos hHead]
  · rw [hList] at hOther
    cases hOther

theorem pop_some (h : Refines B s lists) {rest : List Nat} (hList : lists k = p :: rest) :
    (s.pop B k).1 = some p ∧ Refines B (s.pop B k).2 (Function.update lists k rest) := by
  rcases h.head_eq k with ⟨_, hOther⟩ | ⟨hHead, rest', hOther, hRest⟩
  · rw [hList] at hOther
    cases hOther
  rw [hList, List.cons.injEq] at hOther
  obtain ⟨hp, rfl⟩ := hOther
  have hMem : p ∈ lists k := by
    rw [hList]
    exact List.mem_cons_self
  have hOwn := h.own k p hMem
  have hSub : ∀ j q, q ∈ Function.update lists k rest j → q ∈ lists j ∧ q ≠ p := by
    intro j q hq
    by_cases hj : j = k
    · subst hj
      rw [Function.update_self] at hq
      have hNodup := h.nodup j
      rw [hList] at hNodup
      refine ⟨by rw [hList]; exact List.mem_cons_of_mem _ hq, ?_⟩
      rintro rfl
      exact (List.nodup_cons.mp hNodup).1 hq
    · rw [Function.update_of_ne hj] at hq
      refine ⟨hq, ?_⟩
      rintro rfl
      exact hj (h.one j k q hq hMem)
  rw [← hp] at hHead
  simp only [Heap.pop, ← hp, if_neg hHead]
  refine ⟨trivial, fun j => ?_, fun j => ?_, fun j q hq => h.own j q (hSub j q hq).1, fun j => ?_,
    fun i j q hi hj => h.one i j q (hSub i q hi).1 (hSub j q hj).1, fun j q hq => ?_,
    fun q hq => ?_, List.nodup_cons.mpr ⟨h.out k p hMem, h.live_nodup⟩, fun q hq i hi => ?_⟩
  · by_cases hj : j = k
    · subst hj
      simpa [← hp] using hRest
    · simpa [Function.update_of_ne hj] using h.linked j
  · by_cases hj : j = k
    · subst hj
      simp [h.count, hList]
    · simp [Function.update_of_ne hj, h.count]
  · by_cases hj : j = k
    · subst hj
      have hNodup := h.nodup j
      rw [hList] at hNodup
      rw [Function.update_self]
      exact (List.nodup_cons.mp hNodup).2
    · rw [Function.update_of_ne hj]
      exact h.nodup j
  · obtain ⟨hOld, hne⟩ := hSub j q hq
    simpa [hne] using h.out j q hOld
  · rcases List.mem_cons.mp hq with rfl | hOld
    · exact hOwn
    · exact h.live_own q hOld
  · rcases List.mem_cons.mp hq with rfl | hOld
    · exact (if_pos (by omega)).symm
    · have hne : q ≠ p := fun hSame => h.out k p hMem (hSame ▸ hOld)
      have hDisjoint := B.apart (h.live_own q hOld) hOwn hne
      exact (h.contents q hOld i hi).trans (if_neg (by omega)).symm

theorem popBatch (h : Refines B s lists) (maxCount : Nat) :
    (s.popBatch B k maxCount).1 = ((lists k).popBatch maxCount).1 ∧
      Refines B (s.popBatch B k maxCount).2
        (Function.update lists k ((lists k).popBatch maxCount).2) := by
  induction maxCount generalizing s lists with
  | zero => simpa [Heap.popBatch, FreeList.popBatch] using h
  | succ maxCount ih =>
      cases hList : lists k with
      | nil =>
          simp only [Heap.popBatch, h.pop_none hList, FreeList.popBatch]
          rw [← hList, Function.update_eq_self]
          exact ⟨trivial, h⟩
      | cons p rest =>
          obtain ⟨hSome, hPop⟩ := h.pop_some hList
          obtain ⟨hOut, hRest⟩ := ih hPop
          rw [Function.update_self] at hOut hRest
          rw [Function.update_idem] at hRest
          generalize hAfter : s.pop B k = after at hSome hOut hRest
          obtain ⟨node, s'⟩ := after
          simp only at hSome
          subst hSome
          simp only [Heap.popBatch, hAfter, FreeList.popBatch]
          exact ⟨by rw [hOut], hRest⟩

omit [DecidableEq κ] in
/-- What a user writes to a block of its own is nobody's link. -/
theorem write (h : Refines B s lists) {addr : Nat} {byte : UInt8} (hLive : p ∈ s.live)
    (hFrom : p ≤ addr) (hTo : addr < p + B.size p) : Refines B (s.write addr byte) lists := by
  refine { h with
    linked := fun j => (h.linked j).congr fun q hMem i hi => ?_
    contents := fun q hMem i hi => ?_ }
  · have hne : q ≠ p := fun hSame => h.out j q hMem (hSame ▸ hLive)
    have hDisjoint := B.apart (h.own j q hMem) (h.live_own p hLive) hne
    have hNode := B.node_le (h.own j q hMem)
    exact Function.update_of_ne (by omega) ..
  · by_cases hAt : q + i = addr
    · simp [Heap.write, hAt]
    · simpa [Heap.write, hAt] using h.contents q hMem i hi

end Refines

/-- A call on one of the lists, or a write of a user to a block. -/
inductive Op (κ : Type*) where
  | push (k : κ) (block : Nat)
  | pushBatch (k : κ) (blocks : List Nat)
  | pop (k : κ)
  | popBatch (k : κ) (maxCount : Nat)
  | write (addr : Nat) (byte : UInt8)

/-- The heap, with what the calls have returned so far. -/
structure Run (κ : Type*) where
  heap : Heap κ
  results : List (List Nat)

/-- Blocks are pushed by who holds them, each once, and users write to blocks they hold. -/
def step (B : Blocks) : Op κ → Run κ → Option (Run κ)
  | .push k block, r =>
      if block ∈ r.heap.live then some { r with heap := r.heap.push k block } else none
  | .pushBatch k blocks, r =>
      if blocks.Nodup ∧ ∀ block ∈ blocks, block ∈ r.heap.live then
        some { r with heap := r.heap.pushBatch k blocks }
      else none
  | .pop k, r => some ⟨(r.heap.pop B k).2, (r.heap.pop B k).1.toList :: r.results⟩
  | .popBatch k maxCount, r =>
      some ⟨(r.heap.popBatch B k maxCount).2, (r.heap.popBatch B k maxCount).1 :: r.results⟩
  | .write addr byte, r =>
      if ∃ block ∈ r.heap.live, block ≤ addr ∧ addr < block + B.size block then
        some { r with heap := r.heap.write addr byte }
      else none

/-- The lists of addresses, with what the calls have returned so far. -/
structure ListRun (κ : Type*) where
  lists : κ → FreeList
  results : List (List Nat)

/-- The same calls where no memory is involved. -/
def listStep : Op κ → ListRun κ → Option (ListRun κ)
  | .push k block, r => some { r with lists := Function.update r.lists k ((r.lists k).push block) }
  | .pushBatch k blocks, r =>
      some { r with lists := Function.update r.lists k ((r.lists k).pushBatch blocks) }
  | .pop k, r =>
      match r.lists k with
      | [] => some { r with results := [] :: r.results }
      | block :: rest => some ⟨Function.update r.lists k rest, [block] :: r.results⟩
  | .popBatch k maxCount, r =>
      some ⟨Function.update r.lists k ((r.lists k).popBatch maxCount).2,
        ((r.lists k).popBatch maxCount).1 :: r.results⟩
  | .write _ _, r => some r

/-- Empty lists, and users who hold blocks. -/
def Start (B : Blocks) (r : Run κ) : Prop :=
  (∀ k, r.heap.lists k = ⟨0, 0⟩) ∧ (∀ p ∈ r.heap.live, B.Is p) ∧ r.heap.live.Nodup ∧
    r.heap.contents = r.heap.bytes ∧ r.results = []

/-- The memory-level lists and the lists of addresses, after runs of the same calls. -/
structure Agrees (B : Blocks) (r : Run κ) (l : ListRun κ) : Prop where
  refines : Refines B r.heap l.lists
  results : r.results = l.results

theorem step_agrees {B : Blocks} {r r' : Run κ} {l : ListRun κ} {op : Op κ} (h : Agrees B r l)
    (hStep : step B op r = some r') : ∃ l', listStep op l = some l' ∧ Agrees B r' l' := by
  obtain ⟨refines, hResults⟩ := h
  cases op with
  | push k block =>
      simp only [step] at hStep
      split at hStep <;> cases hStep
      exact ⟨_, rfl, refines.push ‹_›, hResults⟩
  | pushBatch k blocks =>
      simp only [step] at hStep
      split at hStep <;> cases hStep
      rename_i hHeld
      exact ⟨_, rfl, refines.pushBatch hHeld.1 hHeld.2, hResults⟩
  | pop k =>
      cases hStep
      cases hList : l.lists k with
      | nil =>
          refine ⟨{ l with results := [] :: l.results }, by simp only [listStep, hList], ?_, ?_⟩
          · rw [refines.pop_none hList]
            exact refines
          · rw [refines.pop_none hList, hResults]
            rfl
      | cons block rest =>
          obtain ⟨hSome, hPop⟩ := refines.pop_some hList
          refine ⟨⟨Function.update l.lists k rest, [block] :: l.results⟩,
            by simp only [listStep, hList], hPop, ?_⟩
          rw [hSome, hResults]
          rfl
  | popBatch k maxCount =>
      cases hStep
      obtain ⟨hOut, hPop⟩ := refines.popBatch maxCount
      exact ⟨_, rfl, hPop, by rw [hOut, hResults]⟩
  | write addr byte =>
      simp only [step] at hStep
      split at hStep <;> cases hStep
      rename_i hHeld
      obtain ⟨block, hLive, hFrom, hTo⟩ := hHeld
      exact ⟨l, rfl, refines.write hLive hFrom hTo, hResults⟩

/-- The blocks of one slab. -/
def ofSlab (s : Slab) (hNode : kNodeSize ≤ s.blockSize) (hMemory : 0 < s.memory)
    (hFits : s.memory + s.slabSize ≤ 2 ^ 64) : Blocks where
  Is p := p ∈ s.blocks
  size _ := s.blockSize
  node_le _ := hNode
  pos hMem := Nat.lt_of_lt_of_le hMemory (Slab.block_fits hMem).1
  fits hMem := (Slab.block_fits hMem).2.trans hFits
  apart := Slab.blocks_apart

/-- A slab of four blocks at the address 4096. -/
def fourBlocks : Slab := Slab.create 4096 16 64

def inSlab : Blocks := ofSlab fourBlocks (by decide) (by decide) (by decide)

def allHeld : Run Unit := ⟨⟨fun _ => 255, fun _ => ⟨0, 0⟩, fourBlocks.blocks, fun _ => 255⟩, []⟩

/-- The constructor pushes all blocks; one is popped, written to and pushed back, and three are
popped after that. -/
def useAndReturn : List (Op Unit) :=
  [.pushBatch () fourBlocks.blocks, .pop (), .write 4147 7, .write 4144 9, .push () 4144,
    .popBatch () 3]

def afterUse : Run Unit := 
  (Calls.replay (step inSlab) anyCall allHeld useAndReturn).get (by decide +kernel)

section Pool

open SizeClass MemoryPool

variable {Θ : Type*} [Fintype Θ] [DecidableEq Θ] {c : Config Θ Memory.Heap Place}

/-- The blocks of a pool are such blocks in every state that its threads come to, whichever
slabs they lie in. -/
theorem pool_blocks (reach : Reach code Starting anyStep c)
    (hMemory : ∀ idx, ∀ key ∈ (c.shared.pool.central idx).slabs,
      key + c.shared.pool.slabSize ≤ 2 ^ 64) :
    ∃ B : Blocks, (∀ p, B.Is p ↔ ∃ idx, (c.shared.pool.central idx).Block p) ∧
      ∀ idx p, (c.shared.pool.central idx).Block p → B.size p = blockSize idx := by
  classical
  have h := sorted reach
  have hOne : ∀ {i j p}, (c.shared.pool.central i).Block p → (c.shared.pool.central j).Block p →
      i = j := by
    intro i j p hi hj
    by_contra hne
    have hApart := h.blocks_apart hi hj (.inl hne)
    have := blockSize_bounds i
    have := blockSize_bounds j
    unfold Heap.Apart at hApart
    omega
  let size p := if hp : ∃ idx, (c.shared.pool.central idx).Block p then blockSize hp.choose else 0
  have hSize : ∀ idx p, (c.shared.pool.central idx).Block p → size p = blockSize idx := by
    intro idx p hp
    have hSome : ∃ idx, (c.shared.pool.central idx).Block p := ⟨idx, hp⟩
    simp only [size, dif_pos hSome]
    rw [hOne hSome.choose_spec hp]
  refine ⟨⟨fun p => ∃ idx, (c.shared.pool.central idx).Block p, size, ?_, ?_, ?_, ?_⟩,
    fun _ => Iff.rfl, hSize⟩
  · rintro p ⟨idx, hp⟩
    rw [hSize idx p hp]
    exact (blockSize_bounds idx).1
  · rintro p ⟨idx, hp⟩
    obtain ⟨key, s, _, _, hKey, _, hLow, _⟩ := h.region hp
    exact Nat.lt_of_lt_of_le (h.ready.layout.positive idx key hKey) hLow
  · rintro p ⟨idx, hp⟩
    obtain ⟨key, s, _, _, hKey, _, _, hHigh⟩ := h.region hp
    rw [hSize idx p hp]
    exact hHigh.trans (hMemory idx key hKey)
  · rintro p q ⟨i, hp⟩ ⟨j, hq⟩ hne
    rw [hSize i p hp, hSize j q hq]
    exact h.blocks_apart hp hq (.inr hne)

end Pool

end Memory.Threaded
