import V2Engine.Memory.CentralCache
import Mathlib.Data.List.Perm.Subperm
import Mathlib.Algebra.BigOperators.Group.List.Basic

/-! The blocks that are out, counted against the slabs of a central cache, and what its
operations do to the two as long as no slab has been left without a block in use. -/
namespace Memory

namespace CentralCache

/-- The blocks that callers hold, against the slabs. -/
structure Balanced (c : CentralCache) (outstanding : List Nat) : Prop where
  shaped : c.Shaped
  used : ∀ {key s}, c.slabMap key = some s → s.usedCount + s.freeList.length = s.totalBlocks
  keys : ∀ {key}, key ∈ c.slabs ↔ ∃ s, c.slabMap key = some s
  nodup : c.slabs.Nodup
  /-- The list of partial slabs holds exactly the slabs that are. -/
  listed : ∀ {key s}, c.slabMap key = some s → (key ∈ c.partialSlabs ↔ s.state = .partially)
  found : ∀ {p}, p ∈ outstanding → c.Block p
  counted : ∀ {key s}, c.slabMap key = some s → outstanding.countP (c.mask · = key) = s.usedCount

/-- No slab is left without a block in use. -/
def InUse (c : CentralCache) : Prop := ∀ key s, c.slabMap key = some s → 0 < s.usedCount

/-- The slab has no free block. -/
def Full (c : CentralCache) (key : Nat) : Prop := ∀ s, c.slabMap key = some s → s.freeList = []

variable {c : CentralCache} {outstanding out : List Nat} {key memory maxCount p : Nat} {s : Slab}

theorem balanced_init {blockSize slabSize : Nat} (hPositive : 0 < blockSize)
    (hFits : blockSize ≤ slabSize) : (init blockSize slabSize).Balanced [] where
  shaped := shaped_init hPositive hFits
  used := nofun
  keys := by simp [init]
  nodup := List.nodup_nil
  listed := nofun
  found := nofun
  counted := nofun

namespace Balanced

theorem perm (h : c.Balanced outstanding) {other : List Nat} (hPerm : other.Perm outstanding) :
    c.Balanced other :=
  ⟨h.shaped, h.used, h.keys, h.nodup, h.listed, fun hp => h.found (hPerm.mem_iff.mp hp),
    fun hSlab => (hPerm.countP_eq _).trans (h.counted hSlab)⟩

theorem recount (h : c.Balanced outstanding) (n : Nat) :
    ({ c with allocatedBlocks := n } : CentralCache).Balanced outstanding :=
  ⟨h.shaped.recount n, h.used, h.keys, h.nodup, h.listed, h.found, h.counted⟩

theorem totalBlocks_eq (h : c.Balanced outstanding) (hSlab : c.slabMap key = some s) :
    s.totalBlocks = c.slabSize / c.blockSize := by
  have cut := h.shaped.cut hSlab
  rw [Slab.totalBlocks, cut.slabSize, cut.blockSize]

theorem totalBlocks_pos (h : c.Balanced outstanding) : 0 < c.slabSize / c.blockSize :=
  Nat.div_pos h.shaped.fits h.shaped.positive

/-- A changed slab keeps its place on the list of partial slabs exactly if it is one. -/
theorem listed_store (h : c.Balanced outstanding) (hSlab : c.slabMap key = some s) {after : Slab}
    (hMemory : after.memory = key) {k : Nat} {t : Slab}
    (hFind : (c.store s after).slabMap k = some t) :
    k ∈ (c.store s after).partialSlabs ↔ t.state = .partially := by
  rw [slabMap_store, hMemory] at hFind
  rw [partialSlabs_store, hMemory]
  by_cases hk : k = key
  · subst hk
    rw [Function.update_self, Option.some.injEq] at hFind
    subst hFind
    have hBefore := h.listed hSlab
    by_cases hSame : s.state = after.state
    · rw [if_pos hSame, hBefore, hSame]
    · rw [if_neg hSame]
      by_cases hPartial : s.state = .partially
      · have hAfter : after.state ≠ .partially := fun hAfter => hSame (hPartial.trans hAfter.symm)
        simp [hPartial, hAfter]
      · have hOff : k ∉ c.partialSlabs := fun hOn => hPartial (hBefore.mp hOn)
        by_cases hAfter : after.state = .partially <;> simp [hPartial, hAfter, hOff]
  · rw [Function.update_of_ne hk] at hFind
    rw [← h.listed hFind]
    split
    · rfl
    · split <;> split <;> simp [hk]

/-- One slab changes together with the blocks that are out. -/
theorem store (h : c.Balanced outstanding) (hSlab : c.slabMap key = some s) {after : Slab}
    (hShaped : (c.store s after).Shaped) (hMemory : after.memory = key) (hBlocks : after.blocks = s.blocks)
    (hUsed : after.usedCount + after.freeList.length = after.totalBlocks)
    (hFound : ∀ p ∈ out, c.Block p) (hCounted : out.countP (c.mask · = key) = after.usedCount)
    (hOther : ∀ k, k ≠ key → out.countP (c.mask · = k) = outstanding.countP (c.mask · = k)) :
    (c.store s after).Balanced out := by
  have hCases : ∀ {k t}, (c.store s after).slabMap k = some t →
      (k = key ∧ t = after) ∨ (k ≠ key ∧ c.slabMap k = some t) := by
    intro k t hFind
    rw [slabMap_store, hMemory] at hFind
    by_cases hk : k = key
    · subst hk
      rw [Function.update_self, Option.some.injEq] at hFind
      exact .inl ⟨rfl, hFind.symm⟩
    · rw [Function.update_of_ne hk] at hFind
      exact .inr ⟨hk, hFind⟩
  have hMask : ∀ p, (c.store s after).mask p = c.mask p := by simp [mask]
  constructor
  case shaped => exact hShaped
  case used =>
    intro k t hFind
    rcases hCases hFind with ⟨_, rfl⟩ | ⟨_, hOld⟩
    · exact hUsed
    · exact h.used hOld
  case keys =>
    intro k
    rw [slabMap_store, hMemory, slabs_store, h.keys]
    by_cases hk : k = key
    · subst hk
      simp [hSlab]
    · simp [Function.update_of_ne hk]
  case nodup => simpa using h.nodup
  case listed => exact fun hFind => h.listed_store hSlab hMemory hFind
  case found => exact fun hp => (block_store hSlab hBlocks hMemory).mpr (hFound _ hp)
  case counted =>
    intro k t hFind
    simp only [hMask]
    rcases hCases hFind with ⟨rfl, rfl⟩ | ⟨hk, hOld⟩
    · exact hCounted
    · exact (hOther k hk).trans (h.counted hOld)

/-- A slab gives up to `maxCount` of its free blocks. -/
theorem allocateBatch (h : c.Balanced outstanding) (hSlab : c.slabMap key = some s) (maxCount : Nat) :
    (c.store s (s.allocateBatch maxCount).2).Balanced ((s.allocateBatch maxCount).1 ++ outstanding) := by
  have hLengths : (s.allocateBatch maxCount).1.length + (s.allocateBatch maxCount).2.freeList.length =
      s.freeList.length := by
    show (s.freeList.popBatch maxCount).1.length + (s.freeList.popBatch maxCount).2.length = _
    rw [FreeList.popBatch_eq, ← List.length_append, List.take_append_drop]
  have hMasks : ∀ p ∈ (s.allocateBatch maxCount).1, c.mask p = key :=
    fun p hp => (h.shaped.block hSlab (h.shaped.taken hSlab hp)).1
  apply h.store hSlab (h.shaped.allocateBatch hSlab) (h.shaped.cut hSlab).memory rfl
  · have hUsed := h.used hSlab
    show s.usedCount + (s.allocateBatch maxCount).1.length + _ = s.totalBlocks
    omega
  · intro p hp
    rcases List.mem_append.mp hp with hNew | hOld
    · exact (h.shaped.block hSlab (h.shaped.taken hSlab hNew)).2
    · exact h.found hOld
  · rw [List.countP_append, h.counted hSlab, List.countP_eq_length.mpr (by simpa using hMasks)]
    exact Nat.add_comm ..
  · intro k hk
    have hNone : (s.allocateBatch maxCount).1.countP (c.mask · = k) = 0 := by
      apply List.countP_eq_zero.mpr
      intro p hp
      simpa [hMasks p hp] using hk.symm
    rw [List.countP_append, hNone, Nat.zero_add]

/-- A block that is out comes back to its slab. -/
theorem deallocate (h : c.Balanced outstanding) (hMem : p ∈ outstanding) (hFind : c.findSlab p = some s) :
    (c.store s (s.deallocate p)).Balanced (outstanding.erase p) := by
  have hSlab : c.slabMap (c.mask p) = some s := hFind
  obtain ⟨t, hFind', hBlock⟩ := h.found hMem
  rw [hFind, Option.some.injEq] at hFind'
  subst hFind'
  have hErase : ∀ k, (outstanding.erase p).countP (c.mask · = k) =
      outstanding.countP (c.mask · = k) - if c.mask p = k then 1 else 0 := by
    intro k
    rw [(List.perm_cons_erase hMem).countP_eq, List.countP_cons]
    simp only [decide_eq_true_eq]
    split <;> omega
  have hCounted := h.counted hSlab
  have hPositive : 0 < s.usedCount := by
    rw [← hCounted]
    exact List.countP_pos_iff.mpr ⟨p, hMem, by simp⟩
  apply h.store hSlab (h.shaped.deallocate hSlab hBlock) (h.shaped.cut hSlab).memory rfl
  · have hUsed := h.used hSlab
    show s.usedCount - 1 + (s.freeList.length + 1) = s.totalBlocks
    omega
  · exact fun q hq => h.found (List.mem_of_mem_erase hq)
  · rw [hErase, hCounted, if_pos rfl]
    rfl
  · intro k hk
    rw [hErase, if_neg (fun hSame => hk hSame.symm), Nat.sub_zero]

theorem addSlab (h : c.Balanced outstanding) (hAligned : memory % c.slabSize = 0)
    (hFresh : c.slabMap memory = none) : (c.addSlab memory).Balanced outstanding := by
  have hCases : ∀ {k t}, (c.addSlab memory).slabMap k = some t →
      (k = memory ∧ t = Slab.create memory c.blockSize c.slabSize) ∨ (k ≠ memory ∧ c.slabMap k = some t) := by
    intro k t hFind
    by_cases hk : k = memory
    · subst hk
      simp only [CentralCache.addSlab, Function.update_self, Option.some.injEq] at hFind
      exact .inl ⟨rfl, hFind.symm⟩
    · simp only [CentralCache.addSlab, Function.update_of_ne hk] at hFind
      exact .inr ⟨hk, hFind⟩
  have hUnlisted : memory ∉ c.partialSlabs := by
    intro hOn
    obtain ⟨s, hSlab⟩ := h.shaped.listed hOn
    rw [hFresh] at hSlab
    cases hSlab
  constructor
  case shaped => exact h.shaped.addSlab hAligned hFresh
  case used =>
    intro k t hFind
    rcases hCases hFind with ⟨_, rfl⟩ | ⟨_, hOld⟩
    · rw [Slab.freeList_create, List.length_reverse]
      simp [Slab.create, Slab.blocks, Slab.totalBlocks]
    · exact h.used hOld
  case keys =>
    intro k
    by_cases hk : k = memory
    · subst hk
      simp [CentralCache.addSlab]
    · simp [CentralCache.addSlab, hk, h.keys]
  case nodup =>
    apply List.Nodup.append h.nodup (List.nodup_singleton _)
    rw [List.disjoint_singleton, h.keys]
    simp [hFresh]
  case listed =>
    intro k t hFind
    rcases hCases hFind with ⟨rfl, rfl⟩ | ⟨_, hOld⟩
    · simp [CentralCache.addSlab, hUnlisted, Slab.state, Slab.create]
    · exact h.listed hOld
  case found => exact fun hp => block_addSlab hFresh (h.found hp)
  case counted =>
    intro k t hFind
    show outstanding.countP (c.mask · = k) = t.usedCount
    rcases hCases hFind with ⟨rfl, rfl⟩ | ⟨_, hOld⟩
    · show _ = 0
      apply List.countP_eq_zero.mpr
      intro p hp
      obtain ⟨s, hSlab, _⟩ := h.found hp
      simp only [decide_eq_true_eq]
      intro hMask
      rw [findSlab, hMask, hFresh] at hSlab
      cases hSlab
    · exact h.counted hOld

/-- A slab without a free block has all its blocks in use. -/
theorem used_of_full (h : c.Balanced outstanding) (hSlab : c.slabMap key = some s) (hFull : c.Full key) :
    s.usedCount = c.slabSize / c.blockSize := by
  have hUsed := h.used hSlab
  rw [hFull s hSlab, List.length_nil, h.totalBlocks_eq hSlab] at hUsed
  omega

/-- A slab in use that is not partial has no free block. -/
theorem full_of_unlisted (h : c.Balanced outstanding) (hInUse : c.InUse) (hUnlisted : key ∉ c.partialSlabs) :
    c.Full key := by
  intro s hSlab
  have hState : s.state ≠ .partially := fun hPartial => hUnlisted ((h.listed hSlab).mpr hPartial)
  have hPositive := hInUse key s hSlab
  have hUsed := h.used hSlab
  have hTotal : s.usedCount = s.totalBlocks := by
    by_contra hne
    apply hState
    simp [Slab.state, hne, Nat.ne_of_gt hPositive]
  apply List.length_eq_zero_iff.mp
  omega

/-- Counting by groups, one group split off. -/
theorem countP_mem_cons (f : Nat → Nat) {rest : List Nat} (hFresh : key ∉ rest) (ps : List Nat) :
    ps.countP (fun p => f p ∈ key :: rest) = ps.countP (f · = key) + ps.countP (fun p => f p ∈ rest) := by
  induction ps with
  | nil => rfl
  | cons p ps ih =>
      rw [List.countP_cons, List.countP_cons, List.countP_cons, ih]
      by_cases hKey : f p = key
      · simp [hKey, hFresh]
        omega
      · simp [hKey]
        omega

/-- While every slab is full, as many blocks are out as the slabs have. -/
theorem length_of_full (h : c.Balanced outstanding) (hFull : ∀ key, c.Full key) :
    outstanding.length = c.slabs.length * (c.slabSize / c.blockSize) := by
  have hCount : ∀ keys : List Nat, keys.Nodup → (∀ key ∈ keys, ∃ s, c.slabMap key = some s) →
      outstanding.countP (fun p => c.mask p ∈ keys) = keys.length * (c.slabSize / c.blockSize) := by
    intro keys hNodup hKeys
    induction keys with
    | nil => simp
    | cons key rest ih =>
        obtain ⟨hFresh, hRest⟩ := List.nodup_cons.mp hNodup
        obtain ⟨s, hSlab⟩ := hKeys key (List.mem_cons_self ..)
        rw [countP_mem_cons c.mask hFresh, ih hRest fun k hk => hKeys k (List.mem_cons_of_mem _ hk), h.counted hSlab,
          h.used_of_full hSlab (hFull key), List.length_cons, Nat.succ_mul, Nat.add_comm]
  rw [← hCount c.slabs h.nodup fun key hk => h.keys.mp hk]
  symm
  apply List.countP_eq_length.mpr
  intro p hp
  obtain ⟨s, hFind, _⟩ := h.found hp
  simpa using h.keys.mpr ⟨s, hFind⟩

end Balanced

/-- What an operation that hands out blocks keeps and how it leaves the slabs. -/
structure Grants (c after : CentralCache) (out outstanding : List Nat) : Prop where
  balanced : after.Balanced (out ++ outstanding)
  inUse : after.InUse
  sizes : after.blockSize = c.blockSize ∧ after.slabSize = c.slabSize
  /-- A slab that was full stays full. -/
  full : ∀ key, c.Full key → c.slabMap key ≠ none → after.Full key

theorem takeFrom_eq (hSlab : c.slabMap key = some s) (maxCount : Nat) :
    c.takeFrom key maxCount = ((s.allocateBatch maxCount).1, c.store s (s.allocateBatch maxCount).2) := by
  simp [takeFrom, hSlab]

/-- Blocks taken from one slab: fewer than asked for only if the slab has become full. -/
theorem takeFrom_grants {after : CentralCache} (h : c.Balanced outstanding) (hSlab : c.slabMap key = some s)
    (hInUse : ∀ k t, k ≠ key → c.slabMap k = some t → 0 < t.usedCount)
    (hSome : 0 < s.usedCount ∨ (0 < maxCount ∧ s.freeList ≠ []))
    (hTake : c.takeFrom key maxCount = (out, after)) :
    Grants c after out outstanding ∧ after.slabs = c.slabs ∧ out.length ≤ maxCount ∧
      (out.length < maxCount → after.Full key) := by
  rw [takeFrom_eq hSlab] at hTake
  have cut := h.shaped.cut hSlab
  have hBalanced := h.allocateBatch hSlab maxCount
  have hOut : (s.allocateBatch maxCount).1 = s.freeList.take maxCount := by
    show (s.freeList.popBatch maxCount).1 = _
    rw [FreeList.popBatch_eq]
  have hLeft : (s.allocateBatch maxCount).2.freeList = s.freeList.drop maxCount := by
    show (s.freeList.popBatch maxCount).2 = _
    rw [FreeList.popBatch_eq]
  have hUsed : (s.allocateBatch maxCount).2.usedCount = s.usedCount + (s.freeList.take maxCount).length := by
    rw [← hOut]
    rfl
  have hMemory : (s.allocateBatch maxCount).2.memory = key := cut.memory
  generalize (s.allocateBatch maxCount).2 = slab at *
  rw [hOut] at hTake hBalanced
  cases hTake
  have hCases : ∀ {k t}, (c.store s slab).slabMap k = some t →
      (k = key ∧ t = slab) ∨ (k ≠ key ∧ c.slabMap k = some t) := by
    intro k t hFind
    rw [slabMap_store, hMemory] at hFind
    by_cases hk : k = key
    · subst hk
      rw [Function.update_self, Option.some.injEq] at hFind
      exact .inl ⟨rfl, hFind.symm⟩
    · rw [Function.update_of_ne hk] at hFind
      exact .inr ⟨hk, hFind⟩
  refine ⟨⟨hBalanced, ?_, by simp, ?_⟩, by simp, List.length_take_le .., ?_⟩
  · intro k t hFind
    rcases hCases hFind with ⟨_, rfl⟩ | ⟨hk, hOld⟩
    · rw [hUsed, List.length_take]
      rcases hSome with hPositive | ⟨hPositive, hFree⟩
      · omega
      · have hLength : 0 < s.freeList.length := List.length_pos_iff.mpr hFree
        omega
    · exact hInUse k t hk hOld
  · intro k hFull _ t hFind
    rcases hCases hFind with ⟨rfl, rfl⟩ | ⟨_, hOld⟩
    · rw [hLeft, hFull s hSlab, List.drop_nil]
    · exact hFull t hOld
  · intro hLess t hFind
    rcases hCases hFind with ⟨_, rfl⟩ | ⟨hk, _⟩
    · rw [List.length_take] at hLess
      rw [hLeft, List.drop_eq_nil_of_le (by omega)]
    · exact absurd rfl hk

theorem Grants.refl (h : c.Balanced outstanding) (hInUse : c.InUse) : Grants c c [] outstanding :=
  ⟨h, hInUse, ⟨rfl, rfl⟩, fun _ hFull _ => hFull⟩

theorem Grants.trans {middle after : CentralCache} {more : List Nat} (first : Grants c middle out outstanding)
    (second : Grants middle after more (out ++ outstanding))
    (hKeys : ∀ k, c.slabMap k ≠ none → middle.slabMap k ≠ none) :
    Grants c after (out ++ more) outstanding where
  balanced := by
    apply second.balanced.perm
    rw [List.append_assoc]
    exact List.perm_append_comm_assoc ..
  inUse := second.inUse
  sizes := ⟨second.sizes.1.trans first.sizes.1, second.sizes.2.trans first.sizes.2⟩
  full key hFull hKey := second.full key (first.full key hFull hKey) (hKeys key hKey)

/-- The loop over the partial slabs. It ends with blocks missing only when it has made
every slab on its way full. -/
theorem fetchPartial_grants {keys : List Nat} {n : Nat} {after : CentralCache} (h : c.Balanced outstanding)
    (hInUse : c.InUse) (hKeys : ∀ key ∈ keys, ∃ s, c.slabMap key = some s)
    (hFetch : fetchPartial keys n c = (out, after)) :
    Grants c after out outstanding ∧ after.slabs = c.slabs ∧ out.length ≤ n ∧
      (out.length < n → ∀ key ∈ keys, after.Full key) := by
  induction keys generalizing c outstanding out n with
  | nil =>
      cases hFetch
      exact ⟨.refl h hInUse, rfl, Nat.zero_le _, fun _ => nofun⟩
  | cons key rest ih =>
      cases n with
      | zero =>
          cases hFetch
          exact ⟨.refl h hInUse, rfl, Nat.le_refl _, fun hLess => absurd hLess (Nat.lt_irrefl _)⟩
      | succ n =>
          obtain ⟨s, hSlab⟩ := hKeys key (List.mem_cons_self ..)
          cases hTake : c.takeFrom key (n + 1) with
          | mk first middle =>
              cases hRest : fetchPartial rest (n + 1 - first.length) middle with
              | mk more last =>
                  simp only [fetchPartial, hTake, hRest, Prod.mk.injEq] at hFetch
                  obtain ⟨rfl, rfl⟩ := hFetch
                  obtain ⟨hFirst, hSlabs, hLength, hShort⟩ := takeFrom_grants h hSlab
                    (fun k t _ hFind => hInUse k t hFind) (.inl (hInUse key s hSlab)) hTake
                  have hMiddle : ∀ k, (∃ t, c.slabMap k = some t) → ∃ t, middle.slabMap k = some t := by
                    intro k hk
                    rw [← hFirst.balanced.keys, hSlabs]
                    exact h.keys.mpr hk
                  obtain ⟨hLater, hSlabs', hLength', hShort'⟩ := ih hFirst.balanced hFirst.inUse
                    (fun k hk => hMiddle k (hKeys k (List.mem_cons_of_mem _ hk))) hRest
                  have hSome : ∀ k, c.slabMap k ≠ none → middle.slabMap k ≠ none := by
                    intro k hk
                    obtain ⟨t, hFind⟩ := hMiddle k (Option.ne_none_iff_exists'.mp hk)
                    simp [hFind]
                  refine ⟨hFirst.trans hLater hSome, hSlabs'.trans hSlabs, ?_, ?_⟩
                  · rw [List.length_append]
                    omega
                  · rw [List.length_append]
                    intro hLess k hk
                    rcases List.mem_cons.mp hk with rfl | hk
                    · apply hLater.full k (hShort (by omega)) (hSome k (by simp [hSlab]))
                    · exact hShort' (by omega) k hk

/-- A slab is added to a cache in which all are full, and gives at least one block. -/
theorem addSlab_grants {after : CentralCache} (h : c.Balanced outstanding) (hInUse : c.InUse)
    (hFull : ∀ key, c.Full key) (hAligned : memory % c.slabSize = 0) (hFresh : c.slabMap memory = none)
    (hMissing : 0 < maxCount) (hTake : (c.addSlab memory).takeFrom memory maxCount = (out, after)) :
    Grants c after out outstanding ∧ after.slabs = c.slabs ++ [memory] ∧ out.length ≤ maxCount ∧
      c.slabs.length * (c.slabSize / c.blockSize) < (out ++ outstanding).length := by
  have hAdded := h.addSlab hAligned hFresh
  have hSlab : (c.addSlab memory).slabMap memory = some (.create memory c.blockSize c.slabSize) := by
    simp [addSlab]
  have hFree : (Slab.create memory c.blockSize c.slabSize).freeList.length = c.slabSize / c.blockSize := by
    have hUsed := hAdded.used hSlab
    rw [hAdded.totalBlocks_eq hSlab] at hUsed
    exact (Nat.zero_add _).symm.trans hUsed
  have hPositive := h.totalBlocks_pos
  have hSome : (Slab.create memory c.blockSize c.slabSize).freeList ≠ [] := by
    intro hNil
    rw [hNil, List.length_nil] at hFree
    omega
  have hOthers : ∀ k t, k ≠ memory → (c.addSlab memory).slabMap k = some t → c.slabMap k = some t := by
    intro k t hk hFind
    simpa [addSlab, hk] using hFind
  obtain ⟨hGrants, hSlabs, hLength, hShort⟩ := takeFrom_grants hAdded hSlab
    (fun k t hk hFind => hInUse k t (hOthers k t hk hFind)) (.inr ⟨hMissing, hSome⟩) hTake
  refine ⟨⟨hGrants.balanced, hGrants.inUse, hGrants.sizes, ?_⟩, hSlabs, hLength, ?_⟩
  · intro key hKeyFull hKey
    apply hGrants.full key
    · intro t hFind
      apply hKeyFull t (hOthers key t _ hFind)
      rintro rfl
      exact hKey hFresh
    · have hne : key ≠ memory := by
        rintro rfl
        exact hKey hFresh
      simpa [addSlab, hne] using hKey
  · rw [List.length_append, h.length_of_full hFull]
    have hTaken : 0 < out.length := by
      rw [takeFrom_eq hSlab, Prod.mk.injEq] at hTake
      rw [← hTake.1]
      show 0 < ((Slab.create memory c.blockSize c.slabSize).freeList.popBatch maxCount).1.length
      rw [FreeList.popBatch_eq, List.length_take]
      omega
    omega

/-- Either no slab is added, or one is while all that there are are full. -/
def Thrifty (c after : CentralCache) (outstanding : List Nat) : Prop :=
  after.slabs = c.slabs ∨
    ∃ memory, after.slabs = c.slabs ++ [memory] ∧ (∀ key ∈ c.slabs, after.Full key) ∧
      c.slabs.length * (c.slabSize / c.blockSize) < outstanding.length

theorem fetchBatch_grants {batchSize : Nat} {after : CentralCache} (h : c.Balanced outstanding)
    (hInUse : c.InUse) (hAligned : memory % c.slabSize = 0) (hFresh : c.slabMap memory = none)
    (hFetch : c.fetchBatch memory batchSize = (out, after)) :
    after.Balanced (out ++ outstanding) ∧ after.InUse ∧ Thrifty c after (out ++ outstanding) ∧
      after.blockSize = c.blockSize ∧ after.slabSize = c.slabSize := by
  cases hFirst : fetchPartial c.partialSlabs batchSize c with
  | mk first middle =>
      cases hSecond : fetchNew memory (batchSize - first.length) middle with
      | mk more last =>
          simp only [fetchBatch, hFirst, hSecond, Prod.mk.injEq] at hFetch
          obtain ⟨rfl, rfl⟩ := hFetch
          obtain ⟨hGrants, hSlabs, hLength, hShort⟩ := fetchPartial_grants h hInUse
            (fun key hk => h.shaped.listed hk) hFirst
          have hKeys : ∀ k, c.slabMap k ≠ none ↔ middle.slabMap k ≠ none := by
            intro k
            rw [Option.ne_none_iff_exists', Option.ne_none_iff_exists', ← h.keys,
              ← hGrants.balanced.keys, hSlabs]
          cases hMissing : batchSize - first.length with
          | zero =>
              rw [hMissing] at hSecond
              cases hSecond
              rw [List.append_nil]
              exact ⟨hGrants.balanced.recount _, hGrants.inUse, .inl hSlabs, hGrants.sizes⟩
          | succ missing =>
              rw [hMissing] at hSecond
              have hFullMiddle : ∀ key, middle.Full key := by
                intro key
                by_cases hKey : c.slabMap key = none
                · have hNone : middle.slabMap key = none := by
                    by_contra hSome
                    exact (hKeys key).mpr hSome hKey
                  intro s hFind
                  rw [hNone] at hFind
                  cases hFind
                · by_cases hListed : key ∈ c.partialSlabs
                  · exact hShort (by omega) key hListed
                  · exact hGrants.full key (h.full_of_unlisted hInUse hListed) hKey
              have hFreshMiddle : middle.slabMap memory = none := by
                by_contra hSome
                exact (hKeys memory).mpr hSome hFresh
              obtain ⟨hNew, hNewSlabs, _, hMany⟩ := addSlab_grants hGrants.balanced hGrants.inUse
                hFullMiddle (by rwa [hGrants.sizes.2]) hFreshMiddle (Nat.succ_pos _) hSecond
              have hBoth := hGrants.trans hNew fun k hk => (hKeys k).mp hk
              refine ⟨hBoth.balanced.recount _, hBoth.inUse, .inr ⟨memory, ?_, ?_, ?_⟩, hBoth.sizes⟩
              · rw [← hSlabs]
                exact hNewSlabs
              · intro key hKey
                apply hNew.full key (hFullMiddle key)
                rw [← hKeys]
                obtain ⟨s, hSlab⟩ := h.keys.mp hKey
                simp [hSlab]
              · rw [← hSlabs, ← hGrants.sizes.1, ← hGrants.sizes.2, List.append_assoc]
                simp only [List.length_append] at hMany ⊢
                omega

/-- `allocate` from a slab is a batch of one. -/
theorem allocate_listed {first : Nat} {rest : List Nat} (hListed : c.partialSlabs = first :: rest)
    (hSlab : c.slabMap first = some s) (memory : Nat) :
    c.allocate memory = ((c.takeFrom first 1).1.head?,
      { (c.takeFrom first 1).2 with allocatedBlocks := c.allocatedBlocks + 1 }) := by
  simp [allocate, hListed, hSlab, takeFrom, Slab.allocate_eq]

theorem allocate_new (hListed : c.partialSlabs = []) (memory : Nat) :
    c.allocate memory = (((c.addSlab memory).takeFrom memory 1).1.head?,
      { ((c.addSlab memory).takeFrom memory 1).2 with allocatedBlocks := c.allocatedBlocks + 1 }) := by
  simp [allocate, hListed, takeFrom, addSlab, Slab.allocate_eq]

theorem allocate_grants {ptr : Option Nat} {after : CentralCache} (h : c.Balanced outstanding)
    (hInUse : c.InUse) (hAligned : memory % c.slabSize = 0) (hFresh : c.slabMap memory = none)
    (hAllocate : c.allocate memory = (ptr, after)) :
    ∃ p, ptr = some p ∧ after.Balanced (p :: outstanding) ∧ after.InUse ∧
      Thrifty c after (p :: outstanding) ∧ after.blockSize = c.blockSize ∧ after.slabSize = c.slabSize := by
  cases hListed : c.partialSlabs with
  | nil =>
      have hFull : ∀ key, c.Full key := fun key => h.full_of_unlisted hInUse (by simp [hListed])
      rw [allocate_new hListed] at hAllocate
      cases hTake : (c.addSlab memory).takeFrom memory 1 with
      | mk out middle =>
          obtain ⟨hGrants, hSlabs, hLength, hMany⟩ := addSlab_grants h hInUse hFull hAligned hFresh
            Nat.one_pos hTake
          have hOne : out.length = 1 := by
            rw [List.length_append, h.length_of_full hFull] at hMany
            omega
          obtain ⟨p, rfl⟩ := List.length_eq_one_iff.mp hOne
          rw [hTake] at hAllocate
          cases hAllocate
          exact ⟨p, rfl, hGrants.balanced.recount _, hGrants.inUse,
            .inr ⟨memory, hSlabs, fun key hKey => hGrants.full key (hFull key) (by
              obtain ⟨s, hSlab⟩ := h.keys.mp hKey
              simp [hSlab]), hMany⟩, hGrants.sizes⟩
  | cons first rest =>
      have hMem : first ∈ c.partialSlabs := by simp [hListed]
      obtain ⟨s, hSlab⟩ := h.shaped.listed hMem
      rw [allocate_listed hListed hSlab] at hAllocate
      cases hTake : c.takeFrom first 1 with
      | mk out middle =>
          obtain ⟨hGrants, hSlabs, hLength, hShort⟩ := takeFrom_grants h hSlab
            (fun k t _ hFind => hInUse k t hFind) (.inl (hInUse first s hSlab)) hTake
          have hState := (h.listed hSlab).mp hMem
          have hOne : out.length = 1 := by
            have hUsed := h.used hSlab
            have hNotAll : s.usedCount ≠ s.totalBlocks := by
              intro hAll
              have hPositive := hInUse first s hSlab
              simp [Slab.state, hAll, Nat.ne_of_gt (hAll ▸ hPositive)] at hState
            rw [takeFrom_eq hSlab, Prod.mk.injEq] at hTake
            rw [← hTake.1]
            show (s.freeList.popBatch 1).1.length = 1
            rw [FreeList.popBatch_eq, List.length_take]
            omega
          obtain ⟨p, rfl⟩ := List.length_eq_one_iff.mp hOne
          rw [hTake] at hAllocate
          cases hAllocate
          exact ⟨p, rfl, hGrants.balanced.recount _, hGrants.inUse, .inl hSlabs, hGrants.sizes⟩

/-- One block comes back and its slab stays in use. -/
theorem InUse.deallocate (hInUse : c.InUse) (hShaped : c.Shaped) (hSlab : c.slabMap key = some s)
    (hMore : 1 < s.usedCount) : (c.store s (s.deallocate p)).InUse := by
  intro k t hFind
  rw [slabMap_store] at hFind
  have hMemory : (s.deallocate p).memory = key := (hShaped.cut hSlab).memory
  rw [hMemory] at hFind
  by_cases hk : k = key
  · subst hk
    rw [Function.update_self, Option.some.injEq] at hFind
    subst hFind
    show 0 < s.usedCount - 1
    omega
  · rw [Function.update_of_ne hk] at hFind
    exact hInUse k t hFind

/-- The loop of `returnBatch`, over blocks that leave every slab in use. -/
theorem returnLoop_spec {blocks : List Nat} {returned : Nat} {after : CentralCache}
    (h : c.Balanced outstanding) (hInUse : c.InUse) (hOut : blocks.Subperm outstanding)
    (hKeep : ∀ ptr ∈ blocks, ∀ s, c.findSlab ptr = some s →
      blocks.countP (c.mask · = c.mask ptr) < s.usedCount)
    (hLoop : returnLoop blocks c = (returned, after)) :
    after.Balanced (outstanding.diff blocks) ∧ after.InUse ∧ after.slabs = c.slabs ∧
      after.blockSize = c.blockSize ∧ after.slabSize = c.slabSize := by
  induction blocks generalizing c outstanding returned with
  | nil =>
      cases hLoop
      exact ⟨h, hInUse, rfl, rfl, rfl⟩
  | cons ptr rest ih =>
      have hMem : ptr ∈ outstanding := hOut.subset (List.mem_cons_self ..)
      obtain ⟨s, hFind, hBlock⟩ := h.found hMem
      have hSlab : c.slabMap (c.mask ptr) = some s := hFind
      have hMask : ∀ q, (c.store s (s.deallocate ptr)).mask q = c.mask q := by simp [mask]
      have hFirst := hKeep ptr (List.mem_cons_self ..) s hFind
      rw [List.countP_cons_of_pos (by simp)] at hFirst
      cases hRest : returnLoop rest (c.store s (s.deallocate ptr)) with
      | mk more last =>
          simp only [returnLoop, hFind, hRest, Prod.mk.injEq] at hLoop
          obtain ⟨rfl, rfl⟩ := hLoop
          have hSubperm : rest.Subperm (outstanding.erase ptr) := by
            simpa using hOut.erase ptr
          obtain ⟨hBalanced, hUse, hSlabs, hSizes⟩ := ih (h.deallocate hMem hFind)
            (hInUse.deallocate h.shaped hSlab (by omega)) hSubperm (by
              intro q hq t hFind'
              have hOld := hKeep q (List.mem_cons_of_mem _ hq)
              simp only [hMask]
              rw [findSlab, hMask, slabMap_store] at hFind'
              have hMemory : (s.deallocate ptr).memory = c.mask ptr := (h.shaped.cut hSlab).memory
              rw [hMemory] at hFind'
              by_cases hk : c.mask q = c.mask ptr
              · rw [hk, Function.update_self, Option.some.injEq] at hFind'
                subst hFind'
                rw [hk]
                show _ < s.usedCount - 1
                omega
              · rw [Function.update_of_ne hk] at hFind'
                have hLess := hOld t hFind'
                rwa [List.countP_cons_of_neg (by simpa using fun hSame => hk hSame.symm)] at hLess) hRest
          refine ⟨?_, hUse, hSlabs.trans (by simp), hSizes.1.trans (by simp), hSizes.2.trans (by simp)⟩
          rw [List.diff_cons]
          exact hBalanced

theorem slabs_deallocate (c : CentralCache) (ptr : Nat) : (c.deallocate ptr).slabs = c.slabs := by
  unfold deallocate
  split
  · rfl
  · exact slabs_store ..

theorem slabs_returnLoop (blocks : List Nat) (c : CentralCache) : (returnLoop blocks c).2.slabs = c.slabs := by
  induction blocks generalizing c with
  | nil => rfl
  | cons ptr rest ih =>
      unfold returnLoop
      split
      · exact ih c
      · exact (ih _).trans (slabs_store ..)

theorem slabs_returnBatch (c : CentralCache) (blocks : List Nat) : (c.returnBatch blocks).slabs = c.slabs :=
  slabs_returnLoop blocks c

theorem deallocate_spec (h : c.Balanced outstanding) (hInUse : c.InUse) (hMem : p ∈ outstanding)
    (hFind : c.findSlab p = some s) (hMore : 1 < s.usedCount) :
    (c.deallocate p).Balanced (outstanding.erase p) ∧ (c.deallocate p).InUse ∧
      (c.deallocate p).slabs = c.slabs ∧ (c.deallocate p).blockSize = c.blockSize ∧
      (c.deallocate p).slabSize = c.slabSize := by
  simp only [CentralCache.deallocate, hFind]
  refine ⟨(h.deallocate hMem hFind).recount _, hInUse.deallocate h.shaped hFind hMore, ?_, ?_, ?_⟩
  · exact slabs_store ..
  · exact blockSize_store ..
  · exact slabSize_store ..

theorem returnBatch_spec {blocks : List Nat} (h : c.Balanced outstanding) (hInUse : c.InUse)
    (hOut : blocks.Subperm outstanding)
    (hKeep : ∀ ptr ∈ blocks, ∀ s, c.findSlab ptr = some s →
      blocks.countP (c.mask · = c.mask ptr) < s.usedCount) :
    (c.returnBatch blocks).Balanced (outstanding.diff blocks) ∧ (c.returnBatch blocks).InUse ∧
      (c.returnBatch blocks).slabs = c.slabs ∧ (c.returnBatch blocks).blockSize = c.blockSize ∧
      (c.returnBatch blocks).slabSize = c.slabSize := by
  cases hLoop : returnLoop blocks c with
  | mk returned after =>
      obtain ⟨hBalanced, hUse, hRest⟩ := returnLoop_spec h hInUse hOut hKeep hLoop
      simp only [returnBatch, hLoop]
      exact ⟨hBalanced.recount _, hUse, hRest⟩

end CentralCache

end Memory
