import V2Engine.Heap.BinaryHeap
import Mathlib.Data.Nat.Basic
import Mathlib.Logic.Function.Basic
import Mathlib.Tactic.SplitIfs

/-! `TimerBase`: timers in a pool of nodes that are used again, found by their ids, and due
in the order of a heap of their indices. The heap compares the nodes as they are in the pool at
the time. Times are nanoseconds of the steady clock. `clear` and the callbacks are the callers'
matter. -/

namespace Timer

/-- The id of a node that is not in use is 0 for the source's -1. -/
structure TimerNode where
  expiry : Nat := 0
  interval : Nat := 0
  id : Nat := 0
  repeating : Bool := false
  alive : Bool := true
  deriving DecidableEq

/-- What a pass leaves of a timer that was ready. -/
def TimerNode.renewed (node : TimerNode) : Option TimerNode :=
  if node.repeating then some { node with expiry := node.expiry + node.interval } else none

structure TimerBase where
  nextId : Nat
  freeList : List Nat
  pool : Nat → TimerNode
  poolSize : Nat
  timers : Nat → Option Nat
  heap : List Nat

namespace TimerBase

def constructed : TimerBase where
  nextId := 1
  freeList := []
  pool := fun _ => {}
  poolSize := 0
  timers := fun _ => none
  heap := []

variable (b : TimerBase)

def nsOfMs (delayMs : Nat) : Nat := delayMs * 1000000

def setNode (idx : Nat) (node : TimerNode) : TimerBase :=
  { b with pool := Function.update b.pool idx node }

def allocNode : Nat × TimerBase :=
  match b.freeList with
  | idx :: rest => (idx, { b with freeList := rest }.setNode idx {})
  | [] => (b.poolSize, { b with poolSize := b.poolSize + 1 }.setNode b.poolSize {})

def freeNode (idx : Nat) : TimerBase :=
  { b.setNode idx {} with freeList := idx :: b.freeList }

/-- What `Compare` looks at. -/
def expiryAt (idx : Nat) : Nat := (b.pool idx).expiry

/-- `heap_.push`. -/
def push (idx : Nat) : TimerBase := { b with heap := Heap.push b.expiryAt b.heap idx }

/-- `heap_.pop`. -/
def pop : TimerBase := { b with heap := Heap.pop b.expiryAt b.heap }

/-- The loop of `purgeDeadEntries`, which runs at most once for each entry. -/
def purge : Nat → TimerBase → TimerBase
  | 0, b => b
  | fuel + 1, b => match b.heap with
    | [] => b
    | idx :: _ => if (b.pool idx).alive then b else purge fuel (b.freeNode idx).pop

def purgeDeadEntries : TimerBase := purge b.heap.length b

def hasLiveTop : Bool :=
  match b.heap with
  | [] => false
  | idx :: _ => (b.pool idx).alive

def nextExpiry : Nat :=
  match b.heap with
  | [] => 0
  | idx :: _ => (b.pool idx).expiry

/-- `add` without `scheduleNextTimer`: the id, whether that is to be called, and the timers. -/
def add (now delayMs : Nat) (repeating : Bool) : Nat × Bool × TimerBase :=
  let alloc := b.allocNode
  let node : TimerNode :=
    { expiry := now + nsOfMs delayMs, interval := nsOfMs delayMs, id := b.nextId,
      repeating := repeating }
  let b := { alloc.2 with nextId := alloc.2.nextId + 1 }.setNode alloc.1 node
  let needReschedule := b.heap.isEmpty || decide (node.expiry < b.nextExpiry)
  (node.id, needReschedule,
    { b.push alloc.1 with timers := Function.update b.timers node.id (some alloc.1) })

def cancel (id : Nat) : TimerBase :=
  match b.timers id with
  | none => b
  | some idx =>
      { b.setNode idx { b.pool idx with alive := false } with
        timers := Function.update b.timers id none }.purgeDeadEntries

def isAlive (id : Nat) : Bool :=
  match b.timers id with
  | none => false
  | some idx => (b.pool idx).alive

/-- The first half of `executeExpiredTimers`: the ids of the nodes that are ready. Its loop runs at
most once for each entry. -/
def collect (now : Nat) : Nat → TimerBase → List Nat × TimerBase
  | 0, b => ([], b)
  | fuel + 1, b => match b.heap with
    | [] => ([], b)
    | idx :: _ =>
        if (b.pool idx).expiry ≤ now then
          let b := b.pop
          if (b.pool idx).alive then
            let after := collect now fuel b
            ((b.pool idx).id :: after.1, after.2)
          else collect now fuel (b.freeNode idx)
        else ([], b)

def collectExpired (now : Nat) : List Nat × TimerBase := collect now b.heap.length b

/-- What the second half does with one of them. -/
def rescheduleOne (id : Nat) : TimerBase :=
  match b.timers id with
  | none => b
  | some idx =>
      let node := b.pool idx
      if node.repeating ∧ node.alive then
        (b.setNode idx { node with expiry := node.expiry + node.interval }).push idx
      else { b with timers := Function.update b.timers id none }.freeNode idx

/-- The second half of `executeExpiredTimers` without `scheduleNextTimer`. -/
def reschedule (ready : List Nat) : TimerBase := ready.foldl rescheduleOne b

def clear : TimerBase :=
  { b with heap := [], pool := fun _ => {}, poolSize := 0, freeList := [], timers := fun _ => none }

/-- The node of a timer, found by its id. -/
def find (id : Nat) : Option TimerNode := (b.timers id).map b.pool

/-- When the entries of the heap are due, those of cancelled timers among them. -/
def dues : List Nat := b.heap.map fun i => (b.pool i).expiry

/-- What makes the pool a set of timers: a node is free or in use, in the heap once at most,
and a timer whose node is not in the heap is one of those that are `ready`. -/
structure Sound (ready : List Nat) : Prop where
  sorted : Heap.Ordered b.expiryAt b.heap
  once : b.heap.Nodup
  distinct : b.freeList.Nodup
  free : ∀ i ∈ b.freeList, i < b.poolSize ∧ i ∉ b.heap ∧ ∀ id, b.timers id ≠ some i
  inside : ∀ i ∈ b.heap, i < b.poolSize
  used : ∀ id i, b.timers id = some i → i < b.poolSize
  named : ∀ id i, b.timers id = some i → (b.pool i).id = id
  alive : ∀ id i, b.timers id = some i → (b.pool i).alive = true
  known : ∀ i ∈ b.heap, (b.pool i).alive = true → b.timers (b.pool i).id = some i
  issued : ∀ id, b.timers id ≠ none → id < b.nextId
  kept : ∀ id i, b.timers id = some i → (i ∈ b.heap ↔ id ∉ ready)
  apart : ready.Nodup
  readied : ∀ id ∈ ready, id < b.nextId

section Nodes

variable {b : TimerBase} {ready : List Nat}

theorem constructed_sound : constructed.Sound [] where
  sorted := Heap.ordered_nil
  once := .nil
  distinct := .nil
  free := nofun
  inside := nofun
  used := nofun
  named := nofun
  alive := nofun
  known := nofun
  issued _ h := absurd rfl h
  kept := nofun
  apart := .nil
  readied := nofun

/-- A node that no heap entry and no timer refers to. -/
structure Fresh (b : TimerBase) (idx : Nat) : Prop where
  inside : idx < b.poolSize
  free : idx ∉ b.freeList
  heap : idx ∉ b.heap
  timers : ∀ id, b.timers id ≠ some idx

/-- What is in a node that nothing refers to makes no difference. -/
theorem Fresh.setNode {idx : Nat} (fresh : b.Fresh idx) (sound : b.Sound ready) (node : TimerNode) :
    (b.setNode idx node).Sound ready ∧ (b.setNode idx node).Fresh idx := by
  have hPool : ∀ i, i ≠ idx → (b.setNode idx node).pool i = b.pool i :=
    fun i hi => Function.update_of_ne hi _ _
  have hHeap : ∀ i ∈ b.heap, (b.setNode idx node).pool i = b.pool i :=
    fun i hi => hPool i fun h => fresh.heap (h ▸ hi)
  have hTimer : ∀ id i, b.timers id = some i → (b.setNode idx node).pool i = b.pool i :=
    fun id i hi => hPool i fun h => fresh.timers id (h ▸ hi)
  refine ⟨{ sound with
    sorted := ?_
    named := fun id i hi => by rw [hTimer id i hi]; exact sound.named id i hi
    alive := fun id i hi => by rw [hTimer id i hi]; exact sound.alive id i hi
    known := fun i hi hAlive => ?_ }, ⟨fresh.inside, fresh.free, fresh.heap, fresh.timers⟩⟩
  · exact sound.sorted.congr fun i hi => congrArg TimerNode.expiry (hHeap i hi)
  · rw [hHeap i hi] at hAlive ⊢
    exact sound.known i hi hAlive

theorem allocNode_sound (sound : b.Sound ready) :
    b.allocNode.2.Sound ready ∧ b.allocNode.2.Fresh b.allocNode.1 := by
  unfold allocNode
  split
  case h_2 hFree =>
      have grown : ({ b with poolSize := b.poolSize + 1 } : TimerBase).Sound ready :=
        { sound with
          free := fun i hi => by simp [hFree] at hi
          inside := fun i hi => Nat.lt_succ_of_lt (sound.inside i hi)
          used := fun id i hi => Nat.lt_succ_of_lt (sound.used id i hi) }
      have fresh : ({ b with poolSize := b.poolSize + 1 } : TimerBase).Fresh b.poolSize :=
        ⟨Nat.lt_succ_self _, by simp [hFree], fun h => Nat.lt_irrefl _ (sound.inside _ h),
          fun id h => Nat.lt_irrefl _ (sound.used id _ h)⟩
      exact fresh.setNode grown {}
  case h_1 idx rest hFree =>
      have hMem : idx ∈ b.freeList := by simp [hFree]
      have hDistinct := sound.distinct
      rw [hFree, List.nodup_cons] at hDistinct
      have taken : ({ b with freeList := rest } : TimerBase).Sound ready :=
        { sound with
          distinct := hDistinct.2
          free := fun i hi => sound.free i (by rw [hFree]; exact List.mem_cons_of_mem _ hi) }
      have fresh : ({ b with freeList := rest } : TimerBase).Fresh idx :=
        ⟨(sound.free idx hMem).1, hDistinct.1, (sound.free idx hMem).2.1, (sound.free idx hMem).2.2⟩
      exact fresh.setNode taken {}

/-- The node goes back to the free ones. -/
theorem Fresh.freeNode {idx : Nat} (fresh : b.Fresh idx) (sound : b.Sound ready) :
    (b.freeNode idx).Sound ready := by
  obtain ⟨set, _⟩ := fresh.setNode sound {}
  refine { set with distinct := List.nodup_cons.mpr ⟨fresh.free, sound.distinct⟩, free := ?_ }
  intro i hi
  rcases List.mem_cons.mp hi with rfl | hRest
  · exact ⟨fresh.inside, fresh.heap, fresh.timers⟩
  · exact sound.free i hRest

theorem find_setNode {idx : Nat} (hTimers : ∀ id, b.timers id ≠ some idx) (node : TimerNode) (id : Nat) :
    (b.setNode idx node).find id = b.find id := by
  show (b.timers id).map (Function.update b.pool idx node) = (b.timers id).map b.pool
  cases hTimer : b.timers id with
  | none => rfl
  | some i =>
      have hi : i ≠ idx := fun h => hTimers id (h ▸ hTimer)
      simp [Function.update_of_ne hi]

theorem Sound.perm {ready' : List Nat} (sound : b.Sound ready) (h : ready.Perm ready') :
    b.Sound ready' :=
  { sound with
    kept := fun id i hi => (sound.kept id i hi).trans (not_congr h.mem_iff)
    apart := h.nodup_iff.mp sound.apart
    readied := fun id hid => sound.readied id (h.mem_iff.mpr hid) }

/-- An entry leaves the heap, and the others are put in order. -/
structure Drops (b : TimerBase) (idx : Nat) (heap : List Nat) : Prop where
  perm : b.heap.Perm (idx :: heap)
  ordered : Heap.Ordered b.expiryAt heap

theorem Drops.mem {idx : Nat} {heap : List Nat} (drops : b.Drops idx heap) {i : Nat} (hi : i ∈ heap) : i ∈ b.heap :=
  drops.perm.mem_iff.mpr (List.mem_cons_of_mem _ hi)

theorem Drops.nodup {idx : Nat} {heap : List Nat} (drops : b.Drops idx heap) (sound : b.Sound ready) :
    idx ∉ heap ∧ heap.Nodup := List.nodup_cons.mp (drops.perm.nodup_iff.mp sound.once)

/-- `pop`, also where the node at the top was freed before. -/
theorem Sound.drops_pop {idx : Nat} {rest : List Nat} (sound : b.Sound ready) (hHeap : b.heap = idx :: rest)
    (node : TimerNode) : b.Drops idx (Heap.pop (b.setNode idx node).expiryAt b.heap) := by
  have hOnce := sound.once
  have hSorted := sound.sorted
  rw [hHeap] at hOnce hSorted ⊢
  have hSame : ∀ i ∈ rest, (b.setNode idx node).expiryAt i = b.expiryAt i := by
    intro i hi
    have hne : i ≠ idx := fun h => (List.nodup_cons.mp hOnce).1 (h ▸ hi)
    exact congrArg TimerNode.expiry (Function.update_of_ne hne _ _)
  refine ⟨?_, hSorted.pop hSame⟩
  rw [hHeap]
  exact ((Heap.pop_perm _ idx rest).symm).cons idx

theorem Sound.popped {idx : Nat} {rest : List Nat} (sound : b.Sound ready) (hHeap : b.heap = idx :: rest) :
    b.Drops idx b.pop.heap := by
  have drops := sound.drops_pop hHeap (b.pool idx)
  rw [setNode, Function.update_eq_self] at drops
  exact drops

/-- A dead node leaves the heap. -/
theorem Sound.drop {idx : Nat} {heap : List Nat} (sound : b.Sound ready) (drops : b.Drops idx heap)
    (hDead : (b.pool idx).alive = false) :
    ({ b with heap := heap } : TimerBase).Sound ready ∧
      ({ b with heap := heap } : TimerBase).Fresh idx := by
  have hTimers : ∀ id, b.timers id ≠ some idx := by
    intro id hTimer
    rw [sound.alive id idx hTimer] at hDead
    cases hDead
  obtain ⟨hOut, hNodup⟩ := drops.nodup sound
  have hMem : idx ∈ b.heap := drops.perm.mem_iff.mpr List.mem_cons_self
  refine ⟨{ sound with
    sorted := drops.ordered
    once := hNodup
    free := fun i hi => ?_
    inside := fun i hi => sound.inside i (drops.mem hi)
    known := fun i hi => sound.known i (drops.mem hi)
    kept := fun id i hi => ?_ }, ?_⟩
  · obtain ⟨hInside, hNot, hNone⟩ := sound.free i hi
    exact ⟨hInside, fun h => hNot (drops.mem h), hNone⟩
  · have hne : i ≠ idx := fun h => hTimers id (h ▸ hi)
    rw [← sound.kept id i hi, drops.perm.mem_iff, List.mem_cons]
    exact ⟨.inr, fun h => h.resolve_left hne⟩
  · exact ⟨sound.inside idx hMem, fun h => (sound.free idx h).2.1 hMem, hOut, hTimers⟩

/-- A timer whose time has come leaves the heap, and is ready. -/
theorem Sound.take {idx : Nat} {heap : List Nat} (sound : b.Sound ready) (drops : b.Drops idx heap)
    (hAlive : (b.pool idx).alive = true) :
    b.timers (b.pool idx).id = some idx ∧
      ({ b with heap := heap } : TimerBase).Sound ((b.pool idx).id :: ready) := by
  have hMem : idx ∈ b.heap := drops.perm.mem_iff.mpr List.mem_cons_self
  have hTimer := sound.known idx hMem hAlive
  have hNew : (b.pool idx).id ∉ ready := (sound.kept _ idx hTimer).mp hMem
  obtain ⟨hOut, hNodup⟩ := drops.nodup sound
  refine ⟨hTimer, { sound with
    sorted := drops.ordered
    once := hNodup
    free := fun i hi => ?_
    inside := fun i hi => sound.inside i (drops.mem hi)
    known := fun i hi => sound.known i (drops.mem hi)
    kept := fun id i hi => ?_
    apart := List.nodup_cons.mpr ⟨hNew, sound.apart⟩
    readied := fun id hid => ?_ }⟩
  · obtain ⟨hInside, hNot, hNone⟩ := sound.free i hi
    exact ⟨hInside, fun h => hNot (drops.mem h), hNone⟩
  · by_cases hid : id = (b.pool idx).id
    · rw [hid] at hi
      have hSame : i = idx := Option.some.inj (hi.symm.trans hTimer)
      rw [hid, hSame]
      simp [hOut]
    · have hne : i ≠ idx := by
        rintro rfl
        exact hid (sound.named id i hi).symm
      have hKept := sound.kept id i hi
      rw [drops.perm.mem_iff] at hKept
      simpa [hne, hid] using hKept
  · rcases List.mem_cons.mp hid with rfl | hRest
    · exact sound.issued _ (by simp [hTimer])
    · exact sound.readied id hRest

theorem purge_spec : ∀ (fuel : Nat) (b : TimerBase), b.heap.length ≤ fuel → b.Sound ready →
    (purge fuel b).Sound ready ∧ (∀ id, (purge fuel b).find id = b.find id) ∧
      ((purge fuel b).heap = [] ∨ (purge fuel b).hasLiveTop = true) ∧
      ∀ i ∈ (purge fuel b).heap, i ∈ b.heap ∧ (purge fuel b).pool i = b.pool i := by
  intro fuel
  induction fuel with
  | zero =>
      intro b hFuel sound
      exact ⟨sound, fun _ => rfl, .inl (List.length_eq_zero_iff.mp (Nat.le_zero.mp hFuel)), fun i hi => ⟨hi, rfl⟩⟩
  | succ fuel ih =>
      intro b hFuel sound
      cases hHeap : b.heap with
      | nil =>
          have hDone : purge (fuel + 1) b = b := by simp only [purge, hHeap]
          rw [hDone]
          exact ⟨sound, fun _ => rfl, .inl hHeap, fun i hi => ⟨by rw [← hHeap]; exact hi, rfl⟩⟩
      | cons idx rest =>
          cases hAlive : (b.pool idx).alive with
          | true =>
              have hDone : purge (fuel + 1) b = b := by
                simp only [purge, hHeap]
                exact if_pos hAlive
              rw [hDone]
              exact ⟨sound, fun _ => rfl, .inr (by rw [hasLiveTop, hHeap]; exact hAlive),
                fun i hi => ⟨by rw [← hHeap]; exact hi, rfl⟩⟩
          | false =>
              have hMore : purge (fuel + 1) b = purge fuel (b.freeNode idx).pop := by
                simp only [purge, hHeap]
                exact if_neg (by simp [hAlive])
              have drops := sound.drops_pop hHeap {}
              obtain ⟨dropped, fresh⟩ := sound.drop drops hAlive
              have hLength : (b.freeNode idx).pop.heap.length ≤ fuel := by
                have hPerm := drops.perm.length_eq
                rw [List.length_cons] at hPerm
                show (Heap.pop (b.setNode idx {}).expiryAt b.heap).length ≤ fuel
                omega
              obtain ⟨hSound, hFind, hTop, hKept⟩ := ih (b.freeNode idx).pop hLength (fresh.freeNode dropped)
              rw [hMore]
              refine ⟨hSound, fun id => (hFind id).trans (find_setNode fresh.timers {} id), hTop, fun i hi => ?_⟩
              obtain ⟨hMem, hSame⟩ := hKept i hi
              refine ⟨by rw [← hHeap]; exact drops.mem hMem, hSame.trans ?_⟩
              have hne : i ≠ idx := by
                rintro rfl
                exact fresh.heap hMem
              exact Function.update_of_ne hne _ _

/-- What a collection has done: the timers that are ready are due, each no later than the next. -/
structure Collects (now : Nat) (b after : TimerBase) (ids : List Nat) : Prop where
  find : ∀ id, after.find id = b.find id
  nextId : after.nextId = b.nextId
  due : ∀ id ∈ ids, ∃ node, b.find id = some node ∧ node.expiry ≤ now
  inOrder : ids.Pairwise fun id id' => ∀ node ∈ b.find id, ∀ node' ∈ b.find id', node.expiry ≤ node'.expiry
  later : ∀ i ∈ after.heap, now < (after.pool i).expiry
  within : ∀ id ∈ ids, ∃ i, b.timers id = some i ∧ i ∈ b.heap

theorem collect_spec (now : Nat) : ∀ (fuel : Nat) (b : TimerBase) (ready : List Nat), b.heap.length ≤ fuel →
    b.Sound ready → (collect now fuel b).2.Sound ((collect now fuel b).1 ++ ready) ∧
      Collects now b (collect now fuel b).2 (collect now fuel b).1 := by
  intro fuel
  induction fuel with
  | zero =>
      intro b ready hFuel sound
      have hHeap : b.heap = [] := List.length_eq_zero_iff.mp (Nat.le_zero.mp hFuel)
      refine ⟨sound, fun _ => rfl, rfl, fun _ h => (List.not_mem_nil h).elim, .nil, fun i hi => ?_,
        fun _ h => (List.not_mem_nil h).elim⟩
      rw [collect, hHeap] at hi
      cases hi
  | succ fuel ih =>
      intro b ready hFuel sound
      cases hHeap : b.heap with
      | nil =>
          have hDone : collect now (fuel + 1) b = ([], b) := by simp only [collect, hHeap]
          rw [hDone]
          refine ⟨sound, fun _ => rfl, rfl, fun _ h => (List.not_mem_nil h).elim, .nil, fun i hi => ?_,
            fun _ h => (List.not_mem_nil h).elim⟩
          rw [hHeap] at hi
          cases hi
      | cons idx rest =>
          have hFirst : ∀ i ∈ b.heap, (b.pool idx).expiry ≤ (b.pool i).expiry := by
            have hSorted := sound.sorted
            rw [hHeap] at hSorted ⊢
            exact hSorted.first_le
          by_cases hDue : (b.pool idx).expiry ≤ now
          · have drops := sound.popped hHeap
            have hLength : b.pop.heap.length ≤ fuel := by
              have hPerm := drops.perm.length_eq
              rw [List.length_cons] at hPerm
              omega
            cases hAlive : (b.pool idx).alive with
            | true =>
                obtain ⟨hTimer, taken⟩ := sound.take drops hAlive
                obtain ⟨hSound, collects⟩ := ih b.pop _ hLength taken
                have hTake : collect now (fuel + 1) b =
                    ((b.pool idx).id :: (collect now fuel b.pop).1, (collect now fuel b.pop).2) := by
                  simp only [collect, hHeap]
                  exact (if_pos hDue).trans (if_pos hAlive)
                have hFind : b.find (b.pool idx).id = some (b.pool idx) := by rw [find, hTimer, Option.map_some]
                rw [hTake]
                refine ⟨hSound.perm List.perm_middle, collects.find, collects.nextId, fun id hid => ?_, ?_,
                  collects.later, fun id hid => ?_⟩
                · rcases List.mem_cons.mp hid with rfl | hRest
                  · exact ⟨b.pool idx, hFind, hDue⟩
                  · exact collects.due id hRest
                · refine List.pairwise_cons.mpr ⟨fun id hid node hNode node' hNode' => ?_, collects.inOrder⟩
                  obtain ⟨i, hOther, hMem⟩ := collects.within id hid
                  cases hFind.symm.trans hNode
                  have hAt : b.find id = some (b.pool i) := congrArg (Option.map b.pool) hOther
                  cases hAt.symm.trans hNode'
                  exact hFirst i (drops.mem hMem)
                · rcases List.mem_cons.mp hid with rfl | hRest
                  · exact ⟨idx, hTimer, drops.perm.mem_iff.mpr List.mem_cons_self⟩
                  · obtain ⟨i, hOther, hMem⟩ := collects.within id hRest
                    exact ⟨i, hOther, drops.mem hMem⟩
            | false =>
                obtain ⟨dropped, fresh⟩ := sound.drop drops hAlive
                obtain ⟨hSound, collects⟩ := ih (b.pop.freeNode idx) _ hLength (fresh.freeNode dropped)
                have hSkip : collect now (fuel + 1) b = collect now fuel (b.pop.freeNode idx) := by
                  simp only [collect, hHeap]
                  exact (if_pos hDue).trans (if_neg (by simp [pop, hAlive]))
                have hSame := find_setNode (b := b.pop) fresh.timers {}
                rw [hSkip]
                refine ⟨hSound, fun id => (collects.find id).trans (hSame id), collects.nextId, fun id hid => ?_, ?_,
                  collects.later, fun id hid => ?_⟩
                · obtain ⟨node, hNode, hExpiry⟩ := collects.due id hid
                  exact ⟨node, (hSame id).symm.trans hNode, hExpiry⟩
                · refine collects.inOrder.imp fun h node hNode node' hNode' => h node ?_ node' ?_
                  · exact (hSame _).trans hNode
                  · exact (hSame _).trans hNode'
                · obtain ⟨i, hOther, hMem⟩ := collects.within id hid
                  exact ⟨i, hOther, drops.mem hMem⟩
          · have hDone : collect now (fuel + 1) b = ([], b) := by
              simp only [collect, hHeap]
              exact if_neg hDue
            rw [hDone]
            refine ⟨sound, fun _ => rfl, rfl, fun _ h => (List.not_mem_nil h).elim, .nil, fun i hi => ?_,
              fun _ h => (List.not_mem_nil h).elim⟩
            exact Nat.lt_of_lt_of_le (Nat.lt_of_not_le hDue) (hFirst i hi)

theorem push_perm (b : TimerBase) (idx : Nat) : (b.push idx).heap.Perm (idx :: b.heap) :=
  Heap.push_perm _ _ _

theorem mem_push {i idx : Nat} : i ∈ (b.push idx).heap ↔ i = idx ∨ i ∈ b.heap :=
  (push_perm b idx).mem_iff.trans List.mem_cons

/-- A node that nothing refers to becomes the one of a new timer. -/
theorem Fresh.enter {idx : Nat} (fresh : b.Fresh idx) (sound : b.Sound ready)
    (hAlive : (b.pool idx).alive = true) (hIssued : (b.pool idx).id < b.nextId)
    (hNew : b.timers (b.pool idx).id = none) (hReady : (b.pool idx).id ∉ ready) :
    ({ b.push idx with timers := Function.update b.timers (b.pool idx).id (some idx) } :
      TimerBase).Sound ready := by
  have hTimer : ∀ id i, Function.update b.timers (b.pool idx).id (some idx) id = some i →
      (id = (b.pool idx).id ∧ i = idx) ∨ (b.timers id = some i ∧ i ≠ idx) := by
    intro id i h
    by_cases hid : id = (b.pool idx).id
    · rw [hid, Function.update_self] at h
      exact .inl ⟨hid, (Option.some.inj h).symm⟩
    · rw [Function.update_of_ne hid] at h
      exact .inr ⟨h, fun hi => fresh.timers id (hi ▸ h)⟩
  refine { sound with
    sorted := Heap.push_ordered sound.sorted idx
    once := (push_perm b idx).nodup_iff.mpr (List.nodup_cons.mpr ⟨fresh.heap, sound.once⟩)
    free := fun i hi => ?_
    inside := fun i hi => ?_
    used := fun id i h => ?_
    named := fun id i h => ?_
    alive := fun id i h => ?_
    known := fun i hi hLive => ?_
    issued := fun id h => ?_
    kept := fun id i h => ?_ }
  · obtain ⟨hInside, hOut, hNone⟩ := sound.free i hi
    have hne : i ≠ idx := fun h => fresh.free (h ▸ hi)
    refine ⟨hInside, fun h => (mem_push.mp h).elim hne hOut, fun id h => ?_⟩
    rcases hTimer id i h with ⟨_, hi⟩ | ⟨hOld, _⟩
    · exact hne hi
    · exact hNone id hOld
  · rcases mem_push.mp hi with rfl | hOld
    · exact fresh.inside
    · exact sound.inside i hOld
  · rcases hTimer id i h with ⟨_, rfl⟩ | ⟨hOld, _⟩
    · exact fresh.inside
    · exact sound.used id i hOld
  · rcases hTimer id i h with ⟨rfl, rfl⟩ | ⟨hOld, _⟩
    · rfl
    · exact sound.named id i hOld
  · rcases hTimer id i h with ⟨rfl, rfl⟩ | ⟨hOld, _⟩
    · exact hAlive
    · exact sound.alive id i hOld
  · show Function.update b.timers (b.pool idx).id (some idx) (b.pool i).id = some i
    rcases mem_push.mp hi with rfl | hOld
    · rw [Function.update_self]
    · have hKnown := sound.known i hOld hLive
      have hne : (b.pool i).id ≠ (b.pool idx).id := by
        intro h
        rw [h, hNew] at hKnown
        cases hKnown
      rw [Function.update_of_ne hne, hKnown]
  · by_cases hid : id = (b.pool idx).id
    · rw [hid]
      exact hIssued
    · apply sound.issued id
      simpa [Function.update_of_ne hid] using h
  · rcases hTimer id i h with ⟨rfl, rfl⟩ | ⟨hOld, hne⟩
    · exact iff_of_true (mem_push.mpr (.inl rfl)) hReady
    · rw [← sound.kept id i hOld]
      exact ⟨fun h => (mem_push.mp h).resolve_left hne, fun h => mem_push.mpr (.inr h)⟩

/-- A timer that is not ready is in the heap. -/
theorem Sound.mem_heap {id i : Nat} (sound : b.Sound ready) (hTimer : b.timers id = some i)
    (hWaits : id ∉ ready) : i ∈ b.heap := (sound.kept id i hTimer).mpr hWaits

/-- The node of a timer that is ready is nowhere but under its id. -/
theorem Sound.not_mem_of_ready {id i : Nat} (sound : b.Sound (id :: ready))
    (hTimer : b.timers id = some i) : i ∉ b.heap :=
  fun h => (sound.kept id i hTimer).mp h List.mem_cons_self

theorem Sound.timers_inj {id id' i : Nat} (sound : b.Sound ready) (h : b.timers id = some i)
    (h' : b.timers id' = some i) : id = id' := (sound.named id i h).symm.trans (sound.named id' i h')

/-- A timer that was ready waits again. -/
theorem Sound.renew {id idx : Nat} {node : TimerNode} (sound : b.Sound (id :: ready))
    (hTimer : b.timers id = some idx) (hId : node.id = id) (hAlive : node.alive = true) :
    ((b.setNode idx node).push idx).Sound ready := by
  have hOut := sound.not_mem_of_ready hTimer
  have hNew : (b.setNode idx node).pool idx = node := Function.update_self ..
  have hPool : ∀ i, i ≠ idx → (b.setNode idx node).pool i = b.pool i :=
    fun i hi => Function.update_of_ne hi _ _
  have hHeap : ∀ i ∈ b.heap, (b.setNode idx node).pool i = b.pool i :=
    fun i hi => hPool i fun h => hOut (h ▸ hi)
  have hSorted : Heap.Ordered (b.setNode idx node).expiryAt b.heap :=
    sound.sorted.congr fun i hi => congrArg TimerNode.expiry (hHeap i hi)
  refine { sound with
    sorted := Heap.push_ordered hSorted idx
    once := (push_perm _ idx).nodup_iff.mpr (List.nodup_cons.mpr ⟨hOut, sound.once⟩)
    free := fun i hi => ?_
    inside := fun i hi => ?_
    named := fun id' i h => ?_
    alive := fun id' i h => ?_
    known := fun i hi hLive => ?_
    kept := fun id' i h => ?_
    apart := (List.nodup_cons.mp sound.apart).2
    readied := fun id' h => sound.readied id' (List.mem_cons_of_mem _ h) }
  · obtain ⟨hInside, hFree, hNone⟩ := sound.free i hi
    refine ⟨hInside, fun h => ?_, hNone⟩
    rcases mem_push.mp h with rfl | hOld
    · exact hNone id hTimer
    · exact hFree hOld
  · rcases mem_push.mp hi with rfl | hOld
    · exact sound.used id i hTimer
    · exact sound.inside i hOld
  · show ((b.setNode idx node).pool i).id = id'
    by_cases hi : i = idx
    · rw [hi, hNew, hId]
      exact sound.timers_inj hTimer (hi ▸ h)
    · rw [hPool i hi]
      exact sound.named id' i h
  · show ((b.setNode idx node).pool i).alive = true
    by_cases hi : i = idx
    · rw [hi, hNew, hAlive]
    · rw [hPool i hi]
      exact sound.alive id' i h
  · show b.timers ((b.setNode idx node).pool i).id = some i
    replace hLive : ((b.setNode idx node).pool i).alive = true := hLive
    rcases mem_push.mp hi with rfl | hOld
    · rw [hNew, hId, hTimer]
    · rw [hHeap i hOld] at hLive ⊢
      exact sound.known i hOld hLive
  · have hKept := sound.kept id' i h
    by_cases hi : i = idx
    · have hid : id' = id := sound.timers_inj h (hi ▸ hTimer)
      rw [hid]
      exact iff_of_true (mem_push.mpr (.inl hi)) (List.nodup_cons.mp sound.apart).1
    · have hid : id' ≠ id := fun hid => hi (Option.some.inj (h.symm.trans (hid ▸ hTimer)))
      rw [List.mem_cons, not_or] at hKept
      exact (mem_push.trans (or_iff_right hi)).trans (hKept.trans (and_iff_right hid))

/-- A timer that was ready is over. -/
theorem Sound.finish {id idx : Nat} (sound : b.Sound (id :: ready)) (hTimer : b.timers id = some idx) :
    ({ b with timers := Function.update b.timers id none }.freeNode idx).Sound ready ∧
      ({ b with timers := Function.update b.timers id none } : TimerBase).Fresh idx := by
  have hOld : ∀ id' i, Function.update b.timers id none id' = some i → id' ≠ id ∧ b.timers id' = some i := by
    intro id' i h
    have hid : id' ≠ id := by
      rintro rfl
      simp at h
    rw [Function.update_of_ne hid] at h
    exact ⟨hid, h⟩
  have erased : ({ b with timers := Function.update b.timers id none } : TimerBase).Sound ready := by
    refine { sound with
      free := fun i hi => ?_
      used := fun id' i h => sound.used id' i (hOld id' i h).2
      named := fun id' i h => sound.named id' i (hOld id' i h).2
      alive := fun id' i h => sound.alive id' i (hOld id' i h).2
      known := fun i hi hLive => ?_
      issued := fun id' h => ?_
      kept := fun id' i h => ?_
      apart := (List.nodup_cons.mp sound.apart).2
      readied := fun id' h => sound.readied id' (List.mem_cons_of_mem _ h) }
    · obtain ⟨hInside, hOut, hNone⟩ := sound.free i hi
      exact ⟨hInside, hOut, fun id' h => hNone id' (hOld id' i h).2⟩
    · have hKnown := sound.known i hi hLive
      have hid : (b.pool i).id ≠ id := by
        intro h
        rw [h, hTimer] at hKnown
        exact sound.not_mem_of_ready hTimer (Option.some.inj hKnown ▸ hi)
      show Function.update b.timers id none (b.pool i).id = some i
      rw [Function.update_of_ne hid, hKnown]
    · by_cases hid : id' = id
      · rw [hid]
        exact sound.readied id List.mem_cons_self
      · apply sound.issued id'
        simpa [Function.update_of_ne hid] using h
    · have hKept := sound.kept id' i (hOld id' i h).2
      rw [List.mem_cons, not_or] at hKept
      exact hKept.trans (and_iff_right (hOld id' i h).1)
  have fresh : ({ b with timers := Function.update b.timers id none } : TimerBase).Fresh idx := by
    refine ⟨sound.used id idx hTimer, fun h => (sound.free idx h).2.2 id hTimer,
      sound.not_mem_of_ready hTimer, fun id' h => ?_⟩
    exact (hOld id' idx h).1 (sound.timers_inj (hOld id' idx h).2 hTimer)
  exact ⟨fresh.freeNode erased, fresh⟩

/-- Of a timer that was cancelled while it was ready nothing is left. -/
theorem Sound.skip {id : Nat} (sound : b.Sound (id :: ready)) (hTimer : b.timers id = none) :
    b.Sound ready := by
  refine { sound with
    kept := fun id' i h => ?_
    apart := (List.nodup_cons.mp sound.apart).2
    readied := fun id' h => sound.readied id' (List.mem_cons_of_mem _ h) }
  have hid : id' ≠ id := by
    rintro rfl
    rw [hTimer] at h
    cases h
  have hKept := sound.kept id' i h
  rw [List.mem_cons, not_or] at hKept
  exact hKept.trans (and_iff_right hid)

/-- A timer that is not to be delivered any more. -/
theorem Sound.kill {id idx : Nat} (sound : b.Sound ready) (hTimer : b.timers id = some idx) :
    ({ b.setNode idx { b.pool idx with alive := false } with
      timers := Function.update b.timers id none } : TimerBase).Sound ready := by
  have hOld : ∀ id' i, Function.update b.timers id none id' = some i →
      id' ≠ id ∧ i ≠ idx ∧ b.timers id' = some i := by
    intro id' i h
    have hid : id' ≠ id := by
      rintro rfl
      simp at h
    rw [Function.update_of_ne hid] at h
    exact ⟨hid, fun hi => hid (sound.timers_inj (hi ▸ h) hTimer), h⟩
  have hPool : ∀ i, i ≠ idx →
      Function.update b.pool idx { b.pool idx with alive := false } i = b.pool i :=
    fun i hi => Function.update_of_ne hi _ _
  have hExpiry : ∀ i, (Function.update b.pool idx { b.pool idx with alive := false } i).expiry
      = (b.pool i).expiry := by
    intro i
    by_cases hi : i = idx
    · rw [hi, Function.update_self]
    · rw [hPool i hi]
  refine { sound with
    sorted := ?_
    free := fun i hi => ?_
    used := fun id' i h => sound.used id' i (hOld id' i h).2.2
    named := fun id' i h => ?_
    alive := fun id' i h => ?_
    known := fun i hi hLive => ?_
    issued := fun id' h => ?_
    kept := fun id' i h => sound.kept id' i (hOld id' i h).2.2 }
  · exact sound.sorted.congr fun i _ => hExpiry i
  · obtain ⟨hInside, hOut, hNone⟩ := sound.free i hi
    exact ⟨hInside, hOut, fun id' h => hNone id' (hOld id' i h).2.2⟩
  · obtain ⟨_, hi, hSame⟩ := hOld id' i h
    exact (congrArg TimerNode.id (hPool i hi)).trans (sound.named id' i hSame)
  · obtain ⟨_, hi, hSame⟩ := hOld id' i h
    exact (congrArg TimerNode.alive (hPool i hi)).trans (sound.alive id' i hSame)
  · replace hLive : (Function.update b.pool idx { b.pool idx with alive := false } i).alive = true := hLive
    show Function.update b.timers id none
      (Function.update b.pool idx { b.pool idx with alive := false } i).id = some i
    have hne : i ≠ idx := by
      rintro rfl
      simp at hLive
    rw [hPool i hne] at hLive ⊢
    have hKnown := sound.known i hi hLive
    have hid : (b.pool i).id ≠ id := by
      intro h
      rw [h, hTimer] at hKnown
      exact hne (Option.some.inj hKnown).symm
    rw [Function.update_of_ne hid, hKnown]
  · by_cases hid : id' = id
    · rw [hid]
      exact sound.issued id (by simp [hTimer])
    · apply sound.issued id'
      simpa [Function.update_of_ne hid] using h

end Nodes

section Operations

variable {b : TimerBase} {ready : List Nat}

theorem find_eq_some {id : Nat} {node : TimerNode} :
    b.find id = some node ↔ ∃ i, b.timers id = some i ∧ b.pool i = node := Option.map_eq_some_iff

theorem Sound.alive_of_find {id : Nat} {node : TimerNode} (sound : b.Sound ready)
    (hFind : b.find id = some node) : node.alive = true := by
  obtain ⟨i, hTimer, rfl⟩ := find_eq_some.mp hFind
  exact sound.alive id i hTimer

theorem Sound.isAlive_eq (sound : b.Sound ready) (id : Nat) : b.isAlive id = (b.find id).isSome := by
  rw [isAlive, find]
  cases hTimer : b.timers id with
  | none => rfl
  | some i => simpa using sound.alive id i hTimer

theorem Sound.lt_of_find {id : Nat} {node : TimerNode} (sound : b.Sound ready)
    (hFind : b.find id = some node) : id < b.nextId := by
  obtain ⟨i, hTimer, _⟩ := find_eq_some.mp hFind
  exact sound.issued id (by simp [hTimer])

/-- A timer that waits is due with an entry of the heap. -/
theorem Sound.due_mem {id : Nat} {node : TimerNode} (sound : b.Sound ready)
    (hFind : b.find id = some node) (hWaits : id ∉ ready) : node.expiry ∈ b.dues := by
  obtain ⟨i, hTimer, rfl⟩ := find_eq_some.mp hFind
  exact List.mem_map_of_mem (sound.mem_heap hTimer hWaits)

theorem Sound.nextExpiry_le {d : Nat} (sound : b.Sound ready) (hDue : d ∈ b.dues) :
    b.nextExpiry ≤ d := by
  obtain ⟨i, hi, rfl⟩ := List.mem_map.mp hDue
  have hSorted := sound.sorted
  unfold nextExpiry
  split
  case h_1 hHeap =>
      rw [hHeap] at hi
      cases hi
  case h_2 idx rest hHeap =>
      rw [hHeap] at hi hSorted
      exact hSorted.first_le i hi

theorem nextExpiry_mem (h : b.hasLiveTop = true) : b.nextExpiry ∈ b.dues := by
  unfold hasLiveTop at h
  split at h
  · cases h
  · simp [nextExpiry, dues, *]

/-- The entry at the top, if it is alive, is a timer that waits. -/
theorem Sound.find_top (sound : b.Sound ready) (h : b.hasLiveTop = true) :
    ∃ id node, id ∉ ready ∧ b.find id = some node ∧ node.expiry = b.nextExpiry := by
  unfold hasLiveTop at h
  split at h
  · cases h
  · next idx rest hHeap =>
    have hMem : idx ∈ b.heap := by simp [hHeap]
    have hTimer := sound.known idx hMem h
    refine ⟨(b.pool idx).id, b.pool idx, (sound.kept _ idx hTimer).mp hMem, ?_, ?_⟩
    · rw [find, hTimer, Option.map_some]
    · simp [nextExpiry, hHeap]

theorem dues_eq_nil : b.dues = [] ↔ b.heap = [] := List.map_eq_nil_iff

theorem needReschedule_iff {e : Nat} (sound : b.Sound ready) :
    (b.heap.isEmpty || decide (e < b.nextExpiry)) = true ↔ ∀ d ∈ b.dues, e < d := by
  rw [Bool.or_eq_true, List.isEmpty_iff, decide_eq_true_iff]
  constructor
  · rintro (hEmpty | hEarlier) d hDue
    · rw [dues_eq_nil.mpr hEmpty] at hDue
      cases hDue
    · exact Nat.lt_of_lt_of_le hEarlier (sound.nextExpiry_le hDue)
  · intro h
    cases hHeap : b.heap with
    | nil => exact .inl rfl
    | cons idx rest =>
        right
        rw [nextExpiry, hHeap]
        exact h _ (by simp [dues, hHeap])

theorem Sound.purge (sound : b.Sound ready) :
    b.purgeDeadEntries.Sound ready ∧ (∀ id, b.purgeDeadEntries.find id = b.find id) ∧
      (b.purgeDeadEntries.dues = [] ∨ b.purgeDeadEntries.hasLiveTop = true) ∧
      b.purgeDeadEntries.dues ⊆ b.dues := by
  obtain ⟨hSound, hFind, hTop, hKept⟩ := purge_spec b.heap.length b (Nat.le_refl _) sound
  refine ⟨hSound, hFind, hTop.imp dues_eq_nil.mpr id, fun d hDue => ?_⟩
  obtain ⟨i, hi, rfl⟩ := List.mem_map.mp hDue
  obtain ⟨hMem, hSame⟩ := hKept i hi
  exact List.mem_map.mpr ⟨i, hMem, by rw [← hSame]; rfl⟩

theorem Sound.cancel (sound : b.Sound ready) (id : Nat) :
    (b.cancel id).Sound ready ∧
      (∀ id', (b.cancel id).find id' = if id' = id then none else b.find id') ∧
      (b.cancel id).dues ⊆ b.dues := by
  cases hTimer : b.timers id with
  | none =>
      rw [TimerBase.cancel, hTimer]
      refine ⟨sound, fun id' => ?_, List.Subset.refl _⟩
      by_cases hid : id' = id
      · rw [if_pos hid, hid, find, hTimer, Option.map_none]
      · rw [if_neg hid]
  | some idx =>
      rw [TimerBase.cancel, hTimer]
      obtain ⟨hSound, hFind, _, hDues⟩ := (sound.kill hTimer).purge
      refine ⟨hSound, fun id' => (hFind id').trans ?_, fun d hDue => ?_⟩
      · show (Function.update b.timers id none id').map _ = _
        split
        · next hid => rw [hid, Function.update_self, Option.map_none]
        · next hid =>
          rw [Function.update_of_ne hid, find]
          cases hOther : b.timers id' with
          | none => rfl
          | some i =>
              have hi : i ≠ idx := fun h => hid (sound.timers_inj hOther (h ▸ hTimer))
              exact congrArg some (Function.update_of_ne hi _ _)
      · obtain ⟨i, hi, rfl⟩ := List.mem_map.mp (hDues hDue)
        refine List.mem_map.mpr ⟨i, hi, ?_⟩
        show _ = (Function.update b.pool idx { b.pool idx with alive := false } i).expiry
        by_cases hi : i = idx
        · rw [hi, Function.update_self]
        · rw [Function.update_of_ne hi]

theorem purge_nextId : ∀ (fuel : Nat) (b : TimerBase), (purge fuel b).nextId = b.nextId := by
  intro fuel
  induction fuel with
  | zero => exact fun _ => rfl
  | succ fuel ih =>
      intro b
      rw [TimerBase.purge]
      split
      · rfl
      · split
        · rfl
        · exact ih _

theorem cancel_nextId (b : TimerBase) (id : Nat) : (b.cancel id).nextId = b.nextId := by
  unfold TimerBase.cancel
  split
  · rfl
  · exact purge_nextId _ _

theorem Sound.clear (sound : b.Sound ready) : b.clear.Sound ready where
  sorted := Heap.ordered_nil
  once := .nil
  distinct := .nil
  free := nofun
  inside := nofun
  used := nofun
  named := nofun
  alive := nofun
  known := nofun
  issued _ h := absurd rfl h
  kept := nofun
  apart := sound.apart
  readied := sound.readied

theorem allocNode_same : b.allocNode.2.heap = b.heap ∧ b.allocNode.2.timers = b.timers ∧
    b.allocNode.2.nextId = b.nextId ∧
    ∀ i, i ≠ b.allocNode.1 → b.allocNode.2.pool i = b.pool i := by
  unfold allocNode
  split <;> exact ⟨rfl, rfl, rfl, fun i hi => Function.update_of_ne hi _ _⟩

/-- The node of a timer that is added. -/
def added (b : TimerBase) (now delayMs : Nat) (repeating : Bool) : TimerNode where
  expiry := now + nsOfMs delayMs
  interval := nsOfMs delayMs
  id := b.nextId
  repeating := repeating

theorem Sound.add (sound : b.Sound ready) (now delayMs : Nat) (repeating : Bool) :
    (b.add now delayMs repeating).2.2.Sound ready ∧
      (∀ id, (b.add now delayMs repeating).2.2.find id
        = if id = b.nextId then some (b.added now delayMs repeating) else b.find id) ∧
      (b.add now delayMs repeating).2.2.nextId = b.nextId + 1 ∧
      (b.add now delayMs repeating).2.2.dues.Perm ((now + nsOfMs delayMs) :: b.dues) ∧
      ((b.add now delayMs repeating).2.1 = true ↔ ∀ d ∈ b.dues, now + nsOfMs delayMs < d) := by
  obtain ⟨allocated, free⟩ := allocNode_sound sound
  obtain ⟨hHeap, hTimers, hNext, hPool⟩ := allocNode_same (b := b)
  have counted : ({ b.allocNode.2 with nextId := b.allocNode.2.nextId + 1 } : TimerBase).Sound ready :=
    { allocated with
      issued := fun id h => Nat.lt_succ_of_lt (allocated.issued id h)
      readied := fun id h => Nat.lt_succ_of_lt (allocated.readied id h) }
  have here : ({ b.allocNode.2 with nextId := b.allocNode.2.nextId + 1 } : TimerBase).Fresh b.allocNode.1 :=
    ⟨free.inside, free.free, free.heap, free.timers⟩
  obtain ⟨set, fresh⟩ := here.setNode counted (b.added now delayMs repeating)
  generalize hSet : ({ b.allocNode.2 with nextId := b.allocNode.2.nextId + 1 } : TimerBase).setNode
    b.allocNode.1 (b.added now delayMs repeating) = b' at set fresh
  have hNode : b'.pool b.allocNode.1 = b.added now delayMs repeating := by
    rw [← hSet]
    exact Function.update_self ..
  have hOther : ∀ i, i ≠ b.allocNode.1 → b'.pool i = b.pool i := by
    intro i hi
    rw [← hSet]
    exact (Function.update_of_ne hi _ _).trans (hPool i hi)
  have hHeap' : b'.heap = b.heap := by rw [← hSet]; exact hHeap
  have hTimers' : b'.timers = b.timers := by rw [← hSet]; exact hTimers
  have hNext' : b'.nextId = b.nextId + 1 := by rw [← hSet]; exact congrArg Nat.succ hNext
  have hDues : b'.dues = b.dues := by
    rw [dues, dues, hHeap']
    refine List.map_congr_left fun i hi => ?_
    rw [hOther i fun h => fresh.heap (by rw [hHeap', ← h]; exact hi)]
  have hAdd : b.add now delayMs repeating = (b.nextId,
      (b'.heap.isEmpty || decide (now + nsOfMs delayMs < b'.nextExpiry)),
      { b'.push b.allocNode.1 with
        timers := Function.update b'.timers b.nextId (some b.allocNode.1) }) := by
    rw [← hSet]
    rfl
  have hNew : b.timers b.nextId = none := by
    by_contra h
    exact Nat.lt_irrefl _ (sound.issued _ h)
  have entered := fresh.enter set (by rw [hNode]; rfl) (by rw [hNode, hNext']; exact Nat.lt_succ_self _)
    (by rw [hNode, hTimers']; exact hNew)
    (by rw [hNode]; exact fun h => Nat.lt_irrefl _ (sound.readied _ h))
  rw [hNode] at entered
  rw [hAdd]
  refine ⟨entered, fun id => ?_, hNext', ?_, ?_⟩
  · show (Function.update b'.timers b.nextId (some b.allocNode.1) id).map b'.pool = _
    split
    · next hid => rw [hid, Function.update_self, Option.map_some, hNode]
    · next hid =>
      rw [Function.update_of_ne hid, hTimers', find]
      cases hTimer : b.timers id with
      | none => rfl
      | some i =>
          refine congrArg some (hOther i fun h => ?_)
          exact fresh.timers id (by rw [hTimers', ← h]; exact hTimer)
  · show ((b'.push b.allocNode.1).heap.map fun i => (b'.pool i).expiry).Perm _
    refine ((push_perm b' b.allocNode.1).map _).trans ?_
    rw [List.map_cons, hNode, ← hDues]
    exact .refl _
  · rw [← hDues]
    exact needReschedule_iff set

theorem Sound.rescheduleOne {id : Nat} (sound : b.Sound (id :: ready)) :
    (b.rescheduleOne id).Sound ready ∧ (b.rescheduleOne id).nextId = b.nextId ∧
      ∀ id', (b.rescheduleOne id).find id'
        = if id' = id then (b.find id).bind TimerNode.renewed else b.find id' := by
  cases hTimer : b.timers id with
  | none =>
      rw [TimerBase.rescheduleOne, hTimer]
      refine ⟨sound.skip hTimer, rfl, fun id' => ?_⟩
      by_cases hid : id' = id
      · rw [if_pos hid, hid, find, hTimer, Option.map_none, Option.bind_none]
      · rw [if_neg hid]
  | some idx =>
      have hAlive := sound.alive id idx hTimer
      rw [find, hTimer, Option.map_some, Option.bind_some, TimerNode.renewed]
      by_cases hRepeats : (b.pool idx).repeating = true
      · have hAgain : b.rescheduleOne id = (b.setNode idx { b.pool idx with
            expiry := (b.pool idx).expiry + (b.pool idx).interval }).push idx := by
          simp only [TimerBase.rescheduleOne, hTimer]
          exact if_pos ⟨hRepeats, hAlive⟩
        rw [hAgain, if_pos hRepeats]
        refine ⟨sound.renew hTimer (sound.named id idx hTimer) hAlive, rfl, fun id' => ?_⟩
        show (b.timers id').map (Function.update b.pool idx _) = _
        by_cases hid : id' = id
        · rw [if_pos hid, hid, hTimer, Option.map_some, Function.update_self]
        · rw [if_neg hid, find]
          cases hOther : b.timers id' with
          | none => rfl
          | some i =>
              have hi : i ≠ idx := fun h => hid (sound.timers_inj hOther (h ▸ hTimer))
              exact congrArg some (Function.update_of_ne hi _ _)
      · have hOver : b.rescheduleOne id
            = { b with timers := Function.update b.timers id none }.freeNode idx := by
          simp only [TimerBase.rescheduleOne, hTimer]
          exact if_neg fun h => hRepeats h.1
        rw [hOver, if_neg hRepeats]
        obtain ⟨hSound, fresh⟩ := sound.finish hTimer
        refine ⟨hSound, rfl, fun id' => (find_setNode fresh.timers {} id').trans ?_⟩
        show (Function.update b.timers id none id').map b.pool = _
        by_cases hid : id' = id
        · rw [if_pos hid, hid, Function.update_self, Option.map_none]
        · rw [if_neg hid, Function.update_of_ne hid, find]

theorem reschedule_spec : ∀ (ready : List Nat) (b : TimerBase), b.Sound ready →
    (b.reschedule ready).Sound [] ∧ (b.reschedule ready).nextId = b.nextId ∧
      ∀ id, (b.reschedule ready).find id
        = if id ∈ ready then (b.find id).bind TimerNode.renewed else b.find id := by
  intro ready
  induction ready with
  | nil =>
      intro b sound
      exact ⟨sound, rfl, fun id => (if_neg List.not_mem_nil).symm⟩
  | cons id rest ih =>
      intro b sound
      obtain ⟨hSound, hNext, hFind⟩ := sound.rescheduleOne
      obtain ⟨hSound', hNext', hFind'⟩ := ih _ hSound
      refine ⟨hSound', hNext'.trans hNext, fun id' => (hFind' id').trans ?_⟩
      have hOnce := (List.nodup_cons.mp sound.apart).1
      rw [hFind id']
      by_cases hid : id' = id
      · simp [hid, hOnce]
      · simp [hid]

/-- What is ready after a pass has collected is due, and what is not is not. -/
theorem Sound.collected (sound : b.Sound []) (now : Nat) :
    (b.collectExpired now).2.Sound (b.collectExpired now).1 ∧
      (∀ id, (b.collectExpired now).2.find id = b.find id) ∧
      (b.collectExpired now).2.nextId = b.nextId ∧
      ∀ id, id ∈ (b.collectExpired now).1 ↔ ∃ node, b.find id = some node ∧ node.expiry ≤ now := by
  obtain ⟨hSound, collects⟩ := collect_spec now b.heap.length b [] (Nat.le_refl _) sound
  rw [List.append_nil] at hSound
  refine ⟨hSound, collects.find, collects.nextId, fun id => ⟨collects.due id, ?_⟩⟩
  rintro ⟨node, hNode, hExpiry⟩
  by_contra hWaits
  obtain ⟨i, hTimer, rfl⟩ := find_eq_some.mp ((collects.find id).trans hNode)
  exact Nat.not_le_of_lt (collects.later i (hSound.mem_heap hTimer hWaits)) hExpiry

end Operations

end TimerBase

end Timer
