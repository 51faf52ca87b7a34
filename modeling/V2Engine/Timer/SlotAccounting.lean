import V2Engine.Timer.ExpiryPass
import Mathlib.Data.List.Perm.Basic
import Mathlib.Data.List.Range
import Mathlib.Data.List.Nodup

/-! Where the nodes of the pool are: in the heap, among the free ones or taken by the pass that is in
progress. -/
namespace Timer

open Interleaving

namespace TimerBase

variable {b : TimerBase} {ready : List Nat} {id idx now delayMs : Nat} {repeating : Bool}

/-- The nodes in the heap and the free ones. -/
def slots (b : TimerBase) : List Nat := b.heap ++ b.freeList

/-- The timers there are, and the cancelled entries that are still in the heap. -/
def existing (b : TimerBase) : Nat :=
  ((List.range b.nextId).filter fun id => (b.timers id).isSome).length +
    (b.heap.filter fun i => !(b.pool i).alive).length

theorem slots_free {heap rest : List Nat} (hPerm : heap.Perm rest) (free : List Nat) :
    (heap ++ idx :: free).Perm (idx :: rest ++ free) :=
  (hPerm.append_right _).trans List.perm_middle

/-- What is purged is free. -/
theorem purge_slots (fuel : Nat) (b : TimerBase) :
    (purge fuel b).slots.Perm b.slots ∧ (purge fuel b).poolSize = b.poolSize ∧ (purge fuel b).timers = b.timers := by
  induction fuel generalizing b with
  | zero => exact ⟨.refl _, rfl, rfl⟩
  | succ fuel ih =>
      rw [TimerBase.purge]
      split
      · exact ⟨.refl _, rfl, rfl⟩
      · rename_i idx rest hHeap
        split
        · exact ⟨.refl _, rfl, rfl⟩
        · obtain ⟨hPerm, hSize, hTimers⟩ := ih (b.freeNode idx).pop
          refine ⟨hPerm.trans ?_, hSize, hTimers⟩
          show (Heap.pop _ b.heap ++ idx :: b.freeList).Perm (b.heap ++ b.freeList)
          rw [hHeap]
          exact slots_free (Heap.pop_perm _ idx rest) _

theorem cancel_slots (b : TimerBase) (id : Nat) :
    (b.cancel id).slots.Perm b.slots ∧ (b.cancel id).poolSize = b.poolSize ∧
      ∀ id', id' ≠ id → (b.cancel id).timers id' = b.timers id' := by
  unfold TimerBase.cancel
  split
  · exact ⟨.refl _, rfl, fun _ _ => rfl⟩
  · obtain ⟨hPerm, hSize, hTimers⟩ := purge_slots b.heap.length
      { b.setNode _ { b.pool _ with alive := false } with timers := Function.update b.timers id none }
    refine ⟨hPerm, hSize, fun id' hid => ?_⟩
    exact (congrFun hTimers id').trans (Function.update_of_ne hid _ _)

/-- What is collected has left the heap, and is the nodes of the timers that are ready. -/
theorem collect_slots (now fuel : Nat) (b : TimerBase) (ready : List Nat) (sound : b.Sound ready) :
    ((collect now fuel b).1.filterMap b.timers ++ (collect now fuel b).2.slots).Perm b.slots ∧
      (collect now fuel b).2.poolSize = b.poolSize ∧ (collect now fuel b).2.timers = b.timers := by
  induction fuel generalizing b ready with
  | zero => exact ⟨.refl _, rfl, rfl⟩
  | succ fuel ih =>
      cases hHeap : b.heap with
      | nil =>
          have hDone : collect now (fuel + 1) b = ([], b) := by simp only [collect, hHeap]
          rw [hDone]
          exact ⟨.refl _, rfl, rfl⟩
      | cons idx rest =>
          have hPop : b.pop.heap.Perm rest := by
            show (Heap.pop _ b.heap).Perm rest
            rw [hHeap]
            exact Heap.pop_perm _ idx rest
          have hSlots : b.slots = idx :: rest ++ b.freeList := by rw [slots, hHeap]
          have drops := sound.popped hHeap
          by_cases hDue : (b.pool idx).expiry ≤ now
          · cases hAlive : (b.pool idx).alive with
            | true =>
                obtain ⟨hTimer, taken⟩ := sound.take drops hAlive
                obtain ⟨hPerm, hSize, hTimers⟩ := ih b.pop _ taken
                have hTake : collect now (fuel + 1) b =
                    ((b.pool idx).id :: (collect now fuel b.pop).1, (collect now fuel b.pop).2) := by
                  simp only [collect, hHeap]
                  exact (if_pos hDue).trans (if_pos hAlive)
                rw [hTake]
                refine ⟨?_, hSize, hTimers⟩
                rw [List.filterMap_cons_some hTimer, hSlots]
                exact (hPerm.trans (hPop.append_right _)).cons idx
            | false =>
                obtain ⟨dropped, fresh⟩ := sound.drop drops hAlive
                obtain ⟨hPerm, hSize, hTimers⟩ := ih (b.pop.freeNode idx) _ (fresh.freeNode dropped)
                have hSkip : collect now (fuel + 1) b = collect now fuel (b.pop.freeNode idx) := by
                  simp only [collect, hHeap]
                  exact (if_pos hDue).trans (if_neg (by simp [pop, hAlive]))
                rw [hSkip]
                refine ⟨hPerm.trans ?_, hSize, hTimers⟩
                rw [hSlots]
                exact slots_free hPop b.freeList
          · have hDone : collect now (fuel + 1) b = ([], b) := by
              simp only [collect, hHeap]
              exact if_neg hDue
            rw [hDone]
            exact ⟨.refl _, rfl, rfl⟩

/-- A node that was taken is in the heap again, or free. -/
theorem rescheduleOne_slots (hTimer : b.timers id = some idx) :
    (b.rescheduleOne id).slots.Perm (idx :: b.slots) ∧ (b.rescheduleOne id).poolSize = b.poolSize ∧
      ∀ id', id' ≠ id → (b.rescheduleOne id).timers id' = b.timers id' := by
  simp only [rescheduleOne, hTimer]
  split
  · refine ⟨?_, rfl, fun _ _ => rfl⟩
    exact (push_perm _ idx).append_right b.freeList
  · refine ⟨List.perm_middle, rfl, fun id' hid => ?_⟩
    exact Function.update_of_ne hid _ _

theorem filterMap_timers {b' : TimerBase} (h : ∀ id ∈ ready, b'.timers id = b.timers id) :
    ready.filterMap b'.timers = ready.filterMap b.timers := by
  induction ready with
  | nil => rfl
  | cons id rest ih =>
      rw [List.filterMap_cons, List.filterMap_cons, h id List.mem_cons_self,
        ih fun id' hid => h id' (List.mem_cons_of_mem _ hid)]

theorem reschedule_slots (hNodup : ready.Nodup) (hTimers : ∀ id ∈ ready, (b.timers id).isSome) :
    (b.reschedule ready).slots.Perm (ready.filterMap b.timers ++ b.slots) ∧
      (b.reschedule ready).poolSize = b.poolSize := by
  induction ready generalizing b with
  | nil => exact ⟨.refl _, rfl⟩
  | cons id rest ih =>
      obtain ⟨hNew, hRest⟩ := List.nodup_cons.mp hNodup
      obtain ⟨idx, hTimer⟩ := Option.isSome_iff_exists.mp (hTimers id List.mem_cons_self)
      obtain ⟨hPerm, hSize, hSame⟩ := rescheduleOne_slots hTimer
      have hOthers : ∀ id' ∈ rest, (b.rescheduleOne id).timers id' = b.timers id' :=
        fun id' hid => hSame id' fun h => hNew (h ▸ hid)
      obtain ⟨hPerm', hSize'⟩ := ih (b := b.rescheduleOne id) hRest fun id' hid => by
        rw [hOthers id' hid]
        exact hTimers id' (List.mem_cons_of_mem _ hid)
      refine ⟨hPerm'.trans ?_, hSize'.trans hSize⟩
      rw [filterMap_timers hOthers, List.filterMap_cons_some hTimer]
      exact (hPerm.append_left _).trans List.perm_middle

/-- A new timer takes a free node, or one more if none is free. -/
theorem add_slots (b : TimerBase) (now delayMs : Nat) (repeating : Bool) :
    ∃ idx, (b.add now delayMs repeating).2.2.timers = Function.update b.timers b.nextId (some idx) ∧
      (((b.add now delayMs repeating).2.2.slots.Perm b.slots ∧
          (b.add now delayMs repeating).2.2.poolSize = b.poolSize) ∨
        ((b.add now delayMs repeating).2.2.heap.Perm (idx :: b.heap) ∧ b.freeList = [] ∧
          (b.add now delayMs repeating).2.2.freeList = [] ∧ idx = b.poolSize ∧
          (b.add now delayMs repeating).2.2.poolSize = b.poolSize + 1)) := by
  unfold TimerBase.add allocNode
  split
  · rename_i idx rest hFree
    refine ⟨idx, rfl, .inl ⟨?_, rfl⟩⟩
    show (Heap.push _ b.heap idx ++ rest).Perm (b.heap ++ b.freeList)
    rw [hFree]
    exact ((Heap.push_perm _ b.heap idx).append_right rest).trans List.perm_middle.symm
  · rename_i hFree
    exact ⟨b.poolSize, rfl, .inr ⟨Heap.push_perm _ b.heap b.poolSize, hFree, hFree, rfl, rfl⟩⟩

/-- Each timer is in the heap or ready, and each live entry of the heap is a timer. -/
theorem existing_eq (sound : b.Sound ready) (hReady : ∀ id ∈ ready, (b.timers id).isSome) :
    b.existing = b.heap.length + ready.length := by
  have hTimers : ((List.range b.nextId).filter fun id => (b.timers id).isSome).Perm
      ((b.heap.filter fun i => (b.pool i).alive).map (fun i => (b.pool i).id) ++ ready) := by
    apply (List.perm_ext_iff_of_nodup (List.nodup_range.filter _) _).mpr
    · intro id
      rw [List.mem_filter, List.mem_range, List.mem_append, List.mem_map]
      constructor
      · rintro ⟨_, hSome⟩
        obtain ⟨i, hTimer⟩ := Option.isSome_iff_exists.mp hSome
        by_cases hid : id ∈ ready
        · exact .inr hid
        · left
          refine ⟨i, List.mem_filter.mpr ⟨sound.mem_heap hTimer hid, sound.alive id i hTimer⟩, sound.named id i hTimer⟩
      · rintro (⟨i, hMem, rfl⟩ | hid)
        · obtain ⟨hi, hAlive⟩ := List.mem_filter.mp hMem
          have hKnown := sound.known i hi hAlive
          have hSome : b.timers (b.pool i).id ≠ none := by simp [hKnown]
          exact ⟨sound.issued _ hSome, Option.isSome_iff_ne_none.mpr hSome⟩
        · exact ⟨sound.readied id hid, hReady id hid⟩
    · refine List.nodup_append.mpr ⟨?_, sound.apart, ?_⟩
      · refine List.Nodup.map_on (fun i hi j hj h => ?_) (sound.once.filter _)
        obtain ⟨hMem, hAlive⟩ := List.mem_filter.mp hi
        obtain ⟨hMem', hAlive'⟩ := List.mem_filter.mp hj
        have hKnown := sound.known i hMem hAlive
        rw [h, sound.known j hMem' hAlive'] at hKnown
        exact (Option.some.inj hKnown).symm
      · rintro id hMem id' hid rfl
        obtain ⟨i, hi, rfl⟩ := List.mem_map.mp hMem
        obtain ⟨hHeap, hAlive⟩ := List.mem_filter.mp hi
        exact (sound.kept _ i (sound.known i hHeap hAlive)).mp hHeap hid
  have hSplit := List.length_eq_length_filter_add (l := b.heap) fun i => (b.pool i).alive
  rw [existing, hTimers.length_eq, List.length_append, List.length_map]
  omega

end TimerBase

/-- The timers with a record of their nodes. -/
structure Accounts where
  timers : Timers
  /-- The nodes that the pass in progress has collected. -/
  taken : List Nat
  /-- The most timers and cancelled entries there have been at one time. -/
  peak : Nat

namespace Accounts

open Timers

def constructed : Accounts := ⟨.constructed, [], 0⟩

def takenAfter (a : Accounts) : Event → List Nat
  | .collect now => (a.timers.base.collectExpired now).1.filterMap a.timers.base.timers
  | .reschedule => []
  | _ => a.taken

def step (event : Event) (a : Accounts) : Option Accounts :=
  (Timers.step event a.timers).map fun after =>
    ⟨after, a.takenAfter event, max a.peak after.base.existing⟩

/-- No timer is cancelled that the pass in progress has collected. -/
def Careful (a : Accounts) : Event → Prop
  | .cancel id => id ∉ a.timers.ready
  | _ => True

instance (a : Accounts) (event : Event) : Decidable (a.Careful event) := by
  cases event with
  | cancel id => exact inferInstanceAs (Decidable (id ∉ a.timers.ready))
  | _ => exact instDecidableTrue

/-- Each node is in exactly one place, and there are no more than there were timers and cancelled
entries at one time. -/
structure Accounted (a : Accounts) : Prop where
  once : (a.timers.base.heap ++ a.timers.base.freeList ++ a.taken).Perm (List.range a.timers.base.poolSize)
  idle : a.timers.pass = none → a.taken = []
  bound : a.timers.base.poolSize ≤ a.peak

structure Inv (a : Accounts) : Prop where
  timers : a.timers.Inv
  there : ∀ id ∈ a.timers.ready, (a.timers.base.timers id).isSome
  taken : a.taken = a.timers.ready.filterMap a.timers.base.timers
  slots : (a.taken ++ a.timers.base.slots).Perm (List.range a.timers.base.poolSize)
  bound : a.timers.base.poolSize ≤ a.peak

variable {a a' : Accounts} {event : Event}

theorem Inv.constructed : Inv constructed where
  timers := .constructed
  there _ h := by cases h
  taken := rfl
  slots := .refl _
  bound := Nat.le_refl _

theorem Inv.accounted (inv : a.Inv) : a.Accounted := by
  refine ⟨List.perm_append_comm.trans inv.slots, fun hFree => ?_, inv.bound⟩
  rw [inv.taken, ready, hFree]
  rfl

theorem length_filterMap {β γ : Type*} {f : β → Option γ} {l : List β} (h : ∀ x ∈ l, (f x).isSome) :
    (l.filterMap f).length = l.length := by
  induction l with
  | nil => rfl
  | cons x rest ih =>
      obtain ⟨y, hy⟩ := Option.isSome_iff_exists.mp (h x List.mem_cons_self)
      rw [List.filterMap_cons_some hy, List.length_cons, List.length_cons,
        ih fun z hz => h z (List.mem_cons_of_mem _ hz)]

/-- With no node free, as many are in use as there are timers and cancelled entries. -/
theorem size_eq (sound : a.timers.base.Sound a.timers.ready)
    (there : ∀ id ∈ a.timers.ready, (a.timers.base.timers id).isSome)
    (taken : a.taken = a.timers.ready.filterMap a.timers.base.timers)
    (slots : (a.taken ++ a.timers.base.slots).Perm (List.range a.timers.base.poolSize)) :
    a.timers.base.poolSize = a.timers.base.existing + a.timers.base.freeList.length := by
  have hLength := slots.length_eq
  rw [List.length_range, List.length_append, TimerBase.slots, List.length_append, taken, length_filterMap there] at hLength
  rw [TimerBase.existing_eq sound there]
  omega

theorem Inv.add (inv : a.Inv) {now delayMs : Nat} {repeating : Bool}
    (h : a.step (.add now delayMs repeating) = some a') : a'.Inv := by
  cases h
  obtain ⟨idx, hTimers, hCases⟩ := a.timers.base.add_slots now delayMs repeating
  have inv' := inv.timers.add now delayMs repeating
  have hOthers : ∀ id ∈ a.timers.ready, (a.timers.base.add now delayMs repeating).2.2.timers id = a.timers.base.timers id := by
    intro id hid
    rw [hTimers]
    exact Function.update_of_ne (Nat.ne_of_lt (inv.timers.sound.readied id hid)) _ _
  have hThere : ∀ id ∈ a.timers.ready, ((a.timers.base.add now delayMs repeating).2.2.timers id).isSome := by
    intro id hid
    rw [hOthers id hid]
    exact inv.there id hid
  have hTaken := inv.taken.trans (TimerBase.filterMap_timers hOthers).symm
  have hSlots : (a.taken ++ (a.timers.base.add now delayMs repeating).2.2.slots).Perm
      (List.range (a.timers.base.add now delayMs repeating).2.2.poolSize) := by
    rcases hCases with ⟨hPerm, hSize⟩ | ⟨hPerm, hNone, hStill, rfl, hSize⟩
    · rw [hSize]
      exact (hPerm.append_left _).trans inv.slots
    · have hOld := inv.slots
      rw [TimerBase.slots, hNone, List.append_nil] at hOld
      rw [hSize, TimerBase.slots, hStill, List.append_nil, List.range_succ]
      refine (hPerm.append_left _).trans (List.perm_middle.trans ?_)
      exact (hOld.cons _).trans (List.perm_append_singleton _ _).symm
  refine ⟨inv', hThere, hTaken, hSlots, ?_⟩
  rcases hCases with ⟨_, hSize⟩ | ⟨_, _, hStill, _, _⟩
  · exact Nat.le_trans (Nat.le_of_eq hSize) (Nat.le_trans inv.bound (Nat.le_max_left _ _))
  · have hFull := size_eq (a := ⟨a.timers.add now delayMs repeating, a.taken, 0⟩) inv'.sound hThere hTaken hSlots
    have hNone : (a.timers.add now delayMs repeating).base.freeList.length = 0 := congrArg List.length hStill
    rw [hNone, Nat.add_zero] at hFull
    exact Nat.le_trans (Nat.le_of_eq hFull) (Nat.le_max_right _ _)

theorem Inv.cancel (inv : a.Inv) {id : Nat} (careful : id ∉ a.timers.ready) (h : a.step (.cancel id) = some a') :
    a'.Inv := by
  cases h
  obtain ⟨hPerm, hSize, hSame⟩ := a.timers.base.cancel_slots id
  have hOthers : ∀ id' ∈ a.timers.ready, (a.timers.base.cancel id).timers id' = a.timers.base.timers id' :=
    fun id' hid => hSame id' fun h => careful (h ▸ hid)
  refine ⟨inv.timers.cancel id, fun id' hid => ?_, inv.taken.trans (TimerBase.filterMap_timers hOthers).symm, ?_, ?_⟩
  · show ((a.timers.base.cancel id).timers id').isSome
    rw [hOthers id' hid]
    exact inv.there id' hid
  · show (a.taken ++ (a.timers.base.cancel id).slots).Perm (List.range (a.timers.base.cancel id).poolSize)
    rw [hSize]
    exact (hPerm.append_left _).trans inv.slots
  · exact Nat.le_trans (Nat.le_of_eq hSize) (Nat.le_trans inv.bound (Nat.le_max_left _ _))

theorem Inv.collect (inv : a.Inv) {now : Nat} (h : a.step (.collect now) = some a') : a'.Inv := by
  obtain ⟨after, hStep, rfl⟩ := Option.map_eq_some_iff.mp h
  obtain ⟨hFree, rfl⟩ := step_collect hStep
  have sound : a.timers.base.Sound [] := by
    have hSound := inv.timers.sound
    rw [ready, hFree] at hSound
    exact hSound
  obtain ⟨_, hFind, _, hDue⟩ := sound.collected now
  obtain ⟨hPerm, hSize, hTimers⟩ := TimerBase.collect_slots now a.timers.base.heap.length a.timers.base [] sound
  replace hTimers : (a.timers.base.collectExpired now).2.timers = a.timers.base.timers := hTimers
  have hNone : a.taken = [] := by
    rw [inv.taken, ready, hFree]
    rfl
  have hOld := inv.slots
  rw [hNone, List.nil_append] at hOld
  refine ⟨inv.timers.collect hFree now, fun id hid => ?_, ?_, ?_, ?_⟩
  · show ((a.timers.base.collectExpired now).2.timers id).isSome
    obtain ⟨node, hNode, _⟩ := (hDue id).mp hid
    obtain ⟨i, hTimer, _⟩ := TimerBase.find_eq_some.mp hNode
    rw [hTimers, hTimer]
    rfl
  · show (a.timers.base.collectExpired now).1.filterMap a.timers.base.timers =
      (a.timers.base.collectExpired now).1.filterMap (a.timers.base.collectExpired now).2.timers
    rw [hTimers]
  · show (_ ++ (a.timers.base.collectExpired now).2.slots).Perm (List.range (a.timers.base.collectExpired now).2.poolSize)
    rw [show (a.timers.base.collectExpired now).2.poolSize = a.timers.base.poolSize from hSize]
    exact hPerm.trans hOld
  · exact Nat.le_trans (Nat.le_of_eq hSize) (Nat.le_trans inv.bound (Nat.le_max_left _ _))

theorem Inv.reschedule (inv : a.Inv) (h : a.step .reschedule = some a') : a'.Inv := by
  obtain ⟨after, hStep, rfl⟩ := Option.map_eq_some_iff.mp h
  obtain ⟨ready, hPass, rfl⟩ := step_reschedule hStep
  have hReady : a.timers.ready = ready := by rw [Timers.ready, hPass]; rfl
  have sound := inv.timers.sound
  have hThere := inv.there
  have hTaken := inv.taken
  rw [hReady] at sound hThere hTaken
  obtain ⟨hPerm, hSize⟩ := TimerBase.reschedule_slots sound.apart hThere
  refine ⟨inv.timers.reschedule hPass, fun id h => (by cases h), rfl, ?_, ?_⟩
  · show (a.timers.base.reschedule ready).slots.Perm (List.range (a.timers.base.reschedule ready).poolSize)
    rw [hSize]
    refine hPerm.trans ?_
    rw [← hTaken]
    exact inv.slots
  · exact Nat.le_trans (Nat.le_of_eq hSize) (Nat.le_trans inv.bound (Nat.le_max_left _ _))

theorem Inv.step (inv : a.Inv) (careful : a.Careful event) (h : a.step event = some a') : a'.Inv := by
  cases event with
  | add now delayMs repeating => exact inv.add h
  | cancel id => exact inv.cancel careful h
  | collect now => exact inv.collect h
  | call =>
      obtain ⟨after, hStep, rfl⟩ := Option.map_eq_some_iff.mp h
      have inv' := inv.timers.step hStep
      obtain ⟨id, rest, ready, hPass, rfl⟩ := step_call hStep
      have hReady : a.timers.ready = ready := by rw [Timers.ready, hPass]; rfl
      have hThere := inv.there
      have hTaken := inv.taken
      rw [hReady] at hThere hTaken
      exact ⟨inv', hThere, hTaken, inv.slots, Nat.le_trans inv.bound (Nat.le_max_left _ _)⟩
  | reschedule => exact inv.reschedule h

/-- As long as no timer is cancelled that is being called back, no node is lost or in two places. -/
theorem accounted_of_careful (reach : Calls Accounts.step (· = constructed) Careful a) :
    a.Accounted := by
  have inv : a.Inv := by
    apply reach.invariant
    · rintro _ rfl
      exact .constructed
    · intro a event a' _ inv careful h
      exact inv.step careful h
  exact inv.accounted

section Runs

/-- A callback cancels a timer that waits, the next one adds two; the nodes of the cancelled one and
of a one-shot timer are used again. -/
def afterPasses : Accounts :=
  (Calls.replay Accounts.step Careful constructed
    [.add 0 2 true, .add 0 1 false, .add 0 5 true, .collect 2000000, .call, .cancel 3, .call, .add 2000000 1 false,
      .reschedule, .add 2000000 9 false, .collect 4000000, .call, .call, .reschedule]).get (by decide +kernel)

theorem accounted_afterPasses : afterPasses.Accounted :=
  accounted_of_careful (.of_replay (.start rfl) (Option.some_get _).symm)

/-- The callback of a one-shot timer cancels the timer. -/
def afterOwnCancel : Accounts :=
  (Calls.replay Accounts.step anyCall constructed
    [.add 0 1 false, .collect 1000000, .call, .cancel 1, .reschedule]).get (by decide +kernel)

theorem not_accounted_afterOwnCancel :
    Calls Accounts.step (· = constructed) anyCall afterOwnCancel ∧ ¬afterOwnCancel.Accounted := by
  refine ⟨.of_replay (.start rfl) (Option.some_get _).symm, fun accounted => ?_⟩
  have hSize := accounted.once.length_eq
  exact absurd hSize (by decide +kernel)

end Runs

end Accounts

end Timer
