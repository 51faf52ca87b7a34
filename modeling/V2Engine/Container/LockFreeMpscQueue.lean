import V2Engine.Container.MpscPop
import V2Engine.Interleaving.Program

/-! `LockFreeMpscQueue` with any number of producers and the one consumer it is made
for, every atomic load, compare-and-swap and store a step of its own, in a
sequentially consistent memory with unbounded positions. -/
namespace LockFreeMpscQueue

open TicketRing LockFreeQueue Interleaving

variable {π α : Type*} [DecidableEq π] {capacity : Nat}
  {c d : Config (π ⊕ Unit) (State π Unit α) (Producer α ⊕ Consumer α)}

/-- The shared part of the invariant. -/
structure Consistent (capacity : Nat) (s : State π Unit α) : Prop where
  valid : Valid capacity s
  ordered : Ordered s
  sequential : Sequential s

/-- One step of any thread. -/
def step (capacity : Nat) :
    Program (π ⊕ Unit) (State π Unit α) (Producer α ⊕ Consumer α) (PushChoice α ⊕ PopChoice) :=
  Program.either (push capacity) (pop capacity)

/-- The queue as constructed, with no call under way. -/
def initial : Config (π ⊕ Unit) (State π Unit α) (Producer α ⊕ Consumer α) :=
  Config.either State.empty Producer.start Consumer.start

/-- The states that the producers `π` and the consumer can bring the queue to. -/
def Reachable (capacity : Nat) (c : Config (π ⊕ Unit) (State π Unit α) (Producer α ⊕ Consumer α)) :
    Prop :=
  Reach (step capacity) (· = initial) anyStep c

theorem Reachable.outlined (hCapacity : 2 ≤ capacity) (reach : Reachable capacity c) :
    Outlined (Consistent capacity)
      (fun s t l => Producing capacity s t l ∧ Recorded s t l ∧ Owning s t l)
      (fun s _ l => Consuming capacity s l ∧ Collected s l) c := by
  refine Reach.outlined ?_ ?_ ?_ reach
  · refine ⟨⟨valid_empty, ordered_empty, sequential_empty⟩, producer_start capacity, fun _ => ?_⟩
    refine ⟨⟨rfl, fun p hp => ?_⟩, List.nil_suffix⟩
    cases hp
  · rintro t s l choice s' l' ⟨valid, ordered, sequential⟩ ⟨producing, recorded, owning⟩ hStep
    have effect := push_effect producing hStep
    refine ⟨⟨effect.valid valid hCapacity, effect.ordered ordered recorded,
      sequential_of_push effect valid hCapacity sequential⟩, ⟨push_producing valid producing hStep,
      push_recorded recorded hStep, push_owning owning hStep⟩, ?_, ?_⟩
    · rintro u m hne ⟨hProducing, hRecorded, hOwning⟩
      exact effect.keeps_producer valid hCapacity hne hProducing hRecorded hOwning
    · rintro _ m ⟨consuming, collected⟩
      exact push_keeps_consumer effect valid hCapacity consuming collected
  · rintro r s l choice s' l' ⟨valid, ordered, sequential⟩ ⟨consuming, collected⟩ hStep
    have effect := pop_effect valid hCapacity consuming hStep
    refine ⟨⟨effect.valid valid hCapacity, ?_, effect.sequential sequential⟩,
      ⟨pop_consuming valid hCapacity sequential consuming hStep, pop_collected collected hStep⟩,
      fun u m hne => absurd rfl hne, ?_⟩
    · unfold Ordered
      rw [effect.pushed_eq]
      exact ordered
    · rintro t m ⟨producing, recorded, owning⟩
      exact effect.keeps_producer valid hCapacity producing recorded owning

/-- A slot that holds an element is written to by no step; only the consumer, when it
has come to the element's ticket, takes it out. -/
theorem Reachable.storage_kept (hCapacity : 2 ≤ capacity) (reach : Reachable capacity c)
    {thread : π ⊕ Unit} {choice : PushChoice α ⊕ PopChoice}
    (h : (step capacity).next c thread choice = some d) {i : Nat} {element : α}
    (hStored : c.shared.storage i = some element) : d.shared.storage i = some element ∨
      ∃ l pos, thread = .inr () ∧ c.here thread = .inr l ∧ l.pc = .take pos ∧
        pos % capacity = i := by
  obtain ⟨_, producers, consumers⟩ := reach.outlined hCapacity
  obtain ⟨shared, place, hLocal, rfl⟩ := Program.next_eq_some.mp h
  cases thread with
  | inl t =>
      obtain ⟨l, hHere, producing, _⟩ := producers t
      rw [hHere] at hLocal
      cases choice with
      | inr choice => cases hLocal
      | inl choice =>
          obtain ⟨after, hStep, hAfter⟩ := Option.map_eq_some_iff.mp hLocal
          cases hAfter
          exact .inl ((push_effect producing hStep).storage hStored)
  | inr r =>
      obtain ⟨l, hHere, consuming, _⟩ := consumers r
      rw [hHere] at hLocal
      cases choice with
      | inl choice => cases hLocal
      | inr choice =>
          obtain ⟨after, hStep, hAfter⟩ := Option.map_eq_some_iff.mp hLocal
          cases hAfter
          rcases pop_storage hStep hStored with hKept | ⟨pos, hPc, hSlot⟩
          · exact .inl hKept
          · exact .inr ⟨l, pos, rfl, hHere, hPc, hSlot⟩

/-- Tickets that were taken and whose pops have not completed fit into the slots. -/
theorem Reachable.bounded (hCapacity : 2 ≤ capacity) (reach : Reachable capacity c) :
    c.shared.pushed.length ≤ c.shared.popped.length + capacity := by
  obtain ⟨⟨valid, _, sequential⟩, _, _⟩ := reach.outlined hCapacity
  rw [valid.pushed_length]
  have hNext := sequential.retired_iff c.shared.popped.length
  cases h : c.shared.stage c.shared.popped.length with
  | free =>
      have := (valid.free_iff _).mp h
      omega
  | retired => exact absurd (hNext.mp h) (Nat.lt_irrefl _)
  | reserved t => exact valid.tail_le_lap hCapacity (k := 0) (by simp [h])
  | published => exact valid.tail_le_lap hCapacity (k := 1) (by simp [h])
  | claimed r => exact valid.tail_le_lap hCapacity (k := 1) (by simp [h])

/-- At the load by which a push finds out that it has to return false, as many tickets
as there are slots have been taken without their pops being complete. -/
theorem Reachable.full_of_refused (hCapacity : 2 ≤ capacity) (reach : Reachable capacity c)
    {t : π} {choice : PushChoice α ⊕ PopChoice} {l : Producer α} {msg : α}
    (h : (step capacity).next c (.inl t) choice = some d) (hAfter : d.here (.inl t) = .inl l)
    (hRefused : l.pc = .returned msg false) :
    c.shared.pushed.length = c.shared.popped.length + capacity := by
  obtain ⟨⟨valid, _, sequential⟩, producers, _⟩ := reach.outlined hCapacity
  obtain ⟨shared, place, hLocal, rfl⟩ := Program.next_eq_some.mp h
  obtain ⟨before, hHere, producing, _⟩ := producers t
  rw [hHere] at hLocal
  cases choice with
  | inr choice => cases hLocal
  | inl choice =>
      obtain ⟨after, hStep, hPlace⟩ := Option.map_eq_some_iff.mp hLocal
      cases hPlace
      cases (Function.update_self (Sum.inl t) (Sum.inl after.2) c.here).symm.trans hAfter
      have hBehind := push_refused producing valid hStep hRefused
      obtain ⟨hLap, hOpen⟩ := valid.full_of_behind hBehind
      have hUnread := mt (sequential.retired_iff (c.shared.tail - capacity)).mpr hOpen
      have hBounded := reach.bounded hCapacity
      have hLength := valid.pushed_length
      omega

/-- What the users of the queue are promised in one state of a run. -/
structure Faithful (capacity : Nat)
    (c : Config (π ⊕ Unit) (State π Unit α) (Producer α ⊕ Consumer α)) : Prop where
  accepted : ∀ t l msg, c.here (.inl t) = .inl l → l.pc = .returned msg true →
    ∃ pos : Nat, c.shared.pushed[pos]? = some (Entry.mk t l.calls msg)
  producer_order : Ordered c.shared
  pop_order : c.shared.popped.map Popped.ticket = List.range c.shared.popped.length
  pop_value : ∀ result ∈ c.shared.popped, ∃ entry,
    c.shared.pushed[result.ticket]? = some entry ∧ result.value = some entry.value
  pop_returns : ∀ l, c.here (.inr ()) = .inr l → l.pc = .returned →
    l.out <:+ c.shared.popped.map Popped.value
  unread_kept : ∀ thread choice d, (step capacity).next c thread choice = some d →
    ∀ i element, c.shared.storage i = some element → d.shared.storage i = some element ∨
      ∃ l pos, thread = .inr () ∧ c.here thread = .inr l ∧ l.pc = .take pos ∧ pos % capacity = i
  bounded : c.shared.pushed.length ≤ c.shared.popped.length + capacity
  full_of_refused : ∀ t choice d l msg, (step capacity).next c (.inl t) choice = some d →
    d.here (.inl t) = .inl l → l.pc = .returned msg false →
    c.shared.pushed.length = c.shared.popped.length + capacity
  refused_keeps : ∀ t l msg, c.here (.inl t) = .inl l → l.pc = .returned msg false →
    l.arg = some msg

abbrev Schedule := List ((Unit ⊕ Unit) × (PushChoice Nat ⊕ PopChoice))

/-- A producer fills the two slots, is refused, and the consumer takes one element. -/
def fillAndPop : List ((Unit ⊕ Unit) × (PushChoice Nat ⊕ PopChoice)) :=
  ((.inl (), .inl (.call 7)) :: List.replicate 5 (.inl (), .inl .go) : Schedule) ++
  ((.inl (), .inl (.call 8)) :: List.replicate 5 (.inl (), .inl .go) : Schedule) ++
  ((.inl (), .inl (.call 9)) :: List.replicate 2 (.inl (), .inl .go) : Schedule) ++
  ((.inr (), .inr (.call 1)) :: List.replicate 5 (.inr (), .inr .go) : Schedule)

def afterFillAndPop : Config (Unit ⊕ Unit) (State Unit Unit Nat) (Producer Nat ⊕ Consumer Nat) :=
  ((step 2).replay anyStep initial fillAndPop).get (by decide)

end LockFreeMpscQueue
