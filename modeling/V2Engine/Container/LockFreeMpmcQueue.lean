import V2Engine.Container.MpmcPop
import V2Engine.Interleaving.Program

/-! `LockFreeMpmcQueue` with any number of producers and consumers, every atomic
load, compare-and-swap and store a step of its own, in a sequentially consistent
memory with unbounded positions. -/
namespace LockFreeMpmcQueue

open TicketRing LockFreeQueue Interleaving

variable {π γ α : Type*} [DecidableEq π] [DecidableEq γ] {capacity : Nat}
  {c : Config (π ⊕ γ) (State π γ α) (Producer α ⊕ Consumer α)}

/-- The shared part of the invariant. -/
structure Consistent (capacity : Nat) (s : State π γ α) : Prop where
  valid : Valid capacity s
  ordered : Ordered s
  claimed : Claimed s

/-- One step of any thread. -/
def step (capacity : Nat) :
    Program (π ⊕ γ) (State π γ α) (Producer α ⊕ Consumer α) (PushChoice α ⊕ PopChoice) :=
  Program.either (push capacity) (pop capacity)

/-- The queue as constructed, with no call under way. -/
def initial : Config (π ⊕ γ) (State π γ α) (Producer α ⊕ Consumer α) :=
  Config.either State.empty Producer.start Consumer.start

/-- The states that the producers `π` and the consumers `γ` can bring the queue to. -/
def Reachable (capacity : Nat) (c : Config (π ⊕ γ) (State π γ α) (Producer α ⊕ Consumer α)) :
    Prop :=
  Reach (step capacity) (· = initial) anyStep c

theorem Reachable.outlined (hCapacity : 2 ≤ capacity) (reach : Reachable capacity c) :
    Outlined (Consistent capacity)
      (fun s t l => Producing capacity s t l ∧ Recorded s t l ∧ Owning s t l)
      (fun s r l => Consuming capacity s r l ∧ Holding s r l ∧ Collected s r l) c := by
  refine Reach.outlined ?_ ?_ ?_ reach
  · refine ⟨⟨valid_empty, ordered_empty, claimed_empty⟩, producer_start capacity, fun r => ?_⟩
    refine ⟨trivial, fun p hp => ?_, List.nil_suffix⟩
    cases hp
  · rintro t s l choice s' l' ⟨valid, ordered, claimed⟩ ⟨producing, recorded, owning⟩ hStep
    have effect := push_effect producing hStep
    refine ⟨⟨effect.valid valid hCapacity, effect.ordered ordered recorded,
      claimed_of_push effect valid hCapacity claimed⟩, ⟨push_producing valid producing hStep,
      push_recorded recorded hStep, push_owning owning hStep⟩, ?_, ?_⟩
    · rintro u m hne ⟨hProducing, hRecorded, hOwning⟩
      exact effect.keeps_producer valid hCapacity hne hProducing hRecorded hOwning
    · rintro r m ⟨consuming, holding, collected⟩
      obtain ⟨hConsuming, hHolding⟩ :=
        push_keeps_consumer effect valid hCapacity consuming holding
      refine ⟨hConsuming, hHolding, collected.of_poppedBy ?_⟩
      simp only [State.poppedBy, effect.reads_eq.2.2]
  · rintro r s l choice s' l' ⟨valid, ordered, claimed⟩ ⟨consuming, holding, collected⟩ hStep
    have effect := pop_effect consuming hStep
    refine ⟨⟨effect.valid valid hCapacity, ?_, effect.claimed claimed⟩,
      ⟨pop_consuming valid hCapacity claimed consuming hStep, pop_holding consuming holding hStep,
        pop_collected collected hStep⟩, ?_, ?_⟩
    · unfold Ordered
      rw [effect.pushed_eq]
      exact ordered
    · rintro u m hne ⟨hConsuming, hHolding, hCollected⟩
      obtain ⟨hConsuming', hHolding'⟩ :=
        effect.keeps_consumer valid hCapacity hne hConsuming hHolding
      exact ⟨hConsuming', hHolding', hCollected.of_poppedBy (effect.poppedBy_ne hne)⟩
    · rintro t m ⟨producing, recorded, owning⟩
      exact effect.keeps_producer valid hCapacity producing recorded owning

/-- The consumer is between calls. -/
def Consumer.Quiet (l : Consumer α) : Prop := l.pc = .idle ∨ l.pc = .returned

/-- All threads have finished their calls. -/
def Finished (c : Config (π ⊕ γ) (State π γ α) (Producer α ⊕ Consumer α)) : Prop :=
  (∀ t l, c.here (.inl t) = .inl l → l.Quiet) ∧ ∀ r l, c.here (.inr r) = .inr l → l.Quiet

/-- Ticket `p` was accepted and no pop has returned its element. -/
def Unread (s : State π γ α) (p : Nat) : Prop :=
  p < s.pushed.length ∧ ∀ result ∈ s.popped, result.ticket ≠ p

/-- Once all calls are finished, an accepted ticket that no pop returned is waiting
for a reader in its slot, and the slots hold nothing else. -/
theorem Reachable.inside (hCapacity : 2 ≤ capacity) (reach : Reachable capacity c)
    (finished : Finished c) :
    (∀ p entry, Unread c.shared p → c.shared.pushed[p]? = some entry →
      c.shared.storage (p % capacity) = some entry.value ∧
        c.shared.sequence (p % capacity) = p + 1) ∧
    ∀ i element, i < capacity → c.shared.storage i = some element →
      ∃ p entry, p % capacity = i ∧ Unread c.shared p ∧ c.shared.pushed[p]? = some entry ∧
        entry.value = element := by
  have outlined := reach.outlined hCapacity
  obtain ⟨⟨valid, _, claimed⟩, producers, consumers⟩ := outlined
  have hStage : ∀ p, c.shared.stage p ≠ .free → c.shared.stage p ≠ .retired →
      c.shared.stage p = .published := by
    intro p hFree hRetired
    cases h : c.shared.stage p with
    | free => exact absurd h hFree
    | retired => exact absurd h hRetired
    | published => rfl
    | reserved t =>
        obtain ⟨l, hHere, _, _, owning⟩ := producers t
        have hTicket := owning p h
        rw [(finished.1 t l hHere).ticket] at hTicket
        cases hTicket
    | claimed r =>
        obtain ⟨l, hHere, _, holding, _⟩ := consumers r
        have hTicket := holding p h
        obtain hQuiet | hQuiet := finished.2 r l hHere <;> simp [hQuiet, PopPc.ticket] at hTicket
  have hRead : ∀ p, c.shared.stage p = .retired ↔ ∃ result ∈ c.shared.popped, result.ticket = p := by
    refine fun p => ⟨claimed.retired_popped p, ?_⟩
    rintro ⟨result, hMem, rfl⟩
    exact (claimed.popped_retired result hMem).1
  constructor
  · rintro p entry ⟨hLt, hUnread⟩ hEntry
    have hPublished := hStage p (fun h => by
      have := (valid.free_iff p).mp h
      have := valid.pushed_length
      omega) fun h => by
        obtain ⟨result, hMem, hTicket⟩ := (hRead p).mp h
        exact hUnread result hMem hTicket
    refine ⟨?_, valid.occupied p 1 (by simp [hPublished])⟩
    rw [valid.readable p hPublished, hEntry]
    rfl
  · intro i element hSlot hStored
    obtain ⟨p, hMod, hFree, hRetired⟩ := valid.ticket_of_stored hSlot hStored
    have hElement := valid.readable p (hStage p hFree hRetired)
    rw [hMod, hStored] at hElement
    obtain ⟨entry, hEntry, hValue⟩ := Option.map_eq_some_iff.mp hElement.symm
    refine ⟨p, entry, hMod, ⟨(List.getElem?_eq_some_iff.mp hEntry).1, fun result hMem hTicket => ?_⟩,
      hEntry, hValue⟩
    exact hRetired ((hRead p).mpr ⟨result, hMem, hTicket⟩)

/-- A slot that holds an element is written to by no step; only the consumer that
claimed the element's ticket takes it out. -/
theorem Reachable.storage_kept (hCapacity : 2 ≤ capacity) (reach : Reachable capacity c)
    {thread : π ⊕ γ} {choice : PushChoice α ⊕ PopChoice}
    {d : Config (π ⊕ γ) (State π γ α) (Producer α ⊕ Consumer α)}
    (h : (step capacity).next c thread choice = some d) {i : Nat} {element : α}
    (hStored : c.shared.storage i = some element) : d.shared.storage i = some element ∨
      ∃ r l pos, thread = .inr r ∧ c.here thread = .inr l ∧ l.pc = .take pos ∧
        pos % capacity = i := by
  obtain ⟨_, producers, consumers⟩ := reach.outlined hCapacity
  obtain ⟨shared, place, hLocal, rfl⟩ := Program.next_eq_some.mp h
  cases thread with
  | inl t =>
      obtain ⟨l, hHere, producing, _⟩ := producers t
      rw [hHere] at hLocal
      cases choice with
      | inr choice => cases hLocal
      | inl choice =>
          obtain ⟨after, hStep, hAfter⟩ := Option.map_eq_some_iff.mp hLocal
          cases hAfter
          exact .inl ((push_effect producing hStep).storage hStored)
  | inr r =>
      obtain ⟨l, hHere, consuming, _⟩ := consumers r
      rw [hHere] at hLocal
      cases choice with
      | inl choice => cases hLocal
      | inr choice =>
          obtain ⟨after, hStep, hAfter⟩ := Option.map_eq_some_iff.mp hLocal
          cases hAfter
          rcases pop_storage hStep hStored with hKept | ⟨pos, hPc, hSlot⟩
          · exact .inl hKept
          · exact .inr ⟨r, l, pos, rfl, hHere, hPc, hSlot⟩

/-- The slot a consumer reads from is not one that a producer is writing. -/
theorem Reachable.reads_settled (hCapacity : 2 ≤ capacity) (reach : Reachable capacity c)
    {t : π} {r : γ} {l : Producer α} {k : Consumer α} {p pos : Nat}
    (hProducer : c.here (.inl t) = .inl l) (hConsumer : c.here (.inr r) = .inr k)
    (hWrite : l.pc.ticket = some p) (hRead : k.pc = .take pos) :
    p % capacity ≠ pos % capacity := by
  obtain ⟨⟨valid, _, _⟩, producers, consumers⟩ := reach.outlined hCapacity
  obtain ⟨l', hHere, producing, _⟩ := producers t
  obtain ⟨k', hThere, consuming, _⟩ := consumers r
  cases hProducer.symm.trans hHere
  cases hConsumer.symm.trans hThere
  have hReserved := producing.stage hWrite
  obtain ⟨_, _, pc⟩ := k
  simp only at hRead
  subst hRead
  have hClaimed : c.shared.stage pos = .claimed r := consuming.1
  intro hSlot
  have hSame := valid.occupied_injective hCapacity (j := 0) (k := 1) (by simp [hReserved])
    (by simp [hClaimed]) hSlot
  subst hSame
  rw [hReserved] at hClaimed
  cases hClaimed

/-- What the users of the queue are promised in one state of a run. -/
structure Faithful (capacity : Nat)
    (c : Config (π ⊕ γ) (State π γ α) (Producer α ⊕ Consumer α)) : Prop where
  accepted : ∀ t l msg, c.here (.inl t) = .inl l → l.pc = .returned msg true →
    ∃ pos : Nat, c.shared.pushed[pos]? = some (Entry.mk t l.calls msg)
  one_ticket : Ordered c.shared
  one_pop : (c.shared.popped.map Popped.ticket).Nodup
  pop_value : ∀ result ∈ c.shared.popped, ∃ entry,
    c.shared.pushed[result.ticket]? = some entry ∧ result.value = some entry.value
  pop_returns : ∀ r l, c.here (.inr r) = .inr l → l.pc = .returned →
    l.out <:+ c.shared.poppedBy r
  claim_order : c.shared.claims = List.range c.shared.head
  reads_settled : ∀ t l r k p pos, c.here (.inl t) = .inl l → c.here (.inr r) = .inr k →
    l.pc.ticket = some p → k.pc = .take pos → p % capacity ≠ pos % capacity
  unread_kept : ∀ thread choice d, (step capacity).next c thread choice = some d →
    ∀ i element, c.shared.storage i = some element → d.shared.storage i = some element ∨
      ∃ r l pos, thread = .inr r ∧ c.here thread = .inr l ∧ l.pc = .take pos ∧
        pos % capacity = i
  unread_inside : Finished c → ∀ p entry, Unread c.shared p → c.shared.pushed[p]? = some entry →
    c.shared.storage (p % capacity) = some entry.value ∧
      c.shared.sequence (p % capacity) = p + 1
  inside_unread : Finished c → ∀ i element, i < capacity →
    c.shared.storage i = some element → ∃ p entry, p % capacity = i ∧ Unread c.shared p ∧
      c.shared.pushed[p]? = some entry ∧ entry.value = element

abbrev Schedule := List ((Unit ⊕ Unit) × (PushChoice Nat ⊕ PopChoice))

/-- Two pushes of one producer, the second one still under way, and a pop. -/
def pushPushPop : List ((Unit ⊕ Unit) × (PushChoice Nat ⊕ PopChoice)) :=
  ((.inl (), .inl (.call 7)) :: List.replicate 5 (.inl (), .inl .go) : Schedule) ++
  ((.inl (), .inl (.call 8)) :: List.replicate 3 (.inl (), .inl .go) : Schedule) ++
  ((.inr (), .inr (.call 1)) :: List.replicate 5 (.inr (), .inr .go) : Schedule)

def afterPushPushPop : Config (Unit ⊕ Unit) (State Unit Unit Nat) (Producer Nat ⊕ Consumer Nat) :=
  ((step 2).replay anyStep initial pushPushPop).get (by decide)

end LockFreeMpmcQueue
