import V2Engine.Messages.Letters
import V2Engine.Interleaving.Program
import Mathlib.Data.Set.Card

/-! The calls on messages and mailboxes refine the calls on letters, and in every run of
them each payload and each block is accounted for. -/
namespace Messages

open Lifetime Interleaving

variable {ι μ V : Type*} [DecidableEq ι] [DecidableEq μ]

namespace Related

variable {held : Owner ι μ → Option (Option (Letter V))} {s s' : State ι μ V} {c : Contents ι μ V}

/-- What one call must show: it is the same call on letters. -/
abbrev Matched (op : Op ι μ V) (c : Contents ι μ V) (s' : State ι μ V) : Prop :=
  ∃ held' c', c.step op = some c' ∧ Related held' s' c'

theorem default (related : Related held s c) {m : ι} (h : step (.default m) s = some s') :
    Matched (.default m) c s' := by
  obtain ⟨hAbsent, hAfter⟩ := Option.ite_none_right_eq_some.mp h
  cases hAfter
  have hFree := (related.absent_iff m).mp hAbsent
  refine ⟨_, c.put m (some none), by simp [Contents.step, hFree], related.put m ?_ rfl⟩
  exact related.sound.replace (related.sound.vacant_of_absent ((related.objects m).trans hFree)) (.empty rfl)

theorem make (related : Related held s c) {m : ι} {T : PayloadType} {source : Forwarded} {v : V}
    {faults : Faults} (hContained : T.failing source faults = false)
    (h : step (.make m T source v faults) s = some s') : Matched (.make m T source v faults) c s' := by
  obtain ⟨⟨hAbsent, hSource, hServes⟩, hAfter⟩ := Option.ite_none_right_eq_some.mp h
  cases hAfter
  have hFree := (related.absent_iff m).mp hAbsent
  obtain ⟨msg, hMsg, hSound⟩ := related.sound.make
    (related.sound.vacant_of_absent ((related.objects m).trans hFree)) hServes hContained v
  refine ⟨_, c.put m (some (some ⟨T.kId, ⟨T, v⟩⟩)), ?_, related.put m ?_ rfl⟩
  · simp [Contents.step, hFree, hSource, hContained]
  · rw [← hMsg] at hSound
    exact hSound

theorem moveConstruct (related : Related held s c) {m o : ι}
    (h : step (.moveConstruct m o) s = some s') : Matched (.moveConstruct m o) c s' := by
  obtain ⟨hAbsent, hAfter⟩ := Option.ite_none_right_eq_some.mp h
  obtain ⟨other, hOther, _⟩ := Option.map_eq_some_iff.mp hAfter
  have hFree := (related.absent_iff m).mp hAbsent
  obtain ⟨carried, hCarried⟩ := (related.message_isSome o).mp ⟨other, hOther⟩
  have hne : m ≠ o := by
    rintro rfl
    simp [hFree] at hCarried
  obtain ⟨t, hMove, hMailboxes, hSound⟩ := related.sound.moveConstruct (by simpa using hne)
    ((related.objects m).trans hFree) ((related.objects o).trans hCarried)
  rw [hMove] at hAfter
  cases hAfter
  refine ⟨_, _, ?_, related.move hSound hMailboxes⟩
  simp [Contents.step, hFree, hCarried]

theorem moveAssign (related : Related held s c) {m o : ι}
    (h : step (.moveAssign m o) s = some s') : Matched (.moveAssign m o) c s' := by
  change s.moveAssign (.object m) (.object o) = some s' at h
  cases hMsg : s.messages (.object m) with
  | none => simp [State.moveAssign, hMsg] at h
  | some msg =>
      cases hOther : s.messages (.object o) with
      | none => simp [State.moveAssign, hMsg, hOther] at h
      | some other =>
          obtain ⟨was, hWas⟩ := (related.message_isSome m).mp ⟨msg, hMsg⟩
          obtain ⟨carried, hCarried⟩ := (related.message_isSome o).mp ⟨other, hOther⟩
          by_cases hne : m = o
          · subst hne
            simp only [State.moveAssign, hMsg, if_true, Option.some.injEq] at h
            subst h
            exact ⟨held, c, by simp [Contents.step, hWas], related⟩
          · obtain ⟨t, hMove, hMailboxes, hSound⟩ := related.sound.moveAssign (by simpa using hne)
              ((related.objects m).trans hWas) ((related.objects o).trans hCarried)
            rw [hMove] at h
            cases h
            refine ⟨_, _, ?_, related.move hSound hMailboxes⟩
            simp [Contents.step, hWas, hCarried, hne]

theorem clone (related : Related held s c) {m o : ι} {faults : Faults}
    (hContained : ∀ msg ∈ s.messages (.object o), msg.mode ≠ .empty →
      ∀ T ∈ msg.ops, T.leaking faults = false)
    (h : step (.clone m o faults) s = some s') : Matched (.clone m o faults) c s' := by
  obtain ⟨⟨hAbsent, hServes⟩, hAfter⟩ := Option.ite_none_right_eq_some.mp h
  obtain ⟨msg, hMsg, rfl⟩ := Option.map_eq_some_iff.mp hAfter
  have hFree := (related.absent_iff m).mp hAbsent
  obtain ⟨carried, hCarried⟩ := (related.message_isSome o).mp ⟨msg, hMsg⟩
  refine ⟨_, c.put m (Sound.copied faults carried), ?_, related.put m ?_ rfl⟩
  · simp [Contents.step, hFree, hCarried]
  · exact related.sound.clone (related.sound.vacant_of_absent ((related.objects m).trans hFree)) hMsg
      ((related.objects o).trans hCarried) hServes (hContained msg hMsg)

theorem destroy (related : Related held s c) {m : ι} (h : step (.destroy m) s = some s') :
    Matched (.destroy m) c s' := by
  obtain ⟨msg, hMsg, _⟩ := Option.map_eq_some_iff.mp h
  obtain ⟨carried, hCarried⟩ := (related.message_isSome m).mp ⟨msg, hMsg⟩
  obtain ⟨t, hDestroy, hMailboxes, hSound⟩ :=
    related.sound.destroyed ((related.objects m).trans hCarried)
  change s.destroy (.object m) = some s' at h
  rw [hDestroy] at h
  cases h
  exact ⟨_, c.put m none, by simp [Contents.step, hCarried], related.put m hSound hMailboxes⟩

theorem openMailbox (related : Related held s c) {q : μ} {capacity : Nat}
    (h : step (.open q capacity) s = some s') : Matched (.open q capacity) c s' := by
  obtain ⟨⟨hClosed, hCapacity⟩, hAfter⟩ := Option.ite_none_right_eq_some.mp h
  cases hAfter
  have hShelved := related.mailboxes q
  rw [hClosed] at hShelved
  cases hItems : c.mailboxes q with
  | some b =>
      rw [hItems] at hShelved
      exact hShelved.elim
  | none =>
      rw [hItems] at hShelved
      refine ⟨held, c.setMailbox q (some (capacity, [])), by simp [Contents.step, hItems, hCapacity], ?_⟩
      constructor
      case sound => exact related.sound
      case objects => exact related.objects
      case mailboxes =>
        intro r
        by_cases hr : r = q
        · subst hr
          simpa [State.setMailbox, Contents.setMailbox] using Shelved.opened hShelved hCapacity
        · simpa [State.setMailbox, Contents.setMailbox, hr] using related.mailboxes r

theorem push (related : Related held s c) {q : μ} {o : ι}
    (hRoomy : ∀ b ∈ s.mailboxes q, 2 ≤ b.capacity ∨ b.tail = b.head)
    (h : step (.push q o) s = some s') : Matched (.push q o) c s' := by
  obtain ⟨hPresent, hBind⟩ := Option.ite_none_left_eq_some.mp h
  obtain ⟨b, hMailbox, hAfter⟩ := Option.bind_eq_some_iff.mp hBind
  obtain ⟨carried, hCarried⟩ := (related.message_isSome o).mp (Option.ne_none_iff_exists'.mp hPresent)
  have hShelved := related.mailboxes q
  rw [hMailbox] at hShelved
  cases hItems : c.mailboxes q with
  | none =>
      rw [hItems] at hShelved
      exact hShelved.elim
  | some entry =>
      obtain ⟨capacity, items⟩ := entry
      rw [hItems] at hShelved
      obtain ⟨hWaits, hFull⟩ := hShelved.sequence_tail (hRoomy b hMailbox)
      by_cases hRoom : items.length < capacity
      · obtain ⟨t, hMove, hMailboxes, hSound⟩ := related.sound.moveConstruct (m := .slot q _)
          (by simp) (hShelved.slot_tail hRoom) ((related.objects o).trans hCarried)
        simp only [State.push, hWaits hRoom, if_true, hMove, Option.map_some, Option.some.injEq] at hAfter
        subst hAfter
        refine ⟨_, (c.setMailbox q (some (capacity, items ++ [carried]))).put o (some none), ?_,
          related.transfer (b := some b.pushed) q o hSound ?_ ?_ ?_ ?_⟩
        · simp [Contents.step, hItems, hCarried, hRoom]
        · simp only [State.setMailbox, hMailboxes]
        · intro n
          by_cases hn : n = o <;> simp [hn]
        · intro r i hr
          simp [hr]
        · apply hShelved.pushed hRoom
          funext i
          by_cases hi : i = b.tail % b.capacity <;> simp [hi]
      · have hLess := hFull hRoom
        simp only [State.push, if_neg (Nat.ne_of_lt hLess), hLess, if_true, Option.some.injEq] at hAfter
        subst hAfter
        exact ⟨held, c, by simp [Contents.step, hItems, hCarried, hRoom], related⟩

theorem pop (related : Related held s c) {q : μ} {out : ι} (h : step (.pop q out) s = some s') :
    Matched (.pop q out) c s' := by
  obtain ⟨hPresent, hBind⟩ := Option.ite_none_left_eq_some.mp h
  obtain ⟨b, hMailbox, hAfter⟩ := Option.bind_eq_some_iff.mp hBind
  obtain ⟨was, hWas⟩ := (related.message_isSome out).mp (Option.ne_none_iff_exists'.mp hPresent)
  have hShelved := related.mailboxes q
  rw [hMailbox] at hShelved
  cases hItems : c.mailboxes q with
  | none =>
      rw [hItems] at hShelved
      exact hShelved.elim
  | some entry =>
      obtain ⟨capacity, items⟩ := entry
      rw [hItems] at hShelved
      have hReady := hShelved.sequence_head
      cases items with
      | nil =>
          simp only [State.pop, hReady, ne_eq, not_true_eq_false, if_false, Option.some.injEq] at hAfter
          subst hAfter
          exact ⟨held, c, by simp [Contents.step, hItems, hWas], related⟩
      | cons carried items =>
          obtain ⟨t, hMove, hMailboxes, hSound⟩ := related.sound.moveAssign (m := .object out)
            (o := .slot q (b.head % b.capacity)) (by simp) ((related.objects out).trans hWas)
            hShelved.slot_head
          have hEmptied : Function.update (Function.update held (.object out) (some carried))
              (.slot q (b.head % b.capacity)) (some none) (.slot q (b.head % b.capacity)) = some none :=
            Function.update_self ..
          obtain ⟨u, hDestroy, hMailboxes', hSound'⟩ := hSound.destroyed hEmptied
          simp only [State.pop, hReady, ne_eq, reduceCtorEq, not_false_eq_true, if_true, hMove,
            Option.bind_some, hDestroy, Option.map_some, Option.some.injEq] at hAfter
          subst hAfter
          rw [Function.update_idem] at hSound'
          refine ⟨_, (c.setMailbox q (some (capacity, items))).put out (some carried), ?_,
            related.transfer (b := some b.popped) q out hSound' ?_ ?_ ?_ ?_⟩
          · simp [Contents.step, hItems, hWas]
          · simp only [State.setMailbox, hMailboxes', hMailboxes]
          · intro n
            by_cases hn : n = out <;> simp [hn]
          · intro r i hr
            simp [hr]
          · apply hShelved.popped
            funext i
            by_cases hi : i = b.head % b.capacity <;> simp [hi]

theorem close (related : Related held s c) {q : μ} (h : step (.close q) s = some s') :
    Matched (.close q) c s' := by
  obtain ⟨b, hMailbox, hAfter⟩ := Option.bind_eq_some_iff.mp h
  have hShelved := related.mailboxes q
  rw [hMailbox] at hShelved
  cases hItems : c.mailboxes q with
  | none =>
      rw [hItems] at hShelved
      exact hShelved.elim
  | some entry =>
      obtain ⟨capacity, items⟩ := entry
      rw [hItems] at hShelved
      obtain ⟨hCapacity, hPositive, hRing, hOutside⟩ := hShelved
      subst hCapacity
      have hTail : b.tail = b.head + items.length := hRing.tail_eq
      have hStored : ∀ k carried, items[k]? = some carried →
          b.sequence ((b.head + k) % b.capacity) = b.head + k + 1 ∧
            held (.slot q ((b.head + k) % b.capacity)) = some carried :=
        fun k carried hElement => hRing.stored k carried hElement
      obtain ⟨t, held', hDrain, hMailboxes, hSound, hGone, hOther⟩ :=
        related.sound.drained hRing.length_le hStored
      rw [show b.tail - b.head = items.length by omega, hDrain] at hAfter
      cases hAfter
      refine ⟨held', c.setMailbox q none, by simp [Contents.step, hItems], ?_⟩
      constructor
      case sound => exact hSound
      case objects =>
        intro m
        rw [hOther _ (by simp)]
        exact related.objects m
      case mailboxes =>
        intro r
        by_cases hr : r = q
        · subst hr
          simp only [State.setMailbox, Contents.setMailbox, Function.update_self]
          intro i
          show held' (.slot r i) = none
          by_cases hi : i < b.capacity
          · obtain ⟨k, hk, rfl⟩ := TicketRing.exists_ticket b.head hi
            by_cases hStored : k < items.length
            · exact hGone k hStored
            · rw [hOther]
              · exact (hRing.free k (Nat.le_of_not_lt hStored) hk).2
              · intro j hj hSame
                have := TicketRing.slot_inj hk (by omega) (Owner.slot.inj hSame).2
                omega
          · rw [hOther]
            · exact hOutside i (Nat.le_of_not_lt hi)
            · intro j _ hSame
              have hLt := Nat.mod_lt (b.head + j) (Nat.pos_of_ne_zero hPositive)
              have := (Owner.slot.inj hSame).2
              omega
        · have hSlots : (fun i => held' (.slot r i)) = fun i => held (.slot r i) := by
            funext i
            exact hOther _ (by simp [hr])
          simpa [State.setMailbox, Contents.setMailbox, hr, hSlots, hMailboxes] using
            related.mailboxes r

/-- Every call of the program is the same call on letters. -/
theorem step (related : Related held s c) {op : Op ι μ V} (hCareful : careful s op)
    (h : step op s = some s') : Matched op c s' := by
  obtain ⟨hContained, hRoomy⟩ := hCareful
  cases op with
  | default m => exact related.default h
  | make m T source v faults => exact related.make hContained h
  | moveConstruct m other => exact related.moveConstruct h
  | moveAssign m other => exact related.moveAssign h
  | clone m other faults => exact related.clone hContained h
  | destroy m => exact related.destroy h
  | «open» q capacity => exact related.openMailbox h
  | push q other => exact related.push hRoomy h
  | pop q out => exact related.pop h
  | close q => exact related.close h

end Related

/-- What a message carries, read off its own fields. -/
def Message.letter {ω : Type*} [DecidableEq ω] (msg : Message) (m : ω) (h : Heap ω V) :
    Option (Letter V) :=
  if msg.mode = .empty then none
  else ((msg.data m).bind h.objects.find).map fun o => ⟨msg.id, o⟩

namespace State

def held (s : State ι μ V) (m : Owner ι μ) : Option (Option (Letter V)) :=
  (s.messages m).map fun msg => msg.letter m s.heap

/-- The letters in a state: those of the objects, and those of the slots from head to tail. -/
def contents (s : State ι μ V) : Contents ι μ V where
  objects m := s.held (.object m)
  mailboxes q := (s.mailboxes q).map fun b => (b.capacity,
    (List.range (b.tail - b.head)).map fun k => (s.held (.slot q ((b.head + k) % b.capacity))).join)

/-- The storage a message keeps its payload in. -/
def home (s : State ι μ V) (m : Owner ι μ) : Place (Owner ι μ) :=
  ((s.messages m).bind fun msg => msg.data m).getD (.inlineData m)

end State

theorem Sound.held_eq {s : State ι μ V} {held : Owner ι μ → Option (Option (Letter V))}
    (sound : Sound s.heap s.messages held) : s.held = held := by
  funext m
  have holds := sound.holds m
  unfold State.held
  generalize s.messages m = x at holds
  generalize held m = y at holds
  cases holds with
  | absent hFree => rfl
  | empty hMode hFree => simp [Message.letter, hMode]
  | inline hMode hOps hFits hFind => simp [Message.letter, hMode, Message.data, hFind]
  | pool hMode hOps hFits hPtr hAllocator hFind hBlock hFree =>
      simp [Message.letter, hMode, Message.data, hPtr, hFind]

/-- The letters that a state is related to are those in it. -/
theorem Related.contents_eq {s : State ι μ V} {c : Contents ι μ V}
    {held : Owner ι μ → Option (Option (Letter V))} (related : Related held s c) : s.contents = c := by
  have hHeld := related.sound.held_eq
  obtain ⟨objects, mailboxes⟩ := c
  simp only [State.contents, Contents.mk.injEq]
  constructor
  · funext m
    rw [hHeld]
    exact related.objects m
  · funext q
    have hShelved := related.mailboxes q
    rw [hHeld]
    change Shelved _ _ (mailboxes q) at hShelved
    generalize s.mailboxes q = x at hShelved
    generalize mailboxes q = y at hShelved
    match x, y, hShelved with
    | none, none, _ => rfl
    | some b, some (capacity, items), ⟨hCapacity, _, hRing, _⟩ =>
        subst hCapacity
        have hTail : b.tail = b.head + items.length := hRing.tail_eq
        simp only [Option.map_some, Option.some.injEq, Prod.mk.injEq, true_and]
        apply List.ext_getElem
        · simp [hTail]
        · intro k hk hk'
          have hStored : held (.slot q ((b.head + k) % b.capacity)) = some items[k] :=
            (hRing.stored k _ (List.getElem?_eq_getElem hk')).2
          simp [hStored]

/-- Each payload constructed and each block allocated is accounted for, and each call
does to the letters what it is for. -/
structure Accounted (s : State ι μ V) : Prop where
  /-- As many payloads live as messages are not empty. -/
  balance : {place | s.heap.objects.find place ≠ none}.encard =
    {m | ∃ msg, s.messages m = some msg ∧ msg.mode ≠ .empty}.encard
  /-- A payload constructed so far lives at one place or has been destroyed once. -/
  payloads : ∀ n, n < s.heap.objects.born →
    (s.heap.objects.ended.count n = 0 ∧ ∃! place, ∃ o, s.heap.objects.living place = some (n, o)) ∨
      (s.heap.objects.ended.count n = 1 ∧ ∀ place o, s.heap.objects.living place ≠ some (n, o))
  /-- A block allocated so far is in use once or has been given back once. -/
  blocks : ∀ n, n < s.heap.blocks.born →
    (s.heap.blocks.ended.count n = 0 ∧ ∃! p, ∃ b, s.heap.blocks.living p = some (n, b)) ∨
      (s.heap.blocks.ended.count n = 1 ∧ ∀ p b, s.heap.blocks.living p ≠ some (n, b))
  /-- No destructor ran where no payload of its type lived, and every block was given back
  to its allocator with its own size and alignment. -/
  strays : s.heap.objects.strays = 0 ∧ s.heap.blocks.strays = 0
  /-- What is made, moved, copied and queued keeps its id and its value. -/
  calls : ∀ op s', careful s op → step op s = some s' → s.contents.step op = some s'.contents

namespace Sound

variable {s : State ι μ V} {held : Owner ι μ → Option (Option (Letter V))}

omit [DecidableEq ι] [DecidableEq μ] in
/-- A message that is not empty has a payload, at home. -/
theorem home_spec (sound : Sound s.heap s.messages held) {m : Owner ι μ} {msg : Message}
    (hMsg : s.messages m = some msg) (hMode : msg.mode ≠ .empty) :
    s.heap.objects.find (s.home m) ≠ none ∧
      ((s.home m = .inlineData m) ∨ ∃ p, s.home m = .block p ∧ Owns s.messages m p) := by
  have holds := sound.holds m
  rw [hMsg] at holds
  generalize held m = y at holds
  cases holds with
  | empty hEmpty => exact absurd hEmpty hMode
  | inline hInline hOps hFits hFind =>
      have hHome : s.home m = .inlineData m := by simp [State.home, hMsg, Message.data, hInline]
      exact ⟨by simp [hHome, hFind], .inl hHome⟩
  | @pool _ o p a hPool hOps hFits hPtr hAllocator hFind hBlock hFree =>
      have hHome : s.home m = .block p := by simp [State.home, hMsg, Message.data, hPool, hPtr]
      exact ⟨by simp [hHome, hFind], .inr ⟨p, hHome, msg, hMsg, hPool, hPtr⟩⟩

omit [DecidableEq ι] [DecidableEq μ] in
/-- Homes are not shared. -/
theorem home_injOn (sound : Sound s.heap s.messages held) :
    Set.InjOn s.home {m | ∃ msg, s.messages m = some msg ∧ msg.mode ≠ .empty} := by
  rintro m ⟨msg, hMsg, hMode⟩ m' ⟨msg', hMsg', hMode'⟩ hSame
  rcases (sound.home_spec hMsg hMode).2 with hHome | ⟨p, hHome, hOwns⟩ <;>
    rcases (sound.home_spec hMsg' hMode').2 with hHome' | ⟨p', hHome', hOwns'⟩
  · rw [hHome, hHome'] at hSame
    exact Place.inlineData.inj hSame
  · rw [hHome, hHome'] at hSame
    cases hSame
  · rw [hHome, hHome'] at hSame
    cases hSame
  · rw [hHome, hHome'] at hSame
    cases hSame
    exact sound.apart hOwns hOwns'

omit [DecidableEq ι] [DecidableEq μ] in
/-- Every payload that lives is at home in a message. -/
theorem home_image (sound : Sound s.heap s.messages held) :
    s.home '' {m | ∃ msg, s.messages m = some msg ∧ msg.mode ≠ .empty} =
      {place | s.heap.objects.find place ≠ none} := by
  apply Set.Subset.antisymm
  · rintro _ ⟨m, ⟨msg, hMsg, hMode⟩, rfl⟩
    exact (sound.home_spec hMsg hMode).1
  · intro place hLive
    cases place with
    | block p =>
        obtain ⟨o, hFind⟩ := Option.ne_none_iff_exists'.mp hLive
        obtain ⟨m, msg, hMsg, hMode, hPtr⟩ := sound.ownedObject hFind
        refine ⟨m, ⟨msg, hMsg, by simp [hMode]⟩, ?_⟩
        simp [State.home, hMsg, Message.data, hMode, hPtr]
    | inlineData m =>
        have holds := sound.holds m
        generalize hMsg : s.messages m = x at holds
        generalize held m = y at holds
        cases holds with
        | absent hFree => exact absurd hFree hLive
        | empty hMode hFree => exact absurd hFree hLive
        | inline hMode hOps hFits hFind =>
            exact ⟨m, ⟨_, hMsg, by simp [hMode]⟩, by simp [State.home, hMsg, Message.data, hMode]⟩
        | pool _ _ _ _ _ _ _ hFree => exact absurd hFree hLive

end Sound

/-- Every run of careful calls is a run of the same calls on letters. -/
theorem refines {s : State ι μ V} (reach : Calls step (· = .initial) careful s) :
    ∃ c, Calls Contents.step (· = .initial) anyCall c ∧ ∃ held, Related held s c := by
  apply Calls.simulated (R := fun s c => ∃ held, Related held s c) _ _ reach
  · rintro s rfl
    exact ⟨.initial, rfl, _, Related.initial⟩
  · rintro s op s' c ⟨held, related⟩ hCareful hStep
    obtain ⟨held', c', hSpec, hRelated⟩ := related.step hCareful hStep
    exact ⟨c', hSpec, held', hRelated⟩

theorem payloads_accounted {s : State ι μ V} (reach : Calls step (· = .initial) careful s) :
    Accounted s := by
  obtain ⟨c, _, held, related⟩ := refines reach
  have hStrays : s.heap.objects.strays + s.heap.blocks.strays = 0 := related.sound.strays
  exact {
    balance := by rw [← related.sound.home_image, related.sound.home_injOn.encard_image]
    payloads := fun n hn => related.sound.objects.exactly_once hn
    blocks := fun n hn => related.sound.blocks.exactly_once hn
    strays := by omega
    calls := fun op s' hCareful hStep => by
      obtain ⟨held', c', hSpec, hRelated⟩ := related.step hCareful hStep
      rwa [related.contents_eq, hRelated.contents_eq] }

section Runs

/-- A payload small enough for the inline bytes, and one that is not. -/
def inlineCopyable : PayloadType := ⟨0, 1, 4, 4, true, true⟩

def poolCopyable : PayloadType := ⟨1, 2, 128, 4, true, true⟩

def noFaults (p : Nat) : Faults := ⟨.block p, false⟩

/-- Two messages are made, one is cloned, the clone goes through a mailbox and is assigned
over the other message, and everything is destroyed. -/
def cloneAndQueue : List (Op (Fin 3) Unit Nat) :=
  [.open () 2, .make 0 inlineCopyable .lvalue 42 (noFaults 8), .make 1 poolCopyable .rvalue 15 (noFaults 8),
    .clone 2 1 (noFaults 9), .push () 2, .moveAssign 0 0, .pop () 0, .destroy 1, .moveAssign 2 0,
    .destroy 2, .destroy 0, .close ()]

def afterCloneAndQueue : State (Fin 3) Unit Nat :=
  (Calls.replay step careful .initial cloneAndQueue).get (by decide +kernel)

theorem payloads_accounted_cloneAndQueue : Accounted afterCloneAndQueue ∧
    afterCloneAndQueue.heap.objects.born = 3 ∧ afterCloneAndQueue.heap.blocks.ended = [1, 0] :=
  ⟨payloads_accounted (.of_replay (.start rfl) (Option.some_get _).symm), by decide +kernel⟩

/-- Two messages are pushed into a mailbox of one slot. -/
def pushTwice : List (Op (Fin 2) Unit Nat) :=
  [.open () 1, .make 0 inlineCopyable .rvalue 1 (noFaults 8), .push () 0,
    .make 1 inlineCopyable .rvalue 2 (noFaults 8), .push () 1]

def afterPushTwice : State (Fin 2) Unit Nat :=
  (Calls.replay step contained .initial pushTwice).get (by decide +kernel)

/-- What the payload constructors and destructors of that run leave. -/
def leftOver : Place (Owner (Fin 2) Unit) → Option (Nat × Object Nat) :=
  let nothing : Place (Owner (Fin 2) Unit) → Option (Nat × Object Nat) := fun _ => none
  let first := Function.update nothing (.inlineData (.object 0)) (some (0, ⟨inlineCopyable, 1⟩))
  let pushed := Function.update first (.inlineData (.slot () 0)) (some (1, ⟨inlineCopyable, 1⟩))
  let moved := Function.update pushed (.inlineData (.object 0)) none
  let second := Function.update moved (.inlineData (.object 1)) (some (2, ⟨inlineCopyable, 2⟩))
  let overwritten := Function.update second (.inlineData (.slot () 0)) (some (3, ⟨inlineCopyable, 2⟩))
  Function.update overwritten (.inlineData (.object 1)) none

theorem living_afterPushTwice : afterPushTwice.heap.objects.living = leftOver := rfl

/-- The payload of the message that is overwritten is lost: it has not been destroyed, and
it lives nowhere. -/
theorem not_accounted_afterPushTwice :
    Calls step (· = .initial) contained afterPushTwice ∧ ¬Accounted afterPushTwice := by
  refine ⟨.of_replay (.start rfl) (Option.some_get _).symm, fun accounted => ?_⟩
  rcases accounted.payloads 1 (by decide +kernel) with ⟨_, place, ⟨o, hLiving⟩, _⟩ | ⟨hEnded, _⟩
  · rw [living_afterPushTwice] at hLiving
    simp only [leftOver, Function.update_apply] at hLiving
    grind
  · have hNever : afterPushTwice.heap.objects.ended.count 1 = 0 := by decide +kernel
    omega

end Runs

end Messages
