import V2Engine.Container.MpscOrders

/-! One actor with the memory orders of its mailbox and of its in-flight slot. Threads send
to it and run it; a thread that runs it may send to it too. What it is about: the relaxed
head of the mailbox and the plain data of the actor pass from worker to worker, and a worker
that gives the token back looks at the mailbox with relaxed loads.

The queues of the dispatcher are a bag of entries here that is never full, each with what its
pusher knew: a consumer of `LockFreeMpmcQueue` knows at least that. No other actor shares the
in-flight slot. Actors that were shut down are left out, and loads whose value decides nothing. -/
namespace TokenOrders

open TicketRing LockFreeQueue LockFreeMpscQueue WeakMemory Interleaving

variable {Θ α δ ω : Type*}

/-- The data of the actor, and that of the threads that send to it. -/
abbrev Data (δ ω : Type*) := Plain (δ ⊕ ω)

abbrev Sight (δ ω : Type*) := View (Atomic Unit) (Data δ ω)

/-- The atomic of the in-flight slot. -/
abbrev heldSlot : Atomic Unit := .other ()

/-- Where a thread stands in `ActorRuntime::enqueue`. -/
inductive SendPc where
  | push
  | claim (ticket : ℕ)
  | enqueueEntry

/-- Where a thread stands in `ActorRuntime::run`, away from this actor otherwise. -/
inductive RunPc (α : Type*) where
  | away
  | popping (processed : Int) (drains : Bool) (consumer : Consumer α)
  | handling (processed : Int) (element : Option α)
  | restarting
  | releaseInFlight
  | countHead
  | countTail (head : ℕ)
  | claimInFlight
  | redispatch

structure Thread (α δ ω : Type*) where
  view : Sight δ ω
  producer : Producer α
  send : SendPc
  run : RunPc α

def Thread.start : Thread α δ ω := ⟨⊥, .start, .push, .away⟩

/-- Where the token is: given back by some thread last, on its way to a queue with one, in a
queue, or with the thread that runs the actor. -/
inductive Token (Θ : Type*) where
  | free (by' : Option Θ)
  | carried (t : Θ)
  | ready
  | held (t : Θ)

/-- `token` and `announced` are history: whose push has come to the exchange. -/
structure Shared (Θ α δ ω : Type*) where
  queue : LockFreeQueue.Shared Θ Unit α Unit (δ ⊕ ω)
  ready : List (Sight δ ω)
  token : Token Θ
  announced : ℕ → Bool

def Shared.initial : Shared Θ α δ ω := ⟨.initial, [], .free none, fun _ => false⟩

/-- `enqueueEntry`, into whichever queue. -/
def Shared.handOver (s : Shared Θ α δ ω) (V : Sight δ ω) : Shared Θ α δ ω :=
  { s with ready := s.ready ++ [V], token := .ready }

inductive Choice (α δ ω : Type*) where
  | send (choice : WeakPushChoice α (δ ⊕ ω))
  | acquire (entry : ℕ)
  | go (time : ℕ)
  | use (d : δ) (content : Option α)
  | returns
  | throws

/-- A push that was accepted goes on to the dispatcher. -/
def SendPc.after : PushPc α → SendPc
  | .publish _ pos => .claim pos
  | _ => .push

/-- One call of `mailbox_->pop`. -/
def popOne : Consumer α := ⟨1, [], .loadHead⟩

/-- The head of the loop in `processBatch`. -/
def RunPc.batch (maxBatch processed : Int) : RunPc α :=
  if maxBatch < 0 ∨ processed < maxBatch then .popping processed false popOne else .releaseInFlight

/-- What becomes of a pop that is over: the loop of `processBatch`, or the one in which
`onActorFailed` takes the remaining messages out. -/
def RunPc.popped (processed : Int) : Bool → List (Option α) → RunPc α
  | false, [] => .releaseInFlight
  | false, element :: _ => .handling processed element
  | true, [] => .restarting
  | true, _ :: _ => .popping processed true popOne

section Program

variable [DecidableEq δ] [DecidableEq ω]

/-- `enqueue` and `dispatch`. The data of the actor is not the senders'. -/
def enqueue (capacity : Nat) (t : Θ) (s : Shared Θ α δ ω) (l : Thread α δ ω)
    (choice : WeakPushChoice α (δ ⊕ ω)) : Option (Shared Θ α δ ω × Thread α δ ω) :=
  match l.send, choice with
  | .push, .use (.inl _) _ => none
  | .push, choice =>
      (weakPush capacity t s.queue ⟨l.view, l.producer⟩ choice).map fun (queue, after) =>
        ({ s with queue := queue }, { l with
          view := after.view
          producer := after.place
          send := .after l.producer.pc })
  | .claim ticket, .go time =>
      (s.queue.memory.exchange .acqRel heldSlot 1 time l.view).map fun (before, memory, view) =>
        let s' : Shared Θ α δ ω := { s with
          queue := { s.queue with memory := memory }
          announced := Function.update s.announced ticket true }
        if before = 0 then
          ({ s' with token := .carried t }, { l with view := view, send := .enqueueEntry })
        else (s', { l with view := view, send := .push })
  | .enqueueEntry, .go _ => some (s.handOver l.view, { l with send := .push })
  | _, _ => none

/-- `acquire`, `run` and `settleToken`. -/
def work (capacity : Nat) (maxBatch : Int) (t : Θ) (s : Shared Θ α δ ω) (l : Thread α δ ω)
    (choice : Choice α δ ω) : Option (Shared Θ α δ ω × Thread α δ ω) :=
  match l.run, choice with
  | .away, .acquire entry =>
      (s.ready[entry]?).map fun view =>
        ({ s with ready := s.ready.eraseIdx entry, token := .held t },
          { l with view := l.view ⊔ view, run := .batch maxBatch 0 })
  | .popping processed drains ⟨_, out, .returned⟩, .go _ =>
      some (s, { l with run := .popped processed drains out })
  | .popping processed drains consumer, .go time =>
      (weakPop capacity s.queue ⟨l.view, consumer⟩ (.go time)).map fun (queue, after) =>
        ({ s with queue := queue },
          { l with view := after.view, run := .popping processed drains after.place })
  | .handling _ _, .use d content | .restarting, .use d content =>
      let used := s.queue.use (.client (.inl d)) content l.view
      some ({ s with queue := used.1 }, { l with view := used.2 })
  | .handling processed _, .returns => some (s, { l with run := .batch maxBatch (processed + 1) })
  | .handling processed _, .throws => some (s, { l with run := .popping processed true popOne })
  | .restarting, .returns => some (s, { l with run := .releaseInFlight })
  | .releaseInFlight, .go time =>
      (s.queue.memory.exchange .acqRel heldSlot 0 time l.view).map fun (_, memory, view) =>
        ({ s with queue := { s.queue with memory := memory }, token := .free (some t) },
          { l with view := view, run := .countHead })
  | .countHead, .go time =>
      (s.queue.memory.load .relaxed .head time l.view).map fun (head, view) =>
        (s, { l with view := view, run := .countTail head })
  | .countTail head, .go time =>
      (s.queue.memory.load .relaxed .tail time l.view).map fun (tail, view) =>
        (s, { l with view := view, run := if tail ≠ head then .claimInFlight else .away })
  | .claimInFlight, .go time =>
      (s.queue.memory.exchange .acqRel heldSlot 1 time l.view).map fun (before, memory, view) =>
        let s' : Shared Θ α δ ω := { s with queue := { s.queue with memory := memory } }
        if before = 0 then
          ({ s' with token := .carried t }, { l with view := view, run := .redispatch })
        else (s', { l with view := view, run := .away })
  | .redispatch, .go _ => some (s.handOver l.view, { l with run := .away })
  | _, _ => none

/-- No call of `enqueue` is under way. -/
def Thread.sent (l : Thread α δ ω) : Bool :=
  match l.send, l.producer.pc with
  | .push, .idle | .push, .returned _ _ => true
  | _, _ => false

/-- A thread sends when it does not run the actor, or from within the actor's own code. -/
def RunPc.sends : RunPc α → Bool
  | .away | .handling _ _ | .restarting => true
  | _ => false

def step (capacity : Nat) (maxBatch : Int) :
    Program Θ (Shared Θ α δ ω) (Thread α δ ω) (Choice α δ ω) :=
  fun t s l choice => match choice with
    | .send choice => if l.run.sends then enqueue capacity t s l choice else none
    | choice => if l.sent then work capacity maxBatch t s l choice else none

end Program

/-- Enough is known to run the actor. -/
structure Covers (s : Shared Θ α δ ω) (V : Sight δ ω) : Prop where
  current : s.queue.memory.Current V .head
  data : ∀ d, s.queue.memory.Settled V (.client (.inl d))
  received : Received s.queue V

/-- No pop is under way. -/
def Between (ring : State Θ Unit α) : Prop := ring.head = ring.popped.length ∧ Unclaimed ring

/-- What the last exchange of the in-flight slot says and shows. -/
structure Shows (s : Shared Θ α δ ω) (last : Message (Atomic Unit) (Data δ ω) ℕ) : Prop where
  free_iff : last.value = 0 ↔ ∃ t, s.token = .free t
  announced : ∀ p, s.announced p = true → p + 1 ≤ last.view (.inl .tail)
  covers : (∃ t, s.token = .free t) → Covers s last.view

/-- The shared part of the invariant. -/
structure Safe (capacity : Nat) (s : Shared Θ α δ ω) : Prop where
  agreeing : Agreeing capacity s.queue
  slot : ∃ n last, s.queue.memory.Solid heldSlot n last ∧ Shows s last
  ready : (∃ V, s.ready = [V] ∧ Covers s V ∧ s.token = .ready) ∨ (s.ready = [] ∧ s.token ≠ .ready)
  between : (∀ t, s.token ≠ .held t) → Between s.queue.ring
  unannounced : s.token = .free none → ∀ p, s.announced p = false

def RunPc.holds : RunPc α → Prop
  | .popping _ _ _ | .handling _ _ | .restarting | .releaseInFlight => True
  | _ => False

def Thread.carries (l : Thread α δ ω) : Prop := l.send = .enqueueEntry ∨ l.run = .redispatch

/-- A call of `pop` in the course of `popOne`. -/
def Single (k : Consumer α) : Prop :=
  match k.pc with
  | .idle => False
  | .loadHead | .loadSequence _ | .take _ => k.out = [] ∧ k.remaining = 1
  | .storeHead _ _ | .release _ _ => k.out.length = 1 ∧ k.remaining = 1
  | .returned => k.out.length ≤ 1

/-- What the thread that runs the actor knows. -/
def Running (capacity : Nat) (s : Shared Θ α δ ω) (l : Thread α δ ω) : Prop :=
  match l.run with
  | .popping _ _ consumer => Consumes capacity s.queue ⟨l.view, consumer⟩ ∧ Single consumer ∧
      ∀ d, s.queue.memory.Settled l.view (.client (.inl d))
  | .handling _ element => (Covers s l.view ∧ Between s.queue.ring) ∧
      (s.queue.ring.popped.map Popped.value).getLast? = some element
  | .restarting | .releaseInFlight => Covers s l.view ∧ Between s.queue.ring
  | _ => True

/-- After the token was given back: nothing announced is left, or this thread still looks,
and cannot overlook it. -/
def Rechecks (s : Shared Θ α δ ω) (l : Thread α δ ω) : Prop :=
  (∀ p, s.announced p = true → p < s.queue.ring.popped.length) ∨ l.run = .claimInFlight ∨
    (∀ p, s.announced p = true → p + 1 ≤ l.view (.inl .tail)) ∧
      (l.run = .countHead ∨ ∃ head, l.run = .countTail head ∧ head ≤ s.queue.ring.head)

/-- What a thread knows as a sender. -/
structure Sending (capacity : Nat) (q : LockFreeQueue.Shared Θ Unit α Unit (δ ⊕ ω)) (t : Θ)
    (V : Sight δ ω) (k : Producer α) : Prop where
  producing : Producing capacity q.ring t k
  recorded : Recorded q.ring t k
  owning : Owning q.ring t k
  sees : Sees capacity q ⟨V, k⟩
  ticket : ∀ pos, k.pc.ticket = some pos → pos + 1 ≤ V (.inl .tail)

/-- What a thread knows. -/
structure Knows (capacity : Nat) (s : Shared Θ α δ ω) (t : Θ) (l : Thread α δ ω) : Prop where
  sending : Sending capacity s.queue t l.view l.producer
  claim : ∀ pos, l.send = .claim pos → pos + 1 ≤ l.view (.inl .tail)
  duty : ∀ (p : ℕ) entry, s.queue.ring.pushed[p]? = some entry → entry.producer = t →
    s.announced p = false → l.producer.pc.ticket = some p ∨ l.send = .claim p
  carried_iff : s.token = .carried t ↔ l.carries
  held_iff : s.token = .held t ↔ l.run.holds
  covers : l.carries → Covers s l.view
  running : Running capacity s l
  rechecks : s.token = .free (some t) → Rechecks s l

/-- A step that neither pops nor uses the actor's data. -/
structure Calm (capacity : Nat) (t : Θ) (s s' : Shared Θ α δ ω) : Prop where
  effect : ∃ m, PushEffect capacity t s.queue.ring m s'.queue.ring
  keeps : Keeps capacity (.reserved t) s.queue s'.queue
  head : s'.queue.memory.writes .head = s.queue.memory.writes .head
  data : ∀ d, s'.queue.memory.accesses (.client (.inl d)) =
    s.queue.memory.accesses (.client (.inl d))

/-- A step that leaves the mailbox as it is. -/
structure Aside (q q' : LockFreeQueue.Shared Θ Unit α Unit (δ ⊕ ω)) : Prop where
  ring : q'.ring = q.ring
  sent : q'.sent = q.sent
  writes : ∀ x, x ≠ heldSlot → q'.memory.writes x = q.memory.writes x
  extends' : q'.memory.Extends q.memory
  contents : ∀ i, q'.memory.contents (.storage i) = q.memory.contents (.storage i)
  accesses : ∀ i, q'.memory.accesses (.storage i) = q.memory.accesses (.storage i)

section Aside

variable {capacity : Nat} {t : Θ} {q q' : LockFreeQueue.Shared Θ Unit α Unit (δ ⊕ ω)}
  {V V' : Sight δ ω}

theorem Aside.refl (q : LockFreeQueue.Shared Θ Unit α Unit (δ ⊕ ω)) : Aside q q :=
  ⟨rfl, rfl, fun _ _ => rfl, Memory.extends_refl _, fun _ => rfl, fun _ => rfl⟩

theorem Aside.keeps (aside : Aside q q') (own : Stage Θ Unit) : Keeps capacity own q q' :=
  ⟨aside.extends', fun i _ => aside.writes _ (by simp), fun i _ => aside.accesses i,
    fun p _ => by rw [aside.sent]⟩

theorem Aside.agreeing (aside : Aside q q') (agreeing : Agreeing capacity q) :
    Agreeing capacity q' := by
  obtain ⟨ring, coupled, head⟩ := agreeing
  have hHands : ∀ p value, Hands capacity q p value → Hands capacity q' p value := by
    intro p value hands time m hWrite hValue
    unfold Memory.Settled
    rw [aside.accesses]
    exact hands time m (by rwa [← aside.writes _ (by simp)]) hValue
  refine ⟨by rw [aside.ring]; exact ring, ?_, ?_⟩
  · constructor
    · rw [aside.ring]
      exact coupled.tail.congr (aside.writes _ (by simp))
    · intro i
      rw [aside.ring]
      exact (coupled.sequence i).congr (aside.writes _ (by simp))
    · intro i
      rw [aside.ring, aside.contents]
      exact coupled.storage i
    · intro p hp
      exact hHands p _ (coupled.published p (by rwa [← aside.ring]))
    · intro p hp
      exact hHands p _ (coupled.vacant p (by rwa [← aside.ring]))
    · intro p hp time m hWrite hValue
      rw [aside.sent]
      exact coupled.sent p (by rwa [← aside.ring]) time m
        (by rwa [← aside.writes _ (by simp)]) hValue
  · rw [aside.ring]
    exact head.congr (aside.writes _ (by simp))

theorem Aside.calm {s s' : Shared Θ α δ ω} (aside : Aside s.queue s'.queue)
    (hData : ∀ d, s'.queue.memory.accesses (.client (.inl d)) =
      s.queue.memory.accesses (.client (.inl d))) (capacity : Nat) (t : Θ) :
    Calm capacity t s s' :=
  ⟨⟨.start, by rw [aside.ring]; exact .none⟩, aside.keeps _, aside.writes _ (by simp), hData⟩

theorem Aside.owns (aside : Aside q q') (hView : V ≤ V') {i : Nat} (owns : Owns q V i) :
    Owns q' V' i where
  current time m hWrite :=
    (owns.current time m (by rwa [← aside.writes _ (by simp)])).trans (hView _)
  settled := by
    unfold Memory.Settled
    rw [aside.accesses]
    exact owns.settled.trans (hView _)

theorem Sending.of_aside {k : Producer α} (sending : Sending capacity q t V k)
    (aside : Aside q q') (hView : V ≤ V') : Sending capacity q' t V' k := by
  obtain ⟨producing, recorded, owning, sees, ticket⟩ := sending
  refine ⟨by rw [aside.ring]; exact producing, by rw [aside.ring]; exact recorded,
    by rw [aside.ring]; exact owning, ?_, fun pos hPos => (ticket pos hPos).trans (hView _)⟩
  obtain ⟨calls, arg, pc⟩ := k
  cases pc with
  | idle | loadTail | loadSequence | returned => trivial
  | casTail msg pos => exact Memory.Acquired.mono sees aside.extends' hView
  | construct msg pos | publish msg pos =>
      exact ⟨aside.owns hView sees.1, by rw [aside.sent]; exact sees.2.trans hView⟩

variable [DecidableEq δ] [DecidableEq ω]

theorem aside_use (q : LockFreeQueue.Shared Θ Unit α Unit (δ ⊕ ω)) (w : δ ⊕ ω)
    (content : Option α) (V : Sight δ ω) : Aside q (q.use (.client w) content V).1 :=
  ⟨rfl, rfl, fun _ _ => rfl, Memory.extends_refl _,
    fun i => by simp [LockFreeQueue.Shared.use, Memory.access],
    fun i => by simp [LockFreeQueue.Shared.use, Memory.access]⟩

theorem aside_exchange {order : Order} {value before time : ℕ}
    {memory : Memory (Atomic Unit) (Data δ ω) ℕ (Option α)}
    (h : q.memory.exchange order heldSlot value time V = some (before, memory, V')) :
    Aside q { q with memory := memory } ∧ ∀ a, memory.accesses a = q.memory.accesses a := by
  obtain ⟨m, _, _, hVacant, _, rfl⟩ := Memory.exchange_eq_some h
  refine ⟨⟨rfl, rfl, fun x hx => ?_, Memory.extends_insert hVacant _, fun _ => rfl, fun _ => rfl⟩,
    fun _ => rfl⟩
  exact Memory.insert_writes_of_ne hx _ _

end Aside

section Others

variable {capacity : Nat} {t u : Θ} {s s' : Shared Θ α δ ω} {l : Thread α δ ω} {V V' : Sight δ ω}

theorem Covers.mono (covers : Covers s V) (hView : V ≤ V') : Covers s V' :=
  ⟨fun time m hWrite => (covers.current time m hWrite).trans (hView _),
    fun d => (covers.data d).trans (hView _),
    fun result hMem => (covers.received result hMem).trans hView⟩

theorem Covers.of_calm (covers : Covers s V) (calm : Calm capacity t s s')
    (agreeing : Agreeing capacity s.queue) : Covers s' V := by
  obtain ⟨_, effect⟩ := calm.effect
  refine ⟨fun time m hWrite => covers.current time m (by rwa [← calm.head]), fun d => ?_,
    fun result hMem => ?_⟩
  · unfold Memory.Settled
    rw [calm.data d]
    exact covers.data d
  · rw [effect.reads_eq.2.2] at hMem
    have hRead := agreeing.ring.sequential.retired_of_mem hMem
    rw [calm.keeps.sent _ (agreeing.ring.valid.lt_tail (by simp [hRead]))]
    exact covers.received result hMem

theorem Between.of_calm (between : Between s.queue.ring) (calm : Calm capacity t s s') :
    Between s'.queue.ring := by
  obtain ⟨_, effect⟩ := calm.effect
  refine ⟨by rw [effect.reads_eq.1, effect.reads_eq.2.2]; exact between.1, fun p hp => ?_⟩
  rcases effect.stage p with hStage | hStage | hStage <;> rw [hStage] at hp
  · exact between.2 p hp
  · cases hp
  · cases hp

theorem Running.of_calm (running : Running capacity s l) (calm : Calm capacity t s s')
    (hCapacity : 2 ≤ capacity) (agreeing : Agreeing capacity s.queue) (hView : l.view ≤ V)
    (producer : Producer α) (send : SendPc) : Running capacity s' ⟨V, producer, send, l.run⟩ := by
  obtain ⟨_, effect⟩ := calm.effect
  obtain ⟨W, _, _, run⟩ := l
  cases run with
  | away | countHead | countTail | claimInFlight | redispatch => trivial
  | popping processed drains consumer =>
      obtain ⟨consumes, single, hData⟩ := running
      refine ⟨consumes.of_push hCapacity agreeing effect calm.keeps calm.head hView, single,
        fun d => ?_⟩
      unfold Memory.Settled
      rw [calm.data d]
      exact (hData d).trans (hView _)
  | handling processed element =>
      obtain ⟨⟨covers, between⟩, hLast⟩ := running
      exact ⟨⟨(covers.of_calm calm agreeing).mono hView, between.of_calm calm⟩,
        by rw [effect.reads_eq.2.2]; exact hLast⟩
  | restarting | releaseInFlight =>
      exact ⟨(running.1.of_calm calm agreeing).mono hView, running.2.of_calm calm⟩

/-- What a step of thread `t` may do to the token, as the others see it. -/
structure Tokens (t : Θ) (s s' : Shared Θ α δ ω) : Prop where
  announced : ∀ p, s'.announced p = false → s.announced p = false
  carried : ∀ u, u ≠ t → (s'.token = .carried u ↔ s.token = .carried u)
  held : ∀ u, u ≠ t → (s'.token = .held u ↔ s.token = .held u)
  free : ∀ u, u ≠ t → s'.token = .free (some u) →
    s.token = .free (some u) ∧ s'.announced = s.announced

theorem Tokens.of_same (t : Θ) (hToken : s'.token = s.token)
    (hAnnounced : s'.announced = s.announced) : Tokens t s s' := by
  refine ⟨fun p hp => ?_, fun u _ => ?_, fun u _ => ?_, fun u _ h => ?_⟩
  · rwa [hAnnounced] at hp
  · rw [hToken]
  · rw [hToken]
  · exact ⟨hToken ▸ h, hAnnounced⟩

/-- Nobody carries a token that is elsewhere. -/
theorem Knows.not_carries (knows : Knows capacity s t l) (hToken : s.token ≠ .carried t) :
    l.send ≠ .enqueueEntry ∧ l.run ≠ .redispatch :=
  not_or.mp (mt knows.carried_iff.mpr hToken)

/-- What the others know while one thread takes a calm step. -/
theorem Knows.of_calm (knows : Knows capacity s u l) (hne : u ≠ t) (hCapacity : 2 ≤ capacity)
    (agreeing : Agreeing capacity s.queue) (calm : Calm capacity t s s') (tokens : Tokens t s s') :
    Knows capacity s' u l := by
  obtain ⟨_, effect⟩ := calm.effect
  have valid := agreeing.ring.valid
  obtain ⟨producing, recorded, owning, sees, ticket⟩ := knows.sending
  obtain ⟨producing', recorded', owning'⟩ :=
    effect.keeps_producer valid hCapacity hne producing recorded owning
  refine ⟨⟨producing', recorded', owning', sees.of_keeps calm.keeps valid hCapacity producing
      (by simp) (by simpa using hne.symm), ticket⟩,
    knows.claim, fun p entry hEntry hMine hp => ?_, (tokens.carried u hne).trans knows.carried_iff,
    (tokens.held u hne).trans knows.held_iff,
    fun hCarries => (knows.covers hCarries).of_calm calm agreeing,
    knows.running.of_calm calm hCapacity agreeing le_rfl _ _, fun hToken => ?_⟩
  · rcases entry_of_push effect hEntry with hOld | hNew
    · exact knows.duty p entry hOld hMine (tokens.announced p hp)
    · exact absurd (hMine.symm.trans hNew) hne
  · obtain ⟨hBefore, hSame⟩ := tokens.free u hne hToken
    have hRechecks := knows.rechecks hBefore
    unfold Rechecks at hRechecks ⊢
    rwa [hSame, effect.reads_eq.1, effect.reads_eq.2.2]

/-- What the others know while the thread with the token pops, or uses the actor's data. -/
theorem Knows.of_holder (knows : Knows capacity s u l) (hne : u ≠ t) (hCapacity : 2 ≤ capacity)
    (agreeing : Agreeing capacity s.queue) (hHeld : s.token = .held t)
    (hToken : s'.token = s.token) (hAnnounced : s'.announced = s.announced)
    (effect : LockFreeMpscQueue.PopEffect capacity s.queue.ring s'.queue.ring)
    (keeps : Keeps capacity (.claimed ()) s.queue s'.queue) : Knows capacity s' u l := by
  have valid := agreeing.ring.valid
  obtain ⟨producing, recorded, owning, sees, ticket⟩ := knows.sending
  obtain ⟨producing', recorded', owning'⟩ :=
    effect.keeps_producer valid hCapacity producing recorded owning
  have hAway : ¬l.run.holds := fun h => by
    have := knows.held_iff.mpr h
    rw [hHeld] at this
    exact hne (by simpa using this.symm)
  have hCarries : ¬l.carries := not_or.mpr (knows.not_carries (by rw [hHeld]; nofun))
  refine ⟨⟨producing', recorded', owning', sees.of_keeps keeps valid hCapacity producing
      (by simp) (by simp), ticket⟩, knows.claim, ?_, ?_, ?_, fun h => absurd h hCarries, ?_, ?_⟩
  · rw [effect.pushed_eq, hAnnounced]
    exact knows.duty
  · rw [hToken]
    exact knows.carried_iff
  · rw [hToken]
    exact knows.held_iff
  · obtain ⟨W, producer, send, run⟩ := l
    cases run with
    | away | countHead | countTail | claimInFlight | redispatch => trivial
    | popping | handling | restarting | releaseInFlight => exact absurd trivial hAway
  · rw [hToken, hHeld]
    nofun

end Others

section Steps

variable [DecidableEq δ] [DecidableEq ω] {capacity : Nat} {maxBatch : Int} {t : Θ}
  {s s' : Shared Θ α δ ω} {l l' : Thread α δ ω}

omit [DecidableEq δ] [DecidableEq ω] in
theorem Shows.of_calm {last : Message (Atomic Unit) (Data δ ω) ℕ} (shows' : Shows s last)
    (calm : Calm capacity t s s') (agreeing : Agreeing capacity s.queue)
    (hToken : s'.token = s.token) (hAnnounced : s'.announced = s.announced) : Shows s' last := by
  refine ⟨?_, ?_, ?_⟩
  · rw [hToken]
    exact shows'.free_iff
  · rw [hAnnounced]
    exact shows'.announced
  · rw [hToken]
    exact fun hFree => (shows'.covers hFree).of_calm calm agreeing

omit [DecidableEq δ] [DecidableEq ω] in
theorem Safe.of_calm (safe : Safe capacity s) (calm : Calm capacity t s s')
    (agreeing : Agreeing capacity s'.queue)
    (hSlot : s'.queue.memory.writes heldSlot = s.queue.memory.writes heldSlot)
    (hToken : s'.token = s.token) (hReady : s'.ready = s.ready)
    (hAnnounced : s'.announced = s.announced) : Safe capacity s' := by
  obtain ⟨n, last, solid, shows'⟩ := safe.slot
  refine ⟨agreeing, ⟨n, last, solid.congr hSlot,
    shows'.of_calm calm safe.agreeing hToken hAnnounced⟩, ?_, ?_, ?_⟩
  · rw [hToken, hReady]
    refine safe.ready.imp_left ?_
    rintro ⟨V, hReady, covers, hToken⟩
    exact ⟨V, hReady, covers.of_calm calm safe.agreeing, hToken⟩
  · rw [hToken]
    exact fun h => (safe.between h).of_calm calm
  · rw [hToken, hAnnounced]
    exact safe.unannounced

omit [DecidableEq δ] [DecidableEq ω] in
theorem Safe.none_ready (safe : Safe capacity s) (hToken : s.token ≠ .ready) : s.ready = [] := by
  rcases safe.ready with ⟨_, _, _, hReady⟩ | ⟨hEmpty, _⟩
  · exact absurd hReady hToken
  · exact hEmpty

/-- What an exchange of the in-flight slot finds, and what it leaves there. -/
theorem Safe.exchange (safe : Safe capacity s) {value before time : ℕ} {V V' : Sight δ ω}
    {memory : Memory (Atomic Unit) (Data δ ω) ℕ (Option α)}
    (h : s.queue.memory.exchange .acqRel heldSlot value time V = some (before, memory, V')) :
    ∃ last, Shows s last ∧ before = last.value ∧ last.view ≤ V' ∧ V ≤ V' ∧
      ∃ n next, memory.Solid heldSlot n next ∧ next.value = value ∧ last.view ≤ next.view ∧
        V' ≤ next.view := by
  obtain ⟨n, last, solid, shows'⟩ := safe.slot
  obtain ⟨hBefore, hAcquired, next, solid', hValue, hLe, hReleased⟩ := solid.exchange h
  exact ⟨last, shows', hBefore, hAcquired rfl, Memory.le_of_exchange h, n + 1, next, solid', hValue,
    hLe, hReleased rfl⟩

/-- An exchange that claims the token, or finds it out. -/
theorem Safe.claimed (safe : Safe capacity s) (s' : Shared Θ α δ ω) {before time : ℕ}
    {V V' : Sight δ ω}
    {memory : Memory (Atomic Unit) (Data δ ω) ℕ (Option α)} {announced : ℕ → Bool}
    (h : s.queue.memory.exchange .acqRel heldSlot 1 time V = some (before, memory, V'))
    (hGrows : ∀ p, s.announced p = true → announced p = true)
    (hAnnounced : ∀ p, announced p = true → s.announced p = true ∨ p + 1 ≤ V (.inl .tail))
    (hToken : s'.token = if before = 0 then .carried t else s.token)
    (hQueue : s'.queue = { s.queue with memory := memory }) (hReady : s'.ready = s.ready)
    (hSame : s'.announced = announced) :
    (Safe capacity s' ∧ Calm capacity t s s' ∧ Tokens t s s') ∧ V ≤ V' ∧
      Aside s.queue s'.queue ∧
      (before = 0 ∧ (∃ u, s.token = .free u) ∧ Covers s' V' ∨
        before ≠ 0 ∧ ∀ u, s.token ≠ .free u) := by
  obtain ⟨last, shows', rfl, hAcquired, hView, n, next, solid, hValue, hLe, hReleased⟩ :=
    safe.exchange h
  obtain ⟨aside, hAccesses⟩ := aside_exchange h
  rw [← hQueue] at aside
  have calm : Calm capacity t s s' :=
    aside.calm (fun d => by rw [hQueue]; exact hAccesses _) capacity t
  have hSolid : s'.queue.memory.Solid heldSlot n next := by rwa [hQueue]
  have hTail : ∀ p, announced p = true → p + 1 ≤ next.view (.inl .tail) := by
    intro p hp
    rcases hAnnounced p hp with hOld | hNew
    · exact (shows'.announced p hOld).trans (hLe _)
    · exact (hNew.trans (hView _)).trans (hReleased _)
  have hBefore : ∀ p, s'.announced p = false → s.announced p = false := fun p hp => by
    by_contra hOld
    rw [hSame, hGrows p (by simpa using hOld)] at hp
    cases hp
  by_cases hZero : last.value = 0
  · obtain ⟨u, hFree⟩ := shows'.free_iff.mp hZero
    have covers := (shows'.covers ⟨u, hFree⟩).of_calm calm safe.agreeing
    have hCarried : s'.token = .carried t := by rw [hToken, if_pos hZero]
    refine ⟨⟨⟨aside.agreeing safe.agreeing, ⟨n, next, hSolid, ⟨?_, ?_, ?_⟩⟩, .inr ⟨?_, ?_⟩, ?_, ?_⟩,
      calm, ⟨hBefore, fun v hne => ?_, fun v hne => ?_, fun v hne hFree' => ?_⟩⟩, hView, aside,
      .inl ⟨hZero, ⟨u, hFree⟩, covers.mono hAcquired⟩⟩
    · simp [hValue, hCarried]
    · rw [hSame]
      exact hTail
    · rintro ⟨v, hv⟩
      rw [hCarried] at hv
      cases hv
    · rw [hReady]
      exact safe.none_ready (by rw [hFree]; nofun)
    · rw [hCarried]
      nofun
    · exact fun _ => (safe.between (by rw [hFree]; nofun)).of_calm calm
    · rw [hCarried]
      nofun
    · simp [hCarried, hFree, hne.symm]
    · simp [hCarried, hFree]
    · rw [hCarried] at hFree'
      cases hFree'
  · have hOut : ∀ u, s.token ≠ .free u := fun u hFree => hZero (shows'.free_iff.mpr ⟨u, hFree⟩)
    have hKept : s'.token = s.token := by rw [hToken, if_neg hZero]
    refine ⟨⟨⟨aside.agreeing safe.agreeing, ⟨n, next, hSolid, ⟨?_, ?_, ?_⟩⟩, ?_, ?_, ?_⟩, calm,
      ⟨hBefore, fun v _ => by rw [hKept], fun v _ => by rw [hKept], fun v _ hFree' => ?_⟩⟩, hView,
      aside, .inr ⟨hZero, hOut⟩⟩
    · simp [hValue, hKept, hOut]
    · rw [hSame]
      exact hTail
    · rintro ⟨v, hv⟩
      exact absurd (hKept ▸ hv) (hOut v)
    · rw [hReady, hKept]
      refine safe.ready.imp_left ?_
      rintro ⟨W, hReady, covers, hToken⟩
      exact ⟨W, hReady, covers.of_calm calm safe.agreeing, hToken⟩
    · rw [hKept]
      exact fun hHeld => (safe.between hHeld).of_calm calm
    · rw [hKept]
      exact fun hFree => absurd hFree (hOut none)
    · exact absurd (hKept ▸ hFree') (hOut _)

omit [DecidableEq δ] [DecidableEq ω] in
/-- The token, with what its carrier knows, is put into a queue. -/
theorem Safe.handed (safe : Safe capacity s) {V : Sight δ ω} (hToken : s.token = .carried t)
    (covers : Covers s V) :
    Safe capacity (s.handOver V) ∧ Calm capacity t s (s.handOver V) ∧
      Tokens t s (s.handOver V) := by
  have aside : Aside s.queue (s.handOver V).queue := .refl _
  have calm : Calm capacity t s (s.handOver V) := aside.calm (fun _ => rfl) capacity t
  have hEmpty : s.ready = [] := safe.none_ready (by rw [hToken]; nofun)
  obtain ⟨n, last, solid, shows'⟩ := safe.slot
  refine ⟨⟨safe.agreeing, ⟨n, last, solid, ⟨?_, shows'.announced, nofun⟩⟩,
    .inl ⟨V, by simp [Shared.handOver, hEmpty], covers.of_calm calm safe.agreeing, rfl⟩,
    fun _ => safe.between (by rw [hToken]; nofun), nofun⟩, calm,
    ⟨fun _ => id, fun u hne => ?_, fun u hne => ?_, fun u hne h => ?_⟩⟩
  · simp [shows'.free_iff, hToken, Shared.handOver]
  · simp [hToken, Shared.handOver, hne.symm]
  · simp [hToken, Shared.handOver]
  · cases h

omit [DecidableEq δ] [DecidableEq ω] in
/-- What a thread knows after a step of its own that leaves the mailbox and its call of `push`
as they are. -/
theorem Knows.own (knows : Knows capacity s t l) (s' : Shared Θ α δ ω) (V : Sight δ ω)
    (send : SendPc) (run : RunPc α) (aside : Aside s.queue s'.queue) (hView : l.view ≤ V)
    (hClaim : ∀ p, send = .claim p → l.send = .claim p)
    (hDuty : ∀ p, s'.announced p = false → s.announced p = false ∧
      (l.send = .claim p → send = .claim p))
    (hCarried : s'.token = .carried t ↔ send = .enqueueEntry ∨ run = .redispatch)
    (hHeld : s'.token = .held t ↔ run.holds)
    (hCovers : send = .enqueueEntry ∨ run = .redispatch → Covers s' V)
    (hRunning : Running capacity s' ⟨V, l.producer, send, run⟩)
    (hRechecks : s'.token = .free (some t) → Rechecks s' ⟨V, l.producer, send, run⟩) :
    Knows capacity s' t ⟨V, l.producer, send, run⟩ where
  sending := knows.sending.of_aside aside hView
  claim p hp := (knows.claim p (hClaim p hp)).trans (hView _)
  duty p entry hEntry hMine hp := by
    obtain ⟨hBefore, hStays⟩ := hDuty p hp
    rw [aside.ring] at hEntry
    exact (knows.duty p entry hEntry hMine hBefore).imp_right hStays
  carried_iff := hCarried
  held_iff := hHeld
  covers := hCovers
  running := hRunning
  rechecks := hRechecks

omit [DecidableEq δ] [DecidableEq ω] in
theorem SendPc.after_eq_claim {pc : PushPc α} {pos : ℕ} (h : SendPc.after pc = .claim pos) :
    pc.ticket = some pos := by
  cases pc <;> cases h
  rfl

omit [DecidableEq δ] [DecidableEq ω] in
theorem SendPc.after_ne (pc : PushPc α) : SendPc.after pc ≠ .enqueueEntry := by
  cases pc <;> nofun

/-- A step inside `mailbox_->push`. -/
theorem push_spec (hCapacity : 2 ≤ capacity) (safe : Safe capacity s) (knows : Knows capacity s t l)
    (hPush : l.send = .push) {choice : WeakPushChoice α (δ ⊕ ω)}
    {queue : LockFreeQueue.Shared Θ Unit α Unit (δ ⊕ ω)} {after : Seeing Unit (δ ⊕ ω) (Producer α)}
    (h : weakPush capacity t s.queue ⟨l.view, l.producer⟩ choice = some (queue, after))
    (hChoice : ∀ d content, choice ≠ .use (.inl d) content)
    (hShared : s' = { s with queue := queue }) :
    Safe capacity s' ∧ Knows capacity s' t ⟨after.view, after.place, .after l.producer.pc, l.run⟩ ∧
      Calm capacity t s s' ∧ Tokens t s s' := by
  subst hShared
  have effect := weakPush_effect h
  have hLe := effect.le
  obtain ⟨producing, recorded, owning, sees, ticket⟩ := knows.sending
  have valid := safe.agreeing.ring.valid
  have coupled := safe.agreeing.coupled
  have onRing := effect.effect valid coupled producing
  obtain ⟨producing', recorded', owning'⟩ :=
    effect.producing valid coupled producing recorded owning
  have calm : Calm capacity t s { s with queue := queue } :=
    ⟨⟨_, onRing⟩, effect.keeps coupled producing, effect.elsewhere .head (by simp) (by simp),
      fun d => weakPush_client h (hChoice d)⟩
  have tokens : Tokens t s { s with queue := queue } := .of_same t rfl rfl
  have agreeing := safe.agreeing.push hCapacity effect producing recorded sees
  refine ⟨safe.of_calm calm agreeing (effect.elsewhere _ (by simp) (by simp)) rfl rfl rfl,
    ⟨⟨producing', recorded', owning', effect.sees coupled valid producing sees,
      effect.ticket_lt coupled ticket⟩, fun pos hPos => ?_, fun p entry hEntry hMine hp => ?_, ?_,
      knows.held_iff, fun hCarries => ?_,
      knows.running.of_calm calm hCapacity safe.agreeing hLe _ _, fun hFree => ?_⟩, calm, tokens⟩
  · exact (ticket pos (SendPc.after_eq_claim hPos)).trans (hLe _)
  · rcases effect.accepted valid coupled hEntry with hOld | hNew
    · rcases knows.duty p entry hOld hMine hp with hTicket | hClaim
      · rcases effect.ticket hTicket with hKept | ⟨msg, hPc⟩
        · exact .inl hKept
        · exact .inr (by rw [hPc]; rfl)
      · rw [hPush] at hClaim
        cases hClaim
    · exact .inl hNew
  · refine knows.carried_iff.trans ?_
    simp [Thread.carries, hPush, SendPc.after_ne]
  · refine ((knows.covers ?_).of_calm calm safe.agreeing).mono hLe
    exact .inr (hCarries.resolve_left (SendPc.after_ne _))
  · have hRechecks := knows.rechecks hFree
    unfold Rechecks at hRechecks ⊢
    rw [onRing.reads_eq.1, onRing.reads_eq.2.2]
    refine hRechecks.imp_right (Or.imp_right fun hLooks => ⟨fun p hp => ?_, hLooks.2⟩)
    exact (hLooks.1 p hp).trans (hLe _)

/-- What a step of `enqueue` keeps. -/
theorem enqueue_spec (hCapacity : 2 ≤ capacity) (safe : Safe capacity s)
    (knows : Knows capacity s t l) (hSends : l.run.sends = true)
    {choice : WeakPushChoice α (δ ⊕ ω)} (h : enqueue capacity t s l choice = some (s', l')) :
    Safe capacity s' ∧ Knows capacity s' t l' ∧ Calm capacity t s s' ∧ Tokens t s s' := by
  have hRun : l.run ≠ .redispatch := fun hRun => by simp [hRun, RunPc.sends] at hSends
  obtain ⟨V, producer, send, run⟩ := l
  cases send with
  | push =>
      have hPush : (∀ d content, choice ≠ .use (.inl d) content) ∧
          (weakPush capacity t s.queue ⟨V, producer⟩ choice).map (fun after =>
            (({ s with queue := after.1 } : Shared Θ α δ ω),
              (⟨after.2.view, after.2.place, .after producer.pc, run⟩ : Thread α δ ω))) =
            some (s', l') := by
        cases choice with
        | use w content =>
            cases w with
            | inl d => cases h
            | inr w => exact ⟨by simp, h⟩
        | call | go | fail => exact ⟨by simp, h⟩
      obtain ⟨⟨queue, after⟩, hStep, hAfter⟩ := Option.map_eq_some_iff.mp hPush.2
      cases hAfter
      exact push_spec hCapacity safe knows rfl hStep hPush.1 rfl
  | claim ticket =>
      cases choice <;> simp only [enqueue, reduceCtorEq] at h
      obtain ⟨⟨before, memory, V'⟩, hExchange, hAfter⟩ := Option.map_eq_some_iff.mp h
      have hGrows : ∀ p, s.announced p = true → Function.update s.announced ticket true p = true := by
        intro p hp
        by_cases hTicket : p = ticket <;> simp [hTicket, hp]
      have hNew : ∀ p, Function.update s.announced ticket true p = true →
          s.announced p = true ∨ p + 1 ≤ V (.inl .tail) := by
        intro p hp
        by_cases hTicket : p = ticket
        · subst hTicket
          exact .inr (knows.claim p rfl)
        · exact .inl (by simpa [hTicket] using hp)
      have hDuty : ∀ p, Function.update s.announced ticket true p = false → s.announced p = false ∧
          (SendPc.claim ticket ≠ .claim p) := by
        intro p hp
        have hTicket : p ≠ ticket := fun hEq => by simp [hEq] at hp
        exact ⟨by simpa [hTicket] using hp, fun hEq => hTicket (by cases hEq; rfl)⟩
      have hClaimed := safe.claimed (t := t) ⟨{ s.queue with memory := memory }, s.ready,
        if before = 0 then .carried t else s.token, Function.update s.announced ticket true⟩
        hExchange hGrows hNew rfl rfl rfl rfl
      have hCarried := knows.carried_iff
      have hHeld := knows.held_iff
      simp only [Thread.carries, hRun, reduceCtorEq, or_false] at hCarried
      obtain ⟨⟨safe', calm, tokens⟩, hView, aside, ⟨rfl, ⟨u, hFree⟩, covers⟩ | ⟨hOther, hOut⟩⟩ :=
        hClaimed
      · cases hAfter
        refine ⟨safe', knows.own _ V' .enqueueEntry run aside hView nofun
          (fun p hp => ⟨(hDuty p hp).1, fun hEq => absurd hEq (hDuty p hp).2⟩) (by simp) ?_
          (fun _ => covers) (knows.running.of_calm calm hCapacity safe.agreeing hView _ _) nofun,
          calm, tokens⟩
        rw [hFree] at hHeld
        simpa using hHeld
      · simp only [hOther, if_false] at hAfter safe' calm tokens aside
        cases hAfter
        exact ⟨safe', knows.own _ V' .push run aside hView nofun
          (fun p hp => ⟨(hDuty p hp).1, fun hEq => absurd hEq (hDuty p hp).2⟩)
          (by simpa [hRun] using hCarried) hHeld (by simp [hRun])
          (knows.running.of_calm calm hCapacity safe.agreeing hView _ _)
          (fun hFree => absurd hFree (hOut _)), calm, tokens⟩
  | enqueueEntry =>
      cases choice <;> simp only [enqueue, reduceCtorEq] at h
      cases h
      have hToken : s.token = .carried t := knows.carried_iff.mpr (.inl rfl)
      have covers : Covers s V := knows.covers (.inl rfl)
      obtain ⟨safe', calm, tokens⟩ := safe.handed hToken covers
      have hHeld := knows.held_iff
      rw [hToken] at hHeld
      exact ⟨safe', knows.own (s.handOver V) V .push run (.refl _) le_rfl nofun
        (fun p hp => ⟨hp, nofun⟩) (by simpa [Shared.handOver] using hRun)
        (by simpa [Shared.handOver] using hHeld) (fun h => absurd (h.resolve_left nofun) hRun)
        (knows.running.of_calm calm hCapacity safe.agreeing le_rfl _ _) nofun, calm, tokens⟩

omit [DecidableEq δ] [DecidableEq ω] in
theorem running_popOne {V : Sight δ ω} (covers : Covers s V) (between : Between s.queue.ring)
    (producer : Producer α) (send : SendPc) (processed : Int) (drains : Bool) :
    Running capacity s ⟨V, producer, send, .popping processed drains popOne⟩ :=
  ⟨⟨between, List.nil_suffix, covers.current, trivial, trivial, covers.received⟩, ⟨rfl, rfl⟩,
    covers.data⟩

omit [DecidableEq δ] [DecidableEq ω] in
theorem running_batch {V : Sight δ ω} (covers : Covers s V) (between : Between s.queue.ring)
    (producer : Producer α) (send : SendPc) (maxBatch processed : Int) :
    Running capacity s ⟨V, producer, send, .batch maxBatch processed⟩ := by
  unfold RunPc.batch
  split
  · exact running_popOne covers between producer send processed false
  · exact ⟨covers, between⟩

omit [DecidableEq δ] [DecidableEq ω] in
theorem RunPc.batch_holds (maxBatch processed : Int) :
    (RunPc.batch maxBatch processed : RunPc α).holds := by
  unfold RunPc.batch
  split <;> trivial

omit [DecidableEq δ] [DecidableEq ω] in
/-- The thread that runs the actor goes on with it. -/
theorem Knows.goes_on (knows : Knows capacity s t l) (s' : Shared Θ α δ ω)
    (aside : Aside s.queue s'.queue) (hKept : s'.token = s.token) (hAnnounced : s'.announced = s.announced) {V : Sight δ ω}
    (hView : l.view ≤ V) (hHolds : l.run.holds) {run : RunPc α} (hNext : run.holds)
    (running : Running capacity s' ⟨V, l.producer, l.send, run⟩) :
    Knows capacity s' t ⟨V, l.producer, l.send, run⟩ := by
  have hToken := knows.held_iff.mpr hHolds
  have hRun : run ≠ .redispatch := fun h => by
    subst h
    exact hNext
  have hSend := (knows.not_carries (by rw [hToken]; nofun)).1
  refine knows.own s' V l.send run aside hView (fun _ => id) (fun p hp => ⟨hAnnounced ▸ hp, id⟩)
    ?_ ?_ ?_ running ?_
  · simp [hKept, hToken, hSend, hRun]
  · simp [hKept, hToken, hNext]
  · simp [hSend, hRun]
  · rw [hKept, hToken]
    nofun

omit [DecidableEq δ] [DecidableEq ω] in
/-- While some thread runs the actor, the token is in no queue and shows nothing. -/
theorem Safe.of_holder (safe : Safe capacity s) (hToken : s.token = .held t)
    (agreeing : Agreeing capacity s'.queue)
    (hSlot : s'.queue.memory.writes heldSlot = s.queue.memory.writes heldSlot)
    (hKept : s'.token = s.token) (hReady : s'.ready = s.ready)
    (hAnnounced : s'.announced = s.announced) : Safe capacity s' := by
  obtain ⟨n, last, solid, shows'⟩ := safe.slot
  rw [hToken] at hKept
  refine ⟨agreeing, ⟨n, last, solid.congr hSlot, ⟨?_, ?_, ?_⟩⟩, .inr ⟨?_, ?_⟩, ?_, ?_⟩
  · simp [shows'.free_iff, hToken, hKept]
  · rw [hAnnounced]
    exact shows'.announced
  · rw [hKept]
    nofun
  · rw [hReady]
    exact safe.none_ready (by rw [hToken]; nofun)
  · rw [hKept]
    nofun
  · exact fun hOut => absurd hKept (hOut t)
  · rw [hKept]
    nofun

omit [DecidableEq δ] [DecidableEq ω] in
/-- A pop that is over. -/
theorem popped_spec (knows : Knows capacity s t l) {processed : Int} {drains : Bool}
    {consumer : Consumer α}
    (hRun : l.run = .popping processed drains consumer) (hPc : consumer.pc = .returned) :
    Knows capacity s t ⟨l.view, l.producer, l.send, .popped processed drains consumer.out⟩ := by
  have running := knows.running
  have hHolds : l.run.holds := by
    rw [hRun]
    trivial
  simp only [Running, hRun] at running
  obtain ⟨⟨consuming, collected, current, _, _, received⟩, single, data⟩ := running
  obtain ⟨remaining, out, pc⟩ := consumer
  simp only at hPc
  subst hPc
  have covers : Covers s l.view := ⟨current, data, received⟩
  have between : Between s.queue.ring := consuming
  cases out with
  | nil =>
      cases drains with
      | false => exact knows.goes_on s (.refl _) rfl rfl le_rfl hHolds trivial ⟨covers, between⟩
      | true => exact knows.goes_on s (.refl _) rfl rfl le_rfl hHolds trivial ⟨covers, between⟩
  | cons element rest =>
      cases drains with
      | true =>
          exact knows.goes_on s (.refl _) rfl rfl le_rfl hHolds trivial
            (running_popOne covers between _ _ processed true)
      | false =>
          refine knows.goes_on s (.refl _) rfl rfl le_rfl hHolds trivial ⟨⟨covers, between⟩, ?_⟩
          obtain rfl : rest = [] := by simpa [Single] using single
          obtain ⟨before, hBefore⟩ := collected
          rw [← hBefore]
          simp

theorem single_of_pop {q q' : LockFreeQueue.Shared Θ Unit α Unit (δ ⊕ ω)}
    {k k' : Seeing Unit (δ ⊕ ω) (Consumer α)}
    (effect : LockFreeMpscQueue.WeakPopEffect capacity q k q' k') (single : Single k.place)
    (hPc : k.place.pc ≠ .returned) : Single k'.place := by
  obtain ⟨V, remaining, out, pc⟩ := k
  cases effect with
  | calls maxCount h =>
      obtain h | h := h <;> simp only at h <;> subst h
      · cases single
      · exact absurd rfl hPc
  | looks pos time V' h hLoad | claims pos time V' h hLoad =>
      simp only at h
      subst h
      exact single
  | misses pos time seq V' h hLoad =>
      simp only at h
      subst h
      obtain rfl : out = [] := single.1
      exact Nat.zero_le 1
  | takes pos h =>
      simp only at h
      subst h
      obtain ⟨rfl, hRemaining⟩ : out = [] ∧ remaining = 1 := single
      exact ⟨rfl, hRemaining⟩
  | advances pos time element memory V' h hStore =>
      simp only at h
      subst h
      exact single
  | retires pos time element memory V' h hStore =>
      simp only at h
      subst h
      obtain ⟨hLength, rfl⟩ : out.length = 1 ∧ remaining = 1 := single
      exact hLength.le

/-- A step inside `mailbox_->pop`. -/
theorem pop_spec (hCapacity : 2 ≤ capacity) (safe : Safe capacity s) (knows : Knows capacity s t l)
    {processed : Int} {drains : Bool} {consumer : Consumer α} {time : ℕ}
    {queue : LockFreeQueue.Shared Θ Unit α Unit (δ ⊕ ω)} {after : Seeing Unit (δ ⊕ ω) (Consumer α)}
    (hRun : l.run = .popping processed drains consumer) (hPc : consumer.pc ≠ .returned)
    (h : weakPop capacity s.queue ⟨l.view, consumer⟩ (.go time) = some (queue, after)) :
    Safe capacity { s with queue := queue } ∧
      Knows capacity { s with queue := queue } t
        ⟨after.view, l.producer, l.send, .popping processed drains after.place⟩ ∧
      ∀ u k, u ≠ t → Knows capacity s u k → Knows capacity { s with queue := queue } u k := by
  have hToken : s.token = .held t := knows.held_iff.mpr (by rw [hRun]; trivial)
  have running := knows.running
  simp only [Running, hRun] at running
  obtain ⟨consumes, single, data⟩ := running
  have effect := weakPop_effect h
  have onRing := effect.effect hCapacity safe.agreeing consumes
  have keeps := effect.keeps consumes.consuming
  obtain ⟨hWrites, hAccesses, _⟩ := effect.elsewhere
  have hSend := (knows.not_carries (by rw [hToken]; nofun)).1
  obtain ⟨producing, recorded, owning, sees, ticket⟩ := knows.sending
  have valid := safe.agreeing.ring.valid
  obtain ⟨producing', recorded', owning'⟩ :=
    onRing.keeps_producer valid hCapacity producing recorded owning
  have sees' := sees.of_keeps keeps valid hCapacity producing (by simp) (by simp)
  have hLe := effect.le
  refine ⟨safe.of_holder hToken (effect.agreeing hCapacity safe.agreeing consumes)
      (hWrites _ (by simp) (by simp)) rfl rfl rfl,
    ⟨⟨producing', recorded', owning', sees'.mono hLe,
        fun pos hPos => (ticket pos hPos).trans (hLe _)⟩,
      fun pos hPos => (knows.claim pos hPos).trans (hLe _), ?_, ?_, ?_, ?_,
      ⟨effect.consumes hCapacity safe.agreeing consumes, single_of_pop effect single hPc,
        fun d => ?_⟩, ?_⟩,
    fun u k hne hKnows => hKnows.of_holder hne hCapacity safe.agreeing hToken rfl rfl onRing keeps⟩
  · simp only [onRing.pushed_eq]
    exact knows.duty
  · simp [hToken, Thread.carries, hSend]
  · simp [hToken, RunPc.holds]
  · simp [Thread.carries, hSend]
  · unfold Memory.Settled
    simp only [hAccesses]
    exact (data d).trans (hLe _)
  · simp only [hToken]
    nofun

/-- The actor's code, or its restart, uses the actor's data. -/
theorem use_spec (hCapacity : 2 ≤ capacity) (safe : Safe capacity s) (knows : Knows capacity s t l)
    (hRun : (∃ processed element, l.run = .handling processed element) ∨ l.run = .restarting)
    (d : δ) (content : Option α) {used : LockFreeQueue.Shared Θ Unit α Unit (δ ⊕ ω) × Sight δ ω}
    (hUsed : used = s.queue.use (.client (.inl d)) content l.view) :
    Safe capacity { s with queue := used.1 } ∧
      Knows capacity { s with queue := used.1 } t { l with view := used.2 } ∧
      ∀ u k, u ≠ t → Knows capacity s u k → Knows capacity { s with queue := used.1 } u k := by
  subst hUsed
  have hHolds : l.run.holds := by
    rcases hRun with ⟨_, _, hRun⟩ | hRun <;> rw [hRun] <;> trivial
  have hToken : s.token = .held t := knows.held_iff.mpr hHolds
  have aside := aside_use s.queue (.inl d) content l.view
  have hLe : l.view ≤ (s.queue.use (.client (.inl d)) content l.view).2 :=
    s.queue.memory.le_access _ content l.view
  have hCovers : Covers s l.view → Covers { s with
      queue := (s.queue.use (.client (.inl d)) content l.view).1 }
      (s.queue.use (.client (.inl d)) content l.view).2 := by
    intro covers
    refine ⟨fun time m hWrite => (covers.current time m hWrite).trans (hLe _), fun d' => ?_,
      fun result hMem => (covers.received result hMem).trans hLe⟩
    by_cases hd : d' = d
    · subst hd
      exact Memory.settled_access ..
    · have := covers.data d'
      simpa [Memory.Settled, LockFreeQueue.Shared.use, Memory.access, hd] using this
  refine ⟨safe.of_holder hToken (aside.agreeing safe.agreeing) rfl rfl rfl rfl,
    knows.goes_on { s with queue := (s.queue.use (.client (.inl d)) content l.view).1 } aside rfl rfl
      hLe hHolds hHolds ?_, fun u k hne hKnows =>
      hKnows.of_holder hne hCapacity safe.agreeing hToken rfl rfl (by rw [aside.ring]; exact .none)
        (aside.keeps _)⟩
  have running := knows.running
  rcases hRun with ⟨processed, element, hRun⟩ | hRun <;> simp only [Running, hRun] at running ⊢
  · exact ⟨⟨hCovers running.1.1, running.1.2⟩, running.2⟩
  · exact ⟨hCovers running.1, running.2⟩

omit [DecidableEq δ] [DecidableEq ω] in
/-- A worker takes the token out of a queue, and begins to run the actor. -/
theorem acquire_spec (safe : Safe capacity s) (knows : Knows capacity s t l) {entry : ℕ}
    {V : Sight δ ω} (h : s.ready[entry]? = some V)
    (hShared : s' = { s with ready := s.ready.eraseIdx entry, token := .held t }) :
    Safe capacity s' ∧
      Knows capacity s' t ⟨l.view ⊔ V, l.producer, l.send, .batch maxBatch 0⟩ ∧
      Calm capacity t s s' ∧ Tokens t s s' := by
  subst hShared
  rcases safe.ready with ⟨W, hReady, covers, hToken⟩ | ⟨hReady, _⟩
  swap
  · simp [hReady] at h
  have hFirst := (List.getElem?_eq_some_iff.mp h).1
  obtain rfl : entry = 0 := by
    simp only [hReady, List.length_singleton] at hFirst
    omega
  obtain rfl : W = V := by simpa [hReady] using h
  have aside : Aside s.queue
      ({ s with ready := s.ready.eraseIdx 0, token := .held t } : Shared Θ α δ ω).queue := .refl _
  have calm := aside.calm (fun _ => rfl) capacity t
  have covers' := (covers.of_calm calm safe.agreeing).mono (le_sup_right : W ≤ l.view ⊔ W)
  have between := safe.between (by rw [hToken]; nofun)
  have hCarried := knows.not_carries (by rw [hToken]; nofun)
  have hNext := RunPc.batch_holds (α := α) maxBatch 0
  obtain ⟨n, last, solid, shows'⟩ := safe.slot
  refine ⟨⟨safe.agreeing, ⟨n, last, solid, ⟨?_, shows'.announced, nofun⟩⟩,
      .inr ⟨by simp [hReady], nofun⟩, fun hOut => absurd rfl (hOut t), nofun⟩,
    knows.own _ _ _ _ aside le_sup_left (fun _ => id) (fun p hp => ⟨hp, id⟩) ?_ (by simp [hNext]) ?_
      (running_batch covers' between _ _ maxBatch 0) nofun, calm,
    ⟨fun _ => id, fun u hne => ?_, fun u hne => ?_, nofun⟩⟩
  · simp [shows'.free_iff, hToken]
  · simp only [reduceCtorEq, false_iff, not_or]
    exact ⟨hCarried.1, fun h => by rw [h] at hNext; exact hNext⟩
  · rintro (h | h)
    · exact absurd h hCarried.1
    · rw [h] at hNext
      cases hNext
  · simp [hToken]
  · simp [hToken, hne.symm]

/-- The token is given back, and with it all that was learned while it was held. -/
theorem release_spec (safe : Safe capacity s) (knows : Knows capacity s t l)
    (hRun : l.run = .releaseInFlight) {before time : ℕ}
    {memory : Memory (Atomic Unit) (Data δ ω) ℕ (Option α)} {V : Sight δ ω}
    (h : s.queue.memory.exchange .acqRel heldSlot 0 time l.view = some (before, memory, V))
    (hShared : s' = { s with queue := { s.queue with memory := memory }, token := .free (some t) }) :
    Safe capacity s' ∧ Knows capacity s' t ⟨V, l.producer, l.send, .countHead⟩ ∧
      Calm capacity t s s' ∧ Tokens t s s' := by
  obtain ⟨last, shows', _, hAcquired, hView, n, next, solid, hValue, hLe, hReleased⟩ :=
    safe.exchange h
  obtain ⟨aside, hAccesses⟩ := aside_exchange h
  have hToken : s.token = .held t := knows.held_iff.mpr (by rw [hRun]; trivial)
  have running := knows.running
  simp only [Running, hRun] at running
  obtain ⟨covers, between⟩ := running
  have hCarried := knows.not_carries (by rw [hToken]; nofun)
  have hReady : s.ready = [] := safe.none_ready (by rw [hToken]; nofun)
  have hQueue : s'.queue = { s.queue with memory := memory } := by rw [hShared]
  rw [← hQueue] at aside
  have calm : Calm capacity t s s' :=
    aside.calm (fun d => by rw [hQueue]; exact hAccesses _) capacity t
  subst hShared
  have covers' := (covers.of_calm calm safe.agreeing).mono hView
  refine ⟨⟨aside.agreeing safe.agreeing, ⟨n, next, solid, ⟨?_, fun p hp => ?_, fun _ => ?_⟩⟩,
      .inr ⟨hReady, nofun⟩, fun _ => between.of_calm calm, nofun⟩,
    knows.own _ _ _ _ aside hView (fun _ => id) (fun p hp => ⟨hp, id⟩) (by simp [hCarried.1])
      (by simp [RunPc.holds]) (by simp [hCarried.1]) trivial
      fun _ => .inr (.inr ⟨fun p hp => ?_, .inl rfl⟩),
    calm, ⟨fun _ => id, fun u hne => ?_, fun u hne => ?_, fun u hne h => ?_⟩⟩
  · simp [hValue]
  · exact (shows'.announced p hp).trans (hLe _)
  · exact covers'.mono hReleased
  · exact (shows'.announced p hp).trans (hAcquired _)
  · simp [hToken]
  · simp [hToken, hne.symm]
  · exact absurd (by simpa using h) hne.symm

omit [DecidableEq δ] [DecidableEq ω] in
/-- A thread that runs the actor no longer only looks around. -/
theorem Knows.looks (knows : Knows capacity s t l) (hHolds : ¬l.run.holds)
    (hRun : l.run ≠ .redispatch) {V : Sight δ ω} (hView : l.view ≤ V) {run : RunPc α}
    (hNext : ¬run.holds) (hNext' : run ≠ .redispatch)
    (running : Running capacity s ⟨V, l.producer, l.send, run⟩)
    (hRechecks : s.token = .free (some t) → Rechecks s l → Rechecks s ⟨V, l.producer, l.send, run⟩) :
    Knows capacity s t ⟨V, l.producer, l.send, run⟩ := by
  refine knows.own s V l.send run (.refl _) hView (fun _ => id) (fun p hp => ⟨hp, id⟩) ?_ ?_ ?_
    running fun hFree => hRechecks hFree (knows.rechecks hFree)
  · simpa [Thread.carries, hRun, hNext'] using knows.carried_iff
  · simpa [hHolds, hNext] using knows.held_iff
  · rintro (h | h)
    · exact (knows.covers (.inl h)).mono hView
    · exact absurd h hNext'

theorem countHead_spec (safe : Safe capacity s) (knows : Knows capacity s t l)
    (hRun : l.run = .countHead) {head time : ℕ} {V : Sight δ ω}
    (h : s.queue.memory.load .relaxed .head time l.view = some (head, V)) :
    Knows capacity s t ⟨V, l.producer, l.send, .countTail head⟩ := by
  have hLe := safe.agreeing.head.load h
  have hView := Memory.le_of_load h
  refine knows.looks (by rw [hRun]; exact id) (by rw [hRun]; nofun) hView id nofun trivial
    fun _ hRechecks => ?_
  rcases hRechecks with hNone | hClaim | ⟨hLooks, _⟩
  · exact .inl hNone
  · rw [hRun] at hClaim
    cases hClaim
  · exact .inr (.inr ⟨fun p hp => (hLooks p hp).trans (hView _), .inr ⟨head, rfl, hLe⟩⟩)

/-- A worker that finds the mailbox empty has overlooked nothing. -/
theorem countTail_spec (safe : Safe capacity s) (knows : Knows capacity s t l) {head : ℕ}
    (hRun : l.run = .countTail head) {tail time : ℕ} {V : Sight δ ω}
    (h : s.queue.memory.load .relaxed .tail time l.view = some (tail, V)) :
    Knows capacity s t ⟨V, l.producer, l.send, if tail ≠ head then .claimInFlight else .away⟩ := by
  have hView := Memory.le_of_load h
  refine knows.looks (by rw [hRun]; exact id) (by rw [hRun]; nofun) hView (by split <;> exact id)
    (by split <;> nofun) (by split <;> trivial) fun hFree hRechecks => ?_
  have between := safe.between (by rw [hFree]; nofun)
  rcases hRechecks with hNone | hClaim | ⟨hLooks, hCount | ⟨head', hCount, hLe⟩⟩
  · exact .inl hNone
  · rw [hRun] at hClaim
    cases hClaim
  · rw [hRun] at hCount
    cases hCount
  · obtain rfl : head = head' := by simpa [hRun] using hCount
    by_cases hEmpty : tail = head
    · refine .inl fun p hp => ?_
      obtain ⟨hTime, m, hWrite, hValue, _⟩ := Memory.load_eq_some h
      obtain ⟨hCounts, _⟩ := (Memory.counts_iff.mp safe.agreeing.coupled.tail time).1 m hWrite
      have := hLooks p hp
      have := between.1
      omega
    · exact .inr (.inl (by simp [hEmpty]))

theorem reclaim_spec (safe : Safe capacity s)
    (knows : Knows capacity s t l) (hRun : l.run = .claimInFlight) {before time : ℕ}
    {memory : Memory (Atomic Unit) (Data δ ω) ℕ (Option α)} {V : Sight δ ω}
    (h : s.queue.memory.exchange .acqRel heldSlot 1 time l.view = some (before, memory, V))
    (hShared : s' = { s with
      queue := { s.queue with memory := memory }
      token := if before = 0 then .carried t else s.token }) :
    Safe capacity s' ∧
      Knows capacity s' t ⟨V, l.producer, l.send, if before = 0 then .redispatch else .away⟩ ∧
      Calm capacity t s s' ∧ Tokens t s s' := by
  subst hShared
  have hCarried := knows.carried_iff
  simp only [Thread.carries, hRun, reduceCtorEq, or_false] at hCarried
  obtain ⟨⟨safe', calm, tokens⟩, hView, aside, hCase⟩ := safe.claimed (t := t) { s with
      queue := { s.queue with memory := memory }
      token := if before = 0 then .carried t else s.token }
    h (fun _ => id) (fun _ => .inl) rfl rfl rfl rfl
  refine ⟨safe', ?_, calm, tokens⟩
  rcases hCase with ⟨rfl, ⟨u, hFree⟩, covers⟩ | ⟨hOther, hOut⟩
  · simp only [if_true] at covers calm aside ⊢
    exact knows.own _ _ _ _ aside hView (fun _ => id) (fun p hp => ⟨hp, id⟩) (by simp)
      (by simp [RunPc.holds]) (fun _ => covers) trivial nofun
  · simp only [hOther, if_false] at calm aside ⊢
    have hHeld := knows.held_iff
    simp only [hRun, RunPc.holds, iff_false] at hHeld
    refine knows.own _ _ _ _ aside hView (fun _ => id) (fun p hp => ⟨hp, id⟩)
      (by simpa using hCarried) (by simpa [RunPc.holds] using hHeld) (fun hCarries => ?_) trivial
      fun hFree => absurd hFree (hOut _)
    exact ((knows.covers (.inl (hCarries.resolve_right nofun))).of_calm calm safe.agreeing).mono hView

omit [DecidableEq δ] [DecidableEq ω] in
theorem redispatch_spec (safe : Safe capacity s)
    (knows : Knows capacity s t l) (hRun : l.run = .redispatch) (hSend : l.send = .push) :
    Safe capacity (s.handOver l.view) ∧
      Knows capacity (s.handOver l.view) t ⟨l.view, l.producer, l.send, .away⟩ ∧
      Calm capacity t s (s.handOver l.view) ∧ Tokens t s (s.handOver l.view) := by
  have hToken : s.token = .carried t := knows.carried_iff.mpr (.inr hRun)
  obtain ⟨safe', calm, tokens⟩ := safe.handed hToken (knows.covers (.inr hRun))
  refine ⟨safe', ?_, calm, tokens⟩
  exact knows.own (s.handOver l.view) l.view l.send .away (.refl _) le_rfl (fun _ => id)
    (fun p hp => ⟨hp, id⟩) (by simp [Shared.handOver, hSend])
    (by simp [Shared.handOver, RunPc.holds]) (by simp [hSend]) trivial nofun

/-- What a step of a worker keeps. -/
theorem work_spec (hCapacity : 2 ≤ capacity) (safe : Safe capacity s) (knows : Knows capacity s t l)
    (hSend : l.send = .push) {choice : Choice α δ ω}
    (h : work capacity maxBatch t s l choice = some (s', l')) :
    Safe capacity s' ∧ Knows capacity s' t l' ∧
      ∀ u k, u ≠ t → Knows capacity s u k → Knows capacity s' u k := by
  have hCalm : ∀ s' l', Safe capacity s' ∧ Knows capacity s' t l' ∧ Calm capacity t s s' ∧
      Tokens t s s' → Safe capacity s' ∧ Knows capacity s' t l' ∧
        ∀ u k, u ≠ t → Knows capacity s u k → Knows capacity s' u k :=
    fun s' l' ⟨safe', knows', calm, tokens⟩ => ⟨safe', knows', fun u k hne hKnows =>
      hKnows.of_calm hne hCapacity safe.agreeing calm tokens⟩
  obtain ⟨V, producer, send, run⟩ := l
  cases run <;> cases choice <;> simp only [work, reduceCtorEq] at h
  case away.acquire entry =>
    obtain ⟨W, hEntry, hAfter⟩ := Option.map_eq_some_iff.mp h
    cases hAfter
    exact hCalm _ _ (acquire_spec safe knows hEntry rfl)
  case handling.use processed element d content =>
    cases h
    exact use_spec hCapacity safe knows (.inl ⟨processed, element, rfl⟩) d content rfl
  case restarting.use d content =>
    cases h
    exact use_spec hCapacity safe knows (.inr rfl) d content rfl
  case handling.returns processed element =>
    cases h
    obtain ⟨⟨covers, between⟩, _⟩ := knows.running
    exact ⟨safe, knows.goes_on s (.refl _) rfl rfl le_rfl trivial (RunPc.batch_holds _ _)
      (running_batch covers between _ _ _ _), fun _ _ _ hKnows => hKnows⟩
  case handling.throws processed element =>
    cases h
    obtain ⟨⟨covers, between⟩, _⟩ := knows.running
    exact ⟨safe, knows.goes_on s (.refl _) rfl rfl le_rfl trivial trivial
      (running_popOne covers between _ _ _ _), fun _ _ _ hKnows => hKnows⟩
  case restarting.returns =>
    cases h
    exact ⟨safe, knows.goes_on s (.refl _) rfl rfl le_rfl trivial trivial knows.running,
      fun _ _ _ hKnows => hKnows⟩
  case releaseInFlight.go time =>
    obtain ⟨⟨before, memory, W⟩, hExchange, hAfter⟩ := Option.map_eq_some_iff.mp h
    cases hAfter
    exact hCalm _ _ (release_spec safe knows rfl hExchange rfl)
  case countHead.go time =>
    obtain ⟨⟨head, W⟩, hLoad, hAfter⟩ := Option.map_eq_some_iff.mp h
    cases hAfter
    exact ⟨safe, countHead_spec safe knows rfl hLoad, fun _ _ _ hKnows => hKnows⟩
  case countTail.go head time =>
    obtain ⟨⟨tail, W⟩, hLoad, hAfter⟩ := Option.map_eq_some_iff.mp h
    cases hAfter
    exact ⟨safe, countTail_spec safe knows rfl hLoad, fun _ _ _ hKnows => hKnows⟩
  case claimInFlight.go time =>
    obtain ⟨⟨before, memory, W⟩, hExchange, hAfter⟩ := Option.map_eq_some_iff.mp h
    have hSpec := hCalm _ _ (reclaim_spec safe knows rfl hExchange rfl)
    simp only at hAfter
    split at hAfter <;> rename_i hBefore <;> simp only [hBefore, if_true, if_false] at hSpec <;>
      cases hAfter <;> exact hSpec
  case redispatch.go time =>
    cases h
    exact hCalm _ _ (redispatch_spec safe knows rfl hSend)
  case popping.go processed drains consumer time =>
    by_cases hPc : consumer.pc = .returned
    · obtain ⟨remaining, out, pc⟩ := consumer
      subst hPc
      cases h
      exact ⟨safe, popped_spec knows rfl rfl, fun _ _ _ hKnows => hKnows⟩
    · have hPop : (weakPop capacity s.queue ⟨V, consumer⟩ (.go time)).map (fun after =>
          (({ s with queue := after.1 } : Shared Θ α δ ω),
            (⟨after.2.view, producer, send, .popping processed drains after.2.place⟩ :
              Thread α δ ω))) = some (s', l') := by
        obtain ⟨remaining, out, pc⟩ := consumer
        cases pc with
        | returned => exact absurd rfl hPc
        | idle | loadHead | loadSequence | take | storeHead | release => exact h
      obtain ⟨⟨queue, after⟩, hStep, hAfter⟩ := Option.map_eq_some_iff.mp hPop
      cases hAfter
      exact pop_spec hCapacity safe knows rfl hPc hStep

omit [DecidableEq δ] [DecidableEq ω] in
theorem Thread.sent_eq (h : l.sent = true) : l.send = .push ∧ l.producer.pc.ticket = none := by
  obtain ⟨V, ⟨calls, arg, pc⟩, send, run⟩ := l
  cases send <;> cases pc <;> first | exact ⟨rfl, rfl⟩ | cases h

/-- What a step of any thread keeps. -/
theorem step_spec (hCapacity : 2 ≤ capacity) (safe : Safe capacity s) (knows : Knows capacity s t l)
    {choice : Choice α δ ω} (h : step capacity maxBatch t s l choice = some (s', l')) :
    Safe capacity s' ∧ Knows capacity s' t l' ∧
      ∀ u k, u ≠ t → Knows capacity s u k → Knows capacity s' u k := by
  cases choice with
  | send choice =>
      obtain ⟨hSends, h⟩ := Option.ite_none_right_eq_some.mp h
      obtain ⟨safe', knows', calm, tokens⟩ := enqueue_spec hCapacity safe knows hSends h
      exact ⟨safe', knows', fun u k hne hKnows =>
        hKnows.of_calm hne hCapacity safe.agreeing calm tokens⟩
  | acquire | go | use | returns | throws =>
      obtain ⟨hSent, h⟩ := Option.ite_none_right_eq_some.mp h
      exact work_spec hCapacity safe knows (Thread.sent_eq hSent).1 h

end Steps

section Runs

variable {capacity : Nat} {maxBatch : Int}

theorem safe_initial : Safe capacity (.initial : Shared Θ α δ ω) where
  agreeing := by
    refine ⟨⟨valid_empty, ordered_empty, sequential_empty⟩, coupled_initial,
      ⟨0, ⟨0, ⊥⟩, rfl, rfl⟩, fun time m hWrite => ?_, fun time m time' m' h h' hLt => ?_⟩
    · simp only [Shared.initial, LockFreeQueue.Shared.initial, Memory.initial,
        Option.ite_none_right_eq_some] at hWrite
      obtain ⟨_, ⟨⟩⟩ := hWrite
      exact le_rfl
    · simp only [Shared.initial, LockFreeQueue.Shared.initial, Memory.initial,
        Option.ite_none_right_eq_some] at h h'
      omega
  slot := by
    refine ⟨0, ⟨0, ⊥⟩, ⟨rfl, fun time => ?_⟩, ⟨by simp [Shared.initial], fun p hp => ?_, fun _ =>
      ⟨fun time m hWrite => ?_, fun d => Nat.zero_le _, fun result hMem => ?_⟩⟩⟩
    · simp [Shared.initial, LockFreeQueue.Shared.initial, Memory.initial]
    · cases hp
    · simp only [Shared.initial, LockFreeQueue.Shared.initial, Memory.initial,
        Option.ite_none_right_eq_some] at hWrite
      exact hWrite.1.le
    · cases hMem
  ready := .inr ⟨rfl, by simp [Shared.initial]⟩
  between _ := ⟨rfl, fun p hp => by cases hp⟩
  unannounced _ _ := rfl

theorem knows_initial (t : Θ) : Knows capacity (.initial : Shared Θ α δ ω) t .start where
  sending := by
    obtain ⟨producing, recorded, owning⟩ := producer_start (π := Θ) (γ := Unit) (α := α) capacity t
    exact ⟨producing, recorded, owning, trivial, nofun⟩
  claim := nofun
  duty := by simp [Shared.initial, LockFreeQueue.Shared.initial, State.empty]
  carried_iff := by simp [Shared.initial, Thread.carries, Thread.start]
  held_iff := by simp [Shared.initial, RunPc.holds, Thread.start]
  covers := by simp [Thread.carries, Thread.start]
  running := trivial
  rechecks := nofun

variable [DecidableEq Θ] [DecidableEq δ] [DecidableEq ω]
  {c : Config Θ (Shared Θ α δ ω) (Thread α δ ω)}

def initial : Config Θ (Shared Θ α δ ω) (Thread α δ ω) := ⟨.initial, fun _ => .start⟩

/-- What any threads can bring the actor and its mailbox to. -/
def Reachable (capacity : Nat) (maxBatch : Int)
    (c : Config Θ (Shared Θ α δ ω) (Thread α δ ω)) : Prop :=
  Reach (step capacity maxBatch) (· = initial) anyStep c

theorem Reachable.outlined (hCapacity : 2 ≤ capacity) (reach : Reachable capacity maxBatch c) :
    Safe capacity c.shared ∧ ∀ t, Knows capacity c.shared t (c.here t) := by
  refine Reach.invariant (I := fun c => Safe capacity c.shared ∧
    ∀ t, Knows capacity c.shared t (c.here t)) ?_ ?_ reach
  · rintro c rfl
    exact ⟨safe_initial, knows_initial⟩
  · rintro c t choice s' l' _ ⟨safe, knows⟩ _ hStep
    obtain ⟨safe', own, others⟩ := step_spec hCapacity safe (knows t) hStep
    refine ⟨safe', fun u => ?_⟩
    by_cases hu : u = t
    · subst hu
      simpa using own
    · simpa [Function.update_of_ne hu] using others u _ hu (knows u)

/-- What the memory orders of the in-flight slot and of the mailbox are there for. -/
structure RunsAlone (capacity : Nat) (c : Config Θ (Shared Θ α δ ω) (Thread α δ ω)) : Prop where
  alone : ∀ t u, (c.here t).run.holds → (c.here u).run.holds → t = u
  data_alone : ∀ t, (∃ processed element, (c.here t).run = .handling processed element) ∨
    (c.here t).run = .restarting →
      ∀ d, c.shared.queue.memory.Settled (c.here t).view (.client (.inl d))
  construct_alone : ∀ t msg pos, (c.here t).producer.pc = .construct msg pos →
    c.shared.queue.memory.Settled (c.here t).view (.storage (pos % capacity)) ∧
      c.shared.queue.memory.contents (.storage (pos % capacity)) = none
  take_alone : ∀ t processed drains consumer pos,
    (c.here t).run = .popping processed drains consumer → consumer.pc = .take pos →
      c.shared.queue.memory.Settled (c.here t).view (.storage (pos % capacity)) ∧
        ∃ entry, c.shared.queue.ring.pushed[pos]? = some entry ∧
          c.shared.queue.memory.contents (.storage (pos % capacity)) = some entry.value
  accepted : ∀ t msg, (c.here t).producer.pc = .returned msg true → ∃ pos : Nat,
    c.shared.queue.ring.pushed[pos]? = some (Entry.mk t (c.here t).producer.calls msg)
  sender_order : Ordered c.shared.queue.ring
  in_order : c.shared.queue.ring.popped.map Popped.value <+:
    c.shared.queue.ring.pushed.map fun entry => some entry.value
  handles : ∀ t processed element, (c.here t).run = .handling processed element →
    ∃ n entry, c.shared.queue.ring.popped.length = n + 1 ∧
      c.shared.queue.ring.pushed[n]? = some entry ∧ element = some entry.value ∧
      c.shared.queue.sent n ≤ (c.here t).view
  woken : (∀ t, (c.here t).sent = true ∧ (c.here t).run = .away) → c.shared.ready = [] →
    c.shared.queue.ring.popped.length = c.shared.queue.ring.pushed.length

omit [DecidableEq Θ] [DecidableEq δ] [DecidableEq ω] in
/-- The element at hand is the last one popped, and came with its sender's past. -/
theorem handles_of {s : Shared Θ α δ ω} {l : Thread α δ ω} (safe : Safe capacity s)
    (running : Running capacity s l) {processed : Int} {element : Option α}
    (hRun : l.run = .handling processed element) :
    ∃ n entry, s.queue.ring.popped.length = n + 1 ∧ s.queue.ring.pushed[n]? = some entry ∧
      element = some entry.value ∧ s.queue.sent n ≤ l.view := by
  simp only [Running, hRun] at running
  obtain ⟨⟨covers, _⟩, hLast⟩ := running
  obtain ⟨result, hResult, rfl⟩ : ∃ result, s.queue.ring.popped.getLast? = some result ∧
      result.value = element := by simpa using hLast
  rw [List.getLast?_eq_getElem?] at hResult
  have hLt := (List.getElem?_eq_some_iff.mp hResult).1
  obtain ⟨hTicket, entry, hEntry, hValue⟩ :=
    safe.agreeing.ring.sequential.entry_of_getElem? hResult
  refine ⟨_, entry, by omega, hEntry, hValue, ?_⟩
  rw [← hTicket]
  exact covers.received result (List.mem_of_getElem? hResult)

omit [DecidableEq Θ] [DecidableEq δ] [DecidableEq ω] in
/-- When all threads have gone, no message is left behind: whoever gave the token back last
would have seen it, or its sender would have found the token. -/
theorem woken_of {here : Θ → Thread α δ ω} {s : Shared Θ α δ ω} (safe : Safe capacity s)
    (knows : ∀ t, Knows capacity s t (here t))
    (hRest : ∀ t, (here t).sent = true ∧ (here t).run = .away) (hReady : s.ready = []) :
    s.queue.ring.popped.length = s.queue.ring.pushed.length := by
  have hCarries : ∀ t, ¬(here t).carries := fun t h => by
    obtain ⟨hSend, _⟩ := Thread.sent_eq (hRest t).1
    simp [Thread.carries, hSend, (hRest t).2] at h
  have hAnnounced : ∀ (p : ℕ) entry, s.queue.ring.pushed[p]? = some entry →
      s.announced p = true := by
    intro p entry hEntry
    by_contra hNot
    obtain ⟨hSend, hTicket⟩ := Thread.sent_eq (hRest entry.producer).1
    rcases (knows entry.producer).duty p entry hEntry rfl (by simpa using hNot) with h | h
    · rw [hTicket] at h
      cases h
    · rw [hSend] at h
      cases h
  have hDone : ∀ p, s.announced p = true → p < s.queue.ring.popped.length := by
    cases hToken : s.token with
    | carried t => exact absurd ((knows t).carried_iff.mp hToken) (hCarries t)
    | held t =>
        have hHolds := (knows t).held_iff.mp hToken
        rw [(hRest t).2] at hHolds
        cases hHolds
    | ready =>
        rcases safe.ready with ⟨V, hOne, _⟩ | ⟨_, hNot⟩
        · rw [hReady] at hOne
          cases hOne
        · exact absurd hToken hNot
    | free by' =>
        cases by' with
        | none => exact fun p hp => by simp [safe.unannounced hToken p] at hp
        | some t =>
            rcases (knows t).rechecks hToken with h | h | ⟨_, h | ⟨_, h, _⟩⟩
            · exact h
            · simp [(hRest t).2] at h
            · simp [(hRest t).2] at h
            · simp [(hRest t).2] at h
  refine le_antisymm ?_ ?_
  · simpa using safe.agreeing.ring.sequential.in_order.length_le
  · by_contra hLeft
    have hEntry := List.getElem?_eq_getElem (Nat.lt_of_not_le hLeft)
    exact lt_irrefl _ (hDone _ (hAnnounced _ _ hEntry))

abbrev Schedule := List (Fin 2 × Choice Nat Unit Empty)

/-- While the second thread handles the first message, the first thread sends another one and
leaves it to the second, who does not find it: the sequence number it reads is the old one. Once
it has given the token back it knows better, and the first thread takes over. -/
def staleEmpty : Schedule :=
  [(0, .send (.call 7)), (0, .send (.go 0)), (0, .send (.go 0)), (0, .send (.go 0)),
    (0, .send (.go 0)), (0, .send (.go 2)), (0, .send (.go 0)), (0, .send (.go 0)),
    (1, .acquire 0), (1, .go 0), (1, .go 2), (1, .go 0), (1, .go 1), (1, .go 4), (1, .go 0),
    (1, .use () (some 5)), (0, .send (.call 8)), (0, .send (.go 1)), (0, .send (.go 0)),
    (0, .send (.go 1)), (0, .send (.go 0)), (0, .send (.go 2)), (0, .send (.go 1)),
    (1, .returns), (1, .go 1), (1, .go 0), (1, .go 0), (1, .go 2), (1, .go 1), (1, .go 2),
    (1, .go 3), (1, .go 0), (0, .acquire 0), (0, .go 1), (0, .go 2), (0, .go 0), (0, .go 2),
    (0, .go 4), (0, .go 0), (0, .use () none), (0, .returns), (0, .go 2), (0, .go 4), (0, .go 0),
    (0, .go 4), (0, .go 2), (0, .go 2)]

def afterStaleEmpty : Config (Fin 2) (Shared (Fin 2) Nat Unit Empty) (Thread Nat Unit Empty) :=
  ((step 2 10).replay anyStep initial staleEmpty).get (by decide +kernel)

end Runs

end TokenOrders
