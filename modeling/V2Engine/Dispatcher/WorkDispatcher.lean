import Mathlib.Logic.Function.Basic
import Mathlib.Algebra.GroupWithZero.Nat

/-! The shared memory of `WorkDispatcher` and the calls that change it one atomic
access at a time: `dispatch`, `redispatch`, `enqueueEntry` and `drainPendedActor`. -/

/-- `LockFreeMpmcQueue<ActorRuntime*>` as its users see it. An operation takes effect
at its compare-and-swap, but a slot stays occupied until the consumer that claimed it
has released it: `busy` holds the tickets claimed and not yet released. -/
structure WorkQueue (ρ : Type*) where
  items : List ρ
  tail : Nat
  busy : List Nat

namespace WorkQueue
variable {ρ : Type*}

def empty : WorkQueue ρ := ⟨[], 0, []⟩

/-- `push` returns false: the slot of the next ticket holds an unread element, or one
whose consumer has not released the slot. -/
def Refuses (capacity : Nat) (queue : WorkQueue ρ) : Prop :=
  capacity ≤ queue.tail ∧
    (capacity ≤ queue.items.length ∨ queue.tail - capacity ∈ queue.busy)

instance (capacity : Nat) (queue : WorkQueue ρ) : Decidable (queue.Refuses capacity) :=
  inferInstanceAs (Decidable (_ ∧ _))

def push (queue : WorkQueue ρ) (a : ρ) : WorkQueue ρ :=
  { queue with items := queue.items ++ [a], tail := queue.tail + 1 }

/-- `pop` up to the claim of the oldest ticket, which it also gives. -/
def pop (queue : WorkQueue ρ) : Option (ρ × Nat × WorkQueue ρ) :=
  match queue.items with
  | [] => none
  | a :: rest =>
      let ticket := queue.tail - queue.items.length
      some (a, ticket, { queue with items := rest, busy := ticket :: queue.busy })

/-- The rest of `pop`: the sequence store that frees the slot. -/
def release (queue : WorkQueue ρ) (ticket : Nat) : WorkQueue ρ :=
  { queue with busy := queue.busy.erase ticket }

/-- A queue that refuses a push is not empty or has a pop under way. -/
theorem Refuses.nonempty {capacity : Nat} {queue : WorkQueue ρ} (hCapacity : 0 < capacity)
    (refuses : queue.Refuses capacity) : queue.items ≠ [] ∨ queue.busy ≠ [] := by
  rcases refuses.2 with hFull | hBusy
  · exact .inl (List.ne_nil_of_length_pos (Nat.lt_of_lt_of_le hCapacity hFull))
  · exact .inr (List.ne_nil_of_mem hBusy)

theorem pop_eq_none {queue : WorkQueue ρ} : queue.pop = none ↔ queue.items = [] := by
  unfold pop
  split <;> simp_all

theorem pop_eq_some {queue after : WorkQueue ρ} {a : ρ} {ticket : Nat}
    (h : queue.pop = some (a, ticket, after)) :
    queue.items = a :: after.items ∧ after.tail = queue.tail ∧
      after.busy = ticket :: queue.busy := by
  unfold pop at h
  split at h
  · cases h
  · cases h
    exact ⟨by assumption, rfl, rfl⟩

end WorkQueue

/-- What `WorkDispatcherConfig` says of the dispatcher apart from its worker count. -/
structure WorkDispatcherConfig where
  queueCapacity : Nat
  highWatermark : Int
  parkSpinNs : Int

/-- `highWatermark_`: zero in the configuration asks for seven tenths of the capacity. -/
def WorkDispatcherConfig.watermark (cfg : WorkDispatcherConfig) : Nat :=
  if cfg.highWatermark > 0 then cfg.highWatermark.toNat else cfg.queueCapacity * 7 / 10

/-- `dispatch` and `redispatch` share `enqueueEntry`. -/
inductive Source where
  | dispatch
  | redispatch
  deriving DecidableEq

/-- A call into the dispatcher under way: the access it makes next. `entering` is a
call of `enqueueEntry` that holds the actor's token, `parking` the same call after
the push was refused. `draining i` is `drainPendedActor` at index `i`, which holds
`mutex_` until it is through with the list. -/
inductive Errand (n : Nat) (ρ : Type*) where
  | dispatching (a : ρ)
  | entering (a : ρ) (source : Source)
  | parking (a : ρ) (source : Source)
  | signalling (q : Fin n) (source : Source)
  | counting
  | draining (i : Nat)
  | reviving (q : Fin n) (i : Nat)
  | revivingSignal (q : Fin n) (i : Nat)

/-- The members of `WorkDispatcher` that several threads use. `held` is indexed by
slot, `locked` is the state of `mutex_`. -/
structure WorkDispatcher (n : Nat) (ρ : Type*) where
  running : Bool
  draining : Bool
  pendingWork : Int
  held : Nat → Bool
  pendedActorList : List ρ
  locked : Bool
  semas : Fin n → Nat
  queues : Fin n → WorkQueue ρ

namespace WorkDispatcher
variable {n : Nat} {ρ : Type*}

def kMaxActors : Nat := 1024

/-- The dispatcher as constructed. -/
def constructed : WorkDispatcher n ρ where
  running := false
  draining := false
  pendingWork := 0
  held := fun _ => false
  pendedActorList := []
  locked := false
  semas := fun _ => 0
  queues := fun _ => .empty

/-- `inFlightSlot`: where an actor's flag is kept. -/
def inFlightSlot (actorId : Nat) : Nat := actorId % kMaxActors

@[simp] def setHeld (d : WorkDispatcher n ρ) (slot : Nat) (value : Bool) : WorkDispatcher n ρ :=
  { d with held := Function.update d.held slot value }

@[simp] def setQueue (d : WorkDispatcher n ρ) (q : Fin n) (queue : WorkQueue ρ) : WorkDispatcher n ρ :=
  { d with queues := Function.update d.queues q queue }

@[simp] def push (d : WorkDispatcher n ρ) (q : Fin n) (a : ρ) : WorkDispatcher n ρ :=
  d.setQueue q ((d.queues q).push a)

/-- `semas_[q]->release()`. -/
@[simp] def signal (d : WorkDispatcher n ρ) (q : Fin n) : WorkDispatcher n ρ :=
  { d with semas := Function.update d.semas q (d.semas q + 1) }

/-- `semas_[q]->try_acquire()`, which takes a permit if there is one. -/
@[simp] def tryAcquire (d : WorkDispatcher n ρ) (q : Fin n) : WorkDispatcher n ρ :=
  { d with semas := Function.update d.semas q (d.semas q - 1) }

@[simp] def addPending (d : WorkDispatcher n ρ) (change : Int) : WorkDispatcher n ρ :=
  { d with pendingWork := d.pendingWork + change }

@[simp] def setPended (d : WorkDispatcher n ρ) (parked : List ρ) : WorkDispatcher n ρ :=
  { d with pendedActorList := parked }

@[simp] def setLocked (d : WorkDispatcher n ρ) (value : Bool) : WorkDispatcher n ρ :=
  { d with locked := value }

section Routing

variable [NeZero n]

/-- The loop of `pickLeastLoaded`, with `left` passes to go, the next one being pass
`i`. `best` is updated inside the loop and moves the index of the later passes.
`load k w` is what the `k`th `count()` of the call returns when it asks queue `w`. -/
def leastLoadedLoop (load : Nat → Fin n → Nat) : Nat → Nat → Fin n → Nat → Fin n
  | 0, _, best, _ => best
  | left + 1, i, best, bestCount =>
      let w := Fin.ofNat n (best + i)
      let c := load (i + 2) w
      if c < bestCount then
        if c = 0 then w else leastLoadedLoop load left (i + 1) w c
      else leastLoadedLoop load left (i + 1) best bestCount

def pickLeastLoaded (load : Nat → Fin n → Nat) (actorId : Nat) : Fin n :=
  let best := Fin.ofNat n actorId
  leastLoadedLoop load n 0 best (load 1 best)

def pickWorker (watermark : Nat) (load : Nat → Fin n → Nat) (actorId : Nat) : Fin n :=
  let home := Fin.ofNat n actorId
  if n ≤ 1 then home
  else if load 0 home < watermark then home
  else pickLeastLoaded load actorId

/-- One step of a call into the dispatcher, `none` in the second place once it has
returned. `load` stands for what the racy `count()` calls of `pickWorker` return. -/
def errandStep (cfg : WorkDispatcherConfig) (actorId : ρ → Nat) (d : WorkDispatcher n ρ)
    (load : Nat → Fin n → Nat) : Errand n ρ → Option (WorkDispatcher n ρ × Option (Errand n ρ))
  | .dispatching a =>
      if d.held (inFlightSlot (actorId a)) then some (d, none)
      else some (d.setHeld (inFlightSlot (actorId a)) true, some (.entering a .dispatch))
  | .entering a source =>
      let q := pickWorker cfg.watermark load (actorId a)
      if (d.queues q).Refuses cfg.queueCapacity then some (d, some (.parking a source))
      else some (d.push q a, some (.signalling q source))
  | .parking a _ =>
      if d.locked then none else some (d.setPended (d.pendedActorList ++ [a]), none)
  | .signalling q .dispatch => some (d.signal q, some .counting)
  | .signalling q .redispatch => some (d.signal q, none)
  | .counting => some (d.addPending 1, none)
  | .draining i =>
      match d.pendedActorList[i]? with
      | none => some (d.setLocked false, none)
      | some a =>
          let q := pickWorker cfg.watermark load (actorId a)
          -- the entry leaves the list with the push: nobody sees the list before `mutex_` is free
          if (d.queues q).Refuses cfg.queueCapacity then some (d, some (.draining (i + 1)))
          else some ((d.push q a).setPended (d.pendedActorList.eraseIdx i), some (.reviving q i))
  | .reviving q i => some (d.addPending 1, some (.revivingSignal q i))
  | .revivingSignal q i => some (d.signal q, some (.draining i))

end Routing

end WorkDispatcher
