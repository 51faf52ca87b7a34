import V2Engine.System.Moves
import V2Engine.Interleaving.Ledger

/-! The semaphores. A push into a worker's queue is followed by a permit, a steal takes
one permit back. The owner may find its queue empty with the permit for a stolen entry
in its hands; the thief then takes back a permit that belongs to somebody else. -/
namespace ActorSystem

open Interleaving

variable {n : Nat} {τ ρ β : Type*}

/-- Permits that a call still has to release for an entry it has put into queue `q`. -/
def Errand.owes (q : Fin n) : Errand n ρ → Int
  | .signalling p _ | .reviving p _ | .revivingSignal p _ => mark (p = q)
  | _ => 0

/-- Permits of queue `q` that a thief still has to take back. -/
def Grip.steals (q : Fin n) : Grip n ρ → Int
  | .popped _ p _ true | .owing _ p => mark (p = q)
  | _ => 0

/-- Permits of queue `q` that thread `t`, if it is the owner, has taken and not yet used. -/
def Grip.permits [DecidableEq τ] (q : Fin n) (t : Thread n τ) : Grip n ρ → Int
  | .permitted => mark (t = .worker q)
  | _ => 0

/-- What thread `t` has in hand for queue `q`: permits on their way to the semaphore and
the owner's own, less those to be taken back. -/
def Stance.unpaid [DecidableEq τ] (q : Fin n) (t : Thread n τ) (x : Stance n ρ) : Int :=
  x.grip.steals q - x.errand.elim 0 (Errand.owes q) - x.grip.permits q t

theorem Grip.permits_nonneg [DecidableEq τ] (q : Fin n) (t : Thread n τ) (g : Grip n ρ) :
    0 ≤ g.permits q t := by
  cases g <;> simp only [Grip.permits, Int.le_refl, mark_nonneg]

theorem woken_of_grip {ε : Type*} {pc : WorkerPc n ρ ε} (h : pc.grip = .permitted) : pc = .woken := by
  cases pc <;> cases h
  rfl

/-- Entries of queue `q` less permits of its semaphore. -/
def unsignalled (q : Fin n) (d : WorkDispatcher n ρ) : Int :=
  (d.queues q).items.length - d.semas q

section Moves

variable [DecidableEq τ] {slot : ρ → Nat} {capacity : Nat} {t : Thread n τ} {discards : Prop}
  {d d' : WorkDispatcher n ρ} {needs needs' : ρ → Prop} {x x' : Stance n ρ}

theorem unsignalled_push (q p : Fin n) (a : ρ) (d : WorkDispatcher n ρ) :
    unsignalled q (d.push p a) = unsignalled q d + mark (p = q) := by
  by_cases h : p = q
  · subst h
    simp [unsignalled, WorkQueue.push]
    omega
  · simp [unsignalled, Function.update_of_ne (Ne.symm h), h]

theorem unsignalled_pop (q p : Fin n) {a : ρ} {ticket : Nat} {queue : WorkQueue ρ}
    (h : (d.queues p).pop = some (a, ticket, queue)) :
    unsignalled q (d.setQueue p queue) = unsignalled q d - mark (p = q) := by
  by_cases hq : p = q
  · subst hq
    simp [unsignalled, (WorkQueue.pop_eq_some h).1]
    omega
  · simp [unsignalled, Function.update_of_ne (Ne.symm hq), hq]

theorem unsignalled_signal (q p : Fin n) (d : WorkDispatcher n ρ) :
    unsignalled q (d.signal p) = unsignalled q d - mark (p = q) := by
  by_cases h : p = q
  · subst h
    simp [unsignalled]
    omega
  · simp [unsignalled, Function.update_of_ne (Ne.symm h), h]

theorem unsignalled_release (q p : Fin n) (ticket : Nat) :
    unsignalled q (d.setQueue p ((d.queues p).release ticket)) = unsignalled q d := by
  by_cases h : p = q
  · subst h
    simp [unsignalled, WorkQueue.release]
  · simp [unsignalled, Function.update_of_ne (Ne.symm h)]

/-- Taking a permit back takes at most one. -/
theorem unsignalled_tryAcquire_le (q p : Fin n) (d : WorkDispatcher n ρ) :
    unsignalled q (d.tryAcquire p) ≤ unsignalled q d + mark (p = q) := by
  by_cases h : p = q
  · subst h
    simp [unsignalled]
    omega
  · simp [unsignalled, Function.update_of_ne (Ne.symm h), h]

/-- No move uses up more permits of queue `q` than entries, unless the owner finds the
queue empty with a permit in its hands. -/
theorem Move.permits (q : Fin n) (move : Move slot capacity t discards d needs x d' needs' x') :
    unsignalled q d' + x'.unpaid q t ≤ unsignalled q d + x.unpaid q t ∨
      t = .worker q ∧ x.grip = .permitted ∧ (d.queues q).items = [] ∧
        unsignalled q d' + x'.unpaid q t = unsignalled q d + x.unpaid q t + 1 := by
  cases move
  case miss w hOwner hEmpty =>
    subst hOwner
    by_cases h : w = q
    · subst h
      exact .inr ⟨rfl, rfl, hEmpty, by simp [Stance.unpaid, Grip.steals, Grip.permits]⟩
    · exact .inl (le_of_eq (by simp [Stance.unpaid, h, Grip.steals, Grip.permits]))
  all_goals apply Or.inl
  case push g a source p hRoom =>
    rw [unsignalled_push]
    simp only [Stance.unpaid, Option.elim, Errand.owes]
    omega
  case signalDispatch g p | signalRedispatch g p | reviveSignal g p i =>
    rw [unsignalled_signal]
    simp only [Stance.unpaid, Option.elim, Errand.owes]
    omega
  case alarm p =>
    rw [unsignalled_signal]
    have := mark_nonneg (p = q)
    omega
  case revive g a p i hEntry hRoom =>
    have hPush := unsignalled_push q p a d
    simp only [unsignalled, WorkDispatcher.push, WorkDispatcher.setQueue, WorkDispatcher.setPended,
      Stance.unpaid, Option.elim, Errand.owes] at hPush ⊢
    omega
  case popOwn g w a ticket queue hOwner hGrip hPop =>
    subst hOwner
    rw [unsignalled_pop q w hPop]
    have hOwn : (Thread.worker w : Thread n τ) = .worker q ↔ w = q := by simp
    rcases hGrip with rfl | rfl
    · simp only [Stance.unpaid, Grip.steals, Grip.permits]
      have := mark_nonneg (w = q)
      omega
    · simp only [Stance.unpaid, Grip.steals, Grip.permits, hOwn]
      omega
  case popStolen p a ticket queue hPop =>
    rw [unsignalled_pop q p hPop]
    simp only [Stance.unpaid, Grip.steals, Grip.permits]
    omega
  case releaseSlot a p ticket stolen =>
    rw [unsignalled_release]
    cases stolen
    · exact Int.le_refl _
    · exact Int.le_refl _
  case repay a p =>
    have := unsignalled_tryAcquire_le q p d
    simp only [Stance.unpaid, Grip.steals, Grip.permits]
    omega
  case wake w hOwner hPermit =>
    subst hOwner
    have hOwn : (Thread.worker w : Thread n τ) = .worker q ↔ w = q := by simp
    have := unsignalled_tryAcquire_le q w d
    simp only [Stance.unpaid, Grip.steals, Grip.permits, hOwn]
    omega
  all_goals exact Int.le_refl _

end Moves

section Runs

variable [NeZero n] [DecidableEq ρ] [DecidableEq τ] [Fintype τ] {cfg : Setup ρ β}
  {c : Config (Thread n τ) (Shared n τ ρ β) (Local n τ ρ β)}

/-- Thieves that have popped from queue `q` and not yet tried to take a permit back. -/
def thieves (q : Fin n) (c : Config (Thread n τ) (Shared n τ ρ β) (Local n τ ρ β)) : Int :=
  entries (fun _ l => l.stance.grip.steals q) c.here

/-- Producers between their push into queue `q` and the release of its semaphore. -/
def producers (q : Fin n) (c : Config (Thread n τ) (Shared n τ ρ β) (Local n τ ρ β)) : Int :=
  entries (fun _ l => l.stance.errand.elim 0 (Errand.owes q)) c.here

/-- When an owner that has taken a permit finds its queue empty, the thieves that still
have to take a permit back do not outnumber the permits and the producers about to
release one. -/
def stealsSettled (c : Config (Thread n τ) (Shared n τ ρ β) (Local n τ ρ β)) (t : Thread n τ)
    (_ : Choice n ρ β) : Prop :=
  (c.here t).worker matches .woken → ∀ q, t = .worker q → (c.shared.dispatcher.queues q).items = [] →
    thieves q c ≤ c.shared.dispatcher.semas q + producers q c

instance (c : Config (Thread n τ) (Shared n τ ρ β) (Local n τ ρ β)) (t : Thread n τ)
    (choice : Choice n ρ β) : Decidable (stealsSettled c t choice) :=
  inferInstanceAs (Decidable (_ → ∀ _, _ → _ → _))

/-- Entries and steals of queue `q` less its permits, wherever they are. -/
abbrev permitLedger (q : Fin n) (c : Config (Thread n τ) (Shared n τ ρ β) (Local n τ ρ β)) : Int :=
  ledger (fun s => unsignalled q s.dispatcher) (fun t l => l.stance.unpaid q t) c

omit [NeZero n] [DecidableEq ρ] in
theorem permitLedger_eq (q : Fin n) (c : Config (Thread n τ) (Shared n τ ρ β) (Local n τ ρ β)) :
    permitLedger q c = unsignalled q c.shared.dispatcher + thieves q c - producers q c -
      entries (fun t (l : Local n τ ρ β) => l.stance.grip.permits q t) c.here := by
  simp only [ledger, Stance.unpaid, entries_sub, thieves, producers]
  omega

omit [NeZero n] [DecidableEq ρ] in
/-- The owner that has taken a permit is one of the threads. -/
theorem one_le_permits {q : Fin n} {t : Thread n τ} (hOwner : t = .worker q)
    (hGrip : (c.here t).stance.grip = .permitted) :
    1 ≤ entries (fun t (l : Local n τ ρ β) => l.stance.grip.permits q t) c.here := by
  have hEntry := le_entries (w := fun t (l : Local n τ ρ β) => l.stance.grip.permits q t)
    (f := c.here) (fun t => Grip.permits_nonneg q t _) t
  simpa only [hGrip, Grip.permits, mark_of_true hOwner] using hEntry

theorem permitLedger_le (reach : RunsTo cfg stealsSettled c) (q : Fin n) : permitLedger q c ≤ 0 := by
  refine Reach.invariant (I := fun c => permitLedger q c ≤ 0) ?_ ?_ reach
  · rintro c rfl
    have hHands : entries (fun (t : Thread n τ) (l : Local n τ ρ β) => l.stance.unpaid q t)
        (fun _ => .start) = 0 := entries_eq_zero fun _ => rfl
    simp only [ledger, initial, hHands]
    exact Int.le_refl 0
  · intro c t choice shared place _ hLedger hSettled hLocal
    have hAfter : permitLedger q ⟨shared, Function.update c.here t place⟩ = permitLedger q c +
        ((unsignalled q shared.dispatcher + place.stance.unpaid q t) -
          (unsignalled q c.shared.dispatcher + (c.here t).stance.unpaid q t)) := ledger_step ..
    rcases (step_moves hLocal).permits q with hLe | ⟨hOwner, hGrip, hEmpty, hMiss⟩
    · omega
    · -- the permit is lost: what is left must do for the thieves that are still to come
      have hWoken : (c.here t).worker matches .woken := by
        rw [woken_of_grip hGrip]
      have hThieves := hSettled hWoken q hOwner hEmpty
      have hPermit := one_le_permits hOwner hGrip
      have hBefore := permitLedger_eq q c
      simp only [unsignalled, hEmpty, List.length_nil] at hBefore
      omega

/-- Nobody is in the middle of putting an entry into queue `q` or of stealing one. -/
structure Undisturbed (q : Fin n)
    (c : Config (Thread n τ) (Shared n τ ρ β) (Local n τ ρ β)) : Prop where
  enqueueEntry : ∀ t source, (c.here t).call ≠ .errand (.signalling q source)
  drainPendedActor : ∀ t i, (c.here t).call ≠ .errand (.reviving q i) ∧
    (c.here t).call ≠ .errand (.revivingSignal q i)
  trySteal : ∀ t a, (∀ ticket, (c.here t).worker ≠ .releasingSlot a q ticket true) ∧
    (c.here t).worker ≠ .takingPermit a q

omit [NeZero n] [DecidableEq ρ] [DecidableEq τ] in
theorem Undisturbed.producers {q : Fin n} (hUndisturbed : Undisturbed q c) : producers q c = 0 := by
  apply entries_eq_zero
  intro t
  show (c.here t).call.errand?.elim 0 (Errand.owes q) = 0
  cases hCall : (c.here t).call with
  | idle | sending => rfl
  | errand x =>
      cases x with
      | signalling p source =>
          exact mark_of_false fun hp => hUndisturbed.enqueueEntry t source (by rw [hCall, hp])
      | reviving p i =>
          exact mark_of_false fun hp => (hUndisturbed.drainPendedActor t i).1 (by rw [hCall, hp])
      | revivingSignal p i =>
          exact mark_of_false fun hp => (hUndisturbed.drainPendedActor t i).2 (by rw [hCall, hp])
      | dispatching | entering | parking | counting | draining => rfl

omit [NeZero n] [DecidableEq ρ] [DecidableEq τ] in
theorem Undisturbed.thieves {q : Fin n} (hUndisturbed : Undisturbed q c) : thieves q c = 0 := by
  apply entries_eq_zero
  intro t
  show (c.here t).worker.grip.steals q = 0
  cases hPc : (c.here t).worker with
  | releasingSlot a p ticket stolen =>
      cases stolen with
      | false => rfl
      | true =>
          exact mark_of_false fun hp => (hUndisturbed.trySteal t a).1 ticket (by rw [hPc, hp])
  | takingPermit a p =>
      exact mark_of_false fun hp => (hUndisturbed.trySteal t a).2 (by rw [hPc, hp])
  | _ => rfl

omit [NeZero n] [DecidableEq ρ] in
/-- An owner that is blocked has no permit in its hands. -/
theorem permits_of_parked {w : Fin n} (hParked : (c.here (.worker w)).worker = .parked) :
    entries (fun t (l : Local n τ ρ β) => l.stance.grip.permits w t) c.here = 0 := by
  apply entries_eq_zero
  intro t
  by_cases ht : t = .worker w
  · subst ht
    simp only [Local.stance, hParked, WorkerPc.grip, Grip.permits]
  · cases hGrip : (c.here t).stance.grip with
    | permitted => exact mark_of_false ht
    | _ => rfl

/-- As long as no thief is late, a worker blocked with an entry in its own queue has a
permit to wake up by. -/
theorem permit_of_parked (reach : RunsTo cfg stealsSettled c) {w : Fin n}
    (hUndisturbed : Undisturbed w c) (hParked : (c.here (.worker w)).worker = .parked)
    (hItems : (c.shared.dispatcher.queues w).items ≠ []) : 0 < c.shared.dispatcher.semas w := by
  have hLedger := permitLedger_le reach w
  rw [permitLedger_eq, hUndisturbed.producers, hUndisturbed.thieves, permits_of_parked hParked] at hLedger
  have hLength := List.length_pos_iff.mpr hItems
  simp only [unsignalled] at hLedger
  omega

omit [NeZero n] [DecidableEq ρ] [DecidableEq τ] [Fintype τ] in
theorem Undisturbed.of_idle {q : Fin n} (hCalls : ∀ t, (c.here t).call.errand?.isNone)
    (hSteals : ∀ t, (c.here t).worker.grip.steals q = 0) : Undisturbed q c := by
  have hIdle : ∀ t x, (c.here t).call ≠ .errand x := by
    intro t x hCall
    have hNone := hCalls t
    rw [hCall] at hNone
    cases hNone
  refine ⟨fun t source => hIdle t _, fun t i => ⟨hIdle t _, hIdle t _⟩, fun t a => ⟨?_, ?_⟩⟩
  · intro ticket hPc
    have hNone := hSteals t
    simp [hPc, WorkerPc.grip, Grip.steals] at hNone
  · intro hPc
    have hNone := hSteals t
    simp [hPc, WorkerPc.grip, Grip.steals] at hNone

/-- A worker starts, finds nothing and blocks. -/
def goPark (w : Fin 2) : List (Thread 2 Unit × Choice 2 (Fin 3) Bool) :=
  (.control, .launch w) :: List.replicate 5 (.worker w, .go)

def afterParkAndSend :
    Config (Thread 2 Unit) (Shared 2 Unit (Fin 3) Bool) (Local 2 Unit (Fin 3) Bool) :=
  ((step sample).replay stealsSettled (initial sample)
    ([(.control, .start)] ++ goPark 0 ++ sendTo 0 4)).get (by decide)

theorem permit_of_parked_afterParkAndSend : 0 < afterParkAndSend.shared.dispatcher.semas 0 :=
  permit_of_parked (Reach.replay (.start rfl) (Option.some_get _).symm)
    (.of_idle (by decide) (by decide)) rfl (by decide)

/-- Worker 1 steals the entry of worker 0, which takes its permit, finds nothing and
blocks again. A second entry comes with a permit of its own, and only then does worker 1
take a permit back. -/
def lateThief : List (Thread 2 Unit × Choice 2 (Fin 3) Bool) :=
  ([(.control, .start)] : Schedule 2) ++ goPark 0 ++ goPark 1 ++ ([(.worker 1, .timeout)] : Schedule 2) ++
  sendTo 0 4 ++ ([(.worker 1, .go)] : Schedule 2) ++ (List.replicate 4 (.worker 0, .go) : Schedule 2) ++
  sendTo 2 4 ++ (List.replicate 2 (.worker 1, .go) : Schedule 2)

def afterLateThief :
    Config (Thread 2 Unit) (Shared 2 Unit (Fin 3) Bool) (Local 2 Unit (Fin 3) Bool) :=
  ((step sample).replay anyStep (initial sample) lateThief).get (by decide)

/-- Worker 0 is blocked without a permit, and its queue holds an entry. -/
theorem no_permit_lateThief : Reachable sample afterLateThief ∧
    afterLateThief.shared.dispatcher.running = true ∧ Undisturbed 0 afterLateThief ∧
    (afterLateThief.here (.worker 0)).worker = .parked ∧
    (afterLateThief.shared.dispatcher.queues 0).items = [2] ∧
    afterLateThief.shared.dispatcher.semas 0 = 0 :=
  ⟨Reach.replay (.start rfl) (Option.some_get _).symm, by decide,
    .of_idle (by decide) (by decide), rfl, by decide, by decide⟩

end Runs

end ActorSystem
