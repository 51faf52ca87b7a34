import V2Engine.Interleaving.Program
import V2Engine.Timer.TimerBase

/-! `Timer`, the portable one: its thread sleeps on a semaphore until the first timer is
due, and whoever adds a timer that comes earlier wakes it up. Started, and not stopped. -/
namespace Timer

open Interleaving

variable {τ : Type*}

/-- `holder` has `mutex_` and is about to release the semaphore: the timer's thread itself
(`some none`) or a caller. Otherwise `mutex_` is free between two steps. -/
structure State (τ : Type*) where
  base : TimerBase
  permits : Nat
  holder : Option (Option τ)

/-- Where the thread stands in `runLoop`. -/
inductive RunPc where
  | loop
  | acquiring
  | waiting (expiry : Nat)
  | expired (now : Nat)
  | calling (ready : List Nat)
  | signalling
  deriving DecidableEq

/-- A time limit is over when the clock shows `now`. -/
inductive RunChoice where
  | go
  | timeout (now : Nat)

namespace State

def start : State τ := ⟨.constructed, 0, none⟩

variable (s : State τ)

/-- `sema_.release()`, and `mutex_` is left. -/
def signal : State τ := { s with permits := s.permits + 1, holder := none }

end State

/-- A step of `runLoop`, and of `executeExpiredTimers` that it calls. -/
def runLoop (s : State τ) : RunPc → RunChoice → Option (State τ × RunPc)
  | .loop, .go =>
      if s.holder.isNone then
        let base := s.base.purgeDeadEntries
        some ({ s with base := base },
          if base.hasLiveTop then .waiting base.nextExpiry else .acquiring)
      else none
  | .acquiring, .go =>
      if 0 < s.permits then some ({ s with permits := s.permits - 1 }, .loop) else none
  | .waiting _, .go =>
      if 0 < s.permits then some ({ s with permits := s.permits - 1 }, .loop) else none
  | .waiting expiry, .timeout now => if expiry ≤ now then some (s, .expired now) else none
  | .expired now, .go =>
      if s.holder.isNone then
        let collected := s.base.collectExpired now
        some ({ s with base := collected.2 }, .calling collected.1)
      else none
  | .calling ready, .go =>
      if s.holder.isNone then
        some ({ s with base := s.base.reschedule ready, holder := some none }, .signalling)
      else none
  | .signalling, .go => some (s.signal, .loop)
  | _, _ => none

/-- Where a caller stands in `add` or `clear`; `cancel` is a single step. -/
inductive CallPc where
  | idle
  | adding (now delayMs : Nat) (repeating : Bool)
  | signalling
  deriving DecidableEq

/-- The clock shows `now` at the beginning of `add`. -/
inductive CallChoice where
  | add (now delayMs : Nat) (repeating : Bool)
  | cancel (id : Nat)
  | clear
  | go

def call (caller : τ) (s : State τ) : CallPc → CallChoice → Option (State τ × CallPc)
  | .idle, .add now delayMs repeating => some (s, .adding now delayMs repeating)
  | .adding now delayMs repeating, .go =>
      if s.holder.isNone then
        let added := s.base.add now delayMs repeating
        if added.2.1 then some ({ s with base := added.2.2, holder := some (some caller) }, .signalling)
        else some ({ s with base := added.2.2 }, .idle)
      else none
  | .idle, .cancel id =>
      if s.holder.isNone then some ({ s with base := s.base.cancel id }, .idle) else none
  | .idle, .clear =>
      if s.holder.isNone then
        some ({ s with base := s.base.clear, holder := some (some caller) }, .signalling)
      else none
  | .signalling, .go => some (s.signal, .idle)
  | _, _ => none

/-- The thread of the timer with any callers. -/
def timerProgram : Program (Unit ⊕ τ) (State τ) (RunPc ⊕ CallPc) (RunChoice ⊕ CallChoice) :=
  Program.either (fun _ => runLoop) call

def timerStart : Config (Unit ⊕ τ) (State τ) (RunPc ⊕ CallPc) := Config.either .start .loop .idle

/-- What the thread has collected and not yet put back. -/
def RunPc.ready : RunPc → List Nat
  | .calling ready => ready
  | _ => []

/-- Nothing but a permit would get the thread up for what is due at `due`. -/
def RunPc.Oversleeps : RunPc → Nat → Prop
  | .acquiring, _ => True
  | .waiting expiry, due => due < expiry
  | _, _ => False

/-- The thread is blocked if there is no permit. -/
def RunPc.Blocked (pc : RunPc) : Prop := pc = .acquiring ∨ ∃ expiry, pc = .waiting expiry

section Waking

variable {s s' : State τ} {pc pc' : RunPc} {place place' : CallPc}

theorem RunPc.Oversleeps.earlier {due due' : Nat} (h : pc.Oversleeps due') (hLe : due ≤ due') :
    pc.Oversleeps due := by
  cases pc <;> simp only [RunPc.Oversleeps] at h ⊢
  omega

/-- Nothing in the heap is overslept, unless a permit is there or on its way. -/
structure Awake (s : State τ) (pc : RunPc) : Prop where
  sound : s.base.Sound pc.ready
  holds : s.holder = some none ↔ pc = .signalling
  wakes : s.permits = 0 → s.holder = none → ∀ due ∈ s.base.dues, ¬pc.Oversleeps due

/-- The caller has `mutex_` if and only if it is about to release the semaphore. -/
def Holds (s : State τ) (caller : τ) (place : CallPc) : Prop :=
  s.holder = some (some caller) ↔ place = .signalling

theorem runLoop_awake {choice : RunChoice} (awake : Awake s pc)
    (h : runLoop s pc choice = some (s', pc')) :
    Awake s' pc' ∧ ∀ caller place, Holds s caller place → Holds s' caller place := by
  obtain ⟨sound, holds, wakes⟩ := awake
  cases pc <;> cases choice <;> simp only [runLoop, reduceCtorEq] at h
  case loop.go =>
    split_ifs at h with hFree hTop <;> cases h
    · obtain ⟨purged, _⟩ := sound.purge
      refine ⟨⟨purged, by simpa using holds, fun _ _ due hDue => ?_⟩, fun _ _ => id⟩
      exact Nat.not_lt_of_le (purged.nextExpiry_le hDue)
    · obtain ⟨purged, _, hEnd, _⟩ := sound.purge
      refine ⟨⟨purged, by simpa using holds, fun _ _ due hDue => ?_⟩, fun _ _ => id⟩
      replace hDue : due ∈ s.base.purgeDeadEntries.dues := hDue
      rw [hEnd.resolve_right hTop] at hDue
      cases hDue
  case acquiring.go | waiting.go =>
    split_ifs at h
    cases h
    exact ⟨⟨sound, by simpa using holds, fun _ _ _ _ => id⟩, fun _ _ => id⟩
  case waiting.timeout expiry now =>
    split_ifs at h
    cases h
    exact ⟨⟨sound, by simpa using holds, fun _ _ _ _ => id⟩, fun _ _ => id⟩
  case expired.go now =>
    split_ifs at h
    cases h
    exact ⟨⟨(sound.collected now).1, by simpa using holds, fun _ _ _ _ => id⟩, fun _ _ => id⟩
  case calling.go ready =>
    split_ifs at h with hFree
    cases h
    have hNone : s.holder = none := by simpa using hFree
    refine ⟨⟨(TimerBase.reschedule_spec ready s.base sound).1, by simp, fun _ _ _ _ => id⟩, ?_⟩
    intro caller place hHolds
    simpa [Holds, hNone] using hHolds
  case signalling.go =>
    cases h
    have hHolder := holds.mpr rfl
    refine ⟨⟨sound, by simp [State.signal], fun _ _ _ _ => id⟩, ?_⟩
    intro caller place hHolds
    simpa [Holds, State.signal, hHolder] using hHolds

/-- What a caller does to the thread of the timer. -/
theorem call_awake {caller : τ} {choice : CallChoice} (hHolds : Holds s caller place)
    (h : call caller s place choice = some (s', place')) (awake : Awake s pc) : Awake s' pc := by
  obtain ⟨sound, holds, wakes⟩ := awake
  cases place <;> cases choice <;> simp only [call, reduceCtorEq] at h
  case idle.add =>
    cases h
    exact ⟨sound, holds, wakes⟩
  case idle.cancel id =>
    split_ifs at h
    cases h
    obtain ⟨hSound, _, hDues⟩ := sound.cancel id
    exact ⟨hSound, holds, fun hPermits hHolder due hDue => wakes hPermits hHolder due (hDues hDue)⟩
  case idle.clear =>
    split_ifs at h with hFree
    cases h
    have hNone : s.holder = none := by simpa using hFree
    exact ⟨sound.clear, by simpa [hNone] using holds, nofun⟩
  case adding.go now delayMs repeating =>
    split_ifs at h with hFree hNeed
    · cases h
      have hNone : s.holder = none := by simpa using hFree
      exact ⟨(sound.add now delayMs repeating).1, by simpa [hNone] using holds, nofun⟩
    · cases h
      obtain ⟨hSound, _, _, hDues, hFirst⟩ := sound.add now delayMs repeating
      refine ⟨hSound, holds, fun hPermits hHolder due hDue hLate => ?_⟩
      rcases List.mem_cons.mp (hDues.mem_iff.mp hDue) with rfl | hOld
      · -- Something in the heap is due before the new timer, and is not overslept.
        apply hNeed
        rw [hFirst]
        intro d hd
        by_contra hEarlier
        exact wakes hPermits hHolder d hd (hLate.earlier (Nat.le_of_not_lt hEarlier))
      · exact wakes hPermits hHolder due hOld hLate
  case signalling.go =>
    cases h
    have hHolder := hHolds.mpr rfl
    exact ⟨sound, by simpa [State.signal, hHolder] using holds, nofun⟩

theorem call_holds {caller : τ} {choice : CallChoice} (hHolds : Holds s caller place)
    (h : call caller s place choice = some (s', place')) :
    Holds s' caller place' ∧
      ∀ other there, other ≠ caller → Holds s other there → Holds s' other there := by
  unfold Holds at hHolds ⊢
  cases place <;> cases choice <;> simp only [call, reduceCtorEq] at h
  case idle.add =>
    cases h
    exact ⟨by simpa using hHolds, fun _ _ _ => id⟩
  case idle.cancel =>
    split_ifs at h
    cases h
    exact ⟨hHolds, fun _ _ _ => id⟩
  case idle.clear =>
    split_ifs at h with hFree
    cases h
    have hNone : s.holder = none := by simpa using hFree
    refine ⟨by simp, fun other there hOther hThere => ?_⟩
    simpa [hNone, hOther.symm] using hThere
  case adding.go now delayMs repeating =>
    split_ifs at h with hFree hNeed
    · cases h
      have hNone : s.holder = none := by simpa using hFree
      refine ⟨by simp, fun other there hOther hThere => ?_⟩
      simpa [hNone, hOther.symm] using hThere
    · cases h
      exact ⟨by simpa using hHolds, fun _ _ _ => id⟩
  case signalling.go =>
    cases h
    have hHolder := hHolds.mpr rfl
    refine ⟨by simp [State.signal], fun other there hOther hThere => ?_⟩
    simpa [State.signal, hHolder, hOther.symm] using hThere

end Waking

variable [DecidableEq τ]

/-- While no caller is in a call and there is no permit, the thread is blocked only if no
live timer is pending, or until no later than the earliest of them is due. -/
theorem never_oversleeps {c : Config (Unit ⊕ τ) (State τ) (RunPc ⊕ CallPc)} {pc : RunPc}
    (reach : Reach timerProgram (· = timerStart) anyStep c) (hPermits : c.shared.permits = 0)
    (hOutside : ∀ caller, c.here (.inr caller) = .inr .idle) (hHere : c.here (.inl ()) = .inl pc)
    (hBlocked : pc.Blocked) :
    (∀ id, c.shared.base.find id = none) ∨
      ∃ expiry, pc = .waiting expiry ∧
        ∀ id node, c.shared.base.find id = some node → expiry ≤ node.expiry := by
  have outlined : Outlined (fun _ => True) (fun s (_ : Unit) pc => Awake s pc) Holds c := by
    refine Reach.outlined ?_ ?_ ?_ reach
    · exact ⟨trivial, fun _ => ⟨TimerBase.constructed_sound, by simp [State.start], nofun⟩,
        fun _ => by simp [Holds, State.start]⟩
    · intro _ s pc choice s' pc' _ awake h
      obtain ⟨hAwake, hHolds⟩ := runLoop_awake awake h
      exact ⟨trivial, hAwake, fun _ _ hOther => absurd rfl hOther, hHolds⟩
    · intro caller s place choice s' place' _ hHolds h
      obtain ⟨hSelf, hOthers⟩ := call_holds hHolds h
      exact ⟨trivial, hSelf, hOthers, fun _ _ => call_awake hHolds h⟩
  obtain ⟨pc', hHere', awake⟩ := outlined.left ()
  cases hHere.symm.trans hHere'
  have hHolder : c.shared.holder = none := by
    rcases hHolder : c.shared.holder with _ | _ | caller
    · rfl
    · rw [awake.holds.mp hHolder] at hBlocked
      rcases hBlocked with h | ⟨_, h⟩ <;> cases h
    · obtain ⟨place, hPlace, hHolds⟩ := outlined.right caller
      cases (hOutside caller).symm.trans hPlace
      cases hHolds.mp hHolder
  have hReady : pc.ready = [] := by
    rcases hBlocked with rfl | ⟨_, rfl⟩ <;> rfl
  have hLive : ∀ id node, c.shared.base.find id = some node → ¬pc.Oversleeps node.expiry := by
    intro id node hFind
    apply awake.wakes hPermits hHolder
    apply awake.sound.due_mem hFind
    rw [hReady]
    exact List.not_mem_nil
  rcases hBlocked with rfl | ⟨expiry, rfl⟩
  · left
    intro id
    cases hFind : c.shared.base.find id with
    | none => rfl
    | some node => exact absurd trivial (hLive id node hFind)
  · right
    exact ⟨expiry, rfl, fun id node hFind => Nat.le_of_not_lt (hLive id node hFind)⟩

/-- A first timer wakes the thread, a later one does not. -/
def afterLaterOne : Config (Unit ⊕ Fin 2) (State (Fin 2)) (RunPc ⊕ CallPc) :=
  (Program.replay timerProgram anyStep timerStart
    [(.inl (), .inl .go), (.inr 0, .inr (.add 0 5 false)), (.inr 0, .inr .go), (.inr 0, .inr .go),
     (.inl (), .inl .go), (.inl (), .inl .go), (.inr 1, .inr (.add 1000 9 true)),
     (.inr 1, .inr .go)]).get (by decide +kernel)

theorem never_oversleeps_afterLaterOne :
    (∀ id, afterLaterOne.shared.base.find id = none) ∨
      ∃ expiry, RunPc.waiting 5000000 = .waiting expiry ∧
        ∀ id node, afterLaterOne.shared.base.find id = some node → expiry ≤ node.expiry :=
  never_oversleeps (Reach.replay (.start rfl) (Option.some_get _).symm) (by decide +kernel)
    (by decide +kernel) (by decide +kernel) (.inr ⟨_, rfl⟩)

end Timer
