import V2Engine.EventLoop.EventLoopEpoll
import V2Engine.Interleaving.Inevitable
import V2Engine.Interleaving.Ledger
import Mathlib.Data.Fintype.Option

/-! Whether calls come back from `post`. A thread there waits for a free slot of the queue,
which only a running loop makes. While the loop does not run, the queue must have a slot
for everyone who waits. -/
namespace EventLoopEpoll

open Interleaving

variable {φ η τ : Type*}

instance [Fintype τ] : Fintype (Thread τ) :=
  Fintype.ofEquiv (Option τ)
    { toFun := fun o => o.elim .loop .other
      invFun := fun
        | .loop => none
        | .other t => some t
      left_inv := by rintro (_ | _) <;> rfl
      right_inv := by rintro (_ | _) <;> rfl }

/-- The thread is in `post`. -/
def Place.posts : Place φ → Bool
  | .posting _ => true
  | _ => false

/-- The call leads to `post`, unless the loop's thread makes it. -/
def Choice.posts (s : State φ η) : Choice φ η → Bool
  | .subscribe fd _ => (s.handlers fd).isNone
  | .unsubscribe _ | .post => true
  | _ => false

/-- `run` returns. -/
def Choice.leaves : Choice φ η → Bool
  | .leave | .waitFails => true
  | _ => false

/-- What one thread adds to the crowd: its own entry, and the queue. -/
def weight (s : State φ η) (place : Place φ) : Int := s.pendingOps.length + mark place.posts

/-- The operations in the queue and those whose threads wait in `post`. -/
def crowd [Fintype τ] (c : Config (Thread τ) (State φ η) (Place φ)) : Int :=
  ledger (fun s => s.pendingOps.length) (fun _ place => mark place.posts) c

/-- While the loop does not run, a call goes to `post` only if there is a free slot for it
besides those for the threads that already wait, and the loop ends only if there is a slot
for each of them. -/
def keepsRoom [Fintype τ] (c : Config (Thread τ) (State φ η) (Place φ)) (thread : Thread τ)
    (choice : Choice φ η) : Prop :=
  (choice.posts c.shared → thread.isLoop ∨ c.shared.phase = .inside ∨
    crowd c < kPendingOpsCapacity) ∧
  (choice.leaves → crowd c ≤ kPendingOpsCapacity)

instance [Fintype τ] (c : Config (Thread τ) (State φ η) (Place φ)) (thread : Thread τ)
    (choice : Choice φ η) : Decidable (keepsRoom c thread choice) :=
  inferInstanceAs (Decidable (_ ∧ _))

section Runs

variable [DecidableEq φ] [DecidableEq τ]

/-- The step goes on with a call, or the loop takes an operation from the queue. -/
def Continues (place : Place φ) (choice : Choice φ η) : Prop := place ≠ .idle ∨ choice = .drain

/-- A step of a call or of the draining; the number counts the calls yet to be made. -/
inductive Goes : Config (Thread τ) (State φ η) (Place φ) × Nat →
    Config (Thread τ) (State φ η) (Place φ) × Nat → Prop where
  | step {c d : Config (Thread τ) (State φ η) (Place φ)} {thread : Thread τ}
      {choice : Choice φ η} {calls : Nat} (continues : Continues (c.here thread) choice)
      (h : step.next c thread choice = some d) : Goes (c, calls) (d, calls)

/-- Whatever else a thread does, at most `calls` times. -/
inductive Disturbs (allowed : Config (Thread τ) (State φ η) (Place φ) → Thread τ → Choice φ η → Prop) :
    Config (Thread τ) (State φ η) (Place φ) × Nat →
    Config (Thread τ) (State φ η) (Place φ) × Nat → Prop where
  | step {c d : Config (Thread τ) (State φ η) (Place φ)} {thread : Thread τ}
      {choice : Choice φ η} {calls : Nat} (begins : ¬Continues (c.here thread) choice)
      (admitted : allowed c thread choice) (h : step.next c thread choice = some d) :
      Disturbs allowed (c, calls + 1) (d, calls)

/-- Thread `t` comes back from the call it is in, whatever finite number of calls are made
meanwhile. -/
def Returns (allowed : Config (Thread τ) (State φ η) (Place φ) → Thread τ → Choice φ η → Prop)
    (t : τ) (c : Config (Thread τ) (State φ η) (Place φ)) : Prop :=
  ∀ calls, Despite Goes (Disturbs allowed) (fun x => x.1.here (.other t) = .idle) (c, calls)

end Runs

section Steps

variable [DecidableEq φ] {s s' : State φ η} {place place' : Place φ} {choice : Choice φ η}
  {onLoop : Bool}

/-- An upper bound for the steps that a call takes, up to the end of its operation. -/
def Place.rank : Place φ → Int
  | .idle => 0
  | .posting _ => 5
  | .adding _ | .erasing _ => 2
  | .failing _ | .deleting _ => 1

def effort (s : State φ η) (place : Place φ) : Int := 4 * s.pendingOps.length + place.rank

omit [DecidableEq φ] in
theorem Place.rank_nonneg (place : Place φ) : 0 ≤ place.rank := by
  cases place <;> simp [Place.rank]

omit [DecidableEq φ] in
theorem Op.place_rank (op : Op φ) : op.place.rank ≤ 2 := by
  cases op <;> simp [Op.place, Place.rank]

omit [DecidableEq φ] in
theorem Op.place_posts (op : Op φ) : op.place.posts = false := by
  cases op <;> rfl

omit [DecidableEq φ] in
theorem weight_of_posts (hPosts : place.posts = true) :
    weight s place = s.pendingOps.length + 1 := by
  rw [weight, mark_of_true hPosts]

omit [DecidableEq φ] in
theorem weight_of_not_posts (hPosts : place.posts = false) :
    weight s place = s.pendingOps.length := by
  rw [weight, mark_of_false (by simp [hPosts]), add_zero]

/-- A call that goes on comes nearer to its end, and adds nobody to the crowd. -/
theorem call_goes (h : callStep s place choice = some (s', place')) :
    effort s' place' < effort s place ∧ weight s' place' = weight s place ∧
      s'.phase = s.phase ∧ place'.posts = false := by
  cases place <;> cases choice <;> simp only [callStep, reduceCtorEq] at h
  case posting.go op =>
    split_ifs at h
    cases h
    refine ⟨?_, ?_, rfl, rfl⟩
    · simp only [effort, Place.rank, List.length_append, List.length_singleton]
      omega
    · simp [weight, Place.posts, mark]
  case adding.go fd =>
    split_ifs at h <;> cases h <;> exact ⟨by simp [effort, Place.rank], rfl, rfl, rfl⟩
  all_goals
    cases h
    exact ⟨by simp [effort, Place.rank], rfl, rfl, rfl⟩

theorem call_choice (h : callStep s place choice = some (s', place')) :
    choice = .go ∨ choice = .fail := by
  cases place <;> cases choice <;> simp only [callStep, reduceCtorEq] at h
  case adding.fail => exact .inr rfl
  all_goals exact .inl rfl

/-- A call can go on, unless it waits in `post` for a free slot. -/
theorem call_can_go (s : State φ η) (hBusy : place ≠ .idle)
    (hRoom : place.posts = true → s.pendingOps.length < kPendingOpsCapacity) :
    ∃ after, callStep s place .go = some after := by
  cases place with
  | idle => exact absurd rfl hBusy
  | posting op => exact ⟨_, if_pos (hRoom rfl)⟩
  | adding fd =>
      simp only [callStep]
      split <;> exact ⟨_, rfl⟩
  | failing | erasing | deleting => exact ⟨_, rfl⟩

theorem begin_goes (h : beginStep s onLoop choice = some (s', place')) :
    s'.pendingOps = s.pendingOps ∧ s'.phase = s.phase ∧ place'.rank ≤ 5 ∧
      (place'.posts = true → onLoop = false ∧ choice.posts s = true) := by
  cases choice <;> simp only [beginStep, reduceCtorEq] at h
  case subscribe fd handler =>
    by_cases hTaken : (s.handlers fd).isSome
    · rw [State.subscribe, if_pos hTaken] at h
      cases h
      exact ⟨rfl, rfl, by simp [Place.rank], nofun⟩
    · rw [State.subscribe, if_neg hTaken] at h
      cases h
      refine ⟨rfl, rfl, ?_, fun hPosts => ?_⟩
      · cases onLoop <;> simp [Place.rank]
      · cases onLoop
        · exact ⟨rfl, by simpa [Choice.posts] using hTaken⟩
        · cases hPosts
  case unsubscribe fd =>
    cases h
    refine ⟨rfl, rfl, ?_, fun hPosts => ?_⟩
    · cases onLoop <;> simp [Place.rank]
    · cases onLoop
      · exact ⟨rfl, rfl⟩
      · cases hPosts
  case post =>
    split_ifs at h with hLoop
    cases h
    exact ⟨rfl, rfl, by simp [Place.rank], fun _ => ⟨by simpa using hLoop, rfl⟩⟩
  case openFd | closeFd =>
    split_ifs at h
    cases h
    exact ⟨rfl, rfl, by simp [Place.rank], nofun⟩
  all_goals
    cases h
    exact ⟨rfl, rfl, by simp [Place.rank], nofun⟩

omit [DecidableEq φ] in
/-- Only taking an operation changes the queue; the phase changes at the ends of `run`. -/
theorem run_goes (h : runStep s choice = some (s', place')) :
    (choice = .drain ∧ s'.phase = .inside ∧ effort s' place' < effort s .idle ∧
      place'.posts = false) ∨
    (choice ≠ .drain ∧ s'.pendingOps = s.pendingOps ∧ place' = .idle ∧
      (s'.phase = .inside ∨ choice.leaves = true)) := by
  cases choice <;> simp only [runStep, reduceCtorEq] at h
  case drain =>
    split_ifs at h with hPhase
    cases hQueue : s.pendingOps with
    | nil =>
        rw [hQueue] at h
        cases h
    | cons op rest =>
        rw [hQueue] at h
        cases h
        refine .inl ⟨rfl, hPhase, ?_, op.place_posts⟩
        have hRank := op.place_rank
        show 4 * (rest.length : Int) + op.place.rank < 4 * (s.pendingOps.length : Int) + 0
        rw [hQueue, List.length_cons]
        omega
  case run =>
    split_ifs at h
    cases h
    exact .inr ⟨nofun, rfl, rfl, .inl rfl⟩
  all_goals
    split_ifs at h
    cases h
    exact .inr ⟨nofun, rfl, rfl, .inr rfl⟩

end Steps

section Runs

variable [DecidableEq φ] [DecidableEq τ] [Fintype τ] {c : Config (Thread τ) (State φ η) (Place φ)}
  {thread : Thread τ} {choice : Choice φ η} {s' : State φ η} {place' : Place φ}

/-- The loop's thread is never in `post`, and while the loop does not run, the queue has a
slot for everyone. -/
structure Roomy (c : Config (Thread τ) (State φ η) (Place φ)) : Prop where
  loop : (c.here .loop).posts = false
  room : c.shared.phase ≠ .inside → crowd c ≤ kPendingOpsCapacity

omit [DecidableEq φ] in
theorem crowd_step (c : Config (Thread τ) (State φ η) (Place φ)) (thread : Thread τ)
    (s' : State φ η) (place' : Place φ) :
    crowd ⟨s', Function.update c.here thread place'⟩ =
      crowd c + (weight s' place' - weight c.shared (c.here thread)) :=
  ledger_step _ _ c thread s' place'

theorem Roomy.step (roomy : Roomy c) (hRoom : keepsRoom c thread choice)
    (h : step thread c.shared (c.here thread) choice = some (s', place')) :
    Roomy ⟨s', Function.update c.here thread place'⟩ := by
  have hLoop : (thread = .loop → place'.posts = false) →
      (Function.update c.here thread place' .loop).posts = false := by
    intro hOwn
    by_cases hThread : Thread.loop = thread
    · subst hThread
      rw [Function.update_self]
      exact hOwn rfl
    · rw [Function.update_of_ne hThread]
      exact roomy.loop
  have hCrowd := crowd_step c thread s' place'
  rcases step_cases h with ⟨hIdle, rfl, hRun⟩ | ⟨hIdle, _, hBegin⟩ | ⟨_, hCall⟩
  · rcases run_goes hRun with ⟨_, hInside, _, hPosts⟩ | ⟨_, hQueue, rfl, hPhase⟩
    · exact ⟨hLoop fun _ => hPosts, fun hOutside => absurd hInside hOutside⟩
    · refine ⟨hLoop fun _ => rfl, fun hOutside => ?_⟩
      rcases hPhase with hInside | hLeaves
      · exact absurd hInside hOutside
      · have hBefore := hRoom.2 hLeaves
        rw [hIdle, weight_of_not_posts rfl, weight_of_not_posts rfl, hQueue] at hCrowd
        omega
  · obtain ⟨hQueue, hPhase, _, hPosts⟩ := begin_goes hBegin
    refine ⟨hLoop fun hThread => ?_, fun hOutside => ?_⟩
    · by_contra hPosting
      rw [Bool.not_eq_false] at hPosting
      rw [hThread] at hPosts
      cases (hPosts hPosting).1
    · have hBefore := roomy.room (hPhase ▸ hOutside)
      have hSelf : weight c.shared (.idle : Place φ) = c.shared.pendingOps.length :=
        weight_of_not_posts rfl
      rw [hIdle, hSelf] at hCrowd
      cases hPosting : place'.posts with
      | false =>
          rw [weight_of_not_posts hPosting, hQueue] at hCrowd
          omega
      | true =>
          obtain ⟨hOther, hChoice⟩ := hPosts hPosting
          rcases hRoom.1 hChoice with hThread | hInside | hFree
          · rw [hOther] at hThread
            cases hThread
          · exact absurd (hPhase.trans hInside) hOutside
          · rw [weight_of_posts hPosting, hQueue] at hCrowd
            omega
  · obtain ⟨_, hWeight, hPhase, hPosts⟩ := call_goes hCall
    refine ⟨hLoop fun _ => hPosts, fun hOutside => ?_⟩
    have hBefore := roomy.room (hPhase ▸ hOutside)
    omega

theorem roomy (reach : RunsTo keepsRoom c) : Roomy c := by
  refine Reach.invariant (I := Roomy) ?_ ?_ reach
  · rintro c rfl
    refine ⟨rfl, fun _ => ?_⟩
    have hNobody : entries (fun _ place => mark (Place.posts place = true))
        (initial : Config (Thread τ) (State φ η) (Place φ)).here = 0 := entries_eq_zero fun _ => rfl
    simp only [crowd, ledger, hNobody]
    show ((0 : Nat) : Int) + 0 ≤ kPendingOpsCapacity
    decide
  · intro c thread choice s' place' _ roomy hRoom hLocal
    exact roomy.step hRoom hLocal

/-- What is left to do: for each call yet to be made, for each operation, for each thread. -/
def measure (x : Config (Thread τ) (State φ η) (Place φ) × Nat) : Nat :=
  (ledger (fun s => 4 * s.pendingOps.length) (fun _ place => place.rank) x.1).toNat + 10 * x.2

omit [DecidableEq φ] in
theorem measure_step (c : Config (Thread τ) (State φ η) (Place φ)) (thread : Thread τ)
    (s' : State φ η) (place' : Place φ) :
    ledger (fun s : State φ η => (4 * s.pendingOps.length : Int)) (fun _ place => place.rank)
        ⟨s', Function.update c.here thread place'⟩ =
      ledger (fun s => (4 * s.pendingOps.length : Int)) (fun _ place => place.rank) c +
        (effort s' place' - effort c.shared (c.here thread)) :=
  ledger_step _ _ c thread s' place'

omit [DecidableEq φ] [DecidableEq τ] in
theorem ledger_nonneg (c : Config (Thread τ) (State φ η) (Place φ)) :
    0 ≤ ledger (fun s => (4 * s.pendingOps.length : Int)) (fun _ place => place.rank) c := by
  have hEntries : 0 ≤ entries (fun _ place => place.rank) c.here :=
    entries_nonneg fun t => (c.here t).rank_nonneg
  simp only [ledger]
  omega

omit [Fintype τ] in
theorem goes_of_call (calls : Nat) {after : State φ η × Place φ} (hBusy : c.here thread ≠ .idle)
    (h : callStep c.shared (c.here thread) choice = some after) :
    ∃ x, Goes (c, calls) x := by
  have hStep : step thread c.shared (c.here thread) choice = some (after.1, after.2) := by
    cases hPlace : c.here thread with
    | idle => exact absurd hPlace hBusy
    | posting | adding | failing | erasing | deleting =>
        rw [hPlace] at h
        exact h
  exact ⟨_, .step (.inl hBusy) (Program.next_eq_some.mpr ⟨_, _, hStep, rfl⟩)⟩

omit [Fintype τ] in
theorem goes_of_drain (calls : Nat) (hIdle : c.here .loop = .idle)
    (hInside : c.shared.phase = .inside) (hQueue : c.shared.pendingOps ≠ []) :
    ∃ x, Goes (c, calls) x := by
  obtain ⟨op, rest, hOps⟩ := List.exists_cons_of_ne_nil hQueue
  have hStep : step (.loop : Thread τ) c.shared (c.here .loop) .drain =
      some ({ c.shared with pendingOps := rest }, op.place) := by
    rw [hIdle]
    show Option.or (runStep c.shared .drain) _ = _
    simp only [runStep, if_pos hInside, hOps, Option.some_or]
  exact ⟨_, .step (.inr rfl) (Program.next_eq_some.mpr ⟨_, _, hStep, rfl⟩)⟩

/-- A thread that waits in `post` finds a free slot, or the loop can go on. -/
theorem Roomy.can_go (roomy : Roomy c) (calls : Nat) {t : τ} (hBusy : c.here (.other t) ≠ .idle) :
    ∃ x, Goes (c, calls) x := by
  by_cases hRoom : (c.here (.other t)).posts = true → c.shared.pendingOps.length < kPendingOpsCapacity
  · obtain ⟨after, hCall⟩ := call_can_go c.shared hBusy hRoom
    exact goes_of_call calls hBusy hCall
  · obtain ⟨hPosts, hFull⟩ := Classical.not_imp.mp hRoom
    have hInside : c.shared.phase = .inside := by
      by_contra hOutside
      have hCrowd := roomy.room hOutside
      have hSelf := le_entries (w := fun _ place => mark (Place.posts place = true))
        (fun u => mark_nonneg ((c.here u).posts = true)) (Thread.other t)
      simp only [hPosts, mark_of_true] at hSelf
      simp only [crowd, ledger] at hCrowd
      omega
    by_cases hIdle : c.here .loop = .idle
    · apply goes_of_drain calls hIdle hInside
      intro hNil
      rw [hNil] at hFull
      exact hFull (show 0 < kPendingOpsCapacity by decide)
    · have hLoop : (c.here .loop).posts = true → c.shared.pendingOps.length < kPendingOpsCapacity := by
        intro hPosts
        rw [roomy.loop] at hPosts
        cases hPosts
      obtain ⟨after, hCall⟩ := call_can_go c.shared hIdle hLoop
      exact goes_of_call calls hIdle hCall

omit [DecidableEq τ] [Fintype τ] in
/-- Going on with a call takes effort from what is left, and so does the loop. -/
theorem goes_effort (h : step thread c.shared (c.here thread) choice = some (s', place'))
    (hContinues : Continues (c.here thread) choice) :
    effort s' place' < effort c.shared (c.here thread) := by
  rcases step_cases h with ⟨hIdle, rfl, hRun⟩ | ⟨hIdle, _, hBegin⟩ | ⟨_, hCall⟩
  · rcases run_goes hRun with ⟨_, _, hEffort, _⟩ | ⟨hOther, _⟩
    · rw [hIdle]
      exact hEffort
    · rcases hContinues with hBusy | hDrain
      · exact absurd hIdle hBusy
      · exact absurd hDrain hOther
  · rcases hContinues with hBusy | hDrain
    · exact absurd hIdle hBusy
    · rw [hDrain] at hBegin
      cases hBegin
  · exact (call_goes hCall).1

omit [DecidableEq τ] [Fintype τ] in
/-- Another call is worth at most five steps. -/
theorem begins_effort (h : step thread c.shared (c.here thread) choice = some (s', place'))
    (hBegins : ¬Continues (c.here thread) choice) :
    effort s' place' ≤ effort c.shared (c.here thread) + 5 := by
  rcases step_cases h with ⟨hIdle, rfl, hRun⟩ | ⟨hIdle, _, hBegin⟩ | ⟨hBusy, _⟩
  · rcases run_goes hRun with ⟨hDrain, _⟩ | ⟨_, hQueue, rfl, _⟩
    · exact absurd (.inr hDrain) hBegins
    · rw [hIdle, effort, effort, hQueue]
      omega
  · obtain ⟨hQueue, _, hRank, _⟩ := begin_goes hBegin
    have hNone : (.idle : Place φ).rank = 0 := rfl
    rw [hIdle, effort, effort, hQueue, hNone]
    omega
  · exact absurd (.inl hBusy) hBegins

omit [DecidableEq τ] in
theorem keepsRoom_of_continues (hContinues : Continues (c.here thread) choice)
    (h : step thread c.shared (c.here thread) choice = some (s', place')) :
    keepsRoom c thread choice := by
  have hQuiet : ∀ choice : Choice φ η, choice.posts c.shared = false → choice.leaves = false →
      keepsRoom c thread choice := by
    intro choice hPosts hLeaves
    constructor
    · intro h
      rw [hPosts] at h
      cases h
    · intro h
      rw [hLeaves] at h
      cases h
  rcases hContinues with hBusy | rfl
  · rcases step_cases h with ⟨hIdle, _⟩ | ⟨hIdle, _⟩ | ⟨_, hCall⟩
    · exact absurd hIdle hBusy
    · exact absurd hIdle hBusy
    · rcases call_choice hCall with rfl | rfl
      · exact hQuiet .go rfl rfl
      · exact hQuiet .fail rfl rfl
  · exact hQuiet .drain rfl rfl

/-- Every call comes back from `post`, as long as the queue has room for all of them
whenever the loop does not run. -/
theorem calls_return (reach : RunsTo keepsRoom c) (t : τ) : Returns keepsRoom t c := by
  intro calls
  refine Despite.of_measure (I := fun x => Roomy x.1) measure ?_ ?_ (roomy reach)
  · rintro ⟨c, calls⟩ hRoomy
    by_cases hIdle : c.here (.other t) = .idle
    · exact .inl hIdle
    · exact .inr (hRoomy.can_go calls hIdle)
  · rintro ⟨c, calls⟩ ⟨d, calls'⟩ hRoomy hNext
    rcases hNext with hGoes | hDisturbs
    · cases hGoes with
      | @step _ _ thread choice _ hContinues hStep =>
          obtain ⟨s', place', hLocal, rfl⟩ := Program.next_eq_some.mp hStep
          refine ⟨hRoomy.step (keepsRoom_of_continues hContinues hLocal) hLocal, ?_⟩
          have hEffort := goes_effort hLocal hContinues
          have hMeasure := measure_step c thread s' place'
          have hBefore := ledger_nonneg c
          have hAfter := ledger_nonneg ⟨s', Function.update c.here thread place'⟩
          simp only [measure]
          omega
    · cases hDisturbs with
      | @step _ _ thread choice _ hBegins hRoom hStep =>
          obtain ⟨s', place', hLocal, rfl⟩ := Program.next_eq_some.mp hStep
          refine ⟨hRoomy.step hRoom hLocal, ?_⟩
          have hEffort := begins_effort hLocal hBegins
          have hMeasure := measure_step c thread s' place'
          have hBefore := ledger_nonneg c
          have hAfter := ledger_nonneg ⟨s', Function.update c.here thread place'⟩
          simp only [measure]
          omega

/-- A call made while the loop runs, with its thread in `post`. -/
def afterUnsubscribe : Config (Thread Unit) (State Unit Unit) (Place Unit) :=
  (step.replay keepsRoom initial [(.other (), .start), (.loop, .run), (.other (), .unsubscribe ())]).get
    (by decide +kernel)

theorem calls_return_afterUnsubscribe : Returns keepsRoom () afterUnsubscribe ∧
    afterUnsubscribe.here (.other ()) = .posting (.remove ()) :=
  ⟨calls_return (Reach.replay (.start rfl) (Option.some_get _).symm) (), by decide +kernel⟩

end Runs

section Stopped

/-- The loop has ended with `k` operations in the queue, and nobody is in a call. -/
structure Ended (k : Nat) (c : Config (Thread Unit) (State Unit Unit) (Place Unit)) : Prop where
  reach : RunsTo anyStep c
  phase : c.shared.phase = .returned
  queued : c.shared.pendingOps.length = k
  idle : ∀ thread, c.here thread = .idle

def afterLeave : Config (Thread Unit) (State Unit Unit) (Place Unit) :=
  (step.replay anyStep initial
    [(.other (), .start), (.loop, .run), (.other (), .stop), (.loop, .leave)]).get (by decide +kernel)

theorem ended_afterLeave : Ended 0 afterLeave where
  reach := Reach.replay (.start rfl) (Option.some_get _).symm
  phase := by decide +kernel
  queued := by decide +kernel
  idle thread := by
    cases thread with
    | loop => decide +kernel
    | other t =>
        cases t
        decide +kernel

/-- The thread has called `unsubscribe` and is in `post`. -/
def waiting (c : Config (Thread Unit) (State Unit Unit) (Place Unit)) :
    Config (Thread Unit) (State Unit Unit) (Place Unit) :=
  ⟨(c.shared.unsubscribe false ()).1,
    Function.update c.here (.other ()) (.posting (.remove ()))⟩

theorem waiting_here (c : Config (Thread Unit) (State Unit Unit) (Place Unit)) :
    (waiting c).here (.other ()) = .posting (.remove ()) := by
  simp [waiting]

theorem Ended.waits {k : Nat} {c : Config (Thread Unit) (State Unit Unit) (Place Unit)}
    (ended : Ended k c) : RunsTo anyStep (waiting c) := by
  have hCall : step.next c (.other ()) (.unsubscribe ()) = some (waiting c) := by
    refine Program.next_eq_some.mpr ⟨_, _, ?_, rfl⟩
    rw [ended.idle]
    rfl
  exact .step ended.reach trivial hCall

/-- After `run` has returned, one thread unsubscribes descriptors one after another. -/
theorem exists_ended (k : Nat) (hk : k ≤ kPendingOpsCapacity) : ∃ c, Ended k c := by
  induction k with
  | zero => exact ⟨afterLeave, ended_afterLeave⟩
  | succ k ih =>
      obtain ⟨c, ended⟩ := ih (Nat.le_of_succ_le hk)
      have hRoom : (waiting c).shared.pendingOps.length < kPendingOpsCapacity :=
        lt_of_eq_of_lt ended.queued hk
      have hPost : step.next (waiting c) (.other ()) .go =
          some ⟨{ (waiting c).shared with
            pendingOps := (waiting c).shared.pendingOps ++ [.remove ()] },
            Function.update (waiting c).here (.other ()) .idle⟩ := by
        apply Program.next_eq_some.mpr
        refine ⟨_, _, ?_, rfl⟩
        rw [waiting_here]
        exact if_pos hRoom
      refine ⟨_, .step ended.waits trivial hPost, ended.phase, ?_, fun thread => ?_⟩
      · simp only [List.length_append, List.length_singleton]
        exact congrArg (· + 1) ended.queued
      · show Function.update (Function.update c.here _ _) _ _ thread = _
        by_cases hThread : thread = .other ()
        · rw [hThread, Function.update_self]
        · rw [Function.update_of_ne hThread, Function.update_of_ne hThread]
          exact ended.idle thread

/-- The loop has ended and its queue is full: the next call never comes back from `post`. -/
theorem not_returns_afterStop : ∃ c : Config (Thread Unit) (State Unit Unit) (Place Unit),
    RunsTo anyStep c ∧ c.shared.phase = .returned ∧ ¬Returns anyStep () c := by
  obtain ⟨c, ended⟩ := exists_ended kPendingOpsCapacity le_rfl
  refine ⟨waiting c, ended.waits, ended.phase, fun hReturns => ?_⟩
  have hStuck : ∀ x, ¬Goes (waiting c, 0) x := by
    intro x hGoes
    cases hGoes with
    | @step _ _ thread choice _ hContinues hNext =>
        obtain ⟨s', place', hLocal, rfl⟩ := Program.next_eq_some.mp hNext
        cases thread with
        | loop =>
            have hLoop : (waiting c).here .loop = .idle := by
              simpa [waiting] using ended.idle .loop
            rcases hContinues with hBusy | hDrain
            · exact hBusy hLoop
            · rw [hLoop, hDrain] at hLocal
              have hPhase : (waiting c).shared.phase = .returned := ended.phase
              simp [step, idleStep, Thread.isLoop, runStep, beginStep, hPhase] at hLocal
        | other t =>
            have hQueue : (waiting c).shared.pendingOps.length = kPendingOpsCapacity := ended.queued
            cases t
            rw [waiting_here] at hLocal
            cases choice <;> simp [step, callStep, hQueue] at hLocal
  have hIdle := (hReturns 0).goal_of_stuck hStuck
  cases (waiting_here c).symm.trans hIdle

end Stopped

end EventLoopEpoll
