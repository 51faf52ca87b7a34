import V2Engine.EventLoop.Posting

/-! Whether `handlers_` and the epoll set agree. An operation in the queue knows only the
number of its descriptor. As long as a number is not subscribed again before the removals
of an earlier `unsubscribe` are over, and not unsubscribed before a `subscribe` has posted
its operation, the operations of a number find what they were meant for. -/
namespace EventLoopEpoll

open Interleaving

variable {φ η τ : Type*}

section Lines

/-- What the loop is doing with the descriptor. -/
inductive Stage where
  | free
  | adding
  | failing
  | erasing
  | deleting
  deriving DecidableEq

/-- What concerns one descriptor: its state, how many threads wait to post its addition or
its removal, and its operations in the queue, `true` for an addition. -/
@[ext]
structure Line (η : Type*) where
  opened : Bool
  epoll : Bool
  handler : Option η
  subscribed : Option η
  adders : Nat
  removers : Nat
  stage : Stage
  queue : List Bool

/-- The removals of earlier calls of `unsubscribe` are over. -/
def Line.Cleared (l : Line η) : Prop := l.removers = 0 ∧ false ∉ l.queue ∧ l.stage ≠ .erasing

/-- What a step may do to a descriptor. -/
inductive Line.Move : Line η → Line η → Prop where
  | stay (l : Line η) : Move l l
  | openFd {l : Line η} : Move l { l with opened := true }
  | closeFd {l : Line η} (h : l.subscribed = none) : Move l { l with opened := false, epoll := false }
  | subscribe {l : Line η} (handler : η) (hOpen : l.opened = true) (hFree : l.handler = none)
      (hCleared : l.Cleared) :
      Move l { l with
        handler := some handler
        subscribed := some handler
        adders := l.adders + 1 }
  | subscribeHere {l : Line η} (handler : η) (hOpen : l.opened = true) (hFree : l.handler = none)
      (hCleared : l.Cleared) (hStage : l.stage = .free) :
      Move l { l with
        handler := some handler
        subscribed := some handler
        stage := .adding }
  | unsubscribe {l : Line η} (hAdders : l.adders = 0) :
      Move l { l with handler := none, subscribed := none, removers := l.removers + 1 }
  | unsubscribeHere {l : Line η} (hAdders : l.adders = 0) (hLast : l.queue.getLast? ≠ some true)
      (hStage : l.stage = .free) :
      Move l { l with handler := none, subscribed := none, stage := .deleting }
  | postAdd {l : Line η} (h : 0 < l.adders) :
      Move l { l with adders := l.adders - 1, queue := l.queue ++ [true] }
  | postRemove {l : Line η} (h : 0 < l.removers) :
      Move l { l with removers := l.removers - 1, queue := l.queue ++ [false] }
  | takeAdd {l : Line η} (rest : List Bool) (hStage : l.stage = .free) (h : l.queue = true :: rest) :
      Move l { l with queue := rest, stage := .adding }
  | takeRemove {l : Line η} (rest : List Bool) (hStage : l.stage = .free)
      (h : l.queue = false :: rest) : Move l { l with queue := rest, stage := .erasing }
  | add {l : Line η} (hStage : l.stage = .adding) (hOpen : l.opened = true)
      (hOut : l.epoll = false) : Move l { l with epoll := true, stage := .free }
  | refuse {l : Line η} (hStage : l.stage = .adding) : Move l { l with stage := .failing }
  | giveUp {l : Line η} (hStage : l.stage = .failing) :
      Move l { l with handler := none, subscribed := none, stage := .free }
  | erase {l : Line η} (hStage : l.stage = .erasing) :
      Move l { l with handler := none, stage := .deleting }
  | delete {l : Line η} (hStage : l.stage = .deleting) :
      Move l { l with epoll := false, stage := .free }

theorem Line.Move.to {l l' l'' : Line η} (move : l.Move l') (h : l'' = l') : l.Move l'' := h ▸ move

/-- The additions under way: posted soon, in the queue, or with the loop. -/
def Line.additions (l : Line η) : Nat :=
  l.adders + l.queue.count true + if l.stage = .adding ∨ l.stage = .failing then 1 else 0

/-- Whether the descriptor can be in the epoll set once the loop has done what it is in the
middle of. -/
def Line.staged (l : Line η) : Bool :=
  match l.stage with
  | .free => l.epoll
  | .adding | .failing => true
  | .erasing | .deleting => false

/-- The same once the loop has worked off the queue. -/
def Line.outcome (l : Line η) : Bool := l.queue.getLast?.getD l.staged

/-- A descriptor that is subscribed: its addition is under way, or it is in the epoll set. -/
structure Line.Listening (l : Line η) : Prop where
  opened : l.opened = true
  cleared : l.Cleared
  stage : (l.additions = 1 ∧ (l.epoll = false ∨ l.stage = .deleting)) ∨
    (l.additions = 0 ∧ l.epoll = true ∧ l.stage ≠ .deleting)

/-- A descriptor that is not subscribed is going to be out of the epoll set. -/
structure Line.Quiet (l : Line η) : Prop where
  adders : l.adders = 0
  ending : 0 < l.removers ∨ l.outcome = false

structure Line.Orderly (l : Line η) : Prop where
  handler : l.handler = l.subscribed
  closed : l.opened = false → l.epoll = false
  listening : l.subscribed ≠ none → l.Listening
  quiet : l.subscribed = none → l.Quiet

theorem Line.Quiet.of_cleared {l : Line η} (quiet : l.Quiet) (hCleared : l.Cleared) :
    l.queue = [] ∧ l.staged = false := by
  obtain ⟨hRemovers, hQueue, _⟩ := hCleared
  have hOutcome : l.outcome = false := by
    rcases quiet.ending with hSome | hOver
    · omega
    · exact hOver
  cases hLast : l.queue.getLast? with
  | none =>
      simp only [Line.outcome, hLast, Option.getD_none] at hOutcome
      exact ⟨List.getLast?_eq_none_iff.mp hLast, hOutcome⟩
  | some b =>
      simp only [Line.outcome, hLast, Option.getD_some] at hOutcome
      rw [hOutcome] at hLast
      exact absurd (List.mem_of_getLast? hLast) hQueue

/-- Whatever waits in the queue, less in the middle comes to less in the end. -/
theorem Line.Quiet.lower {l l' : Line η} (quiet : l.Quiet) (hAdders : l'.adders = l.adders)
    (hRemovers : l'.removers = l.removers) (hQueue : l'.queue = l.queue)
    (hStaged : l.staged = false → l'.staged = false) : l'.Quiet := by
  refine ⟨hAdders.trans quiet.adders, quiet.ending.imp (fun h => hRemovers ▸ h) fun hOver => ?_⟩
  unfold Line.outcome at hOver ⊢
  rw [hQueue]
  cases hLast : l.queue.getLast? with
  | none =>
      rw [hLast] at hOver
      exact hStaged hOver
  | some b =>
      rw [hLast] at hOver
      exact hOver

theorem Line.outcome_push (l : Line η) (b : Bool) (adders removers : Nat) :
    Line.outcome { l with adders := adders, removers := removers, queue := l.queue ++ [b] } = b := by
  simp [Line.outcome]

/-- An operation that the loop takes out of the queue is what it is in the middle of. -/
theorem Line.outcome_take {l : Line η} {b : Bool} {rest : List Bool} {stage : Stage}
    (h : l.queue = b :: rest) (hStaged : Line.staged { l with queue := rest, stage := stage } = b) :
    Line.outcome { l with queue := rest, stage := stage } = l.outcome := by
  unfold Line.outcome
  rw [hStaged, h]
  cases rest with
  | nil => rfl
  | cons next rest => simp [List.getLast?_cons]

theorem Line.Orderly.subscribed_of_free {l : Line η} (orderly : l.Orderly) (hFree : l.handler = none) :
    l.subscribed = none := orderly.handler ▸ hFree

/-- A subscription starts from a line on which nothing is under way. -/
theorem Line.Quiet.subscribed {l : Line η} (quiet : l.Quiet) (hCleared : l.Cleared) :
    l.additions = 0 ∧ (l.epoll = false ∨ l.stage = .deleting) := by
  obtain ⟨hQueue, hStaged⟩ := quiet.of_cleared hCleared
  have hAdders := quiet.adders
  unfold Line.additions
  cases hStage : l.stage <;> simp_all [Line.staged, Line.Cleared]

theorem Line.Move.orderly {l l' : Line η} (move : l.Move l') (orderly : l.Orderly) : l'.Orderly := by
  obtain ⟨hHandler, hClosed, hListening, hQuiet⟩ := orderly
  cases move with
  | stay => exact ⟨hHandler, hClosed, hListening, hQuiet⟩
  | openFd =>
      refine ⟨hHandler, nofun, fun hSome => ?_, fun hNone => ?_⟩
      · obtain ⟨_, cleared, stage⟩ := hListening hSome
        exact ⟨rfl, cleared, stage⟩
      · exact (hQuiet hNone).lower rfl rfl rfl id
  | closeFd hNone =>
      refine ⟨hHandler, fun _ => rfl, fun hSome => absurd hNone hSome, fun _ => ?_⟩
      refine (hQuiet hNone).lower rfl rfl rfl fun hStaged => ?_
      unfold Line.staged at hStaged ⊢
      cases hStage : l.stage <;> simp_all
  | subscribe handler hOpen hFree hCleared =>
      obtain ⟨hAdditions, hEpoll⟩ := (hQuiet (hHandler ▸ hFree)).subscribed hCleared
      refine ⟨rfl, hClosed, fun _ => ⟨hOpen, hCleared, .inl ⟨?_, hEpoll⟩⟩, nofun⟩
      unfold Line.additions at hAdditions ⊢
      simp only
      omega
  | subscribeHere handler hOpen hFree hCleared hStage =>
      obtain ⟨hAdditions, hEpoll⟩ := (hQuiet (hHandler ▸ hFree)).subscribed hCleared
      refine ⟨rfl, hClosed, fun _ => ⟨hOpen, ⟨hCleared.1, hCleared.2.1, nofun⟩, .inl ⟨?_, ?_⟩⟩, nofun⟩
      · unfold Line.additions at hAdditions ⊢
        simp only [hStage] at hAdditions ⊢
        simp at hAdditions ⊢
        omega
      · simp_all
  | unsubscribe hAdders =>
      exact ⟨rfl, hClosed, fun hSome => absurd rfl hSome, fun _ => ⟨hAdders, .inl (Nat.succ_pos _)⟩⟩
  | unsubscribeHere hAdders hLast hStage =>
      refine ⟨rfl, hClosed, fun hSome => absurd rfl hSome, fun _ => ⟨hAdders, .inr ?_⟩⟩
      unfold Line.outcome
      cases hEnd : l.queue.getLast? with
      | none => rfl
      | some b =>
          cases b with
          | false => rfl
          | true => exact absurd hEnd hLast
  | postAdd h =>
      refine ⟨hHandler, hClosed, fun hSome => ?_, fun hNone => ?_⟩
      · obtain ⟨hOpen, ⟨hRemovers, hQueue, hStage⟩, stage⟩ := hListening hSome
        refine ⟨hOpen, ⟨hRemovers, by simpa using hQueue, hStage⟩, ?_⟩
        have hSame : Line.additions { l with adders := l.adders - 1, queue := l.queue ++ [true] } =
            l.additions := by
          unfold Line.additions
          simp only [List.count_append, List.count_singleton_self]
          omega
        rw [hSame]
        exact stage
      · have hAdders := (hQuiet hNone).adders
        omega
  | postRemove h =>
      refine ⟨hHandler, hClosed, fun hSome => ?_, fun hNone => ?_⟩
      · have hRemovers := (hListening hSome).cleared.1
        omega
      · exact ⟨(hQuiet hNone).adders, .inr (by simp [Line.outcome])⟩
  | takeAdd rest hStage h =>
      refine ⟨hHandler, hClosed, fun hSome => ?_, fun hNone => ?_⟩
      · obtain ⟨hOpen, ⟨hRemovers, hQueue, _⟩, stage⟩ := hListening hSome
        rw [h] at hQueue
        refine ⟨hOpen, ⟨hRemovers, fun hMem => hQueue (List.mem_cons_of_mem _ hMem), nofun⟩, .inl ?_⟩
        unfold Line.additions at stage ⊢
        simp_all
        omega
      · refine ⟨(hQuiet hNone).adders, (hQuiet hNone).ending.imp id fun hOver => ?_⟩
        rw [Line.outcome_take h rfl]
        exact hOver
  | takeRemove rest hStage h =>
      refine ⟨hHandler, hClosed, fun hSome => ?_, fun hNone => ?_⟩
      · obtain ⟨_, ⟨_, hQueue, _⟩, _⟩ := hListening hSome
        exact absurd (h ▸ List.mem_cons_self) hQueue
      · refine ⟨(hQuiet hNone).adders, (hQuiet hNone).ending.imp id fun hOver => ?_⟩
        rw [Line.outcome_take h rfl]
        exact hOver
  | add hStage hOpen hOut =>
      refine ⟨hHandler, fun hClosed => ?_, fun hSome => ?_, fun hNone => ?_⟩
      · cases hOpen.symm.trans hClosed
      · obtain ⟨_, ⟨hRemovers, hQueue, _⟩, stage⟩ := hListening hSome
        refine ⟨hOpen, ⟨hRemovers, hQueue, nofun⟩, .inr ?_⟩
        unfold Line.additions at stage ⊢
        simp_all
      · refine (hQuiet hNone).lower rfl rfl rfl fun hStaged => ?_
        simp [Line.staged, hStage] at hStaged
  | refuse hStage =>
      refine ⟨hHandler, hClosed, fun hSome => ?_, fun hNone => ?_⟩
      · obtain ⟨hOpen, ⟨hRemovers, hQueue, _⟩, stage⟩ := hListening hSome
        refine ⟨hOpen, ⟨hRemovers, hQueue, nofun⟩, ?_⟩
        unfold Line.additions at stage ⊢
        simp_all
      · refine (hQuiet hNone).lower rfl rfl rfl fun hStaged => ?_
        simp [Line.staged, hStage] at hStaged
  | giveUp hStage =>
      refine ⟨rfl, hClosed, fun hSome => absurd rfl hSome, fun _ => ?_⟩
      by_cases hNone : l.subscribed = none
      · refine (hQuiet hNone).lower rfl rfl rfl fun hStaged => ?_
        simp [Line.staged, hStage] at hStaged
      · obtain ⟨_, ⟨_, hQueue, _⟩, stage⟩ := hListening hNone
        have hLast : l.adders = 0 ∧ l.queue.count true = 0 ∧ l.epoll = false := by
          unfold Line.additions at stage
          simp_all
        have hEmpty : l.queue = [] := by
          cases hCons : l.queue with
          | nil => rfl
          | cons b rest =>
              rw [hCons] at hQueue hLast
              cases b <;> simp at hQueue hLast
        exact ⟨hLast.1, .inr (by simp [Line.outcome, Line.staged, hEmpty, hLast.2.2])⟩
  | erase hStage =>
      have hNone : l.subscribed = none := by
        by_contra hSome
        exact (hListening hSome).cleared.2.2 hStage
      refine ⟨hNone.symm, hClosed, fun hSome => absurd hNone hSome, fun _ => ?_⟩
      exact (hQuiet hNone).lower rfl rfl rfl fun _ => rfl
  | delete hStage =>
      refine ⟨hHandler, fun _ => rfl, fun hSome => ?_, fun hNone => ?_⟩
      · obtain ⟨hOpen, ⟨hRemovers, hQueue, _⟩, stage⟩ := hListening hSome
        refine ⟨hOpen, ⟨hRemovers, hQueue, nofun⟩, .inl ⟨?_, .inl rfl⟩⟩
        unfold Line.additions at stage ⊢
        simp_all
      · exact (hQuiet hNone).lower rfl rfl rfl fun _ => rfl

/-- With nothing under way the handler is the subscribed one, and the descriptor is in the
epoll set if it has a handler. -/
theorem Line.Orderly.settled {l : Line η} (orderly : l.Orderly) (hAdders : l.adders = 0)
    (hRemovers : l.removers = 0) (hStage : l.stage = .free) (hQueue : l.queue = []) :
    l.handler = l.subscribed ∧ (l.handler.isSome ↔ l.epoll = true) := by
  refine ⟨orderly.handler, ?_⟩
  rw [orderly.handler]
  cases hSubscribed : l.subscribed with
  | none =>
      have hOver := (orderly.quiet hSubscribed).ending
      have hOut : l.epoll = false := by
        simpa [hRemovers, Line.outcome, Line.staged, hQueue, hStage] using hOver
      simp [hOut]
  | some handler =>
      have hStaged := (orderly.listening (by simp [hSubscribed])).stage
      simp_all [Line.additions]

end Lines

section Projection

variable [DecidableEq φ]

def Place.stage (fd : φ) : Place φ → Stage
  | .adding fd' => if fd' = fd then .adding else .free
  | .failing fd' => if fd' = fd then .failing else .free
  | .erasing fd' => if fd' = fd then .erasing else .free
  | .deleting fd' => if fd' = fd then .deleting else .free
  | _ => .free

/-- Whether the operation concerns the descriptor, and whether it adds it. -/
def Op.lined (fd : φ) : Op φ → Option Bool
  | .add fd' => if fd' = fd then some true else none
  | .remove fd' => if fd' = fd then some false else none
  | .other => none

variable [Fintype τ] {c : Config (Thread τ) (State φ η) (Place φ)} {s' : State φ η}
  {place' : Place φ} {thread : Thread τ} {fd : φ}

/-- How many threads wait to post the operation. -/
def waiters (op : Op φ) (c : Config (Thread τ) (State φ η) (Place φ)) : Nat :=
  (entries (fun _ place => mark (place = .posting op)) c.here).toNat

/-- What concerns one descriptor in a state of the whole. -/
def line (fd : φ) (c : Config (Thread τ) (State φ η) (Place φ)) : Line η where
  opened := c.shared.opened fd
  epoll := c.shared.epoll fd
  handler := c.shared.handlers fd
  subscribed := c.shared.subscribed fd
  adders := waiters (.add fd) c
  removers := waiters (.remove fd) c
  stage := (c.here .loop).stage fd
  queue := c.shared.pendingOps.filterMap (Op.lined fd)

theorem waiters_pos {op : Op φ} (h : c.here thread = .posting op) : 0 < waiters op c := by
  have hSelf := le_entries (w := fun _ (place : Place φ) => mark (place = .posting op))
    (fun u => mark_nonneg (c.here u = .posting op)) thread
  simp only [h, mark_of_true] at hSelf
  simp only [waiters]
  omega

theorem waiters_idle (h : ∀ thread, c.here thread = .idle) (op : Op φ) : waiters op c = 0 := by
  have hNone : entries (fun _ place => mark (place = .posting op)) c.here = 0 := by
    apply entries_eq_zero
    intro t
    rw [h t]
    exact mark_of_false nofun
  simp [waiters, hNone]

variable [DecidableEq τ]

theorem waiters_update (op : Op φ) (c : Config (Thread τ) (State φ η) (Place φ))
    (thread : Thread τ) (s' : State φ η) (place' : Place φ) :
    (waiters op ⟨s', Function.update c.here thread place'⟩ : Int) =
      waiters op c + (mark (place' = .posting op) - mark (c.here thread = .posting op)) := by
  have hUpdate := entries_update (fun _ place => mark (place = .posting op)) c.here thread place'
  have hBefore : 0 ≤ entries (fun _ place => mark (place = .posting op)) c.here :=
    entries_nonneg fun _ => mark_nonneg _
  have hAfter : 0 ≤ entries (fun _ place => mark (place = .posting op))
      (Function.update c.here thread place') := entries_nonneg fun _ => mark_nonneg _
  simp only [waiters]
  omega

theorem waiters_same {op : Op φ} (h : place' = .posting op ↔ c.here thread = .posting op) :
    waiters op ⟨s', Function.update c.here thread place'⟩ = waiters op c := by
  have hUpdate := waiters_update op c thread s' place'
  simp only [h] at hUpdate
  omega

theorem waiters_gain {op : Op φ} (hBefore : c.here thread ≠ .posting op) :
    waiters op ⟨s', Function.update c.here thread (.posting op)⟩ = waiters op c + 1 := by
  have hUpdate := waiters_update op c thread s' (.posting op)
  rw [mark_of_true rfl, mark_of_false hBefore] at hUpdate
  omega

theorem waiters_lose {op : Op φ} (hBefore : c.here thread = .posting op)
    (hAfter : place' ≠ .posting op) :
    waiters op ⟨s', Function.update c.here thread place'⟩ = waiters op c - 1 := by
  have hUpdate := waiters_update op c thread s' place'
  have hPos := waiters_pos hBefore
  rw [mark_of_true hBefore, mark_of_false hAfter] at hUpdate
  omega

/-- The loop's thread moves, and does not wait in `post` itself. -/
theorem line_loop (hBefore : (c.here .loop).posts = false) (hAfter : place'.posts = false) :
    line fd ⟨s', Function.update c.here .loop place'⟩ =
      ⟨s'.opened fd, s'.epoll fd, s'.handlers fd, s'.subscribed fd, (line fd c).adders,
        (line fd c).removers, place'.stage fd, s'.pendingOps.filterMap (Op.lined fd)⟩ := by
  have hSame : ∀ op : Op φ, waiters op ⟨s', Function.update c.here .loop place'⟩ = waiters op c := by
    intro op
    apply waiters_same
    constructor
    · rintro rfl
      cases hAfter
    · intro h
      rw [h] at hBefore
      cases hBefore
  apply Line.ext <;> simp [line, hSame]

/-- Another thread moves. -/
theorem line_other (t : τ) :
    line fd ⟨s', Function.update c.here (.other t) place'⟩ =
      ⟨s'.opened fd, s'.epoll fd, s'.handlers fd, s'.subscribed fd,
        waiters (.add fd) ⟨s', Function.update c.here (.other t) place'⟩,
        waiters (.remove fd) ⟨s', Function.update c.here (.other t) place'⟩,
        (line fd c).stage, s'.pendingOps.filterMap (Op.lined fd)⟩ := by
  apply Line.ext <;> simp [line]

theorem loop_call_moves {choice : Choice φ η} (hPosts : (c.here .loop).posts = false)
    (h : callStep c.shared (c.here .loop) choice = some (s', place')) :
    (line fd c).Move (line fd ⟨s', Function.update c.here .loop place'⟩) := by
  have hAfter := (call_goes h).2.2.2
  rw [line_loop hPosts hAfter]
  have hStage : (line fd c).stage = (c.here .loop).stage fd := rfl
  generalize hPlace : c.here .loop = place at h hPosts hStage
  cases place <;> cases choice <;> simp only [callStep, reduceCtorEq] at h
  case posting.go => cases hPosts
  case adding.go fd' =>
    by_cases hFd : fd' = fd
    · subst hFd
      split_ifs at h with hAdd <;> cases h
      · refine (Line.Move.add ?_ hAdd.1 hAdd.2).to ?_
        · simpa [Place.stage] using hStage
        · apply Line.ext <;> simp [line, Place.stage]
      · refine (Line.Move.refuse ?_).to ?_
        · simpa [Place.stage] using hStage
        · apply Line.ext <;> simp [line, Place.stage]
    · split_ifs at h with hAdd <;> cases h
      · refine (Line.Move.stay _).to ?_
        apply Line.ext <;> simp [line, Place.stage, hPlace, hFd, Ne.symm hFd]
      · refine (Line.Move.stay _).to ?_
        apply Line.ext <;> simp [line, Place.stage, hPlace, hFd]
  case adding.fail fd' =>
    cases h
    by_cases hFd : fd' = fd
    · subst hFd
      refine (Line.Move.refuse ?_).to ?_
      · simpa [Place.stage] using hStage
      · apply Line.ext <;> simp [line, Place.stage]
    · refine (Line.Move.stay _).to ?_
      apply Line.ext <;> simp [line, Place.stage, hPlace, hFd]
  case failing.go fd' =>
    cases h
    by_cases hFd : fd' = fd
    · subst hFd
      refine (Line.Move.giveUp ?_).to ?_
      · simpa [Place.stage] using hStage
      · apply Line.ext <;> simp [line, Place.stage]
    · refine (Line.Move.stay _).to ?_
      apply Line.ext <;> simp [line, Place.stage, hPlace, hFd, Ne.symm hFd]
  case erasing.go fd' =>
    cases h
    by_cases hFd : fd' = fd
    · subst hFd
      refine (Line.Move.erase ?_).to ?_
      · simpa [Place.stage] using hStage
      · apply Line.ext <;> simp [line, Place.stage]
    · refine (Line.Move.stay _).to ?_
      apply Line.ext <;> simp [line, Place.stage, hPlace, hFd, Ne.symm hFd]
  case deleting.go fd' =>
    cases h
    by_cases hFd : fd' = fd
    · subst hFd
      refine (Line.Move.delete ?_).to ?_
      · simpa [Place.stage] using hStage
      · apply Line.ext <;> simp [line, Place.stage]
    · refine (Line.Move.stay _).to ?_
      apply Line.ext <;> simp [line, Place.stage, hPlace, hFd, Ne.symm hFd]

theorem loop_run_moves {choice : Choice φ η} (hIdle : c.here .loop = .idle)
    (h : runStep c.shared choice = some (s', place')) :
    (line fd c).Move (line fd ⟨s', Function.update c.here .loop place'⟩) := by
  have hPosts : (c.here .loop).posts = false := by
    rw [hIdle]
    rfl
  have hStage : (line fd c).stage = .free := by
    simp only [line, hIdle, Place.stage]
  have hAfter : place'.posts = false := by
    rcases run_goes h with ⟨_, _, _, hPosts⟩ | ⟨_, _, rfl, _⟩
    · exact hPosts
    · rfl
  rw [line_loop hPosts hAfter]
  cases choice <;> simp only [runStep, reduceCtorEq] at h
  case drain =>
    split_ifs at h with hPhase
    cases hOps : c.shared.pendingOps with
    | nil =>
        rw [hOps] at h
        cases h
    | cons op rest =>
        rw [hOps] at h
        cases h
        have hQueue : (line fd c).queue = (op :: rest).filterMap (Op.lined fd) := by
          rw [← hOps]
          rfl
        cases op with
        | other =>
            refine (Line.Move.stay _).to ?_
            apply Line.ext <;>
              simp [line, Place.stage, Op.place, Op.lined, hOps, hIdle, List.filterMap_cons]
        | add fd' =>
            by_cases hFd : fd' = fd
            · subst hFd
              refine (Line.Move.takeAdd (rest.filterMap (Op.lined fd')) hStage ?_).to ?_
              · simpa [Op.lined] using hQueue
              · apply Line.ext <;> simp [line, Place.stage, Op.place]
            · refine (Line.Move.stay _).to ?_
              apply Line.ext <;> simp [line, Place.stage, Op.place, Op.lined, hOps, hIdle, hFd]
        | remove fd' =>
            by_cases hFd : fd' = fd
            · subst hFd
              refine (Line.Move.takeRemove (rest.filterMap (Op.lined fd')) hStage ?_).to ?_
              · simpa [Op.lined] using hQueue
              · apply Line.ext <;> simp [line, Place.stage, Op.place]
            · refine (Line.Move.stay _).to ?_
              apply Line.ext <;> simp [line, Place.stage, Op.place, Op.lined, hOps, hIdle, hFd]
  all_goals
    split_ifs at h
    cases h
    refine (Line.Move.stay _).to ?_
    apply Line.ext <;> simp [line, Place.stage, hIdle]

theorem other_call_moves {choice : Choice φ η} {t : τ} {op : Op φ}
    (hPlace : c.here (.other t) = .posting op)
    (h : callStep c.shared (.posting op) choice = some (s', place')) :
    (line fd c).Move (line fd ⟨s', Function.update c.here (.other t) place'⟩) := by
  cases choice <;> simp only [callStep, reduceCtorEq] at h
  split_ifs at h
  cases h
  have hLose : ∀ {s' : State φ η},
      waiters op ⟨s', Function.update c.here (.other t) .idle⟩ = waiters op c - 1 :=
    waiters_lose hPlace (by simp)
  have hSame : ∀ {s' : State φ η} {op'}, op ≠ op' →
      waiters op' ⟨s', Function.update c.here (.other t) .idle⟩ = waiters op' c := by
    intro s' op' hOp
    refine waiters_same ⟨(fun h => by cases h), fun h => ?_⟩
    rw [hPlace] at h
    cases h
    exact absurd rfl hOp
  rw [line_other t]
  cases op with
  | other =>
      refine (Line.Move.stay _).to ?_
      apply Line.ext <;> simp [line, Op.lined, hSame]
  | add fd' =>
      by_cases hFd : fd' = fd
      · subst hFd
        refine (Line.Move.postAdd (waiters_pos hPlace)).to ?_
        apply Line.ext <;> simp [line, Op.lined, hSame, hLose]
      · refine (Line.Move.stay _).to ?_
        apply Line.ext <;> simp [line, Op.lined, hSame, hFd]
  | remove fd' =>
      by_cases hFd : fd' = fd
      · subst hFd
        refine (Line.Move.postRemove (waiters_pos hPlace)).to ?_
        apply Line.ext <;> simp [line, Op.lined, hSame, hLose]
      · refine (Line.Move.stay _).to ?_
        apply Line.ext <;> simp [line, Op.lined, hSame, hFd]

/-- The users' side: a descriptor is subscribed when it is open, and unsubscribed before
it is closed. -/
def disciplined (c : Config (Thread τ) (State φ η) (Place φ)) : Choice φ η → Prop
  | .subscribe fd _ => c.shared.opened fd = true
  | .closeFd fd => c.shared.subscribed fd = none
  | _ => True

/-- A descriptor is subscribed only when no removal of it is under way, and unsubscribed
only when no thread is about to post its addition; by the loop's own thread, only when its
last operation in the queue is no addition either. -/
def inTurn (c : Config (Thread τ) (State φ η) (Place φ)) (thread : Thread τ) : Choice φ η → Prop
  | .subscribe fd _ => (c.shared.handlers fd).isSome ∨ (line fd c).Cleared
  | .unsubscribe fd => (line fd c).adders = 0 ∧
      (thread.isLoop → (line fd c).queue.getLast? ≠ some true)
  | _ => True

/-- The loop's thread starts a call for the descriptor or for another one. -/
theorem begin_moves_here {choice : Choice φ η} (hIdle : c.here .loop = .idle)
    (hDisciplined : disciplined c choice) (hTurn : inTurn c .loop choice)
    (h : beginStep c.shared true choice = some (s', place')) (hBusy : place' ≠ .idle) :
    (line fd c).Move (line fd ⟨s', Function.update c.here .loop place'⟩) := by
  have hPosts : (c.here .loop).posts = false := by
    rw [hIdle]
    rfl
  have hStage : (line fd c).stage = .free := by
    simp only [line, hIdle, Place.stage]
  cases choice <;> simp only [beginStep, reduceCtorEq] at h
  case subscribe fd' handler =>
    by_cases hTaken : (c.shared.handlers fd').isSome
    · rw [State.subscribe, if_pos hTaken] at h
      cases h
      exact absurd rfl hBusy
    · rw [State.subscribe, if_neg hTaken] at h
      cases h
      rw [line_loop hPosts rfl]
      by_cases hFd : fd' = fd
      · subst hFd
        have hOpen : (line fd' c).opened = true := hDisciplined
        have hFree : (line fd' c).handler = none := by simpa [line] using hTaken
        have hCleared := hTurn.resolve_left hTaken
        refine (Line.Move.subscribeHere handler hOpen hFree hCleared hStage).to ?_
        apply Line.ext <;> simp [line, Place.stage]
      · refine (Line.Move.stay _).to ?_
        apply Line.ext <;> simp [line, Place.stage, hIdle, hFd, Ne.symm hFd]
  case unsubscribe fd' =>
    cases h
    rw [line_loop hPosts rfl]
    by_cases hFd : fd' = fd
    · subst hFd
      refine (Line.Move.unsubscribeHere hTurn.1 (hTurn.2 rfl) hStage).to ?_
      apply Line.ext <;> simp [line, Place.stage]
    · refine (Line.Move.stay _).to ?_
      apply Line.ext <;> simp [line, Place.stage, hIdle, hFd, Ne.symm hFd]
  case post => cases h
  case openFd | closeFd =>
    split_ifs at h
    cases h
    exact absurd rfl hBusy
  all_goals
    cases h
    exact absurd rfl hBusy

/-- Another thread starts a call, which leads it to `post`. -/
theorem begin_moves_there {choice : Choice φ η} {t : τ} (hIdle : c.here (.other t) = .idle)
    (hDisciplined : disciplined c choice) (hTurn : inTurn c (.other t) choice)
    (h : beginStep c.shared false choice = some (s', place')) (hBusy : place' ≠ .idle) :
    (line fd c).Move (line fd ⟨s', Function.update c.here (.other t) place'⟩) := by
  have hNew : ∀ op : Op φ, c.here (.other t) ≠ .posting op := by
    intro op h
    rw [hIdle] at h
    cases h
  have hSame : ∀ {s' : State φ η} {op op'}, op ≠ op' →
      waiters op' ⟨s', Function.update c.here (.other t) (.posting op)⟩ = waiters op' c := by
    intro s' op op' hOp
    refine waiters_same ⟨fun h => ?_, fun h => absurd h (hNew op')⟩
    cases h
    exact absurd rfl hOp
  cases choice <;> simp only [beginStep, reduceCtorEq] at h
  case subscribe fd' handler =>
    by_cases hTaken : (c.shared.handlers fd').isSome
    · rw [State.subscribe, if_pos hTaken] at h
      cases h
      exact absurd rfl hBusy
    · rw [State.subscribe, if_neg hTaken] at h
      cases h
      rw [line_other t]
      by_cases hFd : fd' = fd
      · subst hFd
        have hOpen : (line fd' c).opened = true := hDisciplined
        have hFree : (line fd' c).handler = none := by simpa [line] using hTaken
        have hCleared := hTurn.resolve_left hTaken
        refine (Line.Move.subscribe handler hOpen hFree hCleared).to ?_
        apply Line.ext <;> simp [line, hSame, waiters_gain (hNew _)]
      · refine (Line.Move.stay _).to ?_
        apply Line.ext <;> simp [line, hSame, hFd, Ne.symm hFd]
  case unsubscribe fd' =>
    cases h
    rw [line_other t]
    by_cases hFd : fd' = fd
    · subst hFd
      refine (Line.Move.unsubscribe hTurn.1).to ?_
      apply Line.ext <;> simp [line, hSame, waiters_gain (hNew _)]
    · refine (Line.Move.stay _).to ?_
      apply Line.ext <;> simp [line, hSame, hFd, Ne.symm hFd]
  case post =>
    cases h
    rw [line_other t]
    refine (Line.Move.stay _).to ?_
    apply Line.ext <;> simp [line, hSame]
  case openFd | closeFd =>
    split_ifs at h
    cases h
    exact absurd rfl hBusy
  all_goals
    cases h
    exact absurd rfl hBusy

omit [DecidableEq τ] in
/-- A call that is over at once, or a change of the descriptors themselves. -/
theorem begin_moves_idle {choice : Choice φ η} {onLoop : Bool} (hDisciplined : disciplined c choice)
    (h : beginStep c.shared onLoop choice = some (s', .idle)) :
    (line fd c).Move (line fd ⟨s', c.here⟩) := by
  cases choice <;> simp only [beginStep, reduceCtorEq] at h
  case subscribe fd' handler =>
    by_cases hTaken : (c.shared.handlers fd').isSome
    · rw [State.subscribe, if_pos hTaken] at h
      cases h
      exact .stay _
    · rw [State.subscribe, if_neg hTaken] at h
      cases onLoop <;> cases h
  case unsubscribe fd' => cases onLoop <;> cases h
  case post => cases onLoop <;> cases h
  case openFd fd' =>
    split_ifs at h
    cases h
    by_cases hFd : fd' = fd
    · subst hFd
      refine Line.Move.openFd.to ?_
      apply Line.ext <;> simp [line, waiters]
    · refine (Line.Move.stay _).to ?_
      apply Line.ext <;> simp [line, waiters, Ne.symm hFd]
  case closeFd fd' =>
    split_ifs at h
    cases h
    by_cases hFd : fd' = fd
    · subst hFd
      have hNone : (line fd' c).subscribed = none := hDisciplined
      refine (Line.Move.closeFd hNone).to ?_
      apply Line.ext <;> simp [line, waiters]
    · refine (Line.Move.stay _).to ?_
      apply Line.ext <;> simp [line, waiters, Ne.symm hFd]
  all_goals
    cases h
    exact .stay _

theorem begin_moves {choice : Choice φ η} (hIdle : c.here thread = .idle)
    (hDisciplined : disciplined c choice) (hTurn : inTurn c thread choice)
    (h : beginStep c.shared thread.isLoop choice = some (s', place')) :
    (line fd c).Move (line fd ⟨s', Function.update c.here thread place'⟩) := by
  by_cases hBusy : place' = .idle
  · subst hBusy
    rw [← hIdle, Function.update_eq_self]
    exact begin_moves_idle hDisciplined h
  · cases thread with
    | loop => exact begin_moves_here hIdle hDisciplined hTurn h hBusy
    | other t => exact begin_moves_there hIdle hDisciplined hTurn h hBusy

end Projection

section Runs

variable [DecidableEq φ] [DecidableEq τ] {c : Config (Thread τ) (State φ η) (Place φ)}
  {allowed : Config (Thread τ) (State φ η) (Place φ) → Thread τ → Choice φ η → Prop}

/-- The loop's thread carries out operations, the other threads post them. -/
def Place.Fits (place : Place φ) (thread : Thread τ) : Prop :=
  place = .idle ∨ place.posts = !thread.isLoop

omit [DecidableEq τ] in
theorem begin_fits {s s' : State φ η} {place' : Place φ} {choice : Choice φ η} {onLoop : Bool}
    (h : beginStep s onLoop choice = some (s', place')) : place' = .idle ∨ place'.posts = !onLoop := by
  cases choice <;> simp only [beginStep, reduceCtorEq] at h
  case subscribe fd handler =>
    by_cases hTaken : (s.handlers fd).isSome
    · rw [State.subscribe, if_pos hTaken] at h
      cases h
      exact .inl rfl
    · rw [State.subscribe, if_neg hTaken] at h
      cases h
      cases onLoop <;> exact .inr rfl
  case unsubscribe fd =>
    cases h
    cases onLoop <;> exact .inr rfl
  case post =>
    cases onLoop <;> cases h
    exact .inr rfl
  case openFd | closeFd =>
    split_ifs at h
    cases h
    exact .inl rfl
  all_goals
    cases h
    exact .inl rfl

omit [DecidableEq τ] in
theorem step_fits {thread : Thread τ} {s s' : State φ η} {place place' : Place φ}
    {choice : Choice φ η} (hFits : place.Fits thread)
    (h : step thread s place choice = some (s', place')) : place'.Fits thread := by
  rcases step_cases h with ⟨_, rfl, hRun⟩ | ⟨_, _, hBegin⟩ | ⟨hBusy, hCall⟩
  · rcases run_goes hRun with ⟨_, _, _, hPosts⟩ | ⟨_, _, rfl, _⟩
    · exact .inr hPosts
    · exact .inl rfl
  · exact begin_fits hBegin
  · have hPosts := (call_goes hCall).2.2.2
    cases thread with
    | loop => exact .inr hPosts
    | other t =>
        cases place with
        | posting op =>
            cases choice <;> simp only [callStep, reduceCtorEq] at hCall
            split_ifs at hCall
            cases hCall
            exact .inl rfl
        | idle => exact absurd rfl hBusy
        | adding | failing | erasing | deleting =>
            rcases hFits with hIdle | hPosting
            · cases hIdle
            · cases hPosting

theorem places_fit (reach : RunsTo allowed c) (thread : Thread τ) : (c.here thread).Fits thread := by
  refine Reach.invariant (I := fun c => ∀ thread, (c.here thread).Fits thread) ?_ ?_ reach thread
  · rintro c rfl thread
    exact .inl rfl
  · intro c thread choice s' place' _ hFits _ hLocal u
    by_cases hu : u = thread
    · subst hu
      simpa only [Function.update_self] using step_fits (hFits u) hLocal
    · simpa only [Function.update_of_ne hu] using hFits u

variable [Fintype τ]

/-- The users keep to their side. -/
def usesOpen (c : Config (Thread τ) (State φ η) (Place φ)) (_ : Thread τ) (choice : Choice φ η) :
    Prop := disciplined c choice

/-- The users keep to their side, and take turns. -/
def takesTurns (c : Config (Thread τ) (State φ η) (Place φ)) (thread : Thread τ)
    (choice : Choice φ η) : Prop := disciplined c choice ∧ inTurn c thread choice

theorem step_moves (reach : RunsTo allowed c) {thread : Thread τ} {choice : Choice φ η}
    {s' : State φ η} {place' : Place φ} (hTurns : takesTurns c thread choice)
    (h : step thread c.shared (c.here thread) choice = some (s', place')) (fd : φ) :
    (line fd c).Move (line fd ⟨s', Function.update c.here thread place'⟩) := by
  rcases step_cases h with ⟨hIdle, rfl, hRun⟩ | ⟨hIdle, _, hBegin⟩ | ⟨hBusy, hCall⟩
  · exact loop_run_moves hIdle hRun
  · exact begin_moves hIdle hTurns.1 hTurns.2 hBegin
  · have hPosts := (places_fit reach thread).resolve_left hBusy
    cases thread with
    | loop => exact loop_call_moves hPosts hCall
    | other t =>
        cases hPlace : c.here (.other t) with
        | posting op =>
            rw [hPlace] at hCall
            exact other_call_moves hPlace hCall
        | idle | adding | failing | erasing | deleting =>
            rw [hPlace] at hPosts
            cases hPosts

theorem line_orderly (reach : RunsTo takesTurns c) (fd : φ) : (line fd c).Orderly := by
  refine Reach.invariant (I := fun c => (line fd c).Orderly) ?_ ?_ reach
  · rintro c rfl
    refine ⟨rfl, fun _ => rfl, fun hSome => absurd rfl hSome, fun _ => ?_⟩
    exact ⟨waiters_idle (fun _ => rfl) _, .inr rfl⟩
  · intro c thread choice s' place' hReach hOrderly hTurns hLocal
    exact (step_moves hReach hTurns hLocal fd).orderly hOrderly

/-- The queue is empty and no call is in progress. -/
def AtRest (c : Config (Thread τ) (State φ η) (Place φ)) : Prop :=
  c.shared.pendingOps = [] ∧ ∀ thread, c.here thread = .idle

/-- An open descriptor has a handler if and only if it is in the epoll set, and the handler
is that of its last `subscribe`. -/
structure Agreed (c : Config (Thread τ) (State φ η) (Place φ)) : Prop where
  registered : ∀ fd, c.shared.opened fd = true →
    ((c.shared.handlers fd).isSome ↔ c.shared.epoll fd = true)
  handler : ∀ fd, c.shared.opened fd = true → c.shared.handlers fd = c.shared.subscribed fd

/-- Whenever everything is at rest, the handlers and the epoll set agree, as long as the
users of each descriptor take turns. -/
theorem registrations_agree (reach : RunsTo takesTurns c) (hRest : AtRest c) : Agreed c := by
  have hSettled : ∀ fd, c.shared.handlers fd = c.shared.subscribed fd ∧
      ((c.shared.handlers fd).isSome ↔ c.shared.epoll fd = true) := by
    intro fd
    refine (line_orderly reach fd).settled (waiters_idle hRest.2 _) (waiters_idle hRest.2 _) ?_ ?_
    · simp [line, hRest.2, Place.stage]
    · simp [line, hRest.1]
  exact ⟨fun fd _ => (hSettled fd).2, fun fd _ => (hSettled fd).1⟩

instance (c : Config (Thread τ) (State φ η) (Place φ)) :
    DecidablePred (disciplined c : Choice φ η → Prop)
  | .subscribe .. => inferInstanceAs (Decidable (_ = _))
  | .closeFd fd => decidable_of_iff ((c.shared.subscribed fd).isNone = true) Option.isNone_iff_eq_none
  | .go | .fail | .unsubscribe _ | .post | .drain | .start | .run | .stop | .leave | .waitFails
  | .openFd _ => inferInstanceAs (Decidable True)

instance (l : Line η) : Decidable l.Cleared := inferInstanceAs (Decidable (_ ∧ _))

instance (c : Config (Thread τ) (State φ η) (Place φ)) (thread : Thread τ) :
    DecidablePred (inTurn c thread : Choice φ η → Prop)
  | .subscribe .. => inferInstanceAs (Decidable (_ ∨ _))
  | .unsubscribe _ => inferInstanceAs (Decidable (_ ∧ _))
  | .go | .fail | .closeFd _ | .post | .drain | .start | .run | .stop | .leave | .waitFails
  | .openFd _ => inferInstanceAs (Decidable True)

instance (c : Config (Thread τ) (State φ η) (Place φ)) (thread : Thread τ) (choice : Choice φ η) :
    Decidable (usesOpen c thread choice) := inferInstanceAs (Decidable (disciplined c choice))

instance (c : Config (Thread τ) (State φ η) (Place φ)) (thread : Thread τ) (choice : Choice φ η) :
    Decidable (takesTurns c thread choice) := inferInstanceAs (Decidable (_ ∧ _))

/-- A descriptor is opened and subscribed, and the loop adds it to the epoll set. -/
def subscribing : List (Thread Unit × Choice Unit Bool) :=
  [(.other (), .start), (.loop, .run), (.other (), .openFd ()), (.other (), .subscribe () false),
    (.other (), .go), (.loop, .drain), (.loop, .go)]

/-- The loop removes the descriptor before it is closed, and its number used again. -/
def afterReuse : Config (Thread Unit) (State Unit Bool) (Place Unit) :=
  (step.replay takesTurns initial (subscribing ++
    ([(.other (), .unsubscribe ()), (.other (), .go), (.loop, .drain), (.loop, .go), (.loop, .go),
      (.other (), .closeFd ()), (.other (), .openFd ()), (.other (), .subscribe () true),
      (.other (), .go), (.loop, .drain), (.loop, .go)] :
      List (Thread Unit × Choice Unit Bool)))).get (by decide +kernel)

theorem registrations_agree_afterReuse : Agreed afterReuse ∧
    afterReuse.shared.handlers () = some true := by
  have hRest : AtRest afterReuse := by
    refine ⟨by decide +kernel, fun thread => ?_⟩
    cases thread with
    | loop => decide +kernel
    | other t =>
        cases t
        decide +kernel
  exact ⟨registrations_agree (Reach.replay (.start rfl) (Option.some_get _).symm) hRest,
    by decide +kernel⟩

/-- The same with the loop late: the number is used again while its removal is queued. -/
def afterLateRemoval : Config (Thread Unit) (State Unit Bool) (Place Unit) :=
  (step.replay usesOpen initial (subscribing ++
    ([(.other (), .unsubscribe ()), (.other (), .go), (.other (), .closeFd ()),
      (.other (), .openFd ()), (.other (), .subscribe () true), (.other (), .go), (.loop, .drain),
      (.loop, .go), (.loop, .go), (.loop, .drain), (.loop, .go)] :
      List (Thread Unit × Choice Unit Bool)))).get (by decide +kernel)

/-- The removal has erased the handler of the new descriptor, which is in the epoll set. -/
theorem not_agreed_afterLateRemoval : RunsTo usesOpen afterLateRemoval ∧
    AtRest afterLateRemoval ∧ ¬Agreed afterLateRemoval := by
  refine ⟨Reach.replay (.start rfl) (Option.some_get _).symm, ?_, fun agreed => ?_⟩
  · refine ⟨by decide +kernel, fun thread => ?_⟩
    cases thread with
    | loop => decide +kernel
    | other t =>
        cases t
        decide +kernel
  · have hLost : ¬((afterLateRemoval.shared.handlers ()).isSome ↔
        afterLateRemoval.shared.epoll () = true) := by decide +kernel
    exact hLost (agreed.registered () (by decide +kernel))

end Runs

end EventLoopEpoll
