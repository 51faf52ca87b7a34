import V2Engine.Interleaving.Calls
import V2Engine.Timer.TimerBase

/-! The passes of `executeExpiredTimers` over whole runs, with any `add` and `cancel` before, between
and after their callbacks. A clock reading is whatever it is. -/
namespace Timer

open Interleaving

/-- A pass in progress: the callbacks still to come, and all that were collected. -/
structure Pass where
  calls : List Nat
  ready : List Nat

structure Timers where
  base : TimerBase
  pass : Option Pass
  /-- The callbacks made so far, the last one first. -/
  called : List Nat
  /-- The timers that were added and are neither cancelled nor over. -/
  live : Nat → Option TimerNode

namespace Timers

def constructed : Timers := ⟨.constructed, none, [], fun _ => none⟩

variable (s : Timers)

def ready : List Nat := s.pass.elim [] Pass.ready

def add (now delayMs : Nat) (repeating : Bool) : Timers :=
  { s with
    base := (s.base.add now delayMs repeating).2.2
    live := Function.update s.live s.base.nextId (some (s.base.added now delayMs repeating)) }

def cancel (id : Nat) : Timers :=
  { s with base := s.base.cancel id, live := Function.update s.live id none }

/-- The first half of a pass. -/
def collect (now : Nat) : Timers :=
  let collected := s.base.collectExpired now
  { s with base := collected.2, pass := some ⟨collected.1, collected.1⟩ }

/-- The second half, after the callbacks. -/
def reschedule (ready : List Nat) : Timers :=
  { s with
    base := s.base.reschedule ready
    pass := none
    live := fun id => if id ∈ ready then (s.live id).bind TimerNode.renewed else s.live id }

inductive Event where
  | add (now delayMs : Nat) (repeating : Bool)
  | cancel (id : Nat)
  | collect (now : Nat)
  | call
  | reschedule
deriving DecidableEq

def step : Event → Timers → Option Timers
  | .add now delayMs repeating, s => some (s.add now delayMs repeating)
  | .cancel id, s => some (s.cancel id)
  | .collect now, s => if s.pass.isNone then some (s.collect now) else none
  | .call, s => match s.pass with
    | some ⟨id :: rest, ready⟩ => some { s with pass := some ⟨rest, ready⟩, called := id :: s.called }
    | _ => none
  | .reschedule, s => match s.pass with
    | some ⟨[], ready⟩ => some (s.reschedule ready)
    | _ => none

/-- The timer is in the heap with this node. -/
def Pending (id : Nat) (node : TimerNode) : Prop :=
  ∃ i ∈ s.base.heap, s.base.timers id = some i ∧ s.base.pool i = node

/-- What a pass is to do that collects at `now`, where callbacks and others make the calls `ops`
until its end. -/
structure Delivers (now : Nat) (ops : List Event) (before after : Timers) (made : List Nat) : Prop where
  called : after.called = made.reverse ++ before.called
  once : made.Nodup
  due : ∀ id, id ∈ made ↔ ∃ node, before.live id = some node ∧ node.expiry ≤ now
  inOrder : made.Pairwise fun id id' =>
    ∀ node ∈ before.live id, ∀ node' ∈ before.live id', node.expiry ≤ node'.expiry
  renewed : ∀ id ∈ made, ∀ node ∈ before.live id, node.repeating = true → .cancel id ∉ ops →
    after.Pending id { node with expiry := node.expiry + node.interval }
  oneShot : ∀ id ∈ made, ∀ node ∈ before.live id, node.repeating = false → ∀ more later,
    CallsOf step (· = after) more later → ∃ calls, later.called = calls ++ after.called ∧ id ∉ calls
  ordered : Heap.Ordered after.base.expiryAt after.base.heap

/-- The pool with its heap is the set of live timers. -/
structure Inv (s : Timers) : Prop where
  sound : s.base.Sound s.ready
  live : ∀ id, s.base.find id = s.live id
  calls : ∀ pass ∈ s.pass, pass.calls ⊆ pass.ready

variable {s s' : Timers} {id now delayMs : Nat} {repeating : Bool} {ops : List Event} {event : Event}

theorem Inv.constructed : Inv constructed where
  sound := TimerBase.constructed_sound
  live _ := rfl
  calls _ h := by cases h

theorem Inv.add (inv : s.Inv) (now delayMs : Nat) (repeating : Bool) : (s.add now delayMs repeating).Inv := by
  obtain ⟨hSound, hFind, _⟩ := inv.sound.add now delayMs repeating
  refine ⟨hSound, fun id => (hFind id).trans ?_, inv.calls⟩
  show _ = Function.update s.live s.base.nextId (some (s.base.added now delayMs repeating)) id
  rw [Function.update_apply, inv.live]

theorem Inv.cancel (inv : s.Inv) (id : Nat) : (s.cancel id).Inv := by
  obtain ⟨hSound, hFind, _⟩ := inv.sound.cancel id
  refine ⟨hSound, fun id' => (hFind id').trans ?_, inv.calls⟩
  show _ = Function.update s.live id none id'
  rw [Function.update_apply, inv.live]

theorem Inv.collect (inv : s.Inv) (hFree : s.pass = none) (now : Nat) : (s.collect now).Inv := by
  have sound : s.base.Sound [] := by
    have h := inv.sound
    rw [ready, hFree] at h
    exact h
  obtain ⟨hSound, hFind, _⟩ := sound.collected now
  refine ⟨hSound, fun id => (hFind id).trans (inv.live id), fun pass hPass => ?_⟩
  cases hPass
  exact List.Subset.refl _

theorem Inv.reschedule {ready : List Nat} (inv : s.Inv) (hPass : s.pass = some ⟨[], ready⟩) :
    (s.reschedule ready).Inv := by
  have sound : s.base.Sound ready := by
    have h := inv.sound
    rw [Timers.ready, hPass] at h
    exact h
  obtain ⟨hSound, _, hFind⟩ := TimerBase.reschedule_spec ready s.base sound
  refine ⟨hSound, fun id => (hFind id).trans ?_, fun pass h => by cases h⟩
  show _ = if id ∈ ready then (s.live id).bind TimerNode.renewed else s.live id
  rw [inv.live]

/-- What `call` and `reschedule` find. -/
theorem step_call (h : step .call s = some s') :
    ∃ id rest ready, s.pass = some ⟨id :: rest, ready⟩ ∧
      s' = { s with pass := some ⟨rest, ready⟩, called := id :: s.called } := by
  simp only [step] at h
  split at h
  · rename_i id rest ready hPass
    exact ⟨id, rest, ready, hPass, (Option.some.inj h).symm⟩
  · cases h

theorem step_reschedule (h : step .reschedule s = some s') :
    ∃ ready, s.pass = some ⟨[], ready⟩ ∧ s' = s.reschedule ready := by
  simp only [step] at h
  split at h
  · rename_i ready hPass
    exact ⟨ready, hPass, (Option.some.inj h).symm⟩
  · cases h

theorem step_collect (h : step (.collect now) s = some s') : s.pass = none ∧ s' = s.collect now := by
  obtain ⟨hNone, hAfter⟩ := Option.ite_none_right_eq_some.mp h
  exact ⟨Option.isNone_iff_eq_none.mp hNone, (Option.some.inj hAfter).symm⟩

theorem Inv.step (inv : s.Inv) (h : step event s = some s') : s'.Inv := by
  cases event with
  | add now delayMs repeating =>
      cases h
      exact inv.add now delayMs repeating
  | cancel id =>
      cases h
      exact inv.cancel id
  | collect now =>
      obtain ⟨hFree, rfl⟩ := step_collect h
      exact inv.collect hFree now
  | call =>
      obtain ⟨id, rest, ready, hPass, rfl⟩ := step_call h
      have sound := inv.sound
      rw [Timers.ready, hPass] at sound
      refine ⟨sound, inv.live, fun pass hNow => ?_⟩
      cases hNow
      exact fun x hx => inv.calls _ hPass (List.mem_cons_of_mem _ hx)
  | reschedule =>
      obtain ⟨ready, hPass, rfl⟩ := step_reschedule h
      exact inv.reschedule hPass

/-- Ids are given out and never taken back. -/
theorem Inv.nextId_le (inv : s.Inv) (h : Timers.step event s = some s') : s.base.nextId ≤ s'.base.nextId := by
  cases event with
  | add now delayMs repeating =>
      cases h
      obtain ⟨_, _, hNext, _⟩ := inv.sound.add now delayMs repeating
      exact hNext ▸ Nat.le_succ _
  | cancel id =>
      cases h
      exact Nat.le_of_eq (TimerBase.cancel_nextId _ _).symm
  | collect now =>
      obtain ⟨hFree, rfl⟩ := step_collect h
      have sound := inv.sound
      rw [ready, hFree] at sound
      obtain ⟨_, _, hNext, _⟩ := TimerBase.Sound.collected sound now
      exact Nat.le_of_eq hNext.symm
  | call =>
      obtain ⟨_, _, _, _, rfl⟩ := step_call h
      exact Nat.le_refl _
  | reschedule =>
      obtain ⟨ready, hPass, rfl⟩ := step_reschedule h
      have sound := inv.sound
      rw [Timers.ready, hPass] at sound
      obtain ⟨_, hNext, _⟩ := TimerBase.reschedule_spec ready s.base sound
      exact Nat.le_of_eq hNext.symm

theorem inv_of_calls {allowed : Timers → Event → Prop} (reach : Calls step (· = .constructed) allowed s) : s.Inv := by
  apply reach.invariant
  · rintro _ rfl
    exact .constructed
  · intro s event s' _ inv _ h
    exact inv.step h

theorem Inv.lt_of_live {node : TimerNode} (inv : s.Inv) (h : s.live id = some node) : id < s.base.nextId :=
  inv.sound.lt_of_find ((inv.live id).trans h)

/-- What has become of the pass, and of a timer that it has collected. -/
structure Goes (ops : List Event) (start s : Timers) (collected : List Nat) : Prop where
  inv : s.Inv
  pass : ∃ made rest, s.pass = some ⟨rest, collected⟩ ∧ collected = made ++ rest ∧ s.called = made.reverse ++ start.called
  issued : start.base.nextId ≤ s.base.nextId
  live : ∀ id node, start.live id = some node → s.live id = some node ∨ s.live id = none ∧ .cancel id ∈ ops

theorem Goes.step {start : Timers} {collected : List Nat} (goes : Goes ops start s collected) (hStart : start.Inv)
    (hEvent : event ≠ .reschedule) (h : step event s = some s') : Goes (event :: ops) start s' collected := by
  have hOld : ∀ id node, start.live id = some node →
      s.live id = some node ∨ s.live id = none ∧ .cancel id ∈ event :: ops := fun id node hNode =>
    (goes.live id node hNode).imp_right fun ⟨hNone, hCancel⟩ => ⟨hNone, List.mem_cons_of_mem _ hCancel⟩
  refine ⟨goes.inv.step h, ?_, ?_, fun id node hNode => ?_⟩
  · obtain ⟨made, rest, hPass, hSplit, hCalled⟩ := goes.pass
    cases event with
    | add now delayMs repeating =>
        cases h
        exact ⟨made, rest, hPass, hSplit, hCalled⟩
    | cancel id =>
        cases h
        exact ⟨made, rest, hPass, hSplit, hCalled⟩
    | collect now =>
        obtain ⟨hFree, _⟩ := step_collect h
        cases hFree.symm.trans hPass
    | call =>
        obtain ⟨id, later, ready, hNow, rfl⟩ := step_call h
        cases hPass.symm.trans hNow
        refine ⟨made ++ [id], later, rfl, by rw [hSplit, List.append_assoc]; rfl, ?_⟩
        rw [List.reverse_append, List.append_assoc, ← hCalled]
        rfl
    | reschedule => exact absurd rfl hEvent
  · exact Nat.le_trans goes.issued (goes.inv.nextId_le h)
  · cases event with
    | add now delayMs repeating =>
        cases h
        have hne : id ≠ s.base.nextId := by
          have hlt := hStart.lt_of_live hNode
          have hle := goes.issued
          omega
        have hSame : (s.add now delayMs repeating).live id = s.live id := Function.update_of_ne hne _ _
        rw [hSame]
        exact hOld id node hNode
    | cancel other =>
        cases h
        by_cases hid : id = other
        · right
          rw [hid]
          exact ⟨Function.update_self .., List.mem_cons_self⟩
        · have hSame : (s.cancel other).live id = s.live id := Function.update_of_ne hid _ _
          rw [hSame]
          exact hOld id node hNode
    | collect now =>
        obtain ⟨_, rfl⟩ := step_collect h
        exact hOld id node hNode
    | call =>
        obtain ⟨_, _, _, _, rfl⟩ := step_call h
        exact hOld id node hNode
    | reschedule => exact absurd rfl hEvent

/-- A timer that is over is not called again. -/
structure Gone (id : Nat) (s : Timers) : Prop where
  inv : s.Inv
  live : s.live id = none
  issued : id < s.base.nextId
  calls : ∀ pass ∈ s.pass, id ∉ pass.calls

theorem Gone.step (gone : Gone id s) (h : Timers.step event s = some s') :
    Gone id s' ∧ ∃ calls, s'.called = calls ++ s.called ∧ id ∉ calls := by
  have inv' := gone.inv.step h
  have hIssued := Nat.lt_of_lt_of_le gone.issued (gone.inv.nextId_le h)
  cases event with
  | add now delayMs repeating =>
      cases h
      have hne : id ≠ s.base.nextId := Nat.ne_of_lt gone.issued
      have hLive : (s.add now delayMs repeating).live id = s.live id := Function.update_of_ne hne _ _
      exact ⟨⟨inv', hLive.trans gone.live, hIssued, gone.calls⟩, [], rfl, List.not_mem_nil⟩
  | cancel other =>
      cases h
      refine ⟨⟨inv', ?_, hIssued, gone.calls⟩, [], rfl, List.not_mem_nil⟩
      show Function.update s.live other none id = none
      rw [Function.update_apply, gone.live, ite_self]
  | collect now =>
      obtain ⟨hFree, rfl⟩ := step_collect h
      have sound : s.base.Sound [] := by
        have hSound := gone.inv.sound
        rw [ready, hFree] at hSound
        exact hSound
      obtain ⟨_, _, _, hDue⟩ := sound.collected now
      refine ⟨⟨inv', gone.live, hIssued, fun pass hPass hMem => ?_⟩, [], rfl, List.not_mem_nil⟩
      cases hPass
      obtain ⟨node, hNode, _⟩ := (hDue id).mp hMem
      rw [gone.inv.live, gone.live] at hNode
      cases hNode
  | call =>
      obtain ⟨first, rest, ready, hPass, rfl⟩ := step_call h
      have hOther := gone.calls _ hPass
      refine ⟨⟨inv', gone.live, gone.issued, fun pass hNow hMem => ?_⟩, [first], rfl, fun hMem => ?_⟩
      · cases hNow
        exact hOther (List.mem_cons_of_mem _ hMem)
      · rw [List.mem_singleton.mp hMem] at hOther
        exact hOther List.mem_cons_self
  | reschedule =>
      obtain ⟨ready, hPass, rfl⟩ := step_reschedule h
      refine ⟨⟨inv', ?_, hIssued, fun pass h => by cases h⟩, [], rfl, List.not_mem_nil⟩
      show (if id ∈ ready then (s.live id).bind TimerNode.renewed else s.live id) = none
      rw [gone.live, Option.bind_none, ite_self]

theorem Gone.run {more : List Event} {later : Timers} (gone : Gone id s) (run : CallsOf Timers.step (· = s) more later) :
    Gone id later ∧ ∃ calls, later.called = calls ++ s.called ∧ id ∉ calls := by
  apply run.invariant (I := fun _ later => Gone id later ∧ ∃ calls, later.called = calls ++ s.called ∧ id ∉ calls)
  · rintro _ rfl
    exact ⟨gone, [], rfl, List.not_mem_nil⟩
  · rintro _ middle event later ⟨hGone, calls, hCalled, hNot⟩ h
    obtain ⟨hGone', calls', hCalled', hNot'⟩ := hGone.step h
    refine ⟨hGone', calls' ++ calls, ?_, fun h => (List.mem_append.mp h).elim hNot' hNot⟩
    rw [hCalled', hCalled, List.append_assoc]

/-- The state at the first half of a pass. -/
theorem Goes.collect (inv : s.Inv) (hFree : s.pass = none) (now : Nat) :
    Goes [] (s.collect now) (s.collect now) (s.base.collectExpired now).1 where
  inv := inv.collect hFree now
  pass := ⟨[], _, rfl, rfl, rfl⟩
  issued := Nat.le_refl _
  live _ _ h := .inl h

theorem Goes.run {start : Timers} {collected : List Nat} (goes : Goes [] start start collected)
    (run : CallsOf Timers.step (· = start) ops s) (hPass : .reschedule ∉ ops) : Goes ops start s collected := by
  have hRun : .reschedule ∉ ops → Goes ops start s collected := by
    apply run.invariant (I := fun ops s => .reschedule ∉ ops → Goes ops start s collected)
    · rintro _ rfl _
      exact goes
    · intro ops s event s' ih h hNot
      exact (ih fun hMem => hNot (List.mem_cons_of_mem _ hMem)).step goes.inv
        (fun hEvent => hNot (hEvent ▸ List.mem_cons_self)) h
  exact hRun hPass

/-- Every pass calls back all that is due, once and in the order of expiry, puts back what repeats
and ends the rest. -/
theorem pass_delivers {s₁ s₂ s₃ : Timers} (reach : Calls step (· = .constructed) anyCall s)
    (hCollect : step (.collect now) s = some s₁) (during : CallsOf step (· = s₁) ops s₂)
    (hPass : .reschedule ∉ ops) (hEnd : step .reschedule s₂ = some s₃) : ∃ made, Delivers now ops s s₃ made := by
  have inv := inv_of_calls reach
  obtain ⟨hFree, rfl⟩ := step_collect hCollect
  have goes := (Goes.collect inv hFree now).run during hPass
  obtain ⟨ready, hAtEnd, rfl⟩ := step_reschedule hEnd
  obtain ⟨made, rest, hRest, hSplit, hCalled⟩ := goes.pass
  cases hAtEnd.symm.trans hRest
  rw [List.append_nil] at hSplit
  have sound : s.base.Sound [] := by
    have h := inv.sound
    rw [Timers.ready, hFree] at h
    exact h
  have sound₂ : s₂.base.Sound (s.base.collectExpired now).1 := by
    have h := goes.inv.sound
    rw [Timers.ready, hAtEnd] at h
    exact h
  obtain ⟨hSound, hNext, hFind⟩ := TimerBase.reschedule_spec _ s₂.base sound₂
  obtain ⟨hCollected, _, hNextId, hDue⟩ := sound.collected now
  obtain ⟨_, collects⟩ := TimerBase.collect_spec now s.base.heap.length s.base [] (Nat.le_refl _) sound
  have inv₃ := goes.inv.reschedule hAtEnd
  have hLive : ∀ id ∈ made, (s₂.reschedule (s.base.collectExpired now).1).live id = (s₂.live id).bind TimerNode.renewed := by
    intro id hid
    exact if_pos (hSplit ▸ hid)
  refine ⟨made, hCalled, ?_, fun id => ?_, ?_, ?_, ?_, hSound.sorted⟩
  · rw [← hSplit]
    exact hCollected.apart
  · rw [← hSplit, hDue, inv.live]
  · rw [← hSplit]
    exact collects.inOrder.imp fun {id id'} h node hNode node' hNode' =>
      h node ((inv.live id).trans hNode) node' ((inv.live id').trans hNode')
  · intro id hid node hNode hRepeats hNot
    have hStill : s₂.live id = some node := (goes.live id node hNode).resolve_right fun h => hNot h.2
    have hRenewed := hLive id hid
    rw [hStill, Option.bind_some, TimerNode.renewed, if_pos hRepeats, ← inv₃.live] at hRenewed
    obtain ⟨i, hTimer, hAt⟩ := TimerBase.find_eq_some.mp hRenewed
    exact ⟨i, hSound.mem_heap hTimer List.not_mem_nil, hTimer, hAt⟩
  · intro id hid node hNode hOnce more later hRun
    have hOver : (s₂.reschedule (s.base.collectExpired now).1).live id = none := by
      rw [hLive id hid]
      rcases goes.live id node hNode with hStill | ⟨hGone, _⟩
      · rw [hStill, Option.bind_some, TimerNode.renewed, if_neg (by simp [hOnce])]
      · rw [hGone, Option.bind_none]
    have hIssued : id < (s₂.reschedule (s.base.collectExpired now).1).base.nextId := by
      have hlt : id < (s.collect now).base.nextId := Nat.lt_of_lt_of_eq (inv.lt_of_live hNode) hNextId.symm
      exact Nat.lt_of_lt_of_eq (Nat.lt_of_lt_of_le hlt goes.issued) hNext.symm
    have gone : Gone id (s₂.reschedule (s.base.collectExpired now).1) := ⟨inv₃, hOver, hIssued, fun pass h => by cases h⟩
    exact (gone.run hRun).2

section Runs

/-- Of three timers that are due one is cancelled, and what is added in a callback waits. -/
def waiting : Timers :=
  (Calls.replay step anyCall .constructed [.add 0 2 true, .add 0 1 false, .add 0 1 true, .cancel 3]).get
    (by decide +kernel)

def collected : Timers := (step (.collect 2000000) waiting).get (by decide +kernel)

def calledBack : Timers :=
  (Calls.replay step anyCall collected [.call, .add 2000000 0 false, .cancel 2, .call]).get (by decide +kernel)

def ended : Timers := (step .reschedule calledBack).get (by decide +kernel)

theorem delivers_ended : ∃ made,
    Delivers 2000000 ([.call, .add 2000000 0 false, .cancel 2, .call].reverse ++ []) waiting ended made :=
  pass_delivers (Calls.of_replay (.start rfl) (Option.some_get _).symm) (Option.some_get _).symm
    (CallsOf.of_replay (.start rfl) (Option.some_get _).symm) (by decide) (Option.some_get _).symm

end Runs

end Timers

end Timer
