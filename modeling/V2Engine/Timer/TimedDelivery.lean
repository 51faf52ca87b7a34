import V2Engine.Timer.Scheduler

/-! What becomes of the messages of a `Scheduler`'s timers, whatever callers do between the
steps of the expiry passes. -/
namespace Timer

open Interleaving

variable {τ ρ α : Type*}

namespace Scheduler

/-- What is known of one timer. The passes that collected it account for it: before the first
of them it is due at its expiry, and a one-shot timer is gone after it. -/
structure Timed (s : Scheduler τ ρ α) (ready todo : List Nat) (a : Added ρ α) : Prop where
  issued : a.id < s.timer.nextId
  due : a.id ∈ todo → ∀ k, s.passes = k + 1 → a.expiry ≤ s.clock k
  node : ∀ node, s.timer.find a.id = some node → node.repeating = a.repeating ∧
    a.expiry ≤ node.expiry ∧ (node.expiry = a.expiry ∨ ∃ k, s.Collected a.id k)
  gone : a.id ∉ s.cancels → s.timer.find a.id = none →
    a.repeating = false ∧ ∃ k, s.Collected a.id k
  lives : a.id ∉ s.cancels → a.id ∈ ready → s.timer.find a.id ≠ none
  last : a.repeating = false → ∀ k, s.Collected a.id k → s.timer.find a.id ≠ none →
    a.id ∈ ready ∧ s.passes = k + 1
  single : a.repeating = false → ∀ k k', s.Collected a.id k → s.Collected a.id k' → k = k'
  reached : a.id ∉ s.cancels → ∀ k < s.passes, a.since ≤ k → a.expiry ≤ s.clock k →
    ∃ k' ≤ k, s.Collected a.id k'

/-- The timers of the scheduler, and the record of the passes. -/
structure Tracked (s : Scheduler τ ρ α) (ready todo : List Nat) : Prop where
  sound : s.timer.Sound ready
  once : (s.added.map Added.id).Nodup
  cancels : ∀ id ∈ s.cancels, id < s.timer.nextId
  collected : ∀ id k, s.Collected id k → id < s.timer.nextId
  current : ∀ id ∈ ready, ∃ k, s.passes = k + 1 ∧ id ∈ s.collected k
  ahead : todo <:+ ready
  each : ∀ a ∈ s.added, s.Timed ready todo a

/-- The contexts of the timers. -/
structure Stored (s : Scheduler τ ρ α) : Prop where
  kept : ∀ a ∈ s.added, a.id ∉ s.cancels → s.timer.find a.id ≠ none → s.storing ≠ some a.id →
    s.timerCtxs.lookup a.id = some a.ctx
  known : ∀ id ctx, s.timerCtxs.lookup id = some ctx → ∃ a ∈ s.added, a.id = id ∧ a.ctx = ctx
  ended : ∀ id ∈ s.cancelled, id ∈ s.cancels ∧ s.timerCtxs.lookup id = none ∧ s.storing ≠ some id
  free : s.holder = none → s.storing = none

/-- The messages that were enqueued. -/
structure Counted (s : Scheduler τ ρ α) (todo : List Nat) : Prop where
  count : ∀ a ∈ s.added, a.id ∉ s.cancels → ∀ k,
    s.copies a.id k = if s.Called todo a.id k then 1 else 0
  own : ∀ x ∈ s.sent, ∃ a ∈ s.added, x.id = a.id ∧ x.ctx = a.ctx ∧ x.pass < s.passes ∧
    a.expiry ≤ s.clock x.pass

structure Inv (s : Scheduler τ ρ α) (ready todo : List Nat) : Prop where
  tracked : s.Tracked ready todo
  stored : s.Stored
  counted : s.Counted todo

/-- Where a caller stands, and whether it has `mutex_`. -/
def Holds (s : Scheduler τ ρ α) (caller : τ) : CallerPc ρ α → Prop
  | .idle => s.holder ≠ some caller
  | .storing id ctx => s.holder = some caller ∧ s.storing = some id ∧
      ∃ a ∈ s.added, a.id = id ∧ a.ctx = ctx
  | .erasing id => s.holder = some caller ∧ s.storing = none ∧
      (id < s.timer.nextId → id ∈ s.cancels)
  | _ => s.holder = some caller ∧ s.storing = none

section Results

variable {s : Scheduler τ ρ α} {ready todo : List Nat}

theorem Inv.called_of_sent (inv : s.Inv ready todo) {a : Added ρ α} (hAdded : a ∈ s.added)
    (hLive : a.id ∉ s.cancels) {x : Sent ρ α} (hSent : x ∈ s.sent) (hId : x.id = a.id) :
    s.Called todo a.id x.pass := by
  by_contra hNot
  have hNone := inv.counted.count a hAdded hLive x.pass
  rw [if_neg hNot, copies, List.countP_eq_zero] at hNone
  exact hNone x hSent (by simp [hId])

/-- The messages of a one-shot timer are those of the one pass that collected it. -/
theorem Inv.count_eq (inv : s.Inv ready todo) {a : Added ρ α} (hAdded : a ∈ s.added)
    (hOnce : a.repeating = false) (hLive : a.id ∉ s.cancels) {k : Nat}
    (hCollected : s.Collected a.id k) :
    (s.sent.countP fun x => x.id = a.id) = s.copies a.id k := by
  apply List.countP_congr
  intro x hSent
  simp only [decide_eq_true_eq]
  constructor
  · intro hId
    have hCalled := inv.called_of_sent hAdded hLive hSent hId
    exact ⟨hId, (inv.tracked.each a hAdded).single hOnce _ _ hCalled.1 hCollected⟩
  · exact And.left

theorem Inv.timely (inv : s.Inv ready todo) : s.Timely todo where
  own := inv.counted.own
  each := inv.counted.count
  most a hAdded hOnce hLive := by
    by_cases hSome : ∃ x ∈ s.sent, x.id = a.id
    · obtain ⟨x, hSent, hId⟩ := hSome
      have hCalled := inv.called_of_sent hAdded hLive hSent hId
      rw [inv.count_eq hAdded hOnce hLive hCalled.1, inv.counted.count a hAdded hLive, if_pos hCalled]
    · rw [List.countP_eq_zero.mpr]
      · exact Nat.zero_le 1
      · intro x hSent hId
        exact hSome ⟨x, hSent, of_decide_eq_true hId⟩
  least a hAdded hOnce hLive hTodo k hPass hSince hDue := by
    obtain ⟨k', _, hCollected⟩ := (inv.tracked.each a hAdded).reached hLive k hPass hSince hDue
    have hCalled : s.Called todo a.id k' := ⟨hCollected, fun h => hTodo h.2⟩
    rw [inv.count_eq hAdded hOnce hLive hCollected, inv.counted.count a hAdded hLive, if_pos hCalled]
  kept a hAdded hLive hStored hDelivery := by
    apply inv.stored.kept a hAdded hLive _ hStored
    rcases hDelivery with hAlive | hTodo
    · rw [inv.tracked.sound.isAlive_eq] at hAlive
      exact Option.isSome_iff_ne_none.mp hAlive
    · exact (inv.tracked.each a hAdded).lives hLive (inv.tracked.ahead.subset hTodo)

end Results

section Passes

variable {s : Scheduler τ ρ α} {ready todo : List Nat}

theorem collected_collect {now id k : Nat} : (s.collect now).Collected id k ↔
    s.Collected id k ∨ (k = s.passes ∧ id ∈ (s.timer.collectExpired now).1) := by
  show k < s.passes + 1 ∧
    id ∈ Function.update s.collected s.passes (s.timer.collectExpired now).1 k ↔ _
  by_cases hk : k = s.passes
  · subst hk
    simp [Collected]
  · rw [Function.update_of_ne hk, Collected]
    have hLt : k < s.passes + 1 ↔ k < s.passes := by omega
    simp [hk, hLt]

theorem clock_collect {now k : Nat} (hk : k < s.passes) : (s.collect now).clock k = s.clock k :=
  Function.update_of_ne (Nat.ne_of_lt hk) _ _

theorem clock_collect_self {now : Nat} : (s.collect now).clock s.passes = now :=
  Function.update_self ..

theorem Timed.collect {a : Added ρ α} (timed : s.Timed [] [] a) (sound : s.timer.Sound [])
    (now : Nat) :
    (s.collect now).Timed (s.timer.collectExpired now).1 (s.timer.collectExpired now).1 a := by
  obtain ⟨_, hFind, hNext, hReady⟩ := sound.collected now
  replace hFind : ∀ id, (s.collect now).timer.find id = s.timer.find id := hFind
  have hBefore : ∀ {k}, s.Collected a.id k → a.repeating = false → s.timer.find a.id = none := by
    intro k hCollected hOnce
    by_contra hFound
    exact List.not_mem_nil (timed.last hOnce k hCollected hFound).1
  have hFound : a.id ∈ (s.timer.collectExpired now).1 → s.timer.find a.id ≠ none := by
    intro hid
    obtain ⟨node, hNode, _⟩ := (hReady a.id).mp hid
    simp [hNode]
  constructor
  case issued => exact hNext.symm ▸ timed.issued
  case due =>
    intro hid k hk
    obtain ⟨node, hNode, hExpiry⟩ := (hReady a.id).mp hid
    obtain rfl : s.passes = k := Nat.succ.inj hk
    rw [clock_collect_self]
    exact Nat.le_trans (timed.node node hNode).2.1 hExpiry
  case node =>
    intro node hNode
    obtain ⟨hRepeats, hLe, hSame⟩ := timed.node node ((hFind _).symm.trans hNode)
    exact ⟨hRepeats, hLe, hSame.imp id fun ⟨k, h⟩ => ⟨k, collected_collect.mpr (.inl h)⟩⟩
  case gone =>
    intro hLive hNone
    obtain ⟨hOnce, k, h⟩ := timed.gone hLive ((hFind _).symm.trans hNone)
    exact ⟨hOnce, k, collected_collect.mpr (.inl h)⟩
  case lives =>
    intro _ hid
    rw [hFind]
    exact hFound hid
  case last =>
    intro hOnce k hCollected hSome
    rw [hFind] at hSome
    rcases collected_collect.mp hCollected with hOld | ⟨rfl, hNew⟩
    · exact absurd (hBefore hOld hOnce) hSome
    · exact ⟨hNew, rfl⟩
  case single =>
    intro hOnce k k' h h'
    rcases collected_collect.mp h with hOld | ⟨rfl, hNew⟩ <;>
      rcases collected_collect.mp h' with hOld' | ⟨rfl, hNew'⟩
    · exact timed.single hOnce k k' hOld hOld'
    · exact absurd (hBefore hOld hOnce) (hFound hNew')
    · exact absurd (hBefore hOld' hOnce) (hFound hNew)
    · rfl
  case reached =>
    intro hLive k hk hSince hExpiry
    replace hk : k < s.passes + 1 := hk
    rcases Nat.lt_succ_iff_lt_or_eq.mp hk with hOld | rfl
    · rw [clock_collect hOld] at hExpiry
      obtain ⟨k', hLe, h⟩ := timed.reached hLive k hOld hSince hExpiry
      exact ⟨k', hLe, collected_collect.mpr (.inl h)⟩
    · rw [clock_collect_self] at hExpiry
      -- The timer is due in this pass, or an earlier one has collected it.
      have hSome : (∃ k, s.Collected a.id k) ∨ a.id ∈ (s.timer.collectExpired now).1 := by
        cases hNode : s.timer.find a.id with
        | none => exact .inl (timed.gone hLive hNode).2
        | some node =>
            rcases (timed.node node hNode).2.2 with hSame | hEarlier
            · exact .inr ((hReady a.id).mpr ⟨node, hNode, hSame ▸ hExpiry⟩)
            · exact .inl hEarlier
      rcases hSome with ⟨k, h⟩ | hNew
      · exact ⟨k, Nat.le_of_lt h.1, collected_collect.mpr (.inl h)⟩
      · exact ⟨s.passes, Nat.le_refl _, collected_collect.mpr (.inr ⟨rfl, hNew⟩)⟩

theorem Tracked.collect (tracked : s.Tracked [] []) (now : Nat) :
    (s.collect now).Tracked (s.timer.collectExpired now).1 (s.timer.collectExpired now).1 := by
  obtain ⟨hSound, hFind, hNext, hReady⟩ := tracked.sound.collected now
  refine ⟨hSound, tracked.once, fun id hid => hNext.symm ▸ tracked.cancels id hid, ?_, ?_,
    List.suffix_refl _, fun a ha => (tracked.each a ha).collect tracked.sound now⟩
  · intro id k hCollected
    show id < (s.timer.collectExpired now).2.nextId
    rw [hNext]
    rcases collected_collect.mp hCollected with hOld | ⟨_, hNew⟩
    · exact tracked.collected id k hOld
    · obtain ⟨node, hNode, _⟩ := (hReady id).mp hNew
      exact tracked.sound.lt_of_find hNode
  · intro id hid
    exact ⟨s.passes, rfl, (collected_collect.mpr (.inr ⟨rfl, hid⟩)).2⟩

theorem called_nil {id k : Nat} : s.Called [] id k ↔ s.Collected id k := by
  simp [Called]

theorem Inv.collect (inv : s.Inv [] []) (now : Nat) :
    (s.collect now).Inv (s.timer.collectExpired now).1 (s.timer.collectExpired now).1 := by
  obtain ⟨_, hFind, _, _⟩ := inv.tracked.sound.collected now
  refine ⟨inv.tracked.collect now, ⟨?_, inv.stored.known, inv.stored.ended, inv.stored.free⟩, ?_, ?_⟩
  · intro a hAdded hLive hSome
    exact inv.stored.kept a hAdded hLive fun hNone => hSome ((hFind a.id).trans hNone)
  · intro a hAdded hLive k
    refine (inv.counted.count a hAdded hLive k).trans ?_
    congr 1
    rw [eq_iff_iff, called_nil, Called, collected_collect]
    constructor
    · intro h
      refine ⟨.inl h, fun hCurrent => ?_⟩
      have hk : s.passes + 1 = k + 1 := hCurrent.1
      have := h.1
      omega
    · rintro ⟨hOld | ⟨rfl, hNew⟩, hNot⟩
      · exact hOld
      · exact absurd ⟨rfl, hNew⟩ hNot
  · intro x hx
    obtain ⟨a, hAdded, hId, hCtx, hPass, hDue⟩ := inv.counted.own x hx
    refine ⟨a, hAdded, hId, hCtx, Nat.lt_succ_of_lt hPass, ?_⟩
    rw [clock_collect hPass]
    exact hDue

theorem Timed.reschedule {a : Added ρ α} (timed : s.Timed ready [] a)
    (sound : s.timer.Sound ready)
    (current : ∀ id ∈ ready, ∃ k, s.passes = k + 1 ∧ id ∈ s.collected k) :
    ({ s with timer := s.timer.reschedule ready } : Scheduler τ ρ α).Timed [] [] a := by
  obtain ⟨_, hNext, hFind⟩ := TimerBase.reschedule_spec ready s.timer sound
  have hCollected : a.id ∈ ready → ∃ k, s.Collected a.id k := by
    intro hid
    obtain ⟨k, hk, hMem⟩ := current a.id hid
    exact ⟨k, by omega, hMem⟩
  have hRenewed : ∀ node : TimerNode, node.renewed = none ↔ node.repeating = false := by
    intro node
    unfold TimerNode.renewed
    split <;> simp_all
  constructor
  case issued =>
    show a.id < (s.timer.reschedule ready).nextId
    rw [hNext]
    exact timed.issued
  case due => exact fun h => absurd h List.not_mem_nil
  case node =>
    intro node' hNode
    replace hNode := (hFind a.id).symm.trans hNode
    split at hNode
    · next hid =>
      obtain ⟨node, hOld, hNew⟩ := Option.bind_eq_some_iff.mp hNode
      obtain ⟨hRepeats, hLe, _⟩ := timed.node node hOld
      unfold TimerNode.renewed at hNew
      split at hNew <;> cases hNew
      exact ⟨hRepeats, Nat.le_trans hLe (Nat.le_add_right _ _), .inr (hCollected hid)⟩
    · exact timed.node node' hNode
  case gone =>
    intro hLive hNone
    replace hNone := (hFind a.id).symm.trans hNone
    split at hNone
    · next hid =>
      cases hOld : s.timer.find a.id with
      | none => exact timed.gone hLive hOld
      | some node =>
          rw [hOld, Option.bind_some, hRenewed] at hNone
          exact ⟨(timed.node node hOld).1.symm.trans hNone, hCollected hid⟩
    · exact timed.gone hLive hNone
  case lives => exact fun _ h => absurd h List.not_mem_nil
  case last =>
    intro hOnce k h hSome
    replace hSome : (s.timer.reschedule ready).find a.id ≠ none := hSome
    rw [hFind] at hSome
    split at hSome
    · next hid =>
      cases hOld : s.timer.find a.id with
      | none => exact absurd (by rw [hOld, Option.bind_none]) hSome
      | some node =>
          have hNever := (hRenewed node).mpr ((timed.node node hOld).1.trans hOnce)
          exact absurd (by rw [hOld, Option.bind_some, hNever]) hSome
    · next hid => exact absurd (timed.last hOnce k h hSome).1 hid
  case single => exact timed.single
  case reached => exact timed.reached

theorem Inv.reschedule (inv : s.Inv ready []) :
    ({ s with timer := s.timer.reschedule ready } : Scheduler τ ρ α).Inv [] [] := by
  obtain ⟨hSound, hNext, hFind⟩ := TimerBase.reschedule_spec ready s.timer inv.tracked.sound
  refine ⟨⟨hSound, inv.tracked.once, ?_, ?_, nofun, List.suffix_refl _, ?_⟩,
    ⟨?_, inv.stored.known, inv.stored.ended, inv.stored.free⟩,
    ⟨inv.counted.count, inv.counted.own⟩⟩
  · intro id hid
    exact hNext.symm ▸ inv.tracked.cancels id hid
  · intro id k hCollected
    exact hNext.symm ▸ inv.tracked.collected id k hCollected
  · intro a ha
    exact (inv.tracked.each a ha).reschedule inv.tracked.sound inv.tracked.current
  · intro a hAdded hLive hSome
    apply inv.stored.kept a hAdded hLive
    intro hNone
    apply hSome
    refine (hFind a.id).trans ?_
    rw [hNone, Option.bind_none, ite_self]

end Passes

section Callbacks

variable {s s' : Scheduler τ ρ α} {ready todo : List Nat} {id : Nat}

/-- Only the timers and the record of the passes matter. -/
theorem Tracked.same (tracked : s.Tracked ready todo) (hTimer : s'.timer = s.timer)
    (hPasses : s'.passes = s.passes) (hClock : s'.clock = s.clock)
    (hCollected : s'.collected = s.collected) (hAdded : s'.added = s.added)
    (hCancels : s'.cancels = s.cancels) : s'.Tracked ready todo := by
  obtain ⟨timer, _, _, _, passes, clock, collected, added, cancels, _, _⟩ := s'
  cases hTimer
  cases hPasses
  cases hClock
  cases hCollected
  cases hAdded
  cases hCancels
  refine ⟨tracked.sound, tracked.once, tracked.cancels, tracked.collected, tracked.current,
    tracked.ahead, fun a ha => ?_⟩
  have timed := tracked.each a ha
  exact ⟨timed.issued, timed.due, timed.node, timed.gone, timed.lives, timed.last, timed.single,
    timed.reached⟩

theorem Tracked.next (tracked : s.Tracked ready (id :: todo)) : s.Tracked ready todo where
  sound := tracked.sound
  once := tracked.once
  cancels := tracked.cancels
  collected := tracked.collected
  current := tracked.current
  ahead := (List.suffix_cons id todo).trans tracked.ahead
  each a ha :=
    { tracked.each a ha with
      due := fun hid => (tracked.each a ha).due (List.mem_cons_of_mem _ hid) }

theorem Tracked.not_mem (tracked : s.Tracked ready (id :: todo)) : id ∉ todo :=
  (List.nodup_cons.mp (tracked.ahead.sublist.nodup tracked.sound.apart)).1

/-- The callback is made in the last pass, which has collected the timer. -/
theorem Tracked.head (tracked : s.Tracked ready (id :: todo)) :
    ∃ k, s.passes = k + 1 ∧ s.Collected id k := by
  obtain ⟨k, hk, hMem⟩ := tracked.current id (tracked.ahead.subset List.mem_cons_self)
  exact ⟨k, hk, by omega, hMem⟩

theorem Tracked.inj (tracked : s.Tracked ready todo) {a b : Added ρ α} (ha : a ∈ s.added)
    (hb : b ∈ s.added) (h : a.id = b.id) : a = b := List.inj_on_of_nodup_map tracked.once ha hb h

/-- The calls that the callback makes up for. -/
theorem called_next (tracked : s.Tracked ready (id :: todo)) {id' k : Nat} :
    s.Called todo id' k ↔ s.Called (id :: todo) id' k ∨ (id' = id ∧ s.passes = k + 1) := by
  obtain ⟨last, hLast, hCollected⟩ := tracked.head
  have hNot := tracked.not_mem
  unfold Called
  constructor
  · rintro ⟨h, hTodo⟩
    by_cases hNow : id' = id ∧ s.passes = k + 1
    · exact .inr hNow
    · refine .inl ⟨h, fun ⟨hk, hid⟩ => ?_⟩
      rcases List.mem_cons.mp hid with rfl | hRest
      · exact hNow ⟨rfl, hk⟩
      · exact hTodo ⟨hk, hRest⟩
  · rintro (⟨h, hTodo⟩ | ⟨rfl, hk⟩)
    · exact ⟨h, fun ⟨hk, hid⟩ => hTodo ⟨hk, List.mem_cons_of_mem _ hid⟩⟩
    · obtain rfl : last = k := by omega
      exact ⟨hCollected, fun h => hNot h.2⟩

theorem Inv.timerCallback (inv : s.Inv ready (id :: todo)) (hFree : s.holder = none) :
    (s.timerCallback id).Inv ready todo := by
  obtain ⟨last, hLast, hCollected⟩ := inv.tracked.head
  have hNext : ∀ id' k, s.Called todo id' k ↔ s.Called (id :: todo) id' k ∨
      (id' = id ∧ s.passes = k + 1) := fun _ _ => called_next inv.tracked
  unfold Scheduler.timerCallback
  cases hLookup : s.timerCtxs.lookup id with
  | none =>
      refine ⟨inv.tracked.next, inv.stored, fun a hAdded hLive k => ?_, inv.counted.own⟩
      have hne : a.id ≠ id := by
        intro hid
        have hSome := (inv.tracked.each a hAdded).lives hLive
          (inv.tracked.ahead.subset (hid ▸ List.mem_cons_self))
        have hKept := inv.stored.kept a hAdded hLive hSome (by simp [inv.stored.free hFree])
        rw [hid, hLookup] at hKept
        cases hKept
      rw [inv.counted.count a hAdded hLive k]
      congr 1
      rw [eq_iff_iff, hNext]
      exact ⟨.inl, fun h => h.resolve_right fun h => hne h.1⟩
  | some ctx =>
      refine ⟨inv.tracked.next.same rfl rfl rfl rfl rfl rfl,
        ⟨inv.stored.kept, inv.stored.known, inv.stored.ended, inv.stored.free⟩, ?_, ?_⟩
      · intro a hAdded hLive k
        have hCount := inv.counted.count a hAdded hLive k
        show List.countP _ (_ :: s.sent) = _
        rw [List.countP_cons]
        change s.copies a.id k + _ = _
        have hPass : s.passes - 1 = k ↔ s.passes = k + 1 := by omega
        show _ = if s.Called todo a.id k then 1 else 0
        rw [hCount, if_congr (hNext a.id k) rfl rfl]
        by_cases hid : a.id = id
        · rw [hid]
          by_cases hk : s.passes = k + 1
          · have hStill : ¬s.Called (id :: todo) id k := fun h => h.2 ⟨hk, List.mem_cons_self⟩
            simp [hk, hStill]
          · simp [hPass.not.mpr hk, hk]
        · simp [hid, Ne.symm hid]
      · intro x hx
        rcases List.mem_cons.mp hx with rfl | hOld
        · obtain ⟨a, hAdded, hId, hCtx⟩ := inv.stored.known id ctx hLookup
          have hPass : s.passes - 1 = last := by omega
          refine ⟨a, hAdded, hId.symm, hCtx.symm, by show s.passes - 1 < s.passes; omega, ?_⟩
          show a.expiry ≤ s.clock (s.passes - 1)
          rw [hPass]
          exact (inv.tracked.each a hAdded).due (by simp [hId]) last hLast
        · exact inv.counted.own x hOld

end Callbacks

section Callers

variable {s s' : Scheduler τ ρ α} {ready todo : List Nat} {id : Nat}

/-- Who has `mutex_` matters only as long as an id is to be stored. -/
theorem Inv.withHolder (inv : s.Inv ready todo) (hStoring : s.storing = none) (holder : Option τ) :
    ({ s with holder := holder } : Scheduler τ ρ α).Inv ready todo :=
  ⟨inv.tracked.same rfl rfl rfl rfl rfl rfl,
    ⟨inv.stored.kept, inv.stored.known, inv.stored.ended, fun _ => hStoring⟩,
    ⟨inv.counted.count, inv.counted.own⟩⟩

theorem known_erase (stored : s.Stored) {id' : Nat} {ctx : TimerCtx ρ α}
    (h : (s.timerCtxs.erase id).lookup id' = some ctx) : ∃ a ∈ s.added, a.id = id' ∧ a.ctx = ctx := by
  have hne : id' ≠ id := by
    rintro rfl
    rw [AList.lookup_erase] at h
    cases h
  rw [AList.lookup_erase_ne hne] at h
  exact stored.known id' ctx h

theorem lookup_erase_of_none {id' : Nat} (h : s.timerCtxs.lookup id' = none) :
    (s.timerCtxs.erase id).lookup id' = none := by
  by_cases hid : id' = id
  · rw [hid, AList.lookup_erase]
  · rw [AList.lookup_erase_ne hid, h]

/-- Only the context of a timer that is over goes. -/
theorem Inv.cleanup (inv : s.Inv ready todo) (id : Nat) : (s.cleanup id).Inv ready todo := by
  unfold Scheduler.cleanup
  split
  · exact inv
  · next hDead =>
    rw [inv.tracked.sound.isAlive_eq] at hDead
    refine ⟨inv.tracked.same rfl rfl rfl rfl rfl rfl,
      ⟨fun a hAdded hLive hSome hStored => ?_, fun id' ctx h => known_erase inv.stored h,
        fun id' hid => ?_, inv.stored.free⟩, ⟨inv.counted.count, inv.counted.own⟩⟩
    · have hne : a.id ≠ id := by
        intro hid
        rw [hid] at hSome
        exact hDead (Option.isSome_iff_ne_none.mpr hSome)
      show (s.timerCtxs.erase id).lookup a.id = _
      rw [AList.lookup_erase_ne hne]
      exact inv.stored.kept a hAdded hLive hSome hStored
    · obtain ⟨hCancels, hNone, hStored⟩ := inv.stored.ended id' hid
      exact ⟨hCancels, lookup_erase_of_none hNone, hStored⟩

theorem Inv.store (inv : s.Inv ready todo) {ctx : TimerCtx ρ α} (hStoring : s.storing = some id)
    (hAdded : ∃ a ∈ s.added, a.id = id ∧ a.ctx = ctx) : (s.store id ctx).Inv ready todo := by
  obtain ⟨a, hMem, hId, hCtx⟩ := hAdded
  refine ⟨inv.tracked.same rfl rfl rfl rfl rfl rfl, ⟨fun b hb hLive hSome _ => ?_,
    fun id' ctx' h => ?_, fun id' hid => ?_, fun _ => rfl⟩, ⟨inv.counted.count, inv.counted.own⟩⟩
  · show (s.timerCtxs.insert id ctx).lookup b.id = _
    by_cases hid : b.id = id
    · rw [hid, AList.lookup_insert, inv.tracked.inj hb hMem (hid.trans hId.symm), hCtx]
    · rw [AList.lookup_insert_ne hid]
      apply inv.stored.kept b hb hLive hSome
      rw [hStoring]
      exact fun h => hid (Option.some.inj h).symm
  · replace h : (s.timerCtxs.insert id ctx).lookup id' = some ctx' := h
    by_cases hid : id' = id
    · rw [hid, AList.lookup_insert] at h
      exact ⟨a, hMem, hId.trans hid.symm, hCtx.trans (Option.some.inj h)⟩
    · rw [AList.lookup_insert_ne hid] at h
      exact inv.stored.known id' ctx' h
  · obtain ⟨hCancels, hNone, hStored⟩ := inv.stored.ended id' hid
    have hne : id' ≠ id := fun h => hStored (h ▸ hStoring)
    refine ⟨hCancels, ?_, nofun⟩
    show (s.timerCtxs.insert id ctx).lookup id' = none
    rw [AList.lookup_insert_ne hne, hNone]

theorem Inv.eraseCtx (inv : s.Inv ready todo) (hStoring : s.storing = none)
    (hCancels : id < s.timer.nextId → id ∈ s.cancels) : (s.eraseCtx id).Inv ready todo := by
  refine ⟨inv.tracked.same rfl rfl rfl rfl rfl rfl, ⟨fun a hAdded hLive hSome hStored => ?_,
    fun id' ctx h => known_erase inv.stored h, fun id' hid => ?_, fun _ => hStoring⟩,
    ⟨inv.counted.count, inv.counted.own⟩⟩
  · have hne : a.id ≠ id := fun hid =>
      hLive (hid ▸ hCancels (hid ▸ (inv.tracked.each a hAdded).issued))
    show (s.timerCtxs.erase id).lookup a.id = _
    rw [AList.lookup_erase_ne hne]
    exact inv.stored.kept a hAdded hLive hSome hStored
  · have hOld : id' ∈ s.cancelled ∨ (id' = id ∧ id ∈ s.cancels) := by
      change id' ∈ (if id ∈ s.cancels then id :: s.cancelled else s.cancelled) at hid
      split at hid
      · next hMem => exact (List.mem_cons.mp hid).symm.imp_right fun h => ⟨h, hMem⟩
      · exact .inl hid
    have hNot : s.storing ≠ some id' := by
      rw [hStoring]
      exact nofun
    rcases hOld with hEnded | ⟨rfl, hMem⟩
    · obtain ⟨hMem, hNone, _⟩ := inv.stored.ended id' hEnded
      exact ⟨hMem, lookup_erase_of_none hNone, hNot⟩
    · exact ⟨hMem, AList.lookup_erase _ _, hNot⟩

theorem mem_cancels {caller : τ} {id' : Nat} : id' ∈ (s.cancelTimer caller id).cancels ↔
    id' ∈ s.cancels ∨ (id' = id ∧ id < s.timer.nextId) := by
  show id' ∈ (if id < s.timer.nextId then id :: s.cancels else s.cancels) ↔ _
  split <;> simp [*, or_comm]

theorem Inv.cancelTimer (inv : s.Inv ready todo) (hStoring : s.storing = none) (caller : τ) (id : Nat) :
    (s.cancelTimer caller id).Inv ready todo := by
  obtain ⟨hSound, hFind, _⟩ := inv.tracked.sound.cancel id
  replace hFind : ∀ id', (s.cancelTimer caller id).timer.find id'
      = if id' = id then none else s.timer.find id' := hFind
  have hNext : (s.cancelTimer caller id).timer.nextId = s.timer.nextId :=
    TimerBase.cancel_nextId _ _
  have hLives : ∀ a ∈ s.added, a.id ∉ (s.cancelTimer caller id).cancels →
      a.id ∉ s.cancels ∧ (s.cancelTimer caller id).timer.find a.id = s.timer.find a.id := by
    intro a hAdded hLive
    rw [mem_cancels, not_or] at hLive
    have hne : a.id ≠ id := fun h => hLive.2 ⟨h, h ▸ (inv.tracked.each a hAdded).issued⟩
    exact ⟨hLive.1, by rw [hFind, if_neg hne]⟩
  have hSome : ∀ {id'}, (s.cancelTimer caller id).timer.find id' ≠ none →
      s.timer.find id' ≠ none := by
    intro id' h
    rw [hFind] at h
    split at h
    · exact absurd rfl h
    · exact h
  refine ⟨⟨hSound, inv.tracked.once, ?_, ?_, inv.tracked.current, inv.tracked.ahead, ?_⟩,
    ⟨?_, inv.stored.known, ?_, fun _ => hStoring⟩, ?_, inv.counted.own⟩
  · intro id' hid
    rw [hNext]
    rcases mem_cancels.mp hid with hOld | ⟨rfl, hIssued⟩
    · exact inv.tracked.cancels id' hOld
    · exact hIssued
  · intro id' k h
    rw [hNext]
    exact inv.tracked.collected id' k h
  · intro a hAdded
    have timed := inv.tracked.each a hAdded
    refine ⟨hNext.symm ▸ timed.issued, timed.due, fun node hNode => ?_, fun hLive hNone => ?_,
      fun hLive hid => ?_, fun hOnce k h hFound => timed.last hOnce k h (hSome hFound), timed.single,
      fun hLive => timed.reached (hLives a hAdded hLive).1⟩
    · rw [hFind] at hNode
      split at hNode
      · cases hNode
      · exact timed.node node hNode
    · obtain ⟨hOld, hSame⟩ := hLives a hAdded hLive
      exact timed.gone hOld (hSame.symm.trans hNone)
    · obtain ⟨hOld, hSame⟩ := hLives a hAdded hLive
      rw [hSame]
      exact timed.lives hOld hid
  · intro a hAdded hLive hFound
    exact inv.stored.kept a hAdded (hLives a hAdded hLive).1 (hSome hFound)
  · intro id' hid
    obtain ⟨hMem, hNone, hStored⟩ := inv.stored.ended id' hid
    exact ⟨mem_cancels.mpr (.inl hMem), hNone, hStored⟩
  · intro a hAdded hLive
    exact inv.counted.count a hAdded (hLives a hAdded hLive).1

theorem Inv.register (inv : s.Inv ready todo) (hStoring : s.storing = none) (request : Request ρ α)
    (now : Nat) (hHolder : s.holder ≠ none) : (s.register request now).Inv ready todo := by
  obtain ⟨hSound, hFind, hNext, _, _⟩ := inv.tracked.sound.add now request.delayMs request.repeating
  replace hFind : ∀ id, (s.register request now).timer.find id
      = if id = s.timer.nextId then some (s.timer.added now request.delayMs request.repeating)
        else s.timer.find id := hFind
  replace hNext : (s.register request now).timer.nextId = s.timer.nextId + 1 := hNext
  have hOther : ∀ {id}, id < s.timer.nextId → (s.register request now).timer.find id = s.timer.find id := by
    intro id hid
    rw [hFind, if_neg (Nat.ne_of_lt hid)]
  refine ⟨⟨hSound, ?_, ?_, ?_, inv.tracked.current, inv.tracked.ahead, ?_⟩,
    ⟨?_, ?_, ?_, fun h => absurd h hHolder⟩, ?_, ?_⟩
  · show (s.timer.nextId :: s.added.map Added.id).Nodup
    refine List.nodup_cons.mpr ⟨fun h => ?_, inv.tracked.once⟩
    obtain ⟨a, hAdded, hid⟩ := List.mem_map.mp h
    exact Nat.lt_irrefl _ (hid ▸ (inv.tracked.each a hAdded).issued)
  · intro id hid
    rw [hNext]
    exact Nat.lt_succ_of_lt (inv.tracked.cancels id hid)
  · intro id k h
    rw [hNext]
    exact Nat.lt_succ_of_lt (inv.tracked.collected id k h)
  · intro a ha
    rcases List.mem_cons.mp ha with rfl | hAdded
    · -- The passes so far know nothing of the new timer.
      have hNever : ∀ k, ¬s.Collected s.timer.nextId k :=
        fun k h => Nat.lt_irrefl _ (inv.tracked.collected _ k h)
      have hNew : s.timer.nextId ∉ ready :=
        fun h => Nat.lt_irrefl _ (inv.tracked.sound.readied _ h)
      have hHere : (s.register request now).timer.find s.timer.nextId
          = some (s.timer.added now request.delayMs request.repeating) := by
        rw [hFind, if_pos rfl]
      refine ⟨by rw [hNext]; exact Nat.lt_succ_self _,
        fun h => absurd (inv.tracked.ahead.subset h) hNew, fun node hNode => ?_, fun _ hNone => ?_,
        fun _ h => absurd h hNew, fun _ k h => absurd h (hNever k),
        fun _ k _ h => absurd h (hNever k), fun _ k hk hSince => ?_⟩
      · cases hHere.symm.trans hNode
        exact ⟨rfl, Nat.le_refl _, .inl rfl⟩
      · cases hHere.symm.trans hNone
      · exact absurd hk (Nat.not_lt_of_le hSince)
    · have timed := inv.tracked.each a hAdded
      have hSame := hOther timed.issued
      refine ⟨by rw [hNext]; exact Nat.lt_succ_of_lt timed.issued, timed.due,
        fun node hNode => timed.node node (hSame.symm.trans hNode),
        fun hLive hNone => timed.gone hLive (hSame.symm.trans hNone), fun hLive hid => ?_,
        fun hOnce k h hFound => timed.last hOnce k h (hSame ▸ hFound), timed.single, timed.reached⟩
      rw [hSame]
      exact timed.lives hLive hid
  · intro a ha hLive hFound hStored
    rcases List.mem_cons.mp ha with rfl | hAdded
    · exact absurd rfl hStored
    · rw [hOther (inv.tracked.each a hAdded).issued] at hFound
      apply inv.stored.kept a hAdded hLive hFound
      rw [hStoring]
      exact nofun
  · intro id ctx h
    obtain ⟨a, hAdded, hSame⟩ := inv.stored.known id ctx h
    exact ⟨a, List.mem_cons_of_mem _ hAdded, hSame⟩
  · intro id hid
    obtain ⟨hMem, hNone, _⟩ := inv.stored.ended id hid
    refine ⟨hMem, hNone, fun h => ?_⟩
    exact Nat.lt_irrefl _ (Option.some.inj h ▸ inv.tracked.cancels id hMem)
  · intro a ha hLive k
    rcases List.mem_cons.mp ha with rfl | hAdded
    · show s.copies s.timer.nextId k = _
      rw [if_neg fun h => Nat.lt_irrefl _ (inv.tracked.collected _ k h.1), copies,
        List.countP_eq_zero]
      intro x hx hSame
      obtain ⟨a, hAdded, hId, _⟩ := inv.counted.own x hx
      have hIssued := (inv.tracked.each a hAdded).issued
      rw [← hId, (of_decide_eq_true hSame).1] at hIssued
      exact Nat.lt_irrefl _ hIssued
    · exact inv.counted.count a hAdded hLive k
  · intro x hx
    obtain ⟨a, hAdded, hOwn⟩ := inv.counted.own x hx
    exact ⟨a, List.mem_cons_of_mem _ hAdded, hOwn⟩

end Callers

section Steps

variable {s s' : Scheduler τ ρ α}

/-- Only `mutex_` and what belongs to its holder matter. -/
theorem Holds.same {caller : τ} {place : CallerPc ρ α} (holds : s.Holds caller place)
    (hHolder : s'.holder = s.holder) (hStoring : s'.storing = s.storing) (hAdded : s'.added = s.added)
    (hNext : s'.timer.nextId = s.timer.nextId) (hCancels : s'.cancels = s.cancels) :
    s'.Holds caller place := by
  cases place <;> simpa only [Holds, hHolder, hStoring, hAdded, hNext, hCancels] using holds

theorem passStep_inv {pc pc' : PassPc} {choice : PassChoice} (inv : s.Inv pc.ready pc.todo)
    (h : passStep s pc choice = some (s', pc')) :
    s'.Inv pc'.ready pc'.todo ∧
      ∀ caller place, s.Holds caller place → s'.Holds caller place := by
  rcases pc with _ | now | ⟨_ | ⟨id, todo⟩, ready⟩ <;> cases choice <;>
    simp only [passStep, reduceCtorEq] at h
  case idle.wake =>
    cases h
    exact ⟨inv, fun _ _ => id⟩
  case expired.go =>
    cases h
    obtain ⟨_, _, hNext, _⟩ := inv.tracked.sound.collected now
    exact ⟨inv.collect now, fun _ _ holds => holds.same rfl rfl rfl hNext rfl⟩
  case calling.nil.go =>
    cases h
    obtain ⟨_, hNext, _⟩ := TimerBase.reschedule_spec ready s.timer inv.tracked.sound
    exact ⟨inv.reschedule, fun _ _ holds => holds.same rfl rfl rfl hNext rfl⟩
  case calling.cons.go =>
    split_ifs at h with hFree
    cases h
    refine ⟨inv.timerCallback (Option.isNone_iff_eq_none.mp hFree), fun _ _ holds => ?_⟩
    unfold Scheduler.timerCallback
    split
    · exact holds
    · exact holds.same rfl rfl rfl rfl rfl

/-- A caller that takes a step had `mutex_` or takes it, and keeps it or lets it go. -/
theorem callerStep_holder {caller : τ} {place place' : CallerPc ρ α} {choice : CallerChoice ρ α}
    (holds : s.Holds caller place) (h : callerStep caller s place choice = some (s', place')) :
    (s.holder = none ∨ s.holder = some caller) ∧ (s'.holder = none ∨ s'.holder = some caller) := by
  rcases place with _ | ⟨_ | ⟨id, entries⟩, request⟩ | _ | _ | _ <;> cases choice <;>
    simp only [callerStep, reduceCtorEq] at h
  case idle.addTimer | idle.cancel =>
    split_ifs at h with hFree
    cases h
    exact ⟨.inl (Option.isNone_iff_eq_none.mp hFree), .inr rfl⟩
  case cleaning.nil.clock | registering.go =>
    cases h
    exact ⟨.inr holds.1, .inr holds.1⟩
  case cleaning.cons.go =>
    cases h
    refine ⟨.inr holds.1, ?_⟩
    unfold Scheduler.cleanup
    split <;> exact .inr holds.1
  case storing.go | erasing.go =>
    cases h
    exact ⟨.inr holds.1, .inl rfl⟩

theorem Holds.other {caller other : τ} {there : CallerPc ρ α} (holds : s.Holds other there)
    (hOther : other ≠ caller) (hBefore : s.holder = none ∨ s.holder = some caller)
    (hAfter : s'.holder = none ∨ s'.holder = some caller) : s'.Holds other there := by
  have hNot : ∀ {t : Scheduler τ ρ α}, t.holder = none ∨ t.holder = some caller → t.holder ≠ some other := by
    rintro t (hNone | hSome) h
    · cases hNone.symm.trans h
    · exact hOther (Option.some.inj (h.symm.trans hSome))
  cases there with
  | idle => exact hNot hAfter
  | _ => exact absurd holds.1 (hNot hBefore)

theorem callerStep_holds {caller : τ} {place place' : CallerPc ρ α} {choice : CallerChoice ρ α}
    (holds : s.Holds caller place) (h : callerStep caller s place choice = some (s', place'))
    (hStart : s.holder = none → s.storing = none) :
    s'.Holds caller place' ∧ (s'.holder = none → s'.storing = none) := by
  rcases place with _ | ⟨_ | ⟨id, entries⟩, request⟩ | _ | _ | _ <;> cases choice <;>
    simp only [callerStep, reduceCtorEq] at h
  case idle.addTimer =>
    split_ifs at h with hFree
    cases h
    exact ⟨⟨rfl, hStart (Option.isNone_iff_eq_none.mp hFree)⟩, nofun⟩
  case idle.cancel id =>
    split_ifs at h with hFree
    cases h
    refine ⟨⟨rfl, hStart (Option.isNone_iff_eq_none.mp hFree), fun hIssued => ?_⟩, nofun⟩
    apply mem_cancels.mpr
    right
    exact ⟨rfl, lt_of_lt_of_eq hIssued (TimerBase.cancel_nextId _ _)⟩
  case cleaning.nil.clock =>
    cases h
    exact ⟨holds, hStart⟩
  case cleaning.cons.go =>
    cases h
    unfold Scheduler.cleanup
    split <;> exact ⟨holds, hStart⟩
  case registering.go =>
    cases h
    refine ⟨⟨holds.1, rfl, _, List.mem_cons_self, rfl, rfl⟩, fun hNone => ?_⟩
    cases hNone.symm.trans holds.1
  case storing.go =>
    cases h
    exact ⟨nofun, fun _ => rfl⟩
  case erasing.go =>
    cases h
    exact ⟨nofun, fun _ => holds.2.1⟩

theorem callerStep_inv {caller : τ} {place place' : CallerPc ρ α} {choice : CallerChoice ρ α}
    {ready todo : List Nat} (holds : s.Holds caller place)
    (h : callerStep caller s place choice = some (s', place')) (inv : s.Inv ready todo) :
    s'.Inv ready todo := by
  rcases place with _ | ⟨_ | ⟨id, entries⟩, request⟩ | ⟨request, now⟩ | _ | _ <;> cases choice <;>
    simp only [callerStep, reduceCtorEq] at h
  case idle.addTimer =>
    split_ifs at h with hFree
    cases h
    exact inv.withHolder (inv.stored.free (Option.isNone_iff_eq_none.mp hFree)) _
  case idle.cancel id =>
    split_ifs at h with hFree
    cases h
    exact inv.cancelTimer (inv.stored.free (Option.isNone_iff_eq_none.mp hFree)) caller id
  case cleaning.nil.clock =>
    cases h
    exact inv
  case cleaning.cons.go =>
    cases h
    exact inv.cleanup id
  case registering.go =>
    cases h
    exact inv.register holds.2 request now (by rw [holds.1]; exact nofun)
  case storing.go =>
    cases h
    exact inv.store holds.2.1 holds.2.2
  case erasing.go =>
    cases h
    exact inv.eraseCtx holds.2.1 holds.2.2

/-- Nothing is enqueued any more for a timer whose `cancel` has returned. -/
theorem passStep_quiet {pc pc' : PassPc} {choice : PassChoice} {id : Nat} (stored : s.Stored)
    (hEnded : id ∈ s.cancelled) (h : passStep s pc choice = some (s', pc')) :
    id ∈ s'.cancelled ∧ s'.sent.filter (fun x => x.id = id) = s.sent.filter fun x => x.id = id := by
  rcases pc with _ | now | ⟨_ | ⟨id', todo⟩, ready⟩ <;> cases choice <;>
    simp only [passStep, reduceCtorEq] at h
  case idle.wake | expired.go | calling.nil.go =>
    cases h
    exact ⟨hEnded, rfl⟩
  case calling.cons.go =>
    split_ifs at h
    cases h
    unfold Scheduler.timerCallback
    split
    · exact ⟨hEnded, rfl⟩
    · next ctx hLookup =>
      have hne : id' ≠ id := by
        rintro rfl
        cases (stored.ended id' hEnded).2.1.symm.trans hLookup
      exact ⟨hEnded, List.filter_cons_of_neg (by simpa using hne)⟩

theorem callerStep_quiet {caller : τ} {place place' : CallerPc ρ α} {choice : CallerChoice ρ α}
    {id : Nat} (hEnded : id ∈ s.cancelled) (h : callerStep caller s place choice = some (s', place')) :
    id ∈ s'.cancelled ∧ s'.sent = s.sent := by
  rcases place with _ | ⟨_ | ⟨id', entries⟩, request⟩ | _ | _ | _ <;> cases choice <;>
    simp only [callerStep, reduceCtorEq] at h
  case idle.addTimer | idle.cancel =>
    split_ifs at h
    cases h
    exact ⟨hEnded, rfl⟩
  case cleaning.nil.clock | registering.go | storing.go =>
    cases h
    exact ⟨hEnded, rfl⟩
  case cleaning.cons.go =>
    cases h
    unfold Scheduler.cleanup
    split <;> exact ⟨hEnded, rfl⟩
  case erasing.go =>
    cases h
    refine ⟨?_, rfl⟩
    unfold Scheduler.eraseCtx
    dsimp only
    split
    · exact List.mem_cons_of_mem _ hEnded
    · exact hEnded

end Steps

theorem inv_start : (start : Scheduler τ ρ α).Inv [] [] where
  tracked :=
    { sound := TimerBase.constructed_sound
      once := .nil
      cancels := nofun
      collected := fun _ _ h => absurd h.1 (Nat.not_lt_zero _)
      current := nofun
      ahead := List.suffix_refl _
      each := nofun }
  stored := ⟨nofun, fun _ _ h => absurd h (by simp [start]), nofun, fun _ => rfl⟩
  counted := ⟨nofun, nofun⟩

section Runs

variable [DecidableEq τ] {c d : Config (Unit ⊕ τ) (Scheduler τ ρ α) (PassPc ⊕ CallerPc ρ α)}

theorem outlined (reach : Reach schedulerProgram (· = schedulerStart) anyStep c) :
    Outlined (fun s => s.holder = none → s.storing = none)
      (fun s (_ : Unit) pc => s.Inv pc.ready pc.todo) Holds c := by
  refine Reach.outlined ?_ ?_ ?_ reach
  · exact ⟨fun _ => rfl, fun _ => inv_start, fun _ => nofun⟩
  · intro _ s pc choice s' pc' _ inv h
    obtain ⟨hInv, hHolds⟩ := passStep_inv inv h
    exact ⟨hInv.stored.free, hInv, fun _ _ hOther => absurd rfl hOther, hHolds⟩
  · intro caller s place choice s' place' hFree holds h
    obtain ⟨hBefore, hAfter⟩ := callerStep_holder holds h
    obtain ⟨hHolds, hFree'⟩ := callerStep_holds holds h hFree
    exact ⟨hFree', hHolds, fun _ _ hOther holds' => holds'.other hOther hBefore hAfter,
      fun _ _ => callerStep_inv holds h⟩

theorem quiet (reach : Reach schedulerProgram (· = schedulerStart) anyStep c) {id : Nat}
    (hEnded : id ∈ c.shared.cancelled) (later : Reach schedulerProgram (· = c) anyStep d) :
    Reach schedulerProgram (· = schedulerStart) anyStep d ∧ id ∈ d.shared.cancelled ∧
      d.shared.sent.filter (fun x => x.id = id) = c.shared.sent.filter fun x => x.id = id := by
  apply Reach.invariant _ _ later
  · rintro d rfl
    exact ⟨reach, hEnded, rfl⟩
  · intro d thread choice s place _ ⟨hReach, hStill, hSame⟩ _ hLocal
    refine ⟨hReach.step trivial (Program.next_eq_some.mpr ⟨s, place, hLocal, rfl⟩), ?_⟩
    have outlined := outlined hReach
    rcases thread with _ | caller
    · obtain ⟨pc, hHere, inv⟩ := outlined.left ()
      rw [hHere] at hLocal
      cases choice with
      | inr choice => cases hLocal
      | inl choice =>
          obtain ⟨⟨s', pc'⟩, hStep, hAfter⟩ := Option.map_eq_some_iff.mp hLocal
          cases hAfter
          obtain ⟨hStays, hQuiet⟩ := passStep_quiet inv.stored hStill hStep
          exact ⟨hStays, hQuiet.trans hSame⟩
    · obtain ⟨place', hHere, _⟩ := outlined.right caller
      rw [hHere] at hLocal
      cases choice with
      | inl choice => cases hLocal
      | inr choice =>
          obtain ⟨⟨s', place''⟩, hStep, hAfter⟩ := Option.map_eq_some_iff.mp hLocal
          cases hAfter
          obtain ⟨hStays, hQuiet⟩ := callerStep_quiet hStill hStep
          exact ⟨hStays, (congrArg _ hQuiet).trans hSame⟩

/-- Whatever calls of `addTimer` and `cancel` come between the steps of the passes, messages
are delivered as their timers say, and none after a `cancel` has returned. -/
theorem delivered_in_time {pc : PassPc}
    (reach : Reach schedulerProgram (· = schedulerStart) anyStep c)
    (hHere : c.here (.inl ()) = .inl pc) :
    c.shared.Timely pc.todo ∧ ∀ id ∈ c.shared.cancelled, ∀ d,
      Reach schedulerProgram (· = c) anyStep d →
        d.shared.sent.filter (fun x => x.id = id) = c.shared.sent.filter fun x => x.id = id := by
  obtain ⟨pc', hHere', inv⟩ := (outlined reach).left ()
  cases hHere.symm.trans hHere'
  exact ⟨inv.timely, fun id hEnded d later => (quiet reach hEnded later).2.2⟩

/-- A repeating timer is cancelled in a pass that has found it and a one-shot timer ready. -/
def afterCancelInPass : Config (Unit ⊕ Fin 2) (Scheduler (Fin 2) Nat Nat) (PassPc ⊕ CallerPc Nat Nat) :=
  (Program.replay schedulerProgram anyStep schedulerStart
    [(.inr 0, .inr (.addTimer ⟨⟨7, 70⟩, 2, false⟩)), (.inr 0, .inr (.clock 0)), (.inr 0, .inr .go),
     (.inr 0, .inr .go), (.inr 1, .inr (.addTimer ⟨⟨8, 80⟩, 1, true⟩)), (.inr 1, .inr .go),
     (.inr 1, .inr (.clock 0)), (.inr 1, .inr .go), (.inr 1, .inr .go), (.inl (), .inl (.wake 2000000)),
     (.inl (), .inl .go), (.inr 1, .inr (.cancel 2)), (.inr 1, .inr .go), (.inl (), .inl .go),
     (.inl (), .inl .go)]).get (by decide +kernel)

theorem delivered_in_time_afterCancelInPass :
    afterCancelInPass.shared.Timely [] ∧ ∀ id ∈ afterCancelInPass.shared.cancelled, ∀ d,
      Reach schedulerProgram (· = afterCancelInPass) anyStep d →
        d.shared.sent.filter (fun x => x.id = id)
          = afterCancelInPass.shared.sent.filter fun x => x.id = id :=
  delivered_in_time (Reach.replay (.start rfl) (Option.some_get _).symm)
    (show afterCancelInPass.here (.inl ()) = .inl (.calling [] [2, 1]) from rfl)

end Runs

end Scheduler

end Timer
