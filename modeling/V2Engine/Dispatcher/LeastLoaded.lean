import Mathlib.Data.Nat.Find
import V2Engine.Dispatcher.WorkDispatcher
import V2Engine.Interleaving.Program

/-! Which worker `pickWorker` finds when the queues do not change meanwhile. The scan goes on from
the worker it has found, by more than one place once it has found another one than the home
worker, so that it may pass over the least loaded one. -/
namespace WorkDispatcher

variable {n : Nat} [NeZero n] {queue : Fin n → Nat} {home b w : Fin n} {i j k left watermark actorId : Nat}

/-- The worker `k` places after `b`, in circles. -/
def after (b : Fin n) (k : Nat) : Fin n := Fin.ofNat n (b + k)

/-- From the home worker on, each time to the first worker that is less loaded than the last one,
at a distance `i` that is greater each time. -/
inductive Stride (queue : Fin n → Nat) (home : Fin n) : Nat → Fin n → Prop where
  | home : Stride queue home 0 home
  | next {i j : Nat} {b : Fin n} (prior : Stride queue home i b) (hFurther : i < j) (hLast : j < n)
      (hFirst : ∀ k, i < k → k < j → queue b ≤ queue (after b k)) (hLess : queue (after b j) < queue b) :
      Stride queue home j (after b j)

/-- No worker is less loaded at a distance greater than the last one. -/
def Stride.Ends (queue : Fin n → Nat) (i : Nat) (b : Fin n) : Prop :=
  ∀ k, i < k → k < n → queue b ≤ queue (after b k)

/-- A less loaded worker is nearer to the last one than that one was to the one before it. -/
def PassesOver (queue : Fin n → Nat) (home : Fin n) : Prop :=
  ∃ i b, Stride queue home i b ∧ Stride.Ends queue i b ∧ ∃ k, 0 < k ∧ k ≤ i ∧ queue (after b k) < queue b

/-- What load-aware dispatch is to do: the home worker, unless its queue is long and another one
is shorter than it, and then one with the shortest queue of all. -/
structure Routed (watermark : Nat) (queue : Fin n → Nat) (home found : Fin n) : Prop where
  atHome : n = 1 ∨ queue home < watermark → found = home
  least : ¬(n = 1 ∨ queue home < watermark) → ∀ w, queue found ≤ queue w
  tie : ¬(n = 1 ∨ queue home < watermark) → (∀ w, queue home ≤ queue w) → found = home

theorem after_zero (b : Fin n) : after b 0 = b := Fin.ofNat_val_eq_self b

/-- Every worker is at some distance. -/
theorem exists_after (b w : Fin n) : ∃ k < n, w = after b k := by
  refine ⟨(w + (n - b)) % n, Nat.mod_lt _ (Nat.pos_of_neZero n), Fin.ext ?_⟩
  show (w : Nat) = (b + (w + (n - b)) % n) % n
  have hb := b.isLt
  rw [Nat.add_mod_mod, show (b : Nat) + (w + (n - b)) = w + n by omega, Nat.add_mod_right,
    Nat.mod_eq_of_lt w.isLt]

theorem Stride.lt (stride : Stride queue home i b) : i < n := by
  cases stride with
  | home => exact Nat.pos_of_neZero n
  | next prior hFurther hLast hFirst hLess => exact hLast

/-- Each worker found is less loaded than those before it. -/
theorem Stride.less (stride : Stride queue home i b) : b = home ∨ queue b < queue home := by
  induction stride with
  | home => exact .inl rfl
  | next prior hFurther hLast hFirst hLess ih =>
      right
      rcases ih with rfl | ih
      · exact hLess
      · exact Nat.lt_trans hLess ih

/-- The distances grow, so that they come to an end. -/
theorem Stride.exists_ends (stride : Stride queue home i b) :
    ∃ j w, Stride queue home j w ∧ Stride.Ends queue j w := by
  generalize hLeft : n - i = left
  induction left using Nat.strongRecOn generalizing i b with
  | ind left ih =>
      by_cases hEnds : Stride.Ends queue i b
      · exact ⟨i, b, stride, hEnds⟩
      · have hSome : ∃ k, (i < k ∧ k < n) ∧ queue (after b k) < queue b := by
          by_contra hNone
          exact hEnds fun k hik hkn => Nat.le_of_not_lt fun hLess => hNone ⟨k, ⟨hik, hkn⟩, hLess⟩
        classical
        obtain ⟨⟨hFurther, hLast⟩, hLess⟩ := Nat.find_spec hSome
        have next : Stride queue home (Nat.find hSome) (after b (Nat.find hSome)) := by
          refine .next stride hFurther hLast (fun k hik hkj => ?_) hLess
          have hNot := Nat.find_min hSome hkj
          exact Nat.le_of_not_lt fun h => hNot ⟨⟨hik, by omega⟩, h⟩
        exact ih _ (by omega) next rfl

/-- The scan passes workers that are not less loaded. -/
theorem leastLoadedLoop_skip (hSame : ∀ k, i ≤ k → k < j → queue b ≤ queue (after b k)) (hij : i ≤ j)
    (hjn : j ≤ n) : leastLoadedLoop (fun _ => queue) (n - i) i b (queue b) =
      leastLoadedLoop (fun _ => queue) (n - j) j b (queue b) := by
  induction hij with
  | refl => rfl
  | @step j hij ih =>
      rw [ih (fun k hik hkj => hSame k hik (by omega)) (by omega),
        show n - j = (n - (j + 1)) + 1 by omega, leastLoadedLoop]
      exact if_neg (Nat.not_lt_of_le (hSame j hij (Nat.lt_succ_self j)))

/-- Nothing is less than an empty queue. -/
theorem leastLoadedLoop_zero (load : Nat → Fin n → Nat) : ∀ left i, leastLoadedLoop load left i b 0 = b
  | 0, _ => rfl
  | left + 1, i => by
      rw [leastLoadedLoop]
      exact (if_neg (Nat.not_lt_zero _)).trans (leastLoadedLoop_zero load left (i + 1))

/-- The scan goes on from a worker that is less loaded. -/
theorem leastLoadedLoop_found (hLess : queue (after b j) < queue b) (hjn : j < n) :
    leastLoadedLoop (fun _ => queue) (n - j) j b (queue b) =
      leastLoadedLoop (fun _ => queue) (n - (j + 1)) (j + 1) (after b j) (queue (after b j)) := by
  rw [show n - j = (n - (j + 1)) + 1 by omega, leastLoadedLoop]
  refine (if_pos hLess).trans ?_
  show (if queue (after b j) = 0 then _ else _) = _
  split
  · rename_i hNone
    rw [hNone]
    exact (leastLoadedLoop_zero _ _ _).symm
  · rfl

/-- The scan comes to each of the workers. -/
theorem pickLeastLoaded_stride (stride : Stride queue (Fin.ofNat n actorId) i b) :
    pickLeastLoaded (fun _ => queue) actorId =
      leastLoadedLoop (fun _ => queue) (n - (i + 1)) (i + 1) b (queue b) := by
  induction stride with
  | home =>
      have hHere : ∀ k, 0 ≤ k → k < 1 → queue (Fin.ofNat n actorId) ≤ queue (after (Fin.ofNat n actorId) k) := by
        intro k _ hk
        rw [Nat.lt_one_iff.mp hk, after_zero]
      exact leastLoadedLoop_skip hHere (Nat.zero_le 1) (Nat.pos_of_neZero n)
  | next prior hFurther hLast hFirst hLess ih =>
      rw [ih, leastLoadedLoop_skip (fun k hik hkj => hFirst k (by omega) hkj) (by omega) (by omega),
        leastLoadedLoop_found hLess hLast]

/-- The last of the workers is the one that is found. -/
theorem pickLeastLoaded_eq (stride : Stride queue (Fin.ofNat n actorId) i b) (ends : Stride.Ends queue i b) :
    pickLeastLoaded (fun _ => queue) actorId = b := by
  rw [pickLeastLoaded_stride stride,
    leastLoadedLoop_skip (fun k hik hkn => ends k (by omega) hkn) (Nat.succ_le_of_lt stride.lt) (Nat.le_refl n),
    Nat.sub_self]
  rfl

/-- Whenever the home worker's queue is long, the worker that is found is a least loaded one exactly
if the scan passes over none that is less loaded. -/
theorem routed_iff (watermark : Nat) (queue : Fin n → Nat) (actorId : Nat) :
    Routed watermark queue (Fin.ofNat n actorId) (pickWorker watermark (fun _ => queue) actorId) ↔
      n = 1 ∨ queue (Fin.ofNat n actorId) < watermark ∨ ¬PassesOver queue (Fin.ofNat n actorId) := by
  have hn := Nat.pos_of_neZero n
  unfold pickWorker
  by_cases hOne : n = 1
  · rw [if_pos (by omega)]
    exact iff_of_true ⟨fun _ => rfl, fun h => absurd (.inl hOne) h, fun _ _ => rfl⟩ (.inl hOne)
  rw [if_neg (by omega)]
  by_cases hShort : queue (Fin.ofNat n actorId) < watermark
  · rw [if_pos hShort]
    exact iff_of_true ⟨fun _ => rfl, fun h => absurd (.inr hShort) h, fun _ _ => rfl⟩ (.inr (.inl hShort))
  rw [if_neg hShort]
  have hBusy : ¬(n = 1 ∨ queue (Fin.ofNat n actorId) < watermark) := not_or.mpr ⟨hOne, hShort⟩
  have hCases : n = 1 ∨ queue (Fin.ofNat n actorId) < watermark ∨ ¬PassesOver queue (Fin.ofNat n actorId) ↔
      ¬PassesOver queue (Fin.ofNat n actorId) := by
    rw [← or_assoc]
    exact or_iff_right hBusy
  rw [hCases]
  constructor
  · rintro routed ⟨i, b, stride, ends, k, _, _, hLess⟩
    have hLeast := routed.least hBusy (after b k)
    rw [pickLeastLoaded_eq stride ends] at hLeast
    exact Nat.not_lt_of_le hLeast hLess
  · intro hNone
    obtain ⟨i, b, stride, ends⟩ := (.home : Stride queue (Fin.ofNat n actorId) 0 (Fin.ofNat n actorId)).exists_ends
    rw [pickLeastLoaded_eq stride ends]
    refine ⟨fun h => absurd h hBusy, fun _ w => ?_, fun _ hTie => ?_⟩
    · obtain ⟨k, hk, rfl⟩ := exists_after b w
      by_cases hFar : i < k
      · exact ends k hFar hk
      · rcases Nat.eq_zero_or_pos k with rfl | hPositive
        · rw [after_zero]
        · apply Nat.le_of_not_lt
          exact fun hLess => hNone ⟨i, b, stride, ends, k, hPositive, by omega, hLess⟩
    · exact stride.less.resolve_right (Nat.not_lt_of_le (hTie b))

/-- The second of three workers is the least loaded one, and the scan comes back to it. -/
theorem routed_iff_secondOfThree :
    ¬PassesOver (fun w : Fin 3 => if w = 0 then 5 else if w = 1 then 1 else 3) (Fin.ofNat 3 0) := by
  have routed : Routed 1 (fun w : Fin 3 => if w = 0 then 5 else if w = 1 then 1 else 3) (Fin.ofNat 3 0)
      (pickWorker 1 (fun _ (w : Fin 3) => if w = 0 then 5 else if w = 1 then 1 else 3) 0) :=
    ⟨fun h => absurd h (by decide), fun _ => by decide, fun _ h => absurd (h 1) (by decide)⟩
  have hCases := (routed_iff 1 (fun w : Fin 3 => if w = 0 then 5 else if w = 1 then 1 else 3) 0).mp routed
  exact (hCases.resolve_left (by decide)).resolve_left (by decide)

/-- The second of three workers is less loaded than the home worker and the third one less than the
second; going on two places from the second one the scan is back at the home worker. -/
theorem passes_over_third :
    ¬Routed 1 (fun w : Fin 3 => if w = 0 then 5 else if w = 1 then 4 else 1) (Fin.ofNat 3 0)
      (pickWorker 1 (fun _ (w : Fin 3) => if w = 0 then 5 else if w = 1 then 4 else 1) 0) := by
  intro routed
  have hLeast := routed.least (by decide) 2
  exact absurd hLeast (by decide)

end WorkDispatcher
