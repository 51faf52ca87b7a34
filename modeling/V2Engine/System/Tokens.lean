import V2Engine.System.Mailboxes
import V2Engine.System.Moves
import V2Engine.Interleaving.Ledger
import Mathlib.Data.List.Count

/-! Execution tokens. An actor's flag `held` is set exactly while a token of the actor
is in a queue, in the pended list, in a worker's hands or in a call under way, so
there is never more than one. -/
namespace ActorSystem

open Interleaving

variable {n : Nat} {τ ρ β : Type*} [DecidableEq ρ]

/-- Tokens of actor `a` in a worker's grip. -/
def Grip.tokens (a : ρ) : Grip n ρ → Int
  | .popped b _ _ _ | .owing b _ | .carrying b => mark (b = a)
  | _ => 0

/-- Tokens of actor `a` that a call has set `held` for and not yet queued. -/
def Errand.tokens (a : ρ) : Errand n ρ → Int
  | .entering b _ | .parking b _ => mark (b = a)
  | _ => 0

def Stance.tokens (a : ρ) (x : Stance n ρ) : Int :=
  x.grip.tokens a + x.errand.elim 0 (Errand.tokens a)

/-- Tokens of actor `a` in the worker queues. -/
def queued (a : ρ) (d : WorkDispatcher n ρ) : Int :=
  entries (fun _ queue => (queue.items.count a : Int)) d.queues

/-- Tokens of actor `a` that wait in the dispatcher, less the one its flag vouches for. -/
def unvouched (slot : ρ → Nat) (a : ρ) (d : WorkDispatcher n ρ) : Int :=
  queued a d + d.pendedActorList.count a - (d.held (slot a)).toNat

theorem Grip.tokens_nonneg (a : ρ) (g : Grip n ρ) : 0 ≤ g.tokens a := by
  cases g <;> simp only [Grip.tokens, Int.le_refl, mark_nonneg]

theorem Errand.tokens_nonneg (a : ρ) (e : Errand n ρ) : 0 ≤ Errand.tokens a e := by
  cases e <;> simp only [Errand.tokens, Int.le_refl, mark_nonneg]

theorem Stance.tokens_nonneg (a : ρ) (x : Stance n ρ) : 0 ≤ x.tokens a := by
  refine Int.add_nonneg (Grip.tokens_nonneg a _) ?_
  cases x.errand with
  | none => exact Int.le_refl 0
  | some e => exact Errand.tokens_nonneg a e

theorem queued_nonneg (a : ρ) (d : WorkDispatcher n ρ) : 0 ≤ queued a d :=
  entries_nonneg fun _ => Int.natCast_nonneg _

theorem count_cons_eq (a b : ρ) (items : List ρ) :
    ((b :: items).count a : Int) = items.count a + mark (b = a) := by
  rw [List.count_cons]
  by_cases h : b = a <;> simp [h]

theorem count_pop {queue after : WorkQueue ρ} {b : ρ} {ticket : Nat}
    (h : queue.pop = some (b, ticket, after)) (a : ρ) :
    (queue.items.count a : Int) = after.items.count a + mark (b = a) := by
  rw [(WorkQueue.pop_eq_some h).1, count_cons_eq]

theorem count_append_singleton (a b : ρ) (items : List ρ) :
    ((items ++ [b]).count a : Int) = items.count a + mark (b = a) := by
  rw [(List.perm_append_singleton b items).count_eq, count_cons_eq]

theorem count_eraseIdx {parked : List ρ} {i : Nat} {b : ρ} (h : parked[i]? = some b) (a : ρ) :
    (parked.count a : Int) = (parked.eraseIdx i).count a + mark (b = a) := by
  obtain ⟨hLt, rfl⟩ := List.getElem?_eq_some_iff.mp h
  rw [← (List.getElem_cons_eraseIdx_perm hLt).count_eq, count_cons_eq]

section Moves

variable {slot : ρ → Nat} {capacity : Nat} {t : Thread n τ} {discards : Prop}
  {d d' : WorkDispatcher n ρ} {needs needs' : ρ → Prop} {x x' : Stance n ρ}

/-- Changing a flag moves the balance of its own actor only. -/
theorem unvouched_setHeld (hSlot : Function.Injective slot) (a b : ρ) {value : Bool}
    (hChange : d.held (slot b) = !value) :
    unvouched slot a (d.setHeld (slot b) value) =
      unvouched slot a d + if value then -mark (b = a) else mark (b = a) := by
  simp only [unvouched, queued, WorkDispatcher.setHeld]
  by_cases h : b = a
  · subst h
    cases value with
    | true => simp [hChange, Int.sub_eq_add_neg]
    | false => simp [hChange]
  · have hOther : slot a ≠ slot b := hSlot.ne (Ne.symm h)
    simp [Function.update_of_ne hOther, h]

theorem queued_push (a b : ρ) (q : Fin n) (d : WorkDispatcher n ρ) :
    queued a (d.push q b) = queued a d + mark (b = a) := by
  simp only [queued, WorkDispatcher.push, WorkDispatcher.setQueue, entries_update,
    WorkQueue.push, count_append_singleton]
  omega

theorem unvouched_push (a b : ρ) (q : Fin n) (d : WorkDispatcher n ρ) :
    unvouched slot a (d.push q b) = unvouched slot a d + mark (b = a) := by
  have hQueued := queued_push a b q d
  simp only [unvouched, WorkDispatcher.push, WorkDispatcher.setQueue] at hQueued ⊢
  omega

theorem unvouched_pop (a b : ρ) (q : Fin n) {ticket : Nat} {queue : WorkQueue ρ}
    (h : (d.queues q).pop = some (b, ticket, queue)) :
    unvouched slot a (d.setQueue q queue) = unvouched slot a d - mark (b = a) := by
  simp only [unvouched, queued, WorkDispatcher.setQueue, entries_update, count_pop h a]
  omega

theorem unvouched_release (a : ρ) (q : Fin n) (ticket : Nat) :
    unvouched slot a (d.setQueue q ((d.queues q).release ticket)) = unvouched slot a d := by
  simp only [unvouched, queued, WorkDispatcher.setQueue, entries_update, WorkQueue.release]
  omega

/-- A move hands tokens on, and makes or drops one only together with the flag. Only
clearing the pended list loses tokens. -/
theorem Move.tokens (hSlot : Function.Injective slot) (a : ρ)
    (hHeld : 0 < x.tokens a → d.held (slot a) = true)
    (move : Move slot capacity t discards d needs x d' needs' x') :
    unvouched slot a d' + x'.tokens a = unvouched slot a d + x.tokens a ∨
      discards ∧ unvouched slot a d' + x'.tokens a + d.pendedActorList.count a =
        unvouched slot a d + x.tokens a := by
  cases move
  case clear hDiscards hFree =>
    refine .inr ⟨hDiscards, ?_⟩
    simp only [unvouched, queued, WorkDispatcher.setPended, List.count_nil]
    omega
  all_goals refine .inl ?_
  case claim g b hClear =>
    rw [unvouched_setHeld hSlot a b hClear]
    simp only [Stance.tokens, Option.elim, Errand.tokens, if_true]
    omega
  case push g b source q hRoom =>
    rw [unvouched_push]
    simp only [Stance.tokens, Option.elim, Errand.tokens]
    omega
  case park g b source hFree =>
    simp only [unvouched, queued, WorkDispatcher.setPended, count_append_singleton,
      Stance.tokens, Option.elim, Errand.tokens]
    omega
  case revive g b q i hEntry hRoom =>
    have hPush : unvouched slot a (d.push q b) = unvouched slot a d + mark (b = a) :=
      unvouched_push a b q d
    simp only [unvouched, queued, WorkDispatcher.push, WorkDispatcher.setQueue,
      WorkDispatcher.setPended, Stance.tokens, Option.elim, Errand.tokens,
      count_eraseIdx hEntry a] at hPush ⊢
    omega
  case popOwn g w b ticket queue hOwner hGrip hPop =>
    rw [unvouched_pop a b w hPop]
    rcases hGrip with rfl | rfl <;>
      simp only [Stance.tokens, Grip.tokens, Option.elim] <;> omega
  case popStolen q b ticket queue hPop =>
    rw [unvouched_pop a b q hPop]
    simp only [Stance.tokens, Grip.tokens, Option.elim]
    omega
  case releaseSlot b q ticket stolen =>
    rw [unvouched_release]
    cases stolen <;> rfl
  case unhold b =>
    by_cases h : b = a
    · subst h
      have hSet := hHeld (by simp [Stance.tokens, Grip.tokens])
      rw [unvouched_setHeld hSlot b b hSet]
      simp only [Stance.tokens, Option.elim, Grip.tokens]
      simp
    · have hOther : slot a ≠ slot b := hSlot.ne (Ne.symm h)
      simp [unvouched, queued, Function.update_of_ne hOther, Stance.tokens, Grip.tokens, h]
  case reclaim b hClear =>
    rw [unvouched_setHeld hSlot a b hClear]
    simp only [Stance.tokens, Option.elim, Errand.tokens, Grip.tokens, if_true]
    omega
  all_goals rfl

end Moves

section Totals

variable [Fintype τ] {cfg : Setup ρ β} {c : Config (Thread n τ) (Shared n τ ρ β) (Local n τ ρ β)}

/-- Tokens of actor `a` in the hands of the threads. -/
def inHand (a : ρ) (c : Config (Thread n τ) (Shared n τ ρ β) (Local n τ ρ β)) : Int :=
  entries (fun _ l => l.stance.tokens a) c.here

theorem tokens_le_inHand (a : ρ) (t : Thread n τ) : (c.here t).stance.tokens a ≤ inHand a c :=
  le_entries (w := fun _ (l : Local n τ ρ β) => l.stance.tokens a) (fun _ => Stance.tokens_nonneg a _) t

theorem add_tokens_le_inHand [DecidableEq τ] (a : ρ) {t u : Thread n τ} (hne : t ≠ u) :
    (c.here t).stance.tokens a + (c.here u).stance.tokens a ≤ inHand a c :=
  add_le_entries (w := fun _ (l : Local n τ ρ β) => l.stance.tokens a) (fun _ => Stance.tokens_nonneg a _) hne

/-- All execution tokens of actor `a`: entries of the worker queues and of the pended
list, and tokens in the hands of workers and calls. -/
def tokens (a : ρ) (c : Config (Thread n τ) (Shared n τ ρ β) (Local n τ ρ β)) : Int :=
  queued a c.shared.dispatcher + c.shared.dispatcher.pendedActorList.count a + inHand a c

/-- Tokens less the flag, as a ledger. -/
abbrev tokenLedger (cfg : Setup ρ β) (a : ρ)
    (c : Config (Thread n τ) (Shared n τ ρ β) (Local n τ ρ β)) : Int :=
  ledger (fun s => unvouched cfg.slot a s.dispatcher) (fun _ l => l.stance.tokens a) c

theorem tokenLedger_eq (a : ρ) (c : Config (Thread n τ) (Shared n τ ρ β) (Local n τ ρ β)) :
    tokenLedger cfg a c = tokens a c - (c.shared.dispatcher.held (cfg.slot a)).toNat := by
  simp only [ledger, tokens, inHand, unvouched]
  omega

theorem tokenLedger_initial (a : ρ) :
    tokenLedger cfg a (initial cfg : Config (Thread n τ) (Shared n τ ρ β) (Local n τ ρ β)) = 0 := by
  have hHands : entries (fun (_ : Thread n τ) (l : Local n τ ρ β) => l.stance.tokens a)
      (fun _ => .start) = 0 := entries_eq_zero fun _ => rfl
  have hQueues : queued a (.constructed : WorkDispatcher n ρ) = 0 := entries_eq_zero fun _ => rfl
  simp only [ledger, initial, unvouched, Shared.constructed, hHands, hQueues]
  rfl

/-- A thread that has a token of `a` in its hands finds the actor's flag set. -/
theorem held_of_inHand {a : ρ} (hLedger : tokenLedger cfg a c ≤ 0) (t : Thread n τ)
    (hHand : 0 < (c.here t).stance.tokens a) : c.shared.dispatcher.held (cfg.slot a) = true := by
  have hTotal := tokens_le_inHand (c := c) a t
  have hQueued := queued_nonneg a c.shared.dispatcher
  rw [tokenLedger_eq] at hLedger
  simp only [tokens] at hLedger
  by_contra hClear
  rw [Bool.not_eq_true] at hClear
  rw [hClear] at hLedger
  simp only [Bool.toNat_false] at hLedger
  omega

omit [Fintype τ] in
theorem tokens_of_running {l : Local n τ ρ β} {a : ρ} {pc : RunPc ρ (Envelope τ ρ β)}
    (h : l.worker = .running a pc) : 0 < l.stance.tokens a := by
  have hErrand : 0 ≤ l.call.errand?.elim 0 (Errand.tokens a) := by
    cases l.call.errand? with
    | none => exact Int.le_refl 0
    | some e => exact Errand.tokens_nonneg a e
  simp only [Local.stance, Stance.tokens, h, WorkerPc.grip, Grip.tokens, mark_of_true]
  omega

end Totals

section Runs

variable [DecidableEq τ] [Fintype τ] [NeZero n] {cfg : Setup ρ β}
  {c : Config (Thread n τ) (Shared n τ ρ β) (Local n τ ρ β)}
  {allowed : Config (Thread n τ) (Shared n τ ρ β) (Local n τ ρ β) → Thread n τ →
    Choice n ρ β → Prop}

theorem tokenLedger_le (reach : RunsTo cfg allowed c) (a : ρ) : tokenLedger cfg a c ≤ 0 := by
  refine Reach.ledger_le ?_ ?_ reach
  · rintro c rfl
    exact (tokenLedger_initial a).le
  · intro c t choice shared place _ hLedger _ hLocal
    have hMove := (step_moves hLocal).tokens cfg.slot_injective a (held_of_inHand hLedger t)
    rcases hMove with hSame | ⟨_, hLost⟩ <;> omega

/-- No `stop` clears a pended list with actors in it. The steps between one `start`
and the next `stop` are all of this kind. -/
def keepsTokens (c : Config (Thread n τ) (Shared n τ ρ β) (Local n τ ρ β)) (t : Thread n τ)
    (_ : Choice n ρ β) : Prop :=
  (c.here t).Discards t → c.shared.dispatcher.pendedActorList = []

instance (c : Config (Thread n τ) (Shared n τ ρ β) (Local n τ ρ β)) (t : Thread n τ)
    (choice : Choice n ρ β) : Decidable (keepsTokens c t choice) :=
  inferInstanceAs (Decidable (_ → _))

/-- As long as no token is discarded, a flag is set exactly while there is a token. -/
theorem tokens_eq (reach : RunsTo cfg keepsTokens c) (a : ρ) :
    tokens a c = (c.shared.dispatcher.held (cfg.slot a)).toNat := by
  have hLedger : tokenLedger cfg a c = 0 := by
    refine Reach.ledger_eq ?_ ?_ reach
    · rintro c rfl
      exact tokenLedger_initial a
    · intro c t choice shared place hReach hLedger hKeeps hLocal
      have hMove := (step_moves hLocal).tokens cfg.slot_injective a (held_of_inHand hLedger.le t)
      rcases hMove with hSame | ⟨hDiscards, hLost⟩
      · exact hSame
      · rw [hKeeps hDiscards, List.count_nil] at hLost
        omega
  rw [tokenLedger_eq] at hLedger
  omega

/-- There is never more than one token of an actor. -/
theorem tokens_le_one (reach : RunsTo cfg allowed c) (a : ρ) : tokens a c ≤ 1 := by
  have hLedger := tokenLedger_le reach a
  rw [tokenLedger_eq] at hLedger
  have := Bool.toNat_le (c.shared.dispatcher.held (cfg.slot a))
  omega

/-- Two threads do not both have a token of one actor in their hands. -/
theorem inHand_unique (reach : RunsTo cfg allowed c) {a : ρ} {t u : Thread n τ}
    (ht : 0 < (c.here t).stance.tokens a) (hu : 0 < (c.here u).stance.tokens a) : t = u := by
  by_contra hne
  have hBoth := add_tokens_le_inHand (c := c) a hne
  have hOne := tokens_le_one reach a
  have hQueued := queued_nonneg a c.shared.dispatcher
  simp only [tokens] at hOne
  omega

/-- No two workers run the same actor. -/
theorem running_unique (reach : RunsTo cfg allowed c) {a : ρ} {t u : Thread n τ}
    {pc pc' : RunPc ρ (Envelope τ ρ β)} (ht : (c.here t).worker = .running a pc)
    (hu : (c.here u).worker = .running a pc') : t = u :=
  inHand_unique reach (tokens_of_running ht) (tokens_of_running hu)

omit [Fintype τ] in
/-- Only the worker that runs an actor takes messages out of its mailbox. -/
theorem removed_by_runner {s s' : Shared n τ ρ β} {l l' : Local n τ ρ β} {t : Thread n τ}
    {choice : Choice n ρ β} (h : step cfg t s l choice = some (s', l')) {a : ρ}
    (hRemoved : (s'.runtimes a).removed ≠ (s.runtimes a).removed) :
    ∃ w pc, t = .worker w ∧ l.worker = .running a pc := by
  have hOther : ∀ b rt, a ≠ b → ((s.setRuntime b rt).runtimes a).removed =
      (s.runtimes a).removed := fun b rt hb => by
    simp only [Shared.setRuntime, Function.update_of_ne hb]
  cases step_mails h with
  | none hRuntimes => exact absurd (by rw [hRuntimes]) hRemoved
  | post target msg rt _ hPush hShared _ =>
      refine absurd ?_ hRemoved
      by_cases hTarget : a = target
      · subst hTarget
        simp only [hShared, Shared.setRuntime, Function.update_self]
        exact (ActorRuntime.push_eq_some hPush).2 ▸ rfl
      · rw [hShared, hOther target rt hTarget]
  | drop _ _ _ _ hShared => exact absurd (by rw [hShared]) hRemoved
  | run w b pc _ _ rt _ hThread _ hPc _ hShared =>
      by_cases hRun : a = b
      · exact ⟨w, pc, hThread, hRun ▸ hPc⟩
      · exact absurd (by rw [hShared]; exact hOther b rt hRun) hRemoved
  | request w b pc _ _ rt _ _ _ hThread _ hPc _ hShared =>
      by_cases hRun : a = b
      · exact ⟨w, pc, hThread, hRun ▸ hPc⟩
      · exact absurd (by rw [hShared]; exact hOther b rt hRun) hRemoved
  | clientSend _ _ _ _ _ hShared => exact absurd (by rw [hShared]; rfl) hRemoved

/-- The token of actor `a` is single, and with it the run of the actor and the consumer
of its mailbox. -/
structure Exclusive (cfg : Setup ρ β) (a : ρ)
    (c : Config (Thread n τ) (Shared n τ ρ β) (Local n τ ρ β)) : Prop where
  one_token : tokens a c ≤ 1
  one_runner : ∀ w w' pc pc', (c.here (.worker w)).worker = .running a pc →
    (c.here (.worker w')).worker = .running a pc' → w = w'
  one_consumer : ∀ t choice d, (step cfg).next c t choice = some d →
    (d.shared.runtimes a).removed ≠ (c.shared.runtimes a).removed →
    ∃ w pc, t = .worker w ∧ (c.here t).worker = .running a pc

/-- In every reachable state each actor has at most one execution token. -/
theorem reachable_exclusive (reach : Reachable cfg c) (a : ρ) : Exclusive cfg a c where
  one_token := tokens_le_one reach a
  one_runner w w' pc pc' hw hw' := by
    have hSame := running_unique reach hw hw'
    cases hSame
    rfl
  one_consumer t choice d hNext hRemoved := by
    obtain ⟨shared, place, hLocal, rfl⟩ := Program.next_eq_some.mp hNext
    exact removed_by_runner hLocal hRemoved

/-- A client sends a message to actor 0, and a worker comes to run it. -/
def sendAndRun : List (Thread 1 Unit × Choice 1 (Fin 3) Bool) :=
  ([(.control, .start), (.control, .launch 0)] : Schedule 1) ++ sendTo 0 4 ++
    (List.replicate 4 (.worker 0, .go) : Schedule 1)

def afterSendAndRun : Config (Thread 1 Unit) (Shared 1 Unit (Fin 3) Bool) (Local 1 Unit (Fin 3) Bool) :=
  ((step sample).replay anyStep (initial sample) sendAndRun).get (by decide)

theorem reachable_exclusive_sendAndRun : Exclusive sample 0 afterSendAndRun ∧
    queued 0 afterSendAndRun.shared.dispatcher = 0 ∧ inHand 0 afterSendAndRun = 1 :=
  ⟨reachable_exclusive (Reach.replay (.start rfl) (Option.some_get _).symm) 0, by decide⟩

end Runs

end ActorSystem
