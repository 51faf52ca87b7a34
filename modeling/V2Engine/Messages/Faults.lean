import V2Engine.Messages.Lifetime

/-! Failures inside `Message::make` and `Message::clone`: which of them leave everything
as it was but for the exception. -/
namespace Messages

open Lifetime Interleaving

variable {ι μ V : Type*} [DecidableEq ι] [DecidableEq μ]

/-- What a call that builds a message at `m` may leave behind, whether it fails or not. -/
structure Safe (m : Owner ι μ) (s s' : State ι μ V) : Prop where
  /-- No destructor ran on storage without a payload, and no block was given back that
  was not allocated. -/
  strays : s'.heap.strays = s.heap.strays
  /-- Every block that is in use belongs to a message. -/
  blocks : ∀ p, s'.heap.blocks.find p ≠ none → ∃ n, Owns s'.messages n p
  /-- The messages there were keep their fields and what they carry. -/
  unchanged : ∀ n, s.messages n ≠ none → s'.messages n = s.messages n ∧ s'.held n = s.held n
  /-- When the call throws, there is no message and memory is as before. -/
  surfaces : s'.messages m = none →
    s'.heap.objects.find = s.heap.objects.find ∧ s'.heap.blocks.find = s.heap.blocks.find

section Settle

variable {s : State ι μ V} {held : Owner ι μ → Option (Option (Letter V))} {m : Owner ι μ}
  {result : Heap (Owner ι μ) V × Option Message}

/-- A call whose result is sound is safe. -/
theorem safe_of_sound (sound : Sound s.heap s.messages held) (hAbsent : s.messages m = none)
    {y : Option (Option (Letter V))}
    (hSound : Sound result.1 (Function.update s.messages m result.2) (Function.update held m y))
    (hThrown : result.2 = none → result.1 = s.heap) : Safe m s (s.settle m result) where
  strays := hSound.strays.trans sound.strays.symm
  blocks p hUsed := by
    obtain ⟨b, hFind⟩ := Option.ne_none_iff_exists'.mp hUsed
    exact hSound.ownedBlock hFind
  unchanged n hPresent := by
    have hn : n ≠ m := by
      rintro rfl
      exact hPresent hAbsent
    have hAfter : (s.settle m result).held = Function.update held m y := Sound.held_eq hSound
    rw [hAfter, sound.held_eq]
    simp [State.settle, hn]
  surfaces hNone := by
    have hResult : result.2 = none := by simpa [State.settle] using hNone
    simp [State.settle, hThrown hResult]

end Settle

section Make

variable {h : Heap (Owner ι μ) V} {m : Owner ι μ} {T : PayloadType} {source : Forwarded}
  {faults : Faults}

/-- `destroy` of the message that `make` unwinds runs on storage without a payload. -/
theorem make_strays (hFree : h.objects.find (.inlineData m) = none)
    (hFailing : T.failing source faults = true) (v : V) :
    h.strays < (Message.make T source v faults m h).1.strays := by
  cases hFits : T.inlineFits with
  | true =>
      have hThrows : T.throwing source faults = true := by simpa [PayloadType.failing, hFits] using hFailing
      have hNone := Registry.find_eq_none.mp hFree
      simp only [Message.make, hFits, hThrows, if_true, Message.destroy, opsFor, T.isPool_eq,
        Bool.not_true, Bool.false_eq_true, if_false, Message.data, Heap.destruct,
        Registry.ends_of_none hNone, Heap.strays, Registry.stray]
      omega
  | false =>
      cases hAllocation : faults.allocation with
      | null | throws =>
          simp only [Message.make, hFits, hAllocation, Bool.false_eq_true, if_false, Message.destroy,
            opsFor, T.isPool_eq, Bool.not_false, if_true, Message.data, reduceCtorEq, Option.map_none,
            Heap.destruct, Heap.stray, Heap.deallocate, Heap.strays, Registry.stray]
          omega
      | block p =>
          have hThrows : T.throwing source faults = true := by
            simpa [PayloadType.failing, hFits, hAllocation] using hFailing
          simp only [Message.make, hFits, hAllocation, hThrows, Bool.false_eq_true, if_false,
            Message.destroy, opsFor, T.isPool_eq, Bool.not_false, if_true, Message.data, reduceCtorEq,
            Option.map_none, Heap.destruct, Heap.stray, Heap.deallocate, Heap.strays, Registry.stray,
            Heap.allocate, Registry.begins]
          omega

end Make

/-- The block that `clone` allocated for a copy that was never built belongs to nobody. -/
theorem leaked_not_safe {s : State ι μ V} {held : Owner ι μ → Option (Option (Letter V))}
    {m : Owner ι μ} {faults : Faults} {p : Nat} {b : Block} (sound : Sound s.heap s.messages held)
    (hServes : s.heap.serves faults = true) (hAllocation : faults.allocation = .block p) :
    ¬Safe m s (s.settle m (s.heap.allocate p b, none)) := by
  intro safe
  have hFresh : s.heap.blocks.find p = none := by simpa [Heap.serves, hAllocation] using hServes
  have hUsed : (s.settle m (s.heap.allocate p b, none)).heap.blocks.find p = some b := by
    show (s.heap.blocks.begins p b).find p = some b
    rw [Registry.find_begins, Function.update_self]
  obtain ⟨n, hOwns⟩ := safe.blocks p (by simp [hUsed])
  by_cases hn : n = m
  · subst hn
    obtain ⟨_, hNone, _⟩ := hOwns
    simp [State.settle] at hNone
  · exact sound.not_owns_of_fresh hFresh n ((owns_update_of_ne hn none p).mp hOwns)

/-- The object a call of `make` or `clone` builds its message in. -/
def Op.built : Op ι μ V → Option ι
  | .make m _ _ _ _ | .clone m _ _ => some m
  | _ => none

/-- `make` and `clone` are safe exactly under the failures they contain: `make` under none,
`clone` under every one but that of a pool payload's copy constructor. -/
theorem safe_iff_contained {s s' : State ι μ V} {op : Op ι μ V} {m : ι}
    (reach : Calls step (· = .initial) careful s) (hBuilt : op.built = some m)
    (hStep : step op s = some s') : Safe (.object m) s s' ↔ contained s op := by
  obtain ⟨c, _, held, related⟩ := refines reach
  cases op with
  | make n T source v faults =>
      cases hBuilt
      obtain ⟨⟨hAbsent, hSource, hServes⟩, hAfter⟩ := Option.ite_none_right_eq_some.mp hStep
      cases hAfter
      have hVacant := related.sound.vacant_of_absent ((related.sound.absent_iff _).mp hAbsent)
      constructor
      · intro safe
        show T.failing source faults = false
        by_contra hFailing
        have hStrays := make_strays ((related.sound.holds _).free_of_vacant hVacant)
          (by simpa using hFailing) v
        exact Nat.ne_of_gt hStrays safe.strays
      · intro hContained
        obtain ⟨msg, hMsg, hSound⟩ := related.sound.make hVacant hServes hContained v
        rw [← hMsg] at hSound
        apply safe_of_sound related.sound hAbsent hSound
        intro hNone
        rw [hMsg] at hNone
        cases hNone
  | clone n other faults =>
      cases hBuilt
      obtain ⟨⟨hAbsent, hServes⟩, hAfter⟩ := Option.ite_none_right_eq_some.mp hStep
      obtain ⟨msg, hMsg, rfl⟩ := Option.map_eq_some_iff.mp hAfter
      have hVacant := related.sound.vacant_of_absent ((related.sound.absent_iff _).mp hAbsent)
      obtain ⟨carried, hCarried⟩ := (related.message_isSome other).mp ⟨msg, hMsg⟩
      have hHeld := (related.objects other).trans hCarried
      have holds := related.sound.holds (.object other)
      rw [hMsg, hHeld] at holds
      have hCloned := Sound.clone_cases holds (.object m) faults
      have hContained : contained s (.clone m other faults) ↔
          ∀ letter, carried = some letter → letter.payload.type.leaking faults = false := by
        rw [← Sound.leaking_iff holds faults]
        simp [contained, hMsg]
      rw [hContained]
      constructor
      · intro safe letter hLetter
        subst hLetter
        generalize msg.clone (.object other) faults (.object m) s.heap = result at hCloned safe
        cases hCloned with
        | fixed hCopyable => simp [PayloadType.leaking, hCopyable]
        | thrown hCopyable hFailing hLeaking => exact hLeaking
        | leaked hAllocation hLeaking => exact absurd safe (leaked_not_safe related.sound hServes hAllocation)
        | inline hCopyable hFailing hFits => simp [PayloadType.leaking, hFits]
        | pool hCopyable hFailing hFits hAllocation =>
            have hThrows : faults.constructorThrows = false := by
              simpa [PayloadType.failing, PayloadType.throwing, hFits, hAllocation] using hFailing
            simp [PayloadType.leaking, hThrows]
      · intro hLeaking
        apply safe_of_sound related.sound hAbsent
          (related.sound.clone hVacant hMsg hHeld hServes ((Sound.leaking_iff holds faults).mpr hLeaking))
        intro hNone
        generalize msg.clone (.object other) faults (.object m) s.heap = result at hCloned hNone
        cases hCloned with
        | empty => rfl
        | fixed => rfl
        | thrown => rfl
        | leaked hAllocation hLeaked =>
            rw [hLeaking _ rfl] at hLeaked
            cases hLeaked
        | inline => cases hNone
        | pool => cases hNone
  | _ => cases hBuilt

section Runs

def copyThrows : Faults := ⟨.block 8, true⟩

def allocateNull : Faults := ⟨.null, false⟩

/-- A message with a pool payload. -/
def pooled : State (Fin 2) Unit Nat :=
  (Calls.replay step careful .initial [.make 0 poolCopyable .rvalue 15 (noFaults 8)]).get (by decide +kernel)

/-- The pool has no block for the copy. -/
def afterCloneNull : State (Fin 2) Unit Nat :=
  (step (.clone 1 0 allocateNull) pooled).get (by decide +kernel)

theorem safe_iff_contained_cloneNull : Safe (.object 1) pooled afterCloneNull :=
  (safe_iff_contained (.of_replay (.start rfl) (Option.some_get _).symm) rfl
    (Option.some_get _).symm).mpr (by decide +kernel)

/-- An lvalue with an inline payload type whose copy constructor throws. -/
def afterMakeThrows : State (Fin 2) Unit Nat :=
  (step (.make 0 inlineCopyable .lvalue 42 copyThrows) .initial).get (by decide +kernel)

def afterMakeNull : State (Fin 2) Unit Nat :=
  (step (.make 0 poolCopyable .rvalue 15 allocateNull) .initial).get (by decide +kernel)

/-- The copy constructor of the pool payload throws in `clone`. -/
def afterCloneThrows : State (Fin 2) Unit Nat :=
  (step (.clone 1 0 ⟨.block 9, true⟩) pooled).get (by decide +kernel)

/-- `make` destroys a payload that was never constructed, and `clone` leaks a block. -/
theorem not_safe_makeThrows : ¬Safe (.object 0) .initial afterMakeThrows ∧
    ¬Safe (.object 0) .initial afterMakeNull ∧ ¬Safe (.object 1) pooled afterCloneThrows := by
  refine ⟨fun safe => ?_, fun safe => ?_, fun safe => ?_⟩
  · exact absurd safe.strays (by decide +kernel)
  · exact absurd safe.strays (by decide +kernel)
  · obtain ⟨n, msg, hMsg, _, hPtr⟩ := safe.blocks 9 (by decide +kernel)
    match n with
    | .object 0 =>
        have hFirst : (afterCloneThrows.messages (.object 0)).bind Message.ptr = some 8 := by decide +kernel
        simp [hMsg, hPtr] at hFirst
    | .object 1 =>
        have hSecond : afterCloneThrows.messages (.object 1) = none := by decide +kernel
        simp [hMsg] at hSecond
    | .slot () i =>
        have hSlot : afterCloneThrows.messages (.slot () i) = none := rfl
        simp [hMsg] at hSlot

end Runs

end Messages
