import V2Engine.Actor.ActorRegistry
import V2Engine.Interleaving.Program

/-! The two maps of `ActorRegistry` when no two actors have the same id. Actors may share a name:
the one that was added last is found by it. -/
namespace Registry

open Interleaving

variable {A : Type*}

namespace ActorRegistry

def findActorByName (r : ActorRegistry A) (target : String) : Option A :=
  (r.byName.lookup target).map ActorEntry.actor

def findActorById (r : ActorRegistry A) (target : Nat) : Option A :=
  (r.byId.lookup target).map ActorEntry.actor

variable [DecidableEq A] {id : A → Nat} {name : A → String} {ops : List (Op A)} {r r' : ActorRegistry A}

/-- The actor of a name that was added last, if it has not been removed since. The last call
stands first. -/
def lastAdded (name : A → String) (target : String) : List (Op A) → Option A
  | [] => none
  | .add actor :: earlier => if name actor = target then some actor else lastAdded name target earlier
  | .remove actor :: earlier =>
      if lastAdded name target earlier = some actor then none else lastAdded name target earlier
  | .clear :: _ => none
  | _ :: earlier => lastAdded name target earlier

/-- What each call keeps. -/
structure Names (id : A → Nat) (name : A → String) (ops : List (Op A)) (r : ActorRegistry A) : Prop where
  keyed : ∀ key entry, r.byId.lookup key = some entry → id entry.actor = key
  /-- The entry of a name is the entry of its actor's id. -/
  same : ∀ target entry, r.byName.lookup target = some entry →
    name entry.actor = target ∧ r.byId.lookup (id entry.actor) = some entry
  latest : ∀ target, r.findActorByName target = lastAdded name target ops

theorem names_empty : (empty : ActorRegistry A).Names id name [] where
  keyed key entry h := by simp [empty] at h
  same target entry h := by simp [empty] at h
  latest target := by simp [empty, findActorByName, lastAdded]

theorem Names.add (names : r.Names id name ops) (hIds : Function.Injective id) (actor : A) :
    (r.add id name actor).Names id name (.add actor :: ops) where
  keyed key entry h := by
    rcases mem_of_lookup_insert h with ⟨rfl, rfl⟩ | hOld
    · rfl
    · exact names.keyed key entry hOld
  same target entry h := by
    by_cases hName : target = name actor
    · subst hName
      rw [ActorRegistry.add, AList.lookup_insert] at h
      cases h
      exact ⟨rfl, AList.lookup_insert _⟩
    · replace h : r.byName.lookup target = some entry := (AList.lookup_insert_ne hName).symm.trans h
      obtain ⟨hOwn, hRegistered⟩ := names.same target entry h
      have hOther : id entry.actor ≠ id actor := fun hId => hName (hIds hId ▸ hOwn).symm
      exact ⟨hOwn, (AList.lookup_insert_ne hOther).trans hRegistered⟩
  latest target := by
    rw [lastAdded]
    by_cases hName : target = name actor
    · subst hName
      rw [if_pos rfl, findActorByName, ActorRegistry.add, AList.lookup_insert]
      rfl
    · rw [if_neg (Ne.symm hName), findActorByName, ActorRegistry.add, AList.lookup_insert_ne hName]
      exact names.latest target

/-- What is found by a name after an actor was removed. -/
theorem lookup_remove (hNames : r.Names id name ops) (actor : A) (target : String) :
    (r.remove id name actor).byName.lookup target =
      if r.findActorByName target = some actor then none else r.byName.lookup target := by
  show (if r.findActorByName (name actor) = some actor then _ else _ : AList _).lookup target = _
  by_cases hHeld : r.findActorByName target = some actor
  · obtain ⟨entry, hEntry, rfl⟩ := Option.map_eq_some_iff.mp hHeld
    rw [(hNames.same target entry hEntry).1, if_pos hHeld, if_pos hHeld, AList.lookup_erase]
  · rw [if_neg hHeld]
    split
    · rename_i hOwn
      have hName : target ≠ name actor := fun h => hHeld (h ▸ hOwn)
      rw [AList.lookup_erase_ne hName]
    · rfl

theorem Names.remove (names : r.Names id name ops) (hIds : Function.Injective id) (actor : A) :
    (r.remove id name actor).Names id name (.remove actor :: ops) where
  keyed key entry h := names.keyed key entry (lookup_of_erase h)
  same target entry h := by
    rw [lookup_remove names] at h
    split at h
    · cases h
    · rename_i hHeld
      obtain ⟨hOwn, hRegistered⟩ := names.same target entry h
      have hOther : id entry.actor ≠ id actor := by
        intro hId
        exact hHeld (Option.map_eq_some_iff.mpr ⟨entry, h, hIds hId⟩)
      exact ⟨hOwn, (AList.lookup_erase_ne hOther).trans hRegistered⟩
  latest target := by
    rw [findActorByName, lookup_remove names, lastAdded, ← names.latest]
    split <;> rfl

theorem names_clear : r.clear.Names id name (.clear :: ops) where
  keyed key entry h := by simp [ActorRegistry.clear] at h
  same target entry h := by simp [ActorRegistry.clear] at h
  latest target := by simp [ActorRegistry.clear, findActorByName, lastAdded]

theorem names_of_callsOf (hIds : Function.Injective id) (run : CallsOf (step id name) (· = empty) ops r) :
    r.Names id name ops := by
  apply run.invariant (I := fun ops r => r.Names id name ops)
  · rintro _ rfl
    exact names_empty
  · intro ops r op r' names h
    cases op with
    | add actor =>
        cases h
        exact names.add hIds actor
    | remove actor =>
        cases h
        exact names.remove hIds actor
    | clear =>
        cases h
        exact names_clear
    | findHandleByName | findHandleById | forEachActor =>
        cases h
        exact ⟨names.keyed, names.same, names.latest⟩

/-- The names lead to registered actors, handles to the same actors, and nobody loses what is his
own when another one is removed. -/
structure Indexed (id : A → Nat) (name : A → String) (ops : List (Op A)) (r : ActorRegistry A) : Prop where
  named : ∀ target entry, r.byName.lookup target = some entry → name entry.actor = target ∧
    ∃ registered, r.byId.lookup (id entry.actor) = some registered ∧
      registered.actor = entry.actor ∧ registered.generation = entry.generation
  latest : ∀ target, r.findActorByName target = lastAdded name target ops
  byName : ∀ target, r.findActorByName target = (r.findHandleByName id target).bind fun found => r.resolve found.1
  byId : ∀ target, r.findActorById target = (r.findHandleById target).bind fun found => r.resolve found.1
  others : ∀ removed other, other ≠ removed →
    (r.findActorById (id other) = some other → (r.remove id name removed).findActorById (id other) = some other) ∧
    ∀ target, r.findActorByName target = some other →
      (r.remove id name removed).findActorByName target = some other

omit [DecidableEq A] in
/-- A handle of an entry that is in `byId_` gives its actor. -/
theorem resolve_eq_some {key : Nat} {entry : ActorEntry A} (h : r.byId.lookup key = some entry) :
    r.resolve ⟨key, entry.generation⟩ = some entry.actor := by
  rw [resolve, h]
  exact if_neg fun hOther => hOther rfl

/-- Of three actors of one name the last one is found by it, though the first one was removed. -/
def collision : List (Op (Fin 3)) := [.add 0, .add 1, .add 2, .remove 0, .remove 1, .add 1, .add 2]

def afterCollision : ActorRegistry (Fin 3) :=
  (Calls.replay (step Fin.val fun _ => "worker") anyCall empty collision).get (by decide +kernel)

end ActorRegistry

end Registry
