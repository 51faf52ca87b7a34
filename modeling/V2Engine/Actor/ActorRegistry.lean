import V2Engine.Interleaving.Calls
import Mathlib.Data.List.AList

/-! `ActorRegistry` and the handles that it issues. An id may be used by several actors, one
after the other or at the same time; a generation is never used twice for one id. -/
namespace Registry

open Interleaving

variable {A : Type*}

/-- What one call of `add` has registered; `registration` tells which call. -/
structure ActorEntry (A : Type*) where
  actor : A
  generation : Nat
  registration : Nat
  deriving DecidableEq

structure ActorHandle where
  id : Nat
  generation : Nat
  deriving DecidableEq

/-- The number of calls of `add` and the handles that were `issued`, each with the entry it was
issued for, are a record. -/
structure ActorRegistry (A : Type*) where
  byName : AList fun _ : String => ActorEntry A
  byId : AList fun _ : Nat => ActorEntry A
  generations : Nat → Nat
  registrations : Nat
  issued : List (ActorHandle × ActorEntry A)

namespace ActorRegistry

def empty : ActorRegistry A := ⟨∅, ∅, fun _ => 0, 0, []⟩

section Operations

variable (id : A → Nat) (name : A → String) (r : ActorRegistry A)

/-- A handle for an entry that was found by its name. There is no handle, or an empty one, for
a name that is not found. -/
def findHandleByName (target : String) : Option (ActorHandle × ActorEntry A) :=
  (r.byName.lookup target).map fun entry => (⟨id entry.actor, entry.generation⟩, entry)

def findHandleById (target : Nat) : Option (ActorHandle × ActorEntry A) :=
  (r.byId.lookup target).map fun entry => (⟨target, entry.generation⟩, entry)

/-- The handles that `forEachActor` calls its argument with. -/
def forEachActor : List (ActorHandle × ActorEntry A) :=
  r.byId.entries.map fun entry => (⟨entry.1, entry.2.generation⟩, entry.2)

def resolve (handle : ActorHandle) : Option A :=
  match r.byId.lookup handle.id with
  | none => none
  | some entry => if entry.generation ≠ handle.generation then none else some entry.actor

def add (actor : A) : ActorRegistry A :=
  let entry : ActorEntry A := ⟨actor, r.generations (id actor), r.registrations⟩
  { r with
    generations := Function.update r.generations (id actor) (r.generations (id actor) + 1)
    byName := r.byName.insert (name actor) entry
    byId := r.byId.insert (id actor) entry
    registrations := r.registrations + 1 }

def remove [DecidableEq A] (actor : A) : ActorRegistry A :=
  { r with
    generations := Function.update r.generations (id actor) (r.generations (id actor) + 1)
    byName :=
      if (r.byName.lookup (name actor)).map ActorEntry.actor = some actor then
        r.byName.erase (name actor)
      else r.byName
    byId := r.byId.erase (id actor) }

def clear : ActorRegistry A := { r with byName := ∅, byId := ∅ }

def issue (handles : List (ActorHandle × ActorEntry A)) : ActorRegistry A :=
  { r with issued := handles ++ r.issued }

end Operations

inductive Op (A : Type*) where
  | add (actor : A)
  | remove (actor : A)
  | clear
  | findHandleByName (target : String)
  | findHandleById (target : Nat)
  | forEachActor

/-- One call, under `mutex_`. -/
def step [DecidableEq A] (id : A → Nat) (name : A → String) :
    Op A → ActorRegistry A → Option (ActorRegistry A)
  | .add actor, r => some (r.add id name actor)
  | .remove actor, r => some (r.remove id name actor)
  | .clear, r => some r.clear
  | .findHandleByName target, r => some (r.issue (r.findHandleByName id target).toList)
  | .findHandleById target, r => some (r.issue (r.findHandleById target).toList)
  | .forEachActor, r => some (r.issue r.forEachActor)

/-- The entry is in one of the maps, or a handle was issued for it. -/
def Known (r : ActorRegistry A) (entry : ActorEntry A) : Prop :=
  (∃ key, r.byName.lookup key = some entry) ∨ (∃ key, r.byId.lookup key = some entry) ∨
    ∃ handle, (handle, entry) ∈ r.issued

/-- Two entries for one id are told apart by their generations. -/
structure Inv (id : A → Nat) (r : ActorRegistry A) : Prop where
  current : ∀ entry, r.Known entry → entry.generation < r.generations (id entry.actor)
  apart : ∀ entry other, r.Known entry → r.Known other → id entry.actor = id other.actor →
    entry.generation = other.generation → entry = other
  keyed : ∀ key entry, r.byId.lookup key = some entry → id entry.actor = key
  named : ∀ handle entry, (handle, entry) ∈ r.issued →
    handle = ⟨id entry.actor, entry.generation⟩

section Runs

variable {id : A → Nat} {name : A → String} {r : ActorRegistry A}

theorem inv_empty : (empty : ActorRegistry A).Inv id := by
  have hNone : ∀ entry, ¬(empty : ActorRegistry A).Known entry := by
    rintro entry (⟨key, h⟩ | ⟨key, h⟩ | ⟨handle, h⟩)
    · simp [empty] at h
    · simp [empty] at h
    · cases h
  exact ⟨fun entry h => absurd h (hNone entry), fun entry _ h => absurd h (hNone entry),
    fun key entry h => absurd (.inr (.inl ⟨key, h⟩)) (hNone entry), nofun⟩

theorem mem_of_lookup_insert {K : Type*} [DecidableEq K] {map : AList fun _ : K => ActorEntry A}
    {key key' : K} {entry entry' : ActorEntry A}
    (h : (map.insert key entry).lookup key' = some entry') :
    (key' = key ∧ entry' = entry) ∨ map.lookup key' = some entry' := by
  by_cases hKey : key' = key
  · subst hKey
    rw [AList.lookup_insert] at h
    exact .inl ⟨rfl, (Option.some.inj h).symm⟩
  · rw [AList.lookup_insert_ne hKey] at h
    exact .inr h

theorem lookup_of_erase {K : Type*} [DecidableEq K] {map : AList fun _ : K => ActorEntry A}
    {key key' : K} {entry : ActorEntry A} (h : (map.erase key).lookup key' = some entry) :
    map.lookup key' = some entry := by
  by_cases hKey : key' = key
  · subst hKey
    rw [AList.lookup_erase] at h
    cases h
  · rwa [AList.lookup_erase_ne hKey] at h

theorem Inv.add (inv : r.Inv id) (actor : A) : (r.add id name actor).Inv id := by
  have hKnown : ∀ entry, (r.add id name actor).Known entry →
      entry = ⟨actor, r.generations (id actor), r.registrations⟩ ∨ r.Known entry := by
    rintro entry (⟨key, h⟩ | ⟨key, h⟩ | h)
    · exact (mem_of_lookup_insert h).imp And.right fun h => .inl ⟨key, h⟩
    · exact (mem_of_lookup_insert h).imp And.right fun h => .inr (.inl ⟨key, h⟩)
    · exact .inr (.inr (.inr h))
  have hNext : ∀ i, r.generations i ≤ (r.add id name actor).generations i := by
    intro i
    show _ ≤ Function.update r.generations (id actor) (r.generations (id actor) + 1) i
    by_cases hi : i = id actor
    · subst hi
      simp
    · rw [Function.update_of_ne hi]
  constructor
  case current =>
    intro entry hEntry
    rcases hKnown entry hEntry with rfl | hOld
    · show _ < Function.update r.generations (id actor) (r.generations (id actor) + 1) (id actor)
      rw [Function.update_self]
      exact Nat.lt_succ_self _
    · exact Nat.lt_of_lt_of_le (inv.current entry hOld) (hNext _)
  case apart =>
    intro entry other hEntry hOther hId hGeneration
    rcases hKnown entry hEntry with rfl | hOld <;> rcases hKnown other hOther with rfl | hOld'
    · rfl
    · have hEarlier := inv.current other hOld'
      rw [← hId, ← hGeneration] at hEarlier
      exact absurd hEarlier (Nat.lt_irrefl _)
    · have hEarlier := inv.current entry hOld
      rw [hId, hGeneration] at hEarlier
      exact absurd hEarlier (Nat.lt_irrefl _)
    · exact inv.apart entry other hOld hOld' hId hGeneration
  case keyed =>
    intro key entry h
    rcases mem_of_lookup_insert h with ⟨rfl, rfl⟩ | hOld
    · rfl
    · exact inv.keyed key entry hOld
  case named => exact inv.named

/-- Fewer entries, and later generations. -/
theorem Inv.less {r' : ActorRegistry A} (inv : r.Inv id)
    (hKnown : ∀ entry, r'.Known entry → r.Known entry)
    (hNext : ∀ i, r.generations i ≤ r'.generations i)
    (hKeyed : ∀ key entry, r'.byId.lookup key = some entry → r.byId.lookup key = some entry)
    (hNamed : ∀ handle entry, (handle, entry) ∈ r'.issued →
      handle = ⟨id entry.actor, entry.generation⟩) : r'.Inv id where
  current entry h := Nat.lt_of_lt_of_le (inv.current entry (hKnown entry h)) (hNext _)
  apart entry other h h' := inv.apart entry other (hKnown entry h) (hKnown other h')
  keyed key entry h := inv.keyed key entry (hKeyed key entry h)
  named := hNamed

theorem Inv.remove [DecidableEq A] (inv : r.Inv id) (actor : A) : (r.remove id name actor).Inv id := by
  apply inv.less
  · rintro entry (⟨key, h⟩ | ⟨key, h⟩ | h)
    · replace h : (if (r.byName.lookup (name actor)).map ActorEntry.actor = some actor then
          r.byName.erase (name actor) else r.byName).lookup key = some entry := h
      split at h
      · exact .inl ⟨key, lookup_of_erase h⟩
      · exact .inl ⟨key, h⟩
    · exact .inr (.inl ⟨key, lookup_of_erase h⟩)
    · exact .inr (.inr h)
  · intro i
    show _ ≤ Function.update r.generations (id actor) (r.generations (id actor) + 1) i
    by_cases hi : i = id actor
    · subst hi
      simp
    · rw [Function.update_of_ne hi]
  · intro key entry h
    exact lookup_of_erase h
  · exact inv.named

/-- A handle is issued for an entry of one of the maps. -/
theorem Inv.issue (inv : r.Inv id) {handles : List (ActorHandle × ActorEntry A)}
    (hHandles : ∀ handle entry, (handle, entry) ∈ handles →
      r.Known entry ∧ handle = ⟨id entry.actor, entry.generation⟩) : (r.issue handles).Inv id := by
  apply inv.less
  · rintro entry (h | h | ⟨handle, h⟩)
    · exact .inl h
    · exact .inr (.inl h)
    · rcases List.mem_append.mp h with hNew | hOld
      · exact (hHandles handle entry hNew).1
      · exact .inr (.inr ⟨handle, hOld⟩)
  · exact fun i => Nat.le_refl _
  · exact fun key entry h => h
  · intro handle entry h
    rcases List.mem_append.mp h with hNew | hOld
    · exact (hHandles handle entry hNew).2
    · exact inv.named handle entry hOld

theorem Inv.step [DecidableEq A] (inv : r.Inv id) {op : Op A} {r' : ActorRegistry A}
    (h : step id name op r = some r') : r'.Inv id := by
  cases op with
  | add actor =>
      cases h
      exact inv.add actor
  | remove actor =>
      cases h
      exact inv.remove actor
  | clear =>
      cases h
      apply inv.less
      · rintro entry (⟨key, h⟩ | ⟨key, h⟩ | h)
        · simp [clear] at h
        · simp [clear] at h
        · exact .inr (.inr h)
      · exact fun i => Nat.le_refl _
      · intro key entry h
        simp [clear] at h
      · exact inv.named
  | findHandleByName target =>
      cases h
      apply inv.issue
      intro handle entry h
      obtain ⟨found, hFound, hSame⟩ := Option.map_eq_some_iff.mp (Option.mem_toList.mp h)
      cases hSame
      exact ⟨.inl ⟨target, hFound⟩, rfl⟩
  | findHandleById target =>
      cases h
      apply inv.issue
      intro handle entry h
      obtain ⟨found, hFound, hSame⟩ := Option.map_eq_some_iff.mp (Option.mem_toList.mp h)
      cases hSame
      exact ⟨.inr (.inl ⟨target, hFound⟩), by rw [inv.keyed target entry hFound]⟩
  | forEachActor =>
      cases h
      apply inv.issue
      intro handle entry h
      obtain ⟨⟨key, found⟩, hFound, hSame⟩ := List.mem_map.mp h
      cases hSame
      have hLookup : r.byId.lookup key = some found := AList.mem_lookup_iff.mpr hFound
      exact ⟨.inr (.inl ⟨key, hLookup⟩), by rw [inv.keyed key found hLookup]⟩

/-- Two actors with the same id, the first one found by its name when the second one is there. -/
def afterReuse : ActorRegistry Bool :=
  (Calls.replay (step (fun _ => 5) (fun a => if a then "a" else "b")) anyCall empty
    [.add true, .add false, .findHandleByName "a", .remove true, .add false, .clear,
      .add true, .forEachActor]).get (by decide +kernel)

end Runs

end ActorRegistry

end Registry
