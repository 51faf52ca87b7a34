import Mathlib.Order.BoundedOrder.Lattice
import Mathlib.Order.Nat
import Mathlib.Logic.Function.Basic
import Mathlib.Data.Nat.Notation

/-! Atomic memory with the orders `relaxed`, `acquire` and `release`, as threads see
it that do not agree on what is latest. A location keeps every write to it, in the
modification order; a thread may read any write that is not older than what happened
before. Plain locations are only numbered access by access: an access races when some
earlier one did not happen before it. Every load reads from a write that was already
made, so no value depends on itself. -/
namespace WeakMemory

/-- What happened before, as far as somebody knows: at an atomic location the write that
may not be missed, at a plain one how many accesses there were. -/
abbrev View (Λ Φ : Type*) := Λ ⊕ Φ → ℕ

/-- A write, and what an acquiring reader of it learns. -/
structure Message (Λ Φ ν : Type*) where
  value : ν
  view : View Λ Φ

/-- The writes to a location stand at their places in its modification order, some of
which may still be vacant. -/
structure Memory (Λ Φ ν δ : Type*) where
  writes : Λ → ℕ → Option (Message Λ Φ ν)
  contents : Φ → δ
  accesses : Φ → ℕ

inductive Order where
  | relaxed
  | acquire
  | release
  | acqRel

def Order.acquires : Order → Bool
  | .acquire | .acqRel => true
  | .relaxed | .release => false

def Order.releases : Order → Bool
  | .release | .acqRel => true
  | .relaxed | .acquire => false

variable {Λ Φ ν δ : Type*} [DecidableEq Λ] [DecidableEq Φ]

/-- Only the write itself. -/
def View.only (x : Λ) (time : ℕ) : View Λ Φ := Function.update ⊥ (.inl x) time

/-- A thread's view after it has read a message. -/
def View.reading (V : View Λ Φ) (order : Order) (x : Λ) (time : ℕ) (m : Message Λ Φ ν) :
    View Λ Φ :=
  V ⊔ View.only x time ⊔ if order.acquires then m.view else ⊥

/-- What a write shows to those who acquire it. -/
def View.shown (V : View Λ Φ) (order : Order) (x : Λ) (time : ℕ) : View Λ Φ :=
  if order.releases then V else View.only x time

namespace Memory

/-- Memory as it is before any thread starts. -/
def initial (values : Λ → ν) (contents : Φ → δ) : Memory Λ Φ ν δ where
  writes x time := if time = 0 then some ⟨values x, ⊥⟩ else none
  contents := contents
  accesses _ := 0

def insert (M : Memory Λ Φ ν δ) (x : Λ) (time : ℕ) (m : Message Λ Φ ν) : Memory Λ Φ ν δ :=
  { M with writes := Function.update M.writes x (Function.update (M.writes x) time (some m)) }

/-- Read the write at a place of the reader's choice that is not too old. -/
def load (M : Memory Λ Φ ν δ) (order : Order) (x : Λ) (time : ℕ) (V : View Λ Φ) :
    Option (ν × View Λ Φ) :=
  if V (.inl x) ≤ time then
    (M.writes x time).map fun m => (m.value, V.reading order x time m)
  else none

/-- Write at a vacant place after everything that happened before. -/
def store (M : Memory Λ Φ ν δ) (order : Order) (x : Λ) (value : ν) (time : ℕ) (V : View Λ Φ) :
    Option (Memory Λ Φ ν δ × View Λ Φ) :=
  if V (.inl x) < time ∧ (M.writes x time).isNone then
    let V' := V ⊔ View.only x time
    some (M.insert x time ⟨value, V'.shown order x time⟩, V')
  else none

/-- Read a write and put another one directly after it, which also shows what the first
one has shown. -/
def exchange (M : Memory Λ Φ ν δ) (order : Order) (x : Λ) (value : ν) (time : ℕ)
    (V : View Λ Φ) : Option (ν × Memory Λ Φ ν δ × View Λ Φ) :=
  if V (.inl x) ≤ time ∧ (M.writes x (time + 1)).isNone then
    (M.writes x time).map fun m =>
      let V' := V.reading order x time m ⊔ View.only x (time + 1)
      (m.value, M.insert x (time + 1) ⟨value, V'.shown order x (time + 1) ⊔ m.view⟩, V')
  else none

/-- A `compare_exchange` that succeeds. One that fails is a `load`. -/
def compareExchange [DecidableEq ν] (M : Memory Λ Φ ν δ) (order : Order) (x : Λ)
    (expected desired : ν) (time : ℕ) (V : View Λ Φ) : Option (Memory Λ Φ ν δ × View Λ Φ) :=
  (M.exchange order x desired time V).bind fun (before, after) =>
    if before = expected then some after else none

/-- Use a plain location. -/
def access (M : Memory Λ Φ ν δ) (a : Φ) (content : δ) (V : View Λ Φ) :
    Memory Λ Φ ν δ × View Λ Φ :=
  ({ M with
      contents := Function.update M.contents a content
      accesses := Function.update M.accesses a (M.accesses a + 1) },
    Function.update V (.inr a) (V (.inr a) ⊔ (M.accesses a + 1)))

/-- An access would not race: all earlier ones happened before. -/
def Settled (M : Memory Λ Φ ν δ) (V : View Λ Φ) (a : Φ) : Prop :=
  M.accesses a ≤ V (.inr a)

/-- Nothing that was written is lost. -/
def Extends (M' M : Memory Λ Φ ν δ) : Prop :=
  ∀ x time m, M.writes x time = some m → M'.writes x time = some m

/-- The thread has read this value, and knows what its write has shown. -/
def Acquired (M : Memory Λ Φ ν δ) (V : View Λ Φ) (x : Λ) (value : ν) : Prop :=
  ∃ time m, M.writes x time = some m ∧ m.value = value ∧ time ≤ V (.inl x) ∧ m.view ≤ V

/-- The thread knows all writes to the location. -/
def Current (M : Memory Λ Φ ν δ) (V : View Λ Φ) (x : Λ) : Prop :=
  ∀ time m, M.writes x time = some m → time ≤ V (.inl x)

/-- A location that only counts: its `n` writes after the first one stand without a gap. -/
def Counts (M : Memory Λ Φ ℕ δ) (x : Λ) (n : ℕ) : Prop :=
  ∀ time, (M.writes x time).map Message.value = if time ≤ n then some time else none

/-- A location whose values only rise, up to the one given. -/
structure Rises (M : Memory Λ Φ ℕ δ) (x : Λ) (top : ℕ) : Prop where
  reached : ∃ time m, M.writes x time = some m ∧ m.value = top
  le_top : ∀ time m, M.writes x time = some m → m.value ≤ top
  strict : ∀ time m time' m', M.writes x time = some m → M.writes x time' = some m' →
    time < time' → m.value < m'.value

/-- A location that is only ever exchanged: no gap up to its last write. -/
structure Solid (M : Memory Λ Φ ν δ) (x : Λ) (n : ℕ) (last : Message Λ Φ ν) : Prop where
  last_eq : M.writes x n = some last
  isSome_iff : ∀ time, (M.writes x time).isSome ↔ time ≤ n

end Memory

namespace View

theorem le_reading (V : View Λ Φ) (order : Order) (x : Λ) (time : ℕ) (m : Message Λ Φ ν) :
    V ≤ V.reading order x time m :=
  le_sup_left.trans le_sup_left

theorem le_reading_self (V : View Λ Φ) (order : Order) (x : Λ) (time : ℕ) (m : Message Λ Φ ν) :
    time ≤ V.reading order x time m (.inl x) := by
  have h : View.only x time ≤ V.reading order x time m := le_sup_right.trans le_sup_left
  simpa [View.only] using h (.inl x)

theorem view_le_reading (V : View Λ Φ) {order : Order} (hOrder : order.acquires = true) (x : Λ)
    (time : ℕ) (m : Message Λ Φ ν) : m.view ≤ V.reading order x time m := by
  simp only [View.reading, hOrder, if_true]
  exact le_sup_right

theorem le_sup_only_self (V : View Λ Φ) (x : Λ) (time : ℕ) :
    time ≤ (V ⊔ View.only x time) (.inl x) := by
  simp [View.only]

end View

namespace Memory

variable {M M' : Memory Λ Φ ν δ} {V V' : View Λ Φ} {order : Order} {x y : Λ} {time : ℕ}

omit [DecidableEq Φ] in
/-- What stands in memory after a write was put in. -/
theorem insert_writes_eq_some {m n : Message Λ Φ ν} {t : ℕ} :
    (M.insert x time m).writes y t = some n ↔
      (y = x ∧ t = time ∧ m = n) ∨ (¬(y = x ∧ t = time) ∧ M.writes y t = some n) := by
  by_cases hy : y = x
  · subst hy
    by_cases ht : t = time
    · subst ht
      simp [insert]
    · simp [insert, ht]
  · simp [insert, hy]

omit [DecidableEq Φ] in
@[simp] theorem insert_writes_of_ne (h : y ≠ x) (time : ℕ) (m : Message Λ Φ ν) :
    (M.insert x time m).writes y = M.writes y :=
  Function.update_of_ne h ..

omit [DecidableEq Λ] [DecidableEq Φ] in
theorem extends_refl (M : Memory Λ Φ ν δ) : Extends M M := fun _ _ _ h => h

omit [DecidableEq Φ] in
theorem extends_insert (hVacant : (M.writes x time).isNone) (m : Message Λ Φ ν) :
    Extends (M.insert x time m) M := by
  intro y t n h
  refine insert_writes_eq_some.mpr (.inr ⟨?_, h⟩)
  rintro ⟨rfl, rfl⟩
  simp [h] at hVacant

theorem load_eq_some {value : ν} (h : M.load order x time V = some (value, V')) :
    V (.inl x) ≤ time ∧
      ∃ m, M.writes x time = some m ∧ m.value = value ∧ V' = V.reading order x time m := by
  unfold load at h
  split at h
  · obtain ⟨m, hWrite, hAfter⟩ := Option.map_eq_some_iff.mp h
    cases hAfter
    exact ⟨‹_›, m, hWrite, rfl, rfl⟩
  · cases h

theorem le_of_load {value : ν} (h : M.load order x time V = some (value, V')) : V ≤ V' := by
  obtain ⟨_, m, _, _, rfl⟩ := load_eq_some h
  exact V.le_reading order x time m

/-- An acquiring load has acquired what it returns. -/
theorem acquired_of_load {value : ν} (hOrder : order.acquires = true)
    (h : M.load order x time V = some (value, V')) : Acquired M V' x value := by
  obtain ⟨_, m, hWrite, hValue, rfl⟩ := load_eq_some h
  exact ⟨time, m, hWrite, hValue, View.le_reading_self .., View.view_le_reading V hOrder x time m⟩

theorem store_eq_some {value : ν} (h : M.store order x value time V = some (M', V')) :
    V (.inl x) < time ∧ (M.writes x time).isNone ∧ V' = V ⊔ View.only x time ∧
      M' = M.insert x time ⟨value, V'.shown order x time⟩ := by
  simp only [store] at h
  split at h
  · cases h
    exact ⟨‹_ ∧ _›.1, ‹_ ∧ _›.2, rfl, rfl⟩
  · cases h

theorem exchange_eq_some {value before : ν}
    (h : M.exchange order x value time V = some (before, M', V')) :
    ∃ m, M.writes x time = some m ∧ m.value = before ∧ (M.writes x (time + 1)).isNone ∧
      V' = V.reading order x time m ⊔ View.only x (time + 1) ∧
      M' = M.insert x (time + 1) ⟨value, V'.shown order x (time + 1) ⊔ m.view⟩ := by
  simp only [exchange] at h
  split at h
  · obtain ⟨m, hWrite, hAfter⟩ := Option.map_eq_some_iff.mp h
    cases hAfter
    exact ⟨m, hWrite, rfl, ‹_ ∧ _›.2, rfl, rfl⟩
  · cases h

theorem le_of_exchange {value before : ν}
    (h : M.exchange order x value time V = some (before, M', V')) : V ≤ V' := by
  obtain ⟨m, _, _, _, rfl, _⟩ := exchange_eq_some h
  exact (V.le_reading order x time m).trans le_sup_left

theorem compareExchange_eq_some [DecidableEq ν] {expected desired : ν}
    (h : M.compareExchange order x expected desired time V = some (M', V')) :
    M.exchange order x desired time V = some (expected, M', V') := by
  obtain ⟨⟨before, after⟩, hExchange, hSame⟩ := Option.bind_eq_some_iff.mp h
  simp only [Option.ite_none_right_eq_some, Option.some.injEq] at hSame
  obtain ⟨rfl, rfl⟩ := hSame
  exact hExchange

theorem le_access (M : Memory Λ Φ ν δ) (a : Φ) (content : δ) (V : View Λ Φ) :
    V ≤ (M.access a content V).2 :=
  le_update_self_iff.mpr le_sup_left

/-- After its own access a thread knows every access so far. -/
theorem settled_access (M : Memory Λ Φ ν δ) (a : Φ) (content : δ) (V : View Λ Φ) :
    (M.access a content V).1.Settled (M.access a content V).2 a := by
  simp [Settled, access]

omit [DecidableEq Λ] [DecidableEq Φ] in
theorem Solid.congr {n : ℕ} {last : Message Λ Φ ν} (solid : M.Solid x n last)
    (h : M'.writes x = M.writes x) : M'.Solid x n last :=
  ⟨by rw [h]; exact solid.last_eq, by rw [h]; exact solid.isSome_iff⟩

/-- An exchange reads the last write, and what that one has shown is shown by the new one. -/
theorem Solid.exchange {n : ℕ} {last : Message Λ Φ ν} {value before : ν}
    (solid : M.Solid x n last) (h : M.exchange order x value time V = some (before, M', V')) :
    before = last.value ∧ (order.acquires = true → last.view ≤ V') ∧
      ∃ next, M'.Solid x (n + 1) next ∧ next.value = value ∧ last.view ≤ next.view ∧
        (order.releases = true → V' ≤ next.view) := by
  obtain ⟨m, hWrite, rfl, hVacant, hView, rfl⟩ := exchange_eq_some h
  have hTime : time ≤ n := (solid.isSome_iff time).mp (by simp [hWrite])
  have hNext : ¬time + 1 ≤ n := fun hLe => by
    have := (solid.isSome_iff _).mpr hLe
    simp [Option.isNone_iff_eq_none.mp hVacant] at this
  obtain rfl : time = n := by omega
  obtain rfl : m = last := Option.some.inj (hWrite.symm.trans solid.last_eq)
  refine ⟨rfl, fun hOrder => ?_, _, ⟨insert_writes_eq_some.mpr (.inl ⟨rfl, rfl, rfl⟩),
    fun t => ?_⟩, rfl, le_sup_right, fun hOrder => ?_⟩
  · rw [hView]
    exact (View.view_le_reading V hOrder x time m).trans le_sup_left
  · by_cases ht : t = time + 1
    · subst ht
      simp [insert]
    · have := solid.isSome_iff t
      simp only [insert, Function.update_self, Function.update_of_ne ht, this]
      omega
  · simp only [View.shown, hOrder, if_true]
    exact le_sup_left

omit [DecidableEq Λ] [DecidableEq Φ] in
theorem Acquired.mono {value : ν} (acquired : Acquired M V x value) (hMemory : Extends M' M)
    (hView : V ≤ V') : Acquired M' V' x value := by
  obtain ⟨t, m, hWrite, hValue, hTime, hShown⟩ := acquired
  exact ⟨t, m, hMemory x t m hWrite, hValue, hTime.trans (hView _), hShown.trans hView⟩

end Memory

namespace Memory

variable {M M' : Memory Λ Φ ℕ δ} {V V' : View Λ Φ} {order : Order} {x y : Λ} {time n top : ℕ}

omit [DecidableEq Λ] [DecidableEq Φ] in
theorem counts_iff : M.Counts x n ↔ ∀ t, (∀ m, M.writes x t = some m → m.value = t ∧ t ≤ n) ∧
    (t ≤ n → (M.writes x t).isSome) := by
  refine forall_congr' fun t => ?_
  cases h : M.writes x t with
  | none => by_cases hn : t ≤ n <;> simp [hn]
  | some m => by_cases hn : t ≤ n <;> simp [hn]

/-- A counter may be read late, never early. -/
theorem Counts.load {value : ℕ} (counts : M.Counts x n)
    (h : M.load order x time V = some (value, V')) : value ≤ n := by
  obtain ⟨_, m, hWrite, rfl, _⟩ := load_eq_some h
  obtain ⟨hValue, hTime⟩ := (counts_iff.mp counts time).1 m hWrite
  omega

/-- Directly after a write that is not the last one there is no place for another. This is
why an exchange reads the latest count, whatever its order. -/
theorem Counts.exchange {before : ℕ} (counts : M.Counts x n)
    (h : M.exchange order x (before + 1) time V = some (before, M', V')) :
    before = n ∧ M'.Counts x (n + 1) := by
  obtain ⟨m, hWrite, rfl, hVacant, _, rfl⟩ := exchange_eq_some h
  obtain ⟨hValue, hTime⟩ := (counts_iff.mp counts time).1 m hWrite
  have hLast : time = n := by
    by_contra hne
    have := (counts_iff.mp counts (time + 1)).2 (by omega)
    simp [Option.isNone_iff_eq_none.mp hVacant] at this
  subst hLast
  refine ⟨hValue, counts_iff.mpr fun t => ⟨fun m' h => ?_, fun ht => ?_⟩⟩
  · rcases insert_writes_eq_some.mp h with ⟨_, rfl, rfl⟩ | ⟨_, hOld⟩
    · exact ⟨by simp [hValue], le_rfl⟩
    · obtain ⟨hv, hle⟩ := (counts_iff.mp counts t).1 m' hOld
      exact ⟨hv, hle.trans (Nat.le_succ _)⟩
  · by_cases hNew : t = time + 1
    · subst hNew
      simp [insert]
    · simpa [insert, hNew] using (counts_iff.mp counts t).2 (by omega)

omit [DecidableEq Λ] [DecidableEq Φ] in
theorem Counts.congr (counts : M.Counts x n) (h : M'.writes x = M.writes x) : M'.Counts x n := by
  unfold Counts
  rw [h]
  exact counts

omit [DecidableEq Λ] [DecidableEq Φ] in
theorem Rises.congr (rises : M.Rises x top) (h : M'.writes x = M.writes x) : M'.Rises x top := by
  constructor
  · rw [h]
    exact rises.reached
  · rw [h]
    exact rises.le_top
  · rw [h]
    exact rises.strict

theorem Rises.load {value : ℕ} (rises : M.Rises x top)
    (h : M.load order x time V = some (value, V')) : value ≤ top := by
  obtain ⟨_, m, hWrite, rfl, _⟩ := load_eq_some h
  exact rises.le_top time m hWrite

omit [DecidableEq Λ] [DecidableEq Φ] in
/-- Who has acquired the top value has missed nothing. -/
theorem Rises.current (rises : M.Rises x top) (acquired : M.Acquired V x top) :
    M.Current V x := by
  obtain ⟨t, m, hWrite, hValue, hTime, _⟩ := acquired
  intro t' m' hWrite'
  by_contra hLater
  have hAbove := rises.strict t m t' m' hWrite hWrite' (by omega)
  have := rises.le_top t' m' hWrite'
  omega

/-- Who has missed nothing reads the top value. -/
theorem Rises.load_current {value : ℕ} (rises : M.Rises x top) (current : M.Current V x)
    (h : M.load order x time V = some (value, V')) : value = top := by
  obtain ⟨hTime, m, hWrite, rfl, _⟩ := load_eq_some h
  obtain ⟨t, last, hLast, hTop⟩ := rises.reached
  have hLe := rises.le_top time m hWrite
  have := current t last hLast
  rcases (show t ≤ time by omega).eq_or_lt with rfl | hLt
  · rw [hLast] at hWrite
    cases hWrite
    exact hTop
  · have := rises.strict t last time m hLast hWrite hLt
    omega

/-- A store on top of everything. -/
theorem Rises.store {value : ℕ} (rises : M.Rises x top) (current : M.Current V x)
    (hTop : top < value) (h : M.store order x value time V = some (M', V')) :
    M'.Rises x value := by
  obtain ⟨hLater, _, rfl, rfl⟩ := store_eq_some h
  have hOld : ∀ t m, M.writes x t = some m → t < time ∧ m.value < value := fun t m hWrite =>
    ⟨(current t m hWrite).trans_lt hLater, (rises.le_top t m hWrite).trans_lt hTop⟩
  refine ⟨⟨time, _, insert_writes_eq_some.mpr (.inl ⟨rfl, rfl, rfl⟩), rfl⟩, fun t m hWrite => ?_,
    fun t m t' m' hWrite hWrite' hLt => ?_⟩
  · rcases insert_writes_eq_some.mp hWrite with ⟨_, rfl, rfl⟩ | ⟨_, hBefore⟩
    · exact le_rfl
    · exact (hOld t m hBefore).2.le
  · rcases insert_writes_eq_some.mp hWrite with ⟨_, rfl, rfl⟩ | ⟨_, hBefore⟩ <;>
      rcases insert_writes_eq_some.mp hWrite' with ⟨_, rfl, rfl⟩ | ⟨_, hBefore'⟩
    · omega
    · have := (hOld t' m' hBefore').1
      omega
    · exact (hOld t m hBefore).2
    · exact rises.strict t m t' m' hBefore hBefore' hLt

theorem current_of_store {value : ℕ} (current : M.Current V x)
    (h : M.store order x value time V = some (M', V')) : M'.Current V' x := by
  obtain ⟨hLater, _, rfl, rfl⟩ := store_eq_some h
  intro t m hWrite
  rcases insert_writes_eq_some.mp hWrite with ⟨_, rfl, rfl⟩ | ⟨_, hBefore⟩
  · exact View.le_sup_only_self V x t
  · exact (current t m hBefore).trans ((le_sup_left : V ≤ V ⊔ View.only x time) _)

end Memory

end WeakMemory
