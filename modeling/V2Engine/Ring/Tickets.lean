import Mathlib.Logic.Function.Basic
import Mathlib.Data.Nat.ModEq
import Mathlib.Tactic.Ring

/-! A bounded ring of slots shared by writers and readers. Position `p` is a ticket
for slot `p % capacity`, and the slot's sequence number says how far its current
ticket has come: `p` while the slot waits for ticket `p` or is being written under
it, `p + 1` once its element can be read, and `p + capacity` once it was read.

The first four fields of `State` are the shared memory. The others are history:
no step reads them. -/
namespace TicketRing

/-- How far a ticket has come. -/
inductive Stage (π γ : Type*) where
  | free
  | reserved (producer : π)
  | published
  | claimed (consumer : γ)
  | retired

namespace Stage
variable {π γ : Type*}

/-- What the ticket's slot has added to the ticket itself while the slot is
occupied on the ticket's behalf. -/
def offset : Stage π γ → Option Nat
  | .free => none
  | .reserved _ => some 0
  | .published => some 1
  | .claimed _ => some 1
  | .retired => none

@[simp] theorem offset_free : (free : Stage π γ).offset = none := rfl
@[simp] theorem offset_reserved (t : π) : (reserved t : Stage π γ).offset = some 0 := rfl
@[simp] theorem offset_published : (published : Stage π γ).offset = some 1 := rfl
@[simp] theorem offset_claimed (r : γ) : (claimed r : Stage π γ).offset = some 1 := rfl
@[simp] theorem offset_retired : (retired : Stage π γ).offset = none := rfl

theorem offset_le_one {stage : Stage π γ} {k : Nat} (h : stage.offset = some k) : k ≤ 1 := by
  cases stage <;> simp at h <;> omega

end Stage

/-- One accepted element: who pushed it, in which of its own calls. -/
structure Entry (π α : Type*) where
  producer : π
  call : Nat
  value : α

/-- One completed read: what the reader found in the slot of its ticket. -/
structure Popped (γ α : Type*) where
  consumer : γ
  ticket : Nat
  value : Option α

structure State (π γ α : Type*) where
  tail : Nat
  head : Nat
  sequence : Nat → Nat
  storage : Nat → Option α
  pushed : List (Entry π α)
  stage : Nat → Stage π γ
  claims : List Nat
  popped : List (Popped γ α)

namespace State
variable {π γ α : Type*}

/-- Every slot waits for its first ticket. -/
def empty : State π γ α where
  tail := 0
  head := 0
  sequence := id
  storage := fun _ => none
  pushed := []
  stage := fun _ => .free
  claims := []
  popped := []

/-- A writer takes the next ticket. -/
def reserve (s : State π γ α) (entry : Entry π α) : State π γ α :=
  { s with
    tail := s.tail + 1
    pushed := s.pushed ++ [entry]
    stage := Function.update s.stage s.tail (.reserved entry.producer) }

def construct (s : State π γ α) (capacity pos : Nat) (element : Option α) : State π γ α :=
  { s with storage := Function.update s.storage (pos % capacity) element }

def publish (s : State π γ α) (capacity pos : Nat) : State π γ α :=
  { s with
    sequence := Function.update s.sequence (pos % capacity) (pos + 1)
    stage := Function.update s.stage pos .published }

/-- A reader becomes the one reader of a ticket. -/
def claim (s : State π γ α) (pos : Nat) (reader : γ) : State π γ α :=
  { s with
    stage := Function.update s.stage pos (.claimed reader)
    claims := s.claims ++ [pos] }

/-- The element is moved out of its slot and destroyed there. -/
def take (s : State π γ α) (capacity pos : Nat) : State π γ α :=
  { s with storage := Function.update s.storage (pos % capacity) none }

/-- The slot is handed to the ticket one lap later. -/
def retire (s : State π γ α) (capacity pos : Nat) (result : Popped γ α) : State π γ α :=
  { s with
    sequence := Function.update s.sequence (pos % capacity) (pos + capacity)
    stage := Function.update s.stage pos .retired
    popped := s.popped ++ [result] }

/-- What one reader has read, in the order of its own reads. -/
def poppedBy [DecidableEq γ] (s : State π γ α) (reader : γ) : List (Option α) :=
  (s.popped.filter fun result => result.consumer = reader).map Popped.value

end State

variable {π γ α : Type*} {capacity : Nat}

/-- Tickets of one slot are whole laps apart. -/
theorem lap_le {p q : Nat} (hSlot : p % capacity = q % capacity) (hLt : p < q) :
    p + capacity ≤ q := by
  have hDvd : capacity ∣ q - p := (Nat.modEq_iff_dvd' hLt.le).mp hSlot
  have := Nat.le_of_dvd (by omega) hDvd
  omega

/-- A stage other than the one just written was there before, on another ticket. -/
theorem stage_kept {stage : Nat → Stage π γ} {pos p : Nat} {new old : Stage π γ}
    (h : Function.update stage pos new p = old) (hne : new ≠ old) : p ≠ pos ∧ stage p = old := by
  by_cases hp : p = pos
  · subst hp
    exact absurd (by simpa using h) hne
  · exact ⟨hp, by simpa [Function.update_of_ne hp] using h⟩

/-- What holds of the ring between any two atomic steps. -/
structure Valid (capacity : Nat) (s : State π γ α) : Prop where
  pushed_length : s.pushed.length = s.tail
  free_iff : ∀ p, s.stage p = .free ↔ s.tail ≤ p
  occupied : ∀ p k, (s.stage p).offset = some k → s.sequence (p % capacity) = p + k
  retired : ∀ p, s.stage p = .retired → p + capacity ≤ s.sequence (p % capacity)
  waiting : ∀ p, s.stage p = .free → s.sequence (p % capacity) ≤ p
  started : ∀ i, i < capacity → i ≤ s.sequence i
  readable : ∀ p, s.stage p = .published →
    s.storage (p % capacity) = s.pushed[p]?.map Entry.value
  vacant : ∀ p, s.stage p = .free → s.sequence (p % capacity) = p →
    s.storage (p % capacity) = none

theorem valid_empty : Valid capacity (State.empty : State π γ α) where
  pushed_length := rfl
  free_iff p := by simp [State.empty]
  occupied p k h := by simp [State.empty] at h
  retired p h := by simp [State.empty] at h
  waiting p _ := Nat.mod_le p capacity
  started i _ := Nat.le_refl i
  readable p h := by simp [State.empty] at h
  vacant p _ _ := rfl

namespace Valid
variable {s : State π γ α}

/-- A ticket that was handed out is below the tail. -/
theorem lt_tail (valid : Valid capacity s) {p : Nat} (hp : s.stage p ≠ .free) : p < s.tail := by
  by_contra hLe
  exact hp ((valid.free_iff p).mpr (by omega))

/-- A ticket that still waits is ahead of every ticket handed out. -/
theorem lt_of_free (valid : Valid capacity s) {p q : Nat} (hp : s.stage p ≠ .free)
    (hq : s.stage q = .free) : p < q := by
  have hTail := (valid.free_iff q).mp hq
  have := valid.lt_tail hp
  omega

/-- Two tickets that both occupy their slot do not share it. This is where one
slot would not be enough: there `p + 1` is a ticket of the same slot as `p`. -/
theorem occupied_injective (valid : Valid capacity s) (hCapacity : 2 ≤ capacity) {p q j k : Nat}
    (hp : (s.stage p).offset = some j) (hq : (s.stage q).offset = some k)
    (hSlot : p % capacity = q % capacity) : p = q := by
  have hSeqP := valid.occupied p j hp
  have hSeqQ := valid.occupied q k hq
  rw [hSlot] at hSeqP
  have hj := Stage.offset_le_one hp
  have hk := Stage.offset_le_one hq
  rcases Nat.lt_trichotomy p q with hLt | hEq | hGt
  · have := lap_le hSlot hLt
    omega
  · exact hEq
  · have := lap_le hSlot.symm hGt
    omega

/-- A slot whose sequence number is one past a ticket holds that ticket's element. -/
theorem published_or_claimed (valid : Valid capacity s) (hCapacity : 2 ≤ capacity) {p : Nat}
    (h : s.sequence (p % capacity) = p + 1) :
    s.stage p = .published ∨ ∃ reader, s.stage p = .claimed reader := by
  cases hStage : s.stage p with
  | free => have := valid.waiting p hStage; omega
  | reserved t => have := valid.occupied p 0 (by simp [hStage]); omega
  | published => exact .inl rfl
  | claimed reader => exact .inr ⟨reader, rfl⟩
  | retired => have := valid.retired p hStage; omega

/-- A slot behind a ticket is behind it because nobody has the ticket yet. -/
theorem free_of_behind (valid : Valid capacity s) {p : Nat}
    (h : s.sequence (p % capacity) < p) : s.stage p = .free := by
  cases hStage : s.stage p with
  | free => rfl
  | reserved t => have := valid.occupied p 0 (by simp [hStage]); omega
  | published => have := valid.occupied p 1 (by simp [hStage]); omega
  | claimed reader => have := valid.occupied p 1 (by simp [hStage]); omega
  | retired => have := valid.retired p hStage; omega

/-- It is behind only while the ticket one lap earlier was not read to the end. -/
theorem full_of_behind (valid : Valid capacity s) {p : Nat}
    (h : s.sequence (p % capacity) < p) :
    capacity ≤ p ∧ s.stage (p - capacity) ≠ .retired := by
  have hLap : capacity ≤ p := by
    by_contra hLt
    have hStarted := valid.started p (by omega)
    rw [Nat.mod_eq_of_lt (by omega)] at h
    omega
  refine ⟨hLap, fun hRetired => ?_⟩
  have hSeq := valid.retired _ hRetired
  rw [← Nat.mod_eq_sub_mod hLap] at hSeq
  omega

/-- No ticket is more than a lap ahead of one whose slot is still occupied. -/
theorem tail_le_lap (valid : Valid capacity s) (hCapacity : 2 ≤ capacity) {p k : Nat}
    (hp : (s.stage p).offset = some k) : s.tail ≤ p + capacity := by
  by_contra hLt
  have hSeq := valid.occupied p k hp
  have hk := Stage.offset_le_one hp
  have hBehind : s.sequence ((p + capacity) % capacity) < p + capacity := by
    rw [Nat.add_mod_right, hSeq]
    omega
  have := (valid.free_iff _).mp (valid.free_of_behind hBehind)
  omega

/-- What is stored in a slot was stored there under a ticket that is not yet done. -/
theorem ticket_of_stored (valid : Valid capacity s) {i : Nat} (hSlot : i < capacity) {element : α}
    (h : s.storage i = some element) :
    ∃ p, p % capacity = i ∧ s.stage p ≠ .free ∧ s.stage p ≠ .retired := by
  have hNext : ∃ p, p % capacity = i ∧ s.tail ≤ p := by
    refine ⟨s.tail * capacity + i, by simp [Nat.mod_eq_of_lt hSlot], ?_⟩
    exact le_add_right (Nat.le_mul_of_pos_right _ (by omega))
  obtain ⟨⟨hMod, hTail⟩, hLeast⟩ := And.intro (Nat.find_spec hNext) fun q => Nat.find_min hNext (m := q)
  generalize Nat.find hNext = next at hMod hTail hLeast
  have hFree := (valid.free_iff next).mpr hTail
  have hBehind : s.sequence (next % capacity) < next := by
    refine lt_of_le_of_ne (valid.waiting next hFree) fun hOpen => ?_
    have hVacant := valid.vacant next hFree hOpen
    rw [hMod, h] at hVacant
    cases hVacant
  obtain ⟨hLap, hKept⟩ := valid.full_of_behind hBehind
  have hBefore : (next - capacity) % capacity = i := (Nat.mod_eq_sub_mod hLap).symm.trans hMod
  refine ⟨next - capacity, hBefore, fun hAlso => ?_, hKept⟩
  exact hLeast (next - capacity) (by omega) ⟨hBefore, (valid.free_iff _).mp hAlso⟩

theorem reserve (valid : Valid capacity s) (entry : Entry π α)
    (hOpen : s.sequence (s.tail % capacity) = s.tail) : Valid capacity (s.reserve entry) where
  pushed_length := by simp [State.reserve, valid.pushed_length]
  free_iff p := by
    by_cases hp : p = s.tail
    · subst hp
      simp [State.reserve]
    · simp only [State.reserve, Function.update_of_ne hp, valid.free_iff]
      omega
  occupied p k h := by
    by_cases hp : p = s.tail
    · subst hp
      have hk : 0 = k := by simpa [State.reserve] using h
      simpa [State.reserve, ← hk] using hOpen
    · exact valid.occupied p k (by simpa [State.reserve, Function.update_of_ne hp] using h)
  retired p h := valid.retired p (stage_kept h (by simp)).2
  waiting p h := valid.waiting p (stage_kept h (by simp)).2
  started := valid.started
  readable p h := by
    have hKept := (stage_kept h (by simp)).2
    have hLt := valid.lt_tail (p := p) (by simp [hKept])
    have hEntry : (s.pushed ++ [entry])[p]? = s.pushed[p]? :=
      List.getElem?_append_left (by rw [valid.pushed_length]; exact hLt)
    simp only [State.reserve, hEntry]
    exact valid.readable p hKept
  vacant p h hSeq := valid.vacant p (stage_kept h (by simp)).2 hSeq

/-- Writing into a reserved slot disturbs no other ticket. -/
theorem construct (valid : Valid capacity s) (hCapacity : 2 ≤ capacity) {pos : Nat} {owner : π}
    (hOwner : s.stage pos = .reserved owner) (element : Option α) :
    Valid capacity (s.construct capacity pos element) :=
  { valid with
    readable := fun p h => by
      have hSlot : p % capacity ≠ pos % capacity := fun hSlot => by
        have hEq := valid.occupied_injective hCapacity (j := 1) (k := 0)
          (congrArg Stage.offset h) (by simp [hOwner]) hSlot
        subst hEq
        exact absurd (hOwner.symm.trans h) (by simp)
      simp only [State.construct, Function.update_of_ne hSlot]
      exact valid.readable p h
    vacant := fun p h hSeq => by
      have hSlot : p % capacity ≠ pos % capacity := fun hSlot => by
        have hLt := valid.lt_of_free (p := pos) (by simp [hOwner]) h
        have hOcc := valid.occupied pos 0 (by simp [hOwner])
        rw [← hSlot] at hOcc
        simp only [State.construct] at hSeq
        omega
      simp only [State.construct, Function.update_of_ne hSlot]
      exact valid.vacant p h hSeq }

/-- Moving the sequence number of an occupied slot forward leaves every other
ticket's position relative to its own slot as it was. -/
theorem sequence_forward (valid : Valid capacity s) (hCapacity : 2 ≤ capacity) {pos k ahead : Nat}
    (hPos : (s.stage pos).offset = some k) (hAhead : pos < ahead) (hLap : ahead ≤ pos + capacity)
    {p : Nat} (hp : p ≠ pos) :
    (∀ j, (s.stage p).offset = some j →
      Function.update s.sequence (pos % capacity) ahead (p % capacity) = p + j) ∧
    (s.stage p = .retired →
      p + capacity ≤ Function.update s.sequence (pos % capacity) ahead (p % capacity)) ∧
    (s.stage p = .free →
      Function.update s.sequence (pos % capacity) ahead (p % capacity) ≤ p) := by
  by_cases hSlot : p % capacity = pos % capacity
  · rw [hSlot, Function.update_self]
    refine ⟨fun j hj => ?_, fun hRetired => ?_, fun hFree => ?_⟩
    · exact absurd (valid.occupied_injective hCapacity hj hPos hSlot) hp
    · have hBefore := valid.retired p hRetired
      have hOcc := valid.occupied pos k hPos
      have hk := Stage.offset_le_one hPos
      rw [hSlot] at hBefore
      omega
    · have hLt := valid.lt_of_free (p := pos) (fun h => by simp [h] at hPos) hFree
      have := lap_le hSlot.symm hLt
      omega
  · rw [Function.update_of_ne hSlot]
    exact ⟨valid.occupied p, valid.retired p, valid.waiting p⟩

theorem started_forward (valid : Valid capacity s) {pos ahead i : Nat} (hAhead : pos < ahead)
    (hi : i < capacity) : i ≤ Function.update s.sequence (pos % capacity) ahead i := by
  by_cases hSlot : i = pos % capacity
  · subst hSlot
    have := Nat.mod_le pos capacity
    rw [Function.update_self]
    omega
  · rw [Function.update_of_ne hSlot]
    exact valid.started i hi

theorem free_iff_update (valid : Valid capacity s) {pos : Nat} {new : Stage π γ}
    (hPos : s.stage pos ≠ .free) (hNew : new ≠ .free) (p : Nat) :
    Function.update s.stage pos new p = .free ↔ s.tail ≤ p := by
  by_cases hp : p = pos
  · subst hp
    simpa [hPos, hNew] using valid.lt_tail hPos
  · rw [Function.update_of_ne hp]
    exact valid.free_iff p

theorem publish (valid : Valid capacity s) (hCapacity : 2 ≤ capacity) {pos : Nat} {owner : π}
    (hOwner : s.stage pos = .reserved owner)
    (hElement : s.storage (pos % capacity) = s.pushed[pos]?.map Entry.value) :
    Valid capacity (s.publish capacity pos) := by
  have hOffset : (s.stage pos).offset = some 0 := by simp [hOwner]
  have hForward := fun p (hp : p ≠ pos) => valid.sequence_forward hCapacity hOffset
    (Nat.lt_succ_self pos) (by omega : pos + 1 ≤ pos + capacity) hp
  exact {
    pushed_length := valid.pushed_length
    free_iff := valid.free_iff_update (by simp [hOwner]) (by simp)
    occupied := fun p k h => by
      by_cases hp : p = pos
      · subst hp
        have hk : 1 = k := by simpa [State.publish] using h
        simp [State.publish, ← hk]
      · exact (hForward p hp).1 k (by simpa [State.publish, Function.update_of_ne hp] using h)
    retired := fun p h => (hForward p (stage_kept h (by simp)).1).2.1 (stage_kept h (by simp)).2
    waiting := fun p h => (hForward p (stage_kept h (by simp)).1).2.2 (stage_kept h (by simp)).2
    started := fun i hi => valid.started_forward (Nat.lt_succ_self pos) hi
    readable := fun p h => by
      by_cases hp : p = pos
      · subst hp
        exact hElement
      · exact valid.readable p (by simpa [State.publish, Function.update_of_ne hp] using h)
    vacant := fun p h hSeq => by
      obtain ⟨hp, hFree⟩ := stage_kept h (by simp)
      refine valid.vacant p hFree ?_
      by_cases hSlot : p % capacity = pos % capacity
      · simp only [State.publish, hSlot, Function.update_self] at hSeq
        have hLap : pos < p → pos + capacity ≤ p := lap_le hSlot.symm
        omega
      · simpa [State.publish, Function.update_of_ne hSlot] using hSeq }

/-- Claiming changes who reads the ticket, not where its slot stands. -/
theorem claim (valid : Valid capacity s) {pos : Nat} (hPublished : s.stage pos = .published)
    (reader : γ) : Valid capacity (s.claim pos reader) :=
  { valid with
    free_iff := valid.free_iff_update (by simp [hPublished]) (by simp)
    occupied := fun p k h => by
      by_cases hp : p = pos
      · subst hp
        exact valid.occupied p k (by simpa [State.claim, hPublished] using h)
      · exact valid.occupied p k (by simpa [State.claim, Function.update_of_ne hp] using h)
    retired := fun p h => valid.retired p (stage_kept h (by simp)).2
    waiting := fun p h => valid.waiting p (stage_kept h (by simp)).2
    readable := fun p h => valid.readable p (stage_kept h (by simp)).2
    vacant := fun p h hSeq => valid.vacant p (stage_kept h (by simp)).2 hSeq }

theorem take (valid : Valid capacity s) (hCapacity : 2 ≤ capacity) {pos : Nat} {reader : γ}
    (hReader : s.stage pos = .claimed reader) : Valid capacity (s.take capacity pos) :=
  { valid with
    readable := fun p h => by
      have hSlot : p % capacity ≠ pos % capacity := fun hSlot => by
        have hEq := valid.occupied_injective hCapacity (j := 1) (k := 1)
          (congrArg Stage.offset h) (by simp [hReader]) hSlot
        subst hEq
        exact absurd (hReader.symm.trans h) (by simp)
      simp only [State.take, Function.update_of_ne hSlot]
      exact valid.readable p h
    vacant := fun p h hSeq => by
      by_cases hSlot : p % capacity = pos % capacity
      · simp only [State.take, hSlot, Function.update_self]
      · simp only [State.take, Function.update_of_ne hSlot]
        exact valid.vacant p h hSeq }

theorem retire (valid : Valid capacity s) (hCapacity : 2 ≤ capacity) {pos : Nat} {reader : γ}
    (hReader : s.stage pos = .claimed reader) (hTaken : s.storage (pos % capacity) = none)
    (result : Popped γ α) : Valid capacity (s.retire capacity pos result) := by
  have hOffset : (s.stage pos).offset = some 1 := by simp [hReader]
  have hForward := fun p (hp : p ≠ pos) => valid.sequence_forward hCapacity hOffset
    (by omega : pos < pos + capacity) (Nat.le_refl _) hp
  exact {
    pushed_length := valid.pushed_length
    free_iff := valid.free_iff_update (by simp [hReader]) (by simp)
    occupied := fun p k h => by
      by_cases hp : p = pos
      · subst hp
        simp [State.retire] at h
      · exact (hForward p hp).1 k (by simpa [State.retire, Function.update_of_ne hp] using h)
    retired := fun p h => by
      by_cases hp : p = pos
      · subst hp
        simp [State.retire]
      · exact (hForward p hp).2.1 (by simpa [State.retire, Function.update_of_ne hp] using h)
    waiting := fun p h => (hForward p (stage_kept h (by simp)).1).2.2 (stage_kept h (by simp)).2
    started := fun i hi => valid.started_forward (by omega) hi
    readable := fun p h => valid.readable p (stage_kept h (by simp)).2
    vacant := fun p h hSeq => by
      obtain ⟨hp, hFree⟩ := stage_kept h (by simp)
      by_cases hSlot : p % capacity = pos % capacity
      · rw [hSlot]
        exact hTaken
      · simp only [State.retire, Function.update_of_ne hSlot] at hSeq
        exact valid.vacant p hFree hSeq }

end Valid

end TicketRing
