import Mathlib.Data.List.Basic
import Mathlib.Tactic.SplitIfs

/-! `RingBuffer`: bytes in an array that is written and read in circles. A copy that comes to
the end of the array goes on at its beginning. -/

inductive RingBufferResult where
  | ok
  | fail
  | invalidArg
  deriving DecidableEq

structure RingBuffer where
  buffer : List UInt8
  head : Nat
  tail : Nat
  count : Nat
  deriving DecidableEq

namespace RingBuffer

def construct (size : Nat) : RingBuffer := ⟨List.replicate size 0, 0, 0, 0⟩

/-- `memcpy` into the array from index `start` on, if all of it is inside. -/
def copyIn (buffer : List UInt8) (start : Nat) (data : List UInt8) : Option (List UInt8) :=
  if start + data.length ≤ buffer.length then
    some (buffer.take start ++ data ++ buffer.drop (start + data.length))
  else none

/-- `memcpy` out of the array. -/
def copyOut (buffer : List UInt8) (start size : Nat) : Option (List UInt8) :=
  if start + size ≤ buffer.length then some ((buffer.drop start).take size) else none

variable (b : RingBuffer)

def capacity : Nat := b.buffer.length

def freeSpace : Nat := b.capacity - b.count

/-- The array after both chunks. -/
def write (data : List UInt8) : Option (List UInt8) :=
  let firstChunkSize := min data.length (b.capacity - b.head)
  (copyIn b.buffer b.head (data.take firstChunkSize)).bind fun buffer =>
    if data.length - firstChunkSize > 0 then copyIn buffer 0 (data.drop firstChunkSize) else some buffer

def read (size : Nat) : Option (List UInt8) :=
  let firstChunkSize := min size (b.capacity - b.tail)
  (copyOut b.buffer b.tail firstChunkSize).bind fun out =>
    if size - firstChunkSize > 0 then (copyOut b.buffer 0 (size - firstChunkSize)).map (out ++ ·)
    else some out

/-- `none` for a null pointer. -/
def push : Option (List UInt8) → Option (RingBufferResult × RingBuffer)
  | none => some (.invalidArg, b)
  | some data =>
      if data.length = 0 then some (.invalidArg, b)
      else if data.length > b.freeSpace then some (.fail, b)
      else (b.write data).map fun buffer =>
        (.ok, { b with
          buffer := buffer
          head := (b.head + data.length) % b.capacity
          count := b.count + data.length })

/-- The bytes are what is in `out` afterwards, if it is not null. -/
def pop (null : Bool) (size : Nat) : Option (RingBufferResult × List UInt8 × RingBuffer) :=
  if null ∨ size = 0 then some (.invalidArg, [], b)
  else if size > b.count then some (.fail, [], b)
  else (b.read size).map fun out =>
    (.ok, out, { b with tail := (b.tail + size) % b.capacity, count := b.count - size })

def reset : RingBuffer := { b with head := 0, tail := 0, count := 0 }

inductive Op where
  | push (data : Option (List UInt8))
  | pop (null : Bool) (size : Nat)
  | reset

/-- What a caller sees of a call. -/
structure Reply where
  result : RingBufferResult
  bytes : List UInt8
  deriving DecidableEq

/-- One call, unless it copies from or to a place outside of the array. -/
def call : Op → Option (Reply × RingBuffer)
  | .push data => (b.push data).map fun after => (⟨after.1, []⟩, after.2)
  | .pop null size => (b.pop null size).map fun after => (⟨after.1, after.2.1⟩, after.2.2)
  | .reset => some (⟨.ok, []⟩, b.reset)

/-- The replies to calls one after the other. -/
def calls : List Op → RingBuffer → Option (List Reply × RingBuffer)
  | [], b => some ([], b)
  | op :: rest, b =>
      (b.call op).bind fun after => (calls rest after.2).map fun last => (after.1 :: last.1, last.2)

end RingBuffer

/-- The bytes that are pushed and not yet popped, oldest first. -/
abbrev ByteFifo := List UInt8

namespace ByteFifo

open RingBuffer

/-- A list of bytes that holds no more than `capacity` of them. -/
def call (capacity : Nat) (bytes : ByteFifo) : Op → Reply × ByteFifo
  | .push none => (⟨.invalidArg, []⟩, bytes)
  | .push (some data) =>
      if data = [] then (⟨.invalidArg, []⟩, bytes)
      else if bytes.length + data.length ≤ capacity then (⟨.ok, []⟩, bytes ++ data)
      else (⟨.fail, []⟩, bytes)
  | .pop null size =>
      if null ∨ size = 0 then (⟨.invalidArg, []⟩, bytes)
      else if size ≤ bytes.length then (⟨.ok, bytes.take size⟩, bytes.drop size)
      else (⟨.fail, []⟩, bytes)
  | .reset => (⟨.ok, []⟩, [])

def calls (capacity : Nat) : List Op → ByteFifo → List Reply × ByteFifo
  | [], bytes => ([], bytes)
  | op :: rest, bytes =>
      let after := call capacity bytes op
      let last := calls capacity rest after.2
      (after.1 :: last.1, last.2)

end ByteFifo

namespace RingBuffer

/-- When a call succeeds, and that it changes nothing when it does not. -/
structure Answers (b : RingBuffer) (bytes : ByteFifo) : Prop where
  push : ∀ data, ∃ result after, b.push (some data) = some (result, after) ∧
    (result = .ok ↔ 0 < data.length ∧ bytes.length + data.length ≤ b.capacity) ∧ (result ≠ .ok → after = b)
  pop : ∀ size, ∃ result out after, b.pop false size = some (result, out, after) ∧
    (result = .ok ↔ 0 < size ∧ size ≤ bytes.length) ∧ (result = .ok → out = bytes.take size) ∧
    (result ≠ .ok → after = b)

/-- The bytes from `tail` on, in circles. -/
structure Holds (b : RingBuffer) (bytes : ByteFifo) : Prop where
  count_eq : b.count = bytes.length
  fits : bytes.length ≤ b.capacity
  tail_lt : b.tail < b.capacity
  head_eq : b.head = (b.tail + b.count) % b.capacity
  stored : ∀ k < bytes.length, b.buffer[(b.tail + k) % b.capacity]? = bytes[k]?

section Copies

variable (buffer data : List UInt8) (start size : Nat)

theorem copyIn_eq_some (h : start + data.length ≤ buffer.length) :
    ∃ after, copyIn buffer start data = some after ∧ after.length = buffer.length ∧
      ∀ i, after[i]? = if start ≤ i ∧ i < start + data.length then data[i - start]? else buffer[i]? := by
  refine ⟨_, if_pos h, ?_, fun i => ?_⟩
  · simp only [List.length_append, List.length_take, List.length_drop]
    omega
  · simp only [List.append_assoc, List.getElem?_append, List.length_take, List.getElem?_take,
      List.getElem?_drop]
    have hStart : min start buffer.length = start := by omega
    rw [hStart]
    by_cases hBefore : i < start
    · rw [if_pos hBefore, if_pos hBefore, if_neg (by omega)]
    · rw [if_neg hBefore]
      by_cases hInside : i - start < data.length
      · rw [if_pos hInside, if_pos (by omega)]
      · rw [if_neg hInside, if_neg (by omega)]
        congr 1
        omega

theorem copyOut_eq_some (h : start + size ≤ buffer.length) :
    ∃ out, copyOut buffer start size = some out ∧ out.length = size ∧ ∀ k < size, out[k]? = buffer[start + k]? := by
  refine ⟨_, if_pos h, ?_, fun k hk => ?_⟩
  · simp only [List.length_take, List.length_drop]
    omega
  · rw [List.getElem?_take, if_pos hk, List.getElem?_drop]

/-- Where a place in circles is. -/
theorem circular_eq {capacity p k : Nat} (hp : p < capacity) (hk : k ≤ capacity) :
    (p + k) % capacity = if p + k < capacity then p + k else p + k - capacity := by
  split
  · exact Nat.mod_eq_of_lt (by omega)
  · rw [Nat.mod_eq_sub_mod (by omega), Nat.mod_eq_of_lt (by omega)]

end Copies

section Calls

variable {b : RingBuffer} {bytes : ByteFifo}

/-- Both chunks are inside the array, and what is written is there in circles. -/
theorem write_eq_some (data : List UInt8) (hHead : b.head < b.capacity) (hData : data.length ≤ b.capacity) :
    ∃ buffer, b.write data = some buffer ∧ buffer.length = b.capacity ∧
      (∀ k < data.length, buffer[(b.head + k) % b.capacity]? = data[k]?) ∧
      ∀ i, (∀ k < data.length, (b.head + k) % b.capacity ≠ i) → buffer[i]? = b.buffer[i]? := by
  have hLength : b.buffer.length = b.capacity := rfl
  generalize hChunk : min data.length (b.capacity - b.head) = firstChunkSize
  have hTake : (data.take firstChunkSize).length = firstChunkSize := by
    rw [List.length_take]
    omega
  obtain ⟨first, hFirst, hSize, hPlaces⟩ :=
    copyIn_eq_some b.buffer (data.take firstChunkSize) b.head (by rw [hTake]; omega)
  rw [hTake] at hPlaces
  unfold write
  simp only [hChunk, hFirst, Option.bind_some]
  by_cases hMore : data.length - firstChunkSize > 0
  · have hDrop : (data.drop firstChunkSize).length = data.length - firstChunkSize := List.length_drop
    obtain ⟨second, hSecond, hSize', hPlaces'⟩ :=
      copyIn_eq_some first (data.drop firstChunkSize) 0 (by rw [hDrop]; omega)
    rw [hDrop] at hPlaces'
    refine ⟨second, by rw [if_pos hMore, hSecond], by omega, fun k hk => ?_, fun i hi => ?_⟩
    · rw [circular_eq hHead (by omega)]
      by_cases hWrap : b.head + k < b.capacity
      · rw [if_pos hWrap, hPlaces', if_neg (by omega), hPlaces, if_pos (by omega), List.getElem?_take,
          if_pos (by omega), Nat.add_sub_cancel_left]
      · rw [if_neg hWrap, hPlaces', if_pos (by omega), List.getElem?_drop]
        congr 1
        omega
    · rw [hPlaces', hPlaces]
      by_cases hOld : b.head ≤ i ∧ i < b.head + firstChunkSize
      · have hHit := hi (i - b.head) (by omega)
        rw [circular_eq hHead (by omega), if_pos (by omega)] at hHit
        omega
      · rw [if_neg hOld]
        split
        · have hHit := hi (i + firstChunkSize) (by omega)
          rw [circular_eq hHead (by omega), if_neg (by omega)] at hHit
          omega
        · rfl
  · refine ⟨first, if_neg hMore, by omega, fun k hk => ?_, fun i hi => ?_⟩
    · rw [circular_eq hHead (by omega), if_pos (by omega), hPlaces, if_pos (by omega), List.getElem?_take,
        if_pos (by omega), Nat.add_sub_cancel_left]
    · rw [hPlaces, if_neg]
      intro hOld
      have hHit := hi (i - b.head) (by omega)
      rw [circular_eq hHead (by omega), if_pos (by omega)] at hHit
      omega

/-- Both chunks are inside the array, and what is read was there in circles. -/
theorem read_eq_some (size : Nat) (hTail : b.tail < b.capacity) (hSize : size ≤ b.capacity) :
    ∃ out, b.read size = some out ∧ out.length = size ∧
      ∀ k < size, out[k]? = b.buffer[(b.tail + k) % b.capacity]? := by
  have hLength : b.buffer.length = b.capacity := rfl
  generalize hChunk : min size (b.capacity - b.tail) = firstChunkSize
  obtain ⟨first, hFirst, hRead, hPlaces⟩ :=
    copyOut_eq_some b.buffer b.tail firstChunkSize (by omega)
  unfold read
  simp only [hChunk, hFirst, Option.bind_some]
  by_cases hMore : size - firstChunkSize > 0
  · obtain ⟨second, hSecond, hRead', hPlaces'⟩ :=
      copyOut_eq_some b.buffer 0 (size - firstChunkSize) (by omega)
    refine ⟨first ++ second, by rw [if_pos hMore, hSecond, Option.map_some], ?_, fun k hk => ?_⟩
    · rw [List.length_append]
      omega
    · rw [List.getElem?_append, circular_eq hTail (by omega)]
      by_cases hWrap : k < firstChunkSize
      · rw [if_pos (by omega), hPlaces k hWrap, if_pos (by omega)]
      · rw [if_neg (by omega), hPlaces' _ (by omega), if_neg (by omega)]
        congr 1
        omega
  · refine ⟨first, if_neg hMore, by omega, fun k hk => ?_⟩
    rw [hPlaces k (by omega), circular_eq hTail (by omega), if_pos (by omega)]

theorem Holds.head_lt (holds : b.Holds bytes) : b.head < b.capacity := by
  rw [holds.head_eq]
  exact Nat.mod_lt _ (Nat.zero_lt_of_lt holds.tail_lt)

theorem Holds.push (holds : b.Holds bytes) (data : List UInt8) (hFits : bytes.length + data.length ≤ b.capacity) :
    ∃ buffer, b.write data = some buffer ∧
      ({ b with
        buffer := buffer
        head := (b.head + data.length) % b.capacity
        count := b.count + data.length } : RingBuffer).Holds (bytes ++ data) := by
  obtain ⟨buffer, hWrite, hLength, hNew, hOld⟩ := write_eq_some data holds.head_lt (by omega)
  have hHead := holds.head_eq
  have hPlace : ∀ k, (b.head + k) % b.capacity = (b.tail + (bytes.length + k)) % b.capacity := by
    intro k
    rw [hHead, Nat.mod_add_mod, holds.count_eq, Nat.add_assoc]
  refine ⟨buffer, hWrite, ?_, ?_, ?_, ?_, fun k hk => ?_⟩
  · show b.count + data.length = _
    rw [holds.count_eq, List.length_append]
  · show _ ≤ buffer.length
    rw [List.length_append, hLength]
    exact hFits
  · exact hLength.symm ▸ holds.tail_lt
  · show (b.head + data.length) % b.capacity = (b.tail + (b.count + data.length)) % buffer.length
    rw [hLength, hPlace, holds.count_eq]
  · show buffer[(b.tail + k) % buffer.length]? = _
    rw [List.length_append] at hk
    rw [hLength, List.getElem?_append]
    split
    · rename_i hBefore
      rw [← holds.stored k hBefore]
      apply hOld
      intro j hj hSame
      have hTail := holds.tail_lt
      rw [hPlace, circular_eq hTail (by omega), circular_eq hTail (by omega)] at hSame
      split at hSame <;> split at hSame <;> omega
    · rw [← hNew (k - bytes.length) (by omega), hPlace]
      congr 3
      omega

theorem Holds.pop (holds : b.Holds bytes) {size : Nat} (hSize : size ≤ bytes.length) :
    b.read size = some (bytes.take size) ∧
      ({ b with tail := (b.tail + size) % b.capacity, count := b.count - size } : RingBuffer).Holds
        (bytes.drop size) := by
  have hFits := holds.fits
  have hTail := holds.tail_lt
  obtain ⟨out, hRead, hLength, hBytes⟩ := read_eq_some size hTail (by omega)
  refine ⟨hRead.trans (congrArg some (List.ext_getElem? fun k => ?_)), ?_, ?_, ?_, ?_, fun k hk => ?_⟩
  · rw [List.getElem?_take]
    split
    · rename_i hk
      rw [hBytes k hk, holds.stored k (by omega)]
    · exact List.getElem?_eq_none (by omega)
  · show b.count - size = _
    rw [List.length_drop, holds.count_eq]
  · show _ ≤ b.capacity
    rw [List.length_drop]
    omega
  · exact Nat.mod_lt _ (by omega)
  · show b.head = ((b.tail + size) % b.capacity + (b.count - size)) % b.capacity
    have hCount := holds.count_eq
    rw [Nat.mod_add_mod, holds.head_eq]
    congr 1
    omega
  · show b.buffer[((b.tail + size) % b.capacity + k) % b.capacity]? = _
    rw [List.length_drop] at hk
    rw [List.getElem?_drop, ← holds.stored (size + k) (by omega), Nat.mod_add_mod, Nat.add_assoc]

/-- Each call gives the reply that the list gives. -/
theorem Holds.call (holds : b.Holds bytes) (op : Op) : ∃ after,
    b.call op = some ((ByteFifo.call b.capacity bytes op).1, after) ∧ after.capacity = b.capacity ∧
      after.Holds (ByteFifo.call b.capacity bytes op).2 ∧
      ((ByteFifo.call b.capacity bytes op).1.result ≠ .ok → after = b) := by
  have hCount := holds.count_eq
  have hFits := holds.fits
  cases op with
  | push data =>
      cases data with
      | none => exact ⟨b, rfl, rfl, holds, fun _ => rfl⟩
      | some data =>
          simp only [RingBuffer.call, RingBuffer.push, ByteFifo.call, List.length_eq_zero_iff]
          have hFree : b.freeSpace = b.capacity - b.count := rfl
          by_cases hEmpty : data = []
          · rw [if_pos hEmpty, if_pos hEmpty]
            exact ⟨b, rfl, rfl, holds, fun _ => rfl⟩
          · rw [if_neg hEmpty, if_neg hEmpty]
            by_cases hRoom : bytes.length + data.length ≤ b.capacity
            · obtain ⟨buffer, hWrite, hHolds⟩ := holds.push data hRoom
              have hSame : buffer.length = b.capacity := by
                obtain ⟨written, hWritten, hLength, _⟩ := write_eq_some data holds.head_lt (by omega)
                cases hWrite.symm.trans hWritten
                exact hLength
              rw [if_neg (show ¬data.length > b.freeSpace by omega), if_pos hRoom, hWrite]
              exact ⟨_, rfl, hSame, hHolds, fun h => absurd rfl h⟩
            · rw [if_pos (show data.length > b.freeSpace by omega), if_neg hRoom]
              exact ⟨b, rfl, rfl, holds, fun _ => rfl⟩
  | pop null size =>
      simp only [RingBuffer.call, RingBuffer.pop, ByteFifo.call]
      by_cases hNone : null = true ∨ size = 0
      · rw [if_pos hNone, if_pos hNone]
        exact ⟨b, rfl, rfl, holds, fun _ => rfl⟩
      · rw [if_neg hNone, if_neg hNone]
        by_cases hEnough : size ≤ bytes.length
        · obtain ⟨hRead, hHolds⟩ := holds.pop hEnough
          rw [if_neg (show ¬size > b.count by omega), if_pos hEnough, hRead]
          exact ⟨_, rfl, rfl, hHolds, fun h => absurd rfl h⟩
        · rw [if_pos (show size > b.count by omega), if_neg hEnough]
          exact ⟨b, rfl, rfl, holds, fun _ => rfl⟩
  | reset =>
      have hTail := holds.tail_lt
      refine ⟨b.reset, rfl, rfl, ⟨rfl, Nat.zero_le _, by show 0 < b.capacity; omega, ?_, ?_⟩,
        fun h => absurd rfl h⟩
      · show 0 = (0 + 0) % b.capacity
        rw [Nat.zero_add, Nat.zero_mod]
      · exact fun k hk => absurd hk (Nat.not_lt_zero k)

theorem holds_construct {size : Nat} (hSize : 0 < size) : (construct size).Holds [] := by
  have hCapacity : (construct size).capacity = size := List.length_replicate
  refine ⟨rfl, Nat.zero_le _, by rw [hCapacity]; exact hSize, ?_, fun k hk => absurd hk (Nat.not_lt_zero k)⟩
  exact (Nat.zero_mod _).symm

theorem Holds.calls (holds : b.Holds bytes) (ops : List Op) : ∃ after,
    RingBuffer.calls ops b = some ((ByteFifo.calls b.capacity ops bytes).1, after) ∧
      after.capacity = b.capacity ∧ after.Holds (ByteFifo.calls b.capacity ops bytes).2 := by
  induction ops generalizing b bytes with
  | nil => exact ⟨b, rfl, rfl, holds⟩
  | cons op rest ih =>
      obtain ⟨middle, hCall, hCapacity, hHolds, _⟩ := holds.call op
      obtain ⟨after, hRest, hCapacity', hHolds'⟩ := ih hHolds
      rw [hCapacity] at hRest hHolds'
      refine ⟨after, ?_, hCapacity'.trans hCapacity, hHolds'⟩
      rw [RingBuffer.calls, hCall, Option.bind_some, hRest]
      rfl

theorem Holds.answers (holds : b.Holds bytes) : b.Answers bytes where
  push data := by
    obtain ⟨after, hCall, _, _, hSame⟩ := holds.call (.push (some data))
    obtain ⟨⟨result, _⟩, hPush, hAfter⟩ := Option.map_eq_some_iff.mp hCall
    simp only [Prod.mk.injEq] at hAfter
    obtain ⟨hReply, rfl⟩ := hAfter
    have hResult := congrArg Reply.result hReply
    refine ⟨result, _, hPush, ?_, fun h => hSame (hResult ▸ h)⟩
    rw [show result = _ from hResult, ByteFifo.call, Nat.pos_iff_ne_zero, Ne, List.length_eq_zero_iff]
    split
    · rename_i hEmpty
      exact iff_of_false (by simp) fun h => h.1 hEmpty
    · rename_i hEmpty
      split
      · rename_i hRoom
        exact iff_of_true rfl ⟨hEmpty, hRoom⟩
      · rename_i hRoom
        exact iff_of_false (by simp) fun h => hRoom h.2
  pop size := by
    obtain ⟨after, hCall, _, _, hSame⟩ := holds.call (.pop false size)
    obtain ⟨⟨result, out, _⟩, hPop, hAfter⟩ := Option.map_eq_some_iff.mp hCall
    simp only [Prod.mk.injEq] at hAfter
    obtain ⟨hReply, rfl⟩ := hAfter
    have hResult : result = _ := congrArg Reply.result hReply
    have hOut : out = _ := congrArg Reply.bytes hReply
    refine ⟨result, out, _, hPop, ?_, fun hOk => ?_, fun h => hSame (hResult ▸ h)⟩
    all_goals simp only [ByteFifo.call, Bool.false_eq_true, false_or] at hResult hOut
    · rw [hResult, Nat.pos_iff_ne_zero]
      split
      · rename_i hNone
        exact iff_of_false (by simp) fun h => h.1 hNone
      · rename_i hSome
        split
        · rename_i hEnough
          exact iff_of_true rfl ⟨hSome, hEnough⟩
        · rename_i hShort
          exact iff_of_false (by simp) fun h => hShort h.2
    · split at hResult
      · exact absurd (hResult.symm.trans hOk) (by simp)
      · rename_i hSome
        split at hResult
        · rename_i hEnough
          rw [hOut, if_neg hSome, if_pos hEnough]
        · exact absurd (hResult.symm.trans hOk) (by simp)

/-- Whatever is pushed and popped, the replies are those of a list of at most `size` bytes, and no
copy leaves the array. -/
theorem refines_fifo {size : Nat} (hSize : 0 < size) (ops : List Op) : ∃ b : RingBuffer,
    RingBuffer.calls ops (construct size) = some ((ByteFifo.calls size ops []).1, b) ∧
      b.capacity = size ∧ b.Answers (ByteFifo.calls size ops []).2 := by
  have hCapacity : (construct size).capacity = size := List.length_replicate
  obtain ⟨b, hCalls, hSame, holds⟩ := (holds_construct hSize).calls ops
  rw [hCapacity] at hCalls hSame holds
  exact ⟨b, hCalls, hSame, holds.answers⟩

/-- Three bytes around the end of four, a fourth and fifth that do not fit, and all three again. -/
theorem refines_fifo_around : ∃ b : RingBuffer,
    RingBuffer.calls [.push (some [1, 2, 3]), .pop false 2, .push (some [4, 5]), .push (some [6, 7]),
        .pop false 3] (construct 4) =
      some ([⟨.ok, []⟩, ⟨.ok, [1, 2]⟩, ⟨.ok, []⟩, ⟨.fail, []⟩, ⟨.ok, [3, 4, 5]⟩], b) ∧
      b.capacity = 4 ∧ b.Answers [] :=
  refines_fifo (by decide) _

end Calls

end RingBuffer
