import V2Engine.Lifetime.Registry

/-! `Message` (core/actor_system/messages/message.hpp): a type-erased payload kept in
the object itself or in a block of an allocator. Payload objects and allocator blocks
are registered, so that a destructor or a deallocation that finds nothing of its kind
is counted and not passed over. -/
namespace Messages

open Lifetime

variable {ω V : Type*}

/-- `alignof(std::max_align_t)`. -/
def maxAlign : Nat := 16

def kInlineSize : Nat := 64

/-- What `make` and `opsFor` ask the compiler about a payload type. Types are told
apart by `name`, since two of them may agree in everything else. -/
structure PayloadType where
  name : Nat
  kId : Nat
  size : Nat
  align : Nat
  /-- `std::is_nothrow_move_constructible_v`. -/
  nothrowMove : Bool
  /-- `std::is_copy_constructible_v`. -/
  copyable : Bool
deriving DecidableEq, Repr

namespace PayloadType

/-- The condition of `make` for `StorageMode::Inline`. -/
def inlineFits (T : PayloadType) : Bool :=
  T.size ≤ kInlineSize && T.align ≤ maxAlign && T.nothrowMove

/-- The condition of `opsFor` for the table of a pool payload. -/
def isPool (T : PayloadType) : Bool :=
  T.size > kInlineSize || T.align > maxAlign || !T.nothrowMove

theorem isPool_eq (T : PayloadType) : T.isPool = !T.inlineFits := by
  simp [isPool, inlineFits, Bool.not_and, ← decide_not]

end PayloadType

/-- Storage a payload can live in: the inline bytes of a message or a block of memory. -/
inductive Place (ω : Type*) where
  | inlineData (m : ω)
  | block (p : Nat)
deriving DecidableEq

structure Object (V : Type*) where
  type : PayloadType
  value : V
deriving DecidableEq

/-- How a block was asked for. -/
structure Block where
  allocator : Nat
  size : Nat
  align : Nat
deriving DecidableEq, Repr

def defaultMemoryPool : Nat := 0

structure Heap (ω V : Type*) where
  objects : Registry (Place ω) (Object V)
  blocks : Registry Nat Block

/-- How `allocate` may answer. -/
inductive Allocation where
  | block (p : Nat)
  | null
  | throws
deriving DecidableEq, Repr

/-- What the fallible steps inside one call do: the allocation, and then the copy or
move constructor of the payload. -/
structure Faults where
  allocation : Allocation
  constructorThrows : Bool
deriving DecidableEq, Repr

namespace Heap

def empty : Heap ω V := ⟨.empty, .empty⟩

/-- Undefined behaviour: a payload is used where none of its type lives. -/
def stray (h : Heap ω V) : Heap ω V := { h with objects := h.objects.stray }

/-- Destructors and deallocations that found nothing of their kind. -/
def strays (h : Heap ω V) : Nat := h.objects.strays + h.blocks.strays

variable [DecidableEq ω]

/-- Placement new of a payload. -/
def construct (h : Heap ω V) (place : Place ω) (o : Object V) : Heap ω V :=
  { h with objects := h.objects.begins place o }

/-- `static_cast<T*>(p)->~T()`. The pointer may be indeterminate. -/
def destruct (h : Heap ω V) (T : PayloadType) : Option (Place ω) → Heap ω V
  | none => h.stray
  | some place => { h with objects := h.objects.ends (fun o => o.type = T) place }

/-- The value of the `T` a pointer points to. -/
def read (h : Heap ω V) (T : PayloadType) (p : Option (Place ω)) : Option V :=
  p.bind fun place => (h.objects.find place).bind fun o => if o.type = T then some o.value else none

/-- `IMemoryAllocator::allocate` has answered with the block at `p`. -/
def allocate (h : Heap ω V) (p : Nat) (b : Block) : Heap ω V :=
  { h with blocks := h.blocks.begins p b }

/-- `IMemoryAllocator::deallocate`. -/
def deallocate (h : Heap ω V) (b : Block) : Option (Place ω) → Heap ω V
  | some (.block p) => { h with blocks := h.blocks.ends (fun c => c = b) p }
  | _ => { h with blocks := h.blocks.stray }

/-- The `move` entry of both tables. -/
def moveTo (h : Heap ω V) (T : PayloadType) (dst : Place ω) (src : Option (Place ω)) : Heap ω V :=
  match h.read T src with
  | none => h.stray
  | some v => (h.construct dst ⟨T, v⟩).destruct T src

/-- `::new(dst) T(*static_cast<const T*>(src))`; `false` when the constructor throws. -/
def copyTo (h : Heap ω V) (T : PayloadType) (dst : Place ω) (src : Option (Place ω))
    (faults : Faults) : Heap ω V × Bool :=
  match h.read T src with
  | none => (h.stray, false)
  | some v => if faults.constructorThrows then (h, false) else (h.construct dst ⟨T, v⟩, true)

end Heap

variable [DecidableEq ω]

/-- The functions of a table. A fallible one leaves the heap it leaves and, when it
throws, no result. -/
structure MessageOps (ω V : Type*) where
  destroy : Heap ω V → Option (Place ω) → Nat → Heap ω V
  move : Heap ω V → Place ω → Option (Place ω) → Heap ω V
  cloneConstruct : Option (Heap ω V → Place ω → Option (Place ω) → Faults → Heap ω V × Bool)
  cloneAllocate : Option (Heap ω V → Option (Place ω) → Nat → Faults → Heap ω V × Option Nat)

/-- The `cloneAllocate` entry of a copyable pool payload. -/
def cloneAllocate (T : PayloadType) (h : Heap ω V) (src : Option (Place ω)) (allocator : Nat)
    (faults : Faults) : Heap ω V × Option Nat :=
  match faults.allocation with
  | .throws | .null => (h, none)
  | .block p =>
      match (h.allocate p ⟨allocator, T.size, T.align⟩).copyTo T (.block p) src faults with
      | (h', true) => (h', some p)
      | (h', false) => (h', none)

def opsFor (T : PayloadType) : MessageOps ω V :=
  if T.isPool then
    { destroy := fun h p allocator => (h.destruct T p).deallocate ⟨allocator, T.size, T.align⟩ p
      move := fun h dst src => h.moveTo T dst src
      cloneConstruct := none
      cloneAllocate := if T.copyable then some (cloneAllocate T) else none }
  else
    { destroy := fun h p _ => h.destruct T p
      move := fun h dst src => h.moveTo T dst src
      cloneConstruct := if T.copyable then some fun h dst src faults => h.copyTo T dst src faults else none
      cloneAllocate := none }

inductive StorageMode where
  | empty
  | inline
  | pool
deriving DecidableEq, Repr

/-- The fields of a message. The table `ops_` points to is named by its payload type,
and `ptr` is `none` while `storage_.ptr` is indeterminate. -/
structure Message where
  id : Nat := 0
  mode : StorageMode := .empty
  ops : Option PayloadType := none
  allocator : Option Nat := none
  ptr : Option Nat := none
deriving DecidableEq, Repr

/-- Whether `make` is given an lvalue, which it copies, or an rvalue, which it moves. -/
inductive Forwarded where
  | lvalue
  | rvalue
deriving DecidableEq, Repr

/-- The constructor that `make` calls may throw, unless it is a nothrow move. -/
def PayloadType.throwing (T : PayloadType) (source : Forwarded) (faults : Faults) : Bool :=
  faults.constructorThrows && (source = .lvalue || !T.nothrowMove)

/-- The allocator never gives out a block that is in use. -/
def Heap.serves (h : Heap ω V) (faults : Faults) : Bool :=
  match faults.allocation with
  | .block p => (h.blocks.find p).isNone
  | _ => true

namespace PayloadType

/-- A failure is met inside `make`: in the allocation, or in the constructor. -/
def failing (T : PayloadType) (source : Forwarded) (faults : Faults) : Bool :=
  if T.inlineFits then T.throwing source faults
  else
    match faults.allocation with
    | .block _ => T.throwing source faults
    | _ => true

/-- The copy constructor throws after the block for the copy has been allocated. -/
def leaking (T : PayloadType) (faults : Faults) : Bool :=
  !T.inlineFits && T.copyable && faults.constructorThrows &&
    match faults.allocation with
    | .block _ => true
    | _ => false

end PayloadType

namespace Message

def data (msg : Message) (m : ω) : Option (Place ω) :=
  if msg.mode = .inline then some (.inlineData m) else msg.ptr.map .block

/-- The destructor. -/
def destroy (msg : Message) (m : ω) (h : Heap ω V) : Heap ω V :=
  match msg.mode, msg.ops with
  | .empty, _ | _, none => h
  | _, some T => (opsFor T).destroy h (msg.data m) (msg.allocator.getD defaultMemoryPool)

/-- The lines that the move constructor and the move assignment share: the message `m`
takes over from `other`, which stands at `o`. -/
def takeOver (ptr : Option Nat) (other : Message) (m o : ω) (h : Heap ω V) :
    Heap ω V × Message × Message :=
  let heap := match other.mode, other.ops with
    | .inline, some T => (opsFor T).move h (.inlineData m) (other.data o)
    | .inline, none => h.stray
    | _, _ => h
  (heap, { other with ptr := if other.mode = .pool then other.ptr else ptr },
    { other with id := 0, mode := .empty, ops := none, allocator := none })

/-- `Message(Message&& other)`. -/
def moveConstruct (other : Message) (m o : ω) (h : Heap ω V) : Heap ω V × Message × Message :=
  takeOver none other m o h

/-- `operator=(Message&& other)` when `this != &other`. -/
def moveAssign (msg other : Message) (m o : ω) (h : Heap ω V) : Heap ω V × Message × Message :=
  takeOver msg.ptr other m o (msg.destroy m h)

/-- `make`, with its result built in place at `m`. When it throws, the local message is
destroyed as the stack unwinds, and there is no result. -/
def make (T : PayloadType) (source : Forwarded) (v : V) (faults : Faults) (m : ω) (h : Heap ω V) :
    Heap ω V × Option Message :=
  let msg : Message := { id := T.kId, ops := some T }
  if T.inlineFits then
    let msg := { msg with mode := .inline }
    if T.throwing source faults then (msg.destroy m h, none)
    else (h.construct (.inlineData m) ⟨T, v⟩, some msg)
  else
    let msg := { msg with mode := .pool }
    match faults.allocation with
    | .throws | .null => (msg.destroy m h, none)
    | .block p =>
        let h := h.allocate p ⟨defaultMemoryPool, T.size, T.align⟩
        if T.throwing source faults then (msg.destroy m h, none)
        else
          (h.construct (.block p) ⟨T, v⟩,
            some { msg with ptr := some p, allocator := some defaultMemoryPool })

/-- `clone`, with its result built in place at `m`. -/
def clone (msg : Message) (o : ω) (faults : Faults) (m : ω) (h : Heap ω V) :
    Heap ω V × Option Message :=
  match msg.mode, msg.ops with
  | .empty, _ => (h, some {})
  | _, none => (h.stray, none)
  | .inline, some T =>
      match (opsFor T).cloneConstruct with
      | none => (h, some {})
      | some cloneConstruct =>
          match cloneConstruct h (.inlineData m) (msg.data o) faults with
          | (h', true) => (h', some { id := msg.id, ops := msg.ops, mode := .inline })
          | (h', false) => ((({} : Message).destroy m h'), none)
  | .pool, some T =>
      match (opsFor T).cloneAllocate with
      | none => (h, some {})
      | some cloneAllocate =>
          let allocator := msg.allocator.getD defaultMemoryPool
          match cloneAllocate h (msg.data o) allocator faults with
          | (h', some p) =>
              (h', some { id := msg.id, ops := msg.ops, mode := .pool, allocator := some allocator,
                          ptr := some p })
          | (h', none) => ((({} : Message).destroy m h'), none)

end Message

end Messages
