import V2Engine.Interleaving.Calls
import V2Engine.Messages.Message

/-! Messages in objects and in mailboxes. A mailbox is a `LockFreeMpscQueue<Message>`
called by one thread at a time (container/lock_free_mpsc_queue.hpp): `push` move-constructs
its argument into a slot, `pop` move-assigns the element and destroys it. -/
namespace Messages

open Lifetime Interleaving

/-- Where a `Message` can stand: an object of the program or the storage of a slot. -/
inductive Owner (ι μ : Type*) where
  | object (m : ι)
  | slot (q : μ) (i : Nat)
deriving DecidableEq

/-- The members of the queue, positions unbounded. -/
structure Mailbox where
  capacity : Nat
  head : Nat
  tail : Nat
  sequence : Nat → Nat

/-- The ticket of the tail is taken and its slot published. -/
def Mailbox.pushed (b : Mailbox) : Mailbox :=
  { b with
    tail := b.tail + 1
    sequence := Function.update b.sequence (b.tail % b.capacity) (b.tail + 1) }

/-- The slot of the head is left to the next lap. -/
def Mailbox.popped (b : Mailbox) : Mailbox :=
  { b with
    head := b.head + 1
    sequence := Function.update b.sequence (b.head % b.capacity) (b.head + b.capacity) }

structure State (ι μ V : Type*) where
  heap : Heap (Owner ι μ) V
  messages : Owner ι μ → Option Message
  mailboxes : μ → Option Mailbox

variable {ι μ V : Type*} [DecidableEq ι] [DecidableEq μ]

namespace State

def initial : State ι μ V := ⟨.empty, fun _ => none, fun _ => none⟩

/-- A call that builds a message at `m` has left this heap and this result. -/
def settle (s : State ι μ V) (m : Owner ι μ) (result : Heap (Owner ι μ) V × Option Message) :
    State ι μ V :=
  { s with heap := result.1, messages := Function.update s.messages m result.2 }

def setMailbox (s : State ι μ V) (q : μ) (b : Option Mailbox) : State ι μ V :=
  { s with mailboxes := Function.update s.mailboxes q b }

/-- What `takeOver` leaves at both ends. -/
def handOver (s : State ι μ V) (m o : Owner ι μ) (after : Heap (Owner ι μ) V × Message × Message) :
    State ι μ V :=
  { s with
    heap := after.1
    messages := Function.update (Function.update s.messages m (some after.2.1)) o (some after.2.2) }

/-- Construct the message at `m` by moving from the one at `o`. -/
def moveConstruct (s : State ι μ V) (m o : Owner ι μ) : Option (State ι μ V) :=
  (s.messages o).map fun other => s.handOver m o (other.moveConstruct m o s.heap)

/-- Assign the message at `o` to the one at `m`, which may be the same. -/
def moveAssign (s : State ι μ V) (m o : Owner ι μ) : Option (State ι μ V) :=
  match s.messages m, s.messages o with
  | some msg, some other =>
      if m = o then some s else some (s.handOver m o (msg.moveAssign other m o s.heap))
  | _, _ => none

/-- End the lifetime of the message at `m`. -/
def destroy (s : State ι μ V) (m : Owner ι μ) : Option (State ι μ V) :=
  (s.messages m).map fun msg => s.settle m (msg.destroy m s.heap, none)

/-- `push`. A slot ahead of the position would be waited for; the call does not return then. -/
def push (s : State ι μ V) (q : μ) (b : Mailbox) (o : ι) : Option (State ι μ V) :=
  let pos := b.tail
  let i := pos % b.capacity
  if b.sequence i = pos then
    (s.moveConstruct (.slot q i) (.object o)).map fun s' => s'.setMailbox q (some b.pushed)
  else if b.sequence i < pos then some s
  else none

/-- `pop`. -/
def pop (s : State ι μ V) (q : μ) (b : Mailbox) (out : ι) : Option (State ι μ V) :=
  let pos := b.head
  let i := pos % b.capacity
  if b.sequence i = pos + 1 then
    (s.moveAssign (.object out) (.slot q i)).bind fun assigned =>
      (assigned.destroy (.slot q i)).map fun s' => s'.setMailbox q (some b.popped)
  else some s

/-- The loop of `~LockFreeMpscQueue` over the positions that are left. -/
def drain (q : μ) (b : Mailbox) : List Nat → State ι μ V → Option (State ι μ V)
  | [], s => some s
  | pos :: rest, s =>
      let i := pos % b.capacity
      if b.sequence i = pos + 1 then (s.destroy (.slot q i)).bind (drain q b rest)
      else drain q b rest s

end State

inductive Op (ι μ V : Type*) where
  | default (m : ι)
  | make (m : ι) (T : PayloadType) (source : Forwarded) (v : V) (faults : Faults)
  | moveConstruct (m other : ι)
  | moveAssign (m other : ι)
  | clone (m other : ι) (faults : Faults)
  | destroy (m : ι)
  | open (q : μ) (capacity : Nat)
  | push (q : μ) (other : ι)
  | pop (q : μ) (out : ι)
  | close (q : μ)

/-- One call. It is refused where the program cannot make it: a constructor runs where
no message stands, everything else on a message that does. -/
def step : Op ι μ V → State ι μ V → Option (State ι μ V)
  | .default m, s =>
      if s.messages (.object m) = none then some (s.settle (.object m) (s.heap, some {})) else none
  | .make m T source v faults, s =>
      if s.messages (.object m) = none ∧ (source = .rvalue ∨ T.copyable) ∧ s.heap.serves faults then
        some (s.settle (.object m) (Message.make T source v faults (.object m) s.heap))
      else none
  | .moveConstruct m other, s =>
      if s.messages (.object m) = none then s.moveConstruct (.object m) (.object other) else none
  | .moveAssign m other, s => s.moveAssign (.object m) (.object other)
  | .clone m other faults, s =>
      if s.messages (.object m) = none ∧ s.heap.serves faults then
        (s.messages (.object other)).map fun msg =>
          s.settle (.object m) (msg.clone (.object other) faults (.object m) s.heap)
      else none
  | .destroy m, s => s.destroy (.object m)
  | .open q capacity, s =>
      if s.mailboxes q = none ∧ capacity ≠ 0 then
        some (s.setMailbox q (some ⟨capacity, 0, 0, fun i => i⟩))
      else none
  | .push q other, s =>
      if s.messages (.object other) = none then none
      else (s.mailboxes q).bind fun b => s.push q b other
  | .pop q out, s =>
      if s.messages (.object out) = none then none
      else (s.mailboxes q).bind fun b => s.pop q b out
  | .close q, s =>
      (s.mailboxes q).bind fun b =>
        (State.drain q b (List.range' b.head (b.tail - b.head)) s).map fun s' => s'.setMailbox q none

/-- The failures that a call does contain: none inside `make`, and inside `clone` every
one but that of the copy constructor of a pool payload. -/
def contained (s : State ι μ V) : Op ι μ V → Prop
  | .make _ T source _ faults => T.failing source faults = false
  | .clone _ other faults => ∀ msg ∈ s.messages (.object other), msg.mode ≠ .empty →
      ∀ T ∈ msg.ops, T.leaking faults = false
  | _ => True

/-- `push` on a mailbox of one slot is called only while the slot is free. -/
def roomy (s : State ι μ V) : Op ι μ V → Prop
  | .push q _ => ∀ b ∈ s.mailboxes q, 2 ≤ b.capacity ∨ b.tail = b.head
  | _ => True

/-- Where payloads are accounted for. -/
def careful (s : State ι μ V) (op : Op ι μ V) : Prop := contained s op ∧ roomy s op

instance : ∀ (s : State ι μ V) (op : Op ι μ V), Decidable (contained s op)
  | _, .make _ T source _ faults => inferInstanceAs (Decidable (T.failing source faults = false))
  | s, .clone _ other faults => inferInstanceAs (Decidable (∀ msg ∈ s.messages (.object other),
      msg.mode ≠ .empty → ∀ T ∈ msg.ops, T.leaking faults = false))
  | _, .default _ | _, .moveConstruct .. | _, .moveAssign .. | _, .destroy _ | _, .open .. |
    _, .push .. | _, .pop .. | _, .close _ => inferInstanceAs (Decidable True)

instance : ∀ (s : State ι μ V) (op : Op ι μ V), Decidable (roomy s op)
  | s, .push q _ => inferInstanceAs (Decidable (∀ b ∈ s.mailboxes q, 2 ≤ b.capacity ∨ b.tail = b.head))
  | _, .default _ | _, .make .. | _, .moveConstruct .. | _, .moveAssign .. | _, .clone .. |
    _, .destroy _ | _, .open .. | _, .pop .. | _, .close _ => inferInstanceAs (Decidable True)

instance (s : State ι μ V) (op : Op ι μ V) : Decidable (careful s op) :=
  inferInstanceAs (Decidable (_ ∧ _))

end Messages
