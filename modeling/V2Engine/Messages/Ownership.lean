import V2Engine.Messages.Message

/-! Which message owns which payload. Every payload that lives belongs to one message,
in its own bytes or in a block that no other message points to, and the functions of
`Message` only ever make, hand over and destroy payloads by that rule. -/
namespace Messages

open Lifetime

variable {ω V : Type*}

/-- What a message carries, whatever its storage. -/
structure Letter (V : Type*) where
  id : Nat
  payload : Object V
deriving DecidableEq

/-- The memory of a message object against what it carries: the object may not exist
(`none`), be empty (`some none`) or carry a letter. -/
inductive Holds (h : Heap ω V) (m : ω) : Option Message → Option (Option (Letter V)) → Prop where
  | absent (hFree : h.objects.find (.inlineData m) = none) : Holds h m none none
  | empty {msg : Message} (hMode : msg.mode = .empty)
      (hFree : h.objects.find (.inlineData m) = none) : Holds h m (some msg) (some none)
  | inline {msg : Message} {o : Object V} (hMode : msg.mode = .inline) (hOps : msg.ops = some o.type)
      (hFits : o.type.inlineFits = true) (hFind : h.objects.find (.inlineData m) = some o) :
      Holds h m (some msg) (some (some ⟨msg.id, o⟩))
  | pool {msg : Message} {o : Object V} {p a : Nat} (hMode : msg.mode = .pool)
      (hOps : msg.ops = some o.type) (hFits : o.type.inlineFits = false) (hPtr : msg.ptr = some p)
      (hAllocator : msg.allocator = some a) (hFind : h.objects.find (.block p) = some o)
      (hBlock : h.blocks.find p = some ⟨a, o.type.size, o.type.align⟩)
      (hFree : h.objects.find (.inlineData m) = none) :
      Holds h m (some msg) (some (some ⟨msg.id, o⟩))

/-- The message keeps its payload in the block at `p`. -/
def PointsTo (x : Option Message) (p : Nat) : Prop :=
  ∃ msg, x = some msg ∧ msg.mode = .pool ∧ msg.ptr = some p

/-- The message at `m` keeps its payload in the block at `p`. -/
def Owns (messages : ω → Option Message) (m : ω) (p : Nat) : Prop := PointsTo (messages m) p

/-- The whole memory against what all messages carry. -/
structure Sound (h : Heap ω V) (messages : ω → Option Message)
    (held : ω → Option (Option (Letter V))) : Prop where
  objects : h.objects.Kept
  blocks : h.blocks.Kept
  strays : h.strays = 0
  holds : ∀ m, Holds h m (messages m) (held m)
  apart : ∀ {m m' p}, Owns messages m p → Owns messages m' p → m = m'
  ownedObject : ∀ {p o}, h.objects.find (.block p) = some o → ∃ m, Owns messages m p
  ownedBlock : ∀ {p b}, h.blocks.find p = some b → ∃ m, Owns messages m p

/-- A message object that carries nothing: not constructed, or empty. -/
inductive Vacant : Option Message → Option (Option (Letter V)) → Prop where
  | absent : Vacant none none
  | empty {msg : Message} (hMode : msg.mode = .empty) : Vacant (some msg) (some none)

namespace Holds

variable {h h' : Heap ω V} {m : ω} {x : Option Message} {y : Option (Option (Letter V))}

/-- Only the payload of a message and the block it lies in matter to the message. -/
theorem frame (holds : Holds h m x y)
    (hInline : h'.objects.find (.inlineData m) = h.objects.find (.inlineData m))
    (hBlock : ∀ msg p, x = some msg → msg.mode = .pool → msg.ptr = some p →
      h'.objects.find (.block p) = h.objects.find (.block p) ∧ h'.blocks.find p = h.blocks.find p) :
    Holds h' m x y := by
  cases holds with
  | absent hFree => exact .absent (hInline.trans hFree)
  | empty hMode hFree => exact .empty hMode (hInline.trans hFree)
  | inline hMode hOps hFits hFind => exact .inline hMode hOps hFits (hInline.trans hFind)
  | pool hMode hOps hFits hPtr hAllocator hFind hOwn hFree =>
      obtain ⟨hObject, hSame⟩ := hBlock _ _ rfl hMode hPtr
      exact .pool hMode hOps hFits hPtr hAllocator (hObject.trans hFind) (hSame.trans hOwn)
        (hInline.trans hFree)

theorem vacant (holds : Holds h m x y) (hNothing : y = none ∨ y = some none) : Vacant x y := by
  cases holds with
  | absent hFree => exact .absent
  | empty hMode hFree => exact .empty hMode
  | inline => simp at hNothing
  | pool => simp at hNothing

theorem free_of_vacant (holds : Holds h m x y) (hVacant : Vacant x y) :
    h.objects.find (.inlineData m) = none := by
  cases hVacant with
  | absent =>
      cases holds with
      | absent hFree => exact hFree
  | empty hMode =>
      cases holds with
      | empty _ hFree => exact hFree

theorem of_vacant (hVacant : Vacant x y) (hFree : h.objects.find (.inlineData m) = none) :
    Holds h m x y := by
  cases hVacant with
  | absent => exact .absent hFree
  | empty hMode => exact .empty hMode hFree

end Holds

theorem Vacant.not_pointsTo {x : Option Message} {y : Option (Option (Letter V))}
    (hVacant : Vacant x y) (p : Nat) : ¬PointsTo x p := by
  rintro ⟨msg, rfl, hMode, _⟩
  cases hVacant with
  | empty hEmpty => simp [hEmpty] at hMode

/-- A message that points to a block holds the payload that lives there. -/
theorem Holds.block {h : Heap ω V} {m : ω} {x : Option Message} {y : Option (Option (Letter V))}
    (holds : Holds h m x y) {p : Nat} (hPoints : PointsTo x p) :
    ∃ o a, h.objects.find (.block p) = some o ∧ h.blocks.find p = some ⟨a, o.type.size, o.type.align⟩ := by
  obtain ⟨msg, rfl, hMode, hPtr⟩ := hPoints
  cases holds with
  | empty hEmpty => simp [hEmpty] at hMode
  | inline hInline => simp [hInline] at hMode
  | pool _ _ _ hPtr' _ hFind hBlock _ =>
      rw [hPtr] at hPtr'
      cases hPtr'
      exact ⟨_, _, hFind, hBlock⟩

variable [DecidableEq ω]

/-- Ownership of the other messages does not change with one of them. -/
theorem owns_update_of_ne {messages : ω → Option Message} {m n : ω} (hne : n ≠ m)
    (x : Option Message) (p : Nat) :
    Owns (Function.update messages m x) n p ↔ Owns messages n p := by
  simp [Owns, Function.update_of_ne hne]

theorem owns_update_self {messages : ω → Option Message} {m : ω} {x : Option Message} {p : Nat} :
    Owns (Function.update messages m x) m p ↔ PointsTo x p := by
  simp [Owns]

namespace Message

theorem destroy_empty {msg : Message} (hMode : msg.mode = .empty) (m : ω) (h : Heap ω V) :
    msg.destroy m h = h := by
  simp [destroy, hMode]

theorem destroy_inline {msg : Message} {T : PayloadType} (hMode : msg.mode = .inline)
    (hOps : msg.ops = some T) (hFits : T.inlineFits = true) (m : ω) (h : Heap ω V) :
    msg.destroy m h = h.destruct T (some (.inlineData m)) := by
  simp [destroy, hMode, hOps, opsFor, T.isPool_eq, hFits, data]

theorem destroy_pool {msg : Message} {T : PayloadType} {p a : Nat} (hMode : msg.mode = .pool)
    (hOps : msg.ops = some T) (hFits : T.inlineFits = false) (hPtr : msg.ptr = some p)
    (hAllocator : msg.allocator = some a) (m : ω) (h : Heap ω V) :
    msg.destroy m h =
      (h.destruct T (some (.block p))).deallocate ⟨a, T.size, T.align⟩ (some (.block p)) := by
  simp [destroy, hMode, hOps, opsFor, T.isPool_eq, hFits, data, hPtr, hAllocator]

/-- What is left of a message that another one has taken over. -/
def drained (other : Message) : Message :=
  { other with id := 0, mode := .empty, ops := none, allocator := none }

theorem takeOver_empty {other : Message} (hMode : other.mode = .empty) (ptr : Option Nat) (m o : ω)
    (h : Heap ω V) : takeOver ptr other m o h = (h, { other with ptr := ptr }, other.drained) := by
  simp [takeOver, drained, hMode]

theorem takeOver_inline {other : Message} {T : PayloadType} {v : V} (hMode : other.mode = .inline)
    (hOps : other.ops = some T) {o : ω} {h : Heap ω V}
    (hFind : h.objects.find (.inlineData o) = some ⟨T, v⟩) (ptr : Option Nat) (m : ω) :
    takeOver ptr other m o h =
      ((h.construct (.inlineData m) ⟨T, v⟩).destruct T (some (.inlineData o)),
        { other with ptr := ptr }, other.drained) := by
  have hMove : ∀ dst src, (opsFor (ω := ω) (V := V) T).move h dst src = h.moveTo T dst src := by
    intro dst src
    unfold opsFor
    split <;> rfl
  simp [takeOver, drained, hMode, hOps, hMove, Heap.moveTo, Heap.read, data, hFind]

theorem takeOver_pool {other : Message} (hMode : other.mode = .pool) (ptr : Option Nat) (m o : ω)
    (h : Heap ω V) : takeOver ptr other m o h = (h, other, other.drained) := by
  cases other
  cases hMode
  rfl

end Message

namespace Sound

variable {h : Heap ω V} {messages : ω → Option Message} {held : ω → Option (Option (Letter V))}
  {m : ω} {x : Option Message} {y : Option (Option (Letter V))}

/-- One message object and its payload change. What else lives in blocks is left alone,
and the message points to no block that another points to. -/
theorem change (sound : Sound h messages held) (h' : Heap ω V) (hObjects : h'.objects.Kept)
    (hBlocks : h'.blocks.Kept) (hStrays : h'.strays = 0) (hSelf : Holds h' m x y)
    (hInline : ∀ n, n ≠ m → h'.objects.find (.inlineData n) = h.objects.find (.inlineData n))
    (hOthers : ∀ n p, n ≠ m → Owns messages n p → ¬PointsTo x p ∧
      h'.objects.find (.block p) = h.objects.find (.block p) ∧ h'.blocks.find p = h.blocks.find p)
    (hObject : ∀ p o, h'.objects.find (.block p) = some o →
      PointsTo x p ∨ ∃ n, n ≠ m ∧ Owns messages n p)
    (hBlock : ∀ p b, h'.blocks.find p = some b → PointsTo x p ∨ ∃ n, n ≠ m ∧ Owns messages n p) :
    Sound h' (Function.update messages m x) (Function.update held m y) := by
  have hOwner : ∀ p, (PointsTo x p ∨ ∃ n, n ≠ m ∧ Owns messages n p) →
      ∃ n, Owns (Function.update messages m x) n p := by
    rintro p (hPoints | ⟨n, hn, hOwns⟩)
    · exact ⟨m, owns_update_self.mpr hPoints⟩
    · exact ⟨n, (owns_update_of_ne hn x p).mpr hOwns⟩
  constructor
  case objects => exact hObjects
  case blocks => exact hBlocks
  case strays => exact hStrays
  case holds =>
    intro n
    by_cases hn : n = m
    · subst hn
      simpa using hSelf
    · simp only [Function.update_of_ne hn]
      apply (sound.holds n).frame (hInline n hn)
      intro msg p hMsg hMode hPtr
      exact (hOthers n p hn ⟨msg, hMsg, hMode, hPtr⟩).2
  case apart =>
    intro n n' p hOwns hOwns'
    by_cases hn : n = m <;> by_cases hn' : n' = m
    · rw [hn, hn']
    · subst hn
      exact absurd (owns_update_self.mp hOwns) (hOthers n' p hn' ((owns_update_of_ne hn' x p).mp hOwns')).1
    · subst hn'
      exact absurd (owns_update_self.mp hOwns') (hOthers n p hn ((owns_update_of_ne hn x p).mp hOwns)).1
    · exact sound.apart ((owns_update_of_ne hn x p).mp hOwns) ((owns_update_of_ne hn' x p).mp hOwns')
  case ownedObject => exact fun hFind => hOwner _ (hObject _ _ hFind)
  case ownedBlock => exact fun hFind => hOwner _ (hBlock _ _ hFind)

omit [DecidableEq ω] in
/-- What lives in a block belongs to another message than one that carries nothing. -/
theorem owned_elsewhere (hVacant : Vacant (messages m) (held m)) {p : Nat}
    (hOwned : ∃ n, Owns messages n p) : ∃ n, n ≠ m ∧ Owns messages n p := by
  obtain ⟨n, hOwns⟩ := hOwned
  refine ⟨n, ?_, hOwns⟩
  rintro rfl
  exact hVacant.not_pointsTo p hOwns

/-- A message object that carries nothing can become another such object. -/
theorem replace (sound : Sound h messages held) (hVacant : Vacant (messages m) (held m))
    (hAfter : Vacant x y) :
    Sound h (Function.update messages m x) (Function.update held m y) := by
  apply sound.change h sound.objects sound.blocks sound.strays
  · exact .of_vacant hAfter ((sound.holds m).free_of_vacant hVacant)
  · intro n _
    rfl
  · intro n p _ _
    exact ⟨hAfter.not_pointsTo p, rfl, rfl⟩
  · intro p o hFind
    exact .inr (owned_elsewhere hVacant (sound.ownedObject hFind))
  · intro p b hFind
    exact .inr (owned_elsewhere hVacant (sound.ownedBlock hFind))

/-- A payload constructed in the bytes of a message that carries nothing. -/
theorem construct_inline (sound : Sound h messages held) (hVacant : Vacant (messages m) (held m))
    (msg : Message) {o : Object V} (hMode : msg.mode = .inline) (hOps : msg.ops = some o.type)
    (hFits : o.type.inlineFits = true) :
    Sound (h.construct (.inlineData m) o) (Function.update messages m (some msg))
      (Function.update held m (some (some ⟨msg.id, o⟩))) := by
  have hFree := (sound.holds m).free_of_vacant hVacant
  have hFind : ∀ place, (h.construct (.inlineData m) o).objects.find place =
      Function.update h.objects.find (.inlineData m) (some o) place := by
    intro place
    exact congrFun (Registry.find_begins ..) place
  have hNowhere : ∀ p, ¬PointsTo (some msg) p := by
    rintro p ⟨_, hSome, hPool, _⟩
    cases hSome
    simp [hMode] at hPool
  apply sound.change (h.construct (.inlineData m) o) (sound.objects.begins hFree o) sound.blocks
    sound.strays
  · exact .inline hMode hOps hFits (by simp [hFind])
  · intro n hn
    rw [hFind, Function.update_of_ne (by simp [hn])]
  · intro n p _ _
    exact ⟨hNowhere p, by rw [hFind, Function.update_of_ne (by simp)], rfl⟩
  · intro p o' hBlock
    rw [hFind, Function.update_of_ne (by simp)] at hBlock
    exact .inr (owned_elsewhere hVacant (sound.ownedObject hBlock))
  · intro p b hBlock
    exact .inr (owned_elsewhere hVacant (sound.ownedBlock hBlock))

omit [DecidableEq ω] in
/-- Nobody points to a block that the allocator has not given out. -/
theorem not_owns_of_fresh (sound : Sound h messages held) {p : Nat} (hFresh : h.blocks.find p = none)
    (n : ω) : ¬Owns messages n p := by
  intro hOwns
  obtain ⟨_, _, _, hBlock⟩ := (sound.holds n).block hOwns
  simp [hFresh] at hBlock

omit [DecidableEq ω] in
theorem object_none_of_fresh (sound : Sound h messages held) {p : Nat}
    (hFresh : h.blocks.find p = none) : h.objects.find (.block p) = none := by
  by_contra hSome
  obtain ⟨o, hFind⟩ := Option.ne_none_iff_exists'.mp hSome
  obtain ⟨n, hOwns⟩ := sound.ownedObject hFind
  exact sound.not_owns_of_fresh hFresh n hOwns

/-- A payload constructed in a block just allocated for a message that carries nothing. -/
theorem construct_pool (sound : Sound h messages held) (hVacant : Vacant (messages m) (held m))
    (msg : Message) {o : Object V} {p a : Nat} (hMode : msg.mode = .pool)
    (hOps : msg.ops = some o.type) (hFits : o.type.inlineFits = false) (hPtr : msg.ptr = some p)
    (hAllocator : msg.allocator = some a) (hFresh : h.blocks.find p = none) :
    Sound ((h.allocate p ⟨a, o.type.size, o.type.align⟩).construct (.block p) o)
      (Function.update messages m (some msg)) (Function.update held m (some (some ⟨msg.id, o⟩))) := by
  let after := (h.allocate p ⟨a, o.type.size, o.type.align⟩).construct (.block p) o
  have hFind : ∀ place, after.objects.find place =
      Function.update h.objects.find (.block p) (some o) place := by
    intro place
    exact congrFun (Registry.find_begins ..) place
  have hBlocks : ∀ k, after.blocks.find k =
      Function.update h.blocks.find p (some ⟨a, o.type.size, o.type.align⟩) k := by
    intro k
    exact congrFun (Registry.find_begins ..) k
  have hOnly : ∀ k, PointsTo (some msg) k → k = p := by
    rintro k ⟨_, hSome, _, hPtr'⟩
    cases hSome
    simpa [hPtr] using hPtr'.symm
  have hSelf : PointsTo (some msg) p := ⟨msg, rfl, hMode, hPtr⟩
  apply sound.change after (sound.objects.begins (sound.object_none_of_fresh hFresh) o)
    (sound.blocks.begins hFresh _) sound.strays
  · apply Holds.pool hMode hOps hFits hPtr hAllocator
    · simp [hFind]
    · simp [hBlocks]
    · rw [hFind, Function.update_of_ne (by simp)]
      exact (sound.holds m).free_of_vacant hVacant
  · intro n _
    rw [hFind, Function.update_of_ne (by simp)]
  · intro n k _ hOwns
    have hk : k ≠ p := by
      rintro rfl
      exact sound.not_owns_of_fresh hFresh n hOwns
    rw [hFind, hBlocks, Function.update_of_ne (by simp [hk]), Function.update_of_ne hk]
    exact ⟨fun hPoints => hk (hOnly k hPoints), rfl, rfl⟩
  · intro k o' hBlock
    by_cases hk : k = p
    · exact .inl (hk ▸ hSelf)
    · rw [hFind, Function.update_of_ne (by simp [hk])] at hBlock
      exact .inr (owned_elsewhere hVacant (sound.ownedObject hBlock))
  · intro k b hBlock
    by_cases hk : k = p
    · exact .inl (hk ▸ hSelf)
    · rw [hBlocks, Function.update_of_ne hk] at hBlock
      exact .inr (owned_elsewhere hVacant (sound.ownedBlock hBlock))

/-- The destructor of a message destroys its payload and gives its block back. -/
theorem destroy (sound : Sound h messages held) {msg : Message} (hMsg : messages m = some msg)
    (hAfter : Vacant x y) :
    Sound (msg.destroy m h) (Function.update messages m x) (Function.update held m y) := by
  have holds := sound.holds m
  rw [hMsg] at holds
  generalize hHeld : held m = carried at holds
  cases holds with
  | empty hMode hFree =>
      have hVacant : Vacant (messages m) (held m) := by
        rw [hMsg, hHeld]
        exact .empty hMode
      rw [Message.destroy_empty hMode]
      exact sound.replace hVacant hAfter
  | @inline _ o hMode hOps hFits hFind =>
      rw [Message.destroy_inline hMode hOps hFits]
      let after := h.destruct o.type (some (.inlineData m))
      have hAfterFind : ∀ place, after.objects.find place =
          Function.update h.objects.find (.inlineData m) none place := by
        intro place
        exact congrFun (Registry.find_ends hFind (by simp)) place
      have hElsewhere : ∀ {p}, (∃ n, Owns messages n p) → ∃ n, n ≠ m ∧ Owns messages n p := by
        rintro p ⟨n, hOwns⟩
        refine ⟨n, ?_, hOwns⟩
        rintro rfl
        obtain ⟨_, hSome, hPool, _⟩ := hOwns
        rw [hMsg] at hSome
        cases hSome
        simp [hMode] at hPool
      apply sound.change after (sound.objects.ends _ _) sound.blocks
      · show (h.objects.ends _ _).strays + h.blocks.strays = 0
        rw [Registry.strays_ends hFind (by simp)]
        exact sound.strays
      · exact .of_vacant hAfter (by simp [hAfterFind])
      · intro n hn
        rw [hAfterFind, Function.update_of_ne (by simp [hn])]
      · intro n p _ _
        exact ⟨hAfter.not_pointsTo p, by rw [hAfterFind, Function.update_of_ne (by simp)], rfl⟩
      · intro p o' hBlock
        rw [hAfterFind, Function.update_of_ne (by simp)] at hBlock
        exact .inr (hElsewhere (sound.ownedObject hBlock))
      · intro p b hBlock
        exact .inr (hElsewhere (sound.ownedBlock hBlock))
  | @pool _ o p a hMode hOps hFits hPtr hAllocator hFind hBlock hFree =>
      rw [Message.destroy_pool hMode hOps hFits hPtr hAllocator]
      let after := (h.destruct o.type (some (.block p))).deallocate
        ⟨a, o.type.size, o.type.align⟩ (some (.block p))
      have hAfterFind : ∀ place, after.objects.find place =
          Function.update h.objects.find (.block p) none place := by
        intro place
        exact congrFun (Registry.find_ends hFind (by simp)) place
      have hAfterBlocks : ∀ k, after.blocks.find k = Function.update h.blocks.find p none k := by
        intro k
        exact congrFun (Registry.find_ends hBlock (by simp)) k
      have hOwn : Owns messages m p := ⟨msg, hMsg, hMode, hPtr⟩
      have hElsewhere : ∀ {k}, k ≠ p → (∃ n, Owns messages n k) → ∃ n, n ≠ m ∧ Owns messages n k := by
        rintro k hk ⟨n, hOwns⟩
        refine ⟨n, ?_, hOwns⟩
        rintro rfl
        obtain ⟨_, hSome, _, hPtr'⟩ := hOwns
        rw [hMsg] at hSome
        cases hSome
        rw [hPtr] at hPtr'
        exact hk (Option.some.inj hPtr').symm
      apply sound.change after (sound.objects.ends _ _) (sound.blocks.ends _ _)
      · show (h.objects.ends _ _).strays + (h.blocks.ends _ _).strays = 0
        rw [Registry.strays_ends hFind (by simp), Registry.strays_ends hBlock (by simp)]
        exact sound.strays
      · apply Holds.of_vacant hAfter
        rw [hAfterFind, Function.update_of_ne (by simp)]
        exact hFree
      · intro n _
        rw [hAfterFind, Function.update_of_ne (by simp)]
      · intro n k hn hOwns
        have hk : k ≠ p := by
          rintro rfl
          exact hn (sound.apart hOwns hOwn)
        rw [hAfterFind, hAfterBlocks, Function.update_of_ne (by simp [hk]), Function.update_of_ne hk]
        exact ⟨hAfter.not_pointsTo k, rfl, rfl⟩
      · intro k o' hLive
        have hk : k ≠ p := by
          rintro rfl
          simp [hAfterFind] at hLive
        rw [hAfterFind, Function.update_of_ne (by simp [hk])] at hLive
        exact .inr (hElsewhere hk (sound.ownedObject hLive))
      · intro k b hLive
        have hk : k ≠ p := by
          rintro rfl
          simp [hAfterBlocks] at hLive
        rw [hAfterBlocks, Function.update_of_ne hk] at hLive
        exact .inr (hElsewhere hk (sound.ownedBlock hLive))

/-- A message that carries nothing takes over what another one carries, which is left empty. -/
theorem takeOver (sound : Sound h messages held) {o : ω} (hne : m ≠ o)
    (hVacant : Vacant (messages m) (held m)) {other : Message} (hOther : messages o = some other)
    {carried : Option (Letter V)} (hCarried : held o = some carried) (ptr : Option Nat)
    {after : Heap ω V × Message × Message} (hAfter : Message.takeOver ptr other m o h = after) :
    Sound after.1 (Function.update (Function.update messages m (some after.2.1)) o (some after.2.2))
      (Function.update (Function.update held m (some carried)) o (some none)) := by
  subst hAfter
  have holds := sound.holds o
  rw [hOther, hCarried] at holds
  cases holds with
  | empty hMode hFree =>
      rw [Message.takeOver_empty hMode]
      have hMoved : Vacant (some { other with ptr := ptr }) (some (none : Option (Letter V))) := .empty hMode
      apply (sound.replace hVacant hMoved).replace
      · rw [Function.update_of_ne hne.symm, Function.update_of_ne hne.symm, hOther, hCarried]
        exact .empty hMode
      · exact .empty rfl
  | @inline _ payload hMode hOps hFits hFind =>
      rw [Message.takeOver_inline hMode hOps hFind]
      have hFirst := sound.construct_inline hVacant { other with ptr := ptr } hMode hOps hFits
      have hMsg : Function.update messages m (some { other with ptr := ptr }) o = some other := by
        rw [Function.update_of_ne hne.symm, hOther]
      have hDrained : Vacant (some other.drained) (some (none : Option (Letter V))) := .empty rfl
      have hSecond := hFirst.destroy hMsg hDrained
      rwa [Message.destroy_inline hMode hOps hFits] at hSecond
  | @pool _ payload p a hMode hOps hFits hPtr hAllocator hFind hBlock hFree =>
      rw [Message.takeOver_pool hMode]
      show Sound h (Function.update (Function.update messages m (some other)) o (some other.drained)) _
      have hDrained : ∀ k, ¬PointsTo (some other.drained) k := by
        rintro k ⟨_, hSome, hPool, _⟩
        cases hSome
        cases hPool
      have hOwns : ∀ n k, Owns (Function.update (Function.update messages m (some other)) o
          (some other.drained)) n k ↔ (n = m ∧ Owns messages o k) ∨ (n ≠ m ∧ n ≠ o ∧ Owns messages n k) := by
        intro n k
        by_cases hn : n = o
        · subst hn
          simp [owns_update_self, hDrained, hne.symm]
        · by_cases hm : n = m
          · subst hm
            rw [owns_update_of_ne hn, owns_update_self]
            simp [Owns, hOther]
          · simp [owns_update_of_ne hn, owns_update_of_ne hm, hn, hm]
      have hStill : ∀ {k}, (∃ n, Owns messages n k) → ∃ n, Owns (Function.update
          (Function.update messages m (some other)) o (some other.drained)) n k := by
        rintro k ⟨n, hOld⟩
        have hm : n ≠ m := by
          rintro rfl
          exact hVacant.not_pointsTo k hOld
        by_cases hn : n = o
        · subst hn
          exact ⟨m, (hOwns m k).mpr (.inl ⟨rfl, hOld⟩)⟩
        · exact ⟨n, (hOwns n k).mpr (.inr ⟨hm, hn, hOld⟩)⟩
      constructor
      case objects => exact sound.objects
      case blocks => exact sound.blocks
      case strays => exact sound.strays
      case holds =>
        intro n
        by_cases hn : n = o
        · subst hn
          simp only [Function.update_self]
          exact .empty rfl hFree
        · by_cases hm : n = m
          · subst hm
            simp only [Function.update_of_ne hn, Function.update_self]
            exact .pool hMode hOps hFits hPtr hAllocator hFind hBlock
              ((sound.holds n).free_of_vacant hVacant)
          · simp only [Function.update_of_ne hn, Function.update_of_ne hm]
            exact sound.holds n
      case apart =>
        intro n n' k hFirst hSecond
        rcases (hOwns n k).mp hFirst with ⟨rfl, hOld⟩ | ⟨_, hno, hOld⟩ <;>
          rcases (hOwns n' k).mp hSecond with ⟨rfl, hOld'⟩ | ⟨_, hno', hOld'⟩
        · rfl
        · exact absurd (sound.apart hOld' hOld) hno'
        · exact absurd (sound.apart hOld hOld') hno
        · exact sound.apart hOld hOld'
      case ownedObject => exact fun hLive => hStill (sound.ownedObject hLive)
      case ownedBlock => exact fun hLive => hStill (sound.ownedBlock hLive)

/-- `make` meeting no failure. -/
theorem make (sound : Sound h messages held) (hVacant : Vacant (messages m) (held m))
    {T : PayloadType} {source : Forwarded} {faults : Faults} (hServes : h.serves faults = true)
    (hFailing : T.failing source faults = false) (v : V) :
    ∃ msg, (Message.make T source v faults m h).2 = some msg ∧
      Sound (Message.make T source v faults m h).1 (Function.update messages m (some msg))
        (Function.update held m (some (some ⟨T.kId, ⟨T, v⟩⟩))) := by
  cases hFits : T.inlineFits with
  | true =>
      have hThrows : T.throwing source faults = false := by simpa [PayloadType.failing, hFits] using hFailing
      simp only [Message.make, hFits, hThrows, if_true, Bool.false_eq_true, if_false]
      exact ⟨_, rfl, sound.construct_inline hVacant ⟨T.kId, .inline, some T, none, none⟩
        (o := ⟨T, v⟩) rfl rfl hFits⟩
  | false =>
      cases hAllocation : faults.allocation with
      | null => simp [PayloadType.failing, hFits, hAllocation] at hFailing
      | throws => simp [PayloadType.failing, hFits, hAllocation] at hFailing
      | block p =>
          have hThrows : T.throwing source faults = false := by
            simpa [PayloadType.failing, hFits, hAllocation] using hFailing
          have hFresh : h.blocks.find p = none := by simpa [Heap.serves, hAllocation] using hServes
          simp only [Message.make, hFits, hAllocation, hThrows, Bool.false_eq_true, if_false]
          exact ⟨_, rfl, sound.construct_pool hVacant
            ⟨T.kId, .pool, some T, some defaultMemoryPool, some p⟩ (o := ⟨T, v⟩)
            rfl rfl hFits rfl rfl hFresh⟩

/-- What `clone` makes of what a message carries: nothing when it throws, an empty message
when there is nothing to copy or no copy constructor. -/
def copied (faults : Faults) : Option (Letter V) → Option (Option (Letter V))
  | none => some none
  | some letter =>
      if letter.payload.type.copyable then
        if letter.payload.type.failing .lvalue faults then none else some (some letter)
      else some none

/-- All that a call of `clone` can leave, by what the message carries. -/
inductive Cloned (h : Heap ω V) (m : ω) (faults : Faults) :
    Option (Letter V) → Heap ω V × Option Message → Prop where
  | empty : Cloned h m faults none (h, some {})
  | fixed {letter : Letter V} (hCopyable : letter.payload.type.copyable = false) :
      Cloned h m faults (some letter) (h, some {})
  | thrown {letter : Letter V} (hCopyable : letter.payload.type.copyable = true)
      (hFailing : letter.payload.type.failing .lvalue faults = true)
      (hLeaking : letter.payload.type.leaking faults = false) :
      Cloned h m faults (some letter) (h, none)
  | leaked {letter : Letter V} {p a : Nat} (hAllocation : faults.allocation = .block p)
      (hLeaking : letter.payload.type.leaking faults = true) : Cloned h m faults (some letter)
        (h.allocate p ⟨a, letter.payload.type.size, letter.payload.type.align⟩, none)
  | inline {letter : Letter V} (hCopyable : letter.payload.type.copyable = true)
      (hFailing : letter.payload.type.failing .lvalue faults = false)
      (hFits : letter.payload.type.inlineFits = true) : Cloned h m faults (some letter)
        (h.construct (.inlineData m) letter.payload,
          some ⟨letter.id, .inline, some letter.payload.type, none, none⟩)
  | pool {letter : Letter V} {p a : Nat} (hCopyable : letter.payload.type.copyable = true)
      (hFailing : letter.payload.type.failing .lvalue faults = false)
      (hFits : letter.payload.type.inlineFits = false) (hAllocation : faults.allocation = .block p) :
      Cloned h m faults (some letter)
        ((h.allocate p ⟨a, letter.payload.type.size, letter.payload.type.align⟩).construct (.block p)
          letter.payload, some ⟨letter.id, .pool, some letter.payload.type, some a, some p⟩)

theorem clone_cases {o : ω} {msg : Message} {carried : Option (Letter V)}
    (holds : Holds h o (some msg) (some carried)) (m : ω) (faults : Faults) :
    Cloned h m faults carried (msg.clone o faults m h) := by
  cases holds with
  | empty hMode hFree =>
      simp only [Message.clone, hMode]
      exact .empty
  | @inline _ payload hMode hOps hFits hFind =>
      have hPool : payload.type.isPool = false := by simp [PayloadType.isPool_eq, hFits]
      cases hCopyable : payload.type.copyable with
      | false =>
          simp only [Message.clone, hMode, hOps, opsFor, hPool, hCopyable, Bool.false_eq_true, if_false]
          exact .fixed hCopyable
      | true =>
          have hRead : h.read payload.type (some (.inlineData o)) = some payload.value := by
            simp [Heap.read, hFind]
          cases hThrows : faults.constructorThrows with
          | true =>
              simp only [Message.clone, hMode, hOps, opsFor, hPool, hCopyable, Message.data,
                Heap.copyTo, hRead, hThrows, Bool.false_eq_true, if_false, if_true, Message.destroy]
              exact .thrown hCopyable (by simp [PayloadType.failing, PayloadType.throwing, hFits, hThrows])
                (by simp [PayloadType.leaking, hFits])
          | false =>
              simp only [Message.clone, hMode, hOps, opsFor, hPool, hCopyable, Message.data,
                Heap.copyTo, hRead, hThrows, Bool.false_eq_true, if_false, if_true]
              exact .inline hCopyable
                (by simp [PayloadType.failing, PayloadType.throwing, hFits, hThrows]) hFits
  | @pool _ payload p a hMode hOps hFits hPtr hAllocator hFind hBlock hFree =>
      have hPool : payload.type.isPool = true := by simp [PayloadType.isPool_eq, hFits]
      cases hCopyable : payload.type.copyable with
      | false =>
          simp only [Message.clone, hMode, hOps, opsFor, hPool, hCopyable, Bool.false_eq_true,
            if_false, if_true]
          exact .fixed hCopyable
      | true =>
          cases hAllocation : faults.allocation with
          | null =>
              simp only [Message.clone, hMode, hOps, opsFor, hPool, hCopyable, cloneAllocate,
                hAllocation, if_true, Message.destroy]
              exact .thrown hCopyable (by simp [PayloadType.failing, hFits, hAllocation])
                (by simp [PayloadType.leaking, hAllocation])
          | throws =>
              simp only [Message.clone, hMode, hOps, opsFor, hPool, hCopyable, cloneAllocate,
                hAllocation, if_true, Message.destroy]
              exact .thrown hCopyable (by simp [PayloadType.failing, hFits, hAllocation])
                (by simp [PayloadType.leaking, hAllocation])
          | block k =>
              have hRead : (h.allocate k ⟨a, payload.type.size, payload.type.align⟩).read payload.type
                  (some (.block p)) = some payload.value := by
                show h.read payload.type (some (.block p)) = some payload.value
                simp [Heap.read, hFind]
              cases hThrows : faults.constructorThrows with
              | true =>
                  simp only [Message.clone, hMode, hOps, opsFor, hPool, hCopyable, cloneAllocate,
                    hAllocation, if_true, hAllocator, Option.getD_some, Message.data, reduceCtorEq,
                    if_false, hPtr, Option.map_some, Heap.copyTo, hRead, hThrows, Message.destroy]
                  exact .leaked hAllocation
                    (by simp [PayloadType.leaking, hFits, hCopyable, hThrows, hAllocation])
              | false =>
                  simp only [Message.clone, hMode, hOps, opsFor, hPool, hCopyable, cloneAllocate,
                    hAllocation, if_true, hAllocator, Option.getD_some, Message.data, reduceCtorEq,
                    if_false, hPtr, Option.map_some, Heap.copyTo, hRead, hThrows, Bool.false_eq_true]
                  exact .pool hCopyable
                    (by simp [PayloadType.failing, PayloadType.throwing, hFits, hThrows, hAllocation])
                    hFits hAllocation

omit [DecidableEq ω] in
/-- The failure that `clone` does not contain, by what the message carries. -/
theorem leaking_iff {o : ω} {msg : Message} {carried : Option (Letter V)}
    (holds : Holds h o (some msg) (some carried)) (faults : Faults) :
    (msg.mode ≠ .empty → ∀ T ∈ msg.ops, T.leaking faults = false) ↔
      ∀ letter, carried = some letter → letter.payload.type.leaking faults = false := by
  cases holds with
  | empty hMode => simp [hMode]
  | inline hMode hOps => simp [hMode, hOps]
  | pool hMode hOps => simp [hMode, hOps]

/-- `clone` without the failure that it does not contain. -/
theorem clone (sound : Sound h messages held) (hVacant : Vacant (messages m) (held m))
    {o : ω} {msg : Message} (hMsg : messages o = some msg) {carried : Option (Letter V)}
    (hCarried : held o = some carried) {faults : Faults} (hServes : h.serves faults = true)
    (hLeaking : msg.mode ≠ .empty → ∀ T ∈ msg.ops, T.leaking faults = false) :
    Sound (msg.clone o faults m h).1 (Function.update messages m (msg.clone o faults m h).2)
      (Function.update held m (copied faults carried)) := by
  have holds := sound.holds o
  rw [hMsg, hCarried] at holds
  have hOps := (leaking_iff holds faults).mp hLeaking
  have hCloned := clone_cases holds m faults
  generalize msg.clone o faults m h = result at hCloned
  cases hCloned with
  | empty => exact sound.replace hVacant (.empty rfl)
  | fixed hCopyable =>
      simp only [copied, hCopyable, Bool.false_eq_true, if_false]
      exact sound.replace hVacant (.empty rfl)
  | thrown hCopyable hFailing _ =>
      simp only [copied, hCopyable, hFailing, if_true]
      exact sound.replace hVacant .absent
  | @leaked letter p a hAllocation hLeaked =>
      rw [hOps letter rfl] at hLeaked
      cases hLeaked
  | @inline letter hCopyable hFailing hFits =>
      simp only [copied, hCopyable, hFailing, Bool.false_eq_true, if_true, if_false]
      exact sound.construct_inline hVacant ⟨letter.id, .inline, some letter.payload.type, none, none⟩
        rfl rfl hFits
  | @pool letter p a hCopyable hFailing hFits hAllocation =>
      have hFresh : h.blocks.find p = none := by simpa [Heap.serves, hAllocation] using hServes
      simp only [copied, hCopyable, hFailing, Bool.false_eq_true, if_true, if_false]
      exact sound.construct_pool hVacant ⟨letter.id, .pool, some letter.payload.type, some a, some p⟩
        rfl rfl hFits rfl rfl hFresh

end Sound

end Messages
