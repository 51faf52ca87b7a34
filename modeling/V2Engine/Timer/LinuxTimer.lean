import V2Engine.Interleaving.Calls
import V2Engine.Timer.TimerBase

/-! `LinuxTimer`: whether the descriptor of the timers is armed. Calls take no time: what
passes between reading the clock and setting the descriptor is not counted. -/
namespace Timer

open Interleaving

/-- The `it_value` of an `itimerspec`. -/
structure TimeSpec where
  sec : Nat := 0
  nsec : Nat := 0
  deriving DecidableEq

/-- `armed` is the instant at which the descriptor expires, or has expired and was not read.
`passing` are the ids a pass has collected, while it is in progress. -/
structure LinuxTimer where
  base : TimerBase
  armed : Option Nat
  time : Nat
  passing : Option (List Nat)

namespace LinuxTimer

def started (time : Nat) : LinuxTimer := ⟨.constructed, none, time, none⟩

variable (t : LinuxTimer)

/-- `timerfd_settime`, with the clock at `time`. -/
def settime (time : Nat) (spec : TimeSpec) : Option Nat :=
  if spec = {} then none else some (time + spec.sec * 1000000000 + spec.nsec)

/-- The `it_value` for the entry at the top. -/
def specOf (b : TimerBase) (now : Nat) : TimeSpec :=
  if b.hasLiveTop then
    let ns : Int := b.nextExpiry - now
    if ns < 0 then { nsec := 1 }
    else { sec := (ns / 1000000000).toNat, nsec := (ns % 1000000000).toNat }
  else {}

def scheduleNextTimer (now : Nat) : LinuxTimer :=
  let base := t.base.purgeDeadEntries
  { t with base := base, armed := settime t.time (specOf base now) }

def add (delayMs : Nat) (repeating : Bool) : LinuxTimer :=
  let added := t.base.add t.time delayMs repeating
  let t := { t with base := added.2.2 }
  if added.2.1 then t.scheduleNextTimer t.time else t

def cancel (id : Nat) : LinuxTimer := { t with base := t.base.cancel id }

/-- An expiry that is read leaves the descriptor disarmed. -/
def onWake : LinuxTimer := { t with armed := t.armed.filter fun deadline => t.time < deadline }

/-- `handleTimerEvent` up to its callbacks. -/
def expire : LinuxTimer :=
  let t := t.onWake
  let collected := t.base.collectExpired t.time
  { t with base := collected.2, passing := some collected.1 }

/-- `handleTimerEvent` after its callbacks. -/
def finish (ready : List Nat) : LinuxTimer :=
  { t with base := t.base.reschedule ready, passing := none }.scheduleNextTimer t.time

inductive Event where
  | tick (ns : Nat)
  | add (delayMs : Nat) (repeating : Bool)
  | cancel (id : Nat)
  | expire
  | finish

/-- The event loop makes one pass at a time; `add` and `cancel` may come in between. -/
def step : Event → LinuxTimer → Option LinuxTimer
  | .tick ns, t => some { t with time := t.time + ns }
  | .add delayMs repeating, t => some (t.add delayMs repeating)
  | .cancel id, t => some (t.cancel id)
  | .expire, t => if t.passing.isNone then some t.expire else none
  | .finish, t => t.passing.map t.finish

/-- A deadline that is not too late for what is due at `due`. -/
def Early (time deadline due : Nat) : Prop :=
  deadline ≤ due ∨ (due ≤ time ∧ deadline ≤ time + 1)

/-- Whatever live timer is pending, the descriptor expires no later than it is due. -/
def Armed : Prop :=
  ∀ id node, t.base.find id = some node →
    ∃ deadline, t.armed = some deadline ∧ Early t.time deadline node.expiry

/-- The live timers as the end of the pass leaves them. -/
def pending (ready : List Nat) : List TimerNode :=
  (List.range t.base.nextId).filterMap fun id =>
    if id ∈ ready then (t.base.find id).bind TimerNode.renewed else t.base.find id

/-- No timer comes first that is due at this very instant: outside a pass none is added
with no delay before anything in the heap is due, and none is the first one at the end of a
pass. -/
def keepsArmed : Event → Prop
  | .add delayMs _ => t.passing = none → delayMs = 0 → ∃ d ∈ t.base.dues, d ≤ t.time
  | .finish => ∀ ready, t.passing = some ready → ∀ node ∈ t.pending ready, node.expiry = t.time →
      ∃ other ∈ t.pending ready, other.expiry < t.time
  | _ => True

instance (event : Event) : Decidable (t.keepsArmed event) := by
  cases event
  case add => exact inferInstanceAs (Decidable (_ → _))
  case finish =>
    unfold keepsArmed
    cases t.passing with
    | none => exact .isTrue nofun
    | some ready =>
      exact decidable_of_iff (∀ node ∈ t.pending ready, node.expiry = t.time →
        ∃ other ∈ t.pending ready, other.expiry < t.time)
        ⟨fun h ready' h' => Option.some.inj h' ▸ h, fun h => h ready rfl⟩
  all_goals exact .isTrue trivial

section Arming

variable {t : LinuxTimer}

theorem Early.later {time deadline due due' : Nat} (h : Early time deadline due)
    (hLater : due ≤ due') : Early time deadline due' := by
  unfold Early at h ⊢
  omega

theorem Early.tick {time deadline due : Nat} (h : Early time deadline due) (ns : Nat) :
    Early (time + ns) deadline due := by
  unfold Early at h ⊢
  omega

/-- The descriptor is set for the first entry, unless that is due at this very instant. -/
theorem settime_early {b : TimerBase} {time due : Nat} (hTop : b.hasLiveTop = true)
    (hNow : b.nextExpiry ≠ time) (hDue : b.nextExpiry ≤ due) :
    ∃ deadline, settime time (specOf b time) = some deadline ∧ Early time deadline due := by
  rw [specOf, if_pos hTop]
  by_cases hPast : (b.nextExpiry : Int) - time < 0
  · simp only [if_pos hPast]
    refine ⟨time + 1, rfl, ?_⟩
    unfold Early
    omega
  · simp only [if_neg hPast]
    refine ⟨b.nextExpiry, ?_, .inl hDue⟩
    rw [settime, if_neg]
    · show some (time + ((b.nextExpiry - time : Int) / 1000000000).toNat * 1000000000
        + ((b.nextExpiry - time : Int) % 1000000000).toNat) = some b.nextExpiry
      congr 1
      omega
    · rw [TimeSpec.mk.injEq]
      omega

structure Inv (t : LinuxTimer) : Prop where
  sound : t.base.Sound (t.passing.getD [])
  timely : t.passing = none → ∀ d ∈ t.base.dues, ∃ deadline, t.armed = some deadline ∧
    Early t.time deadline d

theorem Inv.armed (inv : t.Inv) (hFree : t.passing = none) : t.Armed := by
  intro id node hFind
  have sound := inv.sound
  rw [hFree] at sound
  exact inv.timely hFree _ (sound.due_mem hFind List.not_mem_nil)

theorem inv_started (time : Nat) : (started time).Inv := ⟨TimerBase.constructed_sound, nofun⟩

/-- After `scheduleNextTimer` the descriptor is in time for all that waits. -/
theorem scheduleNextTimer_inv {ready : List Nat} (sound : t.base.Sound ready)
    (hReady : t.passing.getD [] = ready)
    (hNow : t.passing = none → ∀ id node, id ∉ ready → t.base.find id = some node →
      node.expiry = t.time → ∃ id' other, id' ∉ ready ∧ t.base.find id' = some other ∧
        other.expiry < t.time) : (t.scheduleNextTimer t.time).Inv := by
  obtain ⟨purged, hFind, hTop, _⟩ := sound.purge
  refine ⟨hReady ▸ purged, fun hFree d hDue => ?_⟩
  replace hDue : d ∈ t.base.purgeDeadEntries.dues := hDue
  have hLive : t.base.purgeDeadEntries.hasLiveTop = true := by
    apply hTop.resolve_left
    intro hNone
    rw [hNone] at hDue
    cases hDue
  apply settime_early hLive _ (purged.nextExpiry_le hDue)
  intro hSame
  obtain ⟨id, node, hWaits, hNode, hExpiry⟩ := purged.find_top hLive
  rw [hFind] at hNode
  obtain ⟨id', other, hWaits', hOther, hBefore⟩ := hNow hFree id node hWaits hNode (hExpiry.trans hSame)
  have hLe := purged.nextExpiry_le (purged.due_mem ((hFind id').trans hOther) hWaits')
  omega

theorem Inv.add (inv : t.Inv) {delayMs : Nat} {repeating : Bool}
    (hKeeps : t.keepsArmed (.add delayMs repeating)) : (t.add delayMs repeating).Inv := by
  obtain ⟨hSound, hFind, _, hDues, hNeed⟩ := inv.sound.add t.time delayMs repeating
  unfold LinuxTimer.add
  by_cases h : (t.base.add t.time delayMs repeating).2.1 = true
  · simp only [if_pos h]
    have hFirst := hNeed.mp h
    -- The new timer is the first one, and is not due yet.
    refine scheduleNextTimer_inv hSound rfl fun hFree id node hWaits hNode hNow => ?_
    have hDue := hDues.mem_iff.mp (hSound.due_mem hNode hWaits)
    have hDelay : delayMs ≠ 0 := by
      intro hZero
      obtain ⟨d, hd, hPast⟩ := hKeeps hFree hZero
      have := hFirst d hd
      omega
    replace hNow : node.expiry = t.time := hNow
    unfold TimerBase.nsOfMs at hDue hFirst
    rcases List.mem_cons.mp hDue with hNew | hOld
    · omega
    · have := hFirst _ hOld
      omega
  · simp only [if_neg h]
    refine ⟨hSound, fun hFree d hd => ?_⟩
    rcases List.mem_cons.mp (hDues.mem_iff.mp hd) with rfl | hOld
    · have hSome : ∃ d ∈ t.base.dues, d ≤ t.time + TimerBase.nsOfMs delayMs := by
        by_contra hNone
        exact h (hNeed.mpr fun d hd => Nat.lt_of_not_le fun hLe => hNone ⟨d, hd, hLe⟩)
      obtain ⟨d, hd, hLe⟩ := hSome
      obtain ⟨deadline, hArmed, hEarly⟩ := inv.timely hFree d hd
      exact ⟨deadline, hArmed, hEarly.later hLe⟩
    · exact inv.timely hFree d hOld

theorem Inv.finish (inv : t.Inv) {ready : List Nat} (hPassing : t.passing = some ready)
    (hKeeps : t.keepsArmed .finish) : (t.finish ready).Inv := by
  have sound := inv.sound
  rw [hPassing] at sound
  obtain ⟨hSound, hNext, hFind⟩ := TimerBase.reschedule_spec ready t.base sound
  have hPending : ∀ node, node ∈ t.pending ready ↔ ∃ id, (t.base.reschedule ready).find id = some node := by
    intro node
    rw [pending, List.mem_filterMap]
    constructor
    · rintro ⟨id, _, hNode⟩
      exact ⟨id, (hFind id).trans hNode⟩
    · rintro ⟨id, hNode⟩
      refine ⟨id, List.mem_range.mpr ?_, (hFind id).symm.trans hNode⟩
      rw [← hNext]
      exact hSound.lt_of_find hNode
  apply scheduleNextTimer_inv hSound rfl
  intro _ id node _ hNode hNow
  obtain ⟨other, hOther, hBefore⟩ :=
    hKeeps ready hPassing node ((hPending node).mpr ⟨id, hNode⟩) hNow
  obtain ⟨id', hFound⟩ := (hPending other).mp hOther
  exact ⟨id', other, List.not_mem_nil, hFound, hBefore⟩

theorem Inv.step (inv : t.Inv) {event : Event} {t' : LinuxTimer} (hKeeps : t.keepsArmed event)
    (h : step event t = some t') : t'.Inv := by
  cases event with
  | tick ns =>
      cases h
      refine ⟨inv.sound, fun hFree d hd => ?_⟩
      obtain ⟨deadline, hArmed, hEarly⟩ := inv.timely hFree d hd
      exact ⟨deadline, hArmed, hEarly.tick ns⟩
  | add delayMs repeating =>
      cases h
      exact inv.add hKeeps
  | cancel id =>
      cases h
      obtain ⟨hSound, _, hDues⟩ := inv.sound.cancel id
      exact ⟨hSound, fun hFree d hd => inv.timely hFree d (hDues hd)⟩
  | expire =>
      simp only [LinuxTimer.step] at h
      split_ifs at h with hNone
      cases h
      have sound := inv.sound
      rw [Option.isNone_iff_eq_none.mp hNone] at sound
      obtain ⟨collected, _, _, _⟩ := sound.collected t.time
      exact ⟨collected, nofun⟩
  | finish =>
      obtain ⟨ready, hPassing, rfl⟩ := Option.map_eq_some_iff.mp h
      exact inv.finish hPassing hKeeps

end Arming

/-- A pass at 2 ms delivers a repeating timer, and ends 1 ns later. -/
def afterPass : LinuxTimer :=
  (Calls.replay step keepsArmed (started 0)
    [.add 2 true, .add 5 false, .tick 2000000, .expire, .tick 1, .finish]).get (by decide +kernel)

/-- A timer without delay leaves the descriptor disarmed. -/
def afterNoDelay : LinuxTimer := (started 0).add 0 false

end LinuxTimer

end Timer
