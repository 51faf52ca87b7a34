import V2Engine.Interleaving.Program
import V2Engine.Interleaving.Commuting
import Mathlib.Data.UInt
import Mathlib.Tactic.SplitIfs

/-! The counters of the engine (`core/perf/metrics`), which senders and workers write to
without a lock: `fetch_add` for the counts, and a loop around `compare_exchange_weak` for
the peaks. `enabled_` and the number of actors and workers are fixed while they run. -/
namespace Perf

open Interleaving

structure ActorMetrics where
  enqueued : UInt64
  processed : UInt64
  dropped : UInt64
  handleTimeNs : UInt64
  batches : UInt64
  deadLetters : UInt64
  peakDepth : UInt64
  deriving DecidableEq

structure WorkerMetrics where
  batches : UInt64
  busyTimeNs : UInt64
  idleTimeNs : UInt64
  messages : UInt64
  deriving DecidableEq

structure DispatcherMetrics where
  dispatchCount : UInt64
  acquireCount : UInt64
  deduplicated : UInt64
  stealCount : UInt64
  stealFailCount : UInt64
  readyQueuePeak : UInt64
  deriving DecidableEq

structure Metrics where
  enabled : Bool
  actors : List ActorMetrics
  workers : List WorkerMetrics
  dispatcher : DispatcherMetrics
  deriving DecidableEq

inductive ActorField where
  | enqueued
  | processed
  | dropped
  | handleTimeNs
  | batches
  | deadLetters
  | peakDepth
  deriving DecidableEq

inductive WorkerField where
  | batches
  | busyTimeNs
  | idleTimeNs
  | messages
  deriving DecidableEq

inductive DispatcherField where
  | dispatchCount
  | acquireCount
  | deduplicated
  | stealCount
  | stealFailCount
  | readyQueuePeak
  deriving DecidableEq

/-- One atomic variable. -/
inductive Cell where
  | actor (id : Nat) (field : ActorField)
  | worker (id : Nat) (field : WorkerField)
  | dispatcher (field : DispatcherField)
  deriving DecidableEq

def ActorMetrics.get (m : ActorMetrics) : ActorField → UInt64
  | .enqueued => m.enqueued
  | .processed => m.processed
  | .dropped => m.dropped
  | .handleTimeNs => m.handleTimeNs
  | .batches => m.batches
  | .deadLetters => m.deadLetters
  | .peakDepth => m.peakDepth

def ActorMetrics.set (m : ActorMetrics) (value : UInt64) : ActorField → ActorMetrics
  | .enqueued => { m with enqueued := value }
  | .processed => { m with processed := value }
  | .dropped => { m with dropped := value }
  | .handleTimeNs => { m with handleTimeNs := value }
  | .batches => { m with batches := value }
  | .deadLetters => { m with deadLetters := value }
  | .peakDepth => { m with peakDepth := value }

def WorkerMetrics.get (m : WorkerMetrics) : WorkerField → UInt64
  | .batches => m.batches
  | .busyTimeNs => m.busyTimeNs
  | .idleTimeNs => m.idleTimeNs
  | .messages => m.messages

def WorkerMetrics.set (m : WorkerMetrics) (value : UInt64) : WorkerField → WorkerMetrics
  | .batches => { m with batches := value }
  | .busyTimeNs => { m with busyTimeNs := value }
  | .idleTimeNs => { m with idleTimeNs := value }
  | .messages => { m with messages := value }

def DispatcherMetrics.get (m : DispatcherMetrics) : DispatcherField → UInt64
  | .dispatchCount => m.dispatchCount
  | .acquireCount => m.acquireCount
  | .deduplicated => m.deduplicated
  | .stealCount => m.stealCount
  | .stealFailCount => m.stealFailCount
  | .readyQueuePeak => m.readyQueuePeak

def DispatcherMetrics.set (m : DispatcherMetrics) (value : UInt64) :
    DispatcherField → DispatcherMetrics
  | .dispatchCount => { m with dispatchCount := value }
  | .acquireCount => { m with acquireCount := value }
  | .deduplicated => { m with deduplicated := value }
  | .stealCount => { m with stealCount := value }
  | .stealFailCount => { m with stealFailCount := value }
  | .readyQueuePeak => { m with readyQueuePeak := value }

/-- The variable is there. -/
def Metrics.Has (m : Metrics) : Cell → Prop
  | .actor id _ => id < m.actors.length
  | .worker id _ => id < m.workers.length
  | .dispatcher _ => True

/-- `load`. -/
def Metrics.load (m : Metrics) : Cell → UInt64
  | .actor id field => (m.actors[id]?.map fun a => a.get field).getD 0
  | .worker id field => (m.workers[id]?.map fun w => w.get field).getD 0
  | .dispatcher field => m.dispatcher.get field

/-- `store`. -/
def Metrics.store (m : Metrics) (value : UInt64) : Cell → Metrics
  | .actor id field => { m with actors := m.actors.modify id fun a => a.set value field }
  | .worker id field => { m with workers := m.workers.modify id fun w => w.set value field }
  | .dispatcher field => { m with dispatcher := m.dispatcher.set value field }

/-- Whether the variable is written to by `updatePeak`. -/
def Cell.isPeak : Cell → Bool
  | .actor _ .peakDepth | .dispatcher .readyQueuePeak => true
  | _ => false

/-- What a recording function does to one variable: `fetch_add`, or `updatePeak`. -/
structure Access where
  cell : Cell
  amount : UInt64
  deriving DecidableEq

/-- What the variable holds afterwards. -/
def Access.result (access : Access) (value : UInt64) : UInt64 :=
  if access.cell.isPeak then if access.amount > value then access.amount else value
  else value + access.amount

def Metrics.recordEnqueue (m : Metrics) (actorId : Nat) (success : Bool) (depth : UInt64) :
    List Access :=
  if !m.enabled then []
  else if actorId ≥ m.actors.length then []
  else if success then [⟨.actor actorId .enqueued, 1⟩, ⟨.actor actorId .peakDepth, depth⟩]
  else [⟨.actor actorId .dropped, 1⟩]

def Metrics.recordHandle (m : Metrics) (actorId : Nat) (count durationNs : UInt64) : List Access :=
  if !m.enabled then []
  else if actorId ≥ m.actors.length then []
  else [⟨.actor actorId .processed, count⟩, ⟨.actor actorId .handleTimeNs, durationNs⟩,
    ⟨.actor actorId .batches, 1⟩]

def Metrics.recordBatch (m : Metrics) (workerId : Int) (msgCount busyNs idleNs : UInt64) :
    List Access :=
  if !m.enabled then []
  else if workerId < 0 ∨ workerId.toNat ≥ m.workers.length then []
  else
    let id := workerId.toNat
    [⟨.worker id .batches, 1⟩, ⟨.worker id .busyTimeNs, busyNs⟩, ⟨.worker id .idleTimeNs, idleNs⟩,
      ⟨.worker id .messages, msgCount⟩]

def Metrics.recordDispatch (m : Metrics) (deduped : Bool) (queueDepth : UInt64) : List Access :=
  if !m.enabled then []
  else
    ⟨.dispatcher .dispatchCount, 1⟩ ::
      ((if deduped then [⟨.dispatcher .deduplicated, 1⟩] else []) ++
        [⟨.dispatcher .readyQueuePeak, queueDepth⟩])

def Metrics.recordAcquire (m : Metrics) : List Access :=
  if !m.enabled then [] else [⟨.dispatcher .acquireCount, 1⟩]

def Metrics.recordDeadLetter (m : Metrics) (actorId : Nat) : List Access :=
  if !m.enabled then []
  else if actorId ≥ m.actors.length then []
  else [⟨.actor actorId .deadLetters, 1⟩]

def Metrics.recordSteal (m : Metrics) (success : Bool) : List Access :=
  if !m.enabled then []
  else if success then [⟨.dispatcher .stealCount, 1⟩] else [⟨.dispatcher .stealFailCount, 1⟩]

/-- A call of a recording function. -/
inductive Call where
  | recordEnqueue (actorId : Nat) (success : Bool) (depth : UInt64)
  | recordHandle (actorId : Nat) (count durationNs : UInt64)
  | recordBatch (workerId : Int) (msgCount busyNs idleNs : UInt64)
  | recordDispatch (deduped : Bool) (queueDepth : UInt64)
  | recordAcquire
  | recordDeadLetter (actorId : Nat)
  | recordSteal (success : Bool)
  deriving DecidableEq

def Metrics.accesses (m : Metrics) : Call → List Access
  | .recordEnqueue actorId success depth => m.recordEnqueue actorId success depth
  | .recordHandle actorId count durationNs => m.recordHandle actorId count durationNs
  | .recordBatch workerId msgCount busyNs idleNs => m.recordBatch workerId msgCount busyNs idleNs
  | .recordDispatch deduped queueDepth => m.recordDispatch deduped queueDepth
  | .recordAcquire => m.recordAcquire
  | .recordDeadLetter actorId => m.recordDeadLetter actorId
  | .recordSteal success => m.recordSteal success

/-- An access that nothing comes in between of. -/
def Metrics.apply (m : Metrics) (access : Access) : Metrics :=
  m.store (access.result (m.load access.cell)) access.cell

/-- A call that runs alone. -/
def Metrics.record (m : Metrics) (call : Call) : Metrics := (m.accesses call).foldl Metrics.apply m

section Fields

@[simp] theorem ActorMetrics.get_set (m : ActorMetrics) (v : UInt64) (f g : ActorField) :
    (m.set v f).get g = if f = g then v else m.get g := by
  cases f <;> cases g <;> rfl

@[simp] theorem ActorMetrics.set_get (m : ActorMetrics) (f : ActorField) :
    m.set (m.get f) f = m := by
  cases f <;> rfl

theorem ActorMetrics.set_comm (m : ActorMetrics) (v w : UInt64) {f g : ActorField} (h : f ≠ g) :
    (m.set v f).set w g = (m.set w g).set v f := by
  cases f <;> cases g <;> first | rfl | exact absurd rfl h

@[simp] theorem ActorMetrics.set_set (m : ActorMetrics) (v w : UInt64) (f : ActorField) :
    (m.set v f).set w f = m.set w f := by
  cases f <;> rfl

@[simp] theorem WorkerMetrics.get_set (m : WorkerMetrics) (v : UInt64) (f g : WorkerField) :
    (m.set v f).get g = if f = g then v else m.get g := by
  cases f <;> cases g <;> rfl

@[simp] theorem WorkerMetrics.set_get (m : WorkerMetrics) (f : WorkerField) :
    m.set (m.get f) f = m := by
  cases f <;> rfl

theorem WorkerMetrics.set_comm (m : WorkerMetrics) (v w : UInt64) {f g : WorkerField}
    (h : f ≠ g) : (m.set v f).set w g = (m.set w g).set v f := by
  cases f <;> cases g <;> first | rfl | exact absurd rfl h

@[simp] theorem WorkerMetrics.set_set (m : WorkerMetrics) (v w : UInt64) (f : WorkerField) :
    (m.set v f).set w f = m.set w f := by
  cases f <;> rfl

@[simp] theorem DispatcherMetrics.get_set (m : DispatcherMetrics) (v : UInt64)
    (f g : DispatcherField) : (m.set v f).get g = if f = g then v else m.get g := by
  cases f <;> cases g <;> rfl

@[simp] theorem DispatcherMetrics.set_get (m : DispatcherMetrics) (f : DispatcherField) :
    m.set (m.get f) f = m := by
  cases f <;> rfl

theorem DispatcherMetrics.set_comm (m : DispatcherMetrics) (v w : UInt64) {f g : DispatcherField}
    (h : f ≠ g) : (m.set v f).set w g = (m.set w g).set v f := by
  cases f <;> cases g <;> first | rfl | exact absurd rfl h

@[simp] theorem DispatcherMetrics.set_set (m : DispatcherMetrics) (v w : UInt64)
    (f : DispatcherField) : (m.set v f).set w f = m.set w f := by
  cases f <;> rfl

end Fields

section Memory

variable (m : Metrics) (v w : UInt64) {c d : Cell}

theorem Metrics.load_store (h : m.Has c) : (m.store v c).load c = v := by
  cases c with
  | actor id field =>
      simp [Metrics.load, Metrics.store, List.getElem?_eq_getElem h]
  | worker id field =>
      simp [Metrics.load, Metrics.store, List.getElem?_eq_getElem h]
  | dispatcher field => simp [Metrics.load, Metrics.store]

theorem Metrics.load_store_of_ne (h : c ≠ d) : (m.store v c).load d = m.load d := by
  cases c with
  | actor id field =>
      cases d with
      | actor id' field' =>
          by_cases hId : id = id'
          · have hField : field ≠ field' := fun hField => h (by rw [hId, hField])
            simp only [Metrics.load, Metrics.store, List.getElem?_modify, hId, if_true]
            cases m.actors[id']? <;> simp [hField]
          · simp [Metrics.load, Metrics.store, hId]
      | worker | dispatcher => rfl
  | worker id field =>
      cases d with
      | worker id' field' =>
          by_cases hId : id = id'
          · have hField : field ≠ field' := fun hField => h (by rw [hId, hField])
            simp only [Metrics.load, Metrics.store, List.getElem?_modify, hId, if_true]
            cases m.workers[id']? <;> simp [hField]
          · simp [Metrics.load, Metrics.store, hId]
      | actor | dispatcher => rfl
  | dispatcher field =>
      cases d with
      | dispatcher field' =>
          have hField : field ≠ field' := fun hField => h (by rw [hField])
          simp [Metrics.load, Metrics.store, hField]
      | actor | worker => rfl

theorem Metrics.store_store : (m.store v c).store w c = m.store w c := by
  cases c <;> simp [Metrics.store, List.modify_modify_eq, Function.comp_def]

theorem Metrics.store_comm (h : c ≠ d) : (m.store v c).store w d = (m.store w d).store v c := by
  cases c with
  | actor id field =>
      cases d with
      | actor id' field' =>
          by_cases hId : id = id'
          · subst hId
            have hField : field ≠ field' := fun hField => h (by rw [hField])
            simp [Metrics.store, List.modify_modify_eq, Function.comp_def,
              ActorMetrics.set_comm _ v w hField]
          · simp [Metrics.store, List.modify_modify_ne _ _ _ hId]
      | worker | dispatcher => rfl
  | worker id field =>
      cases d with
      | worker id' field' =>
          by_cases hId : id = id'
          · subst hId
            have hField : field ≠ field' := fun hField => h (by rw [hField])
            simp [Metrics.store, List.modify_modify_eq, Function.comp_def,
              WorkerMetrics.set_comm _ v w hField]
          · simp [Metrics.store, List.modify_modify_ne _ _ _ hId]
      | actor | dispatcher => rfl
  | dispatcher field =>
      cases d with
      | dispatcher field' =>
          have hField : field ≠ field' := fun hField => h (by rw [hField])
          simp [Metrics.store, DispatcherMetrics.set_comm _ v w hField]
      | actor | worker => rfl

theorem Metrics.store_load : m.store (m.load c) c = m := by
  cases c with
  | actor id field =>
      have hSame : (m.actors.modify id fun a => a.set (m.load (.actor id field)) field) = m.actors := by
        refine List.ext_getElem? fun i => ?_
        rw [List.getElem?_modify]
        by_cases hId : id = i
        · subst hId
          cases h : m.actors[id]? <;> simp [Metrics.load, h]
        · simp [hId]
      simp only [Metrics.store, hSame]
  | worker id field =>
      have hSame : (m.workers.modify id fun w => w.set (m.load (.worker id field)) field) =
          m.workers := by
        refine List.ext_getElem? fun i => ?_
        rw [List.getElem?_modify]
        by_cases hId : id = i
        · subst hId
          cases h : m.workers[id]? <;> simp [Metrics.load, h]
        · simp [hId]
      simp only [Metrics.store, hSame]
  | dispatcher field => simp [Metrics.store, Metrics.load]

theorem Metrics.store_of_not_has (h : ¬m.Has c) : m.store v c = m := by
  cases c with
  | actor id field => simp [Metrics.store, List.modify_eq_self (Nat.le_of_not_lt h)]
  | worker id field => simp [Metrics.store, List.modify_eq_self (Nat.le_of_not_lt h)]
  | dispatcher field => exact absurd trivial h

theorem Metrics.store_shape : (m.store v c).enabled = m.enabled ∧
    (m.store v c).actors.length = m.actors.length ∧
    (m.store v c).workers.length = m.workers.length := by
  cases c <;> simp [Metrics.store]

end Memory

theorem Access.result_comm {a b : Access} (h : a.cell = b.cell) (value : UInt64) :
    b.result (a.result value) = a.result (b.result value) := by
  unfold Access.result
  rw [h]
  by_cases hPeak : b.cell.isPeak
  · simp only [hPeak, if_true]
    grind
  · simp only [hPeak, Bool.false_eq_true, if_false]
    rw [UInt64.add_assoc, UInt64.add_comm a.amount, ← UInt64.add_assoc]

theorem Metrics.apply_comm (m : Metrics) (a b : Access) : (m.apply a).apply b = (m.apply b).apply a := by
  unfold Metrics.apply
  by_cases hCell : a.cell = b.cell
  · by_cases hHas : m.Has b.cell
    · rw [hCell, m.load_store _ hHas, m.load_store _ hHas, m.store_store, m.store_store,
        Access.result_comm hCell]
    · rw [hCell, m.store_of_not_has _ hHas, m.store_of_not_has _ hHas, m.store_of_not_has _ hHas]
  · rw [m.load_store_of_ne _ hCell, m.load_store_of_ne _ (Ne.symm hCell), m.store_comm _ _ hCell]

instance : RightCommutative Metrics.apply := ⟨Metrics.apply_comm⟩

/-- Which accesses a call makes depends on nothing that is written. -/
theorem Metrics.accesses_store (m : Metrics) (value : UInt64) (c : Cell) (call : Call) :
    (m.store value c).accesses call = m.accesses call := by
  obtain ⟨hEnabled, hActors, hWorkers⟩ := m.store_shape value (c := c)
  cases call <;> simp only [Metrics.accesses, Metrics.recordEnqueue, Metrics.recordHandle,
    Metrics.recordBatch, Metrics.recordDispatch, Metrics.recordAcquire, Metrics.recordDeadLetter,
    Metrics.recordSteal, hEnabled, hActors, hWorkers]

theorem Metrics.accesses_foldl (m : Metrics) (accesses : List Access) (call : Call) :
    (accesses.foldl Metrics.apply m).accesses call = m.accesses call := by
  induction accesses generalizing m with
  | nil => rfl
  | cons access rest ih => rw [List.foldl_cons, ih, Metrics.apply, m.accesses_store]

/-- Calls one after the other make all their accesses one after the other. -/
theorem Metrics.foldl_record (m : Metrics) (calls : List Call) :
    calls.foldl Metrics.record m = (calls.flatMap m.accesses).foldl Metrics.apply m := by
  induction calls generalizing m with
  | nil => rfl
  | cons call rest ih =>
      have hSame : (m.record call).accesses = m.accesses :=
        funext fun other => m.accesses_foldl (m.accesses call) other
      rw [List.foldl_cons, ih, hSame, List.flatMap_cons, List.foldl_append]
      rfl

/-- The counters, and which calls were begun and which accesses made, in their order. No step
reads the last two. -/
structure Shared (π : Type*) where
  metrics : Metrics
  calls : List (π × Call)
  done : List (π × Access)

/-- A recording thread: the accesses its call has left, and in `updatePeak` the value `p` that
was loaded last, with how often the variable was found to have changed since. -/
structure Recorder where
  todo : List Access
  loaded : Option UInt64
  retries : Nat
  deriving DecidableEq

def Recorder.idle : Recorder := ⟨[], none, 0⟩

/-- `spurious` is the failure `compare_exchange_weak` may report although the variable still
holds the expected value. -/
inductive Choice where
  | call (call : Call)
  | go
  | spurious

variable {π : Type*}

/-- The access is made. -/
def Shared.finish (s : Shared π) (t : π) (metrics : Metrics) (access : Access) : Shared π :=
  { s with metrics := metrics, done := s.done ++ [(t, access)] }

/-- `while(current > p)`. -/
def Shared.compare (s : Shared π) (t : π) (access : Access) (rest : List Access) (p : UInt64)
    (retries : Nat) : Shared π × Recorder :=
  if access.amount > p then (s, ⟨access :: rest, some p, retries⟩)
  else (s.finish t s.metrics access, ⟨rest, none, 0⟩)

/-- One atomic access of one thread. -/
def step : Program π (Shared π) Recorder Choice
  | t, s, ⟨[], _, _⟩, .call call =>
      some ({ s with calls := s.calls ++ [(t, call)] }, ⟨s.metrics.accesses call, none, 0⟩)
  | t, s, ⟨access :: rest, none, _⟩, .go =>
      let value := s.metrics.load access.cell
      if access.cell.isPeak then some (s.compare t access rest value 0)
      else
        some (s.finish t (s.metrics.store (value + access.amount) access.cell) access,
          ⟨rest, none, 0⟩)
  | t, s, ⟨access :: rest, some p, retries⟩, .go =>
      let value := s.metrics.load access.cell
      if value = p then
        some (s.finish t (s.metrics.store access.amount access.cell) access, ⟨rest, none, 0⟩)
      else some (s.compare t access rest value (retries + 1))
  | t, s, ⟨access :: rest, some p, retries⟩, .spurious =>
      let value := s.metrics.load access.cell
      if value = p then some (s.compare t access rest value retries) else none
  | _, _, _, _ => none

def initial (start : Metrics) : Config π (Shared π) Recorder := ⟨⟨start, [], []⟩, fun _ => .idle⟩

/-- What a thread in `updatePeak` knows: it has to write, the peak has not gone down, and each
change it was beaten by has raised it. -/
def Raising (metrics : Metrics) (l : Recorder) : Prop :=
  ∀ p ∈ l.loaded, ∃ access rest, l.todo = access :: rest ∧ access.cell.isPeak = true ∧
    p < access.amount ∧ p ≤ metrics.load access.cell ∧ l.retries ≤ p.toNat

/-- The counters are what the accesses made so far come to, and each thread has made its own in
their order. -/
structure Recorded [DecidableEq π] (start : Metrics) (c : Config π (Shared π) Recorder) : Prop where
  exact : c.shared.metrics = (c.shared.done.map Prod.snd).foldl Metrics.apply start
  once : ∀ t, (ofThread t c.shared.calls).flatMap start.accesses =
    ofThread t c.shared.done ++ (c.here t).todo
  raising : ∀ t, Raising c.shared.metrics (c.here t)

/-- Everything a step does: it begins a call, it makes the next access, or it has loaded a peak
that has to be raised. -/
inductive Effect (t : π) (s : Shared π) (l : Recorder) : Shared π → Recorder → Prop where
  | call (call : Call) (h : l.todo = []) :
      Effect t s l { s with calls := s.calls ++ [(t, call)] } ⟨s.metrics.accesses call, none, 0⟩
  | finish (access : Access) (rest : List Access) (h : l.todo = access :: rest) :
      Effect t s l (s.finish t (s.metrics.apply access) access) ⟨rest, none, 0⟩
  | load (access : Access) (rest : List Access) (retries : Nat) (h : l.todo = access :: rest)
      (hPeak : access.cell.isPeak = true) (hMore : s.metrics.load access.cell < access.amount)
      (hRetries : retries ≤ (s.metrics.load access.cell).toNat) :
      Effect t s l s ⟨access :: rest, some (s.metrics.load access.cell), retries⟩

section Steps

variable {t : π} {s s' : Shared π} {l l' : Recorder} {choice : Choice}

/-- A peak that is high enough is left as it is. -/
theorem Metrics.apply_of_le (m : Metrics) {access : Access} (hPeak : access.cell.isPeak = true)
    (h : ¬access.amount > m.load access.cell) : m.apply access = m := by
  rw [Metrics.apply, Access.result, if_pos hPeak, if_neg h, m.store_load]

/-- One that is not is raised. -/
theorem Metrics.apply_of_lt (m : Metrics) {access : Access} (hPeak : access.cell.isPeak = true)
    (h : access.amount > m.load access.cell) :
    m.apply access = m.store access.amount access.cell := by
  rw [Metrics.apply, Access.result, if_pos hPeak, if_pos h]

theorem compare_effect {access : Access} {rest : List Access} {retries : Nat}
    (hTodo : l.todo = access :: rest) (hPeak : access.cell.isPeak = true)
    (hRetries : retries ≤ (s.metrics.load access.cell).toNat)
    (h : s.compare t access rest (s.metrics.load access.cell) retries = (s', l')) :
    Effect t s l s' l' := by
  unfold Shared.compare at h
  split at h
  · cases h
    exact .load access rest retries hTodo hPeak ‹_› hRetries
  · cases h
    have hFinish := Effect.finish (t := t) (s := s) access rest hTodo
    rwa [s.metrics.apply_of_le hPeak ‹_›] at hFinish

theorem step_effect (raising : Raising s.metrics l) (h : step t s l choice = some (s', l')) :
    Effect t s l s' l' := by
  obtain ⟨todo, loaded, retries⟩ := l
  cases todo with
  | nil =>
      cases loaded <;> cases choice <;> simp only [step, reduceCtorEq] at h
      all_goals
        cases h
        exact .call _ rfl
  | cons access rest =>
      cases loaded with
      | none =>
          cases choice <;> simp only [step, reduceCtorEq] at h
          split at h
          · exact compare_effect rfl ‹_› (Nat.zero_le _) (Option.some.inj h)
          · rename_i hPeak
            cases h
            have hFinish := Effect.finish (t := t) (s := s) (l := ⟨access :: rest, none, retries⟩)
              access rest rfl
            rwa [Metrics.apply, Access.result, if_neg hPeak] at hFinish
      | some p =>
          obtain ⟨access', rest', hTodo, hPeak, hMore, hLoaded, hRetries⟩ := raising p rfl
          cases hTodo
          cases choice <;> simp only [step, reduceCtorEq] at h
          · split at h
            · rename_i hSame
              cases h
              have hFinish := Effect.finish (t := t) (s := s) (l := ⟨access :: rest, some p, retries⟩)
                access rest rfl
              rwa [s.metrics.apply_of_lt hPeak (by rw [hSame]; exact hMore)] at hFinish
            · rename_i hChanged
              refine compare_effect rfl hPeak ?_ (Option.some.inj h)
              have hLess : p.toNat < (s.metrics.load access.cell).toNat := by
                refine lt_of_le_of_ne hLoaded fun hEq => hChanged ?_
                exact (UInt64.toNat_inj.mp hEq).symm
              simp only at hRetries
              omega
          · split at h
            · rename_i hSame
              exact compare_effect rfl hPeak (by rw [hSame]; exact hRetries) (Option.some.inj h)
            · cases h

end Steps

/-- A peak does not go down, whatever is recorded. -/
theorem Metrics.load_le_apply (m : Metrics) (access : Access) {c : Cell} (hPeak : c.isPeak = true) :
    m.load c ≤ (m.apply access).load c := by
  by_cases hCell : access.cell = c
  · by_cases hHas : m.Has c
    · rw [Metrics.apply, hCell, m.load_store _ hHas, Access.result, hCell, if_pos hPeak]
      grind
    · refine UInt64.le_of_eq ?_
      rw [Metrics.apply, hCell, m.store_of_not_has _ hHas]
  · refine UInt64.le_of_eq ?_
    rw [Metrics.apply, m.load_store_of_ne _ hCell]

variable [DecidableEq π] {start : Metrics} {c : Config π (Shared π) Recorder}

/-- The states that threads come to which record whatever they like. -/
def Reachable (start : Metrics) (c : Config π (Shared π) Recorder) : Prop :=
  Reach step (· = initial start) anyStep c

theorem Recorded.accesses (recorded : Recorded start c) :
    c.shared.metrics.accesses = start.accesses := by
  funext call
  rw [recorded.exact, Metrics.accesses_foldl]

/-- A thread's own facts and those of the others are kept by what one step does. -/
theorem Recorded.step (recorded : Recorded start c) {t : π} {shared : Shared π} {place : Recorder}
    (effect : Effect t c.shared (c.here t) shared place) :
    Recorded start ⟨shared, Function.update c.here t place⟩ := by
  cases effect with
  | call call hTodo =>
      refine ⟨recorded.exact, fun u => ?_, fun u => ?_⟩
      · by_cases hu : u = t
        · subst hu
          have hBefore := recorded.once u
          rw [hTodo, List.append_nil] at hBefore
          simp [hBefore, recorded.accesses]
        · simpa [Function.update_of_ne hu, ofThread_of_ne (Ne.symm hu)] using recorded.once u
      · by_cases hu : u = t
        · subst hu
          simp [Raising]
        · simpa [Function.update_of_ne hu] using recorded.raising u
  | finish access rest hTodo =>
      refine ⟨?_, fun u => ?_, fun u => ?_⟩
      · simp [Shared.finish, recorded.exact]
      · by_cases hu : u = t
        · subst hu
          have hBefore := recorded.once u
          rw [hTodo] at hBefore
          simp [Shared.finish, hBefore]
        · simpa [Shared.finish, Function.update_of_ne hu, ofThread_of_ne (Ne.symm hu)] using
            recorded.once u
      · by_cases hu : u = t
        · subst hu
          simp [Raising]
        · intro p hp
          simp only [Function.update_of_ne hu] at hp ⊢
          obtain ⟨access', rest', hTodo', hPeak, hMore, hLoaded, hRetries⟩ := recorded.raising u p hp
          exact ⟨access', rest', hTodo', hPeak, hMore,
            UInt64.le_trans hLoaded (c.shared.metrics.load_le_apply access hPeak), hRetries⟩
  | load access rest retries hTodo hPeak hMore hRetries =>
      refine ⟨recorded.exact, fun u => ?_, fun u => ?_⟩
      · by_cases hu : u = t
        · subst hu
          simpa [hTodo] using recorded.once u
        · simpa [Function.update_of_ne hu] using recorded.once u
      · by_cases hu : u = t
        · subst hu
          intro p hp
          simp only [Function.update_self, Option.mem_some_iff] at hp ⊢
          subst hp
          exact ⟨access, rest, rfl, hPeak, hMore, UInt64.le_refl _, hRetries⟩
        · simpa [Function.update_of_ne hu] using recorded.raising u

theorem Reachable.recorded (reach : Reachable start c) : Recorded start c := by
  refine Reach.invariant (I := Recorded start) ?_ ?_ reach
  · rintro c rfl
    exact ⟨rfl, fun t => rfl, fun t p hp => by cases hp⟩
  · intro c t choice shared place _ recorded _ hLocal
    exact recorded.step (step_effect (recorded.raising t) hLocal)

/-- What the readers of the counters are promised. -/
structure Tallied (start : Metrics) (c : Config π (Shared π) Recorder) : Prop where
  exact : c.shared.metrics = (c.shared.done.map Prod.snd).foldl Metrics.apply start
  once : ∀ t, (ofThread t c.shared.calls).flatMap start.accesses =
    ofThread t c.shared.done ++ (c.here t).todo
  settled : (∀ t, (c.here t).todo = []) →
    c.shared.metrics = (c.shared.calls.map Prod.snd).foldl Metrics.record start
  retries : ∀ t p, (c.here t).loaded = some p → ∃ access rest, (c.here t).todo = access :: rest ∧
    (c.here t).retries ≤ p.toNat ∧ p < access.amount

/-- Recorded concurrently, no count and no peak is lost: when no call is under way, the
counters are what the same calls come to one after the other. And no thread is kept in
`updatePeak` by others for longer than the peak takes to grow past its own value. -/
theorem records (reach : Reachable start c) : Tallied start c := by
  have recorded := reach.recorded
  refine ⟨recorded.exact, recorded.once, fun hIdle => ?_, fun t p hp => ?_⟩
  · have hOwed : ∀ t, ofThread t c.shared.done = ofThread t
        (c.shared.calls.flatMap fun call => (start.accesses call.2).map (call.1, ·)) := by
      intro t
      rw [ofThread_flatMap, recorded.once, hIdle, List.append_nil]
    rw [recorded.exact, foldl_eq_of_ofThread hOwed, Metrics.foldl_record]
    simp [List.map_flatMap, List.flatMap_map, Function.comp_def]
  · obtain ⟨access, rest, hTodo, _, hMore, _, hRetries⟩ := recorded.raising t p hp
    exact ⟨access, rest, hTodo, hRetries, hMore⟩

def twoActors : Metrics :=
  ⟨true, List.replicate 2 ⟨0, 0, 0, 0, 0, 0, 0⟩, [], ⟨0, 0, 0, 0, 0, 0⟩⟩

/-- Both threads have loaded the peak when the first raises it; the other has to try again. -/
def raisedTwice : List (Fin 2 × Choice) :=
  [(0, .call (.recordEnqueue 1 true 3)), (1, .call (.recordEnqueue 1 true 5)), (0, .go), (1, .go),
    (0, .go), (1, .go), (0, .go), (1, .go), (1, .go)]

def afterRaised : Config (Fin 2) (Shared (Fin 2)) Recorder :=
  (step.replay anyStep (initial twoActors) raisedTwice).get (by decide)

theorem records_afterRaised : Tallied twoActors afterRaised ∧
    afterRaised.shared.metrics.actors.map (fun a => (a.enqueued, a.peakDepth)) = [(0, 0), (2, 5)] :=
  ⟨records (Reach.replay (.start rfl) (Option.some_get _).symm), by decide⟩

end Perf
