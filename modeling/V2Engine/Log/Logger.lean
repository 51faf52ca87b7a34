import V2Engine.Interleaving.Commuting
import V2Engine.Interleaving.Program
import V2Engine.Text.Split
import Mathlib.Data.UInt
import Mathlib.Tactic.SplitIfs

/-! The log (core/common/log). A thread collects its records in a buffer of its own and
writes them out together, under `mutex_`, to `stderr` and to the log file. -/
namespace Logger

open Interleaving Text

inductive LogLevel where
  | verbose
  | debug
  | info
  | warn
  | error
  | fatal
  deriving DecidableEq

def LogLevel.value : LogLevel → Nat
  | .verbose => 0
  | .debug => 1
  | .info => 2
  | .warn => 3
  | .error => 4
  | .fatal => 5

def LogLevel.tag : LogLevel → Str
  | .verbose => "\x1b[90m[VERBOSE]\x1b[0m ".toList
  | .debug => "\x1b[37m[DEBUG]\x1b[0m ".toList
  | .info => "\x1b[36m[INFO]\x1b[0m ".toList
  | .warn => "\x1b[33m[WARN]\x1b[0m ".toList
  | .error => "\x1b[31m[ERROR]\x1b[0m ".toList
  | .fatal => "\x1b[91m[FATAL]\x1b[0m ".toList

/-- The arguments of `log`, and the time as it is formatted. -/
structure Entry where
  level : LogLevel
  now : Str
  file : Str
  line : Int
  func : Str
  msg : Str

def Entry.text (e : Entry) : Str :=
  '[' :: e.now ++ ']' :: e.level.tag ++ e.file ++ ':' :: (toString e.line).toList ++ " (".toList ++
    e.func ++ ") ".toList ++ e.msg ++ ['\n']

/-- What one `fwrite` to `stderr` wrote: a buffer, or the text given to `logBlock`. -/
inductive Block where
  | buffer (data : Str)
  | given (text : Str)

def Block.text : Block → Str
  | .buffer data => data
  | .given text => text

def Block.buffer? : Block → Option Str
  | .buffer data => some data
  | .given _ => none

variable {τ : Type*}

/-- `stderr` and the log file are what has been written to them, the log file since it was
opened. The last two fields are history: every write to `stderr`, and how many of them came
before the log file was opened. -/
structure Shared (τ : Type*) where
  level : LogLevel
  mutex : Option τ
  stderr : Str
  logFile : Option Str
  blocks : List (τ × Block)
  openedAt : Nat

def Shared.constructed : Shared τ := ⟨.info, none, [], none, [], 0⟩

/-- What `mutex_` is locked for: `setLogFile` with a path, and whether `fopen` succeeds. -/
inductive Job where
  | flushBuffer
  | logBlock (text : Str)
  | setLogFile (path : Str) (opens : Bool)

/-- Where a thread stands. `clears` says that the buffer is cleared after the writing. -/
inductive Pc where
  | idle
  | locking (job : Job)
  | writing (job : Job)
  | copying (text : Str) (clears : Bool)
  | unlocking
  | exited

/-- `data` is the thread's `gBuf`, `leaving` says that its destructor runs, and `logged` has
the texts of all that the thread has logged. -/
structure Local where
  data : Str
  leaving : Bool
  pc : Pc
  logged : List Str

def Local.start : Local := ⟨[], false, .idle, []⟩

inductive Choice where
  | log (e : Entry)
  | flushBuffer
  | logBlock (text : Str)
  | setLogFile (path : Str) (opens : Bool)
  | setLevel (level : LogLevel)
  | exit
  | go

/-- `static_cast<size_t>(flushBufferSize_)`, which makes a negative number a large one. -/
def limit (flushBufferSize : Int32) : Nat := (UInt64.ofInt flushBufferSize.toInt).toNat

/-- The buffer is written out once it has grown to the limit. -/
def Local.append (flushBufferSize : Int32) (l : Local) (text : Str) : Local :=
  { l with
    data := l.data ++ text
    logged := l.logged ++ [text]
    pc := if limit flushBufferSize ≤ (l.data ++ text).length then .locking .flushBuffer else .idle }

def Shared.write (s : Shared τ) (t : τ) (block : Block) : Shared τ :=
  { s with stderr := s.stderr ++ block.text, blocks := s.blocks ++ [(t, block)] }

def step (flushBufferSize : Int32) : Program τ (Shared τ) Local Choice
  | t, s, l, choice =>
    match l.pc, choice with
    | .idle, .log e =>
        if e.level.value < s.level.value then some (s, l)
        else some (s, l.append flushBufferSize e.text)
    | .idle, .flushBuffer => some (s, { l with pc := .locking .flushBuffer })
    | .idle, .logBlock text => some (s, { l with pc := .locking (.logBlock text) })
    | .idle, .setLogFile path opens => some (s, { l with pc := .locking (.setLogFile path opens) })
    | .idle, .setLevel level => some ({ s with level := level }, l)
    -- the destructor of `gBuf`
    | .idle, .exit =>
        some (s, if l.data = [] then { l with pc := .exited }
          else { l with leaving := true, pc := .locking .flushBuffer })
    | .locking job, .go =>
        if s.mutex = none then some ({ s with mutex := some t }, { l with pc := .writing job })
        else none
    | .writing .flushBuffer, .go =>
        some (s.write t (.buffer l.data), { l with pc := .copying l.data true })
    | .writing (.logBlock text), .go =>
        some (s.write t (.given text), { l with pc := .copying text false })
    | .writing (.setLogFile path opens), .go =>
        some ({ s with
          logFile := if path = [] then none else if opens then some [] else none
          openedAt := s.blocks.length }, { l with pc := .unlocking })
    | .copying text clears, .go =>
        some ({ s with logFile := s.logFile.map (· ++ text) },
          { l with data := if clears then [] else l.data, pc := .unlocking })
    | .unlocking, .go =>
        some ({ s with mutex := none }, { l with pc := if l.leaving then .exited else .idle })
    | _, _ => none

variable [DecidableEq τ]

def initial : Config τ (Shared τ) Local := ⟨.constructed, fun _ => .start⟩

/-- The states that any threads come to. -/
abbrev Reachable (flushBufferSize : Int32) (c : Config τ (Shared τ) Local) : Prop :=
  Reach (step flushBufferSize) (· = initial) anyStep c

/-- What has been written, one write after the other. -/
def texts (blocks : List (τ × Block)) : Str := blocks.flatMap fun entry => entry.2.text

/-- The buffers that a thread has written out. -/
def written (t : τ) (s : Shared τ) : List Str := (ofThread t s.blocks).filterMap Block.buffer?

/-- What the logger promises its callers. -/
structure Faithful (flushBufferSize : Int32) (c : Config τ (Shared τ) Local) : Prop where
  stderr_eq : c.shared.stderr = texts c.shared.blocks
  whole : ∀ t, ∃ (parts : List (List Str)) (rest : List Str),
    (c.here t).logged = parts.flatten ++ rest ∧
    written t c.shared = parts.map List.flatten ∧
      ((∀ text clears, (c.here t).pc ≠ .copying text clears) → (c.here t).data = rest.flatten)
  copied : c.shared.mutex = none → ∀ contents, c.shared.logFile = some contents →
    contents = texts (c.shared.blocks.drop c.shared.openedAt)
  short : ∀ t, (c.here t).pc = .idle →
    (c.here t).data = [] ∨ (c.here t).data.length < limit flushBufferSize
  gone : ∀ t, (c.here t).pc = .exited → (c.here t).data = []

/-- Everything a step does. -/
inductive Effect (flushBufferSize : Int32) (t : τ) (s : Shared τ) (l : Local) :
    Shared τ → Local → Prop where
  | stays (level : LogLevel) (hPc : l.pc = .idle) :
      Effect flushBufferSize t s l { s with level := level } l
  | logs (text : Str) (hPc : l.pc = .idle) :
      Effect flushBufferSize t s l s (l.append flushBufferSize text)
  | asks (job : Job) (hPc : l.pc = .idle) :
      Effect flushBufferSize t s l s { l with pc := .locking job }
  | exits (hPc : l.pc = .idle) (hData : l.data = []) :
      Effect flushBufferSize t s l s { l with pc := .exited }
  | leaves (hPc : l.pc = .idle) :
      Effect flushBufferSize t s l s { l with leaving := true, pc := .locking .flushBuffer }
  | locks (job : Job) (hPc : l.pc = .locking job) (hFree : s.mutex = none) :
      Effect flushBufferSize t s l { s with mutex := some t } { l with pc := .writing job }
  | flushes (hPc : l.pc = .writing .flushBuffer) :
      Effect flushBufferSize t s l (s.write t (.buffer l.data)) { l with pc := .copying l.data true }
  | writes (text : Str) (hPc : l.pc = .writing (.logBlock text)) :
      Effect flushBufferSize t s l (s.write t (.given text)) { l with pc := .copying text false }
  | opens (path : Str) (opens : Bool) (hPc : l.pc = .writing (.setLogFile path opens))
      (logFile : Option Str) (hEmpty : ∀ contents, logFile = some contents → contents = []) :
      Effect flushBufferSize t s l { s with logFile := logFile, openedAt := s.blocks.length }
        { l with pc := .unlocking }
  | copies (text : Str) (clears : Bool) (hPc : l.pc = .copying text clears) :
      Effect flushBufferSize t s l { s with logFile := s.logFile.map (· ++ text) }
        { l with data := if clears then [] else l.data, pc := .unlocking }
  | unlocks (hPc : l.pc = .unlocking) :
      Effect flushBufferSize t s l { s with mutex := none }
        { l with pc := if l.leaving then .exited else .idle }

section Steps

variable {flushBufferSize : Int32} {t : τ} {s s' : Shared τ} {l l' : Local} {choice : Choice}

omit [DecidableEq τ] in
theorem step_effect (h : step flushBufferSize t s l choice = some (s', l')) :
    Effect flushBufferSize t s l s' l' := by
  obtain ⟨data, leaving, pc, logged⟩ := l
  cases pc <;> cases choice <;> simp only [step, reduceCtorEq] at h
  case idle.log e =>
    split_ifs at h <;> cases h
    · exact .stays s.level rfl
    · exact .logs _ rfl
  case idle.exit =>
    split_ifs at h with hData <;> cases h
    · exact .exits rfl hData
    · exact .leaves rfl
  case idle.setLevel level =>
    cases h
    exact .stays _ rfl
  case locking.go job =>
    split_ifs at h with hFree
    cases h
    exact .locks _ rfl hFree
  case writing.go job =>
    cases job with
    | flushBuffer =>
        cases h
        exact .flushes rfl
    | logBlock text =>
        cases h
        exact .writes _ rfl
    | setLogFile path opens =>
        cases h
        refine .opens path opens rfl _ fun contents hContents => ?_
        split_ifs at hContents
        cases hContents
        rfl
  case copying.go text clears =>
    cases h
    exact .copies _ _ rfl
  case unlocking.go =>
    cases h
    exact .unlocks rfl
  all_goals
    cases h
    exact .asks _ rfl

/-- The thread holds the lock. -/
def Pc.inside : Pc → Bool
  | .writing _ | .copying .. | .unlocking => true
  | _ => false

/-- The buffer has room for the next record. -/
def Short (flushBufferSize : Int32) (l : Local) : Prop :=
  l.data = [] ∨ l.data.length < limit flushBufferSize

/-- How full the buffer is. It may be full on the way to being cleared. -/
def Tidy (flushBufferSize : Int32) (l : Local) : Prop :=
  match l.pc with
  | .locking .flushBuffer | .writing .flushBuffer | .copying _ true => True
  | .exited => l.data = []
  | .unlocking => Short flushBufferSize l ∧ (l.leaving = true → l.data = [])
  | _ => Short flushBufferSize l ∧ l.leaving = false

omit [DecidableEq τ] in
theorem Effect.tidy (tidy : Tidy flushBufferSize l) (effect : Effect flushBufferSize t s l s' l') :
    Tidy flushBufferSize l' := by
  cases effect with
  | stays level hPc => exact tidy
  | logs text hPc =>
      rw [Tidy, hPc] at tidy
      unfold Tidy Local.append
      dsimp only
      split_ifs with hFull
      · trivial
      · exact ⟨.inr (Nat.lt_of_not_le hFull), tidy.2⟩
  | asks job hPc =>
      rw [Tidy, hPc] at tidy
      cases job with
      | flushBuffer => trivial
      | logBlock | setLogFile => exact tidy
  | exits hPc hData => exact hData
  | leaves hPc => trivial
  | locks job hPc hFree =>
      rw [Tidy, hPc] at tidy
      cases job with
      | flushBuffer => trivial
      | logBlock | setLogFile => exact tidy
  | flushes hPc => trivial
  | writes text hPc =>
      rw [Tidy, hPc] at tidy
      exact tidy
  | opens path opens hPc logFile hEmpty =>
      rw [Tidy, hPc] at tidy
      exact ⟨tidy.1, fun hLeaving => absurd (hLeaving.symm.trans tidy.2) nofun⟩
  | copies text clears hPc =>
      rw [Tidy, hPc] at tidy
      cases clears with
      | true => exact ⟨.inl rfl, fun _ => rfl⟩
      | false => exact ⟨tidy.1, fun hLeaving => absurd (hLeaving.symm.trans tidy.2) nofun⟩
  | unlocks hPc =>
      rw [Tidy, hPc] at tidy
      unfold Tidy
      dsimp only
      cases hLeaving : l.leaving with
      | true => exact tidy.2 hLeaving
      | false => exact ⟨tidy.1, rfl⟩

/-- What has been logged and not been written yet. -/
def unwritten (l : Local) : Str :=
  match l.pc with
  | .copying _ true => []
  | _ => l.data

/-- The buffers written out and the one in hand are all that was logged, and no record is
divided between two of them. -/
def Whole (t : τ) (s : Shared τ) (l : Local) : Prop :=
  ∃ (parts : List (List Str)) (rest : List Str), l.logged = parts.flatten ++ rest ∧
    written t s = parts.map List.flatten ∧ unwritten l = rest.flatten

theorem Whole.kept (whole : Whole t s l) (hLogged : l'.logged = l.logged)
    (hWritten : written t s' = written t s) (hUnwritten : unwritten l' = unwritten l) :
    Whole t s' l' := by
  unfold Whole at whole ⊢
  rwa [hLogged, hWritten, hUnwritten]

theorem written_write (u t : τ) (s : Shared τ) (block : Block) :
    written u (s.write t block) = written u s ++ if t = u then block.buffer?.toList else [] := by
  unfold written Shared.write
  dsimp only
  rw [ofThread_append, List.filterMap_append]
  split_ifs with hu
  · rw [hu, ofThread_self]
    cases block <;> rfl
  · rw [ofThread_of_ne hu]
    rfl

theorem Effect.whole (whole : Whole t s l) (effect : Effect flushBufferSize t s l s' l') :
    Whole t s' l' := by
  cases effect with
  | stays level hPc => exact whole
  | logs text hPc =>
      obtain ⟨parts, rest, hLogged, hWritten, hUnwritten⟩ := whole
      rw [unwritten, hPc] at hUnwritten
      refine ⟨parts, rest ++ [text], ?_, hWritten, ?_⟩
      · rw [← List.append_assoc, ← hLogged]
        rfl
      · unfold unwritten Local.append
        dsimp only
        rw [List.flatten_append, ← hUnwritten, List.flatten_singleton]
        split_ifs <;> rfl
  | asks job hPc | leaves hPc | exits hPc _ =>
      refine whole.kept rfl rfl ?_
      simp only [unwritten, hPc]
  | locks job hPc hFree =>
      refine whole.kept rfl rfl ?_
      simp only [unwritten, hPc]
  | flushes hPc =>
      obtain ⟨parts, rest, hLogged, hWritten, hUnwritten⟩ := whole
      rw [unwritten, hPc] at hUnwritten
      refine ⟨parts ++ [rest], [], ?_, ?_, rfl⟩
      · rw [List.flatten_append, List.flatten_singleton, List.append_nil, hLogged]
      · rw [written_write, if_pos rfl, hWritten, List.map_append, List.map_singleton,
          ← hUnwritten]
        rfl
  | writes text hPc =>
      refine whole.kept rfl ?_ ?_
      · rw [written_write, if_pos rfl]
        exact List.append_nil _
      · simp only [unwritten, hPc]
  | opens path opens hPc logFile hEmpty =>
      refine whole.kept rfl rfl ?_
      simp only [unwritten, hPc]
  | copies text clears hPc =>
      refine whole.kept rfl rfl ?_
      cases clears <;> simp only [unwritten, hPc] <;> rfl
  | unlocks hPc =>
      refine whole.kept rfl rfl ?_
      simp only [unwritten, hPc]
      cases l.leaving <;> rfl

/-- What a thread writes is not what another thread has written. -/
theorem Effect.written_other (effect : Effect flushBufferSize t s l s' l') {u : τ} (hu : u ≠ t) :
    written u s' = written u s := by
  cases effect with
  | flushes | writes =>
      rw [written_write, if_neg (Ne.symm hu), List.append_nil]
  | _ => rfl

omit [DecidableEq τ] in
/-- Nobody else comes to hold the lock, and the thread holds it while it is inside. -/
theorem Effect.mutex (effect : Effect flushBufferSize t s l s' l')
    (holds : l.pc.inside = true ↔ s.mutex = some t) :
    (l'.pc.inside = true ↔ s'.mutex = some t) ∧
      ∀ u, u ≠ t → (s'.mutex = some u ↔ s.mutex = some u) := by
  cases effect with
  | stays level hPc => exact ⟨holds, fun _ _ => Iff.rfl⟩
  | logs text hPc =>
      rw [hPc] at holds
      refine ⟨?_, fun _ _ => Iff.rfl⟩
      rw [← holds]
      unfold Local.append
      dsimp only
      split_ifs <;> rfl
  | asks job hPc | leaves hPc | exits hPc _ =>
      rw [hPc] at holds
      exact ⟨holds, fun _ _ => Iff.rfl⟩
  | locks job hPc hFree =>
      refine ⟨iff_of_true rfl rfl, fun u hu => ?_⟩
      rw [hFree]
      refine iff_of_false ?_ nofun
      intro h
      cases h
      exact hu rfl
  | flushes hPc | writes text hPc | opens path opens hPc logFile hEmpty | copies text clears hPc =>
      rw [hPc] at holds
      exact ⟨iff_of_true rfl (holds.mp rfl), fun _ _ => Iff.rfl⟩
  | unlocks hPc =>
      rw [hPc] at holds
      refine ⟨iff_of_false ?_ nofun, fun u hu => ?_⟩
      · cases l.leaving <;> simp [Pc.inside]
      · rw [holds.mp rfl]
        refine iff_of_false nofun ?_
        intro h
        cases h
        exact hu rfl

/-- What has been written since the log file was opened. -/
def Shared.fresh (s : Shared τ) : Str := texts (s.blocks.drop s.openedAt)

omit [DecidableEq τ] in
theorem texts_append (blocks more : List (τ × Block)) :
    texts (blocks ++ more) = texts blocks ++ texts more :=
  List.flatMap_append

omit [DecidableEq τ] in
theorem fresh_write (hOpened : s.openedAt ≤ s.blocks.length) (t : τ) (block : Block) :
    (s.write t block).fresh = s.fresh ++ block.text := by
  unfold Shared.fresh Shared.write
  dsimp only
  rw [List.drop_append_of_le_length hOpened, texts_append]
  simp [texts]

end Steps

section Runs

variable {flushBufferSize : Int32} {c : Config τ (Shared τ) Local}

structure Inv (flushBufferSize : Int32) (c : Config τ (Shared τ) Local) : Prop where
  tidy : ∀ t, Tidy flushBufferSize (c.here t)
  holds : ∀ t, (c.here t).pc.inside = true ↔ c.shared.mutex = some t
  stderr_eq : c.shared.stderr = texts c.shared.blocks
  opened : c.shared.openedAt ≤ c.shared.blocks.length
  whole : ∀ t, Whole t c.shared (c.here t)
  during : ∀ t text clears, (c.here t).pc = .copying text clears →
    ∀ contents, c.shared.logFile = some contents → contents ++ text = c.shared.fresh
  after : (∀ t text clears, (c.here t).pc ≠ .copying text clears) →
    ∀ contents, c.shared.logFile = some contents → contents = c.shared.fresh

theorem inv_initial : Inv flushBufferSize (initial : Config τ (Shared τ) Local) where
  tidy _ := ⟨.inl rfl, rfl⟩
  holds _ := iff_of_false nofun nofun
  stderr_eq := rfl
  opened := Nat.le_refl _
  whole _ := ⟨[], [], rfl, rfl, rfl⟩
  during _ _ _ h := by cases h
  after _ _ h := by cases h

/-- Only one thread is inside. -/
theorem Inv.alone (inv : Inv flushBufferSize c) {t u : τ} (ht : (c.here t).pc.inside = true)
    (hu : (c.here u).pc.inside = true) : u = t :=
  Option.some_injective _ (((inv.holds u).mp hu).symm.trans ((inv.holds t).mp ht))

/-- The parts of the invariant that every kind of step keeps in the same way. -/
theorem Inv.step_common (inv : Inv flushBufferSize c) {t : τ} {s' : Shared τ} {l' : Local}
    (effect : Effect flushBufferSize t c.shared (c.here t) s' l') :
    (∀ u, Tidy flushBufferSize (Function.update c.here t l' u)) ∧
      (∀ u, (Function.update c.here t l' u).pc.inside = true ↔ s'.mutex = some u) ∧
      ∀ u, Whole u s' (Function.update c.here t l' u) := by
  obtain ⟨hSelf, hOther⟩ := effect.mutex (inv.holds t)
  refine ⟨fun u => ?_, fun u => ?_, fun u => ?_⟩
  · by_cases hu : u = t
    · subst hu
      rw [Function.update_self]
      exact effect.tidy (inv.tidy u)
    · rw [Function.update_of_ne hu]
      exact inv.tidy u
  · by_cases hu : u = t
    · subst hu
      rw [Function.update_self]
      exact hSelf
    · rw [Function.update_of_ne hu, hOther u hu]
      exact inv.holds u
  · by_cases hu : u = t
    · subst hu
      rw [Function.update_self]
      exact effect.whole (inv.whole u)
    · rw [Function.update_of_ne hu]
      exact (inv.whole u).kept rfl (effect.written_other hu) rfl

/-- A step by which nobody begins or ends to copy. -/
theorem Inv.copying_kept (inv : Inv flushBufferSize c) {t : τ} (s' : Shared τ) (l' : Local)
    (hBefore : ∀ text clears, (c.here t).pc ≠ .copying text clears)
    (hAfter : ∀ text clears, l'.pc ≠ .copying text clears)
    (hLogFile : s'.logFile = c.shared.logFile) (hFresh : s'.fresh = c.shared.fresh) :
    (∀ u text clears, (Function.update c.here t l' u).pc = .copying text clears →
      ∀ contents, s'.logFile = some contents → contents ++ text = s'.fresh) ∧
    ((∀ u text clears, (Function.update c.here t l' u).pc ≠ .copying text clears) →
      ∀ contents, s'.logFile = some contents → contents = s'.fresh) := by
  rw [hLogFile, hFresh]
  refine ⟨fun u text clears hPc => ?_, fun hNone => inv.after fun u text clears hPc => ?_⟩
  · by_cases hu : u = t
    · subst hu
      rw [Function.update_self] at hPc
      exact absurd hPc (hAfter text clears)
    · rw [Function.update_of_ne hu] at hPc
      exact inv.during u text clears hPc
  · by_cases hu : u = t
    · subst hu
      exact hBefore text clears hPc
    · exact hNone u text clears (by rwa [Function.update_of_ne hu])

/-- A step of the thread that holds the lock, as far as it concerns the log file. -/
theorem Inv.copying_alone (inv : Inv flushBufferSize c) {t : τ} (s' : Shared τ) (l' : Local)
    (hInside : (c.here t).pc.inside = true)
    (hCopying : ∀ text clears, l'.pc = .copying text clears →
      ∀ contents, s'.logFile = some contents → contents ++ text = s'.fresh)
    (hDone : (∀ text clears, l'.pc ≠ .copying text clears) →
      ∀ contents, s'.logFile = some contents → contents = s'.fresh) :
    (∀ u text clears, (Function.update c.here t l' u).pc = .copying text clears →
      ∀ contents, s'.logFile = some contents → contents ++ text = s'.fresh) ∧
    ((∀ u text clears, (Function.update c.here t l' u).pc ≠ .copying text clears) →
      ∀ contents, s'.logFile = some contents → contents = s'.fresh) := by
  refine ⟨fun u text clears hPc => ?_, fun hNone => hDone fun text clears hPc => ?_⟩
  · by_cases hu : u = t
    · subst hu
      rw [Function.update_self] at hPc
      exact hCopying text clears hPc
    · rw [Function.update_of_ne hu] at hPc
      exact absurd (inv.alone hInside (by rw [hPc]; rfl)) hu
  · exact hNone t text clears (by rwa [Function.update_self])

/-- The holder of the lock finds the log file complete before it writes. -/
theorem Inv.complete (inv : Inv flushBufferSize c) {t : τ} (hInside : (c.here t).pc.inside = true)
    (hPc : ∀ text clears, (c.here t).pc ≠ .copying text clears) {contents : Str}
    (hContents : c.shared.logFile = some contents) : contents = c.shared.fresh := by
  refine inv.after (fun u text clears hCopying => ?_) contents hContents
  obtain rfl := inv.alone hInside (by rw [hCopying]; rfl : (c.here u).pc.inside = true)
  exact hPc text clears hCopying

/-- A write to `stderr`, after which the log file lacks the same text. -/
theorem Inv.writes (inv : Inv flushBufferSize c) {t : τ} (block : Block) (clears : Bool)
    (hInside : (c.here t).pc.inside = true)
    (hPc : ∀ text clears, (c.here t).pc ≠ .copying text clears)
    (hTidy : ∀ u, Tidy flushBufferSize
      (Function.update c.here t { c.here t with pc := .copying block.text clears } u))
    (hHolds : ∀ u, (Function.update c.here t
      { c.here t with pc := .copying block.text clears } u).pc.inside = true ↔
        (c.shared.write t block).mutex = some u)
    (hWhole : ∀ u, Whole u (c.shared.write t block)
      (Function.update c.here t { c.here t with pc := .copying block.text clears } u)) :
    Inv flushBufferSize ⟨c.shared.write t block,
      Function.update c.here t { c.here t with pc := .copying block.text clears }⟩ := by
  obtain ⟨hDuring, hAfter⟩ := inv.copying_alone (c.shared.write t block)
    { c.here t with pc := .copying block.text clears } hInside
    (fun _ _ hCopying contents hContents => by
      cases hCopying
      rw [inv.complete hInside hPc hContents, fresh_write inv.opened])
    (fun hNone => absurd rfl (hNone _ _))
  refine ⟨hTidy, hHolds, ?_, ?_, hWhole, hDuring, hAfter⟩
  · simp only [Shared.write, inv.stderr_eq, texts_append]
    simp [texts]
  · exact inv.opened.trans (by simp [Shared.write])

theorem Inv.step (inv : Inv flushBufferSize c) {t : τ} {s' : Shared τ} {l' : Local}
    (effect : Effect flushBufferSize t c.shared (c.here t) s' l') :
    Inv flushBufferSize ⟨s', Function.update c.here t l'⟩ := by
  obtain ⟨hTidy, hHolds, hWhole⟩ := inv.step_common effect
  have hQuiet : ∀ {pc : Pc}, (c.here t).pc = pc → (∀ text clears, pc ≠ .copying text clears) →
      ∀ text clears, (c.here t).pc ≠ .copying text clears := by
    rintro _ rfl h
    exact h
  cases effect with
  | stays level hPc =>
      obtain ⟨hDuring, hAfter⟩ := inv.copying_kept { c.shared with level := level } (c.here t)
        (hQuiet hPc nofun) (hQuiet hPc nofun) rfl rfl
      exact ⟨hTidy, hHolds, inv.stderr_eq, inv.opened, hWhole, hDuring, hAfter⟩
  | logs text hPc =>
      have hIdle : ∀ text' clears,
          ((c.here t).append flushBufferSize text).pc ≠ .copying text' clears := by
        intro text' clears
        unfold Local.append
        dsimp only
        split_ifs <;> nofun
      obtain ⟨hDuring, hAfter⟩ := inv.copying_kept c.shared _ (hQuiet hPc nofun) hIdle rfl rfl
      exact ⟨hTidy, hHolds, inv.stderr_eq, inv.opened, hWhole, hDuring, hAfter⟩
  | asks job hPc =>
      obtain ⟨hDuring, hAfter⟩ := inv.copying_kept c.shared { c.here t with pc := .locking job }
        (hQuiet hPc nofun) nofun rfl rfl
      exact ⟨hTidy, hHolds, inv.stderr_eq, inv.opened, hWhole, hDuring, hAfter⟩
  | exits hPc hData =>
      obtain ⟨hDuring, hAfter⟩ := inv.copying_kept c.shared { c.here t with pc := .exited }
        (hQuiet hPc nofun) nofun rfl rfl
      exact ⟨hTidy, hHolds, inv.stderr_eq, inv.opened, hWhole, hDuring, hAfter⟩
  | leaves hPc =>
      obtain ⟨hDuring, hAfter⟩ := inv.copying_kept c.shared
        { c.here t with leaving := true, pc := .locking .flushBuffer } (hQuiet hPc nofun) nofun rfl rfl
      exact ⟨hTidy, hHolds, inv.stderr_eq, inv.opened, hWhole, hDuring, hAfter⟩
  | locks job hPc hFree =>
      obtain ⟨hDuring, hAfter⟩ := inv.copying_kept { c.shared with mutex := some t }
        { c.here t with pc := .writing job } (hQuiet hPc nofun) nofun rfl rfl
      exact ⟨hTidy, hHolds, inv.stderr_eq, inv.opened, hWhole, hDuring, hAfter⟩
  | flushes hPc =>
      exact inv.writes (.buffer (c.here t).data) true (by rw [hPc]; rfl) (hQuiet hPc nofun) hTidy
        hHolds hWhole
  | writes text hPc =>
      exact inv.writes (.given text) false (by rw [hPc]; rfl) (hQuiet hPc nofun) hTidy hHolds hWhole
  | opens path opens hPc logFile hEmpty =>
      obtain ⟨hDuring, hAfter⟩ := inv.copying_alone
        { c.shared with logFile := logFile, openedAt := c.shared.blocks.length }
        { c.here t with pc := .unlocking } (by rw [hPc]; rfl) nofun
        (fun _ contents hContents => by
          rw [hEmpty contents hContents, Shared.fresh, List.drop_length]
          rfl)
      exact ⟨hTidy, hHolds, inv.stderr_eq, Nat.le_refl _, hWhole, hDuring, hAfter⟩
  | copies text clears hPc =>
      obtain ⟨hDuring, hAfter⟩ := inv.copying_alone
        { c.shared with logFile := c.shared.logFile.map (· ++ text) }
        { c.here t with data := if clears then [] else (c.here t).data, pc := .unlocking }
        (by rw [hPc]; rfl) nofun
        (fun _ contents hContents => by
          obtain ⟨before, hBefore, rfl⟩ := Option.map_eq_some_iff.mp hContents
          exact inv.during t text clears hPc before hBefore)
      exact ⟨hTidy, hHolds, inv.stderr_eq, inv.opened, hWhole, hDuring, hAfter⟩
  | unlocks hPc =>
      have hOut : ∀ text clears, (if (c.here t).leaving then Pc.exited else .idle) ≠
          .copying text clears := by
        intro text clears
        split_ifs <;> nofun
      obtain ⟨hDuring, hAfter⟩ := inv.copying_kept { c.shared with mutex := none }
        { c.here t with pc := if (c.here t).leaving then .exited else .idle }
        (hQuiet hPc nofun) hOut rfl rfl
      exact ⟨hTidy, hHolds, inv.stderr_eq, inv.opened, hWhole, hDuring, hAfter⟩

theorem inv (reach : Reachable flushBufferSize c) : Inv flushBufferSize c := by
  refine Reach.invariant (I := Inv flushBufferSize) ?_ ?_ reach
  · rintro c rfl
    exact inv_initial
  · intro c t choice s' l' _ inv _ hStep
    exact inv.step (step_effect hStep)

/-- Whatever the threads log, and whenever they are interrupted, every record that a thread
has logged is written to `stderr` once, whole and in the order of its thread, but for what is
in its buffer; the log file has the same; and the buffer stays below its limit and is empty
when its thread has exited. -/
theorem records_written (reach : Reachable flushBufferSize c) : Faithful flushBufferSize c where
  stderr_eq := (inv reach).stderr_eq
  whole t := by
    obtain ⟨parts, rest, hLogged, hWritten, hUnwritten⟩ := (inv reach).whole t
    refine ⟨parts, rest, hLogged, hWritten, fun hPc => ?_⟩
    rw [← hUnwritten]
    unfold unwritten
    split
    · exact absurd ‹_› (hPc _ _)
    · rfl
  copied hFree := by
    refine (inv reach).after fun t text clears hPc => ?_
    have hHolds := ((inv reach).holds t).mp (by rw [hPc]; rfl)
    rw [hFree] at hHolds
    cases hHolds
  short t hPc := by
    have tidy := (inv reach).tidy t
    rw [Tidy, hPc] at tidy
    exact tidy.1
  gone t hPc := by
    have tidy := (inv reach).tidy t
    rw [Tidy, hPc] at tidy
    exact tidy

end Runs

/-- Two threads log, one of them so much that its buffer is written out while the other one
opens a log file. -/
def twoThreads : List (Bool × Choice) :=
  let e : Entry := ⟨.warn, "now".toList, "f.cpp".toList, 7, "f".toList, "hello".toList⟩
  [(true, .log e), (false, .log { e with level := .debug }), (true, .log e), (true, .go),
    (false, .setLogFile "v2.log".toList true), (true, .go), (true, .go), (true, .go),
    (false, .go), (false, .go), (false, .go), (false, .log e), (false, .exit)] ++
  List.replicate 4 (false, .go)

def afterTwoThreads : Config Bool (Shared Bool) Local :=
  ((step 64).replay anyStep initial twoThreads).get (by decide)

theorem records_written_afterTwoThreads : Faithful 64 afterTwoThreads ∧
    (written true afterTwoThreads.shared).length = 1 ∧ (afterTwoThreads.here true).logged.length = 2 ∧
    afterTwoThreads.shared.logFile = some (written false afterTwoThreads.shared).flatten :=
  ⟨records_written (Reach.replay (.start rfl) (Option.some_get _).symm), by decide⟩

end Logger
