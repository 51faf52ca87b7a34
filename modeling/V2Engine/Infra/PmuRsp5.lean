import Mathlib.Data.List.DropRight
import Mathlib.Data.UInt
import V2Engine.Numbers.Numerals
import V2Engine.Service.MonitorData

/-! The sensors of the board, read from the output of `vcgencmd`
(infra/hal/pmu/pmu_rsp5.cpp). -/
namespace Infra

open Numbers Text
open Service (PmuData)

/-- What is left to the implementation of the language. -/
structure Platform where
  /-- `strtof` sets `ERANGE` for a magnitude below the normal ones. -/
  reportsTiny : ℚ → Bool
  /-- The conversion of a `float` whose integral part is no `uint64_t`. -/
  unrepresentable : Single → UInt64

namespace Platform

variable (platform : Platform)

def toUInt64 : Single → UInt64
  | .finite negative magnitude =>
      if (if negative then magnitude < 1 else magnitude < 2 ^ 64) then
        if negative then 0 else UInt64.ofNat ⌊magnitude⌋₊
      else platform.unrepresentable (.finite negative magnitude)
  | other => platform.unrepresentable other

end Platform

namespace PmuRsp5

def Ok : Int := 0

/-- `fgets` with room for so many characters: the line, and what is left of the stream. -/
def fgets : ℕ → Str → Str × Str
  | 0, stream => ([], stream)
  | _ + 1, [] => ([], [])
  | room + 1, c :: stream =>
      if c = '\n' then ([c], stream)
      else (c :: (fgets room stream).1, (fgets room stream).2)

theorem length_fgets_le (room : ℕ) (stream : Str) : (fgets room stream).2.length ≤ stream.length := by
  induction room generalizing stream with
  | zero => exact Nat.le_refl _
  | succ room ih =>
      cases stream with
      | nil => exact Nat.le_refl _
      | cons c stream =>
          rw [fgets]
          split
          · exact Nat.le_succ _
          · exact (ih stream).trans (Nat.le_succ _)

theorem length_fgets_lt (room : ℕ) (c : Char) (stream : Str) :
    (fgets (room + 1) (c :: stream)).2.length < (c :: stream).length := by
  rw [fgets]
  split
  · exact Nat.lt_succ_self _
  · exact Nat.lt_succ_of_le (length_fgets_le room stream)

/-- What the loop of `exec` appends. A line counts up to its first NUL byte. -/
def lines : Str → Str
  | [] => []
  | c :: stream =>
      (fgets 255 (c :: stream)).1.takeWhile (· ≠ '\x00') ++ lines (fgets 255 (c :: stream)).2
termination_by stream => stream.length
decreasing_by exact length_fgets_lt 254 c stream

/-- `exec` of a command with this output, if there is one at all. -/
def exec : Option Str → Str
  | none => []
  | some output => (lines output).rdropWhile fun c => c = '\n' || c = '\r' || c = ' '

/-- What follows the first `=`. -/
def afterEq (out : Str) : Option Str := (out.dropWhile (· ≠ '=')).tail?

/-- What the parsers have in common: 0 where no `=` is found. -/
def parseAfterEq {α : Type} [Zero α] (convert : Str → Except Thrown α) (out : Str) : Except Thrown α :=
  match afterEq out with
  | none => .ok 0
  | some val => convert val

variable (platform : Platform)

def parseClock (out : Str) : Except Thrown UInt64 :=
  parseAfterEq (fun val => (stof platform.reportsTiny val).map platform.toUInt64) out

def withoutUnit (val : Str) : Str := if val.getLast? = some 'M' then val.dropLast else val

def parseMemMb (out : Str) : Except Thrown UInt64 :=
  parseAfterEq (fun val => stoull 10 (withoutUnit val)) out

def parseThrottled (out : Str) : Except Thrown UInt64 := parseAfterEq (stoull 16) out

def parseTemp (out : Str) : Except Thrown Single := parseAfterEq (stof platform.reportsTiny) out

def parseVolt (out : Str) : Except Thrown Single := parseAfterEq (stof platform.reportsTiny) out

/-- Without a `=` the whole text is the value. -/
def parseCurrent (out : Str) : Except Thrown Single := stof platform.reportsTiny ((afterEq out).getD out)

variable (run : String → Option Str)

/-- One statement of `readPmuData`. Nothing is stored if the parser throws. -/
def read {α : Type} [Zero α] (cmd : String) (parse : Str → Except Thrown α)
    (store : PmuData Single → α → PmuData Single) : ExceptT Thrown (StateM (PmuData Single)) PUnit := do
  let s := exec (run cmd)
  let v ← if s.isEmpty then pure 0 else liftExcept (parse s)
  modify (store · v)

def readPmuData : ExceptT Thrown (StateM (PmuData Single)) Int := do
  read run "vcgencmd measure_clock arm" (parseClock platform) fun data v => { data with clockArmHz := v }
  read run "vcgencmd measure_clock core" (parseClock platform) fun data v => { data with clockCoreHz := v }
  read run "vcgencmd measure_clock v3d" (parseClock platform) fun data v => { data with clockV3dHz := v }
  read run "vcgencmd measure_temp" (parseTemp platform) fun data v => { data with tempCelsius := v }
  read run "vcgencmd measure_volts core" (parseVolt platform) fun data v => { data with voltCore := v }
  read run "vcgencmd pmic_read_adc VDD_CORE_A" (parseCurrent platform)
    fun data v => { data with currentVddCoreA := v }
  read run "vcgencmd get_mem arm" parseMemMb fun data v => { data with memArmMb := v }
  read run "vcgencmd get_mem gpu" parseMemMb fun data v => { data with memGpuMb := v }
  read run "vcgencmd get_throttled" parseThrottled fun data v => { data with throttled := v }
  return Ok

/-- What follows the first `=`, if there is one, is as it should be. -/
def AfterEq (good : Str → Prop) (out : Str) : Prop := ∀ val, afterEq out = some val → good val

/-- Where there is no `=`, it is the whole of a text that is not empty. -/
def AfterEqOrWhole (good : Str → Prop) (out : Str) : Prop := out ≠ [] → good ((afterEq out).getD out)

/-- Wherever a number is looked for, one that fits its type is found. -/
structure Readable : Prop where
  floats : ∀ cmd ∈ ["vcgencmd measure_clock arm", "vcgencmd measure_clock core", "vcgencmd measure_clock v3d",
    "vcgencmd measure_temp", "vcgencmd measure_volts core"],
    AfterEq (FloatText platform.reportsTiny) (exec (run cmd))
  current : AfterEqOrWhole (FloatText platform.reportsTiny) (exec (run "vcgencmd pmic_read_adc VDD_CORE_A"))
  memory : ∀ cmd ∈ ["vcgencmd get_mem arm", "vcgencmd get_mem gpu"],
    AfterEq (fun val => UnsignedText 10 (withoutUnit val)) (exec (run cmd))
  throttled : AfterEq (UnsignedText 16) (exec (run "vcgencmd get_throttled"))

/-- No exception escapes. -/
def Returns {α : Type} (program : ExceptT Thrown (StateM (PmuData Single)) α) (data : PmuData Single)
    (v : α) : Prop :=
  (program.run.run data).1 = .ok v

/-- An output that a parser does not throw for, or is not even called for. -/
def Parses {α : Type} (parse : Str → Except Thrown α) (out : Str) : Prop :=
  out = [] ∨ ∃ v, parse out = .ok v

variable {platform run} {α β : Type} [Zero α] {cmd : String} {parse : Str → Except Thrown α}
  {store : PmuData Single → α → PmuData Single}

theorem returns_read_bind {next : ExceptT Thrown (StateM (PmuData Single)) β} {v : β} {P : Prop}
   
    (hNext : ∀ data, Returns next data v ↔ P) (data : PmuData Single) :
    Returns (read run cmd parse store >>= fun _ => next) data v ↔ Parses parse (exec (run cmd)) ∧ P := by
  by_cases hEmpty : exec (run cmd) = []
  · have hRead : (read run cmd parse store >>= fun _ => next).run.run data =
        next.run.run (store data 0) := by
      simp only [read, hEmpty]
      rfl
    rw [Returns, hRead, and_iff_right (.inl hEmpty)]
    exact hNext _
  have hFull : ¬(exec (run cmd)).isEmpty = true := fun h => hEmpty (List.isEmpty_iff.mp h)
  cases hParse : parse (exec (run cmd)) with
  | error thrown =>
      have hThrown : ((read run cmd parse store >>= fun _ => next).run.run data).1 = .error thrown := by
        simp only [read, if_neg hFull, hParse]
        rfl
      refine iff_of_false ?_ ?_
      · intro hOk
        rw [Returns, hThrown] at hOk
        cases hOk
      · rintro ⟨hNone | ⟨v, hOk⟩, _⟩
        · exact hEmpty hNone
        · rw [hParse] at hOk
          cases hOk
  | ok v =>
      have hRead : (read run cmd parse store >>= fun _ => next).run.run data =
          next.run.run (store data v) := by
        simp only [read, if_neg hFull, hParse]
        rfl
      rw [Returns, hRead, and_iff_right (.inr ⟨v, hParse⟩)]
      exact hNext _

theorem parses_parseAfterEq {out : Str} {convert : Str → Except Thrown α} {good : Str → Prop}
    (hConvert : ∀ val, (∃ v, convert val = .ok v) ↔ good val) :
    Parses (parseAfterEq convert) out ↔ AfterEq good out := by
  cases hEq : afterEq out with
  | none =>
      have hZero : ∃ v, parseAfterEq convert out = .ok v := ⟨0, by rw [parseAfterEq, hEq]⟩
      exact iff_of_true (.inr hZero) (by simp [AfterEq, hEq])
  | some val =>
      have hFull : out ≠ [] := by
        rintro rfl
        cases hEq
      rw [Parses, or_iff_right hFull, parseAfterEq, hEq]
      show (∃ v, convert val = .ok v) ↔ _
      rw [hConvert, AfterEq, hEq]
      simp

omit [Zero α] in
theorem exists_map_iff {γ : Type} (f : α → γ) (result : Except Thrown α) :
    (∃ v, result.map f = .ok v) ↔ ∃ v, result = .ok v := by
  cases result with
  | error thrown => exact iff_of_false nofun nofun
  | ok v => exact iff_of_true ⟨f v, rfl⟩ ⟨v, rfl⟩

theorem parses_parseClock (out : Str) :
    Parses (parseClock platform) out ↔ AfterEq (FloatText platform.reportsTiny) out :=
  parses_parseAfterEq fun _ => (exists_map_iff ..).trans exists_stof_iff

theorem parses_parseTemp (out : Str) :
    Parses (parseTemp platform) out ↔ AfterEq (FloatText platform.reportsTiny) out :=
  parses_parseAfterEq fun _ => exists_stof_iff

theorem parses_parseVolt (out : Str) :
    Parses (parseVolt platform) out ↔ AfterEq (FloatText platform.reportsTiny) out :=
  parses_parseAfterEq fun _ => exists_stof_iff

theorem parses_parseCurrent (out : Str) :
    Parses (parseCurrent platform) out ↔ AfterEqOrWhole (FloatText platform.reportsTiny) out := by
  rw [Parses, parseCurrent, exists_stof_iff, or_iff_not_imp_left]
  rfl

theorem parses_parseMemMb (out : Str) :
    Parses parseMemMb out ↔ AfterEq (fun val => UnsignedText 10 (withoutUnit val)) out :=
  parses_parseAfterEq fun _ => exists_stoull_iff

theorem parses_parseThrottled (out : Str) : Parses parseThrottled out ↔ AfterEq (UnsignedText 16) out :=
  parses_parseAfterEq fun _ => exists_stoull_iff

theorem returns_readPmuData_iff {data : PmuData Single} {status : Int} :
    Returns (readPmuData platform run) data status ↔ Readable platform run ∧ status = Ok := by
  have hDone : ∀ data, Returns (pure Ok) data status ↔ status = Ok := fun data =>
    ⟨fun h => (Except.ok.inj h).symm, fun h => congrArg Except.ok h.symm⟩
  rw [readPmuData]
  refine (returns_read_bind (returns_read_bind <| returns_read_bind <| returns_read_bind <| returns_read_bind <|
    returns_read_bind <| returns_read_bind <| returns_read_bind <| returns_read_bind hDone) data).trans ?_
  simp only [parses_parseClock, parses_parseTemp, parses_parseVolt, parses_parseCurrent, parses_parseMemMb,
    parses_parseThrottled]
  constructor
  · rintro ⟨hArm, hCore, hV3d, hTemp, hVolt, hCurrent, hMemArm, hMemGpu, hThrottled, hOk⟩
    exact ⟨⟨by simp [hArm, hCore, hV3d, hTemp, hVolt], hCurrent, by simp [hMemArm, hMemGpu], hThrottled⟩, hOk⟩
  · rintro ⟨h, hOk⟩
    have hFloats := h.floats
    have hMemory := h.memory
    simp only [List.forall_mem_cons] at hFloats hMemory
    obtain ⟨hArm, hCore, hV3d, hTemp, hVolt, -⟩ := hFloats
    obtain ⟨hMemArm, hMemGpu, -⟩ := hMemory
    exact ⟨hArm, hCore, hV3d, hTemp, hVolt, h.current, hMemArm, hMemGpu, h.throttled, hOk⟩

end PmuRsp5

end Infra
