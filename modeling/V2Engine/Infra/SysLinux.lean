import Mathlib.Algebra.Order.Field.Rat
import Mathlib.Data.List.DropRight
import Mathlib.Tactic.Linarith

/-! The share of the processor that the daemon uses (infra/hal/sys/sys_linux.cpp). The other
fields of `SystemResources` come from procfs and do not meet the window. -/
namespace Infra

/-- What `clock_gettime` and `Time::nowMs` say at one call of `collect`. -/
structure Clocks where
  tvSec : UInt64
  tvNsec : UInt64
  nowWall : UInt64

structure CpuSample where
  cpuNs : UInt64
  wallMs : UInt64
deriving DecidableEq, Repr

def Clocks.sample (now : Clocks) : CpuSample := ⟨now.tvSec * 1000000000 + now.tvNsec, now.nowWall⟩

structure SysLinux where
  cpuHistory : List CpuSample

namespace SysLinux

def kCpuWindowMs : UInt64 := 1000

def close (_ : SysLinux) : SysLinux := ⟨[]⟩

/-- The samples that have left the window are dropped, but never the one just taken. -/
def dropOld (nowWall : UInt64) : List CpuSample → List CpuSample
  | first :: second :: rest =>
      if kCpuWindowMs < nowWall - first.wallMs then dropOld nowWall (second :: rest)
      else first :: second :: rest
  | history => history

/-- `data.cpuPercent`, in exact arithmetic. It stays 0 where it is not computed. -/
def cpuPercent (history : List CpuSample) : ℚ :=
  match history.head?, history.getLast? with
  | some first, some last =>
      if 2 ≤ history.length then
        let deltaCpuNs := last.cpuNs - first.cpuNs
        let deltaWall := last.wallMs - first.wallMs
        if 0 < deltaWall then
          let percent : ℚ := deltaCpuNs.toNat * 100 / (deltaWall.toNat * 1000000)
          if 100 < percent then 100 else percent
        else 0
      else 0
  | _, _ => 0

def collect (sys : SysLinux) (now : Clocks) : ℚ × SysLinux :=
  let cpuHistory := dropOld now.nowWall (sys.cpuHistory ++ [now.sample])
  (cpuPercent cpuHistory, ⟨cpuHistory⟩)

def collectAll (sys : SysLinux) (calls : List Clocks) : SysLinux :=
  calls.foldl (fun sys now => (sys.collect now).2) sys

/-- The wall clock has gone on, and the processor time has not gone back. -/
structure Later (before after : Clocks) : Prop where
  wall : before.nowWall < after.nowWall
  cpu : before.sample.cpuNs ≤ after.sample.cpuNs

/-- The processor time used from one call to another, in percent of the time gone by. -/
def usage (before after : Clocks) : ℚ :=
  ((after.sample.cpuNs.toNat - before.sample.cpuNs.toNat : ℚ) * 100) /
    ((after.nowWall.toNat - before.nowWall.toNat : ℚ) * 1000000)

/-- What a call reports after earlier ones, the last of them being `previous`. -/
structure Measured (earlier : List Clocks) (previous now : Clocks) (report : ℚ × SysLinux) : Prop where
  samples : 2 ≤ report.2.cpuHistory.length
  between : ∃ before ∈ earlier ++ [previous], report.1 = min 100 (usage before now)
  used : previous.sample.cpuNs < now.sample.cpuNs → report.1 ≠ 0

variable {sys : SysLinux} {earlier calls : List Clocks} {previous now before : Clocks}

/-- A sample that is out of the window of a call. -/
def old (nowWall : UInt64) (sample : CpuSample) : Bool := kCpuWindowMs < nowWall - sample.wallMs

theorem dropOld_append (nowWall : UInt64) (history : List CpuSample) (last : CpuSample) :
    dropOld nowWall (history ++ [last]) = history.dropWhile (old nowWall) ++ [last] := by
  induction history with
  | nil => rfl
  | cons first rest ih =>
      obtain ⟨second, others, hMore⟩ : ∃ second others, rest ++ [last] = second :: others :=
        List.exists_cons_of_ne_nil (by simp)
      rw [List.cons_append, hMore, dropOld, ← hMore, ih, List.dropWhile_cons]
      by_cases hOld : kCpuWindowMs < nowWall - first.wallMs
      · rw [if_pos hOld, if_pos (by simpa [old] using hOld)]
      · rw [if_neg hOld, if_neg (by simpa [old] using hOld), List.cons_append]

theorem cpuHistory_collect (sys : SysLinux) (now : Clocks) :
    (sys.collect now).2.cpuHistory = sys.cpuHistory.dropWhile (old now.nowWall) ++ [now.sample] :=
  dropOld_append ..

/-- The window holds samples of the calls made since the last `close`, the latest one among them. -/
theorem cpuHistory_collectAll (sys : SysLinux) (earlier : List Clocks) (previous : Clocks) :
    ∃ kept, (sys.close.collectAll (earlier ++ [previous])).cpuHistory = kept ++ [previous.sample] ∧
      kept ⊆ earlier.map Clocks.sample := by
  induction earlier using List.reverseRecOn generalizing previous with
  | nil => exact ⟨[], rfl, List.Subset.refl _⟩
  | append_singleton earlier last ih =>
      obtain ⟨kept, hHistory, hKept⟩ := ih last
      have hCall : (sys.close.collectAll (earlier ++ [last] ++ [previous])).cpuHistory =
          (kept ++ [last.sample]).dropWhile (old previous.nowWall) ++ [previous.sample] := by
        rw [← hHistory, ← cpuHistory_collect, collectAll, List.foldl_append]
        rfl
      refine ⟨_, hCall, fun sample hMem => ?_⟩
      rw [List.map_append]
      have hBefore := (List.dropWhile_sublist _).subset hMem
      rcases List.mem_append.mp hBefore with hKeptMem | hLast
      · exact List.mem_append_left _ (hKept hKeptMem)
      · exact List.mem_append_right _ hLast

theorem old_iff (h : Later before now) :
    old now.nowWall before.sample = true ↔ before.nowWall.toNat + 1000 < now.nowWall.toNat := by
  have hLess : before.nowWall.toNat < now.nowWall.toNat := UInt64.lt_iff_toNat_lt.mp h.wall
  have hGap : (now.nowWall - before.nowWall).toNat = now.nowWall.toNat - before.nowWall.toNat :=
    UInt64.toNat_sub_of_le _ _ (UInt64.le_of_lt h.wall)
  show decide (kCpuWindowMs < now.nowWall - before.nowWall) = true ↔ _
  rw [decide_eq_true_iff, UInt64.lt_iff_toNat_lt, hGap]
  show 1000 < _ ↔ _
  omega

/-- The percentage of one sample against another. -/
def percent (first last : CpuSample) : ℚ :=
  (last.cpuNs - first.cpuNs).toNat * 100 / ((last.wallMs - first.wallMs).toNat * 1000000)

theorem cpuPercent_ends {first last : CpuSample} (middle : List CpuSample)
    (hWall : 0 < last.wallMs - first.wallMs) :
    cpuPercent (first :: (middle ++ [last])) = min 100 (percent first last) := by
  have hLast : (first :: (middle ++ [last])).getLast? = some last := by
    rw [← List.cons_append, List.getLast?_concat]
  have hTwo : 2 ≤ (first :: (middle ++ [last])).length := by simp
  rw [cpuPercent, List.head?_cons, hLast]
  dsimp only
  rw [if_pos hTwo, if_pos hWall]
  show (if 100 < percent first last then 100 else percent first last) = _
  split
  · rw [min_eq_left (le_of_lt (by assumption))]
  · rw [min_eq_right (not_lt.mp (by assumption))]

/-- No difference of two samples wraps around. -/
theorem percent_eq (h : Later before now) : percent before.sample now.sample = usage before now := by
  have hCpu : (now.sample.cpuNs - before.sample.cpuNs).toNat =
      now.sample.cpuNs.toNat - before.sample.cpuNs.toNat := UInt64.toNat_sub_of_le _ _ h.cpu
  have hWall : (now.nowWall - before.nowWall).toNat = now.nowWall.toNat - before.nowWall.toNat :=
    UInt64.toNat_sub_of_le _ _ (UInt64.le_of_lt h.wall)
  show ((now.sample.cpuNs - before.sample.cpuNs).toNat * 100 : ℚ) /
    ((now.nowWall - before.nowWall).toNat * 1000000) = _
  rw [hCpu, hWall, Nat.cast_sub (UInt64.le_iff_toNat_le.mp h.cpu),
    Nat.cast_sub (UInt64.le_iff_toNat_le.mp (UInt64.le_of_lt h.wall))]
  rfl

/-- Over at least two samples it is the usage between the first and the last. -/
theorem cpuPercent_eq (h : Later before now) (middle : List CpuSample) :
    cpuPercent (before.sample :: (middle ++ [now.sample])) = min 100 (usage before now) := by
  have hLess : before.nowWall.toNat < now.nowWall.toNat := UInt64.lt_iff_toNat_lt.mp h.wall
  have hPositive : 0 < now.sample.wallMs - before.sample.wallMs := by
    have hGap : (now.nowWall - before.nowWall).toNat = now.nowWall.toNat - before.nowWall.toNat :=
      UInt64.toNat_sub_of_le _ _ (UInt64.le_of_lt h.wall)
    show 0 < now.nowWall - before.nowWall
    rw [UInt64.lt_iff_toNat_lt, hGap]
    show 0 < _
    omega
  rw [cpuPercent_ends middle hPositive, percent_eq h]

theorem usage_pos (h : Later before now) (hUsed : before.sample.cpuNs < now.sample.cpuNs) :
    0 < usage before now := by
  have hCpu : (before.sample.cpuNs.toNat : ℚ) < now.sample.cpuNs.toNat :=
    Nat.cast_lt.mpr (UInt64.lt_iff_toNat_lt.mp hUsed)
  have hWall : (before.nowWall.toNat : ℚ) < now.nowWall.toNat :=
    Nat.cast_lt.mpr (UInt64.lt_iff_toNat_lt.mp h.wall)
  apply div_pos <;> linarith

/-- A call measures the usage exactly if it comes soon enough after the one before it. -/
theorem collect_measures_iff (sys : SysLinux) (hLater : (earlier ++ [previous, now]).Pairwise Later) :
    Measured earlier previous now ((sys.close.collectAll (earlier ++ [previous])).collect now) ↔
      now.nowWall.toNat ≤ previous.nowWall.toNat + 1000 := by
  obtain ⟨kept, hHistory, hKept⟩ := cpuHistory_collectAll sys earlier previous
  have hNow : ∀ before ∈ earlier ++ [previous], Later before now := by
    intro before hMem
    rw [List.append_cons, List.pairwise_append] at hLater
    exact hLater.2.2 before hMem now (List.mem_singleton.mpr rfl)
  have hPrevious : Later previous now := hNow previous (by simp)
  have hBefore : ∀ sample ∈ kept ++ [previous.sample], ∃ before ∈ earlier ++ [previous],
      sample = before.sample ∧ before.nowWall ≤ previous.nowWall ∧
        before.sample.cpuNs ≤ previous.sample.cpuNs := by
    intro sample hMem
    rcases List.mem_append.mp hMem with hOld | hLast
    · obtain ⟨before, hEarlier, rfl⟩ := List.mem_map.mp (hKept hOld)
      rw [List.pairwise_append] at hLater
      have hOrder := hLater.2.2 before hEarlier previous (List.mem_cons_self ..)
      exact ⟨before, List.mem_append_left _ hEarlier, rfl, UInt64.le_of_lt hOrder.wall, hOrder.cpu⟩
    · exact ⟨previous, by simp, List.mem_singleton.mp hLast, UInt64.le_refl _, UInt64.le_refl _⟩
  have hWindow := cpuHistory_collect (sys.close.collectAll (earlier ++ [previous])) now
  rw [hHistory] at hWindow
  constructor
  · intro measured
    by_contra hLate
    -- Then all samples are out of the window, the one of the previous call being the latest.
    have hNone : (kept ++ [previous.sample]).dropWhile (old now.nowWall) = [] := by
      apply List.dropWhile_eq_nil_iff.mpr
      intro sample hMem
      obtain ⟨before, hEarlier, rfl, hOrder, _⟩ := hBefore sample hMem
      have hWall := UInt64.le_iff_toNat_le.mp hOrder
      exact (old_iff (hNow before hEarlier)).mpr (by omega)
    have hSamples := measured.samples
    rw [hWindow, hNone, List.nil_append, List.length_singleton] at hSamples
    exact absurd hSamples (by decide)
  · intro hSoon
    have hYoung : old now.nowWall previous.sample = false := by
      rw [Bool.eq_false_iff, ne_eq, old_iff hPrevious]
      omega
    cases hFirst : (kept ++ [previous.sample]).dropWhile (old now.nowWall) with
    | nil =>
        have hOld := List.dropWhile_eq_nil_iff.mp hFirst previous.sample (by simp)
        rw [hYoung] at hOld
        cases hOld
    | cons first middle =>
        rw [hFirst] at hWindow
        obtain ⟨before, hEarlier, rfl, _, hCpu⟩ := hBefore first
          ((List.dropWhile_sublist (old now.nowWall)).subset (hFirst ▸ List.mem_cons_self ..))
        have hReport : ((sys.close.collectAll (earlier ++ [previous])).collect now).1 =
            min 100 (usage before now) := by
          rw [← cpuPercent_eq (hNow before hEarlier) middle]
          show cpuPercent ((sys.close.collectAll (earlier ++ [previous])).collect now).2.cpuHistory = _
          rw [hWindow, List.cons_append]
        refine ⟨?_, ⟨before, hEarlier, hReport⟩, fun hUsed => ?_⟩
        · rw [hWindow]
          simp
        · have hUsage := usage_pos (hNow before hEarlier) (UInt64.lt_of_le_of_lt hCpu hUsed)
          rw [hReport]
          exact ne_of_gt (lt_min (by norm_num) hUsage)

instance (before after : Clocks) : Decidable (Later before after) :=
  decidable_of_iff (before.nowWall < after.nowWall ∧ before.sample.cpuNs ≤ after.sample.cpuNs)
    ⟨fun h => ⟨h.1, h.2⟩, fun h => ⟨h.wall, h.cpu⟩⟩

/-- Half a second between calls, as configured by default. -/
theorem measures_everyHalfSecond :
    Measured [⟨3, 0, 1000⟩] ⟨3, 100000000, 1500⟩ ⟨3, 200000000, 2000⟩
      ((close ⟨[]⟩ |>.collectAll [⟨3, 0, 1000⟩, ⟨3, 100000000, 1500⟩]).collect ⟨3, 200000000, 2000⟩) :=
  (collect_measures_iff ⟨[]⟩ (by decide)).mpr (by decide)

/-- With a little more than the window between them, each call finds itself alone and reports 0. -/
theorem not_measured_afterWindow :
    [⟨3, 0, 1000⟩, ⟨4, 0, 2001⟩].Pairwise Later ∧
      ¬Measured [] ⟨3, 0, 1000⟩ ⟨4, 0, 2001⟩
        ((close ⟨[]⟩ |>.collectAll [⟨3, 0, 1000⟩]).collect ⟨4, 0, 2001⟩) :=
  ⟨by decide, fun measured => measured.used (by decide) rfl⟩

end SysLinux

end Infra
