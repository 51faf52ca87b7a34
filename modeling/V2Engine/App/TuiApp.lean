import V2Engine.Text.Split
import Mathlib.Data.List.Flatten

/-! The loop of the monitor that takes snapshots off the socket (app/tui/tui_app.cpp, with the
socket of infra/transport/uds/uds_client.cpp). -/
namespace App

open Text

/-- What one call of the system's `recv` comes to. -/
inductive Recv where
  | bytes (first : Char) (rest : Str)
  | endOfStream
  /-- `EINTR`. -/
  | interrupted
  | failed
deriving DecidableEq

def Recv.data : Recv → Str
  | .bytes first rest => first :: rest
  | _ => []

def Ok : Int := 0
def Fail : Int := -1

/-- `UdsClient::recv`: what it returns. The data are in the buffer. -/
def UdsClient.recv : Recv → Int
  | .bytes first rest => (first :: rest).length
  | .endOfStream => 0
  | .interrupted => 0
  | .failed => Fail

namespace TuiApp

/-- The inner loop: the lines that are complete, and what is left in the buffer. -/
def takeLines (lineBuffer : Str) : List Str × Str :=
  match _hRest : lineBuffer.dropWhile (· ≠ '\n') with
  | [] => ([], lineBuffer)
  | _ :: rest => (lineBuffer.takeWhile (· ≠ '\n') :: (takeLines rest).1, (takeLines rest).2)
termination_by lineBuffer.length
decreasing_by
  all_goals
    have hLength := List.length_dropWhile_le (p := (· ≠ '\n')) lineBuffer
    rw [_hRest, List.length_cons] at hLength
    omega

def kMaxLine : Nat := 65536

/-- The lines that `recvLoop` hands to the parser, until a call of `recv` is still waiting
or the loop has ended. -/
def recvLoop : List Recv → Str → List Str
  | [], _ => []
  | r :: results, lineBuffer =>
      if 0 < UdsClient.recv r then
        let (lines, left) := takeLines (lineBuffer ++ r.data)
        lines.filter (!·.isEmpty) ++ recvLoop results (if kMaxLine < left.length then [] else left)
      else if UdsClient.recv r = 0 then []
      else recvLoop results lineBuffer

theorem takeLines_eq (lineBuffer : Str) :
    takeLines lineBuffer = (completeLines '\n' lineBuffer, remainder '\n' lineBuffer) := by
  fun_induction takeLines lineBuffer with
  | case1 lineBuffer hRest =>
      have hFree : '\n' ∉ lineBuffer := by
        intro hMem
        have hAll := List.dropWhile_eq_nil_iff.mp hRest '\n' hMem
        simp at hAll
      rw [completeLines_of_not_mem hFree, remainder_of_not_mem hFree]
  | case2 lineBuffer newline rest hRest ih =>
      have hFree : '\n' ∉ lineBuffer.takeWhile (· ≠ '\n') := by
        intro hMem
        simpa using List.mem_takeWhile_imp hMem
      have hNewline : newline = '\n' := by simpa using head_of_dropWhile hRest
      have hSplit : lineBuffer = lineBuffer.takeWhile (· ≠ '\n') ++ '\n' :: rest := by
        conv_lhs => rw [← List.takeWhile_append_dropWhile (p := (· ≠ '\n')) (l := lineBuffer), hRest, hNewline]
      rw [ih]
      conv_rhs => rw [hSplit]
      rw [completeLines_cons hFree, remainder_append_cons]

/-- What has been received. -/
def received (results : List Recv) : Str := results.flatMap Recv.data

/-- The lines as they are sent. -/
def stream (lines : List Str) : Str := lines.flatMap (· ++ ['\n'])

/-- No call of `recv` is interrupted while there is more to come, and a line that is not
complete yet is never longer than the buffer may become. -/
structure Undisturbed (results : List Recv) : Prop where
  interrupted : ∀ before after, results = before ++ .interrupted :: after → received after = []
  short : ∀ before after, results = before ++ after → (remainder '\n' (received before)).length ≤ kMaxLine

/-- The same, along the loop. -/
def Smooth : List Recv → Str → Prop
  | [], _ => True
  | .bytes first rest :: results, lineBuffer =>
      (remainder '\n' (lineBuffer ++ first :: rest)).length ≤ kMaxLine ∧
        Smooth results (remainder '\n' (lineBuffer ++ first :: rest))
  | .interrupted :: results, _ => received results = []
  | _ :: results, lineBuffer => Smooth results lineBuffer

variable {results : List Recv} {lineBuffer : Str} {lines : List Str}

theorem recvLoop_bytes (first : Char) (rest : Str) (results : List Recv) (lineBuffer : Str) :
    recvLoop (.bytes first rest :: results) lineBuffer =
      (completeLines '\n' (lineBuffer ++ first :: rest)).filter (!·.isEmpty) ++
        recvLoop results (if kMaxLine < (remainder '\n' (lineBuffer ++ first :: rest)).length then []
          else remainder '\n' (lineBuffer ++ first :: rest)) := by
  have hPositive : 0 < UdsClient.recv (.bytes first rest) := Int.natCast_pos.mpr (Nat.succ_pos _)
  rw [recvLoop, if_pos hPositive, takeLines_eq]
  rfl

/-- An undisturbed loop hands over the lines of all that it receives. -/
theorem recvLoop_of_smooth (hEnd : .endOfStream ∉ results) (hFree : '\n' ∉ lineBuffer)
    (smooth : Smooth results lineBuffer) : recvLoop results lineBuffer =
      (completeLines '\n' (lineBuffer ++ received results)).filter (!·.isEmpty) := by
  induction results generalizing lineBuffer with
  | nil =>
      rw [received, List.flatMap_nil, List.append_nil, completeLines_of_not_mem hFree]
      rfl
  | cons r results ih =>
      have hMore : .endOfStream ∉ results := fun h => hEnd (List.mem_cons_of_mem _ h)
      cases r with
      | bytes first rest =>
          obtain ⟨hShort, hSmooth⟩ := smooth
          rw [recvLoop_bytes, if_neg (Nat.not_lt_of_le hShort), ih hMore (not_mem_remainder _) hSmooth,
            ← List.filter_append, ← (lines_append _ _).1, List.append_assoc]
          rfl
      | endOfStream => exact absurd (List.mem_cons_self ..) hEnd
      | interrupted =>
          have hNone : received (.interrupted :: results) = [] := smooth
          rw [hNone, List.append_nil, completeLines_of_not_mem hFree]
          rfl
      | failed => exact ih hMore hFree smooth

theorem length_stream_filter (lines : List Str) (p : Str → Bool) :
    (stream (lines.filter p)).length ≤ (stream lines).length :=
  (List.filter_sublist.flatMap _).length_le

theorem length_stream_append (lines more : List Str) :
    (stream (lines ++ more)).length = (stream lines).length + (stream more).length := by
  rw [stream, List.flatMap_append, List.length_append]
  rfl

/-- What the loop hands over is never more than what it has received, and if it is all of it
then nothing was lost on the way. -/
theorem smooth_of_length (hEnd : .endOfStream ∉ results) :
    (stream (recvLoop results lineBuffer)).length ≤ lineBuffer.length + (received results).length ∧
      ((stream (recvLoop results lineBuffer)).length = lineBuffer.length + (received results).length →
        Smooth results lineBuffer) := by
  induction results generalizing lineBuffer with
  | nil => exact ⟨Nat.zero_le _, fun _ => trivial⟩
  | cons r results ih =>
      have hMore : .endOfStream ∉ results := fun h => hEnd (List.mem_cons_of_mem _ h)
      cases r with
      | bytes first rest =>
          rw [recvLoop_bytes]
          generalize hText : lineBuffer ++ first :: rest = text
          have hLength : lineBuffer.length + (received (.bytes first rest :: results)).length =
              text.length + (received results).length := by
            rw [← hText]
            simp [received, Recv.data]
            omega
          have hLines : (stream (completeLines '\n' text)).length + (remainder '\n' text).length = text.length :=
            length_lines text
          have hFilter := length_stream_filter (completeLines '\n' text) fun line : List Char => !line.isEmpty
          rw [hLength, length_stream_append]
          by_cases hLong : kMaxLine < (remainder '\n' text).length
          · rw [if_pos hLong]
            have hLess := (@ih [] hMore).1
            rw [List.length_nil] at hLess
            constructor
            · omega
            · intro hAll
              omega
          · rw [if_neg hLong]
            obtain ⟨hLess, hSmooth⟩ := @ih (remainder '\n' text) hMore
            constructor
            · omega
            · intro hAll
              simp only [Smooth, hText]
              exact ⟨Nat.le_of_not_lt hLong, hSmooth (by omega)⟩
      | endOfStream => exact absurd (List.mem_cons_self ..) hEnd
      | interrupted =>
          refine ⟨Nat.zero_le _, fun hAll => ?_⟩
          have hZero : 0 = lineBuffer.length + (received results).length := hAll
          exact List.length_eq_zero_iff.mp (by omega : (received results).length = 0)
      | failed => exact ih hMore

theorem undisturbed_cons_iff {r : Recv} :
    (∀ before after, r :: results = before ++ after →
      (remainder '\n' (lineBuffer ++ received before)).length ≤ kMaxLine) ↔
    (remainder '\n' lineBuffer).length ≤ kMaxLine ∧ ∀ before after, results = before ++ after →
      (remainder '\n' (lineBuffer ++ (r.data ++ received before))).length ≤ kMaxLine := by
  constructor
  · intro h
    refine ⟨by simpa [received] using h [] (r :: results) rfl, fun before after hSplit => ?_⟩
    exact h (r :: before) after (by rw [hSplit, List.cons_append])
  · rintro ⟨hFirst, hRest⟩ before after hSplit
    cases before with
    | nil => simpa [received] using hFirst
    | cons s before =>
        rw [List.cons_append, List.cons.injEq] at hSplit
        obtain ⟨rfl, rfl⟩ := hSplit
        exact hRest before after rfl

theorem interrupted_cons_iff {r : Recv} :
    (∀ before after, r :: results = before ++ .interrupted :: after → received after = []) ↔
      (r = .interrupted → received results = []) ∧
        ∀ before after, results = before ++ .interrupted :: after → received after = [] := by
  constructor
  · intro h
    refine ⟨fun hr => h [] results (by rw [hr, List.nil_append]), fun before after hSplit => ?_⟩
    exact h (r :: before) after (by rw [hSplit, List.cons_append])
  · rintro ⟨hFirst, hRest⟩ before after hSplit
    cases before with
    | nil =>
        rw [List.nil_append, List.cons.injEq] at hSplit
        obtain ⟨rfl, rfl⟩ := hSplit
        exact hFirst rfl
    | cons s before =>
        rw [List.cons_append, List.cons.injEq] at hSplit
        obtain ⟨rfl, rfl⟩ := hSplit
        exact hRest before after rfl

/-- When nothing more comes, nothing more can be lost. -/
theorem received_suffix {before after : List Recv} (h : received results = []) (hSplit : results = before ++ after) :
    received before = [] ∧ received after = [] := by
  rw [hSplit, received, List.flatMap_append, List.append_eq_nil_iff] at h
  exact h

theorem smooth_iff (hEnd : .endOfStream ∉ results) (hShort : (remainder '\n' lineBuffer).length ≤ kMaxLine) :
    Smooth results lineBuffer ↔
      (∀ before after, results = before ++ .interrupted :: after → received after = []) ∧
        ∀ before after, results = before ++ after →
          (remainder '\n' (lineBuffer ++ received before)).length ≤ kMaxLine := by
  induction results generalizing lineBuffer with
  | nil =>
      refine ⟨fun _ => ⟨fun before after hSplit => ?_, fun before after hSplit => ?_⟩, fun _ => trivial⟩
      · exact absurd hSplit.symm (List.append_ne_nil_of_right_ne_nil _ (List.cons_ne_nil _ _))
      · rw [(List.append_eq_nil_iff.mp hSplit.symm).1]
        simpa [received] using hShort
  | cons r results ih =>
      have hMore : .endOfStream ∉ results := fun h => hEnd (List.mem_cons_of_mem _ h)
      rw [undisturbed_cons_iff, interrupted_cons_iff]
      cases r with
      | bytes first rest =>
          have hSame : ∀ before, remainder '\n' (lineBuffer ++ ((Recv.bytes first rest).data ++ received before)) =
              remainder '\n' (remainder '\n' (lineBuffer ++ first :: rest) ++ received before) := by
            intro before
            rw [← List.append_assoc]
            exact (lines_append _ _).2
          have hStill : remainder '\n' (remainder '\n' (lineBuffer ++ first :: rest)) =
              remainder '\n' (lineBuffer ++ first :: rest) := remainder_of_not_mem (not_mem_remainder _)
          simp only [hSame]
          constructor
          · rintro ⟨hFits, hSmooth⟩
            obtain ⟨hLater, hRest⟩ := (ih hMore (by rwa [hStill])).mp hSmooth
            exact ⟨⟨nofun, hLater⟩, hShort, hRest⟩
          · rintro ⟨⟨_, hLater⟩, _, hRest⟩
            have hFits := hRest [] results rfl
            rw [received, List.flatMap_nil, List.append_nil, hStill] at hFits
            exact ⟨hFits, (ih hMore (by rwa [hStill])).mpr ⟨hLater, hRest⟩⟩
      | endOfStream => exact absurd (List.mem_cons_self ..) hEnd
      | interrupted =>
          constructor
          · intro hNone
            have hNone' : received results = [] := hNone
            refine ⟨⟨fun _ => hNone', fun before after hSplit => ?_⟩, hShort, fun before after hSplit => ?_⟩
            · exact (received_suffix hNone' hSplit).2
            · rw [(received_suffix hNone' hSplit).1]
              simpa [Recv.data] using hShort
          · rintro ⟨⟨hFirst, _⟩, _⟩
            exact hFirst rfl
      | failed =>
          have hFailed := ih hMore hShort
          simp only [Recv.data, List.nil_append]
          constructor
          · intro hSmooth
            obtain ⟨hLater, hRest⟩ := hFailed.mp hSmooth
            exact ⟨⟨nofun, hLater⟩, hShort, hRest⟩
          · rintro ⟨⟨_, hLater⟩, _, hRest⟩
            exact hFailed.mpr ⟨hLater, hRest⟩

theorem smooth_nil_iff (hEnd : .endOfStream ∉ results) : Smooth results [] ↔ Undisturbed results := by
  rw [smooth_iff hEnd (Nat.zero_le _)]
  simp only [List.nil_append]
  exact ⟨fun h => ⟨h.1, h.2⟩, fun h => ⟨h.interrupted, h.short⟩⟩

theorem recvLoop_end : recvLoop (results ++ [.endOfStream]) lineBuffer = recvLoop results lineBuffer := by
  induction results generalizing lineBuffer with
  | nil => rfl
  | cons r results ih =>
      rw [List.cons_append, recvLoop, recvLoop]
      simp only [ih]

/-- The parser gets the lines that were sent, whole and in order, exactly if the loop is not
disturbed. -/
theorem recvLoop_iff (results : List Recv) {lines : List Str} (hLines : ∀ line ∈ lines, line ≠ [] ∧ '\n' ∉ line)
    (hEnd : .endOfStream ∉ results) (hSent : received results = stream lines) :
    recvLoop (results ++ [.endOfStream]) [] = lines ↔ Undisturbed results := by
  rw [recvLoop_end, ← smooth_nil_iff hEnd]
  constructor
  · intro hSame
    apply (smooth_of_length hEnd).2
    rw [hSame, hSent, List.length_nil, Nat.zero_add]
  · intro smooth
    rw [recvLoop_of_smooth hEnd List.not_mem_nil smooth, List.nil_append, hSent, stream,
      (lines_flatMap fun line h => (hLines line h).2).1]
    apply List.filter_eq_self.mpr
    intro line h
    simpa using (hLines line h).1

section Runs

/-- Two lines in four pieces, with an error in between. -/
theorem recvLoop_pieces : recvLoop
    [.bytes 'a' [], .failed, .bytes 'b' ['\n', 'c'], .bytes '\n' [], .endOfStream] [] = [['a', 'b'], ['c']] :=
  (recvLoop_iff [.bytes 'a' [], .failed, .bytes 'b' ['\n', 'c'], .bytes '\n' []] (by decide) (by decide)
    (by decide)).mpr ((smooth_nil_iff (by decide)).mp ⟨by decide, by decide, by decide, trivial⟩)

/-- A signal arrives between two reads. -/
theorem not_recvLoop_interrupted : recvLoop
    [.bytes 'a' ['\n'], .interrupted, .bytes 'b' ['\n'], .endOfStream] [] ≠ [['a'], ['b']] := by
  rw [recvLoop_bytes]
  decide

end Runs

end TuiApp

end App
