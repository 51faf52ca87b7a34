import V2Engine.App.TuiApp

/-! The answer of the daemon on the command line (app/cli/cli_app.cpp, with the socket of
infra/transport/uds/uds_client.cpp): a command is sent, and what comes back until the stream
ends is printed. -/
namespace App

open Text TuiApp

/-- What one call of the system's `send` comes to. -/
inductive Sent where
  | bytes (n : Nat)
  /-- `EINTR`. -/
  | interrupted
  | failed
deriving DecidableEq

/-- `UdsClient::send` with `sent` of `size` bytes on their way: what it returns, if it does not
wait any more. -/
def UdsClient.send (size sent : Nat) : List Sent → Option Int
  | [] => if sent < size then none else some Ok
  | s :: results =>
      if sent < size then
        match s with
        | .bytes n => UdsClient.send size (sent + n) results
        | .interrupted => UdsClient.send size sent results
        | .failed => some Fail
      else some Ok

namespace CliApp

/-- The loop of `sendToDaemon`: what it has appended to `resp` at its end. -/
def receive : List Recv → Str → Option Str
  | [], _ => none
  | r :: results, resp => if UdsClient.recv r ≤ 0 then some resp else receive results (resp ++ r.data)

/-- What is printed, if it comes to that. -/
def sendToDaemon (cmd : Str) (sends : List Sent) (results : List Recv) : Option Str :=
  match UdsClient.send cmd.length 0 sends with
  | none => none
  | some status => if status ≠ Ok then none else receive results []

/-- A response comes in pieces that fit the buffer, with signals in between, and then the stream
ends. -/
structure Delivers (bufferSize : Nat) (results : List Recv) (response : Str) : Prop where
  pieces : ∀ r ∈ results, r = .interrupted ∨ ∃ first rest, r = .bytes first rest
  fits : ∀ r ∈ results, r.data.length ≤ bufferSize
  whole : received results = response

/-- No signal arrives while there is more to come. -/
def Uninterrupted (results : List Recv) : Prop :=
  ∀ before after, results = before ++ .interrupted :: after → received after = []

variable {results : List Recv} {resp response cmd : Str} {sends : List Sent} {bufferSize : Nat}

/-- What is received before the first signal is all that is kept. -/
theorem receive_end (hPieces : ∀ r ∈ results, r = .interrupted ∨ ∃ first rest, r = .bytes first rest) :
    receive (results ++ [.endOfStream]) resp =
      some (resp ++ received (results.takeWhile (· ≠ .interrupted))) := by
  induction results generalizing resp with
  | nil =>
      show some resp = some (resp ++ [])
      rw [List.append_nil]
  | cons r results ih =>
      rw [List.cons_append, receive]
      rcases hPieces r (List.mem_cons_self ..) with rfl | ⟨first, rest, rfl⟩
      · have hEnds : UdsClient.recv .interrupted ≤ 0 := Int.le_refl 0
        rw [if_pos hEnds, List.takeWhile_cons_of_neg (by simp)]
        show some resp = some (resp ++ [])
        rw [List.append_nil]
      · have hPositive : 0 < UdsClient.recv (.bytes first rest) := Int.natCast_pos.mpr (Nat.succ_pos _)
        rw [if_neg (Int.not_le.mpr hPositive), ih fun s hs => hPieces s (List.mem_cons_of_mem _ hs),
          List.takeWhile_cons_of_pos (by simp), List.append_assoc]
        rfl

theorem received_takeWhile_iff :
    received (results.takeWhile (· ≠ .interrupted)) = received results ↔ Uninterrupted results := by
  induction results with
  | nil => exact ⟨fun _ before after hSplit => by simp at hSplit, fun _ => rfl⟩
  | cons r results ih =>
      rw [Uninterrupted, interrupted_cons_iff, ← Uninterrupted]
      by_cases hSignal : r = .interrupted
      · subst hSignal
        rw [List.takeWhile_cons_of_neg (by simp)]
        constructor
        · intro hNone
          have hRest : received results = [] := hNone.symm
          exact ⟨fun _ => hRest, fun before after hSplit => (received_suffix hRest hSplit).2⟩
        · intro h
          exact (h.1 rfl).symm
      · rw [List.takeWhile_cons_of_pos (by simpa using hSignal)]
        show r.data ++ received _ = r.data ++ received _ ↔ _
        rw [List.append_cancel_left_eq, ih]
        exact ⟨fun h => ⟨fun hr => absurd hr hSignal, h⟩, fun h => h.2⟩

/-- The whole response is printed exactly if no signal arrives while there is more to come. -/
theorem sendToDaemon_iff (hSent : UdsClient.send cmd.length 0 sends = some Ok)
    (hDelivers : Delivers bufferSize results response) :
    sendToDaemon cmd sends (results ++ [.endOfStream]) = some response ↔ Uninterrupted results := by
  rw [sendToDaemon, hSent]
  dsimp only
  rw [if_neg (by simp), receive_end hDelivers.pieces, List.nil_append, Option.some.injEq, ← hDelivers.whole]
  exact received_takeWhile_iff

section Runs

/-- A response in two pieces; the command goes out in two as well, and the signals do no harm. -/
theorem sendToDaemon_pieces : sendToDaemon "pmu".toList [.bytes 1, .interrupted, .bytes 2]
    [.bytes 'o' ['k'], .bytes '\n' [], .interrupted, .endOfStream] = some "ok\n".toList := by
  have hDelivers : Delivers 4096 [.bytes 'o' ['k'], .bytes '\n' [], .interrupted] "ok\n".toList :=
    ⟨by simp, by decide, by decide⟩
  exact (sendToDaemon_iff (by decide) hDelivers).mpr (received_takeWhile_iff.mp (by decide))

/-- A signal between the two pieces, and the second one is lost. -/
theorem not_sendToDaemon_interrupted :
    Delivers 4096 [.bytes 'o' ['k'], .interrupted, .bytes '\n' []] "ok\n".toList ∧
      sendToDaemon "pmu".toList [.bytes 3]
        [.bytes 'o' ['k'], .interrupted, .bytes '\n' [], .endOfStream] ≠ some "ok\n".toList :=
  ⟨⟨by simp, by decide, by decide⟩, by decide⟩

end Runs

end CliApp

end App
