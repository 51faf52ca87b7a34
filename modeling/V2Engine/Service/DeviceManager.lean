import V2Engine.Infra.PmuRsp5
import V2Engine.Service.Monitoring

/-! The device manager over the sensors of the board
(service/device_manager/device_manager_actor.cpp). An exception of a reading leaves its handler
and is a crash of the actor. -/
namespace Service.DeviceManager

open Infra Numbers Text
open PmuRsp5 (readPmuData Readable Returns)

variable (platform : Platform) (run : String → Option Str)

/-- The actor afterwards and what it sends, unless an exception escapes. -/
def pumpIfNeeded (actor : DeviceManagerActor Single) :
    Except Thrown (DeviceManagerActor Single × Sent Single) :=
  let reading := (readPmuData platform run).run.run actor.latest
  reading.1.map fun status =>
    ({ actor with latest := reading.2 },
      if status ≠ PmuRsp5.Ok then [] else forEach actor.subscribers (.pmuDataUpdate reading.2))

def handle (actor : DeviceManagerActor Single) (message : ManagerMessage) :
    Except Thrown (DeviceManagerActor Single × Sent Single) :=
  if actor.state = .opened then
    match message with
    | .tick => if actor.subscribers ≠ ∅ then pumpIfNeeded platform run actor else .ok (actor, [])
    | .subscribe subscriber =>
        pumpIfNeeded platform run { actor with subscribers := insert subscriber actor.subscribers }
    | .unsubscribe subscriber =>
        let subscribers := actor.subscribers.erase subscriber
        .ok ({ actor with
          subscribers
          latest := if subscribers = ∅ then .empty else actor.latest }, [])
    | .unknown => .ok (actor, [])
  else .ok (actor, [])

variable {platform run} {actor : DeviceManagerActor Single} {message : ManagerMessage} {data : PmuData Single}

theorem pumpIfNeeded_eq (h : Readable platform run) (actor : DeviceManagerActor Single) :
    ∃ data, pumpIfNeeded platform run actor =
      .ok (ManagerActor.pumpIfNeeded actor .pmuDataUpdate (some data)) := by
  have hStatus : ((readPmuData platform run).run.run actor.latest).1 = .ok PmuRsp5.Ok :=
    PmuRsp5.returns_readPmuData_iff.mpr ⟨h, rfl⟩
  refine ⟨((readPmuData platform run).run.run actor.latest).2, ?_⟩
  unfold pumpIfNeeded
  dsimp only
  rw [hStatus]
  rfl

/-- A manager that is never disturbed is the one of the monitoring. -/
theorem handle_eq (h : Readable platform run) (actor : DeviceManagerActor Single) (message : ManagerMessage) :
    ∃ data, handle platform run actor message =
      .ok (ManagerActor.handle actor .pmuDataUpdate (some data) .empty message) := by
  unfold handle ManagerActor.handle
  split
  · cases message with
    | tick =>
        dsimp only
        split
        · exact pumpIfNeeded_eq h actor
        · exact ⟨.empty, rfl⟩
    | subscribe subscriber =>
        exact pumpIfNeeded_eq h { actor with subscribers := insert subscriber actor.subscribers }
    | unsubscribe subscriber => exact ⟨.empty, rfl⟩
    | unknown => exact ⟨.empty, rfl⟩
  · exact ⟨.empty, rfl⟩

/-- A reading returns a status, and the actor lives on, exactly if all nine outputs are readable. -/
theorem survives_iff (data : PmuData Single) :
    ((∃ status, ((readPmuData platform run).run.run data).1 = .ok status) ∧
      ∀ actor message, ∃ result, handle platform run actor message = .ok result) ↔ Readable platform run := by
  constructor
  · rintro ⟨⟨status, hReturns⟩, -⟩
    exact (PmuRsp5.returns_readPmuData_iff.mp hReturns).1
  · intro h
    refine ⟨⟨PmuRsp5.Ok, PmuRsp5.returns_readPmuData_iff.mpr ⟨h, rfl⟩⟩, fun actor message => ?_⟩
    obtain ⟨data, hHandled⟩ := handle_eq h actor message
    exact ⟨_, hHandled⟩

/-- The first output breaks off before its number. -/
def brokenOff (cmd : String) : Option Str :=
  if cmd = "vcgencmd measure_clock arm" then some "frequency(48)=\n".toList else none

theorem exec_brokenOff :
    PmuRsp5.exec (brokenOff "vcgencmd measure_clock arm") = "frequency(48)=".toList := by
  have hLines : PmuRsp5.lines "frequency(48)=\n".toList = "frequency(48)=\n".toList := by
    simp [PmuRsp5.lines, PmuRsp5.fgets]
  rw [brokenOff, if_pos rfl, PmuRsp5.exec, hLines]
  decide

/-- `stof` has nothing to convert. The tick that asked for the reading is a crash of the manager. -/
theorem crashes_onBrokenOff :
    let platform : Platform := ⟨fun _ => true, fun _ => 0⟩
    ((readPmuData platform brokenOff).run.run .empty).1 = .error (.invalidArgument "stof") ∧
      handle platform brokenOff ⟨.opened, {.monitor}, .empty⟩ .tick = .error (.invalidArgument "stof") := by
  intro platform
  have hThrown (data : PmuData Single) :
      ((readPmuData platform brokenOff).run.run data).1 = .error (.invalidArgument "stof") := by
    unfold readPmuData PmuRsp5.read
    simp only [exec_brokenOff]
    rfl
  refine ⟨hThrown _, ?_⟩
  show Except.map _ ((readPmuData platform brokenOff).run.run .empty).1 = _
  rw [hThrown]
  rfl

end Service.DeviceManager
