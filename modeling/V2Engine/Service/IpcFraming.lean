import V2Engine.Interleaving.Calls
import V2Engine.Service.IpcServerActor

/-! One client sends one command line. Its bytes reach the socket in pieces, the loop thread
turns readiness into messages, and the actor reads once for every message. -/
namespace Service

open Interleaving Text

namespace IpcServerActor

/-- The connection and all that concerns it. `found` remembers what was in the socket each
time a message was handled while there was something to read. -/
structure Stream where
  inFlight : Str
  unread : Str
  subscribed : Bool
  closed : Bool
  /-- The loop thread has seen the connection ready and taken its handler. -/
  calling : Bool
  mailbox : Nat
  work : List Action
  forwarded : List CmdRequest
  found : List Str

/-- The client has sent its line, and the connection is subscribed. -/
def Stream.initial (text : Str) : Stream where
  inFlight := text
  unread := []
  subscribed := true
  closed := false
  calling := false
  mailbox := 0
  work := []
  forwarded := []
  found := []

/-- A descriptor without data would block, and one that is closed is not valid. A buffer
without room makes `recv` return 0, as the end of the stream does. -/
def Stream.recv (recvBufferSize : Nat) (s : Stream) : Recv :=
  if s.closed ∨ s.unread = [] then .error
  else if recvBufferSize = 0 then .endOfStream
  else .data (s.unread.take recvBufferSize)

inductive Stream.Event where
  /-- The next bytes reach the socket. -/
  | arrive (count : Nat)
  /-- `epoll_wait` reports the connection, for as long as there is something to read. -/
  | poll
  /-- The handler enqueues its message, which a full mailbox drops. -/
  | enqueue (accepted : Bool)
  | handleDataReceived
  | handleCmdResponse (m : CmdResponse)
  /-- The next action of the handler that is running. -/
  | act

variable (recvBufferSize : Nat) (conn : ConnHandle)

def Stream.perform (s : Stream) : Action → Stream
  | .sendCmdRequest cmd => { s with forwarded := s.forwarded ++ [⟨conn, cmd⟩] }
  | .send _ => s
  | .unsubscribe => { s with subscribed := false }
  | .closeClient => { s with closed := true }
  | .erase => s

def Stream.step : Stream.Event → Stream → Option Stream
  | .arrive count, s =>
      some { s with inFlight := s.inFlight.drop count, unread := s.unread ++ s.inFlight.take count }
  | .poll, s =>
      if s.subscribed ∧ ¬s.closed ∧ s.unread ≠ [] ∧ ¬s.calling then some { s with calling := true } else none
  | .enqueue accepted, s =>
      if s.calling then
        some { s with calling := false, mailbox := if accepted then s.mailbox + 1 else s.mailbox }
      else none
  | .handleDataReceived, s =>
      if s.work = [] ∧ 0 < s.mailbox then
        some { s with
          mailbox := s.mailbox - 1
          work := IpcServerActor.handleDataReceived (s.recv recvBufferSize)
          unread := if s.closed then s.unread else s.unread.drop recvBufferSize
          found := if s.closed ∨ s.unread = [] then s.found else s.found ++ [s.unread] }
      else none
  | .handleCmdResponse m, s =>
      -- responses follow requests: nobody else answers on this connection
      if s.work = [] ∧ s.forwarded ≠ [] then some { s with work := IpcServerActor.handleCmdResponse m } else none
  | .act, s => match s.work with
    | [] => none
    | action :: rest => some (({ s with work := rest } : Stream).perform conn action)

/-- Nothing that concerns the connection is under way any more. -/
structure Stream.Settled (s : Stream) : Prop where
  mailbox : s.mailbox = 0
  calling : s.calling = false
  work : s.work = []
  read : s.closed ∨ s.inFlight = [] ∧ (s.subscribed → s.unread = [])

abbrev Stream.Runs (text : Str) : Stream → Prop :=
  Calls (Stream.step recvBufferSize conn) (· = Stream.initial text) anyCall

variable {recvBufferSize conn}

/-- What is forwarded because of one reading. -/
def commandOf (recvBufferSize : Nat) (unread : Str) : List Str :=
  if recvBufferSize = 0 then [] else [popNewline (unread.take recvBufferSize)]

/-- The bytes of the line are where they should be, and each reading has been forwarded or is
about to be. Until the first reading the connection stays as it was. -/
structure Stream.Inv (recvBufferSize : Nat) (conn : ConnHandle) (text : Str) (s : Stream) : Prop where
  bytes : (s.found.map (·.take recvBufferSize)).flatten ++ (s.unread ++ s.inFlight) = text
  forwarded : s.forwarded ++ (forwards s.work).map (⟨conn, ·⟩)
    = (s.found.flatMap (commandOf recvBufferSize)).map (⟨conn, ·⟩)
  first : ∀ b ∈ s.found.head?, b <+: text
  waiting : s.found = [] → s.subscribed = true ∧ s.closed = false ∧ s.work = []

theorem Stream.Inv.initial (text : Str) : (Stream.initial text).Inv recvBufferSize conn text where
  bytes := rfl
  forwarded := rfl
  first := nofun
  waiting := fun _ => ⟨rfl, rfl, rfl⟩

/-- The action at the front is done, and what it forwards moves from the work to the requests. -/
theorem Stream.Inv.act {text : Str} {s : Stream} {action : Action} {rest : List Action}
    (inv : s.Inv recvBufferSize conn text) (hWork : s.work = action :: rest) :
    (({ s with work := rest } : Stream).perform conn action).Inv recvBufferSize conn text := by
  have hFound : s.found ≠ [] := by
    intro hNone
    rw [(inv.waiting hNone).2.2] at hWork
    cases hWork
  have hForwarded := inv.forwarded
  rw [hWork] at hForwarded
  cases action with
  | sendCmdRequest cmd =>
      refine ⟨inv.bytes, ?_, inv.first, fun hNone => absurd hNone hFound⟩
      rw [forwards_cons_sendCmdRequest, List.map_cons] at hForwarded
      show s.forwarded ++ [⟨conn, cmd⟩] ++ (forwards rest).map (⟨conn, ·⟩) = _
      rw [List.append_assoc]
      exact hForwarded
  | send result => exact ⟨inv.bytes, hForwarded, inv.first, fun hNone => absurd hNone hFound⟩
  | unsubscribe => exact ⟨inv.bytes, hForwarded, inv.first, fun hNone => absurd hNone hFound⟩
  | closeClient => exact ⟨inv.bytes, hForwarded, inv.first, fun hNone => absurd hNone hFound⟩
  | erase => exact ⟨inv.bytes, hForwarded, inv.first, fun hNone => absurd hNone hFound⟩

/-- A reading finds what is in the socket and takes from it what its buffer holds. -/
theorem Stream.Inv.read {text : Str} {s : Stream} (inv : s.Inv recvBufferSize conn text)
    (hIdle : s.work = []) (hOpen : s.closed = false) (hUnread : s.unread ≠ []) :
    ({ s with
        mailbox := s.mailbox - 1
        work := IpcServerActor.handleDataReceived (s.recv recvBufferSize)
        unread := s.unread.drop recvBufferSize
        found := s.found ++ [s.unread] } : Stream).Inv recvBufferSize conn text := by
  refine ⟨?_, ?_, ?_, ?_⟩
  · rw [← inv.bytes]
    simp only [List.map_append, List.map_singleton, List.flatten_append, List.flatten_singleton,
      List.append_assoc]
    rw [← List.append_assoc (s.unread.take recvBufferSize), List.take_append_drop]
  · have hForwarded := inv.forwarded
    rw [hIdle, forwards_nil, List.map_nil, List.append_nil] at hForwarded
    rw [hForwarded, ← List.map_append, List.flatMap_append]
    congr 2
    by_cases hRoom : recvBufferSize = 0
    · simp [Stream.recv, hOpen, hUnread, hRoom, commandOf, IpcServerActor.handleDataReceived]
    · simp [Stream.recv, hOpen, hUnread, hRoom, commandOf, IpcServerActor.handleDataReceived]
  · intro b hb
    cases hFound : s.found with
    | nil =>
        rw [hFound] at hb
        cases hb
        have hText := inv.bytes
        rw [hFound] at hText
        exact ⟨s.inFlight, hText⟩
    | cons first rest =>
        rw [hFound] at hb
        apply inv.first b
        rw [hFound]
        exact hb
  · intro hNone
    exact absurd hNone (List.append_ne_nil_of_right_ne_nil _ (List.cons_ne_nil _ _))

theorem Stream.Inv.step {text : Str} {s s' : Stream} {event : Stream.Event}
    (inv : s.Inv recvBufferSize conn text) (hStep : Stream.step recvBufferSize conn event s = some s') :
    s'.Inv recvBufferSize conn text := by
  cases event with
  | arrive count =>
      cases hStep
      refine ⟨?_, inv.forwarded, inv.first, inv.waiting⟩
      rw [← inv.bytes]
      simp
  | poll =>
      obtain ⟨_, hAfter⟩ := Option.ite_none_right_eq_some.mp hStep
      cases hAfter
      exact ⟨inv.bytes, inv.forwarded, inv.first, inv.waiting⟩
  | enqueue accepted =>
      obtain ⟨_, hAfter⟩ := Option.ite_none_right_eq_some.mp hStep
      cases hAfter
      exact ⟨inv.bytes, inv.forwarded, inv.first, inv.waiting⟩
  | handleDataReceived =>
      obtain ⟨hIdle, hAfter⟩ := Option.ite_none_right_eq_some.mp hStep
      cases hAfter
      by_cases hFinds : s.closed ∨ s.unread = []
      · have hSame : (if s.closed then s.unread else s.unread.drop recvBufferSize) = s.unread := by
          rcases hFinds with hClosed | hNone
          · rw [if_pos hClosed]
          · simp [hNone]
        have hNothing : s.recv recvBufferSize = .error := if_pos hFinds
        refine ⟨?_, ?_, ?_, ?_⟩
        · simpa only [hSame, if_pos hFinds] using inv.bytes
        · have hForwarded := inv.forwarded
          rw [hIdle.1] at hForwarded
          simp only [hNothing, if_pos hFinds]
          exact hForwarded
        · simpa only [if_pos hFinds] using inv.first
        · intro hNone
          rw [if_pos hFinds] at hNone
          obtain ⟨hSubscribed, hOpen, _⟩ := inv.waiting hNone
          exact ⟨hSubscribed, hOpen, by rw [hNothing]; rfl⟩
      · have hParts := not_or.mp hFinds
        simp only [if_neg hFinds, if_neg hParts.1]
        exact inv.read hIdle.1 (by simpa using hParts.1) hParts.2
  | handleCmdResponse m =>
      obtain ⟨hIdle, hAfter⟩ := Option.ite_none_right_eq_some.mp hStep
      cases hAfter
      have hForwarded := inv.forwarded
      rw [hIdle.1, forwards_nil, List.map_nil, List.append_nil] at hForwarded
      refine ⟨inv.bytes, ?_, inv.first, fun hNone => absurd ?_ hIdle.2⟩
      · rw [forwards_handleCmdResponse, hForwarded, List.map_nil, List.append_nil]
      · rw [hForwarded, show s.found = [] from hNone]
        rfl
  | act =>
      cases hWork : s.work with
      | nil => simp [Stream.step, hWork] at hStep
      | cons action rest =>
          simp only [Stream.step, hWork, Option.some.injEq] at hStep
          subst hStep
          exact inv.act hWork

theorem Stream.Runs.inv {text : Str} {s : Stream} (run : Stream.Runs recvBufferSize conn text s) :
    s.Inv recvBufferSize conn text := by
  refine Calls.invariant ?_ ?_ run
  · rintro s rfl
    exact Stream.Inv.initial text
  · intro s event s' _ inv _ hStep
    exact inv.step hStep

/-- Once nothing is under way, something has been read. -/
theorem Stream.Inv.found_ne_nil {text : Str} {s : Stream} (inv : s.Inv recvBufferSize conn text)
    (hText : text ≠ []) (settled : s.Settled) : s.found ≠ [] := by
  intro hNone
  obtain ⟨hSubscribed, hOpen, _⟩ := inv.waiting hNone
  rcases settled.read with hClosed | ⟨hInFlight, hUnread⟩
  · rw [hOpen] at hClosed
    cases hClosed
  · have hAll := inv.bytes
    rw [hNone, hUnread hSubscribed, hInFlight] at hAll
    exact hText hAll.symm

theorem eq_singleton_of_flatMap {found : List Str} {cmd : Str}
    (h : found.flatMap (commandOf recvBufferSize) = [cmd]) :
    0 < recvBufferSize ∧ ∃ b, found = [b] ∧ popNewline (b.take recvBufferSize) = cmd := by
  by_cases hRoom : recvBufferSize = 0
  · have hNone : found.flatMap (commandOf recvBufferSize) = [] := by
      apply List.flatMap_eq_nil_iff.mpr
      intro b _
      rw [commandOf, if_pos hRoom]
    rw [hNone] at h
    cases h
  · have hEach : found.flatMap (commandOf recvBufferSize)
        = found.map fun b => popNewline (b.take recvBufferSize) := by
      rw [List.map_eq_flatMap]
      congr 1
      funext b
      rw [commandOf, if_neg hRoom]
    rw [hEach] at h
    exact ⟨Nat.pos_of_ne_zero hRoom, List.map_eq_singleton_iff.mp h⟩

/-- Exactly one request with the whole command is forwarded if and only if the socket is read
with success only once, and at that time all of the command has arrived and fits the buffer. -/
theorem Stream.framed_iff {cmd : Str} {s : Stream} (hFree : '\n' ∉ cmd)
    (run : Stream.Runs recvBufferSize conn (cmd ++ ['\n']) s) (settled : s.Settled) :
    s.found ≠ [] ∧ (s.forwarded = [⟨conn, cmd⟩] ↔
      ∃ b, s.found = [b] ∧ cmd.length ≤ b.length ∧ cmd.length ≤ recvBufferSize ∧ 0 < recvBufferSize) := by
  have inv := run.inv
  refine ⟨inv.found_ne_nil (by simp) settled, ?_⟩
  have hForwarded := inv.forwarded
  rw [settled.work, forwards_nil, List.map_nil, List.append_nil] at hForwarded
  have hWhole : ∀ b, s.found = [b] →
      (popNewline (b.take recvBufferSize) = cmd ↔ cmd.length ≤ b.length ∧ cmd.length ≤ recvBufferSize) := by
    intro b hb
    have hPrefix : b.take recvBufferSize <+: cmd ++ ['\n'] :=
      (List.take_prefix ..).trans (inv.first b (by rw [hb]; rfl))
    rw [popNewline_eq_iff hFree hPrefix, List.length_take, Nat.le_min, and_comm]
  constructor
  · intro hOne
    rw [hForwarded, List.map_eq_singleton_iff] at hOne
    obtain ⟨command, hCommands, hSame⟩ := hOne
    obtain ⟨hRoom, b, hb, hRead⟩ := eq_singleton_of_flatMap hCommands
    cases hSame
    obtain ⟨hLong, hFits⟩ := (hWhole b hb).mp hRead
    exact ⟨b, hb, hLong, hFits, hRoom⟩
  · rintro ⟨b, hb, hLong, hFits, hRoom⟩
    rw [hForwarded, hb, List.flatMap_singleton, commandOf, if_neg (Nat.ne_of_gt hRoom),
      (hWhole b hb).mpr ⟨hLong, hFits⟩]
    rfl

section Runs

/-- The whole line arrives at once. -/
def Stream.afterWhole : Stream :=
  (Calls.replay (Stream.step 4096 5) anyCall (.initial "ls\n".toList)
    [.arrive 3, .poll, .enqueue true, .handleDataReceived, .act, .act]).get (by decide +kernel)

theorem Stream.framed_afterWhole : Stream.afterWhole.forwarded = [⟨5, "ls".toList⟩] :=
  ((Stream.framed_iff (show '\n' ∉ "ls".toList by decide)
    (.of_replay (.start rfl) (Option.some_get _).symm)
    ⟨by decide +kernel, by decide +kernel, by decide +kernel, by decide +kernel⟩).2.mpr
      ⟨"ls\n".toList, by decide +kernel, by decide, by decide, by decide⟩)

/-- The line comes in two pieces, and the first one is taken for the command. -/
def Stream.afterSplit : Stream :=
  (Calls.replay (Stream.step 4096 5) anyCall (.initial "ls\n".toList)
    [.arrive 1, .poll, .enqueue true, .handleDataReceived, .act, .act, .arrive 2]).get (by decide +kernel)

theorem Stream.not_framed_afterSplit :
    Stream.Runs 4096 5 ("ls".toList ++ ['\n']) Stream.afterSplit ∧ Stream.afterSplit.Settled ∧
      Stream.afterSplit.forwarded ≠ [⟨5, "ls".toList⟩] :=
  ⟨.of_replay (.start rfl) (Option.some_get _).symm,
    ⟨by decide +kernel, by decide +kernel, by decide +kernel, by decide +kernel⟩, by decide +kernel⟩

end Runs

end IpcServerActor

end Service
