import V2Engine.Text.Split

/-! The actor that answers commands (service/cmd/cmd_actor.cpp). What the handlers other than
`pmu` answer depends on the rest of the daemon and is given as `reply`. -/
namespace Service

open Text

abbrev ConnHandle := Nat

structure CmdRequest where
  conn : ConnHandle
  cmd : Str
deriving DecidableEq

structure CmdResponse where
  conn : ConnHandle
  result : Str
  closeOnSend : Bool
deriving DecidableEq

namespace CmdActor

/-- The keys of `handlers_`. -/
inductive Handler where
  | actor
  | pmu
  | wifi
  | metrics
deriving DecidableEq, Repr

def Handler.name : Handler → Str
  | .actor => "actor".toList
  | .pmu => "pmu".toList
  | .wifi => "wifi".toList
  | .metrics => "metrics".toList

def findHandler (name : Str) : Option Handler := [Handler.actor, .pmu, .wifi, .metrics].find? (·.name = name)

/-- The loop of `dispatch` over what follows the first space. -/
def splitArgs (text : Str) : List Str :=
  match _hStart : text.dropWhile (· = ' ') with
  | [] => []
  | first :: start =>
      let arg := (first :: start).takeWhile (· ≠ ' ')
      match _hRest : (first :: start).dropWhile (· ≠ ' ') with
      | [] => [arg]
      | _ :: rest => arg :: splitArgs rest
termination_by text.length
decreasing_by
  have hFirst := List.length_dropWhile_le (p := (· = ' ')) text
  have hSecond := List.length_dropWhile_le (p := (· ≠ ' ')) (first :: start)
  rw [_hStart] at hFirst
  rw [_hRest, List.length_cons] at hSecond
  omega

theorem words_takeWhile {first : Char} {start : Str} (hFirst : first ≠ ' ') :
    Text.words ' ' ((first :: start).takeWhile (· ≠ ' ')) = [(first :: start).takeWhile (· ≠ ' ')] := by
  apply Text.words_eq_singleton
  · intro hMem
    simpa using List.mem_takeWhile_imp hMem
  · rw [List.takeWhile_cons_of_pos (by simpa using hFirst)]
    exact List.cons_ne_nil _ _

/-- The loop finds the words of the text. -/
theorem splitArgs_eq (text : Str) : splitArgs text = Text.words ' ' text := by
  have hSpaces : ∀ text : Str, Text.words ' ' (text.dropWhile (· = ' ')) = Text.words ' ' text :=
    fun text => Text.words_dropWhile text
  fun_induction splitArgs text with
  | case1 text hStart =>
      rw [← hSpaces, hStart]
      rfl
  | case2 text first start hStart arg hRest =>
      have hFirst : first ≠ ' ' := by simpa using head_of_dropWhile hStart
      have hAll : arg = first :: start := by
        rw [← List.takeWhile_append_dropWhile (p := (· ≠ ' ')) (l := first :: start), hRest, List.append_nil]
      rw [← hSpaces, hStart, ← hAll]
      exact (words_takeWhile hFirst).symm
  | case3 text first start hStart arg space rest hRest ih =>
      have hFirst : first ≠ ' ' := by simpa using head_of_dropWhile hStart
      have hSpace : space = ' ' := by simpa using head_of_dropWhile hRest
      have hAll : arg ++ ' ' :: rest = first :: start := by
        rw [← List.takeWhile_append_dropWhile (p := (· ≠ ' ')) (l := first :: start), hRest, hSpace]
      rw [← hSpaces text, hStart, ← hAll, Text.words_append_cons, ih]
      rw [words_takeWhile hFirst]
      rfl

/-- The part of `dispatch` before the handler is called. -/
def parse (cmd : Str) : Except Str (Handler × List Str) :=
  let name := cmd.takeWhile (· ≠ ' ')
  match findHandler name with
  | none => .error ("error: unknown command '".toList ++ name ++ "'\n".toList)
  | some handler =>
      match cmd.dropWhile (· ≠ ' ') with
      | [] => .ok (handler, [])
      | _ :: rest => .ok (handler, splitArgs rest)

section Answers

/-- The fields that the commands of all connections share. `waiting` remembers the
connections whose reading has been asked for and has not come. -/
structure State where
  pmuStatusPending : Bool
  pendingConn : ConnHandle
  waiting : List ConnHandle
deriving DecidableEq

def State.initial : State := ⟨false, 0, []⟩

/-- What the actor sends. A response remembers the connections for whose commands its text
was made. -/
inductive Output where
  | toIpcServer (m : CmdResponse) (madeFor : List ConnHandle)
  | pmuDataSubscribe
  | pmuDataUnsubscribe
deriving DecidableEq

/-- What it is given: a command, with the answers the other handlers would make, a reading of
the PMU as the text that `formatPmuStatus` makes of it, or `close` and `open`. -/
inductive Input where
  | cmdRequest (m : CmdRequest) (reply : Handler → List Str → Str)
  | pmuDataUpdate (body : Str)
  | reopen

def handlePmu (conn : ConnHandle) (args : List Str) (s : State) : Str × List Output × State :=
  match args with
  | [] => ("error: missing subcommand\n".toList, [], s)
  | cmd :: _ =>
      if cmd = "status".toList then
        ("Reading...\n".toList, [.pmuDataSubscribe],
          { s with pmuStatusPending := true, waiting := conn :: s.waiting })
      else ("error: unknown pmu subcommand '".toList ++ cmd ++ "'\n".toList, [], s)

def dispatch (m : CmdRequest) (reply : Handler → List Str → Str) (s : State) : Str × List Output × State :=
  match parse m.cmd with
  | .error text => (text, [], s)
  | .ok (.pmu, args) => handlePmu m.conn args s
  | .ok (handler, args) => (reply handler args, [], s)

def handleCmdRequest (m : CmdRequest) (reply : Handler → List Str → Str) (s : State) : List Output × State :=
  let (response, sent, s) := dispatch m reply s
  let s := if s.pmuStatusPending then { s with pendingConn := m.conn } else s
  (sent ++ [.toIpcServer ⟨m.conn, response, !s.pmuStatusPending⟩ [m.conn]], s)

def handlePmuDataUpdate (body : Str) (s : State) : List Output × State :=
  if s.pmuStatusPending then
    ([.pmuDataUnsubscribe, .toIpcServer ⟨s.pendingConn, body, true⟩ s.waiting],
      { s with pmuStatusPending := false, waiting := [] })
  else ([], s)

/-- `close`, after which the actor is opened again. -/
def reopen (s : State) : List Output × State :=
  if s.pmuStatusPending then ([.pmuDataUnsubscribe], { s with pmuStatusPending := false, waiting := [] })
  else ([], s)

def handle : Input → State → List Output × State
  | .cmdRequest m reply, s => handleCmdRequest m reply s
  | .pmuDataUpdate body, s => handlePmuDataUpdate body s
  | .reopen, s => reopen s

/-- All that the actor sends while it handles its messages one after the other. -/
def outputs : List Input → State → List Output
  | [], _ => []
  | input :: rest, s => (handle input s).1 ++ outputs rest (handle input s).2

end Answers

end CmdActor

end Service
