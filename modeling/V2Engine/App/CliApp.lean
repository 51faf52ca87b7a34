import V2Engine.Service.CmdActor

/-! The command line of the client (app/cli/cli_app.cpp): what `run` makes of its arguments. -/
namespace App

open Service Text

namespace CliApp

/-- What a run of the client does. -/
inductive Outcome where
  | help (sub : Str)
  | version
  | status
  | monitor
  | unknownOption (option : Str)
  | sendToDaemon (cmd : Str)
  | nothing
deriving DecidableEq

structure Collected where
  sub : Str
  args : List Str
  helpSeen : Bool

def helpOptions : List Str := ["-h".toList, "--help".toList]
def versionOptions : List Str := ["-v".toList, "--version".toList]
def statusOptions : List Str := ["-s".toList, "--status".toList]
def monitorOptions : List Str := ["-m".toList, "--monitor".toList]

/-- The options that the client takes for itself wherever they stand. -/
def ownOptions : List Str := helpOptions ++ versionOptions ++ statusOptions ++ monitorOptions

/-- The loop over `argv`. -/
def collect : List Str → Collected → Except Outcome Collected
  | [], c => .ok c
  | s :: rest, c =>
      if s ∈ helpOptions then collect rest { c with helpSeen := true }
      else if s ∈ versionOptions then .error .version
      else if s ∈ statusOptions then .error .status
      else if s ∈ monitorOptions then .error .monitor
      else if c.sub = [] ∧ s.head? ≠ some '-' then collect rest { c with sub := s }
      else if s.head? = some '-' ∧ c.sub = [] then .error (.unknownOption s)
      else collect rest { c with args := c.args ++ [s] }

/-- One argument of a command with a subcommand. -/
def encodeArg (a : Str) : Str :=
  if '=' ∈ a then
    " --".toList ++ a.takeWhile (· ≠ '=') ++ " ".toList ++ (a.dropWhile (· ≠ '=')).tail
  else " ".toList ++ a

/-- The arguments of a command without one. -/
def joinArgs : List Str → Str
  | [] => []
  | [a] => a
  | a :: rest => a ++ " ".toList ++ joinArgs rest

def command (c : Collected) : Str :=
  if c.sub ≠ [] then c.sub ++ c.args.flatMap encodeArg else joinArgs c.args

def run (argv : List Str) : Outcome :=
  match argv with
  | [] => .help []
  | [_] => .help []
  | _ :: first :: rest =>
      if first = "help".toList then .help (rest.headD [])
      else
        match collect (first :: rest) ⟨[], [], false⟩ with
        | .error outcome => outcome
        | .ok c =>
            if c.helpSeen then .help c.sub
            else if c.sub = "version".toList then .version
            else if c.sub = "status".toList then .status
            else if c.sub = "monitor".toList then .monitor
            else if command c ≠ [] then .sendToDaemon (command c)
            else .nothing

theorem collect_args {args : List Str} {c : Collected} (hSub : c.sub ≠ []) (hOwn : ∀ a ∈ args, a ∉ ownOptions) :
    collect args c = .ok { c with args := c.args ++ args } := by
  induction args generalizing c with
  | nil => simp [collect]
  | cons a args ih =>
      have hFirst := hOwn a (List.mem_cons_self ..)
      simp only [ownOptions, List.mem_append, not_or] at hFirst
      obtain ⟨⟨⟨hHelp, hVersion⟩, hStatus⟩, hMonitor⟩ := hFirst
      rw [collect, if_neg hHelp, if_neg hVersion, if_neg hStatus, if_neg hMonitor, if_neg fun h => hSub h.1,
        if_neg fun h => hSub h.2]
      have hRest := ih (c := { c with args := c.args ++ [a] }) hSub fun b hb => hOwn b (List.mem_cons_of_mem _ hb)
      rw [hRest, List.append_assoc, List.singleton_append]

/-- A subcommand of the daemon and its arguments go to the daemon in one line. -/
theorem run_eq (program : Str) (handler : CmdActor.Handler) {args : List Str}
    (hOwn : ∀ a ∈ args, a ∉ ownOptions) :
    run (program :: handler.name :: args) = .sendToDaemon (handler.name ++ args.flatMap encodeArg) := by
  have hHelp : handler.name ≠ "help".toList := by cases handler <;> decide +kernel
  have hName : handler.name ≠ [] ∧ handler.name ≠ "version".toList ∧ handler.name ≠ "status".toList ∧
      handler.name ≠ "monitor".toList := by
    cases handler <;> decide +kernel
  have hCollect : collect (handler.name :: args) ⟨[], [], false⟩ = .ok ⟨handler.name, args, false⟩ := by
    obtain ⟨hOptions, hDash⟩ : handler.name ∉ ownOptions ∧ handler.name.head? ≠ some '-' := by
      cases handler <;> decide +kernel
    simp only [ownOptions, List.mem_append, not_or] at hOptions
    obtain ⟨⟨⟨hHelp, hVersion⟩, hStatus⟩, hMonitor⟩ := hOptions
    rw [collect, if_neg hHelp, if_neg hVersion, if_neg hStatus, if_neg hMonitor, if_pos ⟨rfl, hDash⟩,
      collect_args hName.1 hOwn, List.nil_append]
  obtain ⟨hSome, hVersion, hStatus, hMonitor⟩ := hName
  have hCommand : command ⟨handler.name, args, false⟩ = handler.name ++ args.flatMap encodeArg := if_pos hSome
  have hNotEmpty : command ⟨handler.name, args, false⟩ ≠ [] := by
    rw [hCommand]
    exact List.append_ne_nil_of_left_ne_nil hSome _
  rw [run, if_neg hHelp, hCollect]
  dsimp only
  rw [if_neg Bool.false_ne_true, if_neg hVersion, if_neg hStatus, if_neg hMonitor, if_pos hNotEmpty, hCommand]

end CliApp

end App
