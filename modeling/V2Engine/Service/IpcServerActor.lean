import V2Engine.Service.CmdActor

/-! The handlers of the actor that serves the command line clients (service/ipc/ipc_server_actor.cpp).
A handler is the list of what it does outside of the actor, in its order: the loop thread and
the kernel may come between two of these actions. -/
namespace Service

open Text

/-- What `recv` finds when it does not wait. -/
inductive Recv where
  | data (bytes : Str)
  | endOfStream
  | error
deriving DecidableEq

namespace IpcServerActor

/-- The messages of `ipc_server`. The tag of a response is for what a proof wants to know of it. -/
inductive IpcMessage (τ : Type) where
  | newConnection (conn : ConnHandle)
  | dataReceived (conn : ConnHandle)
  | cmdResponse (m : CmdResponse) (tag : τ)
deriving DecidableEq

/-- The actions of a handler, on the connection its message names. -/
inductive Action where
  | sendCmdRequest (cmd : Str)
  | send (result : Str)
  | unsubscribe
  | closeClient
  | erase
deriving DecidableEq

/-- A newline at the end is not a part of the command. -/
def popNewline (cmd : Str) : Str := if cmd.getLast? = some '\n' then cmd.dropLast else cmd

/-- `handle(IpcDataReceived)`, once `recv` has returned. -/
def handleDataReceived : Recv → List Action
  | .data bytes => [.sendCmdRequest (popNewline bytes), .unsubscribe]
  | .endOfStream => [.unsubscribe, .closeClient, .erase]
  | .error => []

/-- `handle(CmdResponse)`. -/
def handleCmdResponse (m : CmdResponse) : List Action :=
  .send m.result :: if m.closeOnSend then [.unsubscribe, .erase, .closeClient] else []

/-- The commands that a handler forwards. -/
def forwards (work : List Action) : List Str :=
  work.filterMap fun
    | .sendCmdRequest cmd => some cmd
    | _ => none

@[simp] theorem forwards_nil : forwards [] = [] := rfl

@[simp] theorem forwards_cons_sendCmdRequest (cmd : Str) (work : List Action) :
    forwards (.sendCmdRequest cmd :: work) = cmd :: forwards work := rfl

@[simp] theorem forwards_cons_send (result : Str) (work : List Action) :
    forwards (.send result :: work) = forwards work := rfl

@[simp] theorem forwards_cons_unsubscribe (work : List Action) :
    forwards (.unsubscribe :: work) = forwards work := rfl

@[simp] theorem forwards_cons_closeClient (work : List Action) :
    forwards (.closeClient :: work) = forwards work := rfl

@[simp] theorem forwards_cons_erase (work : List Action) : forwards (.erase :: work) = forwards work := rfl

/-- Only data is forwarded. -/
@[simp] theorem forwards_handleCmdResponse (m : CmdResponse) : forwards (handleCmdResponse m) = [] := by
  rw [handleCmdResponse]
  split <;> rfl

theorem popNewline_of_not_mem {cmd : Str} (hFree : '\n' ∉ cmd) : popNewline cmd = cmd :=
  if_neg fun h => hFree (List.mem_of_getLast? h)

theorem popNewline_append (cmd : Str) : popNewline (cmd ++ ['\n']) = cmd := by
  rw [popNewline, if_pos (by simp), List.dropLast_concat]

/-- What is read from the front of a line is its command exactly when it goes as far as the
command does; whether the newline is there does not matter. -/
theorem popNewline_eq_iff {cmd p : Str} (hFree : '\n' ∉ cmd) (hPrefix : p <+: cmd ++ ['\n']) :
    popNewline p = cmd ↔ cmd.length ≤ p.length := by
  rcases Nat.lt_or_ge cmd.length p.length with hLong | hShort
  · have hAll : p = cmd ++ ['\n'] := by
      apply hPrefix.eq_of_length_le
      rw [List.length_append]
      exact hLong
    rw [hAll, popNewline_append]
    simp
  · have hCmd : p <+: cmd := List.prefix_of_prefix_length_le hPrefix (List.prefix_append ..) hShort
    rw [popNewline_of_not_mem fun h => hFree (hCmd.subset h)]
    constructor
    · rintro rfl
      exact Nat.le_refl _
    · exact hCmd.eq_of_length_le

end IpcServerActor

end Service
