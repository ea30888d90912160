import Susrv.Native.Lifecycle

/-!
# The library over many sessions

One process that opens and exits sessions, one call after the other, with shells that
die between the calls.  Beside the `Process` of `Lifecycle` there is the log, which
open initialises, and what is left of earlier sessions.

A call reaches the log with the results of its own `malloc` and `fopen`; the handler
thread begins with `fileno(su_srv_log_fptr)` and so needs the stream.  The host is taken
to ignore `SIGPIPE`: a write to a shell that has died only fails.
-/

namespace Susrv.Native

open Base Base.CString

/-! ## `su_srv_log.c` -/

/-- The two pointers, each represented by whether it differs from NULL, and the counts of
streams that are open and path buffers that are allocated.  No function calls
`su_srv_log_close`, which would release them. -/
structure Log where
  su_srv_log_fptr : Bool
  su_srv_log_path : Bool
  streams : Nat
  buffers : Nat
  deriving DecidableEq

/-- `fopen` is 0 or the `errno` of its failure. -/
structure LogEnv where
  malloc : Bool
  fopen : Int

def su_srv_log_init (env : LogEnv) (l : Log) : Int × Log :=
  if env.malloc then
    let l := { l with su_srv_log_path := true, buffers := l.buffers + 1 }
    if env.fopen = 0 then (0, { l with su_srv_log_fptr := true, streams := l.streams + 1 })
    else (env.fopen, { l with su_srv_log_fptr := false })
  else (-1, { l with su_srv_log_path := false })

/-! ## The end of `session_handler_fn` -/

/-- Behind the `while` loop, with nobody else inside the library: of two attempts to lock
a mutex that is held, both fail. -/
def handlerEof (waitpid : Nat → WaitResult) : InProcess Unit := do
  match (← Proc.get).su_session with
  | none => Proc.stop .nullDereference
  | some session =>
      if !session.shell_sync_mutex then Proc.stop .nullDereference
      else if session.shell_sync_owner.isSome then
        if session.shell_sync_ready then return ()
        else Proc.stop .nullDereference
      else
        let _ ← shell_stop_process waitpid
        invalidate_current_session

/-! ## The process -/

/-- `eofPending`: a handler thread runs that has not seen the end of its shell.
`unreaped` and `unjoined` count the children and handler threads of sessions that are
gone. -/
structure Library where
  process : Process
  owner_pid : Nat
  log : Log
  eofPending : Bool
  unreaped : Nat
  unjoined : Nat
  fault : Bool

inductive LibraryAction
  | open (env : OpenEnv) (log : LogEnv) (pfs_root : Bytes)
  | exit (env : ExitEnv) (me : Nat)
  | die (waitpid : Nat → WaitResult)

def Library.init (owner_pid : Nat) (paths : List Bytes) : Library where
  process := { role := .caller, su_session := none, allocated := false, fds := 0, paths := paths,
               shell := .none, handler := .none }
  owner_pid := owner_pid
  log := ⟨false, false, 0, 0⟩
  eofPending := false
  unreaped := 0
  unjoined := 0
  fault := false

/-- When no session is left, its child and its thread are past ones. -/
def Library.settle (h : Library) : Library :=
  if h.process.su_session.isSome then h
  else { h with
    process := { h.process with shell := .none, handler := .none }
    eofPending := false
    unreaped := if h.process.shell = .unreaped then h.unreaped + 1 else h.unreaped
    unjoined := if h.process.handler = .running then h.unjoined + 1 else h.unjoined }

/-- The outcome of a call in the process that has made it. -/
def Library.after {α : Type} (h : Library) : Option (Outcome End Process α) → Option Library
  | none => none
  | some (.returned _ w) => some { h with process := w }.settle
  | some (.ended _ w) => some { h with process := w, fault := true }

/-- `session_handler_fn` begins: without a stream `fileno` ends the process. -/
def Library.startHandler (bound : Bool) (h : Library) : Library :=
  if !bound && h.process.su_session.isSome then
    { h with eofPending := true, fault := h.fault || !h.log.su_srv_log_fptr }
  else h

def callerOutcome (outcomes : List (Outcome End Process Int)) : Option (Outcome End Process Int) :=
  outcomes.find? fun o => o.process.role = .caller

theorem callerOutcome_cons {o : Outcome End Process Int} {outcomes : List (Outcome End Process Int)}
    (h : o.process.role = .caller) : callerOutcome (o :: outcomes) = some o :=
  List.find?_cons_of_pos (by simpa using h)

/-- The log as open leaves it. -/
def Library.openLog (env : OpenEnv) (log : LogEnv) (h : Library) : Library :=
  if h.process.su_session.isNone && env.pfs_init then
    { h with log := (su_srv_log_init log h.log).2 }
  else h

def Library.step (h : Library) : LibraryAction → Option Library
  | .open env log pfs_root =>
      if h.fault then none
      else
        ((h.openLog env log).after (callerOutcome
          (su_srv_open_shell_session env pfs_root h.owner_pid h.process))).map
            (Library.startHandler h.process.su_session.isSome)
  | .exit env me =>
      if h.fault then none
      else h.after (su_srv_exit_shell_session env me h.process).head?
  | .die waitpid =>
      if h.fault || !h.eofPending then none
      else { h with eofPending := false }.after (handlerEof waitpid h.process).head?

end Susrv.Native
