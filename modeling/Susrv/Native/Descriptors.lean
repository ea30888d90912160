import Susrv.Base.FdTable
import Susrv.Native.Session

/-!
# The processes around a session and what they hold open

`Session` knows one shell whose end of the socket is open or closed.  Here that
end is a descriptor that the owner, the shell and whatever the shell starts may
hold, next to the client end and the log file.  The world begins where the open
call has forked the shell and created the handler thread; the forked child is
then in front of its first `dup2`.

A process may fork whenever it runs.  It closes or duplicates a descriptor only
as part of a command, since the su binary itself closes none; `execve` is taken
to succeed.
-/

namespace Susrv.Native

open Base Base.CString

variable {τ : Type}

/-- The open files of a session. -/
inductive OpenFile
  | client
  | peer
  | log
  deriving DecidableEq

/-- Their numbers in the owner.  `socket` and `accept` return the lowest free
number while `un_rdv_fd`, which is not 0, is open. -/
structure SessionFds where
  client : Nat
  peer : Nat
  log : Nat
  one_lt_client : 1 < client
  one_lt_peer : 1 < peer
  client_ne_peer : client ≠ peer
  client_ne_log : client ≠ log
  peer_ne_log : peer ≠ log

/-- None of the three is opened with a close-on-exec flag. -/
def SessionFds.table (fds : SessionFds) : FdTable OpenFile :=
  [⟨fds.client, .client, false⟩, ⟨fds.peer, .peer, false⟩, ⟨fds.log, .log, false⟩]

/-- The branch `if (shell_pid == 0)` of `shell_start_process`. -/
inductive ChildPc
  | dupStdin
  | dupStdout
  | execve
  | running
  deriving DecidableEq

/-- A running process other than the owner: the one that was forked as the shell, or
one of those it has started. -/
inductive ProcessId
  | shell
  | descendant (i : Nat)
  deriving DecidableEq

structure World (τ : Type) where
  session : State τ
  owner : FdTable OpenFile
  child : ChildPc
  shell : FdTable OpenFile
  descendants : List (FdTable OpenFile)

/-- Behind `create_handler_thread`, `code` being what `malloc` left in the cell. -/
def World.forked (fds : SessionFds) (code : Int) : World τ where
  session := State.opening code
  owner := fds.table
  child := .dupStdin
  shell := fds.table
  descendants := []

namespace World

variable (fds : SessionFds) (w : World τ)

/-- The descriptors of the processes that run beside the owner. -/
def tables : List (FdTable OpenFile) := w.shell :: w.descendants

/-- A dead shell holds nothing, and an end that nobody holds is closed. -/
def settle : World τ :=
  let shell := if w.session.shell.alive then w.shell else []
  let open_end := w.session.shell.peerOpen && ((shell :: w.descendants).any fun t => t.Holds .peer)
  { w with
    shell
    session := { w.session with shell := { w.session.shell with peerOpen := open_end } } }

/-- Open closes `peer_fd` before it publishes the session. -/
def afterOpener (s' : State τ) : FdTable OpenFile :=
  if w.session.opener = .closePeer ∧ s'.opener ≠ .closePeer then w.owner.close fds.peer
  else w.owner

/-- What the owner holds after a step of one of its threads; the deletion of the
session closes `afun_client_fd`. -/
def ownerAfter (s' : State τ) : FdTable OpenFile :=
  if s'.freed && !w.session.freed then (w.afterOpener fds s').close fds.client
  else w.afterOpener fds s'

/-- The descriptors of a process that runs past its `execve`. -/
def table : ProcessId → Option (FdTable OpenFile)
  | .shell => if w.session.shell.alive && w.child = .running then some w.shell else none
  | .descendant i => w.descendants[i]?

def setTable (t : FdTable OpenFile) : ProcessId → World τ
  | .shell => { w with shell := t }
  | .descendant i => { w with descendants := w.descendants.set i t }

/-- The next call of the forked child. -/
def childStep : ChildPc → Option (World τ)
  | .dupStdin => some { w with shell := w.shell.dup2 fds.peer 0, child := .dupStdout }
  | .dupStdout => some { w with shell := w.shell.dup2 0 1, child := .execve }
  | .execve => some { w with shell := w.shell.execve, child := .running }
  | .running => none

/-- A command has been read, so processes may close and duplicate descriptors. -/
def commanded : Bool := 0 < w.session.shell.taken

end World

inductive Deed (τ : Type)
  /-- A thread of the owner. -/
  | session (a : Action τ)
  /-- The forked child, up to its `execve`. -/
  | child
  /-- The shell reads, runs and prints, or dies. -/
  | shell (a : ShellAction)
  | fork (p : ProcessId)
  | close (p : ProcessId) (n : Nat)
  | dup2 (p : ProcessId) (old new : Nat)
  /-- A descendant prints to the socket. -/
  | print (i : Nat) (out : Bytes)
  | exit (i : Nat)
  deriving DecidableEq

/-- What the shell does by itself; its end is closed by `World.settle` only. -/
def ShellAction.own : ShellAction → Bool
  | .closePeer => false
  | _ => true

def World.step [DecidableEq τ] (fds : SessionFds) (w : World τ) : Deed τ → Option (World τ)
  | .session (.shell _) => none
  | .session a =>
      (Native.step w.session a).map fun s' =>
        ({ w with session := s', owner := w.ownerAfter fds s' } : World τ).settle
  | .child => if w.session.shell.alive then (w.childStep fds w.child).map World.settle else none
  | .shell a =>
      if a.own && (a = .die || w.child = .running) then
        (shellStep w.session a).map fun s' => { w with session := s' }.settle
      else none
  | .fork p =>
      (w.table p).map fun t => { w with descendants := w.descendants ++ [t] }.settle
  | .close p n =>
      if w.commanded then (w.table p).map fun t => (w.setTable (t.close n) p).settle else none
  | .dup2 p old new =>
      if w.commanded then (w.table p).map fun t => (w.setTable (t.dup2 old new) p).settle else none
  | .print i out =>
      (w.table (.descendant i)).bind fun t =>
        if t.Holds .peer then some { w with session := w.session.print out }.settle else none
  | .exit i =>
      (w.table (.descendant i)).map fun _ =>
        { w with descendants := w.descendants.eraseIdx i }.settle

end Susrv.Native
