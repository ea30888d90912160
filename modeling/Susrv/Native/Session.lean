import Mathlib.Logic.Function.Basic
import Susrv.Base.Monitor
import Susrv.Base.Transition
import Susrv.Native.Handler

/-!
# A published session and the threads that share it

The state of one session between `su_srv_open_shell_session` and its deletion,
with everything that moves in it: any number of application threads inside
`su_srv_exec`, `su_srv_exit_shell_session` or an accessor, the handler thread,
the rest of the open call, and the shell.  A program counter stands before each
access to shared memory or blocking call of the source, and one step runs to
the next one.

`_su_session` is re-read at every access written `_su_session->...`; such a step
on a NULL pointer, or one on the mutex, the condition variable or a field after
`su_shell_session_delete`, is a crash (`fault`), after which nothing runs.
Locking fails with `EBUSY` only.  A `write` on the socket after the shell's end
was closed is remembered in `sigpipe` and otherwise returns.

The handler takes whole lines from the socket; `Reader.readBytes_eq` is the
bridge to the byte loop.  `History` is bookkeeping that no step reads.
-/

namespace Susrv.Native

open Base Base.CString

variable {τ : Type}

/-- The threads that own the mutex or wait for it. -/
inductive Party (τ : Type)
  | handler
  | caller (t : τ)
  deriving DecidableEq

/-- One `write` to `afun_client_fd`. -/
inductive Chunk
  | cmd (text : Bytes)
  | lf
  | eocCmd
  | exitCmd
  deriving DecidableEq

def Chunk.bytes : Chunk → Bytes
  | .cmd text => text
  | .lf => [LF]
  | .eocCmd => EOC_CMD
  | .exitCmd => SU_SRV_EXIT_CMD

/-! ## Program counters -/

/-- `su_srv_exec`; from the first write on, `frame` counts the commands
submitted before this one. -/
inductive ExecPc
  | test
  | lock
  | locking
  | writeCmd
  | writeLf (frame : Nat)
  | writeEoc (frame : Nat)
  | writeEnd (frame : Nat)
  | reset (frame : Nat)
  | wait (frame : Nat)
  | waiting (frame : Nat)
  | unlock (frame : Nat)
  | read (frame : Nat)
  deriving DecidableEq

/-- `shell_stop_process`, with `again` polls of `waitpid` done. -/
inductive StopPc
  | writeExit
  | writeEnd
  | poll (again : Nat)
  deriving DecidableEq

/-- `su_srv_exit_shell_session`. -/
inductive ExitPc
  | test
  | trylock
  | signal
  | lock
  | locking
  | stop (p : StopPc)
  | join
  | joining
  | setNull
  | delete
  deriving DecidableEq

/-- An accessor: the test of `_su_session`, then the access. -/
inductive AccessPc
  | test
  | access
  deriving DecidableEq

inductive Call
  | idle
  | exec (cmd : Bytes) (pc : ExecPc)
  | exit (pc : ExitPc)
  | setTtyEcho (echo : Int) (pc : AccessPc)
  | getTtyEcho (pc : AccessPc)
  | lastTtyRead (pc : AccessPc)
  deriving DecidableEq

/-- `session_handler_fn`; `perform` is the block under `if (curr_byte == 10)`. -/
inductive HandlerPc
  | start
  | read
  | reading
  | perform (effects : List Effect)
  | trylock
  | signal
  | trylockAgain
  | stop (p : StopPc)
  | setNull
  | delete
  | terminated
  deriving DecidableEq

/-- The end of `su_srv_open_shell_session`, after `create_handler_thread`. -/
inductive OpenPc
  | closePeer
  | publish
  | done
  deriving DecidableEq

/-! ## The state -/

/-- The child process and its side of the socket pair; `tail` is the unfinished
line of its output, `status` is `$?`. -/
structure Shell where
  alive : Bool
  reaped : Bool
  peerOpen : Bool
  taken : Nat
  running : Bool
  status : Nat
  tail : Bytes

/-- A returned `su_srv_exec` call; `shellGone` if the shell's end was closed by then. -/
structure Result where
  frame : Nat
  value : Int
  shellGone : Bool
  deriving DecidableEq

/-- `statuses` lists the exit statuses of the commands run so far.  `echoed`,
`stored` and `signalled` count the end-of-command lines the shell delivered, the
codes the handler stored and the completions it signalled; `storedAtReset` is
`stored` at the last reset of the cell. -/
structure History where
  submitted : Nat
  statuses : List Nat
  echoed : Nat
  stored : Nat
  storedAtReset : Option Nat
  signalled : Nat
  results : List Result

structure State (τ : Type) where
  su_session : Bool
  freed : Bool
  sync : Monitor (Party τ)
  shell_cmd_exit_code : Int
  tty_echo : Bool
  last_tty_read : Option Bytes
  log : Bytes
  written : List Chunk
  toOwner : List Bytes
  calls : τ → Call
  handler : HandlerPc
  opener : OpenPc
  shell : Shell
  hist : History
  fault : Bool
  sigpipe : Bool

def Shell.init : Shell := ⟨true, false, true, 0, false, 0, []⟩

def History.init : History := ⟨0, [], 0, 0, none, 0, []⟩

/-- The open call has just created the handler thread; `code` is what `malloc`
left in `shell_cmd_exit_code`. -/
def State.opening (code : Int) : State τ where
  su_session := false
  freed := false
  sync := Monitor.init
  shell_cmd_exit_code := code
  tty_echo := true
  last_tty_read := none
  log := []
  written := []
  toOwner := []
  calls := fun _ => .idle
  handler := .start
  opener := .closePeer
  shell := Shell.init
  hist := History.init
  fault := false
  sigpipe := false

/-- The open call has returned 0. -/
def State.published (code : Int) : State τ :=
  { State.opening code with su_session := true, opener := .done }

/-! ## Accesses -/

def State.crash (s : State τ) : State τ := { s with fault := true }

/-- An access through the global `_su_session`. -/
def State.deref (s next : State τ) : State τ := if s.su_session then next else s.crash

/-- An access through a pointer obtained earlier. -/
def State.use (s next : State τ) : State τ := if s.freed then s.crash else next

def State.write (s : State τ) (c : Chunk) : State τ :=
  { s with written := s.written ++ [c], sigpipe := s.sigpipe || !s.shell.peerOpen }

/-- Output of the shell; it reaches the handler line by line. -/
def State.print (s : State τ) (out : Bytes) : State τ :=
  if s.shell.peerOpen then
    { s with
      toOwner := s.toOwner ++ (splitLines LF s.shell.tail out).1
      shell := { s.shell with tail := (splitLines LF s.shell.tail out).2 } }
  else s

/-- Result of `waitpid(shell_pid, &wstatus, WNOHANG)`. -/
inductive WaitResult
  | zero
  | pid
  | error
  deriving DecidableEq

/-- What a step gets back from the system: the sleeper a signal wakes, the result
of `waitpid`, an error of `pthread_join`. -/
inductive Answer (τ : Type)
  | ok
  | wake (w : Option (Party τ))
  | waitpid (r : WaitResult)
  | error
  deriving DecidableEq

/-- `shell_stop_process`; `next` and `done` continue in the thread that called it. -/
def stopStep (s : State τ) (ans : Answer τ) (next : StopPc → State τ → State τ)
    (done : Bool → State τ → State τ) : StopPc → Option (State τ)
  | .writeExit => some (s.deref (next .writeEnd (s.write .exitCmd)))
  | .writeEnd => some (s.use (next (.poll 0) (s.write .lf)))
  | .poll again =>
      match ans with
      | .waitpid .zero =>
          if s.shell.alive then
            some (s.use (if again + 1 < 3 then next (.poll (again + 1)) s else done false s))
          else none
      | .waitpid .pid =>
          if !s.shell.alive && !s.shell.reaped then
            some (s.use (done true { s with shell := { s.shell with reaped := true } }))
          else none
      | .waitpid .error => some (s.use (done false s))
      | _ => none

/-- `invalidate_current_session`, up to the call of `su_shell_session_delete`. -/
def setNullStep (s : State τ) (next : State τ → State τ) : Option (State τ) :=
  some (s.deref (next { s with su_session := false }))

/-- `su_shell_session_delete`; `destroy_mutexes` begins with an unlock. -/
def deleteStep (s : State τ) (next : State τ → State τ) : Option (State τ) :=
  some (s.use (next { s with freed := true, sync := s.sync.unlock }))

/-! ## The handler -/

def State.toHandler (s : State τ) (pc : HandlerPc) : State τ := { s with handler := pc }

section Steps

variable [DecidableEq τ]

def State.goto (s : State τ) (t : τ) (c : Call) : State τ :=
  { s with calls := Function.update s.calls t c }

def applyEffect (s : State τ) (ans : Answer τ) : Effect → Option (State τ)
  | .exitCode n =>
      some { s with
        shell_cmd_exit_code := n
        hist := { s.hist with stored := s.hist.stored + 1 } }
  | .signal =>
      match ans with
      | .wake w => (s.sync.signal w).map fun m =>
          { s with sync := m, hist := { s.hist with signalled := s.hist.signalled + 1 } }
      | _ => none
  | .line text =>
      some { s with
        log := if s.tty_echo then s.log ++ text else s.log
        last_tty_read := some text }

def handlerStep (s : State τ) (ans : Answer τ) : HandlerPc → Option (State τ)
  | .start => some (s.toHandler .read)
  | .read => some (s.deref (s.toHandler .reading))
  | .reading =>
      match s.toOwner with
      | line :: rest =>
          some (s.deref ({ s with toOwner := rest }.toHandler (.perform (lineEffects (cstr line)))))
      | [] =>
          -- EOF needs every descriptor of the peer end closed, the owner's copy included
          if s.shell.peerOpen || s.opener = .closePeer then none else some (s.toHandler .trylock)
  | .perform [] => some (s.toHandler .read)
  | .perform (e :: rest) =>
      if s.su_session then (applyEffect s ans e).map fun s' => s'.toHandler (.perform rest)
      else some s.crash
  | .trylock =>
      match s.sync.tryLock .handler with
      | some m => some (s.deref ({ s with sync := m }.toHandler (.stop .writeExit)))
      | none => some (s.deref (s.toHandler .signal))
  | .signal =>
      match ans with
      | .wake w => (s.sync.signal w).map fun m => s.deref ({ s with sync := m }.toHandler .trylockAgain)
      | _ => none
  | .trylockAgain =>
      match s.sync.tryLock .handler with
      | some m => some (s.deref ({ s with sync := m }.toHandler (.stop .writeExit)))
      | none => some (s.deref (s.toHandler .terminated))
  | .stop p =>
      stopStep s ans (fun p' s' => s'.toHandler (.stop p')) (fun _ s' => s'.toHandler .setNull) p
  | .setNull => setNullStep s fun s' => s'.toHandler .delete
  | .delete => deleteStep s fun s' => s'.toHandler .terminated
  | .terminated => none

/-! ## The application's threads -/

def execStep (s : State τ) (t : τ) (cmd : Bytes) : ExecPc → Option (State τ)
  | .test => some (s.goto t (if s.su_session then .exec cmd .lock else .idle))
  | .lock => some (s.deref (s.goto t (.exec cmd .locking)))
  | .locking =>
      if s.freed then some s.crash
      else (s.sync.tryLock (.caller t)).map fun m => { s with sync := m }.goto t (.exec cmd .writeCmd)
  | .writeCmd =>
      some (s.deref
        ({ s.write (.cmd cmd) with
            hist := { s.hist with submitted := s.hist.submitted + 1 } }.goto t
          (.exec cmd (.writeLf s.hist.submitted))))
  | .writeLf k => some (s.deref ((s.write .lf).goto t (.exec cmd (.writeEoc k))))
  | .writeEoc k => some (s.deref ((s.write .eocCmd).goto t (.exec cmd (.writeEnd k))))
  | .writeEnd k => some (s.deref ((s.write .lf).goto t (.exec cmd (.reset k))))
  | .reset k =>
      some (s.deref
        ({ s with
            shell_cmd_exit_code := SU_SRV_INVALID_RESULT_ERR
            hist := { s.hist with storedAtReset := some s.hist.stored } }.goto t (.exec cmd (.wait k))))
  | .wait k =>
      some (s.deref ({ s with sync := s.sync.wait (.caller t) }.goto t (.exec cmd (.waiting k))))
  | .waiting k =>
      if .caller t ∈ s.sync.sleepers then none
      else if s.freed then some s.crash
      else (s.sync.reacquire (.caller t)).map fun m =>
        { s with sync := m }.goto t (.exec cmd (.unlock k))
  | .unlock k => some (s.deref ({ s with sync := s.sync.unlock }.goto t (.exec cmd (.read k))))
  | .read k =>
      some (s.deref
        ({ s with
            hist := { s.hist with
              results := ⟨k, s.shell_cmd_exit_code, !s.shell.peerOpen⟩ :: s.hist.results } }.goto t
          .idle))

def exitStep (s : State τ) (t : τ) (ans : Answer τ) : ExitPc → Option (State τ)
  | .test => some (s.goto t (if s.su_session then .exit .trylock else .idle))
  | .trylock =>
      match s.sync.tryLock (.caller t) with
      | some m => some (s.deref ({ s with sync := m }.goto t (.exit (.stop .writeExit))))
      | none => some (s.deref (s.goto t (.exit .signal)))
  | .signal =>
      match ans with
      | .wake w => (s.sync.signal w).map fun m => s.deref ({ s with sync := m }.goto t (.exit .lock))
      | _ => none
  | .lock => some (s.deref (s.goto t (.exit .locking)))
  | .locking =>
      if s.freed then some s.crash
      else (s.sync.tryLock (.caller t)).map fun m =>
        { s with sync := m }.goto t (.exit (.stop .writeExit))
  | .stop p =>
      stopStep s ans (fun p' s' => s'.goto t (.exit (.stop p')))
        -- the failure branches return with the mutex still locked
        (fun stopped s' => s'.goto t (if stopped then .exit .join else .idle)) p
  | .join => some (s.deref (s.goto t (.exit .joining)))
  | .joining =>
      if ans = .error then some (s.goto t .idle)
      else if s.handler = .terminated then some (s.goto t (.exit .setNull))
      else none
  | .setNull => setNullStep s fun s' => s'.goto t (.exit .delete)
  | .delete => deleteStep s fun s' => s'.goto t .idle

/-- The one access of an accessor call, once its test has succeeded. -/
def accessStep (s : State τ) (t : τ) (resume : Call) (access : State τ → State τ) :
    AccessPc → Option (State τ)
  | .test => some (s.goto t (if s.su_session then resume else .idle))
  | .access => some (s.deref ((access s).goto t .idle))

def callStep (s : State τ) (t : τ) (ans : Answer τ) : Call → Option (State τ)
  | .idle => none
  | .exec cmd pc => execStep s t cmd pc
  | .exit pc => exitStep s t ans pc
  | .setTtyEcho echo pc =>
      accessStep s t (.setTtyEcho echo .access) (fun s => { s with tty_echo := echo != 0 }) pc
  | .getTtyEcho pc => accessStep s t (.getTtyEcho .access) id pc
  | .lastTtyRead pc => accessStep s t (.lastTtyRead .access) id pc

/-! ## The shell and the whole system -/

inductive ShellAction
  /-- Take the next chunk of the input. -/
  | take
  /-- The running command prints something. -/
  | print (out : Bytes)
  /-- The running command exits. -/
  | finish (status : Nat)
  | die
  /-- The last descriptor of the peer end is closed. -/
  | closePeer
  deriving DecidableEq

def shellStep (s : State τ) : ShellAction → Option (State τ)
  | .take =>
      if !s.shell.alive || s.shell.running then none
      else
        match s.written[s.shell.taken]? with
        | none => none
        | some (.cmd _) =>
            some { s with shell := { s.shell with taken := s.shell.taken + 1, running := true } }
        | some .lf => some { s with shell := { s.shell with taken := s.shell.taken + 1 } }
        | some .eocCmd =>
            some ({ s with
              shell := { s.shell with taken := s.shell.taken + 1, status := 0 }
              hist := { s.hist with
                echoed := if s.shell.peerOpen then s.hist.echoed + 1 else s.hist.echoed } }.print
              (eocLine s.shell.status))
        | some .exitCmd =>
            some { s with shell := { s.shell with taken := s.shell.taken + 1, alive := false } }
  | .print out => if s.shell.alive && s.shell.running then some (s.print out) else none
  | .finish status =>
      if s.shell.alive && s.shell.running && status ≤ 255 then
        some { s with
          shell := { s.shell with running := false, status := status }
          hist := { s.hist with statuses := s.hist.statuses ++ [status] } }
      else none
  | .die => if s.shell.alive then some { s with shell := { s.shell with alive := false } } else none
  | .closePeer =>
      if s.shell.peerOpen then some { s with shell := { s.shell with peerOpen := false } } else none

def openStep (s : State τ) : OpenPc → Option (State τ)
  | .closePeer => some { s with opener := .publish }
  | .publish => some { s with su_session := true, opener := .done }
  | .done => none

/-- The entry points an idle thread may call. -/
inductive Entry
  | exec (cmd : Bytes)
  | exit
  | setTtyEcho (echo : Int)
  | getTtyEcho
  | lastTtyRead
  deriving DecidableEq

def Entry.call : Entry → Call
  | .exec cmd => .exec cmd .test
  | .exit => .exit .test
  | .setTtyEcho echo => .setTtyEcho echo .test
  | .getTtyEcho => .getTtyEcho .test
  | .lastTtyRead => .lastTtyRead .test

inductive Action (τ : Type)
  | invoke (t : τ) (e : Entry)
  | caller (t : τ) (ans : Answer τ)
  | handler (ans : Answer τ)
  | spurious (t : τ)
  | opener
  | shell (a : ShellAction)
  deriving DecidableEq

def step (s : State τ) (a : Action τ) : Option (State τ) :=
  if s.fault then none
  else
    match a with
    | .invoke t e => if s.calls t = .idle then some (s.goto t e.call) else none
    | .caller t ans => callStep s t ans (s.calls t)
    | .handler ans => handlerStep s ans s.handler
    | .spurious t => (s.sync.wake (.caller t)).map fun m => { s with sync := m }
    | .opener => openStep s s.opener
    | .shell a => shellStep s a

end Steps

end Susrv.Native
