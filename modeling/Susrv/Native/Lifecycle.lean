import Mathlib.Data.Multiset.AddSub
import Susrv.Base.Process
import Susrv.Native.Session

/-!
# Opening and exiting a session

`su_srv_open_shell_session` and `su_srv_exit_shell_session` with everything they
call, as functions of the results of the allocations and system calls they make.
A process is what one process knows and owns; after `fork` there are two.

Writes to the log and results the code ignores (`dup2`, `write`, `kill`, `close`)
are left out.  The handler thread and other callers do not move here.
-/

namespace Susrv.Native

open Base Base.CString

/-! ## The state of a process -/

/-- `shell_sync_owner` is the thread that has locked `*shell_sync_mutex`; the
pointers are represented by whether they differ from NULL. -/
structure SuShellSession where
  sun_path : Bytes
  afun_client_fd : Int
  handler_pth : Bool
  shell_sync_mutex : Bool
  shell_sync_ready : Bool
  shell_sync_owner : Option Nat
  deriving DecidableEq

inductive Role
  | caller
  | child
  deriving DecidableEq

/-- The child process of this process, if it ever had one. -/
inductive ChildShell
  | none
  | unreaped
  | reaped
  deriving DecidableEq

inductive HandlerThread
  | none
  | running
  | joined
  deriving DecidableEq

/-- `allocated` tells whether a session structure is allocated, `fds` are the
descriptors the library has open, `paths` the socket paths that exist. -/
structure Process where
  role : Role
  su_session : Option SuShellSession
  allocated : Bool
  fds : Multiset Nat
  paths : List Bytes
  shell : ChildShell
  handler : HandlerThread
  deriving DecidableEq

/-- How a process ends inside a call. -/
inductive End
  /-- `execve` has replaced it. -/
  | becameSu
  | nullDereference
  /-- An array is read behind its end. -/
  | outOfBounds
  deriving DecidableEq

abbrev InProcess := Proc End Process

/-! ## Results of the environment -/

/-- The results an open call gets.  A `Bool` tells success, a descriptor is absent
when the call that makes it fails; `pthread_create` may fail in one process only. -/
structure OpenEnv where
  pfs_init : Bool
  malloc_session : Bool
  malloc_handler_pth : Bool
  malloc_path : Bool
  malloc_mutex : Bool
  mutex_init : Bool
  malloc_cond : Bool
  cond_init : Bool
  rdv_socket : Option Nat
  bind : Bool
  listen : Bool
  client_socket : Option Nat
  connect : Bool
  accept : Option Nat
  stat : Bytes → Bool
  fork : Bool
  execve : Bool
  pthread_create : Role → Int
  waitpid : Nat → WaitResult

/-- The results an exit call gets; `waitpid i` answers its poll number `i`. -/
structure ExitEnv where
  trylock : Int
  signal : Int
  lock : Int
  waitpid : Nat → WaitResult
  join : Int

/-! ## `su_shell_session.c` -/

def AF_UNIX_PATH_MAX : Nat := 108

def SESSION_AFUN_FMT_WLEN : Nat := 12 + 5

/-- `"%s/var/run/su-%05d"`, cut by `snprintf` to the computed length. -/
def rdvPath (pfs_root : Bytes) (owner_pid : Nat) : Bytes :=
  (pfs_root ++ ascii "/var/run/su-" ++
    (List.replicate (5 - (decimal owner_pid).length) 48 ++ decimal owner_pid)).take
      (pfs_root.length + SESSION_AFUN_FMT_WLEN)

/-- `afun_path_len <= AF_UNIX_PATH_MAX` -/
def pathFits (pfs_root : Bytes) : Bool :=
  pfs_root.length + SESSION_AFUN_FMT_WLEN + 1 ≤ AF_UNIX_PATH_MAX

def init_af_un_address (env : OpenEnv) (pfs_root : Bytes) (owner_pid : Nat) : Option Bytes :=
  if pathFits pfs_root && env.malloc_path then some (rdvPath pfs_root owner_pid) else none

/-- The mutex and the condition, each a pointer; `none` is a non-zero result.  Only
a failed `pthread_..._init` is reported, not a failed `malloc`. -/
def init_mutexes (env : OpenEnv) : Option (Bool × Bool) :=
  if env.malloc_mutex && !env.mutex_init then none
  else if env.malloc_cond && !env.cond_init then none
  else some (env.malloc_mutex, env.malloc_cond)

def su_shell_session_new (env : OpenEnv) (pfs_root : Bytes) (owner_pid : Nat) :
    Option SuShellSession :=
  if env.malloc_session then do
    let sun_path ← init_af_un_address env pfs_root owner_pid
    let (mutex, ready) ← init_mutexes env
    return { sun_path, afun_client_fd := 0, handler_pth := env.malloc_handler_pth,
             shell_sync_mutex := mutex, shell_sync_ready := ready, shell_sync_owner := none }
  else none

/-- The C value of a descriptor. -/
def descriptor : Option Nat → Int
  | none => -1
  | some fd => fd

/-- `socket` or `accept`. -/
def openFd (fd : Option Nat) : InProcess Int := do
  Proc.modify fun w => { w with fds := fd.elim w.fds (· ::ₘ w.fds) }
  return descriptor fd

def close (fd : Int) : InProcess Unit :=
  Proc.modify fun w => { w with fds := if 0 ≤ fd then w.fds.erase fd.toNat else w.fds }

/-- `bind` to the address of the session. -/
def bindRdv (env : OpenEnv) (fd : Int) (session : SuShellSession) : InProcess Bool := do
  let w ← Proc.get
  if 0 ≤ fd ∧ env.bind = true ∧ session.sun_path ∉ w.paths then
    Proc.modify fun w => { w with paths := session.sun_path :: w.paths }
    return true
  else return false

/-- The `if` inside `su_shell_session_af_un_rdv`: the peer's descriptor, and the
session with its `afun_client_fd`.  Of an unnamed peer's address `accept` writes
the family only, so `sun_path` stays. -/
def rendezvous (env : OpenEnv) (un_rdv_fd : Int) (session : SuShellSession) :
    InProcess (Int × SuShellSession) := do
  if !(← bindRdv env un_rdv_fd session) then return (-1, session)
  else if !env.listen then return (-1, session)
  else
    let afun_client_fd ← openFd env.client_socket
    let session := { session with afun_client_fd }
    if 0 < afun_client_fd then
      if env.connect then
        let un_peer_fd ← openFd env.accept
        return (un_peer_fd, session)
      else return (-1, session)
    else return (-1, session)

def su_shell_session_af_un_rdv (env : OpenEnv) (session : SuShellSession) :
    InProcess (Int × SuShellSession) := do
  let un_rdv_fd ← openFd env.rdv_socket
  if un_rdv_fd ≠ 0 then
    let r ← rendezvous env un_rdv_fd session
    close un_rdv_fd
    return r
  else return (-1, session)

/-- Unlocks before it destroys; both pointers are used unseen. -/
def destroy_mutexes (session : SuShellSession) : InProcess Unit :=
  if session.shell_sync_mutex && session.shell_sync_ready then return ()
  else Proc.stop .nullDereference

def su_shell_session_delete (session : SuShellSession) : InProcess Unit := do
  destroy_mutexes session
  if 0 < session.afun_client_fd then
    close session.afun_client_fd
    Proc.modify fun w => { w with paths := w.paths.erase session.sun_path }
  Proc.modify fun w => { w with allocated := false }

/-! ## `su_srv.c` -/

/-- The array ends with NULL. -/
def SU_SHELL_BINARY_CANDIDATES : List (Option Bytes) :=
  [some (ascii "/sbin/su"), some (ascii "/system/sbin/su"), some (ascii "/system/bin/su"),
    some (ascii "/system/xbin/su"), none]

/-- The loop of `find_su_binary`.  `sizeof` counts the bytes of the array, so its
bound is met only far behind the last element; `stat(NULL)` fails. -/
def firstCandidate (stat : Bytes → Bool) : List (Option Bytes) → InProcess (Option Bytes)
  | [] => Proc.stop .outOfBounds
  | candidate :: rest => if candidate.any stat then return candidate else firstCandidate stat rest

def find_su_binary (env : OpenEnv) : InProcess (Option Bytes) :=
  firstCandidate env.stat SU_SHELL_BINARY_CANDIDATES

/-- The copy that `fork` makes has no child and no other thread. -/
def forkedChild (w : Process) : Process :=
  { w with role := .child, shell := .none, handler := .none }

/-- In the child `execve` comes back only when it fails. -/
def shell_start_process (env : OpenEnv) : InProcess Int := do
  let some _su_binary ← find_su_binary env | return SU_SRV_SYSTEM_ERR
  if !env.fork then return SU_SRV_SYSTEM_ERR
  else if ← Proc.fork forkedChild then
    Proc.modify fun w => { w with shell := .unreaped }
    return 0
  else if env.execve then Proc.stop .becameSu
  else return 0

def create_handler_thread (env : OpenEnv) (session : SuShellSession) : InProcess Int := do
  if !session.handler_pth then Proc.stop .nullDereference
  else
    let pth := env.pthread_create (← Proc.get).role
    if pth = 0 then
      Proc.modify fun w => { w with handler := .running }
    return pth

def WAIT_CHILD_MAX_RETRY : Nat := 3

/-- The loop over `waitpid`, `retries` times at most. -/
def waitChild (waitpid : Nat → WaitResult) (poll : Nat) : (retries : Nat) → InProcess Int
  | 0 => return -1
  | retries + 1 =>
      match waitpid poll with
      | .zero => waitChild waitpid (poll + 1) retries
      | .pid => do
          Proc.modify fun w => { w with shell := .reaped }
          return 0
      | .error => return -1

/-- The exit command goes to `_su_session`, whatever the argument is. -/
def shell_stop_process (waitpid : Nat → WaitResult) : InProcess Int := do
  if (← Proc.get).su_session.isNone then Proc.stop .nullDereference
  else waitChild waitpid 0 WAIT_CHILD_MAX_RETRY

/-- The part of open after `shell_start_process`. -/
def startHandler (env : OpenEnv) (session : SuShellSession) : InProcess Int := do
  let last_err ← create_handler_thread env session
  if last_err ≠ 0 then
    let _ ← shell_stop_process env.waitpid
    return last_err
  else return last_err

/-- The part of open under `if (peer_fd > 0)`. -/
def startShell (env : OpenEnv) (session : SuShellSession) (peer_fd : Int) : InProcess Int := do
  let last_err ← shell_start_process env
  let last_err ← if last_err ≠ 0 then pure last_err else startHandler env session
  close peer_fd
  return last_err

/-- The end of open: delete the session or publish it. -/
def publish (session : SuShellSession) (last_err : Int) : InProcess Int := do
  if last_err ≠ 0 then
    su_shell_session_delete session
    return last_err
  else
    Proc.modify fun w => { w with su_session := some session }
    return last_err

def su_srv_open_shell_session (env : OpenEnv) (pfs_root : Bytes) (owner_pid : Nat) :
    InProcess Int := do
  if (← Proc.get).su_session.isSome then return SU_SRV_SESSION_EXISTS_ERR
  else if !env.pfs_init then return SU_SRV_SYSTEM_ERR
  else
    match su_shell_session_new env pfs_root owner_pid with
    | none => return SU_SRV_SYSTEM_ERR
    | some session => do
        Proc.modify fun w => { w with allocated := true }
        let (peer_fd, session) ← su_shell_session_af_un_rdv env session
        let last_err ← if 0 < peer_fd then startShell env session peer_fd
          else pure SU_SRV_SYSTEM_ERR
        publish session last_err

def invalidate_current_session : InProcess Unit := do
  let session := (← Proc.get).su_session
  Proc.modify fun w => { w with su_session := none }
  match session with
  | none => Proc.stop .nullDereference
  | some session => su_shell_session_delete session

/-- A lock of `*shell_sync_mutex` by thread `me`, with the result given. -/
def lockSession (me : Nat) (session : SuShellSession) (result : Int) : InProcess Int := do
  if !session.shell_sync_mutex then Proc.stop .nullDereference
  else if result = 0 then
    Proc.modify fun w => { w with su_session := some { session with shell_sync_owner := some me } }
    return 0
  else return result

/-- The first part of exit, up to `if (last_err)`. -/
def acquireSession (env : ExitEnv) (me : Nat) (session : SuShellSession) : InProcess Int := do
  let last_err ← lockSession me session env.trylock
  if last_err ≠ 0 then
    if !session.shell_sync_ready then Proc.stop .nullDereference
    else if env.signal ≠ 0 then return 1
    else
      let last_err ← lockSession me session env.lock
      return if last_err ≠ 0 then 1 else 0
  else return 0

/-- The rest of exit. -/
def removeSession (env : ExitEnv) (session : SuShellSession) : InProcess Int := do
  let last_err ← shell_stop_process env.waitpid
  if last_err ≠ 0 then return last_err
  else if !session.handler_pth then Proc.stop .nullDereference
  else if env.join ≠ 0 then return env.join
  else
    Proc.modify fun w => { w with handler := .joined }
    invalidate_current_session
    return 0

/-- `su_srv_exit_shell_session` in thread `me`. -/
def su_srv_exit_shell_session (env : ExitEnv) (me : Nat) : InProcess Int := do
  match (← Proc.get).su_session with
  | none => return SU_SRV_NO_SESSION_ERR
  | some session => do
    -- a failure to lock is only logged
    let _ ← acquireSession env me session
    removeSession env session

end Susrv.Native
