import Susrv.Native.Lifecycle

/-!
# Concurrent calls of `su_srv_open_shell_session`

Any number of calls, each in a thread of its own, with the handler threads they
create.  The calls share `_su_session` and the file system; a program counter
stands before each access to one of them and before each thread creation, and a
step runs to the next one.  What else a call gets from the system is its
`OpenEnv`.  `resolve` tells which file a path names, since two values of
`pfs_root` may name one directory.

An access through `_su_session` that is NULL, like the other faults of the
sequential model, stops the process (`fault`).
-/

namespace Susrv.Native

open Base Base.CString

/-- The calls: their arguments, the results they get, and the process they run in. -/
structure OpenCalls (κ φ : Type) where
  pfs_root : κ → Bytes
  env : κ → OpenEnv
  owner_pid : Nat
  resolve : Bytes → φ

/-- `su_srv_open_shell_session`. -/
inductive OpenCallPc
  | test
  | bind (session : SuShellSession) (un_rdv_fd : Int)
  | startShell (session : SuShellSession)
  | createThread (session : SuShellSession)
  | stopShell (session : SuShellSession) (last_err : Int)
  | delete (session : SuShellSession) (last_err : Int)
  | publish (session : SuShellSession)
  | returned (last_err : Int)
  deriving DecidableEq

/-- `_su_session` is represented by the call that made the session.  `overwritten`
is set when a pointer to a session is replaced, `served` lists for each access of a
handler the call it was created by and the session it found. -/
structure Openers (κ φ : Type) where
  calls : κ → OpenCallPc
  su_session : Option κ
  files : List φ
  handler : κ → Bool
  fault : Bool
  overwritten : Bool
  served : List (κ × Option κ)

inductive OpenersAction (κ : Type)
  | open (c : κ)
  /-- The handler created by `c` evaluates `_su_session->afun_client_fd`. -/
  | handler (c : κ)
  deriving DecidableEq

variable {κ φ : Type}

def Openers.init (files : List φ) : Openers κ φ :=
  ⟨fun _ => .test, none, files, fun _ => false, false, false, []⟩

/-- The rest of `su_shell_session_af_un_rdv` after a successful `bind`: the peer's
descriptor and the session with its `afun_client_fd`. -/
def afterBind (env : OpenEnv) (session : SuShellSession) : Int × SuShellSession :=
  if !env.listen then (-1, session)
  else
    let session := { session with afun_client_fd := descriptor env.client_socket }
    if 0 < session.afun_client_fd && env.connect then (descriptor env.accept, session)
    else (-1, session)

/-- `if (peer_fd > 0)` -/
def afterRdv (rdv : Int × SuShellSession) : OpenCallPc :=
  if 0 < rdv.1 then .startShell rdv.2 else .delete rdv.2 SU_SRV_SYSTEM_ERR

section Steps

variable [DecidableEq κ] [DecidableEq φ] (o : OpenCalls κ φ)

def Openers.goto (s : Openers κ φ) (c : κ) (pc : OpenCallPc) : Openers κ φ :=
  { s with calls := Function.update s.calls c pc }

def Openers.crash (s : Openers κ φ) : Openers κ φ := { s with fault := true }

/-- Up to the rendez-vous of a call that has found no session. -/
def beforeBind (env : OpenEnv) (pfs_root : Bytes) (owner_pid : Nat) : OpenCallPc :=
  if !env.pfs_init then .returned SU_SRV_SYSTEM_ERR
  else
    match su_shell_session_new env pfs_root owner_pid with
    | none => .returned SU_SRV_SYSTEM_ERR
    | some session =>
        let un_rdv_fd := descriptor env.rdv_socket
        if un_rdv_fd ≠ 0 then .bind session un_rdv_fd else .delete session SU_SRV_SYSTEM_ERR

def openCallStep (s : Openers κ φ) (c : κ) : OpenCallPc → Option (Openers κ φ)
  | .test =>
      some (s.goto c
        (if s.su_session.isSome then .returned SU_SRV_SESSION_EXISTS_ERR
        else beforeBind (o.env c) (o.pfs_root c) o.owner_pid))
  | .bind session un_rdv_fd =>
      if 0 ≤ un_rdv_fd ∧ (o.env c).bind = true ∧ o.resolve session.sun_path ∉ s.files then
        some ({ s with files := o.resolve session.sun_path :: s.files }.goto c
          (afterRdv (afterBind (o.env c) session)))
      else some (s.goto c (.delete session SU_SRV_SYSTEM_ERR))
  | .startShell session =>
      if SU_SHELL_BINARY_CANDIDATES.any (·.any (o.env c).stat) then
        some (s.goto c
          (if (o.env c).fork then .createThread session else .delete session SU_SRV_SYSTEM_ERR))
      else some s.crash
  | .createThread session =>
      if !session.handler_pth then some s.crash
      else if (o.env c).pthread_create .caller = 0 then
        some ({ s with handler := Function.update s.handler c true }.goto c (.publish session))
      else some (s.goto c (.stopShell session ((o.env c).pthread_create .caller)))
  | .stopShell session last_err =>
      -- the exit command goes through `_su_session`
      if s.su_session.isSome then some (s.goto c (.delete session last_err)) else some s.crash
  | .delete session last_err =>
      if session.shell_sync_mutex && session.shell_sync_ready then
        some ({ s with
          files := if 0 < session.afun_client_fd then s.files.erase (o.resolve session.sun_path)
            else s.files }.goto c (.returned last_err))
      else some s.crash
  | .publish _ =>
      some ({ s with
        su_session := some c
        overwritten := s.overwritten || s.su_session.isSome }.goto c (.returned 0))
  | .returned _ => none

def Openers.step (s : Openers κ φ) : OpenersAction κ → Option (Openers κ φ)
  | .open c => if s.fault then none else openCallStep o s c (s.calls c)
  | .handler c =>
      if s.fault || !s.handler c then none
      else some { s with
        served := (c, s.su_session) :: s.served
        fault := s.su_session.isNone }

end Steps

end Susrv.Native
