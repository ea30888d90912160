import Mathlib.Algebra.Group.Int.Defs
import Susrv.Base.Threads

/-!
# `SuShell` over the native session

The calls of the Java class, on any threads, with the native library under them.
An operation is an access to `_instance`, which no lock protects, or the part of a
native call between two accesses to `_su_session`; what the native side decides
(results of the system, of the shell, of `pthread_mutex_lock`) is the input of the
operation.  A native access through `_su_session` that is NULL ends the process: here
the call is stuck.

A native session is represented by its number.  No observers are registered.
-/

namespace Susrv.Java

open Base.Threads

/-! ## Values -/

structure SuShell where
  id : Nat
  mPfsRoot : String
  deriving DecidableEq

inductive Thrown
  | SuShellInvalidatedException
  | NullPointerException
  deriving DecidableEq

inductive Value
  | shell (shell : Option SuShell)
  | rval (rval : Int)
  | alive (alive : Bool)
  deriving DecidableEq

/-- A context is represented by the path of its files directory, absent for `null`. -/
inductive Call
  | getInstance (ctx : Option String) (smartFlag : Bool)
  | ping (this : SuShell)
  | exit (this : SuShell)
  | exec (this : SuShell) (command : String)
  | chmod (this : SuShell) (path : String) (mode : Int)
  | mkdir (this : SuShell) (path : String) (mode : Int)
  | cp (this : SuShell) (sourcePath destinationPath : String) (mode : Int)
  | cd (this : SuShell) (cwdPath : String)
  deriving DecidableEq

/-! ## Operations -/

inductive Op
  /-- `_instance == null` -/
  | test
  /-- `_instance = new SuShell(ctx)` -/
  | construct (mPfsRoot : String)
  | read
  /-- `_instance = null` -/
  | clear
  | openTest
  | openEnd (pfs_root : String)
  | execTest
  | execLock
  | execWrite (cmd_str : String)
  | execEnd
  | exitTest
  | exitEnd
  | ping

def Op.Result : Op → Type
  | .test | .openTest | .execTest | .exitTest | .ping => Bool
  | .construct _ | .clear | .execWrite _ => Unit
  | .read => Option SuShell
  | .openEnd _ | .execLock | .execEnd | .exitEnd => Int

abbrev Method := Code Op Op.Result Thrown

def Op.perform (o : Op) : Method o.Result := Code.perform o

def isNull : Method Bool := Op.test.perform

def construct (mPfsRoot : String) : Method Unit := (Op.construct mPfsRoot).perform

def read : Method (Option SuShell) := Op.read.perform

def clear : Method Unit := Op.clear.perform

/-- An access to a member of `_instance`. -/
def dereference : Method SuShell := do
  match ← read with
  | some shell => return shell
  | none => throw .NullPointerException

/-! ## `LibSusrv` -/

namespace LibSusrv

def SYS_ERR : Int := -9999

def SESSION_EXISTS_ERR : Int := -9998

def NO_SESSION_ERR : Int := -9997

/-- `_su_session != NULL`, at one of three places. -/
def openTest : Method Bool := Op.openTest.perform

def execTest : Method Bool := Op.execTest.perform

def exitTest : Method Bool := Op.exitTest.perform

def openShellSession (pfsRoot : String) : Method Int := do
  if ← openTest then return SESSION_EXISTS_ERR
  else (Op.openEnd pfsRoot).perform

def exec (cmd : String) : Method Int := do
  if !(← execTest) then return NO_SESSION_ERR
  else
    let last_err : Int ← Op.execLock.perform
    if last_err ≠ 0 then return SYS_ERR
    else
      (Op.execWrite cmd).perform
      Op.execEnd.perform

def exitShellSession : Method Int := do
  if !(← exitTest) then return NO_SESSION_ERR
  else Op.exitEnd.perform

def pingTest : Method Bool := Op.ping.perform

def ping : Method Int := do
  if ← pingTest then return 1 else return 0

end LibSusrv

/-! ## `SuShell` -/

def ERRNO_EEXIST : Int := 17

/-- `%o` of an `int`. -/
def octal (n : Int) : String := String.ofList (Nat.toDigits 8 (n % 2 ^ 32).toNat)

namespace SuShell

def invalidatedSessionError : Method Unit := do
  clear
  throw .SuShellInvalidatedException

def ping (_this : SuShell) : Method Bool := do
  let alive : Bool := 0 < (← LibSusrv.ping)
  if !alive then
    try invalidatedSessionError
    catch
      | .SuShellInvalidatedException => pure ()
      | e => throw e
  return alive

def exit (_this : SuShell) : Method Int := do
  clear
  LibSusrv.exitShellSession

def exec (_this : SuShell) (command : String) : Method Int := do
  let rval ← LibSusrv.exec command
  if rval = LibSusrv.NO_SESSION_ERR then invalidatedSessionError
  return rval

def chmod (_this : SuShell) (path : String) (mode : Int) : Method Int := do
  let rval ← LibSusrv.exec ("chmod " ++ octal mode ++ " " ++ path)
  if rval = LibSusrv.NO_SESSION_ERR then invalidatedSessionError
  return rval

def mkdir (this : SuShell) (path : String) (mode : Int) : Method Int := do
  let rval ← this.exec ("mkdir -p " ++ path)
  if rval = LibSusrv.NO_SESSION_ERR then invalidatedSessionError
  if (rval = 0 ∨ rval = ERRNO_EEXIST) ∧ 0 < mode then this.chmod path mode
  else return rval

def cp (this : SuShell) (sourcePath destinationPath : String) (mode : Int) : Method Int := do
  let rval ← this.exec ("cp " ++ sourcePath ++ " " ++ destinationPath)
  if rval = LibSusrv.NO_SESSION_ERR then invalidatedSessionError
  if rval = 0 ∧ 0 < mode then this.chmod destinationPath mode
  else return rval

def cd (this : SuShell) (cwdPath : String) : Method Int := do
  let rval ← this.exec ("cd " ++ cwdPath)
  if rval = LibSusrv.NO_SESSION_ERR then invalidatedSessionError
  return rval

/-- The results of the first two commands are only logged. -/
def updatePrivateEnvironment (this : SuShell) : Method Unit := do
  let _ ← LibSusrv.exec ("export PATH=" ++ this.mPfsRoot ++ "/bin:$PATH")
  let _ ← LibSusrv.exec ("export LD_LIBRARY_PATH=" ++ this.mPfsRoot ++ "/lib")
  try let _ ← this.cd this.mPfsRoot
  catch
    | .SuShellInvalidatedException => pure ()
    | e => throw e

def getInstance (ctx : Option String) (smartFlag : Bool) : Method (Option SuShell) := do
  if ← isNull then
    match ctx with
    | none => throw .NullPointerException
    | some filesDir =>
        construct filesDir
        let rval ← LibSusrv.openShellSession (← dereference).mPfsRoot
        if rval = 0 then
          if smartFlag then (← dereference).updatePrivateEnvironment
        else if rval ≠ LibSusrv.SESSION_EXISTS_ERR then
          clear
  read

end SuShell

def Call.code : Call → Method Value
  | .getInstance ctx smartFlag => .shell <$> SuShell.getInstance ctx smartFlag
  | .ping this => .alive <$> this.ping
  | .exit this => .rval <$> this.exit
  | .exec this command => .rval <$> this.exec command
  | .chmod this path mode => .rval <$> this.chmod path mode
  | .mkdir this path mode => .rval <$> this.mkdir path mode
  | .cp this sourcePath destinationPath mode =>
      .rval <$> this.cp sourcePath destinationPath mode
  | .cd this cwdPath => .rval <$> this.cd cwdPath

/-! ## What a command can do -/

section Commands

variable {answers : List ((o : Op) × o.Result)} {result : Except Thrown Int} {cmd : String}
  {rval : Int}

/-- No session, no lock, or a command that is written and ends. -/
theorem LibSusrv.exec_cases (h : Code.Yields (LibSusrv.exec cmd) answers result) :
    (answers = [⟨.execTest, false⟩] ∧ result = .ok NO_SESSION_ERR) ∨
    (∃ last_err : Int, last_err ≠ 0 ∧
      answers = [⟨.execTest, true⟩, ⟨.execLock, last_err⟩] ∧ result = .ok SYS_ERR) ∨
    (∃ rval : Int, answers = [⟨.execTest, true⟩, ⟨.execLock, (0 : Int)⟩,
      ⟨.execWrite cmd, ()⟩, ⟨.execEnd, rval⟩] ∧ result = .ok rval) := by
  unfold LibSusrv.exec LibSusrv.execTest at h
  obtain ⟨bound, answers₁, rfl, h₁⟩ := Code.Yields.perform_bind h
  match bound, h₁ with
  | false, h₁ =>
      obtain ⟨rfl, rfl⟩ := Code.Yields.pure_iff.mp h₁
      exact .inl ⟨rfl, rfl⟩
  | true, h₁ =>
      obtain ⟨last_err, answers₂, rfl, h₂⟩ := Code.Yields.perform_bind h₁
      rcases Code.Yields.ite h₂ with ⟨hlock, h₂⟩ | ⟨hlock, h₂⟩
      · obtain ⟨rfl, rfl⟩ := Code.Yields.pure_iff.mp h₂
        exact .inr (.inl ⟨last_err, hlock, rfl, rfl⟩)
      · obtain ⟨_, answers₃, rfl, h₃⟩ := Code.Yields.perform_bind h₂
        have hzero : last_err = (0 : Int) := not_not.mp hlock
        subst hzero
        cases h₃ with
        | @op _ _ rval _ _ h =>
            cases h
            exact .inr (.inr ⟨rval, rfl, rfl⟩)

/-- The test for an invalidated session, and what follows it. -/
theorem SuShell.checked_cases (next : Unit → Method Int)
    (h : Code.Yields (if rval = LibSusrv.NO_SESSION_ERR then
      SuShell.invalidatedSessionError >>= next else next ()) answers result) :
    (rval = LibSusrv.NO_SESSION_ERR ∧ answers = [⟨.clear, ()⟩] ∧
      result = .error .SuShellInvalidatedException) ∨
    (rval ≠ LibSusrv.NO_SESSION_ERR ∧ Code.Yields (next ()) answers result) := by
  rcases Code.Yields.ite h with ⟨hno, h⟩ | ⟨hno, h⟩
  · cases h with
    | op h =>
        cases h
        exact .inl ⟨hno, rfl, rfl⟩
  · exact .inr ⟨hno, h⟩

end Commands

/-! ## The process -/

/-- `session` is the session bound when the call returned, `seen` tells whether one was
bound at any moment of the call, `commands` counts the command texts it has written. -/
inductive Event
  | bound (session : Nat)
  | unbound (session : Nat)
  | executed (call : Call) (session : Nat)
  | returned (call : Call) (result : Except Thrown Value) (seen : Bool) (commands : Nat)
      (session : Option Nat)
  deriving DecidableEq

variable {τ : Type}

/-- The fields from `current` on are history, the last event first; `openFailed` tells
that the call's `openShellSession` has returned an error. -/
structure Host (τ : Type) where
  _instance : Option SuShell
  shells : Nat
  su_session : Option Nat
  sessions : Nat
  current : τ → Option Call
  seen : τ → Bool
  openFailed : τ → Bool
  commands : τ → Nat
  log : List Event

def Host.init : Host τ :=
  ⟨none, 0, none, 0, fun _ => none, fun _ => false, fun _ => false, fun _ => 0, []⟩

def unboundEvent : Option Nat → List Event
  | none => []
  | some session => [.unbound session]

/-- `_su_session = session`; a session that was bound is replaced. -/
def Host.bind (s : Host τ) : Host τ :=
  { s with
    su_session := some s.sessions
    sessions := s.sessions + 1
    seen := fun _ => true
    log := .bound s.sessions :: (unboundEvent s.su_session ++ s.log) }

def Host.unbind (s : Host τ) : Host τ :=
  { s with su_session := none, log := unboundEvent s.su_session ++ s.log }

section Steps

variable [DecidableEq τ] (t : τ)

/-- The errors of open are `SU_SRV_SYSTEM_ERR` and those of `pthread_create`. -/
def OpenError (i : Int) : Prop := i = LibSusrv.SYS_ERR ∨ 0 < i

instance (i : Int) : Decidable (OpenError i) := inferInstanceAs (Decidable (_ ∨ _))

/-- What is done through `_su_session`. -/
def Host.use {α : Type} (s : Host τ) (f : Nat → α) : Option α := s.su_session.map f

def act (s : Host τ) (i : Int) : (o : Op) → Option (Host τ × o.Result)
  | .test => some (s, s._instance.isNone)
  | .construct mPfsRoot =>
      some ({ s with _instance := some ⟨s.shells, mPfsRoot⟩, shells := s.shells + 1 }, ())
  | .read => some (s, s._instance)
  | .clear => some ({ s with _instance := none }, ())
  | .openTest => some (s, s.su_session.isSome)
  | .openEnd _ =>
      if i = 0 then some (s.bind, i)
      else if OpenError i then
        some ({ s with openFailed := Function.update s.openFailed t true }, i)
      else none
  | .execTest => some (s, s.su_session.isSome)
  | .execLock => s.use fun _ => (s, i)
  | .execWrite _ => s.use fun session =>
      ({ s with
        commands := Function.update s.commands t (s.commands t + 1)
        log := (s.current t).elim s.log fun call => .executed call session :: s.log }, ())
  | .execEnd => s.use fun _ => (s, i)
  | .exitTest => some (s, s.su_session.isSome)
  | .exitEnd => s.use fun _ => (if i = 0 then s.unbind else s, i)
  | .ping => some (s, s.su_session.isSome)

def Host.enter (call : Call) (s : Host τ) : Host τ :=
  { s with
    current := Function.update s.current t (some call)
    seen := Function.update s.seen t s.su_session.isSome
    openFailed := Function.update s.openFailed t false
    commands := Function.update s.commands t 0 }

def Host.leave (call : Call) (result : Except Thrown Value) (s : Host τ) : Host τ :=
  { s with
    openFailed := Function.update s.openFailed t false
    log := .returned call result (s.seen t) (s.commands t) s.su_session :: s.log }

/-- The native shell dies and the handler invalidates the session. -/
def Host.die (s : Host τ) : Option (Host τ) := s.use fun _ => s.unbind

def suShell : System τ Call Op Op.Result Thrown Value Int Unit (Host τ) where
  code := Call.code
  enter := Host.enter
  act t o s i := act t s i o
  leave := Host.leave
  env _ := Host.die

end Steps

end Susrv.Java
