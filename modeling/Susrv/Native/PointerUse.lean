import Susrv.Native.Session

/-!
# The pointers that a session lives on

The mutex, the condition variable, the line buffer and the thread of a session and
the stream of the log, each represented by whether its pointer differs from NULL.
`Session` takes them as given.  Here they stand beside its state, with the code that
assigns to them: `session_handler_fn` replaces its buffer by what `realloc` gives and
stores into it unseen, and `destroy_mutexes` leaves two of them NULL.

Only single bytes tell when the buffer has to grow.  So the handler reads its lines
byte by byte here; with the last byte of a line it makes the step of `Session`.
-/

namespace Susrv.Native

open Base Base.CString

inductive Resource
  | shell_sync_mutex
  | shell_sync_ready
  | handler_buf
  | handler_pth
  | su_srv_log_fptr
  deriving DecidableEq

/-! ## Their users -/

/-- What `su_srv_exec` uses at a step. -/
def ExecPc.uses : ExecPc → List Resource
  | .locking | .waiting _ | .unlock _ => [.shell_sync_mutex]
  | .wait _ => [.shell_sync_ready, .shell_sync_mutex]
  | _ => []

/-- What `su_srv_exit_shell_session` uses; `destroy_mutexes` takes both pointers unseen. -/
def ExitPc.uses : ExitPc → List Resource
  | .trylock | .locking => [.shell_sync_mutex]
  | .signal => [.shell_sync_ready]
  | .join => [.handler_pth]
  | .delete => [.shell_sync_mutex, .shell_sync_ready]
  | _ => []

/-- What `session_handler_fn` uses, its stores apart; it begins with
`fileno(su_srv_log_fptr)`. -/
def HandlerPc.uses : HandlerPc → List Resource
  | .start => [.su_srv_log_fptr]
  | .perform (.exitCode _ :: _) | .perform (.line _ :: _) => [.handler_buf]
  | .perform (.signal :: _) => [.shell_sync_ready]
  | .trylock | .trylockAgain => [.shell_sync_mutex]
  | .signal => [.shell_sync_ready]
  | .delete => [.shell_sync_mutex, .shell_sync_ready]
  | _ => []

variable {τ : Type}

def State.uses (s : State τ) : Action τ → List Resource
  | .caller t _ =>
      match s.calls t with
      | .exec _ pc => pc.uses
      | .exit pc => pc.uses
      | _ => []
  | .handler _ => s.handler.uses
  | _ => []

/-! ## The session with its pointers -/

/-- `nullUsed`: a step has used a pointer that is NULL, which ends the process.  The `int`
`curr_line_offset`, which a line of 2 GiB would overflow, has no bound here. -/
structure Pointed (τ : Type) where
  session : State τ
  nonNull : Resource → Bool
  curr_line_offset : Nat
  nullUsed : Bool

/-- A step of the session, with what `realloc` gives if the handler calls it there. -/
structure PointedAction (τ : Type) where
  action : Action τ
  realloc : Bool

namespace Pointed

/-- Open has just created the handler thread. -/
def opening (code : Int) (nonNull : Resource → Bool) : Pointed τ where
  session := .opening code
  nonNull := nonNull
  curr_line_offset := 0
  nullUsed := false

/-- What the handler's `read` returns. -/
def nextByte (s : Pointed τ) : Option UInt8 :=
  if s.session.handler = .reading then
    (s.session.toOwner.head?.getD s.session.shell.tail)[s.curr_line_offset]?
  else none

/-- `curr_line_offset > (sizeof(handler_buf) - 1 - 1)` -/
def mustGrow (abi : Abi) (s : Pointed τ) : Bool := abi.sizeofPtr - 1 - 1 < s.curr_line_offset

/-- `handler_buf = realloc(handler_buf, curr_line_offset + 32)`, if it must grow. -/
def grow (abi : Abi) (realloc : Bool) (s : Pointed τ) : Pointed τ :=
  if s.mustGrow abi then { s with nonNull := Function.update s.nonNull .handler_buf realloc } else s

/-- `handler_buf[curr_line_offset++] = curr_byte` -/
def store (curr_byte : UInt8) (s : Pointed τ) : Pointed τ :=
  { s with
    curr_line_offset := if curr_byte = LF then 0 else s.curr_line_offset + 1
    nullUsed := !s.nonNull .handler_buf }

/-- The step uses pointers, and a session is there whose pointers they are. -/
def use (resources : List Resource) (session : State τ) (s : Pointed τ) : Pointed τ :=
  { s with session, nullUsed := !session.fault && resources.any fun r => !s.nonNull r }

/-- `destroy_mutexes` -/
def destroy (s : Pointed τ) : Pointed τ :=
  if s.session.freed then
    { s with nonNull := fun r =>
        s.nonNull r && r ≠ .shell_sync_mutex && r ≠ .shell_sync_ready }
  else s

/-- The step lets the buffer grow. -/
def reallocs (abi : Abi) (s : Pointed τ) : Action τ → Bool
  | .handler _ => s.nextByte.isSome && s.mustGrow abi
  | _ => false

variable [DecidableEq τ]

/-- The session at a byte of the output: only a line feed completes a line. -/
def readByte (curr_byte : UInt8) (a : Action τ) (s : State τ) : Option (State τ) :=
  if curr_byte = LF then Native.step s a
  else if s.fault then none
  else some (s.deref s)

def step (abi : Abi) (s : Pointed τ) (a : PointedAction τ) : Option (Pointed τ) :=
  if s.nullUsed then none
  else
    match a.action, s.nextByte with
    | .handler ans, some curr_byte =>
        (readByte curr_byte (.handler ans) s.session).map fun session =>
          { (s.grow abi a.realloc).store curr_byte with session }
    | action, _ =>
        (Native.step s.session action).map fun session =>
          (s.use (s.session.uses action) session).destroy

end Pointed

end Susrv.Native
