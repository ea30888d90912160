import Susrv.Base.Allocator
import Susrv.Native.Lifecycle

/-!
# The memory of a session

What `su_shell_session.c` and the handler thread allocate and free for a session,
with every result that `malloc` and `realloc` may give.  The rest of these
functions is in `Lifecycle` and `Handler`; that the handler writes inside its
buffer is shown in `HandlerBuffer`.
-/

namespace Susrv.Native

open Base Base.CString Base.Transition

/-! ## `su_shell_session.c` -/

/-- A session by its address, with the pointers in it; `line` is what stands in
`handler_buf` in front of `curr_line_offset`. -/
structure SessionBlocks where
  session : Nat
  handler_pth : Pointer
  handler_buf : Pointer
  last_tty_read : Pointer
  shell_sync_mutex : Pointer
  shell_sync_ready : Pointer
  line : Bytes

namespace OnHeap

def init_af_un_address (env : OpenEnv) (pfs_root : Bytes) : Alloc Bool := do
  if pathFits pfs_root then
    let afun_path ← Alloc.malloc env.malloc_path
    Alloc.free afun_path
    return afun_path.isSome
  else return false

/-- The mutex and the condition; `none` is a non-zero result.  The mutex stays where
`pthread_cond_init` fails. -/
def init_mutexes (env : OpenEnv) : Alloc (Option (Pointer × Pointer)) := do
  let mutex ← Alloc.malloc env.malloc_mutex
  if mutex.isSome && !env.mutex_init then
    Alloc.free mutex
    return none
  else
    let ready ← Alloc.malloc env.malloc_cond
    if ready.isSome && !env.cond_init then
      Alloc.free ready
      return none
    else return some (mutex, ready)

/-- `init_af_un_address(session) || init_mutexes(session)` -/
def initSession (env : OpenEnv) (pfs_root : Bytes) : Alloc (Option (Pointer × Pointer)) := do
  if ← init_af_un_address env pfs_root then init_mutexes env else return none

def su_shell_session_new (env : OpenEnv) (malloc_handler_buf : Bool) (pfs_root : Bytes) :
    Alloc (Option SessionBlocks) := do
  match ← Alloc.malloc env.malloc_session with
  | none => return none
  | some session =>
      let handler_pth ← Alloc.malloc env.malloc_handler_pth
      let handler_buf ← Alloc.malloc malloc_handler_buf
      match ← initSession env pfs_root with
      | none =>
          Alloc.free handler_pth
          Alloc.free handler_buf
          Alloc.free (some session)
          return none
      | some (shell_sync_mutex, shell_sync_ready) =>
          return some { session, handler_pth, handler_buf, last_tty_read := none,
                        shell_sync_mutex, shell_sync_ready, line := [] }

/-- Unlocks the mutex, destroys and frees the condition, then the mutex. -/
def destroy_mutexes (s : SessionBlocks) : Alloc Unit := do
  Alloc.use s.shell_sync_mutex
  Alloc.use s.shell_sync_ready
  Alloc.free s.shell_sync_ready
  Alloc.use s.shell_sync_mutex
  Alloc.free s.shell_sync_mutex

def su_shell_session_delete (s : SessionBlocks) : Alloc Unit := do
  destroy_mutexes s
  Alloc.free s.handler_pth
  Alloc.free s.handler_buf
  Alloc.free s.last_tty_read
  Alloc.free (some s.session)

/-! ## The handler -/

/-- `update last read`: the line is copied into a new block. -/
def updateLastRead (malloc_line : Bool) (s : SessionBlocks) : Alloc SessionBlocks := do
  let last_tty_read ← Alloc.malloc malloc_line
  if last_tty_read.isSome then Alloc.use last_tty_read
  Alloc.free s.last_tty_read
  return { s with last_tty_read }

/-- What the loop does for a line, as far as it touches the memory of the session. -/
def performEffects (malloc_line : Bool) : List Effect → SessionBlocks → Alloc SessionBlocks
  | [], s => return s
  | .exitCode _ :: rest, s => performEffects malloc_line rest s
  | .signal :: rest, s => do
      Alloc.use s.shell_sync_ready
      performEffects malloc_line rest s
  | .line _ :: rest, s => do
      let s ← updateLastRead malloc_line s
      performEffects malloc_line rest s

/-- `if (curr_line_offset > (sizeof(handler_buf) - 1 - 1)) realloc(...)` -/
def growBuffer (abi : Abi) (realloc_buf : Bool) (s : SessionBlocks) : Alloc SessionBlocks := do
  if abi.sizeofPtr - 1 - 1 < s.line.length then
    let handler_buf ← Alloc.realloc realloc_buf s.handler_buf
    return { s with handler_buf }
  else return s

/-- The body of the loop of `session_handler_fn`. -/
def handlerByte (abi : Abi) (realloc_buf malloc_line : Bool) (curr_byte : UInt8)
    (s : SessionBlocks) : Alloc SessionBlocks := do
  let s ← growBuffer abi realloc_buf s
  Alloc.use s.handler_buf
  let line := s.line ++ [curr_byte]
  if curr_byte = LF then
    performEffects malloc_line (lineEffects (cstr line)) { s with line := [] }
  else return { s with line }

end OnHeap

/-! ## Sessions one after the other -/

structure SessionHeap where
  heap : Heap
  session : Option SessionBlocks
  fault : Option MemFault

inductive HeapAction
  /-- Open creates a session, or fails to. -/
  | create (env : OpenEnv) (malloc_handler_buf : Bool) (pfs_root : Bytes)
  /-- The handler takes a byte of the shell's output. -/
  | byte (curr_byte : UInt8) (realloc_buf malloc_line : Bool)
  | delete

def SessionHeap.init : SessionHeap := ⟨⟨0, 0⟩, none, none⟩

namespace SessionHeap

/-- A fault ends the process. -/
def after (s : SessionHeap) (m : Alloc (Option SessionBlocks)) : SessionHeap :=
  match m s.heap with
  | .ok (session, heap) => { heap, session, fault := none }
  | .error e => { s with fault := some e }

def step (abi : Abi) (s : SessionHeap) (a : HeapAction) : Option SessionHeap :=
  if s.fault.isSome then none
  else
    match a, s.session with
    | .create env malloc_handler_buf pfs_root, none =>
        some (s.after (OnHeap.su_shell_session_new env malloc_handler_buf pfs_root))
    | .byte curr_byte realloc_buf malloc_line, some session =>
        some (s.after (some <$> OnHeap.handlerByte abi realloc_buf malloc_line curr_byte session))
    | .delete, some session =>
        some (s.after ((fun _ => none) <$> OnHeap.su_shell_session_delete session))
    | _, _ => none

end SessionHeap

/-! ## The balance -/

def SessionBlocks.blocks (s : SessionBlocks) : Multiset Nat :=
  s.shell_sync_ready.block + (s.shell_sync_mutex.block + (s.handler_pth.block +
    (s.handler_buf.block + (s.last_tty_read.block + Pointer.block (some s.session)))))

/-- `pthread_cond_init` fails behind an initialised mutex. -/
def LosesMutex (env : OpenEnv) : Bool :=
  env.malloc_mutex && env.mutex_init && env.malloc_cond && !env.cond_init

/-- The call leaves behind the mutex of a session that it does not create. -/
def HeapAction.losesMutex : HeapAction → Bool
  | .create env _ pfs_root =>
      env.malloc_session && (pathFits pfs_root && env.malloc_path && LosesMutex env)
  | .byte _ _ _ | .delete => false

/-- An allocation fails whose result is used unseen. -/
def HeapAction.Starved : HeapAction → Prop
  | .create env malloc_handler_buf _ =>
      env.malloc_mutex = false ∨ env.malloc_cond = false ∨ malloc_handler_buf = false
  | .byte _ realloc_buf _ => realloc_buf = false
  | .delete => False

def SessionHeap.blocks (s : SessionHeap) : Multiset Nat := s.session.elim 0 SessionBlocks.blocks

end Susrv.Native
