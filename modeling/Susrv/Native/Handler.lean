import Susrv.Base.CString

/-!
# The reader loop of `session_handler_fn`

One iteration of `while (read(_su_session->afun_client_fd, &curr_byte, 1) > 0)`
as a function of the byte it read.  The loop owns `handler_buf` and
`curr_line_offset`; what it does to the rest of the session (the exit code
cell, the condition variable, the log and `last_tty_read`) is returned as a
list of effects in program order, because other threads may run between them.

`none` is undefined behaviour: a store outside `handler_buf`, a signed overflow
of `curr_line_offset + 32`, or a string read that meets an indeterminate byte.
Allocation is assumed to succeed.
-/

namespace Susrv.Native

open Base.CString

/-- Line feed. -/
def LF : UInt8 := 10

def EOC_TAG : Bytes := ascii "<SU_SRV_EOC>"

/-- `echo "<SU_SRV_EOC>"$?` -/
def EOC_CMD : Bytes := ascii "echo \"<SU_SRV_EOC>\"$?\n"

def SU_SRV_EXIT_CMD : Bytes := ascii "exit"

def SU_SRV_SYSTEM_ERR : Int := -9999
def SU_SRV_SESSION_EXISTS_ERR : Int := -9998
def SU_SRV_NO_SESSION_ERR : Int := -9997
def SU_SRV_INVALID_RESULT_ERR : Int := -9996

def BUF_INITIAL_SIZE : Nat := 32

/-- What one step of the loop does outside its own buffer. -/
inductive Effect
  /-- `sscanf` stores into `shell_cmd_exit_code`. -/
  | exitCode (n : Int)
  /-- `pthread_cond_signal(shell_sync_ready)`. -/
  | signal
  /-- The branch of an ordinary line: log it if `tty_echo`, then make it `last_tty_read`. -/
  | line (text : Bytes)
  deriving DecidableEq, Repr

/-- The block under `if (curr_byte == 10)`, for the string found in `handler_buf`.
Only `EOF` is tested on the result of `sscanf`, so a matching failure signals too. -/
def lineEffects (text : Bytes) : List Effect :=
  if strstr text EOC_TAG then
    match sscanf EOC_TAG text with
    | .eof => []
    | .mismatch => [.signal]
    | .value n => [.exitCode n, .signal]
  else [.line text]

/-- Pointer models of the platforms the library is built for. -/
inductive Abi
  | ilp32
  | lp64
  deriving DecidableEq, Repr

def Abi.sizeofPtr : Abi → Nat
  | .ilp32 => 4
  | .lp64 => 8

structure Reader where
  handler_buf : Block
  curr_line_offset : Nat

/-- The reader as the handler thread finds it after `su_shell_session_new`. -/
def Reader.init : Reader := ⟨malloc BUF_INITIAL_SIZE, 0⟩

/-- `if (curr_line_offset > (sizeof(handler_buf) - 1 - 1)) realloc(...)`, where
the operand of `sizeof` is a pointer. -/
def Reader.grow (abi : Abi) (r : Reader) : Option Block :=
  if abi.sizeofPtr - 1 - 1 < r.curr_line_offset then
    if r.curr_line_offset + 32 ≤ INT_MAX then
      some (realloc r.handler_buf (r.curr_line_offset + 32))
    else none
  else some r.handler_buf

def Reader.readByte (abi : Abi) (r : Reader) (curr_byte : UInt8) :
    Option (Reader × List Effect) := do
  let buf ← r.grow abi
  let buf ← store buf r.curr_line_offset curr_byte
  if curr_byte = LF then
    let buf ← store buf (r.curr_line_offset + 1) 0
    let text ← loadString buf
    return (⟨buf, 0⟩, lineEffects text)
  else
    return (⟨buf, r.curr_line_offset + 1⟩, [])

/-- The loop over a byte stream, with the effects of every byte. -/
def Reader.readBytes (abi : Abi) : Reader → Bytes → Option (Reader × List (List Effect))
  | r, [] => some (r, [])
  | r, b :: bs => do
      let (r', effects) ← r.readByte abi b
      let (r'', rest) ← r'.readBytes abi bs
      return (r'', effects :: rest)

/-- `shell_cmd_exit_code` after a list of effects. -/
def cellAfter : (cell : Int) → List Effect → Int
  | cell, [] => cell
  | _, .exitCode n :: rest => cellAfter n rest
  | cell, .signal :: rest => cellAfter cell rest
  | cell, .line _ :: rest => cellAfter cell rest

/-- `shell_cmd_exit_code` at each completion signal of a list of effects. -/
def signalled : (cell : Int) → List Effect → List Int
  | _, [] => []
  | _, .exitCode n :: rest => signalled n rest
  | cell, .signal :: rest => cell :: signalled cell rest
  | cell, .line _ :: rest => signalled cell rest

/-- The completion signals of a stream: how many bytes had been read, and the
content of `shell_cmd_exit_code` at that moment. -/
def completions : (bytesRead : Nat) → (cell : Int) → List (List Effect) → List (Nat × Int)
  | _, _, [] => []
  | n, cell, effects :: rest =>
      (signalled cell effects).map (n + 1, ·) ++ completions (n + 1) (cellAfter cell effects) rest

/-- The line the shell prints for `EOC_CMD` when `$?` is `n`. -/
def eocLine (n : Nat) : Bytes := EOC_TAG ++ decimal n ++ [LF]

/-! ## What the loop is for: assembling lines -/

/-- The effects of a stream, `cur` being the unfinished line before it. -/
def assemble : (cur : Bytes) → Bytes → List (List Effect)
  | _, [] => []
  | cur, b :: bs =>
      if b = LF then lineEffects (cstr (cur ++ [LF])) :: assemble [] bs
      else [] :: assemble (cur ++ [b]) bs

/-- No line outgrows the `int` arithmetic on `curr_line_offset`, `n` bytes of the
current line being already stored. -/
def linesFit : (n : Nat) → Bytes → Bool
  | _, [] => true
  | n, b :: bs => n + 32 ≤ INT_MAX && linesFit (if b = LF then 0 else n + 1) bs

/-- The buffer holds the unfinished line `cur`. -/
structure Reader.Holds (r : Reader) (cur : Bytes) : Prop where
  offset : r.curr_line_offset = cur.length
  content : StartsWith r.handler_buf cur
  size : BUF_INITIAL_SIZE ≤ r.handler_buf.length

end Susrv.Native
