import Susrv.Native.Handler

/-!
# The terminal of a session

The loop of `session_handler_fn` together with `tty_echo`, which a caller may
change between two bytes, and what it does to the log file, to `last_tty_read`
and to the caller that waits.  `Reference` is what the loop is for, stated on
complete lines, without a buffer.
-/

namespace Susrv.Native

open Base.CString

/-- What the loop meets: a byte of the shell, or a call of `su_srv_set_tty_echo`. -/
inductive TtyInput
  | byte (b : UInt8)
  | su_srv_set_tty_echo (echo : Int)

/-- What the loop does outside its buffer, with `tty_echo` taken into account. -/
inductive TtyAction
  | exitCode (n : Int)
  | signal
  /-- `write(fd, handler_buf, strlen(handler_buf))` -/
  | log (text : Bytes)
  /-- `last_tty_read` becomes a copy of the text. -/
  | lastRead (text : Bytes)
  deriving DecidableEq

def Effect.perform (tty_echo : Bool) : Effect → List TtyAction
  | .exitCode n => [.exitCode n]
  | .signal => [.signal]
  | .line text => if tty_echo then [.log text, .lastRead text] else [.lastRead text]

structure Terminal where
  reader : Reader
  tty_echo : Bool

def Terminal.step (abi : Abi) (t : Terminal) : TtyInput → Option (Terminal × List TtyAction)
  | .byte b => do
      let (reader, effects) ← t.reader.readByte abi b
      return (⟨reader, t.tty_echo⟩, effects.flatMap (Effect.perform t.tty_echo))
  | .su_srv_set_tty_echo echo => some (⟨t.reader, decide (echo ≠ 0)⟩, [])

def Terminal.run (abi : Abi) : Terminal → List TtyInput → Option (Terminal × List TtyAction)
  | t, [] => some (t, [])
  | t, i :: inputs => do
      let (t', now) ← t.step abi i
      let (t'', later) ← t'.run abi inputs
      return (t'', now ++ later)

/-- The bytes among the inputs. -/
def stream (inputs : List TtyInput) : Bytes :=
  inputs.filterMap fun
    | .byte b => some b
    | .su_srv_set_tty_echo _ => none

/-- The bytes written to the log file. -/
def logged (actions : List TtyAction) : Bytes :=
  actions.flatMap fun
    | .log text => text
    | _ => []

/-! ## The line splitter -/

/-- The complete lines of the inputs, each with the echo its line feed finds. -/
def completeLines : (cur : Bytes) → (echo : Bool) → List TtyInput → List (Bool × Bytes)
  | _, _, [] => []
  | cur, echo, .byte b :: inputs =>
      if b = LF then (echo, cur ++ [LF]) :: completeLines [] echo inputs
      else completeLines (cur ++ [b]) echo inputs
  | cur, _, .su_srv_set_tty_echo echo :: inputs => completeLines cur (decide (echo ≠ 0)) inputs

/-- Nothing but white space follows the tag at the start of the line. -/
def OnlyTag (line : Bytes) : Prop :=
  ∃ ws, line = EOC_TAG ++ ws ∧ ∀ b ∈ ws, isSpace b = true

/-- The line starts with the tag, optional white space and the decimal number `n`. -/
def TagNumber (line : Bytes) (n : Int) : Prop :=
  ∃ ws body, line = EOC_TAG ++ (ws ++ body) ∧ (∀ b ∈ ws, isSpace b = true) ∧ NumberAt body n

/-- How a complete line, its line feed included, is to be treated.  What is stored
for a number that is no `int` is left open. -/
inductive Treated (echo : Bool) : (line : Bytes) → List TtyAction → Prop
  | ordinary {line : Bytes} (h : ¬ EOC_TAG <:+: line) :
      Treated echo line (if echo then [.log line, .lastRead line] else [.lastRead line])
  | onlyTag {line : Bytes} (h : OnlyTag line) : Treated echo line []
  | status {line : Bytes} {n : Int} (h : TagNumber line n) (hn : InIntRange n) :
      Treated echo line [.exitCode n, .signal]
  | overflow {line : Bytes} {n : Int} (h : TagNumber line n) (hn : ¬ InIntRange n)
      (stored : Int) : Treated echo line [.exitCode stored, .signal]
  | tagged {line : Bytes} (htag : EOC_TAG <:+: line) (hws : ¬ OnlyTag line)
      (hnum : ∀ n, ¬ TagNumber line n) : Treated echo line [.signal]

/-- Every line is treated in its turn. -/
inductive TreatedInOrder : List (Bool × Bytes) → List TtyAction → Prop
  | nil : TreatedInOrder [] []
  | cons {echo : Bool} {line : Bytes} {lines : List (Bool × Bytes)} {now later : List TtyAction}
      (h : Treated echo line now) (hrest : TreatedInOrder lines later) :
      TreatedInOrder ((echo, line) :: lines) (now ++ later)

/-- The reference for `session_handler_fn`: what is left unfinished has no effect. -/
def Reference (echo : Bool) (inputs : List TtyInput) (actions : List TtyAction) : Prop :=
  TreatedInOrder (completeLines [] echo inputs) actions

end Susrv.Native
