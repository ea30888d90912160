import Susrv.Native.Handler
import Susrv.Base.Transition
import Mathlib.Logic.Function.Basic

/-!
# Reading the last line

The update of `last_tty_read` in `session_handler_fn` and the calls of
`getLastTtyRead`, which take no lock, as steps that run in any order while the session
is published.  Addresses are numbers; a freed one may be given out again.
-/

namespace Susrv.Native.LastRead

open Base.CString Base.Transition

/-- What is at an address of the heap. -/
inductive Cell
  | unused
  /-- Allocated, and not written yet. -/
  | fresh
  | filled (text : Bytes)
  deriving DecidableEq

/-- Where the handler is; `text` is the string in `handler_buf`. -/
inductive HandlerPc
  | reading
  /-- An ordinary line is in the buffer. -/
  | update (text : Bytes)
  /-- `char *tmp = _su_session->last_tty_read;` is done. -/
  | kept (text : Bytes) (tmp : Option Nat)
  /-- The result of `malloc` is in `last_tty_read`. -/
  | stored (text : Bytes) (tmp : Option Nat)
  /-- `strncpy` is done, or was left out for `NULL`. -/
  | copied (tmp : Option Nat)

def HandlerPc.tmp : HandlerPc → Option Nat
  | .kept _ tmp => tmp
  | .stored _ tmp => tmp
  | .copied tmp => tmp
  | _ => none

/-- The new buffer is published, and still empty. -/
def HandlerPc.Filling : HandlerPc → Prop
  | .stored _ _ => True
  | _ => False

/-- A call of `getLastTtyRead`: the pointer that `su_srv_last_tty_read` returned and, for the
record, the most recent lines since then. -/
inductive ReadCall
  | idle
  | fetched (line : Option Nat) (window : List (Option Bytes))
  deriving DecidableEq

/-- What a call has obtained, `none` being the content of a buffer that has none, and the
most recent lines while it ran. -/
structure LineRead where
  obtained : Option Bytes
  window : List (Option Bytes)
  deriving DecidableEq

structure State where
  reader : Reader
  pc : HandlerPc
  heap : Nat → Cell
  last_tty_read : Option Nat
  calls : Nat → ReadCall
  /-- The bytes of the line that is being read. -/
  cur : Bytes
  /-- The last complete line, with its line feed. -/
  line : Bytes
  /-- The last line that was stored, `none` before the first. -/
  latest : Option Bytes
  reads : List LineRead

def State.init : State where
  reader := Reader.init
  pc := .reading
  heap := fun _ => .unused
  last_tty_read := none
  calls := fun _ => .idle
  cur := []
  line := []
  latest := none
  reads := []

inductive Action
  /-- The handler reads a byte. -/
  | read (b : UInt8)
  | keep
  /-- What `malloc` returns goes to `last_tty_read`. -/
  | store (address : Option Nat)
  | strncpy
  | free
  /-- `su_srv_last_tty_read` in a call. -/
  | fetch (call : Nat)
  /-- `NewStringUTF` in a call. -/
  | copy (call : Nat)

/-- Where the loop goes on after the effects of a byte. -/
def afterEffects : List Effect → HandlerPc
  | .line text :: _ => .update text
  | _ => .reading

/-- `NewStringUTF(jEnv, line)`, or of the empty string for `NULL`. -/
def copyString (heap : Nat → Cell) : Option Nat → Option Bytes
  | none => some []
  | some address =>
      match heap address with
      | .filled text => some text
      | _ => none

/-- A new line becomes the most recent one. -/
def ReadCall.see (latest : Option Bytes) : ReadCall → ReadCall
  | .idle => .idle
  | .fetched line window => .fetched line (window ++ [latest])

def State.recordByte (s : State) (b : UInt8) : State :=
  if b = LF then { s with cur := [], line := s.cur ++ [LF] } else { s with cur := s.cur ++ [b] }

/-- The store of the new pointer. -/
def State.publish (s : State) (address : Option Nat) (heap : Nat → Cell) : State :=
  { s with
    heap := heap
    last_tty_read := address
    latest := some s.line
    calls := fun i => (s.calls i).see (some s.line) }

def step (abi : Abi) (s : State) : Action → Option State
  | .read b =>
      match s.pc with
      | .reading => do
          let (reader, effects) ← s.reader.readByte abi b
          return { s.recordByte b with reader := reader, pc := afterEffects effects }
      | _ => none
  | .keep =>
      match s.pc with
      | .update text => some { s with pc := .kept text s.last_tty_read }
      | _ => none
  | .store address =>
      match s.pc, address with
      | .kept text tmp, none => some { s.publish none s.heap with pc := .stored text tmp }
      | .kept text tmp, some p =>
          if s.heap p = .unused then
            some { s.publish (some p) (Function.update s.heap p .fresh) with
              pc := .stored text tmp }
          else none
      | _, _ => none
  | .strncpy =>
      match s.pc, s.last_tty_read with
      | .stored _ tmp, none => some { s with pc := .copied tmp }
      | .stored text tmp, some p =>
          some { s with heap := Function.update s.heap p (.filled text), pc := .copied tmp }
      | _, _ => none
  | .free =>
      match s.pc with
      | .copied none => some { s with pc := .reading }
      | .copied (some p) =>
          some { s with heap := Function.update s.heap p .unused, pc := .reading }
      | _ => none
  | .fetch i =>
      match s.calls i with
      | .idle => some { s with
          calls := Function.update s.calls i (.fetched s.last_tty_read [s.latest]) }
      | .fetched _ _ => none
  | .copy i =>
      match s.calls i with
      | .idle => none
      | .fetched line window => some { s with
          calls := Function.update s.calls i .idle
          reads := s.reads ++ [⟨copyString s.heap line, window⟩] }

/-- The call has obtained the line that was the most recent one at some moment while it
ran, or nothing if there was none. -/
def LineRead.Atomic (read : LineRead) : Prop :=
  ∃ latest ∈ read.window, read.obtained = some (latest.getD [])

/-- All calls so far were atomic. -/
def Atomic (s : State) : Prop := ∀ read ∈ s.reads, read.Atomic

/-- The buffer is the current one, and filled, or the old one that the handler has yet to
free. -/
def State.Holds (s : State) (address : Nat) : Prop :=
  s.last_tty_read = some address ∧ ¬ s.pc.Filling ∨ s.pc.tmp = some address

/-- A call copies a buffer that the session holds, with a string up to the line feed;
and it has found `NULL` only before the first line. -/
def CopyOk (s : State) : Action → Prop
  | .copy i =>
      match s.calls i with
      | .idle => True
      | .fetched none window => window.head? = some none
      | .fetched (some address) _ =>
          s.Holds address ∧ ∀ text, s.heap address = .filled text → text.getLast? = some LF
  | _ => True

end Susrv.Native.LastRead
