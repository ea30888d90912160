import Susrv.Base.CString
import Susrv.Base.Stdio
import Susrv.Native.Handler

/-!
# The log file and its writers

`su_srv_log.c` writes through a `FILE` opened with mode `"a"`, one message in up to
four calls of stdio; `session_handler_fn` writes lines of output to the descriptor of
the same file.  Any thread may log at any moment, and nothing but the lock inside
each stdio call orders them.  `log_complete` says what is in the file whenever a
log function has returned.
-/

namespace Susrv.Native

open Base Base.CString Base.Transition

/-! ## `su_srv_log.c` -/

def su_srv_log_print_header : List (Stdio.Op UInt8) := [.print (ascii "[su_srv] ")]

def su_srv_log_print_footer : List (Stdio.Op UInt8) := [.print [LF], .flush]

/-- `text` is what `vfprintf` makes of the format and its arguments. -/
def su_srv_log_printf (text : Bytes) : List (Stdio.Op UInt8) :=
  su_srv_log_print_header ++ [.print text] ++ su_srv_log_print_footer

/-- `errno` and its text, as they are when the message is formatted. -/
def su_srv_log_perror (msg strerror : Bytes) (errno : Nat) : List (Stdio.Op UInt8) :=
  su_srv_log_print_header ++
    [.print (ascii "! " ++ msg ++ ascii ": " ++ strerror ++ ascii " (" ++ decimal errno ++
      ascii ")")] ++ su_srv_log_print_footer

def su_srv_log_cmdstr (cmdstr : Bytes) : List (Stdio.Op UInt8) :=
  [.print (ascii "# " ++ cmdstr ++ [LF]), .flush]

inductive LogCall
  | printf (text : Bytes)
  | perror (msg strerror : Bytes) (errno : Nat)
  | cmdstr (str : Bytes)
  deriving DecidableEq

/-- Nothing is done while `su_srv_log_fptr` is NULL. -/
def LogCall.code (su_srv_log_fptr : Bool) (c : LogCall) : List (Stdio.Op UInt8) :=
  if su_srv_log_fptr then
    match c with
    | .printf text => su_srv_log_printf text
    | .perror msg strerror errno => su_srv_log_perror msg strerror errno
    | .cmdstr str => su_srv_log_cmdstr str
  else []

/-- A message, as it is meant to stand in the file. -/
def LogCall.message : LogCall → Bytes
  | .printf text => ascii "[su_srv] " ++ text ++ [LF]
  | .perror msg strerror errno =>
      ascii "[su_srv] " ++ (ascii "! " ++ msg ++ ascii ": " ++ strerror ++ ascii " (" ++
        decimal errno ++ ascii ")") ++ [LF]
  | .cmdstr str => ascii "# " ++ str ++ [LF]

theorem LogCall.text_code (c : LogCall) : Stdio.text (c.code true) = c.message := by
  cases c <;>
    simp [code, message, su_srv_log_printf, su_srv_log_perror, su_srv_log_cmdstr,
      su_srv_log_print_header, su_srv_log_print_footer, Stdio.text]

theorem LogCall.flushes (su_srv_log_fptr : Bool) (c : LogCall) :
    Stdio.Flushes (c.code su_srv_log_fptr) := by
  cases su_srv_log_fptr
  · exact .inl rfl
  · refine .inr ?_
    cases c <;> rfl

/-! ## What is in the file -/

variable {θ : Type} [DecidableEq θ]

abbrev LogAction (θ : Type) := Stdio.Action θ LogCall UInt8

/-- What a thread logs: its messages, and the lines it writes to the descriptor. -/
def loggedBy (p : θ) : List (LogAction θ) → Bytes
  | [] => []
  | .call q c :: as => (if q = p then c.message else []) ++ loggedBy p as
  | .write q line :: as => (if q = p then line else []) ++ loggedBy p as
  | _ :: as => loggedBy p as

theorem sentBy_eq_loggedBy {s s' : Stdio.State θ UInt8} (p : θ) {as : List (LogAction θ)}
    (hrun : run (Stdio.step (LogCall.code true)) s as = some s') :
    Stdio.sentBy p (Stdio.sent (LogCall.code true) s as) = loggedBy p as := by
  induction as generalizing s with
  | nil => rfl
  | cons a as ih =>
      obtain ⟨u, hu, hrest⟩ := Option.bind_eq_some_iff.mp hrun
      have htail := ih hrest
      rw [Stdio.sent] at htail
      rw [Stdio.sent, trace, hu, Stdio.sentBy_append, htail]
      cases a <;> simp [Stdio.messages, Stdio.sentBy, LogCall.text_code, loggedBy]

/-- At every moment of every run, the bytes in the file that come from a thread outside the
log functions are all its messages, in its own order and once, and none of its bytes is left in
the buffer.  Bytes of others may stand between the pieces of a message.  What is in the file
stays in front of whatever anybody logs later. -/
theorem log_complete {s s' : Stdio.State θ UInt8} {as bs : List (LogAction θ)} (p : θ)
    (has : run (Stdio.step (LogCall.code true)) Stdio.State.init as = some s)
    (hbs : run (Stdio.step (LogCall.code true)) s bs = some s') (hidle : s.todo p = []) :
    Stdio.of p s.file = loggedBy p as ∧ Stdio.of p s.buffer = [] ∧ s.file <+: s'.file := by
  obtain ⟨hfile, hbuffer⟩ := Stdio.written_of_run (LogCall.flushes true) has hidle
  rw [sentBy_eq_loggedBy p has] at hfile
  exact ⟨hfile, hbuffer, Stdio.file_prefix_of_run hbs⟩

/-- A caller logs a command between the pieces of a message of another thread. -/
def interleaved : List (LogAction Bool) :=
  [.call false (.printf (ascii "bye")), .op false, .call true (.cmdstr (ascii "id")), .op true,
    .op false, .op true]

theorem log_complete_interleaved :
    ∃ s s', run (Stdio.step (LogCall.code true)) Stdio.State.init interleaved = some s ∧
      run (Stdio.step (LogCall.code true)) s [.op false, .op false] = some s' ∧
      Stdio.of true s.file = loggedBy true interleaved ∧ Stdio.of true s.buffer = [] ∧
      s.file <+: s'.file := by
  obtain ⟨s', hs'⟩ := Option.isSome_iff_exists.mp (show (run (Stdio.step (LogCall.code true))
    Stdio.State.init (interleaved ++ [.op false, .op false])).isSome = true by decide +kernel)
  obtain ⟨s, hs, hrest⟩ := run_prefix hs'
  have hidle : s.todo true = [] := by
    have htodo : (run (Stdio.step (LogCall.code true)) Stdio.State.init interleaved).map
        (fun s => s.todo true) = some [] := by decide +kernel
    simpa [hs] using htodo
  exact ⟨s, s', hs, hrest, log_complete true hs hrest hidle⟩

end Susrv.Native
