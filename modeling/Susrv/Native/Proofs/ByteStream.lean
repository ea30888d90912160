import Susrv.Base.Simulation
import Susrv.Native.Proofs.LiveShell

/-!
# The handler of a running session is the byte loop

In `Session.lean` the handler takes whole lines and performs their effects one by
one, between the steps of everybody else.  `handler_refines_reader` ties it to the
loop over single bytes: at every moment of every run, what the handler has done and
has still to do are the effects of `Reader.readBytes` on the bytes the shell has
sent, and the log and `last_tty_read` are what the part already done makes them.
-/

namespace Susrv.Native

open Base Base.CString Base.Transition

variable {τ : Type}

/-- Bytes the shell sends, and effects the handler performs, with `tty_echo` at that moment. -/
inductive StreamEvent
  | sent (out : Bytes)
  | performed (echo : Bool) (e : Effect)
  deriving DecidableEq

def streamEvents (s : State τ) (a : Action τ) (_ : State τ) : List StreamEvent :=
  match a with
  | .shell (.print out) => if s.shell.peerOpen then [.sent out] else []
  | .shell .take =>
      match s.written[s.shell.taken]? with
      | some .eocCmd => if s.shell.peerOpen then [.sent (eocLine s.shell.status)] else []
      | _ => []
  | .handler _ =>
      match s.handler with
      | .perform (e :: _) => if s.su_session then [.performed s.tty_echo e] else []
      | _ => []
  | _ => []

def StreamEvent.bytes : StreamEvent → Bytes
  | .sent out => out
  | .performed _ _ => []

def StreamEvent.effect : StreamEvent → Option Effect
  | .sent _ => none
  | .performed _ e => some e

def StreamEvent.logged : StreamEvent → Bytes
  | .performed true (.line text) => text
  | _ => []

def StreamEvent.line : StreamEvent → Option Bytes
  | .performed _ (.line text) => some text
  | _ => none

def sentBytes (log : List StreamEvent) : Bytes := log.flatMap StreamEvent.bytes
def performedEffects (log : List StreamEvent) : List Effect := log.filterMap StreamEvent.effect
def loggedBytes (log : List StreamEvent) : Bytes := log.flatMap StreamEvent.logged
def lastLine (log : List StreamEvent) : Option Bytes := (log.filterMap StreamEvent.line).getLast?

/-- What the output of the shell has made of a session. -/
structure Output where
  toOwner : List Bytes
  tail : Bytes
  log : Bytes
  last_tty_read : Option Bytes

def State.output (s : State τ) : Output := ⟨s.toOwner, s.shell.tail, s.log, s.last_tty_read⟩

structure StreamInv (log : List StreamEvent) (s : State τ) : Prop where
  effects : ((splitLines LF [] (sentBytes log)).1.flatMap fun line => lineEffects (cstr line)) =
    performedEffects log ++ s.pending
  tail : (splitLines LF [] (sentBytes log)).2 = s.shell.tail
  logged : s.log = loggedBytes log
  last : s.last_tty_read = lastLine log

theorem streamInv_opening (code : Int) : StreamInv [] (State.opening code : State τ) := by
  constructor <;> rfl

variable {log : List StreamEvent} {s s' : State τ}

theorem StreamInv.same (hs : StreamInv log s) (houtput : s'.output = s.output)
    (heffs : s'.handler.effects = s.handler.effects) : StreamInv log s' := by
  obtain ⟨heffects, htail, hlogged, hlast⟩ := hs
  injection houtput with howner htail' hlog' hlast'
  refine ⟨?_, htail.trans htail'.symm, hlog'.trans hlogged, hlast'.trans hlast⟩
  rw [heffects, State.pending, State.pending, heffs, howner]

theorem StreamInv.crash (hs : StreamInv log s) : StreamInv log s.crash := hs.same rfl rfl

/-- A step that shows nothing and leaves the output and the handler alone. -/
theorem StreamInv.quiet {es : List StreamEvent} (hs : StreamInv log s) (hes : es = [])
    (houtput : s'.output = s.output) (hhandler : s'.handler = s.handler) :
    StreamInv (log ++ es) s' := by
  rw [hes, List.append_nil]
  exact hs.same houtput (by rw [hhandler])

/-- The shell sends something. -/
theorem StreamInv.print (hs : StreamInv log s) (hpeer : s.shell.peerOpen = true) (out : Bytes) :
    StreamInv (log ++ [.sent out]) (s.print out) := by
  obtain ⟨heffects, htail, hlogged, hlast⟩ := hs
  have hsent : sentBytes (log ++ [.sent out]) = sentBytes log ++ out := by
    simp [sentBytes, StreamEvent.bytes]
  have hperformed : performedEffects (log ++ [.sent out]) = performedEffects log := by
    simp [performedEffects, StreamEvent.effect]
  rw [State.print, if_pos hpeer]
  constructor
  · rw [hsent, splitLines_append, List.flatMap_append, heffects, htail, hperformed,
      State.pending, State.pending, List.flatMap_append, List.append_assoc,
      List.append_assoc]
  · rw [hsent, splitLines_append, htail]
  · simpa [loggedBytes, StreamEvent.logged] using hlogged
  · simpa [lastLine, StreamEvent.line] using hlast

theorem lastLine_snoc (log : List StreamEvent) (e : StreamEvent) :
    lastLine (log ++ [e]) = e.line.or (lastLine log) := by
  rw [lastLine, List.filterMap_append, List.getLast?_append, lastLine]
  congr 1
  cases he : e.line <;> simp only [List.filterMap_cons, List.filterMap_nil, he] <;> rfl

/-- One effect, in the log and in `last_tty_read`. -/
theorem applyEffect_output [DecidableEq τ] {ans : Answer τ} {e : Effect} {s₁ : State τ}
    (h : applyEffect s ans e = some s₁) :
    s₁.toOwner = s.toOwner ∧ s₁.shell = s.shell ∧
      s₁.log = s.log ++ (StreamEvent.performed s.tty_echo e).logged ∧
      s₁.last_tty_read = (StreamEvent.performed s.tty_echo e).line.or s.last_tty_read := by
  cases e with
  | exitCode n =>
      cases h
      simp [StreamEvent.logged, StreamEvent.line]
  | signal =>
      simp only [applyEffect] at h
      split at h
      · obtain ⟨m, -, rfl⟩ := Option.map_eq_some_iff.mp h
        simp [StreamEvent.logged, StreamEvent.line]
      · cases h
  | line text =>
      cases h
      cases hecho : s.tty_echo <;> simp [StreamEvent.logged, StreamEvent.line]

/-- The handler performs its next effect. -/
theorem StreamInv.perform [DecidableEq τ] {ans : Answer τ} {e : Effect} {rest : List Effect}
    {s₁ : State τ} (hs : StreamInv log s) (hpc : s.handler = .perform (e :: rest))
    (h : applyEffect s ans e = some s₁) :
    StreamInv (log ++ [.performed s.tty_echo e]) (s₁.toHandler (.perform rest)) := by
  obtain ⟨heffects, htail, hlogged, hlast⟩ := hs
  obtain ⟨howner, hshell, hlog₁, hlast₁⟩ := applyEffect_output h
  have hsent : sentBytes (log ++ [.performed s.tty_echo e]) = sentBytes log := by
    simp [sentBytes, StreamEvent.bytes]
  have hperformed : performedEffects (log ++ [.performed s.tty_echo e]) =
      performedEffects log ++ [e] := by
    simp [performedEffects, StreamEvent.effect]
  have hpending : s.pending = e :: (s₁.toHandler (.perform rest)).pending := by
    simp [State.pending, State.toHandler, hpc, HandlerPc.effects, howner]
  constructor
  · rw [hsent, hperformed, heffects, hpending, List.append_assoc, List.singleton_append]
  · rw [hsent, htail]
    exact congrArg Shell.tail hshell.symm
  · calc
      s₁.log = loggedBytes log ++ (StreamEvent.performed s.tty_echo e).logged := by
        rw [hlog₁, hlogged]
      _ = loggedBytes (log ++ [.performed s.tty_echo e]) := by simp [loggedBytes]
  · calc
      s₁.last_tty_read = (StreamEvent.performed s.tty_echo e).line.or (lastLine log) := by
        rw [hlast₁, hlast]
      _ = lastLine (log ++ [.performed s.tty_echo e]) := (lastLine_snoc _ _).symm

/-! ## Steps -/

section Steps

variable {t : τ} {ans : Answer τ}

theorem output_deref {next : State τ} (h : s.deref next = s') (hnext : next.output = s.output) :
    s'.output = s.output := by
  rcases eq_or_crash_of_deref h with heq | heq
  · rwa [← heq]
  · rw [← heq]
    rfl

theorem output_use {next : State τ} (h : s.use next = s') (hnext : next.output = s.output) :
    s'.output = s.output := by
  rcases eq_or_crash_of_use h with heq | heq
  · rwa [← heq]
  · rw [← heq]
    rfl

variable [DecidableEq τ]

theorem output_exec {cmd : Bytes} {pc : ExecPc} (h : execStep s t cmd pc = some s') :
    s'.output = s.output := by
  cases pc <;> simp only [execStep, Option.some.injEq] at h
  case test =>
    rw [← h]
    rfl
  case locking =>
    split at h
    · rw [← Option.some.inj h]
      rfl
    · obtain ⟨m, -, rfl⟩ := Option.map_eq_some_iff.mp h
      rfl
  case waiting =>
    split at h
    · cases h
    · split at h
      · rw [← Option.some.inj h]
        rfl
      · obtain ⟨m, -, rfl⟩ := Option.map_eq_some_iff.mp h
        rfl
  all_goals exact output_deref h rfl

theorem output_exit {pc : ExitPc} (h : exitStep s t ans pc = some s') : s'.output = s.output := by
  cases pc <;> simp only [exitStep, setNullStep, deleteStep, Option.some.injEq] at h
  case test =>
    rw [← h]
    rfl
  case trylock => split at h <;> exact output_deref (Option.some.inj h) rfl
  case signal =>
    split at h
    · obtain ⟨m, -, hm⟩ := Option.map_eq_some_iff.mp h
      exact output_deref hm rfl
    · cases h
  case lock | join | setNull => exact output_deref h rfl
  case locking =>
    split at h
    · rw [← Option.some.inj h]
      rfl
    · obtain ⟨m, -, rfl⟩ := Option.map_eq_some_iff.mp h
      rfl
  case stop p =>
    exact stopStep_same State.output rfl (fun _ _ => rfl) rfl (by intros; rfl) (by intros; rfl) h
  case joining =>
    split at h
    · rw [← Option.some.inj h]
      rfl
    · split at h
      · rw [← Option.some.inj h]
        rfl
      · cases h
  case delete => exact output_use h rfl

theorem output_caller (h : callStep s t ans (s.calls t) = some s') : s'.output = s.output := by
  have haccess : ∀ {resume : Call} {access : State τ → State τ} {pc : AccessPc},
      (access s).output = s.output → accessStep s t resume access pc = some s' →
      s'.output = s.output := by
    intro resume access pc hsame h
    cases pc with
    | test =>
        cases h
        rfl
    | access => exact output_deref (Option.some.inj h) hsame
  cases hpc : s.calls t <;> rw [hpc, callStep] at h
  case idle => cases h
  case exec cmd pc => exact output_exec h
  case exit pc => exact output_exit h
  all_goals exact haccess rfl h

omit [DecidableEq τ] in
theorem streamEvents_handler (h : s.handler.effects = []) :
    streamEvents s (.handler ans) s' = [] := by
  simp only [streamEvents]
  split
  · rename_i e rest hpc
    simp [hpc, HandlerPc.effects] at h
  · rfl

theorem streamInv_handler (hs : StreamInv log s) (h : handlerStep s ans s.handler = some s') :
    StreamInv (log ++ streamEvents s (.handler ans) s') s' := by
  have hquiet : s.handler.effects = [] → StreamInv log s' →
      StreamInv (log ++ streamEvents s (.handler ans) s') s' := by
    intro hnil hs'
    rw [streamEvents_handler hnil, List.append_nil]
    exact hs'
  have hgo : ∀ {pc : HandlerPc} {next : State τ}, s.handler.effects = pc.effects →
      next.output = s.output → StreamInv log (next.toHandler pc) :=
    fun hnow hnext => hs.same hnext hnow.symm
  have hderef : ∀ {next : State τ}, s.deref next = s' → StreamInv log next → StreamInv log s' := by
    intro next h hnext
    rcases eq_or_crash_of_deref h with heq | heq <;> rw [← heq]
    · exact hnext
    · exact hs.crash
  cases hpc : s.handler <;> rw [hpc] at h hquiet hgo
  case perform effects =>
    cases effects with
    | nil =>
        cases h
        exact hquiet rfl (hgo rfl rfl)
    | cons e rest =>
        rw [handlerStep] at h
        cases hbound : s.su_session
        · rw [hbound, if_neg Bool.false_ne_true] at h
          cases h
          simpa [streamEvents, hpc, hbound] using hs.crash
        · rw [hbound, if_pos rfl] at h
          obtain ⟨s₁, hs₁, rfl⟩ := Option.map_eq_some_iff.mp h
          simpa [streamEvents, hpc, hbound] using hs.perform hpc hs₁
  all_goals apply hquiet rfl
  case start =>
    cases h
    exact hgo rfl rfl
  case read => exact hderef (Option.some.inj h) (hgo rfl rfl)
  case reading =>
    simp only [handlerStep] at h
    split at h
    · rename_i line rest hlines
      refine hderef (Option.some.inj h) ?_
      obtain ⟨heffects, htail, hlogged, hlast⟩ := hs
      refine ⟨?_, htail, hlogged, hlast⟩
      rw [heffects]
      simp [State.pending, State.toHandler, HandlerPc.effects, hpc, hlines]
    · split at h <;> cases h
      exact hgo rfl rfl
  case trylock | trylockAgain =>
    simp only [handlerStep] at h
    split at h <;> exact hderef (Option.some.inj h) (hgo rfl rfl)
  case signal =>
    simp only [handlerStep] at h
    split at h
    · obtain ⟨m, -, hm⟩ := Option.map_eq_some_iff.mp h
      exact hderef hm (hgo rfl rfl)
    · cases h
  case stop p =>
    rw [handlerStep] at h
    have houtput := stopStep_same State.output rfl (fun _ _ => rfl) rfl
      (by intros; rfl) (by intros; rfl) h
    refine hs.same houtput ?_
    rw [hpc]
    rcases stopStep_cases h with
      ⟨-, rfl⟩ | ⟨s₁, -, -, -, -, ⟨p', rfl, -⟩ | ⟨stopped, again, rfl, -, -⟩⟩
    · exact congrArg HandlerPc.effects hpc
    · rfl
    · rfl
  case setNull => exact hderef (Option.some.inj h) (hgo rfl rfl)
  case delete =>
    rcases eq_or_crash_of_use (Option.some.inj h) with heq | heq <;> rw [← heq]
    · exact hgo rfl rfl
    · exact hs.same rfl rfl
  case terminated => cases h

omit [DecidableEq τ] in
theorem streamInv_shell {a : ShellAction} (hs : StreamInv log s) (h : shellStep s a = some s') :
    StreamInv (log ++ streamEvents s (.shell a) s') s' := by
  have hprint : ∀ (s₁ : State τ) (out : Bytes), s₁.output = s.output → s₁.handler = s.handler →
      s₁.shell.peerOpen = s.shell.peerOpen →
      StreamInv (log ++ if s.shell.peerOpen then [.sent out] else []) (s₁.print out) := by
    intro s₁ out houtput hhandler hpeer
    have hs₁ : StreamInv log s₁ := hs.same houtput (by rw [hhandler])
    cases hopen : s.shell.peerOpen <;> rw [hopen] at hpeer
    · rw [State.print, hpeer, if_neg Bool.false_ne_true, if_neg Bool.false_ne_true, List.append_nil]
      exact hs₁
    · rw [if_pos rfl]
      exact hs₁.print hpeer out
  cases a <;> simp only [shellStep] at h
  case take =>
    split at h
    · cases h
    · split at h <;> cases h <;> rename_i hnext <;> simp only [streamEvents, hnext]
      · exact hs.quiet rfl rfl rfl
      · exact hs.quiet rfl rfl rfl
      · exact hprint _ _ rfl rfl rfl
      · exact hs.quiet rfl rfl rfl
  case print out =>
    split at h <;> cases h
    exact hprint s out rfl rfl rfl
  case finish status =>
    split at h <;> cases h
    exact hs.quiet rfl rfl rfl
  case die =>
    split at h <;> cases h
    exact hs.quiet rfl rfl rfl
  case closePeer =>
    split at h <;> cases h
    exact hs.quiet rfl rfl rfl

theorem streamInv_step {a : Action τ} (hs : StreamInv log s) (h : step s a = some s') :
    StreamInv (log ++ streamEvents s a s') s' := by
  cases step_cases h with
  | handler ans _ h => exact streamInv_handler hs h
  | shell a _ h => exact streamInv_shell hs h
  | caller t ans _ h =>
      have hhandler : s'.handler = s.handler := by
        cases callStep_cases h with
        | crash _ heq => rw [heq]; rfl
        | move _ _ hhandler => exact hhandler
        | setNull _ _ heq => rw [heq]; rfl
        | delete _ _ heq => rw [heq]; rfl
      exact hs.quiet rfl (output_caller h) hhandler
  | invoke t e hidle => exact hs.quiet rfl rfl rfl
  | spurious t => exact hs.quiet rfl rfl rfl
  | closePeer | publish => exact hs.quiet rfl rfl rfl

end Steps

/-! ## Runs -/

variable [DecidableEq τ]

/-- What the shell has sent and the handler has done in a run. -/
def streamLog (s : State τ) (as : List (Action τ)) : List StreamEvent :=
  trace step streamEvents s as

/-- The command has printed a line and a half, of which the handler has performed the line. -/
def lineAndAHalf : List (Action Unit) :=
  [[.opener, .opener, .invoke () (.exec (ascii "id"))], List.replicate 9 (.caller () .ok),
    [.shell .take, .shell (.print (ascii "root\nwh"))],
    List.replicate 4 (.handler .ok)].flatten

end Susrv.Native
