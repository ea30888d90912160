import Susrv.Native.Proofs.SessionLife

/-!
# The steps of an exec call

`execCall_cases` says what a step of `su_srv_exec` or of an accessor does to the
cell, the sleepers and the results.  The result of a call is decided by the
three steps it singles out: the reset, the wait and the final read.
-/

namespace Susrv.Native

open Base Base.CString Base.Transition

variable {τ : Type}

/-- The frame a call has begun to submit and whose result it has not read yet. -/
def Call.frame : Call → Option Nat
  | .exec _ (.writeLf k) | .exec _ (.writeEoc k) | .exec _ (.writeEnd k) | .exec _ (.reset k)
  | .exec _ (.wait k) | .exec _ (.waiting k) | .exec _ (.unlock k) | .exec _ (.read k) => some k
  | _ => none

/-- The frame whose result the call awaits or is about to read. -/
def Call.awaiting : Call → Option Nat
  | .exec _ (.waiting k) | .exec _ (.unlock k) | .exec _ (.read k) => some k
  | _ => none

/-- The frame a call waits for in `pthread_cond_wait`. -/
def Call.waitsFor : Call → Option Nat
  | .exec _ (.waiting k) => some k
  | _ => none

def Call.isExec : Call → Bool
  | .exec _ _ => true
  | _ => false

/-- The frame of a call that is about to read the cell. -/
def Call.reads : Call → Option Nat
  | .exec _ (.read k) => some k
  | _ => none

@[simp] theorem Call.exiting_idle : Call.idle.exiting = false := rfl
@[simp] theorem Call.frame_idle : Call.idle.frame = none := rfl
@[simp] theorem Call.isExec_idle : Call.idle.isExec = false := rfl
@[simp] theorem Call.waitsFor_idle : Call.idle.waitsFor = none := rfl

@[simp] theorem Call.awaiting_idle : Call.idle.awaiting = none := rfl

theorem Call.frame_of_awaiting {c : Call} {k : Nat} (h : c.awaiting = some k) :
    c.frame = some k := by
  unfold Call.awaiting at h
  split at h
  · exact h
  · exact h
  · exact h
  · cases h

theorem Call.awaiting_of_waitsFor {c : Call} {k : Nat} (h : c.waitsFor = some k) :
    c.awaiting = some k := by
  unfold Call.waitsFor at h
  split at h
  · exact h
  · cases h

/-- What neither an exec call nor an accessor touches. -/
structure SameOutside (s s' : State τ) : Prop extends SameLife s s' where
  handler : s'.handler = s.handler
  shell : s'.shell = s.shell
  toOwner : s'.toOwner = s.toOwner
  statuses : s'.hist.statuses = s.hist.statuses
  echoed : s'.hist.echoed = s.hist.echoed
  stored : s'.hist.stored = s.hist.stored
  signalled : s'.hist.signalled = s.hist.signalled

theorem SameOutside.of_goto [DecidableEq τ] {s s₁ : State τ} {t : τ} {c : Call}
    (h : SameOutside s s₁) : SameOutside s (s₁.goto t c) := by
  obtain ⟨⟨h₁, h₂, h₃, h₄⟩, h₅, h₆, h₇, h₈, h₉, h₁₀, h₁₁⟩ := h
  exact ⟨⟨h₁, h₂, h₃, h₄⟩, h₅, h₆, h₇, h₈, h₉, h₁₀, h₁₁⟩

variable [DecidableEq τ] {s s' : State τ} {t : τ}

/-- A step of a call other than exit. -/
inductive ExecStep (s : State τ) (t : τ) (s' : State τ) : Prop
  | crash (hdead : ¬ Live s) (heq : s' = s.crash)
  | move (c : Call) (hout : SameOutside s s') (hcalls : s'.calls = Function.update s.calls t c)
      (hcell : s'.shell_cmd_exit_code = s.shell_cmd_exit_code)
      (hreset : s'.hist.storedAtReset = s.hist.storedAtReset)
      (hresults : s'.hist.results = s.hist.results)
      (hsleep : s'.sync.sleepers = s.sync.sleepers)
      (howner : s'.sync.owner = some .handler → s.sync.owner = some .handler)
      (hexit : c.exiting = false) (hpark : c.waitsFor = none)
      (hkind : c.isExec = true → (s.calls t).isExec = true)
      (hawake : (s.calls t).waitsFor ≠ none → .caller t ∉ s.sync.sleepers)
      (hframe : ∀ k, c.frame = some k →
        ((s.calls t).frame = some k ∧ c.awaiting = (s.calls t).awaiting) ∨
          (k = s.hist.submitted ∧ c.awaiting = none))
  | reset (cmd : Bytes) (k : Nat) (hpc : s.calls t = .exec cmd (.reset k))
      (heq : s' =
        { s with
            shell_cmd_exit_code := SU_SRV_INVALID_RESULT_ERR
            hist := { s.hist with storedAtReset := some s.hist.stored } }.goto t
          (.exec cmd (.wait k)))
  | wait (cmd : Bytes) (k : Nat) (hpc : s.calls t = .exec cmd (.wait k))
      (hbound : s.su_session = true)
      (heq : s' = { s with sync := s.sync.wait (.caller t) }.goto t (.exec cmd (.waiting k)))
  | read (cmd : Bytes) (k : Nat) (hpc : s.calls t = .exec cmd (.read k))
      (heq : s' =
        { s with
            hist := { s.hist with
              results := ⟨k, s.shell_cmd_exit_code, !s.shell.peerOpen⟩ :: s.hist.results } }.goto t
          .idle)

theorem ExecStep.of_goto {s₁ : State τ} {c c' : Call} (hout : SameOutside s s₁)
    (hcalls : s₁.calls = s.calls) (hcell : s₁.shell_cmd_exit_code = s.shell_cmd_exit_code)
    (hreset : s₁.hist.storedAtReset = s.hist.storedAtReset)
    (hresults : s₁.hist.results = s.hist.results)
    (hsleep : s₁.sync.sleepers = s.sync.sleepers)
    (howner : s₁.sync.owner = some .handler → s.sync.owner = some .handler) (hpc : s.calls t = c)
    (hexit : c'.exiting = false) (hpark : c'.waitsFor = none)
    (hkind : c'.isExec = true → c.isExec = true)
    (hawake : c.waitsFor ≠ none → .caller t ∉ s.sync.sleepers)
    (hframe : ∀ k, c'.frame = some k → (c.frame = some k ∧ c'.awaiting = c.awaiting) ∨
      (k = s.hist.submitted ∧ c'.awaiting = none)) : ExecStep s t (s₁.goto t c') := by
  subst hpc
  exact .move c' hout.of_goto (by simp [State.goto, hcalls]) hcell hreset hresults hsleep
    howner hexit
    hpark hkind hawake hframe

theorem ExecStep.of_deref {next : State τ} (h : s.deref next = s') (hstep : ExecStep s t next) :
    ExecStep s t s' := by
  rcases deref_cases s next with ⟨-, heq⟩ | ⟨hdead, heq⟩
  · rwa [← h, heq]
  · exact .crash hdead (h.symm.trans heq)

theorem execStep_exec {cmd : Bytes} {pc : ExecPc} (hpc : s.calls t = .exec cmd pc)
    (h : execStep s t cmd pc = some s') : ExecStep s t s' := by
  have hsame : SameOutside s s := ⟨⟨rfl, rfl, rfl, rfl⟩, rfl, rfl, rfl, rfl, rfl, rfl, rfl⟩
  cases pc <;> simp only [execStep, Option.some.injEq] at h
  case test =>
    rw [← h]
    refine .of_goto hsame rfl rfl rfl rfl rfl id hpc ?_ ?_
      (fun _ => rfl) (by simp [Call.waitsFor]) ?_ <;>
      cases s.su_session <;> simp [Call.exiting, Call.waitsFor, Call.frame]
  case lock =>
    exact .of_deref h (.of_goto hsame rfl rfl rfl rfl rfl id hpc rfl rfl (fun _ => rfl)
      (by simp [Call.waitsFor]) (by simp [Call.frame]))
  case locking =>
    split at h
    · exact .crash (not_live_of_freed ‹_›) (Option.some.inj h).symm
    · obtain ⟨m, hm, rfl⟩ := Option.map_eq_some_iff.mp h
      obtain ⟨-, rfl⟩ := Monitor.tryLock_eq_some.mp hm
      exact .of_goto ⟨⟨rfl, rfl, rfl, rfl⟩, rfl, rfl, rfl, rfl, rfl, rfl, rfl⟩ rfl rfl rfl rfl rfl
        (by simp) hpc rfl rfl (fun _ => rfl) (by simp [Call.waitsFor]) (by simp [Call.frame])
  case waiting k =>
    split at h
    · cases h
    · rename_i hawake
      split at h
      · exact .crash (not_live_of_freed ‹_›) (Option.some.inj h).symm
      · obtain ⟨m, hm, rfl⟩ := Option.map_eq_some_iff.mp h
        obtain ⟨-, -, rfl⟩ := Monitor.reacquire_eq_some.mp hm
        exact .of_goto ⟨⟨rfl, rfl, rfl, rfl⟩, rfl, rfl, rfl, rfl, rfl, rfl, rfl⟩ rfl rfl rfl rfl rfl
          (by simp) hpc rfl rfl (fun _ => rfl) (fun _ => hawake)
            (by simp [Call.frame, Call.awaiting])
  case reset k => exact .of_deref h (.reset cmd k hpc rfl)
  case wait k =>
    rcases deref_cases s
      ({ s with sync := s.sync.wait (.caller t) }.goto t (.exec cmd (.waiting k)))
      with ⟨hbound, heq⟩ | ⟨hdead, heq⟩
    · exact .wait cmd k hpc hbound (h.symm.trans heq)
    · exact .crash hdead (h.symm.trans heq)
  case read k => exact .of_deref h (.read cmd k hpc rfl)
  all_goals
    refine .of_deref h (.of_goto ?_ rfl rfl rfl rfl rfl ?_ hpc rfl rfl (fun _ => rfl)
      (by simp [Call.waitsFor]) ?_)
    · exact ⟨⟨rfl, rfl, rfl, rfl⟩, rfl, rfl, rfl, rfl, rfl, rfl, rfl⟩
    · simp [State.write, Monitor.unlock]
    · simp [Call.frame, Call.awaiting]

theorem execStep_access {resume : Call} {access : State τ → State τ} {pc : AccessPc}
    {c : AccessPc → Call} (hpc : s.calls t = c pc) (hout : SameOutside s (access s))
    (hsync : (access s).sync = s.sync) (hcalls : (access s).calls = s.calls)
    (hcell : (access s).shell_cmd_exit_code = s.shell_cmd_exit_code)
    (hhist : (access s).hist = s.hist) (hresume : resume.exiting = false)
    (hpark : resume.waitsFor = none) (hframe : resume.frame = none) (hkind : resume.isExec = false)
    (hwaits : (c pc).waitsFor = none)
    (h : accessStep s t resume access pc = some s') : ExecStep s t s' := by
  cases pc <;> simp only [accessStep, Option.some.injEq] at h
  case test =>
    rw [← h]
    refine .of_goto ⟨⟨rfl, rfl, rfl, rfl⟩, rfl, rfl, rfl, rfl, rfl, rfl, rfl⟩ rfl rfl rfl rfl rfl id
      hpc ?_ ?_ ?_ (by simp [hwaits]) ?_ <;> cases s.su_session <;>
        simp [hresume, hpark, hframe, hkind]
  case access =>
    exact .of_deref h (.of_goto hout hcalls hcell (by rw [hhist]) (by rw [hhist]) (by rw [hsync])
      (by rw [hsync]; exact id) hpc rfl rfl (by simp) (by simp [hwaits]) (by simp))

theorem execCall_cases {ans : Answer τ} (hno : (s.calls t).exiting = false)
    (h : callStep s t ans (s.calls t) = some s') : ExecStep s t s' := by
  have hsame : SameOutside s s := ⟨⟨rfl, rfl, rfl, rfl⟩, rfl, rfl, rfl, rfl, rfl, rfl, rfl⟩
  cases hpc : s.calls t with
  | idle => simp [hpc, callStep] at h
  | exit pc => simp [hpc, Call.exiting] at hno
  | exec cmd pc =>
      rw [hpc] at h
      exact execStep_exec hpc h
  | setTtyEcho echo pc =>
      rw [hpc, callStep] at h
      exact execStep_access (c := .setTtyEcho echo) hpc
        ⟨⟨rfl, rfl, rfl, rfl⟩, rfl, rfl, rfl, rfl, rfl, rfl, rfl⟩ rfl rfl rfl rfl rfl rfl
          rfl rfl rfl h
  | getTtyEcho pc =>
      rw [hpc, callStep] at h
      exact execStep_access (c := .getTtyEcho) hpc hsame rfl rfl rfl rfl rfl rfl rfl rfl rfl h
  | lastTtyRead pc =>
      rw [hpc, callStep] at h
      exact execStep_access (c := .lastTtyRead) hpc hsame rfl rfl rfl rfl rfl rfl rfl rfl rfl h

end Susrv.Native
