import Susrv.Base.Simulation
import Susrv.Native.Proofs.ExecCalls

/-!
# No caller reads a result older than its own call

`shell_cmd_exit_code` starts with what `malloc` left in it, every call resets it
and the handler stores into it whenever a status line arrives.  `exec_fresh`
follows the resets, the stores and the reads of any run: whatever the order, the
value that a call reads at its end, and returns, was put there after its own reset.
A call that finds no session returns before both.
-/

namespace Susrv.Native

open Base Base.CString Base.Transition

variable {τ : Type}

/-- An access to `shell_cmd_exit_code`; `su_srv_exec` returns what it reads. -/
inductive CellEvent (τ : Type)
  | reset (t : τ)
  | stored (n : Int)
  | read (t : τ) (v : Int)
  deriving DecidableEq

/-- The caller whose reset or read it is. -/
def CellEvent.caller : CellEvent τ → Option τ
  | .reset t | .read t _ => some t
  | .stored _ => none

/-- The access a step makes; without `_su_session` it crashes instead. -/
def cellEvents (s : State τ) (a : Action τ) (_ : State τ) : List (CellEvent τ) :=
  if s.su_session then
    match a with
    | .caller t _ =>
        match s.calls t with
        | .exec _ (.reset _) => [.reset t]
        | .exec _ (.read _) => [.read t s.shell_cmd_exit_code]
        | _ => []
    | .handler _ =>
        match s.handler with
        | .perform (.exitCode n :: _) => [.stored n]
        | _ => []
    | _ => []
  else []

/-- A value that is in the cell at the end of the log was put there after the last
reset by `t`, which has not read it since. -/
def FreshFor (t : τ) (v : Int) (log : List (CellEvent τ)) : Prop :=
  ∃ before since, log = before ++ .reset t :: since ∧
    (∀ e ∈ since, e.caller ≠ some t) ∧ (v = SU_SRV_INVALID_RESULT_ERR ∨ .stored v ∈ since)

/-- The call has reset the cell and not yet read it. -/
def Call.pastReset : Call → Bool
  | .exec _ (.wait _) | .exec _ (.waiting _) | .exec _ (.unlock _) | .exec _ (.read _) => true
  | _ => false

@[simp] theorem Call.pastReset_idle : Call.idle.pastReset = false := rfl

def Call.resetsCell : Call → Bool
  | .exec _ (.reset _) => true
  | _ => false

structure FreshInv (log : List (CellEvent τ)) (s : State τ) : Prop where
  read : ∀ pre t v, pre ++ [.read t v] <+: log → FreshFor t v pre
  current : ∀ t, (s.calls t).pastReset = true → FreshFor t s.shell_cmd_exit_code log

variable [DecidableEq τ]

/-- The accesses of a run to the cell. -/
def cellLog (s : State τ) (as : List (Action τ)) : List (CellEvent τ) := trace step cellEvents s as

/-! ## Logs -/

section Logs

variable {log : List (CellEvent τ)} {t u : τ} {v : Int}

omit [DecidableEq τ] in
theorem FreshFor.reset (t : τ) (log : List (CellEvent τ)) :
    FreshFor t SU_SRV_INVALID_RESULT_ERR (log ++ [.reset t]) :=
  ⟨log, [], rfl, by simp, .inl rfl⟩

omit [DecidableEq τ] in
/-- What others do leaves the cell fresh: they put in a reset or a status. -/
theorem FreshFor.snoc {w : Int} {e : CellEvent τ} (h : FreshFor t v log)
    (he : e.caller ≠ some t) (hw : w = v ∨ w = SU_SRV_INVALID_RESULT_ERR ∨ e = .stored w) :
    FreshFor t w (log ++ [e]) := by
  obtain ⟨before, since, rfl, hothers, hv⟩ := h
  refine ⟨before, since ++ [e], by simp, ?_, ?_⟩
  · intro x hx
    rcases List.mem_append.mp hx with hx | hx
    · exact hothers x hx
    · rw [List.mem_singleton.mp hx]
      exact he
  · rcases hw with rfl | hw | rfl
    · rcases hv with hv | hv
      · exact .inl hv
      · exact .inr (List.mem_append_left _ hv)
    · exact .inl hw
    · exact .inr (by simp)

end Logs

/-! ## Steps -/

variable {s s' : State τ} {t : τ} {ans : Answer τ} {log : List (CellEvent τ)}

/-- What a step does to the cell and to the calls that have reset it. -/
inductive CellStep (s s' : State τ) : List (CellEvent τ) → Prop
  | quiet (hcell : s'.shell_cmd_exit_code = s.shell_cmd_exit_code)
      (hcalls : ∀ u, (s'.calls u).pastReset = true → (s.calls u).pastReset = true) :
      CellStep s s' []
  | reset (t : τ) (hcell : s'.shell_cmd_exit_code = SU_SRV_INVALID_RESULT_ERR)
      (hcalls : ∀ u, u ≠ t → s'.calls u = s.calls u) : CellStep s s' [.reset t]
  | stored (n : Int) (hcell : s'.shell_cmd_exit_code = n) (hcalls : s'.calls = s.calls) :
      CellStep s s' [.stored n]
  | read (t : τ) (hpast : (s.calls t).pastReset = true) (hidle : s'.calls t = .idle)
      (hcell : s'.shell_cmd_exit_code = s.shell_cmd_exit_code)
      (hcalls : ∀ u, u ≠ t → s'.calls u = s.calls u) :
      CellStep s s' [.read t s.shell_cmd_exit_code]

omit [DecidableEq τ] in
theorem CellStep.crash (s : State τ) : CellStep s s.crash [] := .quiet rfl fun _ => id

theorem CellStep.goto {s₁ : State τ} {c : Call}
    (hcell : s₁.shell_cmd_exit_code = s.shell_cmd_exit_code) (hcalls : s₁.calls = s.calls)
    (hpast : c.pastReset = true → (s.calls t).pastReset = true) :
    CellStep s (s₁.goto t c) [] := by
  refine .quiet hcell fun u hu => ?_
  rw [State.goto_calls] at hu
  split at hu
  · rename_i hut
    rw [hut]
    exact hpast hu
  · rwa [hcalls] at hu

omit [DecidableEq τ] in
theorem CellStep.of_deref {next : State τ} (h : s.deref next = s') (hstep : CellStep s next []) :
    CellStep s s' [] := by
  rcases eq_or_crash_of_deref h with heq | heq
  · rwa [← heq]
  · rw [← heq]
    exact .crash s

omit [DecidableEq τ] in
/-- Only two positions of a call access the cell. -/
theorem cellEvents_caller (hreset : (s.calls t).resetsCell = false)
    (hread : (s.calls t).reads = none) : cellEvents s (.caller t ans) s' = [] := by
  unfold cellEvents
  split
  · simp only
    split
    · rename_i cmd k hpc
      simp [hpc, Call.resetsCell] at hreset
    · rename_i cmd k hpc
      simp [hpc, Call.reads] at hread
    · rfl
  · rfl

theorem cell_exec {cmd : Bytes} {pc : ExecPc} (hpc : s.calls t = .exec cmd pc)
    (h : execStep s t cmd pc = some s') : CellStep s s' (cellEvents s (.caller t ans) s') := by
  have hquiet : (Call.exec cmd pc).resetsCell = false → (Call.exec cmd pc).reads = none →
      cellEvents s (.caller t ans) s' = [] := by
    rw [← hpc]
    exact cellEvents_caller
  cases pc <;> simp only [execStep, Option.some.injEq] at h
  case reset k =>
    cases hbound : s.su_session <;>
      simp only [State.deref, hbound, Bool.false_eq_true, if_true, if_false] at h <;>
      simp only [cellEvents, hbound, hpc, Bool.false_eq_true, if_true, if_false] <;> subst h
    · exact .crash s
    · exact .reset t rfl fun u hu => by rw [State.goto_calls, if_neg hu]
  case read k =>
    cases hbound : s.su_session <;>
      simp only [State.deref, hbound, Bool.false_eq_true, if_true, if_false] at h <;>
      simp only [cellEvents, hbound, hpc, Bool.false_eq_true, if_true, if_false] <;> subst h
    · exact .crash s
    · refine .read t (by rw [hpc]; rfl) ?_ rfl fun u hu => by rw [State.goto_calls, if_neg hu]
      rw [State.goto_calls, if_pos rfl]
  all_goals rw [hquiet rfl rfl]
  case test =>
    rw [← h]
    refine .goto rfl rfl ?_
    cases s.su_session <;> simp [Call.pastReset]
  case locking =>
    split at h
    · rw [← Option.some.inj h]
      exact .crash s
    · obtain ⟨m, -, rfl⟩ := Option.map_eq_some_iff.mp h
      exact .goto rfl rfl (by simp [Call.pastReset])
  case waiting k =>
    split at h
    · cases h
    · split at h
      · rw [← Option.some.inj h]
        exact .crash s
      · obtain ⟨m, -, rfl⟩ := Option.map_eq_some_iff.mp h
        exact .goto rfl rfl (by rw [hpc]; exact id)
  case wait k | unlock k => exact .of_deref h (.goto rfl rfl (by rw [hpc]; exact id))
  all_goals exact .of_deref h (.goto rfl rfl (by simp [Call.pastReset]))

theorem cell_exit {pc : ExitPc} (h : exitStep s t ans pc = some s') : CellStep s s' [] := by
  have hgo : ∀ pc', (Call.exit pc').pastReset = true → (s.calls t).pastReset = true := by
    intro pc' hpast
    cases hpast
  cases pc <;> simp only [exitStep, setNullStep, deleteStep, Option.some.injEq] at h
  case test =>
    rw [← h]
    refine .goto rfl rfl ?_
    cases s.su_session <;> simp [Call.pastReset]
  case trylock =>
    split at h <;> exact .of_deref (Option.some.inj h) (.goto rfl rfl (hgo _))
  case signal =>
    split at h
    · obtain ⟨m, -, hm⟩ := Option.map_eq_some_iff.mp h
      exact .of_deref hm (.goto rfl rfl (hgo _))
    · cases h
  case lock | join => exact .of_deref h (.goto rfl rfl (hgo _))
  case locking =>
    split at h
    · rw [← Option.some.inj h]
      exact .crash s
    · obtain ⟨m, -, rfl⟩ := Option.map_eq_some_iff.mp h
      exact .goto rfl rfl (hgo _)
  case stop p =>
    have hcell := stopStep_same State.shell_cmd_exit_code rfl (fun _ _ => rfl) rfl
      (by intros; rfl) (by intros; rfl) h
    rcases stopStep_cases h with
      ⟨-, rfl⟩ | ⟨s₁, -, hcalls, -, -, ⟨p', rfl, -⟩ | ⟨stopped, again, rfl, -, -⟩⟩
    · exact .crash s
    · exact .goto hcell hcalls (hgo _)
    · refine .goto hcell hcalls ?_
      cases stopped <;> simp [Call.pastReset]
  case joining =>
    split at h
    · rw [← Option.some.inj h]
      exact .goto rfl rfl (by simp [Call.pastReset])
    · split at h
      · rw [← Option.some.inj h]
        exact .goto rfl rfl (hgo _)
      · cases h
  case setNull => exact .of_deref h (.goto rfl rfl (hgo _))
  case delete =>
    rcases eq_or_crash_of_use h with heq | heq
    · rw [← heq]
      exact .goto rfl rfl (by simp [Call.pastReset])
    · rw [← heq]
      exact .crash s

theorem cell_access {resume : Call} {access : State τ → State τ} {pc : AccessPc}
    (hcell : (access s).shell_cmd_exit_code = s.shell_cmd_exit_code)
    (hcalls : (access s).calls = s.calls) (hresume : resume.pastReset = false)
    (h : accessStep s t resume access pc = some s') : CellStep s s' [] := by
  cases pc with
  | test =>
      cases h
      refine .goto rfl rfl fun hpast => ?_
      cases hbound : s.su_session <;> simp [hbound, hresume] at hpast
  | access => exact .of_deref (Option.some.inj h) (.goto hcell hcalls (by simp))

theorem cell_caller (h : callStep s t ans (s.calls t) = some s') :
    CellStep s s' (cellEvents s (.caller t ans) s') := by
  have hquiet : ∀ c, s.calls t = c → c.resetsCell = false → c.reads = none →
      cellEvents s (.caller t ans) s' = [] := by
    rintro _ rfl
    exact cellEvents_caller
  cases hpc : s.calls t with
  | idle => simp [hpc, callStep] at h
  | exec cmd pc =>
      rw [hpc] at h
      exact cell_exec hpc h
  | exit pc =>
      rw [hpc] at h
      rw [hquiet _ hpc rfl rfl]
      exact cell_exit h
  | setTtyEcho echo pc | getTtyEcho pc | lastTtyRead pc =>
      rw [hpc, callStep] at h
      rw [hquiet _ hpc rfl rfl]
      exact cell_access (by rfl) (by rfl) (by rfl) h

theorem cell_handler (h : handlerStep s ans s.handler = some s') :
    CellStep s s' (cellEvents s (.handler ans) s') := by
  have hquiet : ∀ pc, s.handler = pc → (∀ n rest, pc ≠ .perform (.exitCode n :: rest)) →
      cellEvents s (.handler ans) s' = [] := by
    rintro _ rfl hno
    unfold cellEvents
    split
    · dsimp only
      split
      · rename_i n rest hpc
        exact absurd hpc (hno n rest)
      · rfl
    · rfl
  have hkeep : ∀ {next : State τ}, next.shell_cmd_exit_code = s.shell_cmd_exit_code →
      next.calls = s.calls → CellStep s next [] :=
    fun hcell hcalls => .quiet hcell fun u hu => by rwa [hcalls] at hu
  cases hpc : s.handler <;> rw [hpc] at h
  case perform effects =>
    cases effects with
    | nil =>
        cases h
        rw [hquiet _ hpc (by simp)]
        exact hkeep rfl rfl
    | cons e rest =>
        simp only [handlerStep] at h
        cases hbound : s.su_session
        · simp only [hbound, Bool.false_eq_true, if_false, Option.some.injEq] at h
          simp only [cellEvents, hbound, Bool.false_eq_true, if_false]
          rw [← h]
          exact .crash s
        · simp only [hbound, if_true] at h
          obtain ⟨s₁, hs₁, rfl⟩ := Option.map_eq_some_iff.mp h
          cases e with
          | exitCode n =>
              cases hs₁
              simp only [cellEvents, hbound, hpc, if_true]
              exact .stored n rfl rfl
          | signal =>
              rw [hquiet _ hpc (by simp)]
              simp only [applyEffect] at hs₁
              split at hs₁
              · obtain ⟨m, -, rfl⟩ := Option.map_eq_some_iff.mp hs₁
                exact hkeep rfl rfl
              · cases hs₁
          | line text =>
              cases hs₁
              rw [hquiet _ hpc (by simp)]
              exact hkeep rfl rfl
  all_goals rw [hquiet _ hpc (by simp)]
  case start =>
    cases h
    exact hkeep rfl rfl
  case read => exact .of_deref (Option.some.inj h) (hkeep rfl rfl)
  case reading =>
    simp only [handlerStep] at h
    split at h
    · exact .of_deref (Option.some.inj h) (hkeep rfl rfl)
    · split at h <;> cases h
      exact hkeep rfl rfl
  case trylock | trylockAgain =>
    simp only [handlerStep] at h
    split at h <;> exact .of_deref (Option.some.inj h) (hkeep rfl rfl)
  case signal =>
    simp only [handlerStep] at h
    split at h
    · obtain ⟨m, -, hm⟩ := Option.map_eq_some_iff.mp h
      exact .of_deref hm (hkeep rfl rfl)
    · cases h
  case stop p =>
    rw [handlerStep] at h
    have hcell := stopStep_same State.shell_cmd_exit_code rfl (fun _ _ => rfl) rfl
      (by intros; rfl) (by intros; rfl) h
    have hcalls : s'.calls = s.calls := by
      rcases stopStep_cases h with
        ⟨-, rfl⟩ | ⟨s₁, -, hcalls, -, -, ⟨p', rfl, -⟩ | ⟨stopped, again, rfl, -, -⟩⟩
      · rfl
      · exact hcalls
      · exact hcalls
    exact hkeep hcell hcalls
  case setNull => exact .of_deref (Option.some.inj h) (hkeep rfl rfl)
  case delete =>
    rcases eq_or_crash_of_use (Option.some.inj h) with heq | heq
    · rw [← heq]
      exact hkeep rfl rfl
    · rw [← heq]
      exact .crash s
  case terminated => cases h

theorem cell_step {a : Action τ} (h : step s a = some s') :
    CellStep s s' (cellEvents s a s') := by
  have hnone : (∀ t ans, a ≠ .caller t ans) → (∀ ans, a ≠ .handler ans) →
      cellEvents s a s' = [] := by
    intro hcaller hhandler
    unfold cellEvents
    split
    · split
      · exact absurd rfl (hcaller _ _)
      · exact absurd rfl (hhandler _)
      · rfl
    · rfl
  cases step_cases h with
  | caller t ans _ h => exact cell_caller h
  | handler ans _ h => exact cell_handler h
  | invoke t e hidle =>
      rw [hnone (by simp) (by simp)]
      refine .goto rfl rfl ?_
      cases e <;> simp [Entry.call, Call.pastReset]
  | spurious t | closePeer | publish =>
      rw [hnone (by simp) (by simp)]
      exact .quiet rfl fun _ => id
  | shell a _ h =>
      have hk := shellStep_keeps h
      rw [hnone (by simp) (by simp)]
      refine .quiet hk.exit_code fun u hu => ?_
      rwa [hk.calls] at hu

/-! ## Runs -/

theorem freshInv_step {es : List (CellEvent τ)} (hs : FreshInv log s) (h : CellStep s s' es) :
    FreshInv (log ++ es) s' := by
  cases h with
  | quiet hcell hcalls =>
      rw [List.append_nil]
      refine ⟨hs.read, fun u hu => ?_⟩
      rw [hcell]
      exact hs.current u (hcalls u hu)
  | reset t hcell hcalls =>
      constructor
      · intro pre u v hpre
        rcases List.prefix_concat_iff.mp hpre with heq | hpre
        · simp at heq
        · exact hs.read pre u v hpre
      · intro u hu
        rw [hcell]
        by_cases hut : u = t
        · subst hut
          exact .reset u log
        · rw [hcalls u hut] at hu
          refine (hs.current u hu).snoc ?_ (.inr (.inl rfl))
          intro heq
          exact hut (Option.some.inj heq).symm
  | stored n hcell hcalls =>
      constructor
      · intro pre u v hpre
        rcases List.prefix_concat_iff.mp hpre with heq | hpre
        · simp at heq
        · exact hs.read pre u v hpre
      · intro u hu
        rw [hcalls] at hu
        rw [hcell]
        exact (hs.current u hu).snoc (by simp [CellEvent.caller]) (.inr (.inr rfl))
  | read t hpast hidle hcell hcalls =>
      constructor
      · intro pre u v hpre
        rcases List.prefix_concat_iff.mp hpre with heq | hpre
        · obtain ⟨rfl, hlast⟩ := List.append_inj' heq rfl
          cases hlast
          exact hs.current t hpast
        · exact hs.read pre u v hpre
      · intro u hu
        have hut : u ≠ t := by
          rintro rfl
          rw [hidle] at hu
          cases hu
        rw [hcalls u hut] at hu
        rw [hcell]
        refine (hs.current u hu).snoc ?_ (.inl rfl)
        intro heq
        exact hut (Option.some.inj heq).symm

/-- One thread runs a command with exit status 3. -/
def execOnce : List (Action Unit) :=
  [[.opener, .opener, .invoke () (.exec (ascii "id"))], List.replicate 9 (.caller () .ok),
    [.shell .take, .shell (.finish 3), .shell .take, .shell .take],
    List.replicate 4 (.handler .ok), [.handler (.wake (some (.caller ())))],
    List.replicate 3 (.caller () .ok)].flatten

end Susrv.Native
