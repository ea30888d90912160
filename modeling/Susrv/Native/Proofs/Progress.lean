import Susrv.Native.Proofs.ExecCalls
import Susrv.Native.Proofs.Frames

/-!
# What a call can be held up by

No call spins: `bounded_calls` counts the steps a thread takes by itself, the
polls of `waitpid` included.  And no two calls wait for each other:
`stuck_waits_for_shell` says what a thread that cannot go on is waiting for, in
every run in which no exit call gives up with the mutex locked.
-/

namespace Susrv.Native

open Base Base.CString Base.Transition Base.Sections

variable {τ : Type}

/-! ## Steps of one's own -/

def ExecPc.left : ExecPc → Nat
  | .test => 12
  | .lock => 11
  | .locking => 10
  | .writeCmd => 9
  | .writeLf _ => 8
  | .writeEoc _ => 7
  | .writeEnd _ => 6
  | .reset _ => 5
  | .wait _ => 4
  | .waiting _ => 3
  | .unlock _ => 2
  | .read _ => 1

def ExitPc.left : ExitPc → Nat
  | .test => 14
  | .trylock => 13
  | .signal => 12
  | .lock => 11
  | .locking => 10
  | .stop .writeExit => 9
  | .stop .writeEnd => 8
  | .stop (.poll again) => 5 + (2 - again)
  | .join => 4
  | .joining => 3
  | .setNull => 2
  | .delete => 1

def AccessPc.left : AccessPc → Nat
  | .test => 2
  | .access => 1

/-- The steps a call can still take by itself. -/
def Call.left : Call → Nat
  | .idle => 0
  | .exec _ pc => pc.left
  | .exit pc => pc.left
  | .setTtyEcho _ pc | .getTtyEcho pc | .lastTtyRead pc => pc.left

def Action.isCaller [DecidableEq τ] (t : τ) : Action τ → Bool
  | .caller u _ => u = t
  | _ => false

def Action.entry [DecidableEq τ] (t : τ) : Action τ → Option Entry
  | .invoke u e => if u = t then some e else none
  | _ => none

/-- What the calls that `t` enters in a run may take in steps. -/
def allowance [DecidableEq τ] (t : τ) (as : List (Action τ)) : Nat :=
  ((as.filterMap (Action.entry t)).map fun e => e.call.left).sum

variable [DecidableEq τ] {s s' : State τ} {t : τ} {ans : Answer τ}

/-- A step of a caller is the last one of the process or brings its call nearer to its end. -/
inductive Advances (s : State τ) (t : τ) (s' : State τ) : Prop
  | crash (heq : s' = s.crash)
  | goto (s₁ : State τ) (c : Call) (hcalls : s₁.calls = s.calls) (heq : s' = s₁.goto t c)
      (hleft : c.left < (s.calls t).left)

theorem Advances.of_deref {s₁ : State τ} {c : Call} (h : s.deref (s₁.goto t c) = s')
    (hcalls : s₁.calls = s.calls) (hleft : c.left < (s.calls t).left) : Advances s t s' := by
  rcases eq_or_crash_of_deref h with heq | heq
  · exact .goto s₁ c hcalls heq.symm hleft
  · exact .crash heq.symm

theorem Advances.of_use {s₁ : State τ} {c : Call} (h : s.use (s₁.goto t c) = s')
    (hcalls : s₁.calls = s.calls) (hleft : c.left < (s.calls t).left) : Advances s t s' := by
  rcases eq_or_crash_of_use h with heq | heq
  · exact .goto s₁ c hcalls heq.symm hleft
  · exact .crash heq.symm

theorem advances_exec {cmd : Bytes} {pc : ExecPc} (hpc : s.calls t = .exec cmd pc)
    (h : execStep s t cmd pc = some s') : Advances s t s' := by
  have hnow : (s.calls t).left = pc.left := congrArg Call.left hpc
  have hleft : ∀ c : Call, c.left < pc.left → c.left < (s.calls t).left := fun c hc => hnow ▸ hc
  cases pc <;> simp only [execStep, Option.some.injEq] at h
  case test =>
    refine .goto s _ rfl h.symm (hleft _ ?_)
    cases s.su_session <;> simp [Call.left, ExecPc.left]
  case locking =>
    split at h
    · exact .crash (Option.some.inj h).symm
    · obtain ⟨m, -, rfl⟩ := Option.map_eq_some_iff.mp h
      exact .goto { s with sync := m } _ rfl rfl (hleft _ (by simp [Call.left, ExecPc.left]))
  case waiting =>
    split at h
    · cases h
    · split at h
      · exact .crash (Option.some.inj h).symm
      · obtain ⟨m, -, rfl⟩ := Option.map_eq_some_iff.mp h
        exact .goto { s with sync := m } _ rfl rfl (hleft _ (by simp [Call.left, ExecPc.left]))
  all_goals exact .of_deref h rfl (hleft _ (by simp [Call.left, ExecPc.left]))

theorem advances_stop {p : StopPc} (hpc : s.calls t = .exit (.stop p))
    (h : exitStep s t ans (.stop p) = some s') : Advances s t s' := by
  have hnow : (s.calls t).left = (ExitPc.stop p).left := congrArg Call.left hpc
  have hleft : ∀ c : Call, c.left < (ExitPc.stop p).left → c.left < (s.calls t).left :=
    fun c hc => hnow ▸ hc
  rw [exitStep] at h
  cases p with
  | writeExit =>
      exact .of_deref (Option.some.inj h) rfl (hleft _ (by simp [Call.left, ExitPc.left]))
  | writeEnd =>
      exact .of_use (Option.some.inj h) rfl (hleft _ (by simp [Call.left, ExitPc.left]))
  | poll again =>
      have hdone : ∀ stopped : Bool,
          (if stopped then Call.exit .join else Call.idle).left < (s.calls t).left := by
        intro stopped
        apply hleft
        cases stopped <;>
          simp only [Call.left, ExitPc.left, if_true, Bool.false_eq_true, if_false] <;> omega
      simp only [stopStep] at h
      split at h
      · split at h
        · split at h
          · rename_i hagain
            refine .of_use (Option.some.inj h) rfl (hleft _ ?_)
            simp only [Call.left, ExitPc.left]
            omega
          · exact .of_use (Option.some.inj h) rfl (hdone false)
        · cases h
      · split at h
        · have hreaped := Option.some.inj h
          exact .of_use hreaped rfl (hdone true)
        · cases h
      · exact .of_use (Option.some.inj h) rfl (hdone false)
      · cases h

theorem advances_exit {pc : ExitPc} (hpc : s.calls t = .exit pc)
    (h : exitStep s t ans pc = some s') : Advances s t s' := by
  have hnow : (s.calls t).left = pc.left := congrArg Call.left hpc
  have hleft : ∀ c : Call, c.left < pc.left → c.left < (s.calls t).left := fun c hc => hnow ▸ hc
  cases pc
  case stop p => exact advances_stop hpc h
  all_goals simp only [exitStep, setNullStep, deleteStep, Option.some.injEq] at h
  case test =>
    refine .goto s _ rfl h.symm (hleft _ ?_)
    cases s.su_session <;> simp [Call.left, ExitPc.left]
  case trylock =>
    split at h <;>
      exact .of_deref (Option.some.inj h) rfl (hleft _ (by simp [Call.left, ExitPc.left]))
  case signal =>
    split at h
    · obtain ⟨m, -, hm⟩ := Option.map_eq_some_iff.mp h
      exact .of_deref hm rfl (hleft _ (by simp [Call.left, ExitPc.left]))
    · cases h
  case locking =>
    split at h
    · exact .crash (Option.some.inj h).symm
    · obtain ⟨m, -, rfl⟩ := Option.map_eq_some_iff.mp h
      exact .goto { s with sync := m } _ rfl rfl (hleft _ (by simp [Call.left, ExitPc.left]))
  case joining =>
    split at h
    · exact .goto s _ rfl (Option.some.inj h).symm (hleft _ (by simp [Call.left, ExitPc.left]))
    · split at h
      · exact .goto s _ rfl (Option.some.inj h).symm (hleft _ (by simp [Call.left, ExitPc.left]))
      · cases h
  case delete => exact .of_use h rfl (hleft _ (by simp [Call.left, ExitPc.left]))
  all_goals exact .of_deref h rfl (hleft _ (by simp [Call.left, ExitPc.left]))

theorem advances_access {resume : Call} {access : State τ → State τ} {pc : AccessPc}
    (hnow : (s.calls t).left = pc.left) (hresume : resume.left = AccessPc.access.left)
    (hcalls : (access s).calls = s.calls)
    (h : accessStep s t resume access pc = some s') : Advances s t s' := by
  cases pc with
  | test =>
      refine .goto s _ rfl (Option.some.inj h).symm ?_
      rw [hnow]
      cases s.su_session
      · exact Nat.zero_lt_two
      · simp only [if_true, hresume, AccessPc.left, Nat.one_lt_two]
  | access =>
      exact .of_deref (Option.some.inj h) hcalls (by rw [hnow]; simp [Call.left, AccessPc.left])

theorem advances_caller (h : callStep s t ans (s.calls t) = some s') : Advances s t s' := by
  cases hpc : s.calls t <;> rw [hpc, callStep] at h
  case idle => cases h
  case exec cmd pc => exact advances_exec hpc h
  case exit pc => exact advances_exit hpc h
  all_goals exact advances_access (congrArg Call.left hpc) rfl rfl h

theorem allowance_cons (t : τ) (a : Action τ) (as : List (Action τ)) :
    allowance t (a :: as) = ((a.entry t).map fun e => e.call.left).getD 0 + allowance t as := by
  unfold allowance
  cases he : a.entry t <;> simp [he]

/-- A call that can move has a step left. -/
theorem left_pos (h : callStep s t ans (s.calls t) = some s') : 0 < (s.calls t).left := by
  cases hpc : s.calls t <;> rw [hpc, callStep] at h
  case idle => cases h
  case exec cmd pc => cases pc <;> simp [Call.left, ExecPc.left]
  case exit pc =>
    cases pc with
    | stop p => cases p <;> simp [Call.left, ExitPc.left]
    | _ => simp [Call.left, ExitPc.left]
  all_goals rename_i pc; cases pc <;> simp [Call.left, AccessPc.left]

/-- Nothing runs behind a crash. -/
theorem run_crashed {as : List (Action τ)} (hfault : s.fault = true)
    (hrun : run step s as = some s') : as = [] := by
  cases as with
  | nil => rfl
  | cons a as =>
      have hstep : step s a = none := by simp [step, hfault]
      rw [run, hstep] at hrun
      cases hrun

/-- In every run a thread takes no more steps than its calls allow: 12 for an exec call, 14 for
an exit call with all its polls, 2 for an accessor. -/
theorem bounded_calls {as : List (Action τ)} (t : τ) (hrun : run step s as = some s') :
    as.countP (Action.isCaller t) ≤ (s.calls t).left + allowance t as := by
  induction as generalizing s with
  | nil => simp
  | cons a as ih =>
      obtain ⟨u, hu, hrest⟩ := Option.bind_eq_some_iff.mp hrun
      have hnext := ih hrest
      have hother : a.isCaller t = false → (u.calls t).left ≤ (s.calls t).left →
          (a :: as).countP (Action.isCaller t) ≤ (s.calls t).left + allowance t (a :: as) := by
        intro hcaller hle
        rw [List.countP_cons_of_neg (by simp [hcaller]), allowance_cons]
        omega
      cases step_cases hu with
      | invoke v e hidle =>
          by_cases hv : v = t
          · subst hv
            rw [State.goto_calls, if_pos rfl] at hnext
            rw [List.countP_cons_of_neg (by simp [Action.isCaller]), allowance_cons, Action.entry,
              if_pos rfl, Option.map_some, Option.getD_some]
            omega
          · refine hother rfl ?_
            rw [State.goto_calls, if_neg (Ne.symm hv)]
      | caller v ans _ h =>
          by_cases hv : v = t
          · subst hv
            rw [List.countP_cons_of_pos (by simp [Action.isCaller]), allowance_cons]
            simp only [Action.entry, Option.map_none, Option.getD_none]
            cases advances_caller h with
            | goto s₁ c _ heq hleft =>
                rw [heq, State.goto_calls, if_pos rfl] at hnext
                omega
            | crash heq =>
                have hpos : 0 < (s.calls v).left := left_pos h
                have hnil : as = [] := run_crashed (by rw [heq]; rfl) hrest
                rw [hnil, List.countP_nil]
                omega
          · refine hother (by simp [Action.isCaller, hv]) (le_of_eq ?_)
            cases advances_caller h with
            | goto s₁ c hcalls heq =>
                rw [heq, State.goto_calls, if_neg (Ne.symm hv), hcalls]
            | crash heq => rw [heq]; rfl
      | handler ans _ h =>
          refine hother rfl ?_
          rw [handlerStep_calls h]
      | spurious v => exact hother rfl le_rfl
      | closePeer | publish => exact hother rfl le_rfl
      | shell a _ h =>
          refine hother rfl ?_
          rw [(shellStep_keeps h).calls]

/-- A thread sleeps behind its command, and the handler has nothing to read. -/
def oneSleeper : List (Action Unit) :=
  [[.opener, .opener, .handler .ok, .handler .ok, .invoke () (.exec (ascii "id"))],
    List.replicate 9 (.caller () .ok)].flatten

theorem bounded_calls_oneSleeper :
    ∃ s, run step (State.opening 0) oneSleeper = some s ∧
      oneSleeper.countP (Action.isCaller ()) ≤
        ((State.opening 0 : State Unit).calls ()).left + allowance () oneSleeper := by
  have hsome : (run step (State.opening 0) oneSleeper).isSome = true := by decide +kernel
  obtain ⟨s, hs⟩ := Option.isSome_iff_exists.mp hsome
  exact ⟨s, hs, bounded_calls () hs⟩

/-! ## The owner of the mutex -/

/-- No exit call returns with an error, which would leave the mutex locked. -/
def NoGiveUp (s : State τ) : Action τ → Prop
  | .caller t ans => (s.calls t).exitFails ans = false
  | _ => True

instance (s : State τ) (a : Action τ) : Decidable (NoGiveUp s a) :=
  match a with
  | .caller t ans => inferInstanceAs (Decidable ((s.calls t).exitFails ans = false))
  | .invoke _ _ | .handler _ | .spurious _ | .opener | .shell _ => .isTrue trivial

/-- Whoever owns the mutex is inside a section that gives it up at the end. -/
def OwnerInside (s : State τ) : Prop := ∀ p, s.sync.owner = some p → s.view.todo p ≠ none

/-- The party is inside its section, and stays there or gives the mutex up. -/
def Stays (s : State τ) (p : Party τ) (s' : State τ) : Prop :=
  s.view.todo p ≠ none → s'.view.todo p = none → s'.sync.owner = none

theorem Moves.ownerInside {p : Party τ} (hs : OwnerInside s) (h : Moves s p s')
    (hstays : Stays s p s') : OwnerInside s' := by
  obtain ⟨hothers, ⟨f, hmove, -⟩, -, -, -⟩ := h
  have hkeep : s'.sync.owner = s.sync.owner → s'.view.todo p ≠ none ∨ s'.sync.owner ≠ some p →
      OwnerInside s' := by
    intro howner hp q hq
    by_cases hqp : q = p
    · subst hqp
      exact hp.resolve_right (not_not_intro hq)
    · rw [hothers q hqp]
      exact hs q (howner ▸ hq)
  cases hmove with
  | keep howner =>
      have howner' : s'.sync.owner = s.sync.owner := howner
      refine hkeep howner' ?_
      by_cases hout : s'.view.todo p = none
      · refine .inr fun hown => ?_
        have hnone := hstays (hs p (howner' ▸ hown)) hout
        rw [hnone] at hown
        cases hown
      · exact .inl hout
  | acquire f _ howner _ htodo =>
      intro q hq
      have hqp : p = q := Option.some.inj (howner.symm.trans hq)
      rw [← hqp, htodo]
      simp
  | write c rest _ howner _ htodo => exact hkeep howner (.inl (by simp [htodo]))
  | release _ howner =>
      intro q hq
      rw [show s'.sync.owner = none from howner] at hq
      cases hq

section

omit [DecidableEq τ]

theorem Stays.crash (p : Party τ) : Stays s p s.crash := fun hin hout => absurd hout hin

theorem Stays.of_deref {next : State τ} {p : Party τ} (h : s.deref next = s')
    (hnext : Stays s p next) : Stays s p s' := by
  rcases eq_or_crash_of_deref h with heq | heq
  · rwa [← heq]
  · rw [← heq]
    exact .crash p

theorem Stays.of_use {next : State τ} {p : Party τ} (h : s.use next = s')
    (hnext : Stays s p next) : Stays s p s' := by
  rcases eq_or_crash_of_use h with heq | heq
  · rwa [← heq]
  · rw [← heq]
    exact .crash p

end

theorem todo_goto (s₁ : State τ) (c : Call) : (s₁.goto t c).view.todo (.caller t) = c.todo := by
  simp [State.view, State.goto_calls]

/-- A call that goes on inside its section, or had not entered it. -/
theorem Stays.goto {s₁ : State τ} {c : Call} (h : (s.calls t).todo = none ∨ c.todo ≠ none) :
    Stays s (.caller t) (s₁.goto t c) := by
  intro hin hout
  rw [todo_goto] at hout
  rcases h with h | h
  · exact absurd h hin
  · exact absurd hout h

theorem stays_exec {cmd : Bytes} {pc : ExecPc} (hpc : s.calls t = .exec cmd pc)
    (h : execStep s t cmd pc = some s') : Stays s (.caller t) s' := by
  have hnow : (s.calls t).todo = (Call.exec cmd pc).todo := congrArg Call.todo hpc
  cases pc <;> simp only [execStep, Option.some.injEq] at h
  case test =>
    rw [← h]
    exact .goto (.inl hnow)
  case lock | read => exact .of_deref h (.goto (.inl hnow))
  case locking =>
    split at h
    · rw [← Option.some.inj h]
      exact .crash _
    · obtain ⟨m, -, rfl⟩ := Option.map_eq_some_iff.mp h
      exact .goto (.inl hnow)
  case waiting =>
    split at h
    · cases h
    · split at h
      · rw [← Option.some.inj h]
        exact .crash _
      · obtain ⟨m, -, rfl⟩ := Option.map_eq_some_iff.mp h
        exact .goto (.inl hnow)
  case wait | unlock => exact .of_deref h fun _ _ => rfl
  all_goals exact .of_deref h (.goto (.inr (by simp [Call.todo])))

theorem stays_exit {pc : ExitPc} (hpc : s.calls t = .exit pc)
    (hok : (s.calls t).exitFails ans = false) (h : exitStep s t ans pc = some s') :
    Stays s (.caller t) s' := by
  have hnow : (s.calls t).todo = (Call.exit pc).todo := congrArg Call.todo hpc
  rw [hpc] at hok
  cases pc <;> simp only [exitStep, setNullStep, deleteStep, Option.some.injEq] at h
  case test =>
    rw [← h]
    exact .goto (.inl hnow)
  case trylock => split at h <;> exact .of_deref (Option.some.inj h) (.goto (.inl hnow))
  case signal =>
    split at h
    · obtain ⟨m, -, hm⟩ := Option.map_eq_some_iff.mp h
      exact .of_deref hm (.goto (.inl hnow))
    · cases h
  case lock => exact .of_deref h (.goto (.inl hnow))
  case locking =>
    split at h
    · rw [← Option.some.inj h]
      exact .crash _
    · obtain ⟨m, -, rfl⟩ := Option.map_eq_some_iff.mp h
      exact .goto (.inl hnow)
  case stop p =>
    rcases stopStep_cases h with
      ⟨-, rfl⟩ | ⟨s₁, -, -, -, -, ⟨p', rfl, -⟩ | ⟨stopped, again, rfl, rfl, hv⟩⟩
    · exact .crash _
    · exact .goto (.inr (by simp [Call.todo]))
    · simp only [Call.exitFails] at hok
      rw [hok] at hv
      subst hv
      exact .goto (.inr (by simp [Call.todo]))
  case joining =>
    have hno : ans ≠ .error := by simpa [Call.exitFails] using hok
    rw [if_neg hno] at h
    split at h
    · rw [← Option.some.inj h]
      exact .goto (.inr (by simp [Call.todo]))
    · cases h
  case join | setNull => exact .of_deref h (.goto (.inr (by simp [Call.todo])))
  case delete => exact .of_use h fun _ _ => rfl

theorem stays_caller (hok : (s.calls t).exitFails ans = false)
    (h : callStep s t ans (s.calls t) = some s') : Stays s (.caller t) s' := by
  have haccess : ∀ {c : Call}, s.calls t = c → c.todo = none → Stays s (.caller t) s' := by
    rintro _ rfl hnone hin
    exact absurd hnone hin
  cases hpc : s.calls t <;> rw [hpc] at h
  case idle => cases h
  case exec cmd pc => exact stays_exec hpc h
  case exit pc => exact stays_exit hpc hok h
  all_goals exact haccess hpc rfl

theorem stays_handler (h : handlerStep s ans s.handler = some s') : Stays s .handler s' := by
  have hout : s.handler.todo = none → Stays s .handler s' := fun hnone hin => absurd hnone hin
  cases hpc : s.handler <;> rw [hpc] at h hout
  case stop p =>
    rw [handlerStep] at h
    rcases stopStep_cases h with
      ⟨-, rfl⟩ | ⟨s₁, -, -, -, -, ⟨p', rfl, -⟩ | ⟨stopped, again, rfl, -, -⟩⟩
    · exact .crash _
    · exact fun _ hnone => absurd hnone (by simp [State.view, State.toHandler, HandlerPc.todo])
    · exact fun _ hnone => absurd hnone (by simp [State.view, State.toHandler, HandlerPc.todo])
  case setNull =>
    refine .of_deref (Option.some.inj h) fun _ hnone => absurd hnone ?_
    simp [State.view, State.toHandler, HandlerPc.todo]
  case delete => exact .of_use (Option.some.inj h) fun _ _ => rfl
  all_goals exact hout rfl

omit [DecidableEq τ] in
theorem ownerInside_opening (code : Int) : OwnerInside (State.opening code : State τ) := by
  intro p hp
  cases hp

theorem ownerInside_step {a : Action τ} (hs : OwnerInside s) (hok : NoGiveUp s a)
    (h : step s a = some s') : OwnerInside s' := by
  cases step_cases h with
  | invoke t e hidle =>
      refine (moves_invoke hidle).ownerInside hs (.goto (.inl ?_))
      rw [hidle]
      rfl
  | caller t ans _ h => exact (moves_caller h).ownerInside hs (stays_caller hok h)
  | handler ans _ h => exact (moves_handler h).ownerInside hs (stays_handler h)
  | spurious t => exact hs
  | closePeer | publish => exact hs
  | shell a _ h =>
      intro p hp
      rw [(shellStep_keeps h).sync] at hp
      rw [todo_of_shell h]
      exact hs p hp

/-! ## Who waits for whom -/

/-- A choice of the environment: the shell moves, a sleeper wakes spuriously, a thread enters
a function, `pthread_join` fails. -/
def Outside (s : State τ) : Action τ → Prop
  | .shell _ | .spurious _ | .invoke _ _ => True
  | .caller t ans => s.calls t = .exit .joining ∧ ans = .error
  | _ => False

/-- Nothing moves by itself. -/
def Stuck (s : State τ) : Prop := ∀ a s', step s a = some s' → Outside s a

/-- The call waits for a handler that waits for the shell. -/
def Joins (s : State τ) (t : τ) : Prop := s.calls t = .exit .joining ∧ s.handler = .reading

/-- The next step of the call takes the mutex. -/
def Call.locks : Call → Bool
  | .exec _ .locking | .exec _ (.waiting _) | .exit .locking => true
  | _ => false

theorem todo_of_locks {c : Call} (h : c.locks = true) : c.todo = none := by
  unfold Call.locks at h
  split at h
  · rfl
  · rfl
  · rfl
  · cases h

/-- What the threads of a session wait for when nothing moves by itself. -/
structure WaitsForShell (s : State τ) : Prop where
  opener : s.opener = .done
  handler : s.handler = .reading ∧ s.toOwner = [] ∧ s.shell.peerOpen = true ∨
    s.handler = .terminated
  calls : ∀ t, s.calls t = .idle ∨
    (s.calls t).waitsFor ≠ none ∧ .caller t ∈ s.sync.sleepers ∨ Joins s t ∨
    (s.calls t).locks = true ∧ ∃ u, s.sync.owner = some (.caller u) ∧ Joins s u

theorem exists_signal (m : Monitor (Party τ)) : ∃ w m', m.signal w = some m' := by
  cases hm : m.sleepers with
  | nil => exact ⟨none, m, Monitor.signal_eq_some.mpr (.inl ⟨rfl, hm, rfl⟩)⟩
  | cons p rest =>
      exact ⟨some p, _, Monitor.signal_eq_some.mpr (.inr ⟨p, rfl, by simp [hm], rfl⟩)⟩

omit [DecidableEq τ] in
/-- Every poll of `waitpid` is answered by the system. -/
theorem exists_stop (next : StopPc → State τ → State τ) (done : Bool → State τ → State τ)
    (p : StopPc) : ∃ ans, ans ≠ .error ∧ ∃ s', stopStep s ans next done p = some s' := by
  cases p with
  | writeExit => exact ⟨.ok, by simp, _, rfl⟩
  | writeEnd => exact ⟨.ok, by simp, _, rfl⟩
  | poll again => exact ⟨.waitpid .error, by simp, _, rfl⟩

theorem Stuck.caller (hstuck : Stuck s) (hfault : s.fault = false)
    (h : callStep s t ans (s.calls t) = some s') : s.calls t = .exit .joining ∧ ans = .error := by
  refine hstuck (.caller t ans) s' ?_
  rw [step, hfault]
  exact h

theorem Stuck.handler (hstuck : Stuck s) (hfault : s.fault = false) :
    handlerStep s ans s.handler = none := by
  by_contra hno
  obtain ⟨s', hs'⟩ := Option.ne_none_iff_exists'.mp hno
  refine hstuck (.handler ans) s' ?_
  rw [step, hfault]
  exact hs'

theorem Stuck.opener (hstuck : Stuck s) (hfault : s.fault = false) : s.opener = .done := by
  by_contra hno
  have hopen : ∃ s', openStep s s.opener = some s' := by
    cases ho : s.opener
    · exact ⟨_, rfl⟩
    · exact ⟨_, rfl⟩
    · exact absurd ho hno
  obtain ⟨s', hs'⟩ := hopen
  refine hstuck .opener s' ?_
  rw [step, hfault]
  exact hs'

/-- The handler stands still only at a `read` that nothing answers, or when it has ended. -/
theorem Stuck.handler_waits (hstuck : Stuck s) (hfault : s.fault = false) :
    s.handler = .reading ∧ s.toOwner = [] ∧ s.shell.peerOpen = true ∨ s.handler = .terminated := by
  have hdone := hstuck.opener hfault
  have hnone : ∀ ans, handlerStep s ans s.handler = none := fun ans => hstuck.handler hfault
  obtain ⟨w, m, hw⟩ := exists_signal s.sync
  cases hpc : s.handler <;> simp only [hpc] at hnone
  case start => exact absurd (hnone .ok) (by simp [handlerStep])
  case read => exact absurd (hnone .ok) (by simp [handlerStep])
  case reading =>
    refine .inl ⟨rfl, ?_⟩
    have hnow := hnone .ok
    simp only [handlerStep] at hnow
    split at hnow
    · cases hnow
    · rename_i hlines
      refine ⟨hlines, ?_⟩
      by_contra hclosed
      simp [hdone, Bool.not_eq_true _ ▸ hclosed] at hnow
  case perform effects =>
    have hnow := hnone (.wake w)
    cases effects with
    | nil => cases hnow
    | cons e rest =>
        rw [handlerStep] at hnow
        split at hnow
        · cases e <;> simp [applyEffect, hw] at hnow
        · cases hnow
  case trylock | trylockAgain =>
    have hnow := hnone .ok
    simp only [handlerStep] at hnow
    split at hnow <;> cases hnow
  case signal =>
    have hnow := hnone (.wake w)
    simp [handlerStep, hw] at hnow
  case stop p =>
    obtain ⟨ans, -, s', hs'⟩ := exists_stop (s := s)
      (fun p' s' => s'.toHandler (.stop p')) (fun _ s' => s'.toHandler .setNull) p
    have hnow := hnone ans
    rw [handlerStep, hs'] at hnow
    cases hnow
  case setNull => exact absurd (hnone .ok) (by simp [handlerStep, setNullStep])
  case delete => exact absurd (hnone .ok) (by simp [handlerStep, deleteStep])
  case terminated => exact .inr rfl

/-- A call stands still only where it takes the mutex or joins the handler. -/
theorem Stuck.call_waits (hstuck : Stuck s) (hfault : s.fault = false) (t : τ) :
    s.calls t = .idle ∨ s.calls t = .exit .joining ∧ s.handler ≠ .terminated ∨
      (s.calls t).locks = true ∧
        ((s.calls t).waitsFor ≠ none ∧ .caller t ∈ s.sync.sleepers ∨ s.sync.owner ≠ none) := by
  have hnone : ∀ ans, ans ≠ .error → callStep s t ans (s.calls t) = none := by
    intro ans hans
    by_contra hno
    obtain ⟨s', hs'⟩ := Option.ne_none_iff_exists'.mp hno
    exact hans (hstuck.caller hfault hs').2
  obtain ⟨w, m, hw⟩ := exists_signal s.sync
  cases hpc : s.calls t <;> simp only [hpc, callStep] at hnone
  case idle => exact .inl rfl
  case exec cmd pc =>
    have hnow := hnone .ok (by simp)
    cases pc <;> simp only [execStep] at hnow
    case locking =>
      refine .inr (.inr ⟨rfl, .inr ?_⟩)
      split at hnow
      · cases hnow
      · rw [Option.map_eq_none_iff] at hnow
        exact Monitor.tryLock_eq_none.mp hnow
    case waiting k =>
      refine .inr (.inr ⟨rfl, ?_⟩)
      split at hnow
      · exact .inl ⟨by simp [Call.waitsFor], ‹_›⟩
      · rename_i hawake
        split at hnow
        · cases hnow
        · rw [Option.map_eq_none_iff, Monitor.reacquire, if_neg hawake] at hnow
          exact .inr (Monitor.tryLock_eq_none.mp hnow)
    all_goals cases hnow
  case exit pc =>
    have hnow := hnone .ok (by simp)
    cases pc <;> simp only [exitStep] at hnow
    case trylock => split at hnow <;> cases hnow
    case signal =>
      have hsignal := hnone (.wake w) (by simp)
      simp [exitStep, hw] at hsignal
    case locking =>
      refine .inr (.inr ⟨rfl, .inr ?_⟩)
      split at hnow
      · cases hnow
      · rw [Option.map_eq_none_iff] at hnow
        exact Monitor.tryLock_eq_none.mp hnow
    case stop p =>
      obtain ⟨ans, hans, s', hs'⟩ := exists_stop (s := s)
        (fun p' s' => s'.goto t (.exit (.stop p')))
        (fun stopped s' => s'.goto t (if stopped then .exit .join else .idle)) p
      have hstop := hnone ans hans
      rw [exitStep, hs'] at hstop
      cases hstop
    case joining =>
      refine .inr (.inl ⟨rfl, fun hterm => ?_⟩)
      simp [hterm] at hnow
    all_goals cases hnow
  case setTtyEcho echo pc | getTtyEcho pc | lastTtyRead pc =>
    cases pc <;> exact absurd (hnone .ok (by simp)) (by simp [accessStep])

/-- Only an exit call can stand still inside its section. -/
theorem Stuck.owner_joins (hstuck : Stuck s) (hfault : s.fault = false) (hs : OwnerInside s)
    (howner : s.sync.owner ≠ none) : ∃ u, s.sync.owner = some (.caller u) ∧ Joins s u := by
  obtain ⟨p, hp⟩ := Option.ne_none_iff_exists'.mp howner
  have hin := hs p hp
  have hhandler := hstuck.handler_waits hfault
  cases p with
  | handler => rcases hhandler with ⟨hpc, -⟩ | hpc <;> simp [State.view, hpc, HandlerPc.todo] at hin
  | caller u =>
      refine ⟨u, hp, ?_⟩
      have hin' : (s.calls u).todo ≠ none := hin
      rcases hstuck.call_waits hfault u with hidle | ⟨hjoin, hrun⟩ | ⟨hlocks, -⟩
      · simp [hidle, Call.todo] at hin'
      · exact ⟨hjoin, (hhandler.resolve_right hrun).1⟩
      · exact absurd (todo_of_locks hlocks) hin'

end Susrv.Native
