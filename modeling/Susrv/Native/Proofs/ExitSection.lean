import Susrv.Native.Proofs.ExitPaths
import Susrv.Native.Proofs.Frames

/-!
# The section of an exit call

From the moment it owns the mutex an exit call is alone with the session: `Deleting` says
that whoever unbinds the session holds the mutex until he has deleted it, and
`exit_isolated` that the rest of the call ends as the function of `Lifecycle.lean` does on
the same answers, whatever the other threads, the handler and the shell do meanwhile.
-/

namespace Susrv.Native

open Base Base.CString Base.Transition

variable {τ : Type} [DecidableEq τ] {s s' : State τ} {t : τ} {ans : Answer τ}

/-! ## Who is about to delete the session -/

/-- Whoever unbinds the session holds the mutex until he has deleted it. -/
structure Deleting (s : State τ) : Prop extends LifeInv s where
  opened : s.opener = .done
  framed : ∃ log, Sections.Framed Frame.chunks log s.view
  deleter : s.su_session = false → s.freed = false →
    s.handler = .delete ∨ ∃ t, s.calls t = .exit .delete
  deleted : s.freed = true → s.sync.owner = none

omit [DecidableEq τ] in
theorem deleting_published (code : Int) :
    Deleting (State.published code : State τ) where
  toLifeInv := lifeInv_published code
  opened := rfl
  framed := ⟨[], (framed_opening (τ := τ) code).same rfl rfl rfl⟩
  deleter := by simp [State.published]
  deleted _ := rfl

theorem deleter_caller (hs : Deleting s)
    (h : callStep s t ans (s.calls t) = some s') (hnull : s'.su_session = false)
    (hfreed : s'.freed = false) : s'.handler = .delete ∨ ∃ u, s'.calls u = .exit .delete := by
  cases callStep_cases h with
  | crash _ heq =>
      rw [heq] at hnull hfreed ⊢
      exact hs.deleter hnull hfreed
  | move c hlife hhandler hcalls =>
      rw [hlife.su_session] at hnull
      have hfreed₀ := hfreed
      rw [hlife.freed] at hfreed₀
      rcases hs.deleter hnull hfreed₀ with hdelete | ⟨u, hu⟩
      · exact .inl (hhandler.trans hdelete)
      · by_cases hut : u = t
        · -- the deletion itself frees the session
          rw [← hut, hu] at h
          simp only [callStep, exitStep, deleteStep, State.use, hfreed₀,
            Bool.false_eq_true, if_false, Option.some.injEq] at h
          rw [← h] at hfreed
          cases hfreed
        · exact .inr ⟨u, by rw [hcalls, Function.update_of_ne hut, hu]⟩
  | setNull _ _ heq =>
      rw [heq]
      exact .inr ⟨t, by rw [State.goto_calls, if_pos rfl]⟩
  | delete _ _ heq =>
      rw [heq] at hfreed
      cases hfreed

theorem deleter_handler (hs : Deleting s)
    (h : handlerStep s ans s.handler = some s') (hnull : s'.su_session = false)
    (hfreed : s'.freed = false) : s'.handler = .delete ∨ ∃ u, s'.calls u = .exit .delete := by
  cases handlerStep_cases h with
  | crash _ heq =>
      rw [heq] at hnull hfreed ⊢
      exact hs.deleter hnull hfreed
  | move hlife hcalls hbefore =>
      rw [hlife.su_session] at hnull
      rw [hlife.freed] at hfreed
      rcases hs.deleter hnull hfreed with hdelete | hcall
      · exact absurd hdelete hbefore
      · rw [hcalls]
        exact .inr hcall
  | setNull _ _ heq =>
      rw [heq]
      exact .inl rfl
  | delete _ _ heq =>
      rw [heq] at hfreed
      cases hfreed

/-- Nobody takes the mutex of a deleted session. -/
theorem sync_of_freed (hnull : s.su_session = false) (hfreed : s.freed = true)
    (h : callStep s t ans (s.calls t) = some s') : s'.sync = s.sync := by
  have hderef : ∀ next, s.deref next = s.crash := fun next => by simp [State.deref, hnull]
  have huse : ∀ next, s.use next = s.crash := fun next => by simp [State.use, hfreed]
  cases hc : s.calls t with
  | idle =>
      rw [hc] at h
      cases h
  | exec cmd pc =>
      rw [hc] at h
      simp only [callStep] at h
      cases pc <;> simp only [execStep, hderef, hfreed, if_true, Option.some.injEq] at h
      case waiting =>
        split at h
        · cases h
        · rw [← Option.some.inj h]
          rfl
      all_goals
        rw [← h]
        rfl
  | exit pc =>
      rw [hc] at h
      simp only [callStep] at h
      cases pc <;> simp only [exitStep, setNullStep, deleteStep, hderef, huse,
        hfreed, if_true, Option.some.injEq] at h
      case trylock =>
        split at h <;> rw [← Option.some.inj h] <;> rfl
      case signal =>
        split at h
        · obtain ⟨m, -, rfl⟩ := Option.map_eq_some_iff.mp h
          rfl
        · cases h
      case stop p =>
        exact stopStep_same (fun s : State τ => s.sync) rfl (fun _ _ => rfl) rfl
          (by intros; rfl) (by intros; rfl) h
      case joining =>
        split at h
        · rw [← Option.some.inj h]
          rfl
        · split at h <;> cases h
          rfl
      all_goals
        rw [← h]
        rfl
  | setTtyEcho echo pc | getTtyEcho pc | lastTtyRead pc =>
      rw [hc] at h
      simp only [callStep] at h
      cases pc <;> simp only [accessStep, hderef, Option.some.injEq] at h <;>
        rw [← h] <;> rfl

theorem deleted_caller (hs : Deleting s) (h : callStep s t ans (s.calls t) = some s')
    (hfreed : s'.freed = true) : s'.sync.owner = none := by
  by_cases hbefore : s.freed = true
  · rw [sync_of_freed (hs.freed_null hbefore) hbefore h]
    exact hs.deleted hbefore
  · cases callStep_cases h with
    | crash _ heq =>
        rw [heq] at hfreed
        exact absurd hfreed hbefore
    | move c hlife =>
        rw [hlife.freed] at hfreed
        exact absurd hfreed hbefore
    | setNull _ _ heq =>
        rw [heq] at hfreed
        exact absurd hfreed hbefore
    | delete _ _ heq =>
        rw [heq]
        rfl

theorem deleted_handler (hs : Deleting s) (h : handlerStep s ans s.handler = some s')
    (hfreed : s'.freed = true) : s'.sync.owner = none := by
  have hbefore : ¬ s.freed = true := by
    intro hfreed
    exact not_terminated_of_step h (hs.freed_handler hfreed)
  cases handlerStep_cases h with
  | crash _ heq =>
      rw [heq] at hfreed
      exact absurd hfreed hbefore
  | move hlife =>
      rw [hlife.freed] at hfreed
      exact absurd hfreed hbefore
  | setNull _ _ heq =>
      rw [heq] at hfreed
      exact absurd hfreed hbefore
  | delete _ _ heq =>
      rw [heq]
      rfl

theorem deleting_step {a : Action τ} (hs : Deleting s) (h : step s a = some s') :
    Deleting s' := by
  obtain ⟨log, hlog⟩ := hs.framed
  have hlife := lifeInv_step hs.toLifeInv h
  have hopened := opener_done_step hs.opened h
  have hframed := framed_step hlog h
  cases step_cases h with
  | invoke t e hidle =>
      refine ⟨hlife, hopened, ⟨_, hframed⟩, fun hnull hfreed => ?_, hs.deleted⟩
      rcases hs.deleter hnull hfreed with hdelete | ⟨u, hu⟩
      · exact .inl hdelete
      · refine .inr ⟨u, ?_⟩
        rw [State.goto_calls, if_neg, hu]
        rintro rfl
        rw [hidle] at hu
        cases hu
  | caller t ans _ h =>
      exact ⟨hlife, hopened, ⟨_, hframed⟩, deleter_caller hs h, deleted_caller hs h⟩
  | handler ans _ h =>
      exact ⟨hlife, hopened, ⟨_, hframed⟩, deleter_handler hs h, deleted_handler hs h⟩
  | spurious t => exact ⟨hlife, hopened, ⟨_, hframed⟩, hs.deleter, hs.deleted⟩
  | closePeer ho | publish ho => simp [hs.opened] at ho
  | shell a _ h =>
      have hk := shellStep_keeps h
      refine ⟨hlife, hopened, ⟨_, hframed⟩, ?_, ?_⟩
      · rw [hk.su_session, hk.freed, hk.handler, hk.calls]
        exact hs.deleter
      · rw [hk.freed, hk.sync]
        exact hs.deleted

omit [DecidableEq τ] in
/-- A call inside its section has the session to itself. -/
theorem Deleting.live_of_inside (hs : Deleting s) (hin : (s.calls t).todo ≠ none)
    (hne : s.calls t ≠ .exit .delete) : Live s := by
  obtain ⟨log, hlog⟩ := hs.framed
  have howner : s.sync.owner = some (.caller t) := hlog.inside (.caller t) hin
  have hfreed : s.freed = false := by
    rw [← Bool.not_eq_true]
    intro hfreed
    rw [hs.deleted hfreed] at howner
    cases howner
  refine ⟨?_, hfreed⟩
  by_contra hno
  rcases hs.deleter (Bool.eq_false_iff.mpr hno) hfreed with hdelete | ⟨u, hu⟩
  · have hhandler : s.sync.owner = some .handler := by
      apply hlog.inside .handler
      show s.handler.todo ≠ none
      simp [hdelete, HandlerPc.todo]
    rw [howner] at hhandler
    cases hhandler
  · have hother : s.sync.owner = some (.caller u) := by
      apply hlog.inside (.caller u)
      show (s.calls u).todo ≠ none
      simp [hu, Call.todo]
    rw [howner] at hother
    cases hother
    exact hne hu

/-! ## What the others can do meanwhile -/

/-- Only its owner gives the mutex up. -/
theorem Moves.owner {p q : Party τ} {log : List (Party τ × Frame)} (h : Moves s p s')
    (hlog : Sections.Framed Frame.chunks log s.view) (howner : s.sync.owner = some q)
    (hpq : p ≠ q) : s'.sync.owner = some q := by
  obtain ⟨f, hmove, -⟩ := h.moved
  have hown : ∀ {todo}, s.view.todo p = some todo → p = q := by
    intro todo hp
    have hin := hlog.inside p (by rw [hp]; simp)
    exact Option.some.inj (hin.symm.trans howner)
  cases hmove with
  | keep hkeep => exact hkeep.trans howner
  | acquire f hfree =>
      rw [show s.view.owner = some q from howner] at hfree
      cases hfree
  | write c rest hbefore => exact absurd (hown hbefore) hpq
  | release hbefore => exact absurd (hown hbefore) hpq

/-- While a thread owns the mutex, the steps of all others leave the session alone. -/
theorem kept_step {a : Action τ} (hs : Deleting s) (hlive : Live s)
    (howner : s.sync.owner = some (.caller t)) (hother : ∀ ans, a ≠ .caller t ans)
    (h : step s a = some s') : Live s' ∧ s'.sync.owner = some (.caller t) := by
  obtain ⟨log, hlog⟩ := hs.framed
  have hinside : ∀ p, s.view.todo p ≠ none → p = .caller t :=
    fun p hp => Option.some.inj ((hlog.inside p hp).symm.trans howner)
  cases step_cases h with
  | invoke | spurious => exact ⟨⟨hlive.bound, hlive.allocated⟩, howner⟩
  | caller u ans _ h =>
      have hut : u ≠ t := fun hu => hother ans (by rw [hu])
      have hkept := (moves_caller h).owner hlog howner (by simpa using hut)
      refine ⟨?_, hkept⟩
      cases callStep_cases h with
      | crash hdead => exact absurd hlive hdead
      | move _ hlife =>
          exact ⟨hlife.su_session.trans hlive.bound, hlife.freed.trans hlive.allocated⟩
      | setNull hpc | delete hpc =>
          have hin := hinside (.caller u) (by simp [State.view, hpc, Call.todo])
          simp [hut] at hin
  | handler ans _ h =>
      refine ⟨?_, (moves_handler h).owner hlog howner (by simp)⟩
      cases handlerStep_cases h with
      | crash hdead => exact absurd hlive hdead
      | move hlife =>
          exact ⟨hlife.su_session.trans hlive.bound, hlife.freed.trans hlive.allocated⟩
      | setNull hpc | delete hpc =>
          have hin := hinside .handler (by simp [State.view, hpc, HandlerPc.todo])
          cases hin
  | closePeer ho | publish ho => simp [hs.opened] at ho
  | shell a _ h =>
      have hk := shellStep_keeps h
      exact ⟨⟨hk.su_session.trans hlive.bound, hk.freed.trans hlive.allocated⟩,
        (congrArg Monitor.owner hk.sync).trans howner⟩

/-! ## The rest of the call -/

/-- The answer to a step of the call is that of `env`. -/
def ExitEnv.answers (env : ExitEnv) (c : Call) (ans : Answer τ) : Bool :=
  match c with
  | .exit (.stop (.poll again)) => ans = .waitpid (env.waitpid again)
  | .exit .joining => ans = .error ↔ env.join ≠ 0
  | _ => true

/-- The call of `t` gets its answers from `env`, and `t` makes no other call. -/
def Answers (env : ExitEnv) (t : τ) (s : State τ) : Action τ → Prop
  | .invoke u _ => u ≠ t
  | .caller u ans => u = t → env.answers (s.calls t) ans = true
  | _ => True

instance (env : ExitEnv) (t : τ) (s : State τ) : DecidablePred (Answers env t s)
  | .invoke u _ => inferInstanceAs (Decidable (u ≠ t))
  | .caller u ans => inferInstanceAs (Decidable (u = t → env.answers (s.calls t) ans = true))
  | .handler _ | .spurious _ | .opener | .shell _ => isTrue trivial

/-- What a call that has returned has left behind. -/
structure ExitLeft (env : ExitEnv) (t : τ) (s : State τ) : Prop where
  gone : Removes env → s.su_session = false ∧ s.freed = true
  kept : ¬ Removes env → Live s ∧ s.sync.owner = some (.caller t)

/-- The answers of `env` lead the call to where it stands. -/
def ExitCameTo (env : ExitEnv) (t : τ) (s : State τ) : Call → Prop
  | .exit (.stop (.poll again)) => again < WAIT_CHILD_MAX_RETRY ∧ ∀ i < again, env.waitpid i = .zero
  | .exit (.stop _) => True
  | .exit .join | .exit .joining => Stops env
  | .exit .setNull | .exit .delete => Removes env
  | .idle => ExitLeft env t s
  | _ => False

section Rest

variable {env : ExitEnv}

/-- The polls have ended with something else than the child. -/
theorem not_stops_of_poll {again : Nat} (hzeros : ∀ i < again, env.waitpid i = .zero)
    (hend : env.waitpid again = .error ∨ (env.waitpid again = .zero ∧ again + 1 = 3)) :
    ¬ Stops env := by
  rintro ⟨i, hlt, hpid, hbefore⟩
  rw [Nat.zero_add] at hpid
  have hlt' : i < 3 := hlt
  have hi : ¬ i < again := by
    intro hi
    rw [hzeros i hi] at hpid
    cases hpid
  have hne : i ≠ again := by
    rintro rfl
    rcases hend with herror | ⟨hzero, -⟩
    · rw [herror] at hpid
      cases hpid
    · rw [hzero] at hpid
      cases hpid
  rcases hend with herror | ⟨-, hlast⟩
  · have hzero := hbefore again (by omega)
    rw [Nat.zero_add, herror] at hzero
    cases hzero
  · omega

theorem cameTo_exit {pc : ExitPc} (hs : Deleting s) (hcame : ExitCameTo env t s (s.calls t))
    (hpc : s.calls t = .exit pc) (hans : env.answers (s.calls t) ans = true)
    (h : exitStep s t ans pc = some s') : ExitCameTo env t s' (s'.calls t) := by
  rw [hpc] at hcame hans
  have hgo : ∀ {s₁ : State τ} {c : Call}, ExitCameTo env t (s₁.goto t c) c →
      ExitCameTo env t (s₁.goto t c) ((s₁.goto t c).calls t) := by
    intro s₁ c hc
    rwa [State.goto_calls, if_pos rfl]
  have howner : (Call.exit pc).todo ≠ none → s.sync.owner = some (.caller t) := by
    intro hin
    obtain ⟨log, hlog⟩ := hs.framed
    exact hlog.inside (.caller t) (by rwa [← hpc] at hin)
  have hlive : (Call.exit pc).todo ≠ none → pc ≠ .delete → Live s := fun hin hne =>
    hs.live_of_inside (by rwa [hpc]) (by simpa [hpc] using hne)
  -- an error return leaves the session and the mutex as they are
  have hkept : ∀ {s₁ : State τ}, Live s → s₁.su_session = s.su_session → s₁.freed = s.freed →
      s₁.sync = s.sync → (Call.exit pc).todo ≠ none → ¬ Removes env →
      ExitCameTo env t (s₁.goto t .idle) .idle := by
    intro s₁ hl hsu hfreed hsync hin hno
    refine ⟨fun hyes => absurd hyes hno, fun _ => ⟨⟨?_, ?_⟩, ?_⟩⟩
    · exact hsu.trans hl.bound
    · exact hfreed.trans hl.allocated
    · exact (congrArg Monitor.owner hsync).trans (howner hin)
  cases pc with
  | test | trylock | signal | lock | locking => exact hcame.elim
  | stop p =>
      have hl := hlive (by simp [Call.todo]) (by simp)
      cases p with
      | writeExit =>
          simp only [exitStep, stopStep, hl.deref, Option.some.injEq] at h
          rw [← h]
          exact hgo trivial
      | writeEnd =>
          simp only [exitStep, stopStep, hl.use, Option.some.injEq] at h
          rw [← h]
          exact hgo ⟨by decide, by simp⟩
      | poll again =>
          obtain ⟨hlt, hzeros⟩ := hcame
          have hpoll : ans = .waitpid (env.waitpid again) := by simpa [ExitEnv.answers] using hans
          simp only [exitStep, stopStep, hpoll] at h
          cases hr : env.waitpid again <;> simp only [hr, hl.use] at h
          case zero =>
            split at h
            · rw [← Option.some.inj h]
              split
              · rename_i hmore
                refine hgo ⟨hmore, fun i hi => ?_⟩
                rcases Nat.lt_succ_iff_lt_or_eq.mp hi with hi | rfl
                · exact hzeros i hi
                · exact hr
              · rename_i hlast
                have hno : ¬ Stops env :=
                  not_stops_of_poll hzeros (.inr ⟨hr, by simp [WAIT_CHILD_MAX_RETRY] at hlt; omega⟩)
                exact hgo (hkept hl rfl rfl rfl (by simp [Call.todo]) fun hyes => hno hyes.1)
            · cases h
          case pid =>
            split at h
            · rw [← Option.some.inj h]
              refine hgo (show Stops env from ⟨again, hlt, ?_, fun j hj => ?_⟩)
              · rw [Nat.zero_add, hr]
              · rw [Nat.zero_add, hzeros j hj]
            · cases h
          case error =>
            rw [← Option.some.inj h]
            have hno : ¬ Stops env := not_stops_of_poll hzeros (.inl hr)
            exact hgo (hkept hl rfl rfl rfl (by simp [Call.todo]) fun hyes => hno hyes.1)
  | join =>
      have hl := hlive (by simp [Call.todo]) (by simp)
      simp only [exitStep, hl.deref, Option.some.injEq] at h
      rw [← h]
      exact hgo hcame
  | joining =>
      have hl := hlive (by simp [Call.todo]) (by simp)
      have hjoin : ans = .error ↔ env.join ≠ 0 := of_decide_eq_true hans
      simp only [exitStep] at h
      split at h
      · rename_i herror
        rw [← Option.some.inj h]
        refine hgo (hkept hl rfl rfl rfl (by simp [Call.todo]) fun hyes => ?_)
        exact hjoin.mp herror hyes.2
      · rename_i hjoined
        split at h
        · rw [← Option.some.inj h]
          exact hgo (show Removes env from ⟨hcame, not_not.mp fun hno => hjoined (hjoin.mpr hno)⟩)
        · cases h
  | setNull =>
      have hl := hlive (by simp [Call.todo]) (by simp)
      simp only [exitStep, setNullStep, hl.deref, Option.some.injEq] at h
      rw [← h]
      exact hgo hcame
  | delete =>
      have hnull := hs.exit_delete t hpc
      have hfreed : s.freed = false := by
        rw [← Bool.not_eq_true]
        intro hfreed
        have hfree := hs.deleted hfreed
        rw [howner (by simp [Call.todo])] at hfree
        cases hfree
      simp only [exitStep, deleteStep, State.use, hfreed, Bool.false_eq_true, if_false,
        Option.some.injEq] at h
      rw [← h]
      exact hgo ⟨fun _ => ⟨hnull, rfl⟩, fun hno => absurd hcame hno⟩

theorem calls_of_other {a : Action τ} (hs : Deleting s) (hok : Answers env t s a)
    (hother : ∀ ans, a ≠ .caller t ans) (h : step s a = some s') : s'.calls t = s.calls t := by
  cases step_cases h with
  | invoke u e => rw [State.goto_calls, if_neg (Ne.symm hok)]
  | caller u ans _ h =>
      have htu : t ≠ u := fun htu => hother ans (by rw [htu])
      cases callStep_cases h with
      | crash _ heq => rw [heq]; rfl
      | move c _ _ hcalls => rw [hcalls, Function.update_of_ne htu]
      | setNull _ _ heq => rw [heq, State.goto_calls, if_neg htu]
      | delete _ _ heq => rw [heq, State.goto_calls, if_neg htu]
  | handler ans _ h => rw [handlerStep_calls h]
  | spurious => rfl
  | closePeer ho | publish ho => simp [hs.opened] at ho
  | shell a _ h => rw [(shellStep_keeps h).calls]

theorem cameTo_step {a : Action τ} (hs : Deleting s) (hcame : ExitCameTo env t s (s.calls t))
    (hok : Answers env t s a) (h : step s a = some s') : ExitCameTo env t s' (s'.calls t) := by
  by_cases hown : ∃ ans, a = .caller t ans
  · obtain ⟨ans, rfl⟩ := hown
    cases step_cases h with
    | caller _ _ _ h =>
        cases hpc : s.calls t with
        | exit pc =>
            have hexit : exitStep s t ans pc = some s' := by rwa [hpc] at h
            exact cameTo_exit hs hcame hpc (hok rfl) hexit
        | idle =>
            rw [hpc] at h
            cases h
        | exec cmd pc =>
            rw [hpc] at hcame
            exact hcame.elim
        | setTtyEcho | getTtyEcho | lastTtyRead =>
            rw [hpc] at hcame
            exact hcame.elim
  · -- the call stands still, and what it has left behind stays
    have hother : ∀ ans, a ≠ .caller t ans := fun ans ha => hown ⟨ans, ha⟩
    rw [calls_of_other hs hok hother h]
    cases hpc : s.calls t with
    | idle =>
        rw [hpc] at hcame
        refine ⟨fun hyes => ?_, fun hno => ?_⟩
        · exact hs.toLifeInv.freed_step (hcame.gone hyes).2 h
        · obtain ⟨hlive, howner⟩ := hcame.kept hno
          exact kept_step hs hlive howner hother h
    | exit pc =>
        rw [hpc] at hcame
        cases pc with
        | stop p => cases p <;> exact hcame
        | test | trylock | signal | lock | locking => exact hcame
        | join | joining | setNull | delete => exact hcame
    | exec | setTtyEcho | getTtyEcho | lastTtyRead =>
        rw [hpc] at hcame
        exact hcame.elim

/-- The rest of exit as one function of the answers. -/
theorem removeSession_eq (env : ExitEnv) {w : Process} {session : SuShellSession}
    (hsession : w.su_session = some session) (hpth : session.handler_pth = true)
    (hsync : (session.shell_sync_mutex && session.shell_sync_ready) = true) :
    ∃ rval w', removeSession env session w = [.returned rval w'] ∧
      (rval = 0 ↔ Removes env) ∧ (w'.su_session.isSome = true ↔ ¬ Removes env) := by
  unfold removeSession
  by_cases hstops : Stops env
  · rw [Proc.bind_of_returned (stop_of_stops hstops hsession)]
    by_cases hjoin : env.join = 0
    · have hdelete := (invalidate_eq (w := { w with shell := .reaped, handler := .joined })
        hsession).trans delete_eq
      rw [if_pos hsync] at hdelete
      refine ⟨0, cleanUp session
        { w with su_session := none, shell := .reaped, handler := .joined }, ?_,
        ⟨fun _ => ⟨hstops, hjoin⟩, fun _ => rfl⟩, ?_⟩
      · simp only [hpth, hjoin, Bool.not_true, Bool.false_eq_true, ne_eq, not_true_eq_false,
          if_false, Proc.modify_bind]
        rw [Proc.bind_of_returned hdelete]
        rfl
      · rw [(cleanUp_sameHost session _).su_session]
        simp [Removes, hstops, hjoin]
    · refine ⟨env.join, { w with shell := .reaped }, ?_, ?_, ?_⟩
      · simp [hpth, hjoin]
      · simp [Removes, hstops]
      · simp [Removes, hjoin, hsession]
  · rw [Proc.bind_of_returned (stop_of_not_stops hstops hsession)]
    refine ⟨-1, w, by simp, ?_, ?_⟩
    · simp [Removes, hstops]
    · simp [Removes, hstops, hsession]

/-- An exit call that has got the mutex ends as the sequential code does on the same answers,
whatever all others do until it returns: with the session gone and deleted if that returns 0,
and else with the session as it was and the mutex locked. -/
theorem exit_isolated {code : Int} (h : Reach step (fun _ _ => True) (State.published code) s)
    (hpc : s.calls t = .exit (.stop .writeExit)) (hrest : Reach step (Answers env t) s s')
    (hidle : s'.calls t = .idle) {w : Process} {session : SuShellSession}
    (hsession : w.su_session = some session) (hpth : session.handler_pth = true)
    (hsync : (session.shell_sync_mutex && session.shell_sync_ready) = true) :
    ∃ rval w', removeSession env session w = [.returned rval w'] ∧
      s'.su_session = w'.su_session.isSome ∧ (s'.freed = true ↔ rval = 0) ∧
      (s'.sync.owner = some (.caller t) ↔ rval ≠ 0) := by
  have hs : Deleting s := h.invariant (deleting_published code) fun _ _ _ hs _ => deleting_step hs
  have hinv : Deleting s' ∧ ExitCameTo env t s' (s'.calls t) := by
    refine hrest.invariant (I := fun s => Deleting s ∧ ExitCameTo env t s (s.calls t)) ⟨hs, ?_⟩ ?_
    · rw [hpc]
      trivial
    · rintro u a u' ⟨hu, hcame⟩ hok hstep
      exact ⟨deleting_step hu hstep, cameTo_step hu hcame hok hstep⟩
  obtain ⟨hs', hcame⟩ := hinv
  rw [hidle] at hcame
  obtain ⟨rval, w', heq, hzero, hbound⟩ := removeSession_eq env hsession hpth hsync
  refine ⟨rval, w', heq, ?_⟩
  by_cases hremoves : Removes env
  · obtain ⟨hnull, hfreed⟩ := hcame.gone hremoves
    have hfree := hs'.deleted hfreed
    have hnone : w'.su_session.isSome = false := by
      rw [← Bool.not_eq_true, hbound]
      exact not_not.mpr hremoves
    refine ⟨hnull.trans hnone.symm, ⟨fun _ => hzero.mpr hremoves, fun _ => hfreed⟩, ?_⟩
    rw [hfree]
    exact ⟨nofun, fun hne => absurd (hzero.mpr hremoves) hne⟩
  · obtain ⟨hlive, howner⟩ := hcame.kept hremoves
    have hne : rval ≠ 0 := fun heq => hremoves (hzero.mp heq)
    refine ⟨hlive.bound.trans (hbound.mpr hremoves).symm, ⟨fun hfreed => ?_, fun heq => ?_⟩,
      fun _ => hne, fun _ => howner⟩
    · rw [hlive.allocated] at hfreed
      cases hfreed
    · exact absurd heq hne

end Rest

/-- The polls find the child at the second attempt. -/
def secondPoll : ExitEnv where
  trylock := 0
  signal := 0
  lock := 0
  waitpid poll := if poll = 0 then .zero else .pid
  join := 0

/-- An exit call takes the mutex. -/
def exitTakes : List (Action Bool) := [.invoke true .exit, .caller true .ok, .caller true .ok]

/-- Another call blocks on the mutex, and the shell dies between the polls. -/
def exitGoesOn : List (Action Bool) :=
  [[.invoke false (.exec (ascii "id"))], List.replicate 2 (.caller false .ok),
    List.replicate 2 (.caller true .ok), [.caller true (.waitpid .zero), .shell .die,
      .shell .closePeer, .caller true (.waitpid .pid), .caller true .ok],
    List.replicate 4 (.handler .ok), [.handler (.wake none), .handler .ok],
    List.replicate 3 (.caller true .ok)].flatten

/-- The session of the process that makes the call. -/
def lockedSession : SuShellSession where
  sun_path := ascii "/data/var/run/su-01234"
  afun_client_fd := 4
  handler_pth := true
  shell_sync_mutex := true
  shell_sync_ready := true
  shell_sync_owner := some 1

theorem exit_isolated_exitGoesOn :
    ∃ (s : State Bool) (rval : Int) (w : Process),
      removeSession secondPoll lockedSession
          { initialProcess with su_session := some lockedSession } = [.returned rval w] ∧
        s.su_session = w.su_session.isSome ∧ (s.freed = true ↔ rval = 0) ∧
        (s.sync.owner = some (.caller true) ↔ rval ≠ 0) := by
  have htakes : (runOk step (fun _ _ => True) (State.published 0) exitTakes).map
      (fun s => s.calls true) = some (.exit (.stop .writeExit)) := by decide +kernel
  have hends : ((runOk step (fun _ _ => True) (State.published 0) exitTakes).bind fun s =>
      (runOk step (Answers secondPoll true) s exitGoesOn).map fun s => s.calls true) =
        some .idle := by decide +kernel
  obtain ⟨s, hs, hpc⟩ := Option.map_eq_some_iff.mp htakes
  rw [hs, Option.bind_some] at hends
  obtain ⟨s', hs', hidle⟩ := Option.map_eq_some_iff.mp hends
  obtain ⟨rval, w, h⟩ := exit_isolated (.of_runOk .refl hs) hpc
    (.of_runOk .refl hs') hidle
    (w := { initialProcess with su_session := some lockedSession }) rfl rfl rfl
  exact ⟨s', rval, w, h⟩

end Susrv.Native
