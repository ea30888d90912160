import Mathlib.Data.Fintype.Basic
import Susrv.Native.Proofs.SessionLife

/-!
# Publication and teardown

Two entry points delete the session and five use it.  Every use is preceded by a
test of `_su_session` that nothing protects afterwards, and the handler does not
test at all.  `teardownSafe_iff` says which schedules of the deletion are safe,
`handlerOnSession_iff` which schedules of the publication.
-/

namespace Susrv.Native

open Base Base.CString Base.Transition

variable {τ : Type} {s s' : State τ}

/-! ## Teardown -/

/-- Nobody has touched a NULL or freed session, and once `_su_session` is NULL
no caller is left between its test and its last use, be it blocked on the mutex
or the condition, about to unlock or about to read; the handler has reached its
own deletion or has ended. -/
structure TeardownSafe (s : State τ) : Prop where
  no_fault : s.fault = false
  callers_out : s.su_session = false → ∀ t, (s.calls t).inside = false
  handler_out : s.su_session = false → s.handler = .delete ∨ s.handler = .terminated

/-- `invalidate_current_session` starts only when no other call is inside. -/
def QuietTeardown (s : State τ) : Action τ → Prop
  | .caller t _ => s.calls t = .exit .setNull → ∀ u, u ≠ t → (s.calls u).inside = false
  | .handler _ => s.handler = .setNull → ∀ u, (s.calls u).inside = false
  | _ => True

structure TeardownInv (s : State τ) : Prop extends LifeInv s, TeardownSafe s where
  opened : s.opener = .done
  one_deleter : ∀ t, s.calls t = .exit .delete →
    s.freed = false ∧ ∀ u, s.calls u = .exit .delete → u = t

theorem teardownInv_published (code : Int) : TeardownInv (State.published code : State τ) where
  toLifeInv := lifeInv_published code
  toTeardownSafe := by constructor <;> simp [State.published, State.opening]
  opened := rfl
  one_deleter := by simp [State.published, State.opening]

theorem TeardownInv.not_inside (hs : TeardownInv s) (hdead : ¬ Live s) (t : τ) :
    (s.calls t).inside = false := by
  refine hs.callers_out ?_ t
  by_contra hbound
  exact hdead (hs.live (by simpa using hbound))

variable [DecidableEq τ]

theorem teardownInv_caller {t : τ} {ans : Answer τ} (hs : TeardownInv s)
    (hok : QuietTeardown s (.caller t ans)) (h : callStep s t ans (s.calls t) = some s') :
    TeardownInv s' := by
  have hlife' : LifeInv s' := lifeInv_caller hs.toLifeInv h
  cases callStep_cases h with
  | crash hdead heq hcause =>
      rcases hcause with hin | ⟨hpc, hfreed⟩
      · rw [hs.not_inside hdead t] at hin
        cases hin
      · rw [(hs.one_deleter t hpc).1] at hfreed
        cases hfreed
  | move c hlife hhandler hcalls hdelete hnull hinside =>
      obtain ⟨hsu, hfr, hfault, hop⟩ := hlife
      have hcall : ∀ u, s'.calls u = if u = t then c else s.calls u := by
        intro u
        rw [hcalls, Function.update_apply]
      refine ⟨hlife', ⟨hfault.trans hs.no_fault, fun hno u => ?_, ?_⟩, hop.trans hs.opened, ?_⟩
      · rw [hcall u]
        rw [hsu] at hno
        split
        · exact hinside hno (hs.callers_out hno t)
        · exact hs.callers_out hno u
      · rw [hsu, hhandler]
        exact hs.handler_out
      · intro u hu
        have huold : s.calls u = .exit .delete := by
          rw [hcall u] at hu
          split at hu
          · exact absurd hu hdelete
          · exact hu
        refine ⟨hfr.trans (hs.one_deleter u huold).1, fun v hv => ?_⟩
        rw [hcall v] at hv
        split at hv
        · exact absurd hv hdelete
        · exact (hs.one_deleter u huold).2 v hv
  | setNull hpc hbound heq =>
      have hout := hok hpc
      have hterm := hs.exit_late t (.inl hpc)
      have halloc := (hs.live hbound).allocated
      have hno : ∀ u, s.calls u ≠ .exit .delete := by
        intro u hu
        rw [hs.exit_delete u hu] at hbound
        cases hbound
      subst heq
      refine ⟨hlife', ⟨hs.no_fault, fun _ u => ?_, fun _ => .inr hterm⟩, hs.opened, fun u hu => ?_⟩
      · by_cases hut : u = t
        · simp [State.goto, hut, Call.inside]
        · simpa [State.goto, hut] using hout u hut
      · refine ⟨halloc, fun v hv => ?_⟩
        by_cases hvt : v = t <;> by_cases hut : u = t
        · rw [hvt, hut]
        · simp [State.goto, hut, hno u] at hu
        · simp [State.goto, hvt, hno v] at hv
        · simp [State.goto, hut, hno u] at hu
  | delete hpc hfreed heq =>
      obtain ⟨-, honly⟩ := hs.one_deleter t hpc
      have hnull := hs.exit_delete t hpc
      subst heq
      refine ⟨hlife', ⟨hs.no_fault, fun _ u => ?_, fun _ => .inr (hs.exit_late t (.inr hpc))⟩,
        hs.opened, fun u hu => ?_⟩
      · by_cases hut : u = t
        · simp [State.goto, hut, Call.inside]
        · simpa [State.goto, hut] using hs.callers_out hnull u
      · by_cases hut : u = t
        · simp [State.goto, hut] at hu
        · exact absurd (honly u (by simpa [State.goto, hut] using hu)) hut

theorem teardownInv_handler {ans : Answer τ} (hs : TeardownInv s)
    (hok : QuietTeardown s (.handler ans)) (h : handlerStep s ans s.handler = some s') :
    TeardownInv s' := by
  have hlife' : LifeInv s' := lifeInv_handler hs.toLifeInv h
  have hrun := not_terminated_of_step h
  have hno : ∀ u, s.calls u ≠ .exit .delete := fun u hu => hrun (hs.exit_late u (.inr hu))
  have hfreed := hs.not_freed hrun
  cases handlerStep_cases h with
  | crash hdead heq hcause =>
      rcases hcause with hpc | hf
      · have hnull : s.su_session = false := by
          by_contra hbound
          exact hdead (hs.live (by simpa using hbound))
        exact absurd (hs.handler_out hnull) (by simp [hpc, hrun])
      · simp [hfreed] at hf
  | move hlife hcalls hbefore hdelete =>
      obtain ⟨hsu, hfr, hfault, hop⟩ := hlife
      refine ⟨hlife', ⟨hfault.trans hs.no_fault, ?_, fun hnull => ?_⟩, hop.trans hs.opened, ?_⟩
      · rw [hsu, hcalls]
        exact hs.callers_out
      · rw [hsu] at hnull
        exact absurd (hs.handler_out hnull) (by simp [hbefore, hrun])
      · rw [hcalls]
        exact fun u hu => absurd hu (hno u)
  | setNull hpc hbound heq =>
      have hout := hok hpc
      subst heq
      exact ⟨hlife', ⟨hs.no_fault, fun _ => hout, fun _ => .inl rfl⟩, hs.opened,
        fun u hu => absurd hu (hno u)⟩
  | delete hpc _ heq =>
      have hnull := hs.handler_delete hpc
      subst heq
      exact ⟨hlife', ⟨hs.no_fault, fun _ => hs.callers_out hnull, fun _ => .inr rfl⟩, hs.opened,
        fun u hu => absurd hu (hno u)⟩

theorem teardownInv_step {a : Action τ} (hs : TeardownInv s) (hok : QuietTeardown s a)
    (h : step s a = some s') : TeardownInv s' := by
  have hlife' : LifeInv s' := lifeInv_step hs.toLifeInv h
  cases step_cases h with
  | invoke t e =>
      have hentry : e.call.inside = false ∧ e.call ≠ .exit .delete := by
        cases e <;> simp [Entry.call, Call.inside]
      have hcall : ∀ u, (s.goto t e.call).calls u = if u = t then e.call else s.calls u :=
        fun u => Function.update_apply _ _ _ _
      refine ⟨hlife', ⟨hs.no_fault, fun hno u => ?_, hs.handler_out⟩, hs.opened, fun u hu => ?_⟩
      · rw [hcall u]
        split
        · exact hentry.1
        · exact hs.callers_out hno u
      · have hold : ∀ v, (s.goto t e.call).calls v = .exit .delete → s.calls v = .exit .delete := by
          intro v hv
          rw [hcall v] at hv
          split at hv
          · exact absurd hv hentry.2
          · exact hv
        exact ⟨(hs.one_deleter u (hold u hu)).1,
          fun v hv => (hs.one_deleter u (hold u hu)).2 v (hold v hv)⟩
  | caller t ans _ h => exact teardownInv_caller hs hok h
  | handler ans _ h => exact teardownInv_handler hs hok h
  | spurious t =>
      exact ⟨hlife', ⟨hs.no_fault, hs.callers_out, hs.handler_out⟩, hs.opened, hs.one_deleter⟩
  | closePeer ho | publish ho => simp [hs.opened] at ho
  | shell a _ h =>
      have hk := shellStep_keeps h
      refine ⟨hlife', ⟨hk.fault.trans hs.no_fault, ?_, ?_⟩, hk.opener.trans hs.opened, ?_⟩
      · rw [hk.su_session, hk.calls]
        exact hs.callers_out
      · rw [hk.su_session, hk.handler]
        exact hs.handler_out
      · rw [hk.calls, hk.freed]
        exact hs.one_deleter

/-- A deletion that starts while another call is inside leaves it there. -/
theorem not_teardownSafe_of_busy {a : Action τ} (hs : TeardownInv s) (hbusy : ¬ QuietTeardown s a)
    (h : step s a = some s') : ¬ TeardownSafe s' := by
  intro hsafe
  cases step_cases h with
  | caller t ans _ h =>
      simp only [QuietTeardown, Classical.not_imp, not_forall] at hbusy
      obtain ⟨hpc, u, hut, hin⟩ := hbusy
      have hbound : s.su_session = true := by
        by_contra hno
        have := hs.callers_out (by simpa using hno) t
        simp [hpc, Call.inside] at this
      simp only [hpc, callStep, exitStep, setNullStep, (hs.live hbound).deref,
        Option.some.injEq] at h
      subst h
      have hout := hsafe.callers_out rfl u
      simp [State.goto, hut] at hout
      exact hin hout
  | handler ans _ h =>
      simp only [QuietTeardown, Classical.not_imp, not_forall] at hbusy
      obtain ⟨hpc, u, hin⟩ := hbusy
      have hbound : s.su_session = true := by
        by_contra hno
        have := hs.handler_out (by simpa using hno)
        simp [hpc] at this
      simp only [hpc, handlerStep, setNullStep, (hs.live hbound).deref, Option.some.injEq] at h
      subst h
      exact hin (hsafe.callers_out rfl u)
  | invoke | spurious | closePeer | publish | shell => exact hbusy trivial

theorem teardownSafe_iff (code : Int) (as : List (Action τ)) :
    Along step TeardownSafe (State.published code) as ↔
      Guarded step QuietTeardown (State.published code) as :=
  along_iff_guarded (fun _ hs => hs.toTeardownSafe) (fun _ _ _ => teardownInv_step)
    (fun _ _ _ => not_teardownSafe_of_busy) (teardownInv_published code) as

/-- The shell dies under a command: the handler finds the mutex free, because the
caller waits, and deletes the session that the caller comes back to. -/
theorem not_teardownSafe_waiting_exec :
    ¬ ∀ (code : Int) (as : List (Action Unit)), Along step TeardownSafe (State.published code) as := by
  intro h
  have hrun := h 0
    [[.invoke () (.exec (ascii "ls"))], List.replicate 9 (.caller () .ok),
      [.shell .die, .shell .closePeer], List.replicate 6 (.handler .ok),
      [.handler (.waitpid .pid), .handler .ok, .handler .ok, .spurious (), .caller () .ok]].flatten
  have hsafe := hrun.last rfl
  exact absurd hsafe.no_fault (by decide)

/-! ## Publication -/

/-- The handler's step does not go through a NULL or freed session. -/
def HandlerOnSession (s : State τ) (a : Action τ) : Prop :=
  ∀ ans, a = .handler ans → ∀ s', step s a = some s' → s'.fault = false

/-- The handler enters its first `read` after the open call has assigned `_su_session`. -/
def PublishedFirst (s : State τ) (a : Action τ) : Prop :=
  ∀ ans, a = .handler ans → s.handler = .read → s.opener = .done

theorem handlerOnSession_of_publishedFirst {ans : Answer τ} (hs : LifeInv s)
    (hfault : s.fault = false) (hpub : s.handler = .read → s.opener = .done)
    (h : handlerStep s ans s.handler = some s') : s'.fault = false := by
  have hrun := not_terminated_of_step h
  cases handlerStep_cases h with
  | crash hdead heq hcause =>
      exfalso
      by_cases ho : s.opener = .done
      · have hnull : s.su_session = false := by
          by_contra hbound
          exact hdead (hs.live (by simpa using hbound))
        have hpc : s.handler = .delete := (hs.null_handler ho hnull).resolve_right hrun
        exact hrun (hs.freed_handler (hcause.resolve_left (by simp [hpc])))
      · rcases (hs.unopened ho).2.2.1 with hpc | hpc
        · rw [hpc, handlerStep, heq] at h
          have := congrArg State.fault (Option.some.inj h)
          simp [State.toHandler, State.crash, hfault] at this
        · exact ho (hpub hpc)
  | move hlife => exact hlife.fault.trans hfault
  | setNull _ _ heq => exact heq ▸ hfault
  | delete _ _ heq => exact heq ▸ hfault

theorem publishedFirst_of_handlerOnSession {ans : Answer τ} (hs : LifeInv s)
    (h : handlerStep s ans s.handler = some s') (hok : s'.fault = false)
    (hpc : s.handler = .read) : s.opener = .done := by
  by_contra ho
  have hnull := (hs.unopened ho).1
  rw [hpc, handlerStep, State.deref, hnull] at h
  rw [← Option.some.inj h] at hok
  simp [State.crash] at hok

theorem handlerOnSession_iff (code : Int) (as : List (Action τ)) :
    Guarded step HandlerOnSession (State.opening code) as ↔
      Guarded step PublishedFirst (State.opening code) as := by
  refine guarded_iff_guarded (I := LifeInv) (fun _ _ _ => lifeInv_step) ?_ (lifeInv_opening code) as
  intro s a s' hs hstep
  have hfault : s.fault = false := by
    by_contra hf
    simp [step, hf] at hstep
  constructor
  · rintro h ans rfl hpc
    rw [step, if_neg (by simp [hfault])] at hstep
    refine publishedFirst_of_handlerOnSession hs hstep (h ans rfl s' ?_) hpc
    rwa [step, if_neg (by simp [hfault])]
  · rintro h ans rfl u hu
    rw [step, if_neg (by simp [hfault])] at hu
    exact handlerOnSession_of_publishedFirst hs hfault (h ans rfl) hu

/-- The new thread may run before `su_srv_open_shell_session` goes on. -/
theorem not_handlerOnSession_early_read :
    ¬ ∀ (code : Int) (as : List (Action Unit)),
      Guarded step HandlerOnSession (State.opening code) as := by
  intro h
  have hrun := h 0 [.handler .ok, .handler .ok]
  have hread := (hrun _ rfl).2 _ rfl
  exact absurd (hread.1 .ok rfl _ rfl) (by decide)

end Susrv.Native
