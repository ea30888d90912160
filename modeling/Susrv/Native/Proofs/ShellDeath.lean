import Mathlib.Data.Fintype.Basic
import Susrv.Native.Proofs.ExecCalls

/-!
# The death of the shell

At EOF the handler decides by two `trylock`s whether an exit call is under way.
`handlerLives_iff` is about the session it leaves behind when it gives up, and
`abortReported_of_reach` about the calls that wait for a shell that has died.
-/

namespace Susrv.Native

open Base Base.CString Base.Transition

variable {τ : Type} {s s' : State τ}

/-! ## A bound session has a handler -/

/-- The session is unbound, or its handler runs, or an exit call is in progress. -/
def HandlerLives (s : State τ) : Prop :=
  s.su_session = true → s.handler = .terminated → ∃ t, (s.calls t).exiting = true

structure BoundInv (s : State τ) : Prop extends LifeInv s where
  opened : s.opener = .done
  lives : HandlerLives s

theorem boundInv_published (code : Int) : BoundInv (State.published code : State τ) where
  toLifeInv := lifeInv_published code
  opened := rfl
  lives := by simp [HandlerLives, State.published, State.opening]

variable [DecidableEq τ]

/-- The handler gives up on the mutex only while an exit call is in progress, and
no exit call gives up behind the handler unless another one is in progress. -/
def ExitUnderWay (s : State τ) : Action τ → Prop
  | .handler _ =>
      s.handler = .trylockAgain → s.sync.owner ≠ none → ∃ t, (s.calls t).exiting = true
  | .caller t ans =>
      s.su_session = true → s.handler = .terminated → (s.calls t).exitFails ans = true →
        ∃ u, u ≠ t ∧ (s.calls u).exiting = true
  | _ => True

/-- A thread that moves inside its call leaves the other calls in progress. -/
theorem exiting_update {t : τ} {c : Call}
    (hc : c.exiting = false → ∃ u, u ≠ t ∧ (s.calls u).exiting = true) :
    ∃ u, (Function.update s.calls t c u).exiting = true := by
  cases hexit : c.exiting with
  | true => exact ⟨t, by simpa using hexit⟩
  | false =>
      obtain ⟨u, hut, hu⟩ := hc hexit
      exact ⟨u, by simpa [hut] using hu⟩

theorem handlerLives_caller {t : τ} {ans : Answer τ} (hs : BoundInv s)
    (hok : ExitUnderWay s (.caller t ans)) (h : callStep s t ans (s.calls t) = some s') :
    HandlerLives s' := by
  cases callStep_cases h with
  | crash _ heq => exact heq ▸ hs.lives
  | move c hlife hhandler hcalls _ _ _ hexiting =>
      intro hbound hterm
      rw [hlife.su_session] at hbound
      rw [hhandler] at hterm
      have hsome := hs.lives hbound hterm
      rw [hcalls]
      apply exiting_update
      intro hc
      rw [hexiting hbound] at hc
      cases hfails : (s.calls t).exitFails ans with
      | true => exact hok hbound hterm hfails
      | false =>
          obtain ⟨u, hu⟩ := hsome
          refine ⟨u, ?_, hu⟩
          rintro rfl
          simp [hu, hfails] at hc
  | setNull _ _ heq =>
      subst heq
      intro hbound
      cases hbound
  | delete hpc _ heq =>
      intro hbound
      rw [heq] at hbound
      rw [State.goto, hs.exit_delete t hpc] at hbound
      cases hbound

theorem handlerLives_handler {ans : Answer τ} (hs : BoundInv s)
    (hok : ExitUnderWay s (.handler ans)) (h : handlerStep s ans s.handler = some s') :
    HandlerLives s' := by
  cases handlerStep_cases h with
  | crash _ heq => exact heq ▸ hs.lives
  | move _ hcalls _ _ _ _ hgone =>
      intro _ hterm
      obtain ⟨hpc, howner⟩ := hgone.mp hterm
      rw [hcalls]
      exact hok hpc howner
  | setNull _ _ heq =>
      subst heq
      intro hbound
      cases hbound
  | delete hpc _ heq =>
      intro hbound
      rw [heq] at hbound
      rw [State.toHandler, hs.handler_delete hpc] at hbound
      cases hbound

theorem boundInv_step {a : Action τ} (hs : BoundInv s) (hok : ExitUnderWay s a)
    (h : step s a = some s') : BoundInv s' := by
  have hlife' : LifeInv s' := lifeInv_step hs.toLifeInv h
  have hopen : s'.opener = .done := opener_done_step hs.opened h
  refine ⟨hlife', hopen, ?_⟩
  cases step_cases h with
  | invoke t e hidle =>
      intro hbound hterm
      have hsome := hs.lives hbound hterm
      apply exiting_update
      intro _
      obtain ⟨u, hu⟩ := hsome
      refine ⟨u, ?_, hu⟩
      rintro rfl
      simp [hidle] at hu
  | caller t ans _ h => exact handlerLives_caller hs hok h
  | handler ans _ h => exact handlerLives_handler hs hok h
  | spurious t => exact hs.lives
  | closePeer ho | publish ho => simp [hs.opened] at ho
  | shell a _ h =>
      have hk := shellStep_keeps h
      rw [HandlerLives, hk.su_session, hk.handler, hk.calls]
      exact hs.lives

/-- A handler or an exit call that gives up alone leaves the session bound for good. -/
theorem not_handlerLives_of_alone {a : Action τ} (hs : BoundInv s) (halone : ¬ ExitUnderWay s a)
    (h : step s a = some s') : ¬ HandlerLives s' := by
  intro hlives
  cases step_cases h with
  | caller t ans _ h =>
      simp only [ExitUnderWay, Classical.not_imp] at halone
      obtain ⟨hbound, hterm, hfails, hnobody⟩ := halone
      cases callStep_cases h with
      | crash hdead => exact hdead (hs.live hbound)
      | move c hlife hhandler hcalls _ _ _ hexiting =>
          obtain ⟨u, hu⟩ := hlives (hlife.su_session.trans hbound) (hhandler.trans hterm)
          rw [hcalls, Function.update_apply] at hu
          split at hu
          · simp [hexiting hbound, hfails] at hu
          · exact hnobody ⟨u, ‹_›, hu⟩
      | setNull hpc => simp [hpc, Call.exitFails] at hfails
      | delete hpc => simp [hpc, Call.exitFails] at hfails
  | handler ans _ h =>
      simp only [ExitUnderWay, Classical.not_imp] at halone
      obtain ⟨hpc, howner, hnobody⟩ := halone
      have hbound : s.su_session = true := by
        by_contra hno
        have := hs.null_handler hs.opened (by simpa using hno)
        simp [hpc] at this
      cases handlerStep_cases h with
      | crash hdead => exact hdead (hs.live hbound)
      | move hlife hcalls _ _ _ _ hgone =>
          have hsome := hlives (hlife.su_session.trans hbound) (hgone.mpr ⟨hpc, howner⟩)
          rw [hcalls] at hsome
          exact hnobody hsome
      | setNull hpc' => simp [hpc] at hpc'
      | delete hpc' => simp [hpc] at hpc'
  | invoke | spurious | closePeer | publish | shell => exact halone trivial

theorem handlerLives_iff (code : Int) (as : List (Action τ)) :
    Along step HandlerLives (State.published code) as ↔
      Guarded step ExitUnderWay (State.published code) as :=
  along_iff_guarded (fun _ hs => hs.lives) (fun _ _ _ => boundInv_step)
    (fun _ _ _ => not_handlerLives_of_alone) (boundInv_published code) as

/-- A command is being written when the shell dies: its caller has the mutex, the
handler takes it for an exit call and ends, and the session stays bound. -/
theorem not_handlerLives_writing_exec :
    ¬ ∀ (code : Int) (as : List (Action Unit)),
      Along step HandlerLives (State.published code) as := by
  intro h
  have hrun := h 0
    [[.invoke () (.exec (ascii "ls"))], List.replicate 3 (.caller () .ok),
      [.shell .die, .shell .closePeer], List.replicate 4 (.handler .ok),
      [.handler (.wake none), .handler .ok]].flatten
  have hlives := hrun.last rfl
  exact absurd (hlives rfl rfl) (by decide)

/-! ## Aborted commands -/

/-- The shell's end was closed before the end-of-command line of frame `k`. -/
def State.Aborted (s : State τ) (k : Nat) : Prop :=
  s.shell.peerOpen = false ∧ s.hist.echoed ≤ k

instance (s : State τ) (k : Nat) : Decidable (s.Aborted k) := inferInstanceAs (Decidable (_ ∧ _))

/-- The handler has not ended under the sleeping caller of an aborted command, the
caller can come back to the mutex and to the session, and it returns the error. -/
structure AbortReported (s : State τ) : Prop where
  signalled : s.handler = .terminated →
    ∀ t k, (s.calls t).waitsFor = some k → s.Aborted k → .caller t ∉ s.sync.sleepers
  unblocked : s.sync.owner = some .handler →
    ∀ t k, (s.calls t).waitsFor = some k → ¬ s.Aborted k
  bound : ∀ t k, (s.calls t).awaiting = some k → s.Aborted k → s.su_session = true
  invalid : ∀ r ∈ s.hist.results, r.shellGone = true → s.hist.echoed ≤ r.frame →
    r.value = SU_SRV_INVALID_RESULT_ERR

def NoExit : Action τ → Prop
  | .invoke _ e => e ≠ .exit
  | _ => True

/-- The frame of a call that is about to enter `pthread_cond_wait`. -/
def Call.parks : Call → Option Nat
  | .exec _ (.wait k) => some k
  | _ => none

/-- At EOF the handler takes the mutex when no aborted call waits, gives up when
each of them has been woken, and invalidates the session when none is left; no
aborted call begins to wait after that, or reads a code stored since its reset. -/
def ReportsAborted (s : State τ) : Action τ → Prop
  | .handler _ =>
      ((s.handler = .trylock ∨ s.handler = .trylockAgain) → s.sync.owner = none →
        ∀ t, ∀ k ∈ (s.calls t).waitsFor, ¬ s.Aborted k) ∧
      (s.handler = .trylockAgain → s.sync.owner ≠ none →
        ∀ t, ∀ k ∈ (s.calls t).waitsFor, s.Aborted k → .caller t ∉ s.sync.sleepers) ∧
      (s.handler = .setNull → ∀ t, ∀ k ∈ (s.calls t).awaiting, ¬ s.Aborted k)
  | .caller t _ =>
      (∀ k ∈ (s.calls t).parks, s.Aborted k → s.handler ≠ .terminated) ∧
      ∀ k ∈ (s.calls t).reads, s.Aborted k → s.hist.storedAtReset = some s.hist.stored
  | _ => True

structure AbortInv (s : State τ) : Prop extends LifeInv s, AbortReported s where
  opened : s.opener = .done
  no_exit : ∀ t, (s.calls t).exiting = false
  eof : s.handler.atEof = true ∨ s.sync.owner = some .handler → s.shell.peerOpen = false
  reset : ∀ n, s.hist.storedAtReset = some n →
    n ≤ s.hist.stored ∧ (n = s.hist.stored → s.shell_cmd_exit_code = SU_SRV_INVALID_RESULT_ERR)

omit [DecidableEq τ] in
theorem abortInv_published (code : Int) : AbortInv (State.published code : State τ) where
  toLifeInv := lifeInv_published code
  toAbortReported := by
    constructor <;> simp [State.published, State.opening, Call.waitsFor,
      Call.awaiting, History.init]
  opened := rfl
  no_exit := fun _ => rfl
  eof := by simp [State.published, State.opening, HandlerPc.atEof, Monitor.init]
  reset := by simp [State.published, State.opening, History.init]

omit [DecidableEq τ] in
theorem AbortInv.peer_closed (hs : AbortInv s) (hnull : s.su_session = false) :
    s.shell.peerOpen = false := by
  apply hs.eof
  rcases hs.null_handler hs.opened hnull with hpc | hpc <;> simp [hpc, HandlerPc.atEof]

/-- What a step of the handler does to the waiting callers and their results. -/
structure HandlerFrame (s s' : State τ) : Prop where
  peer : s'.shell.peerOpen = s.shell.peerOpen
  echoed : s'.hist.echoed = s.hist.echoed
  results : s'.hist.results = s.hist.results
  reset : s'.hist.storedAtReset = s.hist.storedAtReset
  cell : (s'.hist.stored = s.hist.stored ∧ s'.shell_cmd_exit_code = s.shell_cmd_exit_code) ∨
    s'.hist.stored = s.hist.stored + 1
  sleepers : ∀ u ∈ s'.sync.sleepers, u ∈ s.sync.sleepers
  owner : s'.sync.owner = some .handler → s.sync.owner = some .handler ∨
    ((s.handler = .trylock ∨ s.handler = .trylockAgain) ∧ s.sync.owner = none)
  eof : s'.handler.atEof = true → s.handler.atEof = true ∨ s.shell.peerOpen = false

section

omit [DecidableEq τ]

theorem HandlerFrame.refl (s : State τ) : HandlerFrame s s :=
  ⟨rfl, rfl, rfl, rfl, .inl ⟨rfl, rfl⟩, fun _ h => h, .inl, .inl⟩

theorem HandlerFrame.crash (s : State τ) : HandlerFrame s s.crash :=
  ⟨rfl, rfl, rfl, rfl, .inl ⟨rfl, rfl⟩, fun _ h => h, .inl, .inl⟩

theorem HandlerFrame.deref {next : State τ} (h : HandlerFrame s next) :
    HandlerFrame s (s.deref next) := by
  rcases eq_or_crash_of_deref (rfl : s.deref next = _) with heq | heq
  · rwa [← heq]
  · rw [← heq]
    exact .crash s

theorem HandlerFrame.use {next : State τ} (h : HandlerFrame s next) :
    HandlerFrame s (s.use next) := by
  rcases eq_or_crash_of_use (rfl : s.use next = _) with heq | heq
  · rwa [← heq]
  · rw [← heq]
    exact .crash s

theorem HandlerFrame.toHandler {s₁ : State τ} {pc : HandlerPc} (h : HandlerFrame s s₁)
    (hpc : pc.atEof = true → s.handler.atEof = true ∨ s.shell.peerOpen = false) :
    HandlerFrame s (s₁.toHandler pc) := by
  obtain ⟨h₁, h₂, h₃, h₄, h₅, h₆, h₇, -⟩ := h
  exact ⟨h₁, h₂, h₃, h₄, h₅, h₆, h₇, hpc⟩

theorem handlerFrame_tryLock {m : Monitor (Party τ)} {pc : HandlerPc}
    (hpc : s.handler = .trylock ∨ s.handler = .trylockAgain)
    (hm : s.sync.tryLock .handler = some m) :
    HandlerFrame s ({ s with sync := m }.toHandler pc) := by
  obtain ⟨hfree, rfl⟩ := Monitor.tryLock_eq_some.mp hm
  refine ⟨rfl, rfl, rfl, rfl, .inl ⟨rfl, rfl⟩, fun _ h => h,
    fun _ => .inr ⟨hpc, hfree⟩, fun _ => ?_⟩
  rcases hpc with hpc | hpc <;> simp [hpc, HandlerPc.atEof]

end

theorem handlerFrame_signal {m : Monitor (Party τ)} {w : Option (Party τ)}
    (hm : s.sync.signal w = some m) : HandlerFrame s { s with sync := m } := by
  obtain ⟨howner, hsleepers⟩ := Monitor.signal_frame hm
  exact ⟨rfl, rfl, rfl, rfl, .inl ⟨rfl, rfl⟩, hsleepers, fun h => .inl (howner ▸ h), .inl⟩

theorem handlerFrame_effect {ans : Answer τ} {e : Effect} (h : applyEffect s ans e = some s') :
    HandlerFrame s s' := by
  cases e with
  | exitCode n =>
      cases h
      exact ⟨rfl, rfl, rfl, rfl, .inr rfl, fun _ h => h, .inl, .inl⟩
  | signal =>
      simp only [applyEffect] at h
      split at h
      · obtain ⟨m, hm, rfl⟩ := Option.map_eq_some_iff.mp h
        obtain ⟨h₁, h₂, h₃, h₄, h₅, h₆, h₇, h₈⟩ := handlerFrame_signal hm
        exact ⟨h₁, h₂, h₃, h₄, h₅, h₆, h₇, h₈⟩
      · cases h
  | line text =>
      cases h
      exact ⟨rfl, rfl, rfl, rfl, .inl ⟨rfl, rfl⟩, fun _ h => h, .inl, .inl⟩

theorem handlerFrame_stop {ans : Answer τ} {p : StopPc} (hpc : s.handler = .stop p)
    (h : handlerStep s ans (.stop p) = some s') : HandlerFrame s s' := by
  have hwrite : ∀ c pc, HandlerFrame s ((s.write c).toHandler pc) := fun c pc =>
    ⟨rfl, rfl, rfl, rfl, .inl ⟨rfl, rfl⟩, fun _ h => h, .inl,
      fun _ => .inl (by simp [hpc, HandlerPc.atEof])⟩
  have hmove : ∀ pc, HandlerFrame s (s.toHandler pc) := fun pc =>
    (HandlerFrame.refl s).toHandler fun _ => .inl (by simp [hpc, HandlerPc.atEof])
  cases p with
  | writeExit =>
      rw [← Option.some.inj h]
      exact (hwrite _ _).deref
  | writeEnd =>
      rw [← Option.some.inj h]
      exact (hwrite _ _).use
  | poll again =>
      simp only [handlerStep, stopStep] at h
      split at h
      · split at h
        · rw [← Option.some.inj h]
          split <;> exact (hmove _).use
        · cases h
      · split at h
        · rw [← Option.some.inj h]
          exact HandlerFrame.use ⟨rfl, rfl, rfl, rfl, .inl ⟨rfl, rfl⟩, fun _ h => h, .inl,
            fun _ => .inl (by simp [hpc, HandlerPc.atEof])⟩
        · cases h
      · rw [← Option.some.inj h]
        exact (hmove _).use
      · cases h

theorem handlerStep_frame {ans : Answer τ} (h : handlerStep s ans s.handler = some s') :
    HandlerFrame s s' := by
  have hmove : ∀ pc, (pc.atEof = true → s.handler.atEof = true ∨ s.shell.peerOpen = false) →
      HandlerFrame s (s.toHandler pc) := fun pc hpc => (HandlerFrame.refl s).toHandler hpc
  cases hpc : s.handler <;> rw [hpc] at h
  case start =>
    cases h
    exact hmove _ (by simp [HandlerPc.atEof])
  case read =>
    cases h
    exact (hmove _ (by simp [HandlerPc.atEof])).deref
  case reading =>
    simp only [handlerStep] at h
    split at h
    · cases h
      exact HandlerFrame.deref ⟨rfl, rfl, rfl, rfl, .inl ⟨rfl, rfl⟩, fun _ h => h, .inl,
        by simp [State.toHandler, HandlerPc.atEof]⟩
    · split at h
      · cases h
      · rename_i heof
        cases h
        simp only [Bool.or_eq_true, not_or, Bool.not_eq_true] at heof
        exact hmove _ fun _ => .inr heof.1
  case perform effects =>
    cases effects with
    | nil =>
        cases h
        exact hmove _ (by simp [HandlerPc.atEof])
    | cons e rest =>
        simp only [handlerStep] at h
        split at h
        · obtain ⟨s₁, hs₁, rfl⟩ := Option.map_eq_some_iff.mp h
          exact (handlerFrame_effect hs₁).toHandler (by simp [HandlerPc.atEof])
        · cases h
          exact ⟨rfl, rfl, rfl, rfl, .inl ⟨rfl, rfl⟩, fun _ h => h, .inl, .inl⟩
  case trylock =>
    simp only [handlerStep] at h
    split at h <;> cases h
    · exact (handlerFrame_tryLock (.inl hpc) ‹_›).deref
    · exact (hmove _ fun _ => .inl (by simp [hpc, HandlerPc.atEof])).deref
  case signal =>
    simp only [handlerStep] at h
    split at h
    · obtain ⟨m, hm, rfl⟩ := Option.map_eq_some_iff.mp h
      exact ((handlerFrame_signal hm).toHandler
        fun _ => .inl (by simp [hpc, HandlerPc.atEof])).deref
    · cases h
  case trylockAgain =>
    simp only [handlerStep] at h
    split at h <;> cases h
    · exact (handlerFrame_tryLock (.inr hpc) ‹_›).deref
    · exact (hmove _ fun _ => .inl (by simp [hpc, HandlerPc.atEof])).deref
  case stop p => exact handlerFrame_stop hpc h
  case setNull =>
    cases h
    exact HandlerFrame.deref ⟨rfl, rfl, rfl, rfl, .inl ⟨rfl, rfl⟩, fun _ h => h, .inl,
      fun _ => .inl (by simp [hpc, HandlerPc.atEof])⟩
  case delete =>
    cases h
    exact HandlerFrame.use ⟨rfl, rfl, rfl, rfl, .inl ⟨rfl, rfl⟩, fun _ h => h,
      by simp [State.toHandler, Monitor.unlock], fun _ => .inl (by simp [hpc, HandlerPc.atEof])⟩
  case terminated => cases h

omit [DecidableEq τ] in
theorem abortInv_crash (hs : AbortInv s) : AbortInv s.crash := by
  have hlife := hs.toLifeInv.crash
  obtain ⟨-, ⟨h₁, h₂, h₃, h₄⟩, h₅, h₆, h₇, h₈⟩ := hs
  exact ⟨hlife, ⟨h₁, h₂, h₃, h₄⟩, h₅, h₆, h₇, h₈⟩

theorem abortInv_handler {ans : Answer τ} (hs : AbortInv s) (hok : ReportsAborted s (.handler ans))
    (h : handlerStep s ans s.handler = some s') (hlife' : LifeInv s') (hopen' : s'.opener = .done) :
    AbortInv s' := by
  obtain ⟨htake, hgiveUp, hnull⟩ := hok
  obtain ⟨hpeer, hechoed, hresults, hreset, hcell, hsleepers, howner, heof⟩ := handlerStep_frame h
  have haborted : ∀ k, s'.Aborted k ↔ s.Aborted k := by
    intro k
    rw [State.Aborted, State.Aborted, hpeer, hechoed]
  have hrun := not_terminated_of_step h
  have hcalls := handlerStep_calls h
  refine ⟨hlife', ⟨?_, ?_, ?_, ?_⟩, hopen', ?_, ?_, ?_⟩
  · intro hterm t k hk hab
    rw [hcalls] at hk
    rw [haborted] at hab
    cases handlerStep_cases h with
    | crash _ heq =>
        rw [heq] at hterm
        exact absurd hterm hrun
    | move _ _ _ _ _ _ hgone =>
        obtain ⟨hpc, hheld⟩ := hgone.mp hterm
        exact fun hin => hgiveUp hpc hheld t k hk hab (hsleepers _ hin)
    | setNull _ _ heq =>
        rw [heq] at hterm
        cases hterm
    | delete hpc =>
        have hbound := hs.bound t k (Call.awaiting_of_waitsFor hk) hab
        rw [hs.handler_delete hpc] at hbound
        cases hbound
  · intro hheld t k hk
    rw [hcalls] at hk
    rw [haborted]
    rcases howner hheld with hbefore | ⟨hpc, hfree⟩
    · exact hs.unblocked hbefore t k hk
    · exact htake hpc hfree t k hk
  · intro t k hk hab
    rw [hcalls] at hk
    rw [haborted] at hab
    have hbound := hs.bound t k hk hab
    cases handlerStep_cases h with
    | crash _ heq => rwa [heq]
    | move hlife => exact hlife.su_session.trans hbound
    | setNull hpc => exact absurd hab (hnull hpc t k hk)
    | delete hpc =>
        rw [hs.handler_delete hpc] at hbound
        cases hbound
  · rw [hresults, hechoed]
    exact hs.invalid
  · rw [hcalls]
    exact hs.no_exit
  · rw [hpeer]
    rintro (hpc | hheld)
    · rcases heof hpc with hbefore | hclosed
      · exact hs.eof (.inl hbefore)
      · exact hclosed
    · rcases howner hheld with hbefore | ⟨hpc, -⟩
      · exact hs.eof (.inr hbefore)
      · apply hs.eof
        rcases hpc with hpc | hpc <;> simp [hpc, HandlerPc.atEof]
  · rw [hreset]
    intro n hn
    obtain ⟨hle, heq⟩ := hs.reset n hn
    rcases hcell with ⟨hstored, hsame⟩ | hstored
    · rw [hstored, hsame]
      exact ⟨hle, heq⟩
    · exact ⟨by omega, fun hn' => by omega⟩

/-- A thread other than the handler moves to `c`. -/
theorem abortInv_goto {t : τ} {c : Call} (hs : AbortInv s) (hlife' : LifeInv s')
    (hopen' : s'.opener = .done) (hcalls : s'.calls = Function.update s.calls t c)
    (hsu : s'.su_session = s.su_session) (hhandler : s'.handler = s.handler)
    (hshell : s'.shell = s.shell) (hechoed : s'.hist.echoed = s.hist.echoed)
    (howner : s'.sync.owner = some .handler → s.sync.owner = some .handler ∧ c.waitsFor = none)
    (hsleepers : ∀ u, u ≠ t → .caller u ∈ s'.sync.sleepers → .caller u ∈ s.sync.sleepers)
    (hexit : c.exiting = false)
    (hwaits : ∀ k, c.waitsFor = some k → s.Aborted k → s.handler ≠ .terminated)
    (hawaits : ∀ k, c.awaiting = some k → s.Aborted k → s.su_session = true)
    (hinvalid : ∀ r ∈ s'.hist.results, r.shellGone = true → s.hist.echoed ≤ r.frame →
      r.value = SU_SRV_INVALID_RESULT_ERR)
    (hreset : ∀ n, s'.hist.storedAtReset = some n → n ≤ s'.hist.stored ∧
      (n = s'.hist.stored → s'.shell_cmd_exit_code = SU_SRV_INVALID_RESULT_ERR)) :
    AbortInv s' := by
  have hcall : ∀ u, s'.calls u = if u = t then c else s.calls u := by
    intro u
    rw [hcalls, Function.update_apply]
  have haborted : ∀ k, s'.Aborted k ↔ s.Aborted k := by
    intro k
    rw [State.Aborted, State.Aborted, hshell, hechoed]
  refine ⟨hlife', ⟨?_, ?_, ?_, ?_⟩, hopen', ?_, ?_, hreset⟩
  · intro hterm u k hk hab
    rw [hhandler] at hterm
    rw [haborted] at hab
    rw [hcall u] at hk
    split at hk
    · exact absurd hterm (hwaits k hk hab)
    · exact fun hin => hs.signalled hterm u k hk hab (hsleepers u ‹_› hin)
  · intro hheld u k hk
    obtain ⟨hbefore, hnone⟩ := howner hheld
    rw [haborted]
    rw [hcall u] at hk
    split at hk
    · simp [hnone] at hk
    · exact hs.unblocked hbefore u k hk
  · intro u k hk hab
    rw [haborted] at hab
    rw [hsu]
    rw [hcall u] at hk
    split at hk
    · exact hawaits k hk hab
    · exact hs.bound u k hk hab
  · rw [hechoed]
    exact hinvalid
  · intro u
    rw [hcall u]
    split
    · exact hexit
    · exact hs.no_exit u
  · rw [hhandler, hshell]
    exact fun h => hs.eof (h.imp id fun hheld => (howner hheld).1)

theorem abortInv_caller {t : τ} {ans : Answer τ} (hs : AbortInv s)
    (hok : ReportsAborted s (.caller t ans)) (h : callStep s t ans (s.calls t) = some s')
    (hlife' : LifeInv s') (hopen' : s'.opener = .done) : AbortInv s' := by
  obtain ⟨hparks, hreads⟩ := hok
  cases execCall_cases (hs.no_exit t) h with
  | crash _ heq =>
      rw [heq]
      exact abortInv_crash hs
  | move c hout hcalls hcell hreset hresults hsleep howner hexit hpark _ _ hframe =>
      refine abortInv_goto hs hlife' hopen' hcalls hout.su_session hout.handler
        hout.shell hout.echoed
        (fun hheld => ⟨howner hheld, hpark⟩) (fun u _ hu => hsleep ▸ hu) hexit ?_ ?_ ?_ ?_
      · simp [hpark]
      · intro k hk hab
        rcases hframe k (Call.frame_of_awaiting hk) with ⟨-, hsame⟩ | ⟨-, hnone⟩
        · exact hs.bound t k (hsame ▸ hk) hab
        · simp [hnone] at hk
      · rw [hresults]
        exact hs.invalid
      · rw [hreset, hout.stored, hcell]
        exact hs.reset
  | reset cmd k hpc heq =>
      subst heq
      refine abortInv_goto hs hlife' hopen' rfl rfl rfl rfl rfl (fun hheld => ⟨hheld, rfl⟩)
        (fun _ _ hu => hu) rfl (by simp [Call.waitsFor]) (by simp [Call.awaiting]) hs.invalid ?_
      intro n hn
      cases hn
      exact ⟨le_rfl, fun _ => rfl⟩
  | wait cmd k hpc hbound heq =>
      subst heq
      refine abortInv_goto hs hlife' hopen' rfl rfl rfl rfl rfl (fun hheld => by cases hheld) ?_ rfl
        ?_ (fun _ _ _ => hbound) hs.invalid hs.reset
      · intro u hut hu
        simpa [State.goto, Monitor.wait, hut] using hu
      · intro n hn hab
        cases hn
        exact hparks k (by simp [hpc, Call.parks]) hab
  | read cmd k hpc heq =>
      subst heq
      refine abortInv_goto hs hlife' hopen' rfl rfl rfl rfl rfl (fun hheld => ⟨hheld, rfl⟩)
        (fun _ _ hu => hu) rfl (by simp) (by simp) ?_ hs.reset
      intro r hr hgone hlate
      rcases List.mem_cons.mp hr with rfl | hr
      · have hab : s.Aborted k := ⟨by simpa using hgone, hlate⟩
        exact (hs.reset _ (hreads k (by simp [hpc, Call.reads]) hab)).2 rfl
      · exact hs.invalid r hr hgone hlate

omit [DecidableEq τ] in
theorem abortInv_shell {a : ShellAction} (hs : AbortInv s) (h : shellStep s a = some s')
    (hlife' : LifeInv s') (hopen' : s'.opener = .done) : AbortInv s' := by
  have hk := shellStep_keeps h
  have haborted : ∀ k, s.shell.peerOpen = false → s'.Aborted k → s.Aborted k :=
    fun k hpeer hab => ⟨hpeer, hk.echoed_le.trans hab.2⟩
  refine ⟨hlife', ⟨?_, ?_, ?_, ?_⟩, hopen', ?_, ?_, ?_⟩
  · rw [hk.handler, hk.calls, hk.sync]
    intro hterm t k hk hab
    have hpeer := hs.eof (.inl (by simp [hterm, HandlerPc.atEof]))
    exact hs.signalled hterm t k hk (haborted k hpeer hab)
  · rw [hk.sync, hk.calls]
    exact fun hheld t k hk hab =>
      hs.unblocked hheld t k hk (haborted k (hs.eof (.inr hheld)) hab)
  · rw [hk.calls, hk.su_session]
    intro t k hk hab
    by_contra hnull
    have hpeer := hs.peer_closed (by simpa using hnull)
    exact hnull (hs.bound t k hk (haborted k hpeer hab))
  · rw [hk.results]
    exact fun r hr hgone hlate => hs.invalid r hr hgone (hk.echoed_le.trans hlate)
  · rw [hk.calls]
    exact hs.no_exit
  · rw [hk.handler, hk.sync]
    exact fun h => hk.closed (hs.eof h)
  · rw [hk.storedAtReset, hk.stored, hk.exit_code]
    exact hs.reset

theorem abortInv_step {a : Action τ} (hs : AbortInv s) (hno : NoExit a) (hok : ReportsAborted s a)
    (h : step s a = some s') : AbortInv s' := by
  have hlife' : LifeInv s' := lifeInv_step hs.toLifeInv h
  have hopen' : s'.opener = .done := opener_done_step hs.opened h
  cases step_cases h with
  | invoke t e =>
      have hentry : e.call.exiting = false ∧ e.call.waitsFor = none ∧ e.call.awaiting = none := by
        cases e <;> first | exact absurd rfl hno | exact ⟨rfl, rfl, rfl⟩
      obtain ⟨hexit, hwaits, hawaits⟩ := hentry
      exact abortInv_goto hs hlife' hopen' rfl rfl rfl rfl rfl (fun hheld => ⟨hheld, hwaits⟩)
        (fun _ _ hu => hu) hexit (by simp [hwaits]) (by simp [hawaits]) hs.invalid hs.reset
  | caller t ans _ h => exact abortInv_caller hs hok h hlife' hopen'
  | handler ans _ h => exact abortInv_handler hs hok h hlife' hopen'
  | spurious t =>
      obtain ⟨-, ⟨h₁, h₂, h₃, h₄⟩, h₅, h₆, h₇, h₈⟩ := hs
      exact ⟨hlife', ⟨fun hterm u k hk hab hin => h₁ hterm u k hk hab (List.mem_of_mem_erase hin),
        h₂, h₃, h₄⟩, hopen', h₆, h₇, h₈⟩
  | closePeer ho | publish ho => simp [hs.opened] at ho
  | shell a _ h => exact abortInv_shell hs h hlife' hopen'

theorem abortReported_of_reach (code : Int)
    (h : Reach step (fun s a => NoExit a ∧ ReportsAborted s a) (State.published code) s) :
    AbortReported s := by
  have hinv : AbortInv s :=
    h.invariant (abortInv_published code) fun _ _ _ hs hok hstep =>
      abortInv_step hs hok.1 hok.2 hstep
  exact hinv.toAbortReported

instance : DecidablePred (NoExit : Action τ → Prop)
  | .invoke _ e => inferInstanceAs (Decidable (e ≠ .exit))
  | .caller _ _ | .handler _ | .spurious _ | .opener | .shell _ => isTrue trivial

instance [Fintype τ] (s : State τ) : DecidablePred (ReportsAborted s)
  | .handler _ => inferInstanceAs (Decidable (_ ∧ _ ∧ _))
  | .caller _ _ => inferInstanceAs (Decidable (_ ∧ _))
  | .invoke _ _ | .spurious _ | .opener | .shell _ => isTrue trivial

/-- The caller has woken up by itself and holds the mutex while the handler gives
up; then it returns the error. -/
theorem abortReported_spurious_wake :
    ∃ s : State Unit, s.handler = .terminated ∧ s.hist.results = [⟨0, -9996, true⟩] ∧
      AbortReported s := by
  have hrun : (runOk step (fun s a => NoExit a ∧ ReportsAborted s a) (State.published 0)
      [[.invoke () (.exec (ascii "ls"))], List.replicate 9 (.caller () .ok),
        [.shell .die, .shell .closePeer], List.replicate 3 (.handler .ok),
        [.spurious (), .caller () .ok, .handler .ok, .handler (.wake none), .handler .ok,
          .caller () .ok, .caller () .ok]].flatten).map (fun s => (s.handler, s.hist.results)) =
      some (.terminated, [⟨0, -9996, true⟩]) := by decide +kernel
  obtain ⟨s, hreach, hend⟩ := Reach.exists_of_runOk hrun
  obtain ⟨hterm, hresults⟩ := Prod.mk.inj hend
  exact ⟨s, hterm, hresults, abortReported_of_reach 0 hreach⟩

/-- One caller waits when the shell dies: the handler takes the mutex and ends
without a signal. -/
theorem not_abortReported_waiting_exec :
    ¬ ∀ (code : Int) (s : State Unit),
      Reach step (fun _ a => NoExit a) (State.published code) s → AbortReported s := by
  intro h
  have hrun : (runOk step (fun _ a => NoExit a) (State.published 0)
      [[.invoke () (.exec (ascii "ls"))], List.replicate 9 (.caller () .ok),
        [.shell .die, .shell .closePeer], List.replicate 6 (.handler .ok),
        [.handler (.waitpid .pid), .handler .ok, .handler .ok]].flatten).map
        (fun s : State Unit => decide (s.handler = .terminated ∧ (s.calls ()).waitsFor = some 0 ∧
          s.Aborted 0 ∧ .caller () ∈ s.sync.sleepers)) = some true := by decide +kernel
  obtain ⟨s, hreach, hstuck⟩ := Reach.exists_of_runOk hrun
  obtain ⟨hterm, hwaits, haborted, hasleep⟩ := of_decide_eq_true hstuck
  exact (h 0 s hreach).signalled hterm () 0 hwaits haborted hasleep

end Susrv.Native
