import Susrv.Native.Session

/-!
# The life of the session pointer

What each party's step can do to the session as a whole: to `_su_session`, to
the memory behind it, and to the program counters that lead to its deletion.
`LifeInv` is what holds of these in every run, whatever the schedule.
-/

namespace Susrv.Native

open Base Base.CString Base.Transition

variable {τ : Type} {s s' : State τ}

/-- `_su_session` is not NULL and the memory behind it is there. -/
structure Live (s : State τ) : Prop where
  bound : s.su_session = true
  allocated : s.freed = false

theorem Live.deref (h : Live s) (next : State τ) : s.deref next = next := if_pos h.bound

theorem Live.use (h : Live s) (next : State τ) : s.use next = next := by
  simp [State.use, h.allocated]

theorem not_live_of_freed (h : s.freed = true) : ¬ Live s := fun hl => by simp [hl.allocated] at h

/-- Nothing about the existence of the session differs between two states. -/
structure SameLife (s s' : State τ) : Prop where
  su_session : s'.su_session = s.su_session
  freed : s'.freed = s.freed
  fault : s'.fault = s.fault
  opener : s'.opener = s.opener

theorem deref_cases (s next : State τ) :
    (s.su_session = true ∧ s.deref next = next) ∨ (¬ Live s ∧ s.deref next = s.crash) := by
  unfold State.deref
  split
  · exact .inl ⟨‹_›, rfl⟩
  · exact .inr ⟨fun hl => absurd hl.bound ‹_›, rfl⟩

theorem use_cases (s next : State τ) :
    (s.freed = false ∧ s.use next = next) ∨ (s.freed = true ∧ s.use next = s.crash) := by
  unfold State.use
  split
  · exact .inr ⟨‹_›, rfl⟩
  · rename_i hfreed
    exact .inl ⟨by simpa using hfreed, rfl⟩

/-- A dereference is the step that it guards, or a crash. -/
theorem eq_or_crash_of_deref {next s' : State τ} (h : s.deref next = s') :
    next = s' ∨ s.crash = s' := by
  rcases deref_cases s next with ⟨-, heq⟩ | ⟨-, heq⟩
  · exact .inl (heq.symm.trans h)
  · exact .inr (heq.symm.trans h)

theorem eq_or_crash_of_use {next s' : State τ} (h : s.use next = s') :
    next = s' ∨ s.crash = s' := by
  rcases use_cases s next with ⟨-, heq⟩ | ⟨-, heq⟩
  · exact .inl (heq.symm.trans h)
  · exact .inr (heq.symm.trans h)

/-! ## What a call can be doing -/

/-- The call is past its test of `_su_session` and still needs the session. -/
def Call.inside : Call → Bool
  | .idle | .exec _ .test | .exit .test | .exit .delete => false
  | .exec _ _ | .exit _ => true
  | .setTtyEcho _ pc | .getTtyEcho pc | .lastTtyRead pc => pc = .access

def Call.exiting : Call → Bool
  | .exit _ => true
  | _ => false

/-- The handler has read EOF. -/
def HandlerPc.atEof : HandlerPc → Bool
  | .start | .read | .reading | .perform _ => false
  | _ => true

variable [DecidableEq τ]

theorem State.goto_calls (t : τ) (c : Call) (u : τ) :
    (s.goto t c).calls u = if u = t then c else s.calls u :=
  Function.update_apply s.calls t c u

/-- This poll of `waitpid` makes `shell_stop_process` give up. -/
def pollFails (ans : Answer τ) (again : Nat) : Bool :=
  ans = .waitpid .error || (ans = .waitpid .zero && 3 ≤ again + 1)

/-- The exit call is about to return an error: the last poll of `waitpid` did not
report the child, or `pthread_join` failed. -/
def Call.exitFails (ans : Answer τ) : Call → Bool
  | .exit (.stop (.poll again)) => pollFails ans again
  | .exit .joining => ans = .error
  | _ => false

/-- `shell_stop_process` crashes, goes on in the thread that called it, or comes
back with its verdict after a poll. -/
theorem stopStep_cases {ans : Answer τ} {next : StopPc → State τ → State τ}
    {done : Bool → State τ → State τ} {p : StopPc}
    (h : stopStep s ans next done p = some s') :
    (¬ Live s ∧ s' = s.crash) ∨
      ∃ s₁, SameLife s s₁ ∧ s₁.calls = s.calls ∧ s₁.handler = s.handler ∧ s₁.sync = s.sync ∧
        ((∃ p', s' = next p' s₁ ∧ ∀ again, p = .poll again → pollFails ans again = false) ∨
          ∃ stopped again, s' = done stopped s₁ ∧ p = .poll again ∧
            stopped = !pollFails ans again) := by
  cases p with
  | writeExit =>
      simp only [stopStep, Option.some.injEq] at h
      rcases deref_cases s (next .writeEnd (s.write .exitCmd)) with ⟨-, heq⟩ | ⟨hdead, heq⟩
      · exact .inr ⟨s.write .exitCmd, ⟨rfl, rfl, rfl, rfl⟩, rfl, rfl, rfl,
          .inl ⟨_, h.symm.trans heq, by simp⟩⟩
      · exact .inl ⟨hdead, h.symm.trans heq⟩
  | writeEnd =>
      simp only [stopStep, Option.some.injEq] at h
      rcases use_cases s (next (.poll 0) (s.write .lf)) with ⟨-, heq⟩ | ⟨hfreed, heq⟩
      · exact .inr ⟨s.write .lf, ⟨rfl, rfl, rfl, rfl⟩, rfl, rfl, rfl,
          .inl ⟨_, h.symm.trans heq, by simp⟩⟩
      · exact .inl ⟨not_live_of_freed hfreed, h.symm.trans heq⟩
  | poll again =>
      simp only [stopStep] at h
      split at h
      · split at h
        · rcases use_cases s _ with ⟨-, heq⟩ | ⟨hfreed, heq⟩
          · rw [heq] at h
            refine .inr ⟨s, ⟨rfl, rfl, rfl, rfl⟩, rfl, rfl, rfl, ?_⟩
            split at h
            · refine .inl ⟨_, (Option.some.inj h).symm, fun again' hp => ?_⟩
              cases hp
              simp only [pollFails]
              simpa using by omega
            · rename_i hlast
              exact .inr ⟨_, _, (Option.some.inj h).symm, rfl,
                by simp [pollFails, Nat.not_lt.mp hlast]⟩
          · rw [heq] at h
            exact .inl ⟨not_live_of_freed hfreed, (Option.some.inj h).symm⟩
        · cases h
      · split at h
        · rcases use_cases s (done true { s with shell := { s.shell with reaped := true } }) with
            ⟨-, heq⟩ | ⟨hfreed, heq⟩
          · exact .inr ⟨{ s with shell := { s.shell with reaped := true } },
              ⟨rfl, rfl, rfl, rfl⟩, rfl, rfl, rfl,
              .inr ⟨true, _, (Option.some.inj h).symm.trans heq, rfl, by simp [pollFails]⟩⟩
          · exact .inl ⟨not_live_of_freed hfreed, (Option.some.inj h).symm.trans heq⟩
        · cases h
      · rcases use_cases s (done false s) with ⟨-, heq⟩ | ⟨hfreed, heq⟩
        · exact .inr ⟨s, ⟨rfl, rfl, rfl, rfl⟩, rfl, rfl, rfl,
            .inr ⟨_, _, (Option.some.inj h).symm.trans heq, rfl, by simp [pollFails]⟩⟩
        · exact .inl ⟨not_live_of_freed hfreed, (Option.some.inj h).symm.trans heq⟩
      · cases h

omit [DecidableEq τ] in
/-- What neither a crash, the stop request nor a reaped child changes, `shell_stop_process`
keeps. -/
theorem stopStep_same {β : Type*} (f : State τ → β) {ans : Answer τ}
    {next : StopPc → State τ → State τ} {done : Bool → State τ → State τ} {p : StopPc}
    (hcrash : f s.crash = f s) (hwrite : ∀ c ∈ [Chunk.exitCmd, .lf], f (s.write c) = f s)
    (hreap : f { s with shell := { s.shell with reaped := true } } = f s)
    (hnext : ∀ p s₁, f (next p s₁) = f s₁) (hdone : ∀ stopped s₁, f (done stopped s₁) = f s₁)
    (h : stopStep s ans next done p = some s') : f s' = f s := by
  have huse : ∀ s₁, f s₁ = f s → f (s.use s₁) = f s := by
    intro s₁ hs₁
    rcases use_cases s s₁ with ⟨-, heq⟩ | ⟨-, heq⟩ <;> rw [heq]
    · exact hs₁
    · exact hcrash
  cases p with
  | writeExit =>
      cases h
      rcases deref_cases s (next .writeEnd (s.write .exitCmd)) with ⟨-, heq⟩ | ⟨-, heq⟩ <;> rw [heq]
      · rw [hnext, hwrite _ (by simp)]
      · exact hcrash
  | writeEnd =>
      cases h
      exact huse _ (by rw [hnext, hwrite _ (by simp)])
  | poll again =>
      simp only [stopStep] at h
      split at h
      · split at h <;> cases h
        apply huse
        split
        · exact hnext _ _
        · exact hdone _ _
      · split at h <;> cases h
        exact huse _ (by rw [hdone, hreap])
      · cases h
        exact huse _ (hdone _ _)
      · cases h

/-! ## The callers -/

/-- What a caller's step can do to the session. -/
inductive CallerStep (s : State τ) (t : τ) (ans : Answer τ) (s' : State τ) : Prop
  | crash (hdead : ¬ Live s) (heq : s' = s.crash)
      (hcause : (s.calls t).inside = true ∨ (s.calls t = .exit .delete ∧ s.freed = true))
  | move (c : Call) (hlife : SameLife s s') (hhandler : s'.handler = s.handler)
      (hcalls : s'.calls = Function.update s.calls t c)
      (hdelete : c ≠ .exit .delete) (hnull : c = .exit .setNull → s.handler = .terminated)
      (hinside : s.su_session = false → (s.calls t).inside = false → c.inside = false)
      (hexiting : s.su_session = true →
        c.exiting = ((s.calls t).exiting && !(s.calls t).exitFails ans))
  | setNull (hpc : s.calls t = .exit .setNull) (hbound : s.su_session = true)
      (heq : s' = { s with su_session := false }.goto t (.exit .delete))
  | delete (hpc : s.calls t = .exit .delete) (hfreed : s.freed = false)
      (heq : s' = { s with freed := true, sync := s.sync.unlock }.goto t .idle)

section Callers

variable {t : τ} {ans : Answer τ}

/-- A step that only moves the program counter of `t` besides fields that the
life of the session does not depend on. -/
theorem CallerStep.of_goto {s₁ : State τ} {c c' : Call} (hlife : SameLife s s₁)
    (hcalls : s₁.calls = s.calls) (hhandler : s₁.handler = s.handler) (hpc : s.calls t = c)
    (hdelete : c' ≠ .exit .delete) (hnull : c' = .exit .setNull → s.handler = .terminated)
    (hinside : s.su_session = false → c.inside = false → c'.inside = false)
    (hexiting : s.su_session = true → c'.exiting = (c.exiting && !c.exitFails ans)) :
    CallerStep s t ans (s₁.goto t c') := by
  obtain ⟨h₁, h₂, h₃, h₄⟩ := hlife
  subst hpc
  exact .move c' ⟨h₁, h₂, h₃, h₄⟩ hhandler (by simp [State.goto, hcalls]) hdelete hnull hinside
    hexiting

/-- The same, when the step goes through `_su_session`. -/
theorem CallerStep.of_deref {s₁ : State τ} {c c' : Call}
    (h : s.deref (s₁.goto t c') = s') (hlife : SameLife s s₁)
    (hcalls : s₁.calls = s.calls) (hhandler : s₁.handler = s.handler) (hpc : s.calls t = c)
    (hin : c.inside = true) (hdelete : c' ≠ .exit .delete)
    (hnull : c' = .exit .setNull → s.handler = .terminated)
    (hexiting : c'.exiting = (c.exiting && !c.exitFails ans)) :
    CallerStep s t ans s' := by
  rcases deref_cases s (s₁.goto t c') with ⟨hbound, heq⟩ | ⟨hdead, heq⟩
  · rw [← h, heq]
    exact .of_goto hlife hcalls hhandler hpc hdelete hnull
      (fun hno => by simp [hbound] at hno) (fun _ => hexiting)
  · exact .crash hdead (h.symm.trans heq) (.inl (hpc ▸ hin))

theorem execStep_cases {cmd : Bytes} {pc : ExecPc} (hpc : s.calls t = .exec cmd pc)
    (h : execStep s t cmd pc = some s') : CallerStep s t ans s' := by
  cases pc <;> simp only [execStep, Option.some.injEq] at h
  case test =>
    rw [← h]
    refine .of_goto ⟨rfl, rfl, rfl, rfl⟩ rfl rfl hpc ?_ ?_ ?_ ?_ <;>
      cases s.su_session <;> simp [Call.inside, Call.exiting]
  case locking =>
    split at h
    · exact .crash (not_live_of_freed ‹_›) (Option.some.inj h).symm (.inl (hpc ▸ rfl))
    · obtain ⟨m, -, rfl⟩ := Option.map_eq_some_iff.mp h
      exact .of_goto ⟨rfl, rfl, rfl, rfl⟩ rfl rfl hpc (by simp) (by simp)
        (fun _ hin => by simp [Call.inside] at hin) (fun _ => rfl)
  case waiting =>
    split at h
    · cases h
    · split at h
      · exact .crash (not_live_of_freed ‹_›) (Option.some.inj h).symm (.inl (hpc ▸ rfl))
      · obtain ⟨m, -, rfl⟩ := Option.map_eq_some_iff.mp h
        exact .of_goto ⟨rfl, rfl, rfl, rfl⟩ rfl rfl hpc (by simp) (by simp)
          (fun _ hin => by simp [Call.inside] at hin) (fun _ => rfl)
  all_goals
    exact .of_deref h ⟨rfl, rfl, rfl, rfl⟩ rfl rfl hpc rfl (by simp) (by simp) rfl

theorem accessStep_cases {resume : Call} {access : State τ → State τ} {pc : AccessPc}
    {c : AccessPc → Call} (hpc : s.calls t = c pc) (hlife : SameLife s (access s))
    (hcalls : (access s).calls = s.calls) (hhandler : (access s).handler = s.handler)
    (hresume : resume.exiting = false) (hc : (c pc).exiting = false)
    (hin : (c .access).inside = true)
    (h : accessStep s t resume access pc = some s') : CallerStep s t ans s' := by
  have hresume' : ∀ pc', resume ≠ .exit pc' := by
    rintro pc' rfl
    simp [Call.exiting] at hresume
  cases pc <;> simp only [accessStep, Option.some.injEq] at h
  case test =>
    rw [← h]
    refine .of_goto ⟨rfl, rfl, rfl, rfl⟩ rfl rfl hpc ?_ ?_ ?_ ?_ <;>
      cases s.su_session <;> simp [Call.inside, hc, hresume, hresume']
  case access =>
    exact .of_deref h hlife hcalls hhandler hpc hin (by simp) (by simp)
      (by simp [hc]; rfl)

theorem exitStep_cases {pc : ExitPc} (hpc : s.calls t = .exit pc)
    (h : exitStep s t ans pc = some s') : CallerStep s t ans s' := by
  cases pc with
  | test =>
      simp only [exitStep, Option.some.injEq] at h
      rw [← h]
      refine .of_goto ⟨rfl, rfl, rfl, rfl⟩ rfl rfl hpc ?_ ?_ ?_ ?_ <;>
        cases s.su_session <;> simp [Call.inside, Call.exiting, Call.exitFails]
  | trylock =>
      simp only [exitStep] at h
      split at h <;>
        exact .of_deref (Option.some.inj h) ⟨rfl, rfl, rfl, rfl⟩ rfl rfl hpc rfl
          (by simp) (by simp) rfl
  | signal =>
      simp only [exitStep] at h
      split at h
      · obtain ⟨m, -, hm⟩ := Option.map_eq_some_iff.mp h
        exact .of_deref hm ⟨rfl, rfl, rfl, rfl⟩ rfl rfl hpc rfl (by simp) (by simp) rfl
      · cases h
  | lock =>
      exact .of_deref (Option.some.inj h) ⟨rfl, rfl, rfl, rfl⟩ rfl rfl hpc rfl
        (by simp) (by simp) rfl
  | locking =>
      simp only [exitStep] at h
      split at h
      · exact .crash (not_live_of_freed ‹_›) (Option.some.inj h).symm (.inl (hpc ▸ rfl))
      · obtain ⟨m, -, rfl⟩ := Option.map_eq_some_iff.mp h
        exact .of_goto ⟨rfl, rfl, rfl, rfl⟩ rfl rfl hpc (by simp) (by simp)
          (fun _ hin => by simp [Call.inside] at hin) (fun _ => rfl)
  | stop p =>
      simp only [exitStep] at h
      rcases stopStep_cases h with
        ⟨hdead, heq⟩ | ⟨s₁, hlife, hcalls, hhandler, -, ⟨p', rfl, hgo⟩ |
          ⟨stopped, again, rfl, rfl, hv⟩⟩
      · exact .crash hdead heq (.inl (hpc ▸ rfl))
      · refine .of_goto hlife hcalls hhandler hpc (by simp) (by simp)
          (fun _ hin => by simp [Call.inside] at hin) (fun _ => ?_)
        cases p with
        | poll again => simp [Call.exiting, Call.exitFails, hgo again rfl]
        | writeExit => rfl
        | writeEnd => rfl
      · refine .of_goto hlife hcalls hhandler hpc ?_ ?_
          (fun _ hin => by simp [Call.inside] at hin) (fun _ => ?_)
        · cases stopped <;> simp
        · cases stopped <;> simp
        · cases stopped <;> simp_all [Call.exiting, Call.exitFails]
  | join =>
      exact .of_deref (Option.some.inj h) ⟨rfl, rfl, rfl, rfl⟩ rfl rfl hpc rfl
        (by simp) (by simp) rfl
  | joining =>
      simp only [exitStep] at h
      split at h
      · rename_i hans
        rw [← Option.some.inj h]
        exact .of_goto ⟨rfl, rfl, rfl, rfl⟩ rfl rfl hpc (by simp) (by simp)
          (fun _ hin => by simp [Call.inside] at hin)
          (fun _ => by simp [Call.exiting, Call.exitFails, hans])
      · rename_i hans
        split at h
        · rename_i hterm
          rw [← Option.some.inj h]
          exact .of_goto ⟨rfl, rfl, rfl, rfl⟩ rfl rfl hpc (by simp) (fun _ => hterm)
            (fun _ hin => by simp [Call.inside] at hin)
            (fun _ => by simp [Call.exiting, Call.exitFails, hans])
        · cases h
  | setNull =>
      simp only [exitStep, setNullStep, Option.some.injEq] at h
      rcases deref_cases s ({ s with su_session := false }.goto t (.exit .delete)) with
        ⟨hbound, heq⟩ | ⟨hdead, heq⟩
      · exact .setNull hpc hbound (h.symm.trans heq)
      · exact .crash hdead (h.symm.trans heq) (.inl (hpc ▸ rfl))
  | delete =>
      simp only [exitStep, deleteStep, Option.some.injEq] at h
      rcases use_cases s ({ s with freed := true, sync := s.sync.unlock }.goto t .idle) with
        ⟨hfreed, heq⟩ | ⟨hfreed, heq⟩
      · exact .delete hpc hfreed (h.symm.trans heq)
      · exact .crash (not_live_of_freed hfreed) (h.symm.trans heq) (.inr ⟨hpc, hfreed⟩)

theorem callStep_cases (h : callStep s t ans (s.calls t) = some s') : CallerStep s t ans s' := by
  cases hpc : s.calls t with
  | idle => simp [hpc, callStep] at h
  | exec cmd pc =>
      rw [hpc] at h
      exact execStep_cases hpc h
  | exit pc =>
      rw [hpc] at h
      exact exitStep_cases hpc h
  | setTtyEcho echo pc =>
      rw [hpc, callStep] at h
      exact accessStep_cases (c := .setTtyEcho echo) hpc ⟨rfl, rfl, rfl, rfl⟩ rfl rfl rfl rfl rfl h
  | getTtyEcho pc =>
      rw [hpc, callStep] at h
      exact accessStep_cases (c := .getTtyEcho) hpc ⟨rfl, rfl, rfl, rfl⟩ rfl rfl rfl rfl rfl h
  | lastTtyRead pc =>
      rw [hpc, callStep] at h
      exact accessStep_cases (c := .lastTtyRead) hpc ⟨rfl, rfl, rfl, rfl⟩ rfl rfl rfl rfl rfl h

end Callers

/-! ## The handler and the rest -/

/-- What a step of the handler can do to the session. -/
inductive HandlerStep (s s' : State τ) : Prop
  | crash (hdead : ¬ Live s) (heq : s' = s.crash)
      (hcause : s.handler ≠ .delete ∨ s.freed = true)
  | move (hlife : SameLife s s') (hcalls : s'.calls = s.calls)
      (hbefore : s.handler ≠ .delete) (hdelete : s'.handler ≠ .delete)
      (hstart : s.handler = .start → s'.handler = .read)
      (hread : s.handler = .read → s.su_session = true)
      (hgone : s'.handler = .terminated ↔ s.handler = .trylockAgain ∧ s.sync.owner ≠ none)
  | setNull (hpc : s.handler = .setNull) (hbound : s.su_session = true)
      (heq : s' = { s with su_session := false }.toHandler .delete)
  | delete (hpc : s.handler = .delete) (hfreed : s.freed = false)
      (heq : s' = { s with freed := true, sync := s.sync.unlock }.toHandler .terminated)

section Handler

variable {ans : Answer τ}

omit [DecidableEq τ] in
theorem HandlerStep.of_toHandler {s₁ : State τ} {pc pc' : HandlerPc} (hlife : SameLife s s₁)
    (hcalls : s₁.calls = s.calls) (hpc : s.handler = pc) (hbefore : pc ≠ .delete)
    (hdelete : pc' ≠ .delete) (hstart : pc = .start → pc' = .read)
    (hread : pc = .read → s.su_session = true)
    (hgone : pc' = .terminated ↔ pc = .trylockAgain ∧ s.sync.owner ≠ none) :
    HandlerStep s (s₁.toHandler pc') := by
  obtain ⟨h₁, h₂, h₃, h₄⟩ := hlife
  subst hpc
  exact .move ⟨h₁, h₂, h₃, h₄⟩ hcalls hbefore hdelete hstart hread hgone

omit [DecidableEq τ] in
theorem HandlerStep.of_deref {s₁ : State τ} {pc pc' : HandlerPc}
    (h : s.deref (s₁.toHandler pc') = s') (hlife : SameLife s s₁) (hcalls : s₁.calls = s.calls)
    (hpc : s.handler = pc) (hbefore : pc ≠ .delete) (hdelete : pc' ≠ .delete)
    (hstart : pc ≠ .start)
    (hgone : pc' = .terminated ↔ pc = .trylockAgain ∧ s.sync.owner ≠ none) :
    HandlerStep s s' := by
  rcases deref_cases s (s₁.toHandler pc') with ⟨hbound, heq⟩ | ⟨hdead, heq⟩
  · rw [← h, heq]
    exact .of_toHandler hlife hcalls hpc hbefore hdelete (fun hs => absurd hs hstart)
      (fun _ => hbound)
      hgone
  · exact .crash hdead (h.symm.trans heq) (.inl (hpc ▸ hbefore))

theorem applyEffect_frame {e : Effect} (h : applyEffect s ans e = some s') :
    SameLife s s' ∧ s'.calls = s.calls ∧ s'.sync.owner = s.sync.owner := by
  cases e with
  | exitCode n =>
      cases h
      exact ⟨⟨rfl, rfl, rfl, rfl⟩, rfl, rfl⟩
  | signal =>
      simp only [applyEffect] at h
      split at h
      · obtain ⟨m, hm, rfl⟩ := Option.map_eq_some_iff.mp h
        exact ⟨⟨rfl, rfl, rfl, rfl⟩, rfl, (Monitor.signal_frame hm).1⟩
      · cases h
  | line text =>
      cases h
      exact ⟨⟨rfl, rfl, rfl, rfl⟩, rfl, rfl⟩

theorem handlerStep_cases (h : handlerStep s ans s.handler = some s') : HandlerStep s s' := by
  cases hpc : s.handler <;> rw [hpc] at h
  case start =>
    cases h
    exact .of_toHandler ⟨rfl, rfl, rfl, rfl⟩ rfl hpc
      (by simp) (by simp) (fun _ => rfl) (by simp) (by simp)
  case read =>
    exact .of_deref (Option.some.inj h) ⟨rfl, rfl, rfl, rfl⟩ rfl hpc
      (by simp) (by simp) (by simp) (by simp)
  case reading =>
    simp only [handlerStep] at h
    split at h
    · exact .of_deref (Option.some.inj h) ⟨rfl, rfl, rfl, rfl⟩ rfl hpc (by simp) (by simp) (by simp)
        (by simp)
    · split at h
      · cases h
      · cases h
        exact .of_toHandler ⟨rfl, rfl, rfl, rfl⟩ rfl hpc
          (by simp) (by simp) (by simp) (by simp) (by simp)
  case perform effects =>
    cases effects with
    | nil =>
        cases h
        exact .of_toHandler ⟨rfl, rfl, rfl, rfl⟩ rfl hpc
          (by simp) (by simp) (by simp) (by simp) (by simp)
    | cons e rest =>
        simp only [handlerStep] at h
        split at h
        · obtain ⟨s₁, hs₁, rfl⟩ := Option.map_eq_some_iff.mp h
          obtain ⟨hlife, hcalls, -⟩ := applyEffect_frame hs₁
          exact .of_toHandler hlife hcalls hpc (by simp) (by simp) (by simp) (by simp) (by simp)
        · exact .crash (fun hl => absurd hl.bound ‹_›) (Option.some.inj h).symm
            (.inl (by simp [hpc]))
  case trylock =>
    simp only [handlerStep] at h
    split at h <;>
      exact .of_deref (Option.some.inj h) ⟨rfl, rfl, rfl, rfl⟩ rfl hpc
        (by simp) (by simp) (by simp) (by simp)
  case signal =>
    simp only [handlerStep] at h
    split at h
    · obtain ⟨m, -, hm⟩ := Option.map_eq_some_iff.mp h
      exact .of_deref hm ⟨rfl, rfl, rfl, rfl⟩ rfl hpc (by simp) (by simp) (by simp) (by simp)
    · cases h
  case trylockAgain =>
    simp only [handlerStep] at h
    split at h
    · rename_i hfree
      exact .of_deref (Option.some.inj h) ⟨rfl, rfl, rfl, rfl⟩ rfl hpc (by simp) (by simp) (by simp)
        (by simp [(Monitor.tryLock_eq_some.mp hfree).1])
    · rename_i hbusy
      exact .of_deref (Option.some.inj h) ⟨rfl, rfl, rfl, rfl⟩ rfl hpc (by simp) (by simp) (by simp)
        (by simpa using Monitor.tryLock_eq_none.mp hbusy)
  case stop p =>
    simp only [handlerStep] at h
    rcases stopStep_cases h with
      ⟨hdead, heq⟩ | ⟨s₁, hlife, hcalls, -, -, ⟨p', rfl, -⟩ | ⟨stopped, again, rfl, -, -⟩⟩
    · exact .crash hdead heq (.inl (by simp [hpc]))
    · exact .of_toHandler hlife hcalls hpc (by simp) (by simp) (by simp) (by simp) (by simp)
    · exact .of_toHandler hlife hcalls hpc (by simp) (by simp) (by simp) (by simp) (by simp)
  case setNull =>
    simp only [handlerStep, setNullStep, Option.some.injEq] at h
    rcases deref_cases s ({ s with su_session := false }.toHandler .delete) with
      ⟨hbound, heq⟩ | ⟨hdead, heq⟩
    · exact .setNull hpc hbound (h.symm.trans heq)
    · exact .crash hdead (h.symm.trans heq) (.inl (by simp [hpc]))
  case delete =>
    simp only [handlerStep, deleteStep, Option.some.injEq] at h
    rcases use_cases s ({ s with freed := true, sync := s.sync.unlock }.toHandler .terminated) with
      ⟨hfreed, heq⟩ | ⟨hfreed, heq⟩
    · exact .delete hpc hfreed (h.symm.trans heq)
    · exact .crash (not_live_of_freed hfreed) (h.symm.trans heq) (.inr hfreed)
  case terminated => cases h

theorem handlerStep_calls (h : handlerStep s ans s.handler = some s') : s'.calls = s.calls := by
  cases handlerStep_cases h with
  | crash _ heq => rw [heq]; rfl
  | move _ hcalls => exact hcalls
  | setNull _ _ heq => rw [heq]; rfl
  | delete _ _ heq => rw [heq]; rfl

theorem not_terminated_of_step (h : handlerStep s ans s.handler = some s') :
    s.handler ≠ .terminated := by
  intro hterm
  rw [hterm] at h
  cases h

end Handler

/-- What a step of the shell leaves alone; its own record only grows. -/
structure ShellKeeps (s s' : State τ) : Prop extends SameLife s s' where
  calls : s'.calls = s.calls
  handler : s'.handler = s.handler
  sync : s'.sync = s.sync
  written : s'.written = s.written
  exit_code : s'.shell_cmd_exit_code = s.shell_cmd_exit_code
  submitted : s'.hist.submitted = s.hist.submitted
  stored : s'.hist.stored = s.hist.stored
  storedAtReset : s'.hist.storedAtReset = s.hist.storedAtReset
  signalled : s'.hist.signalled = s.hist.signalled
  results : s'.hist.results = s.hist.results
  echoed_le : s.hist.echoed ≤ s'.hist.echoed
  statuses : s.hist.statuses <+: s'.hist.statuses
  closed : s.shell.peerOpen = false → s'.shell.peerOpen = false

omit [DecidableEq τ] in
theorem ShellKeeps.of_shell {lines : List Bytes} {shell : Shell} {statuses : List Nat}
    {echoed : Nat} (hechoed : s.hist.echoed ≤ echoed) (hstatuses : s.hist.statuses <+: statuses)
    (hclosed : s.shell.peerOpen = false → shell.peerOpen = false) :
    ShellKeeps s
      { s with toOwner := lines, shell := shell, hist := { s.hist with statuses, echoed } } := by
  constructor
  case toSameLife => exact ⟨rfl, rfl, rfl, rfl⟩
  case echoed_le => exact hechoed
  case statuses => exact hstatuses
  case closed => exact hclosed
  all_goals rfl

omit [DecidableEq τ] in
theorem shellStep_keeps {a : ShellAction} (h : shellStep s a = some s') : ShellKeeps s s' := by
  cases a <;> simp only [shellStep] at h
  case take =>
    split at h
    · cases h
    · split at h <;> cases h
      · exact .of_shell le_rfl List.prefix_rfl id
      · exact .of_shell le_rfl List.prefix_rfl id
      · unfold State.print
        split
        · exact .of_shell (Nat.le_succ _) List.prefix_rfl id
        · exact .of_shell le_rfl List.prefix_rfl id
      · exact .of_shell le_rfl List.prefix_rfl id
  case print out =>
    split at h <;> cases h
    unfold State.print
    split
    · exact .of_shell le_rfl List.prefix_rfl id
    · exact .of_shell le_rfl List.prefix_rfl id
  case finish status =>
    split at h <;> cases h
    exact .of_shell le_rfl (List.prefix_append _ _) id
  case die =>
    split at h <;> cases h
    exact .of_shell le_rfl List.prefix_rfl id
  case closePeer =>
    split at h <;> cases h
    exact .of_shell le_rfl List.prefix_rfl fun _ => rfl

/-! ## A step of the system -/

/-- Whose step it is, with the state it leads to where that is the same for all. -/
inductive SystemStep (s : State τ) : Action τ → State τ → Prop
  | invoke (t : τ) (e : Entry) (hidle : s.calls t = .idle) :
      SystemStep s (.invoke t e) (s.goto t e.call)
  | caller (t : τ) (ans : Answer τ) (s' : State τ) (h : callStep s t ans (s.calls t) = some s') :
      SystemStep s (.caller t ans) s'
  | handler (ans : Answer τ) (s' : State τ) (h : handlerStep s ans s.handler = some s') :
      SystemStep s (.handler ans) s'
  | spurious (t : τ) (hin : .caller t ∈ s.sync.sleepers) :
      SystemStep s (.spurious t)
        { s with sync := { s.sync with sleepers := s.sync.sleepers.erase (.caller t) } }
  | closePeer (hopener : s.opener = .closePeer) :
      SystemStep s .opener { s with opener := .publish }
  | publish (hopener : s.opener = .publish) :
      SystemStep s .opener { s with su_session := true, opener := .done }
  | shell (a : ShellAction) (s' : State τ) (h : shellStep s a = some s') :
      SystemStep s (.shell a) s'

theorem step_cases {a : Action τ} (h : step s a = some s') : SystemStep s a s' := by
  unfold step at h
  split at h
  · cases h
  cases a with
  | invoke t e =>
      simp only at h
      split at h
      · cases h
        exact .invoke t e ‹_›
      · cases h
  | caller t ans => exact .caller t ans s' h
  | handler ans => exact .handler ans s' h
  | spurious t =>
      obtain ⟨m, hm, rfl⟩ := Option.map_eq_some_iff.mp h
      obtain ⟨hin, rfl⟩ := Monitor.wake_eq_some.mp hm
      exact .spurious t hin
  | opener =>
      simp only at h
      cases ho : s.opener <;> rw [ho] at h <;> cases h
      · exact .closePeer ho
      · exact .publish ho
  | shell a => exact .shell a s' h

/-- What the open call does to its own position. -/
theorem opener_step {a : Action τ} (h : step s a = some s') :
    s'.opener = s.opener ∨ a = .opener ∧
      (s.opener = .closePeer ∧ s'.opener = .publish ∨ s.opener = .publish ∧ s'.opener = .done) := by
  cases step_cases h with
  | invoke t e => exact .inl rfl
  | caller t ans _ h =>
      cases callStep_cases h with
      | crash _ heq => exact .inl (heq ▸ rfl)
      | move _ hlife => exact .inl hlife.opener
      | setNull _ _ heq => exact .inl (heq ▸ rfl)
      | delete _ _ heq => exact .inl (heq ▸ rfl)
  | handler ans _ h =>
      cases handlerStep_cases h with
      | crash _ heq => exact .inl (heq ▸ rfl)
      | move hlife => exact .inl hlife.opener
      | setNull _ _ heq => exact .inl (heq ▸ rfl)
      | delete _ _ heq => exact .inl (heq ▸ rfl)
  | spurious t => exact .inl rfl
  | closePeer ho => exact .inr ⟨rfl, .inl ⟨ho, rfl⟩⟩
  | publish ho => exact .inr ⟨rfl, .inr ⟨ho, rfl⟩⟩
  | shell a _ h => exact .inl (shellStep_keeps h).opener

/-- The open call, once over, stays over. -/
theorem opener_done_step {a : Action τ} (ho : s.opener = .done) (h : step s a = some s') :
    s'.opener = .done := by
  rcases opener_step h with hsame | ⟨-, ⟨hpc, -⟩ | ⟨hpc, -⟩⟩
  · exact hsame.trans ho
  · rw [ho] at hpc
    cases hpc
  · rw [ho] at hpc
    cases hpc

/-! ## What holds in every run -/

/-- The pointer and the memory behind it go away only behind the handler: once
open is over, a NULL pointer means that the handler is at its own deletion or
has ended, and freed memory that it has ended. -/
structure LifeInv (s : State τ) : Prop where
  unopened : s.opener ≠ .done → s.su_session = false ∧ s.freed = false ∧
    (s.handler = .start ∨ s.handler = .read) ∧ ∀ t, s.calls t ≠ .exit .delete
  null_handler : s.opener = .done → s.su_session = false →
    s.handler = .delete ∨ s.handler = .terminated
  freed_null : s.freed = true → s.su_session = false
  freed_handler : s.freed = true → s.handler = .terminated
  exit_late : ∀ t, s.calls t = .exit .setNull ∨ s.calls t = .exit .delete →
    s.handler = .terminated
  exit_delete : ∀ t, s.calls t = .exit .delete → s.su_session = false
  handler_delete : s.handler = .delete → s.su_session = false

section

omit [DecidableEq τ]

theorem LifeInv.live (hs : LifeInv s) (hbound : s.su_session = true) : Live s := by
  refine ⟨hbound, ?_⟩
  cases hfreed : s.freed with
  | false => rfl
  | true => simp [hs.freed_null hfreed] at hbound

theorem lifeInv_opening (code : Int) : LifeInv (State.opening code : State τ) := by
  constructor <;> simp [State.opening]

theorem lifeInv_published (code : Int) : LifeInv (State.published code : State τ) := by
  constructor <;> simp [State.published, State.opening]

theorem LifeInv.same (hs : LifeInv s) (hsu : s'.su_session = s.su_session)
    (hfreed : s'.freed = s.freed) (hopener : s'.opener = s.opener) (hcalls : s'.calls = s.calls)
    (hhandler : s'.handler = s.handler) : LifeInv s' := by
  constructor <;> simp only [hsu, hfreed, hopener, hcalls, hhandler]
  · exact hs.unopened
  · exact hs.null_handler
  · exact hs.freed_null
  · exact hs.freed_handler
  · exact hs.exit_late
  · exact hs.exit_delete
  · exact hs.handler_delete

theorem LifeInv.crash (hs : LifeInv s) : LifeInv s.crash := hs.same rfl rfl rfl rfl rfl

end

theorem LifeInv.goto {t : τ} {c : Call} (hs : LifeInv s) (hlife : SameLife s s')
    (hhandler : s'.handler = s.handler) (hcalls : s'.calls = Function.update s.calls t c)
    (hdelete : c ≠ .exit .delete) (hnull : c = .exit .setNull → s.handler = .terminated) :
    LifeInv s' := by
  obtain ⟨hsu, hfr, -, hop⟩ := hlife
  have hcall : ∀ u, s'.calls u = s.calls u ∨ s'.calls u = c := by
    intro u
    rw [hcalls]
    by_cases hu : u = t
    · subst hu
      simp
    · simp [hu]
  constructor
  · rw [hop, hsu, hfr, hhandler]
    intro ho
    obtain ⟨h₁, h₂, h₃, h₄⟩ := hs.unopened ho
    refine ⟨h₁, h₂, h₃, fun u => ?_⟩
    rcases hcall u with hu | hu <;> rw [hu]
    · exact h₄ u
    · exact hdelete
  · rw [hop, hsu, hhandler]
    exact hs.null_handler
  · rw [hfr, hsu]
    exact hs.freed_null
  · rw [hfr, hhandler]
    exact hs.freed_handler
  · intro u hu
    rw [hhandler]
    rcases hcall u with h | h <;> rw [h] at hu
    · exact hs.exit_late u hu
    · exact hnull (hu.resolve_right hdelete)
  · intro u hu
    rw [hsu]
    rcases hcall u with h | h <;> rw [h] at hu
    · exact hs.exit_delete u hu
    · exact absurd hu hdelete
  · rw [hhandler, hsu]
    exact hs.handler_delete

theorem lifeInv_caller {t : τ} {ans : Answer τ} (hs : LifeInv s)
    (h : callStep s t ans (s.calls t) = some s') : LifeInv s' := by
  cases callStep_cases h with
  | crash _ heq => exact heq ▸ hs.crash
  | move c hlife hhandler hcalls hdelete hnull => exact hs.goto hlife hhandler hcalls hdelete hnull
  | setNull hpc hbound heq =>
      have hterm := hs.exit_late t (.inl hpc)
      subst heq
      constructor
      · intro ho
        rw [(hs.unopened ho).1] at hbound
        cases hbound
      · exact fun _ _ => .inr hterm
      · exact fun _ => rfl
      · exact fun _ => hterm
      · exact fun _ _ => hterm
      · exact fun _ _ => rfl
      · exact fun _ => rfl
  | delete hpc hfreed heq =>
      have hnull := hs.exit_delete t hpc
      have hterm := hs.exit_late t (.inr hpc)
      subst heq
      constructor
      · intro ho
        exact absurd hpc ((hs.unopened ho).2.2.2 t)
      · exact fun _ _ => .inr hterm
      · exact fun _ => hnull
      · exact fun _ => hterm
      · exact fun _ _ => hterm
      · exact fun _ _ => hnull
      · exact fun _ => hnull

omit [DecidableEq τ] in
/-- The memory outlives the handler. -/
theorem LifeInv.not_freed (hs : LifeInv s) (hrun : s.handler ≠ .terminated) : s.freed = false := by
  cases hf : s.freed with
  | false => rfl
  | true => exact absurd (hs.freed_handler hf) hrun

theorem lifeInv_handler {ans : Answer τ} (hs : LifeInv s)
    (h : handlerStep s ans s.handler = some s') : LifeInv s' := by
  have hrun := not_terminated_of_step h
  have hearly : ∀ t, ¬ (s.calls t = .exit .setNull ∨ s.calls t = .exit .delete) :=
    fun t ht => hrun (hs.exit_late t ht)
  have hfreed := hs.not_freed hrun
  cases handlerStep_cases h with
  | crash _ heq => exact heq ▸ hs.crash
  | move hlife hcalls hbefore hdelete hstart hread =>
      obtain ⟨hsu, hfr, -, hop⟩ := hlife
      constructor
      · rw [hop, hsu, hfr, hcalls]
        intro ho
        obtain ⟨h₁, h₂, h₃, h₄⟩ := hs.unopened ho
        refine ⟨h₁, h₂, ?_, h₄⟩
        rcases h₃ with h₃ | h₃
        · exact .inr (hstart h₃)
        · simp [h₁] at hread
          exact absurd h₃ hread
      · rw [hop, hsu]
        intro ho hnull
        exact absurd (hs.null_handler ho hnull) (by simp [hbefore, hrun])
      · rw [hfr, hfreed]
        simp
      · rw [hfr, hfreed]
        simp
      · rw [hcalls]
        exact fun t ht => absurd ht (hearly t)
      · rw [hcalls]
        exact fun t ht => absurd (.inr ht) (hearly t)
      · exact fun hd => absurd hd hdelete
  | setNull hpc hbound heq =>
      subst heq
      constructor
      · intro ho
        rw [(hs.unopened ho).1] at hbound
        cases hbound
      · exact fun _ _ => .inl rfl
      · exact fun _ => rfl
      · exact fun hf => by simp [State.toHandler, hfreed] at hf
      · exact fun t ht => absurd ht (hearly t)
      · exact fun _ _ => rfl
      · exact fun _ => rfl
  | delete hpc _ heq =>
      have hnull := hs.handler_delete hpc
      subst heq
      constructor
      · intro ho
        have hstart := (hs.unopened ho).2.2.1
        simp [hpc] at hstart
      · exact fun _ _ => .inr rfl
      · exact fun _ => hnull
      · exact fun _ => rfl
      · exact fun _ _ => rfl
      · exact fun t ht => hs.exit_delete t ht
      · exact fun _ => hnull

/-- Every step of every party keeps `LifeInv`. -/
theorem lifeInv_step {a : Action τ} (hs : LifeInv s) (h : step s a = some s') : LifeInv s' := by
  cases step_cases h with
  | invoke t e =>
      exact hs.goto ⟨rfl, rfl, rfl, rfl⟩ rfl rfl (by cases e <;> simp [Entry.call])
        (by cases e <;> simp [Entry.call])
  | caller t ans _ h => exact lifeInv_caller hs h
  | handler ans _ h => exact lifeInv_handler hs h
  | spurious t => exact hs.same rfl rfl rfl rfl rfl
  | closePeer ho =>
      have hunopened := hs.unopened (by simp [ho])
      exact { hs with unopened := fun _ => hunopened, null_handler := by simp }
  | publish ho =>
      obtain ⟨h₁, h₂, h₃, h₄⟩ := hs.unopened (by simp [ho])
      refine ⟨by simp, by simp, by simp [h₂], hs.4, hs.5, fun t ht => absurd ht (h₄ t), ?_⟩
      rcases h₃ with h₃ | h₃ <;> simp [h₃]
  | shell a _ h =>
      have hk := shellStep_keeps h
      exact hs.same hk.su_session hk.freed hk.opener hk.calls hk.handler

/-- A deleted session does not come back. -/
theorem LifeInv.freed_step {a : Action τ} (hs : LifeInv s) (hfreed : s.freed = true)
    (h : step s a = some s') : s'.su_session = false ∧ s'.freed = true := by
  have hnull := hs.freed_null hfreed
  cases step_cases h with
  | invoke | spurious | closePeer => exact ⟨hnull, hfreed⟩
  | caller t ans _ h =>
      cases callStep_cases h with
      | crash _ heq => exact heq ▸ ⟨hnull, hfreed⟩
      | move _ hlife => exact ⟨hlife.su_session.trans hnull, hlife.freed.trans hfreed⟩
      | setNull _ hbound => simp [hnull] at hbound
      | delete _ hlive => simp [hfreed] at hlive
  | handler ans _ h => exact absurd (hs.freed_handler hfreed) (not_terminated_of_step h)
  | publish ho =>
      have hlive := (hs.unopened (by simp [ho])).2.1
      simp [hfreed] at hlive
  | shell a _ h =>
      have hk := shellStep_keeps h
      exact ⟨hk.su_session.trans hnull, hk.freed.trans hfreed⟩

end Susrv.Native
