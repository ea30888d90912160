import Susrv.Base.Transition

/-!
# Simulations between transition systems

A run is observed through the events its steps emit.  A system refines another
one if every step of the first is matched by steps of the second whose labels
are the events of that step; the events of a whole run are then a run of the
second system.
-/

namespace Susrv.Base.Transition

variable {σ α ε ρ : Type*} {step : σ → α → Option σ} {emit : σ → α → σ → List ε}
  {astep : ρ → ε → Option ρ}

theorem run_append (s : σ) (as bs : List α) :
    run step s (as ++ bs) = (run step s as).bind fun s' => run step s' bs := by
  induction as generalizing s with
  | nil => rfl
  | cons a as ih =>
      rw [List.cons_append, run, run, Option.bind_assoc]
      congr 1
      funext u
      exact ih u

/-- A run of the whole list passes through the state that its first part leads to. -/
theorem run_prefix {s s' : σ} {as bs : List α} (h : run step s (as ++ bs) = some s') :
    ∃ u, run step s as = some u ∧ run step u bs = some s' := by
  rw [run_append] at h
  exact Option.bind_eq_some_iff.mp h

/-- What the steps of a run show, one after the other. -/
def trace (step : σ → α → Option σ) (emit : σ → α → σ → List ε) : σ → List α → List ε
  | _, [] => []
  | s, a :: as =>
      match step s a with
      | some s' => emit s a s' ++ trace step emit s' as
      | none => []

/-- The invariant rule for a guarded run and what its actions put in. -/
theorem runOk_invariant {β : Type*} {put : α → List β} {ok : σ → α → Prop}
    [∀ s a, Decidable (ok s a)] {I : List β → σ → Prop}
    (hstep : ∀ input s a s', I input s → ok s a → step s a = some s' → I (input ++ put a) s')
    {input : List β} {s s' : σ} (hs : I input s) {as : List α}
    (hrun : runOk step ok s as = some s') : I (input ++ as.flatMap put) s' := by
  induction as generalizing s input with
  | nil =>
      cases hrun
      simpa using hs
  | cons a as ih =>
      rw [runOk] at hrun
      split at hrun
      · rename_i hok
        obtain ⟨u, hu, hrest⟩ := Option.bind_eq_some_iff.mp hrun
        rw [List.flatMap_cons, ← List.append_assoc]
        exact ih (hstep _ _ _ _ hs hok hu) hrest
      · cases hrun

/-- The invariant rule for a guarded run and the events that it shows. -/
theorem runOk_trace_invariant {ok : σ → α → Prop} [∀ s a, Decidable (ok s a)]
    {I : List ε → σ → Prop}
    (hstep : ∀ log s a s', I log s → ok s a → step s a = some s' → I (log ++ emit s a s') s')
    {log : List ε} {s s' : σ} (hs : I log s) {as : List α}
    (hrun : runOk step ok s as = some s') : I (log ++ trace step emit s as) s' := by
  induction as generalizing s log with
  | nil =>
      cases hrun
      simpa [trace] using hs
  | cons a as ih =>
      rw [runOk] at hrun
      split at hrun
      · rename_i hok
        obtain ⟨u, hu, hrest⟩ := Option.bind_eq_some_iff.mp hrun
        rw [trace, hu, ← List.append_assoc]
        exact ih (hstep _ _ _ _ hs hok hu) hrest
      · cases hrun

theorem runOk_true (s : σ) (as : List α) :
    runOk step (fun _ _ => True) s as = run step s as := by
  induction as generalizing s with
  | nil => rfl
  | cons a as ih =>
      rw [runOk, if_pos trivial, run]
      congr 1
      funext u
      exact ih u

/-- The invariant rule for a state and the events that led to it. -/
theorem trace_invariant {I : List ε → σ → Prop}
    (hstep : ∀ log s a s', I log s → step s a = some s' → I (log ++ emit s a s') s')
    {log : List ε} {s s' : σ} (hs : I log s) {as : List α} (hrun : run step s as = some s') :
    I (log ++ trace step emit s as) s' := by
  rw [← runOk_true] at hrun
  exact runOk_trace_invariant (fun log s a s' hlog _ hs' => hstep log s a s' hlog hs') hs hrun

/-- The rule for reaching a goal: where it is not met there is an allowed step that comes
nearer to it. -/
theorem exists_runOk_of_decreasing {ok : σ → α → Prop} [∀ s a, Decidable (ok s a)]
    {I Goal : σ → Prop} (μ : σ → Nat)
    (hstep : ∀ s, I s → ¬ Goal s → ∃ a s', ok s a ∧ step s a = some s' ∧ I s' ∧ μ s' < μ s)
    {s : σ} (hs : I s) : ∃ as s', runOk step ok s as = some s' ∧ I s' ∧ Goal s' := by
  induction hn : μ s using Nat.strongRecOn generalizing s with
  | _ n ih =>
      by_cases hgoal : Goal s
      · exact ⟨[], s, rfl, hs, hgoal⟩
      · obtain ⟨a, u, hok, hu, hinv, hlt⟩ := hstep s hs hgoal
        obtain ⟨as, s', hrun, hs', hend⟩ := ih (μ u) (hn ▸ hlt) hinv rfl
        refine ⟨a :: as, s', ?_, hs', hend⟩
        rw [runOk, if_pos hok, hu]
        exact hrun

/-- Every step from a state with an abstract counterpart is matched by the events it emits. -/
def Simulates (step : σ → α → Option σ) (emit : σ → α → σ → List ε)
    (astep : ρ → ε → Option ρ) (R : σ → ρ → Prop) : Prop :=
  ∀ s a s' r, R s r → step s a = some s' → ∃ r', run astep r (emit s a s') = some r' ∧ R s' r'

/-- The events of an allowed run are a run of the abstract system, if the allowed steps
keep the relation. -/
theorem simulates_runOk {ok : σ → α → Prop} [∀ s a, Decidable (ok s a)] {R : σ → ρ → Prop}
    (h : ∀ s a s' r, R s r → ok s a → step s a = some s' →
      ∃ r', Transition.run astep r (emit s a s') = some r' ∧ R s' r')
    {s s' : σ} {r : ρ} (hs : R s r) {as : List α} (hrun : runOk step ok s as = some s') :
    ∃ r', Transition.run astep r (trace step emit s as) = some r' ∧ R s' r' := by
  let Matched (log : List ε) (u : σ) : Prop :=
    ∃ r', Transition.run astep r log = some r' ∧ R u r'
  have hstep : ∀ log u a u', Matched log u → ok u a → step u a = some u' →
      Matched (log ++ emit u a u') u' := by
    rintro log u a u' ⟨q, hlog, hq⟩ hok hu
    obtain ⟨q', hemit, hq'⟩ := h u a u' q hq hok hu
    refine ⟨q', ?_, hq'⟩
    rw [run_append, hlog, Option.bind_some, hemit]
  have hinit : Matched [] s := ⟨r, rfl, hs⟩
  exact runOk_trace_invariant hstep hinit hrun

/-- The events of a run are a run of the abstract system. -/
theorem Simulates.run {R : σ → ρ → Prop} (h : Simulates step emit astep R) {s s' : σ} {r : ρ}
    (hs : R s r) {as : List α} (hrun : run step s as = some s') :
    ∃ r', Transition.run astep r (trace step emit s as) = some r' ∧ R s' r' := by
  rw [← runOk_true] at hrun
  exact simulates_runOk (fun s a s' r hr _ hs' => h s a s' r hr hs') hs hrun

end Susrv.Base.Transition
