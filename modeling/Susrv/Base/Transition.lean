import Mathlib.Logic.Basic
import Mathlib.Data.List.Basic

/-!
# Transition systems with guarded runs

A system is a partial step function `step : σ → α → Option σ`, the action
naming the component that moves and every choice of its environment, so that a
run is a list of actions.  `Reach step ok s₀` are the states reached by steps
that all meet the guard `ok`; `Along` and `Guarded` speak about one run, and
`along_iff_guarded` is the rule for a guard that is exactly what a property
needs.
-/

namespace Susrv.Base.Transition

variable {σ α : Type*} {step : σ → α → Option σ}

def run (step : σ → α → Option σ) : σ → List α → Option σ
  | s, [] => some s
  | s, a :: as => (step s a).bind fun s' => run step s' as

/-- The states reached from `s₀` by steps that all meet `ok`. -/
inductive Reach (step : σ → α → Option σ) (ok : σ → α → Prop) (s₀ : σ) : σ → Prop
  | refl : Reach step ok s₀ s₀
  | tail {s s' : σ} (a : α) : Reach step ok s₀ s → ok s a → step s a = some s' →
      Reach step ok s₀ s'

namespace Reach

variable {ok ok' : σ → α → Prop} {s₀ s : σ}

/-- The invariant rule. -/
theorem invariant {I : σ → Prop} (h : Reach step ok s₀ s) (hinit : I s₀)
    (hstep : ∀ s a s', I s → ok s a → step s a = some s' → I s') : I s := by
  induction h with
  | refl => exact hinit
  | tail a _ hok hs ih => exact hstep _ a _ ih hok hs

end Reach

/-- `run`, stopping where a step does not meet the guard. -/
def runOk (step : σ → α → Option σ) (ok : σ → α → Prop) [∀ s a, Decidable (ok s a)] :
    σ → List α → Option σ
  | s, [] => some s
  | s, a :: as => if ok s a then (step s a).bind fun s' => runOk step ok s' as else none

/-- A run that meets a guard meets every weaker one. -/
theorem runOk_mono {ok ok' : σ → α → Prop} [∀ s a, Decidable (ok s a)]
    [∀ s a, Decidable (ok' s a)] (h : ∀ s a, ok s a → ok' s a) {s s' : σ} {as : List α}
    (hrun : runOk step ok s as = some s') : runOk step ok' s as = some s' := by
  induction as generalizing s with
  | nil => exact hrun
  | cons a as ih =>
      rw [runOk] at hrun ⊢
      split at hrun
      · rename_i hok
        obtain ⟨u, hu, hrest⟩ := Option.bind_eq_some_iff.mp hrun
        rw [if_pos (h s a hok), hu]
        exact ih hrest
      · cases hrun

theorem Reach.of_runOk {ok : σ → α → Prop} [∀ s a, Decidable (ok s a)] {s₀ s s' : σ}
    (h : Reach step ok s₀ s) {as : List α} (hrun : runOk step ok s as = some s') :
    Reach step ok s₀ s' := by
  induction as generalizing s with
  | nil =>
      cases hrun
      exact h
  | cons a as ih =>
      rw [runOk] at hrun
      split at hrun
      · rename_i hok
        obtain ⟨u, hu, hrest⟩ := Option.bind_eq_some_iff.mp hrun
        exact ih (.tail a h hok hu) hrest
      · cases hrun

/-- A run whose guard holds of every step. -/
theorem Reach.of_run {ok : σ → α → Prop} (hok : ∀ s a, ok s a) {s₀ s s' : σ}
    (h : Reach step ok s₀ s) {as : List α} (hrun : run step s as = some s') :
    Reach step ok s₀ s' := by
  induction as generalizing s with
  | nil =>
      cases hrun
      exact h
  | cons a as ih =>
      obtain ⟨u, hu, hrest⟩ := Option.bind_eq_some_iff.mp hrun
      exact ih (.tail a h (hok s a) hu) hrest

/-- What one run shows of its last state is reached. -/
theorem Reach.exists_of_runOk {β : Type*} {ok : σ → α → Prop} [∀ s a, Decidable (ok s a)] {s₀ : σ}
    {as : List α} {f : σ → β} {b : β} (hrun : (runOk step ok s₀ as).map f = some b) :
    ∃ s, Reach step ok s₀ s ∧ f s = b := by
  obtain ⟨s, hs, hb⟩ := Option.map_eq_some_iff.mp hrun
  exact ⟨s, .of_runOk .refl hs, hb⟩

/-! ## Logs -/

/-- What the steps of a run emit, one after the other. -/
def emitted {ε : Type*} (step : σ → α → Option σ) (emit : σ → σ → List ε) :
    σ → List α → List ε
  | _, [] => []
  | s, a :: as =>
      match step s a with
      | some s' => emit s s' ++ emitted step emit s' as
      | none => []

/-- The invariant rule for a state and the log that led to it. -/
theorem emitted_invariant {ε : Type*} {emit : σ → σ → List ε} {I : List ε → σ → Prop}
    (hstep : ∀ log s a s', I log s → step s a = some s' → I (log ++ emit s s') s')
    {log : List ε} {s s' : σ} (hs : I log s) {as : List α} (hrun : run step s as = some s') :
    I (log ++ emitted step emit s as) s' := by
  induction as generalizing s log with
  | nil =>
      cases hrun
      simpa [emitted] using hs
  | cons a as ih =>
      obtain ⟨u, hu, hrest⟩ := Option.bind_eq_some_iff.mp hrun
      rw [emitted, hu, ← List.append_assoc]
      exact ih (hstep _ _ _ _ hs hu) hrest

/-! ## One run -/

/-- Every state of the run has the property. -/
def Along (step : σ → α → Option σ) (P : σ → Prop) : σ → List α → Prop
  | s, [] => P s
  | s, a :: as => P s ∧ ∀ s', step s a = some s' → Along step P s' as

/-- Every step of the run meets the guard. -/
def Guarded (step : σ → α → Option σ) (ok : σ → α → Prop) : σ → List α → Prop
  | _, [] => True
  | s, a :: as => ∀ s', step s a = some s' → ok s a ∧ Guarded step ok s' as

theorem Along.head {P : σ → Prop} {s : σ} {as : List α} (h : Along step P s as) : P s := by
  cases as with
  | nil => exact h
  | cons a as => exact h.1

theorem Along.last {P : σ → Prop} {s s' : σ} {as : List α} (h : Along step P s as)
    (hrun : run step s as = some s') : P s' := by
  induction as generalizing s with
  | nil =>
      cases hrun
      exact h
  | cons a as ih =>
      obtain ⟨u, hu, hrest⟩ := Option.bind_eq_some_iff.mp hrun
      exact ih (h.2 u hu) hrest

/-- A guard that holds of the actions of a run, wherever they are taken. -/
theorem Guarded.of_forall {ok : σ → α → Prop} {s : σ} {as : List α}
    (h : ∀ a ∈ as, ∀ s, ok s a) : Guarded step ok s as := by
  induction as generalizing s with
  | nil => exact trivial
  | cons a as ih =>
      intro s' _
      exact ⟨h a (by simp) s, ih fun b hb => h b (by simp [hb])⟩

/-- Two guards that agree under an invariant of all steps select the same runs. -/
theorem guarded_iff_guarded {ok ok' : σ → α → Prop} {I : σ → Prop}
    (hstep : ∀ s a s', I s → step s a = some s' → I s')
    (hiff : ∀ s a s', I s → step s a = some s' → (ok s a ↔ ok' s a))
    {s : σ} (hs : I s) (as : List α) :
    Guarded step ok s as ↔ Guarded step ok' s as := by
  induction as generalizing s with
  | nil => exact Iff.rfl
  | cons a as ih =>
      constructor <;> intro h s' hs' <;> obtain ⟨hok, hrest⟩ := h s' hs'
      · exact ⟨(hiff s a s' hs hs').mp hok, (ih (hstep s a s' hs hs')).mp hrest⟩
      · exact ⟨(hiff s a s' hs hs').mpr hok, (ih (hstep s a s' hs hs')).mpr hrest⟩

/-- If the guard keeps an invariant that implies the property, and a step that
misses the guard ends outside the property, then a run has the property in all
its states exactly when all its steps meet the guard. -/
theorem along_iff_guarded {ok : σ → α → Prop} {I P : σ → Prop} (himp : ∀ s, I s → P s)
    (hstep : ∀ s a s', I s → ok s a → step s a = some s' → I s')
    (hmiss : ∀ s a s', I s → ¬ ok s a → step s a = some s' → ¬ P s')
    {s : σ} (hs : I s) (as : List α) :
    Along step P s as ↔ Guarded step ok s as := by
  induction as generalizing s with
  | nil => exact ⟨fun _ => trivial, fun _ => himp s hs⟩
  | cons a as ih =>
      constructor
      · intro h s' hs'
        have hok : ok s a := by
          by_contra hno
          exact hmiss s a s' hs hno hs' (h.2 s' hs').head
        exact ⟨hok, (ih (hstep s a s' hs hok hs')).mp (h.2 s' hs')⟩
      · intro h
        refine ⟨himp s hs, fun s' hs' => ?_⟩
        obtain ⟨hok, hrest⟩ := h s' hs'
        exact (ih (hstep s a s' hs hok hs')).mpr hrest

end Susrv.Base.Transition
