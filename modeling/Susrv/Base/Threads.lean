import Mathlib.Logic.Function.Basic
import Susrv.Base.Transition

/-!
# Threads of atomic operations

A call is a tree of operations on a shared state.  Threads make calls, one
operation is one step, and an input of the environment decides what an operation
leaves open.  `Outline` annotates a call with assertions that hold between its
steps whatever the other threads do (the rely condition); `Logic.sound` is the rule
that takes outlines of all calls to an invariant of all runs.
-/

namespace Susrv.Base.Threads

open Transition

/-! ## Calls -/

/-- Operations `ω` with results `ρ`, exceptions `ε`. -/
inductive Code (ω : Type) (ρ : ω → Type) (ε α : Type)
  | pure (a : α)
  | throw (e : ε)
  | op (o : ω) (next : ρ o → Code ω ρ ε α)

variable {ω : Type} {ρ : ω → Type} {ε α β : Type}

namespace Code

def bind : Code ω ρ ε α → (α → Code ω ρ ε β) → Code ω ρ ε β
  | .pure a, f => f a
  | .throw e, _ => .throw e
  | .op o next, f => .op o fun r => (next r).bind f

def tryCatch : Code ω ρ ε α → (ε → Code ω ρ ε α) → Code ω ρ ε α
  | .pure a, _ => .pure a
  | .throw e, f => f e
  | .op o next, f => .op o fun r => (next r).tryCatch f

instance : Monad (Code ω ρ ε) where
  pure := .pure
  bind := bind

instance : MonadExcept ε (Code ω ρ ε) where
  throw := .throw
  tryCatch := tryCatch

def perform (o : ω) : Code ω ρ ε (ρ o) := .op o .pure

end Code

/-- A call by itself: what its operations have answered, and how it has ended. -/
inductive Code.Yields : Code ω ρ ε α → List ((o : ω) × ρ o) → Except ε α → Prop
  | pure (a : α) : Yields (.pure a) [] (.ok a)
  | throw (e : ε) : Yields (.throw e) [] (.error e)
  | op {o : ω} {next : ρ o → Code ω ρ ε α} {r : ρ o} {answers : List ((o : ω) × ρ o)}
      {result : Except ε α} (h : Yields (next r) answers result) :
      Yields (.op o next) (⟨o, r⟩ :: answers) result

namespace Code.Yields

variable {code : Code ω ρ ε α} {f : α → Code ω ρ ε β} {answers : List ((o : ω) × ρ o)}

theorem pure_iff {a : α} {result : Except ε α} :
    Yields (Pure.pure a : Code ω ρ ε α) answers result ↔ answers = [] ∧ result = .ok a := by
  constructor
  · intro h
    cases h
    exact ⟨rfl, rfl⟩
  · rintro ⟨rfl, rfl⟩
    exact .pure a

/-- One operation, then the rest. -/
theorem perform_bind {o : ω} {f : ρ o → Code ω ρ ε β} {result : Except ε β}
    (h : Yields (Code.perform o >>= f) answers result) :
    ∃ r rest, answers = ⟨o, r⟩ :: rest ∧ Yields (f r) rest result := by
  cases h with
  | op h => exact ⟨_, _, rfl, h⟩

theorem ite {c : Prop} {_ : Decidable c} {code code' : Code ω ρ ε α} {result : Except ε α}
    (h : Yields (if c then code else code') answers result) :
    (c ∧ Yields code answers result) ∨ (¬ c ∧ Yields code' answers result) := by
  by_cases hc : c
  · rw [if_pos hc] at h
    exact .inl ⟨hc, h⟩
  · rw [if_neg hc] at h
    exact .inr ⟨hc, h⟩

/-- A call in sequence ends early by an exception, or goes on. -/
theorem bind {result : Except ε β} (h : Yields (code >>= f) answers result) :
    (∃ e, Yields code answers (.error e) ∧ result = .error e) ∨
      ∃ a first rest, answers = first ++ rest ∧ Yields code first (.ok a) ∧
        Yields (f a) rest result := by
  change Yields (code.bind f) answers result at h
  induction code generalizing answers with
  | pure a => exact .inr ⟨a, [], answers, rfl, .pure a, h⟩
  | throw e =>
      cases h
      exact .inl ⟨e, .throw e, rfl⟩
  | op o next ih =>
      cases h with
      | op h =>
          rcases ih _ h with ⟨e, hcode, hresult⟩ | ⟨a, first, rest, rfl, hcode, hrest⟩
          · exact .inl ⟨e, .op hcode, hresult⟩
          · exact .inr ⟨a, _ :: first, rest, rfl, .op hcode, hrest⟩

end Code.Yields

/-! ## Runs -/

/-- How calls and their operations act on the shared state; `env` are the moves that
no thread makes. -/
structure System (τ κ ω : Type) (ρ : ω → Type) (ε α ι η σ : Type) where
  code : κ → Code ω ρ ε α
  enter : τ → κ → σ → σ
  act : τ → (o : ω) → σ → ι → Option (σ × ρ o)
  leave : τ → κ → Except ε α → σ → σ
  env : η → σ → Option σ

/-- The shared state, and for each thread the call it is in with what is left of it. -/
structure Pool (τ κ ω : Type) (ρ : ω → Type) (ε α σ : Type) where
  shared : σ
  threads : τ → Option (κ × Code ω ρ ε α)

inductive Action (τ κ ι η : Type)
  | start (t : τ) (call : κ)
  | run (t : τ) (i : ι)
  | env (e : η)

variable {τ κ ι η σ : Type}

def Pool.init (s : σ) : Pool τ κ ω ρ ε α σ := ⟨s, fun _ => none⟩

variable (S : System τ κ ω ρ ε α ι η σ)

def System.step [DecidableEq τ] (p : Pool τ κ ω ρ ε α σ) : Action τ κ ι η → Option (Pool τ κ ω ρ ε α σ)
  | .start t call =>
      match p.threads t with
      | some _ => none
      | none => some ⟨S.enter t call p.shared,
          Function.update p.threads t (some (call, S.code call))⟩
  | .run t i =>
      match p.threads t with
      | none => none
      | some (call, .pure a) =>
          some ⟨S.leave t call (.ok a) p.shared, Function.update p.threads t none⟩
      | some (call, .throw e) =>
          some ⟨S.leave t call (.error e) p.shared, Function.update p.threads t none⟩
      | some (call, .op o next) =>
          (S.act t o p.shared i).map fun r =>
            ⟨r.1, Function.update p.threads t (some (call, next r.2))⟩
  | .env e => (S.env e p.shared).map fun s => { p with shared := s }

/-- The operations that are performed meet `ok`. -/
def Guard (ok : τ → ω → σ → Prop) (p : Pool τ κ ω ρ ε α σ) : Action τ κ ι η → Prop
  | .run t _ =>
      match p.threads t with
      | some (_, .op o _) => ok t o p.shared
      | _ => True
  | _ => True

theorem guard_of_forall {ok : τ → ω → σ → Prop} (h : ∀ t o s, ok t o s)
    (p : Pool τ κ ω ρ ε α σ) (a : Action τ κ ι η) : Guard ok p a := by
  cases a with
  | start t call => trivial
  | env e => trivial
  | run t i =>
      simp only [Guard]
      split
      · exact h t _ _
      · trivial

instance (ok : τ → ω → σ → Prop) [∀ t o s, Decidable (ok t o s)] (p : Pool τ κ ω ρ ε α σ) :
    DecidablePred (Guard (ι := ι) (η := η) ok p)
  | .start _ _ => isTrue trivial
  | .env _ => isTrue trivial
  | .run t _ =>
      match h : p.threads t with
      | none => isTrue (by simp [Guard, h])
      | some (_, .pure _) => isTrue (by simp [Guard, h])
      | some (_, .throw _) => isTrue (by simp [Guard, h])
      | some (_, .op o _) => decidable_of_iff (ok t o p.shared) (by simp [Guard, h])

/-! ## Assertions between the steps -/

/-- An invariant of the shared state, what each thread relies on of the others, and
what holds when a call ends; `inv_leave` may use the last. -/
structure Logic where
  ok : τ → ω → σ → Prop
  inv : σ → Prop
  rely : τ → σ → σ → Prop
  post : τ → κ → Except ε α → σ → Prop
  inv_enter : ∀ {t call s}, inv s → inv (S.enter t call s)
  inv_act : ∀ {t o s i s' r}, inv s → ok t o s → S.act t o s i = some (s', r) → inv s'
  inv_leave : ∀ {t call r s}, inv s → post t call r s → inv (S.leave t call r s)
  inv_env : ∀ {e s s'}, inv s → S.env e s = some s' → inv s'
  rely_enter : ∀ {t u call s}, inv s → u ≠ t → rely t s (S.enter u call s)
  rely_act : ∀ {t u o s i s' r}, inv s → u ≠ t → ok u o s → S.act u o s i = some (s', r) →
    rely t s s'
  rely_leave : ∀ {t u call r s}, inv s → u ≠ t → rely t s (S.leave u call r s)
  rely_env : ∀ {t e s s'}, inv s → S.env e s = some s' → rely t s s'

variable {S} (L : Logic S) {t : τ}

/-- The other threads keep the assertion. -/
def Logic.Stable (t : τ) (A : σ → Prop) : Prop :=
  ∀ s s', A s → L.rely t s s' → A s'

/-- From `A` on the call can be annotated with stable assertions and ends in `Q`. -/
def Outline {γ : Type} (t : τ) (Q : Except ε γ → σ → Prop) : Code ω ρ ε γ → (σ → Prop) → Prop
  | .pure a, A => L.Stable t A ∧ ∀ s, A s → Q (.ok a) s
  | .throw e, A => L.Stable t A ∧ ∀ s, A s → Q (.error e) s
  | .op o next, A => L.Stable t A ∧ ∃ B : ρ o → σ → Prop,
      (∀ s i s' r, L.inv s → L.ok t o s → A s → S.act t o s i = some (s', r) → B r s') ∧
        ∀ r, Outline t Q (next r) (B r)

/-- The two ends of a call. -/
def Ends {γ : Type} (C : γ → σ → Prop) (E : ε → σ → Prop) : Except ε γ → σ → Prop
  | .ok a => C a
  | .error e => E e

namespace Outline

variable {γ δ : Type} {L} {Q Q' : Except ε γ → σ → Prop} {R : Except ε δ → σ → Prop}
  {A B : σ → Prop} {code : Code ω ρ ε γ}

theorem stable (h : Outline L t Q code A) : L.Stable t A := by
  cases code <;> exact h.1

theorem pre (h : Outline L t Q code A) (hB : L.Stable t B) (himp : ∀ s, B s → A s) :
    Outline L t Q code B := by
  cases code with
  | pure a => exact ⟨hB, fun s hs => h.2 s (himp s hs)⟩
  | throw e => exact ⟨hB, fun s hs => h.2 s (himp s hs)⟩
  | op o next =>
      obtain ⟨-, C, hact, hnext⟩ := h
      exact ⟨hB, C, fun s i s' r hI hok hs => hact s i s' r hI hok (himp s hs), hnext⟩

theorem post (h : Outline L t Q code A) (himp : ∀ r s, Q r s → Q' r s) :
    Outline L t Q' code A := by
  induction code generalizing A with
  | pure a => exact ⟨h.1, fun s hs => himp _ s (h.2 s hs)⟩
  | throw e => exact ⟨h.1, fun s hs => himp _ s (h.2 s hs)⟩
  | op o next ih =>
      obtain ⟨hA, C, hact, hnext⟩ := h
      exact ⟨hA, C, hact, fun r => ih r (hnext r)⟩

theorem bind {f : γ → Code ω ρ ε δ} {C : γ → σ → Prop}
    (h : Outline L t (Ends C fun e => R (.error e)) code A)
    (hf : ∀ a, Outline L t R (f a) (C a)) : Outline L t R (code >>= f) A := by
  show Outline L t R (code.bind f) A
  induction code generalizing A with
  | pure a => exact (hf a).pre h.1 h.2
  | throw e => exact h
  | op o next ih =>
      obtain ⟨hA, D, hact, hnext⟩ := h
      exact ⟨hA, D, hact, fun r => ih r (hnext r)⟩

/-- An assertion that the call's own operations keep holds to its end. -/
theorem always (hA : L.Stable t A)
    (hown : ∀ o s i s' r, L.inv s → L.ok t o s → A s → S.act t o s i = some (s', r) → A s') :
    Outline L t (fun _ => A) code A := by
  induction code with
  | pure a => exact ⟨hA, fun _ hs => hs⟩
  | throw e => exact ⟨hA, fun _ hs => hs⟩
  | op o next ih => exact ⟨hA, fun _ => A, fun s i s' r => hown o s i s' r, ih⟩

end Outline

/-! ## Soundness -/

variable [DecidableEq τ]

/-- Every call has an outline from where it is entered. -/
def Logic.Outlined (L : Logic S) : Prop :=
  ∀ t call, ∃ A : σ → Prop, (∀ s, L.inv s → A (S.enter t call s)) ∧
    Outline L t (L.post t call) (S.code call) A

/-- Each thread is where an outline of its call says. -/
def Logic.Placed (L : Logic S) (p : Pool τ κ ω ρ ε α σ) : Prop :=
  ∀ t call code, p.threads t = some (call, code) →
    ∃ A : σ → Prop, A p.shared ∧ Outline L t (L.post t call) code A

/-- The other threads stay placed under a step of `t`. -/
theorem Logic.Placed.update {p : Pool τ κ ω ρ ε α σ} (h : L.Placed p) {s : σ}
    {thread : Option (κ × Code ω ρ ε α)} (hrely : ∀ u, u ≠ t → L.rely u p.shared s)
    (hthread : ∀ call code, thread = some (call, code) →
      ∃ A : σ → Prop, A s ∧ Outline L t (L.post t call) code A) :
    L.Placed ⟨s, Function.update p.threads t thread⟩ := by
  intro u call code hu
  dsimp only at hu
  rw [Function.update_apply] at hu
  split at hu
  · rename_i heq
    subst heq
    exact hthread call code hu
  · rename_i hne
    obtain ⟨A, hA, hout⟩ := h u call code hu
    exact ⟨A, hout.stable _ _ hA (hrely u hne), hout⟩

theorem Logic.placed_step (hcalls : L.Outlined) {p p' : Pool τ κ ω ρ ε α σ} {a : Action τ κ ι η}
    (hinv : L.inv p.shared) (hplaced : L.Placed p) (hok : Guard L.ok p a)
    (h : S.step p a = some p') : L.inv p'.shared ∧ L.Placed p' := by
  cases a with
  | start t call =>
      simp only [System.step] at h
      split at h
      · cases h
      · rw [← Option.some.inj h]
        obtain ⟨A, hA, hout⟩ := hcalls t call
        refine ⟨L.inv_enter hinv, hplaced.update L (fun u hu => L.rely_enter hinv hu.symm) ?_⟩
        rintro _ _ ⟨⟩
        exact ⟨A, hA _ hinv, hout⟩
  | run t i =>
      simp only [System.step] at h
      simp only [Guard] at hok
      split at h
      · cases h
      · rename_i call a hcall
        rw [← Option.some.inj h]
        obtain ⟨A, hA, -, hpost⟩ := hplaced t _ _ hcall
        refine ⟨L.inv_leave hinv (hpost _ hA),
          hplaced.update L (fun u hu => L.rely_leave hinv hu.symm) ?_⟩
        rintro _ _ ⟨⟩
      · rename_i call e hcall
        rw [← Option.some.inj h]
        obtain ⟨A, hA, -, hpost⟩ := hplaced t _ _ hcall
        refine ⟨L.inv_leave hinv (hpost _ hA),
          hplaced.update L (fun u hu => L.rely_leave hinv hu.symm) ?_⟩
        rintro _ _ ⟨⟩
      · rename_i call o next hcall
        rw [hcall] at hok
        obtain ⟨⟨s, r⟩, hact, heq⟩ := Option.map_eq_some_iff.mp h
        subst heq
        obtain ⟨A, hA, -, B, hB, hnext⟩ := hplaced t _ _ hcall
        refine ⟨L.inv_act hinv hok hact,
          hplaced.update L (fun u hu => L.rely_act hinv hu.symm hok hact) ?_⟩
        rintro _ _ ⟨⟩
        exact ⟨B r, hB _ _ _ _ hinv hok hA hact, hnext r⟩
  | env e =>
      obtain ⟨s, hs, heq⟩ := Option.map_eq_some_iff.mp h
      subst heq
      refine ⟨L.inv_env hinv hs, fun t call code ht => ?_⟩
      obtain ⟨A, hA, hout⟩ := hplaced t call code ht
      exact ⟨A, hout.stable _ _ hA (L.rely_env hinv hs), hout⟩

/-- The invariant holds in every state that guarded steps reach from an idle pool. -/
theorem Logic.sound (hcalls : L.Outlined) {s : σ} (hinit : L.inv s) {p : Pool τ κ ω ρ ε α σ}
    (h : Reach S.step (Guard L.ok) (.init s) p) : L.inv p.shared := by
  have hboth : L.inv p.shared ∧ L.Placed p := by
    refine h.invariant ⟨hinit, ?_⟩ fun p a p' hp hok hstep =>
      L.placed_step hcalls hp.1 hp.2 hok hstep
    intro t call code ht
    cases ht
  exact hboth.1

end Susrv.Base.Threads
