import Mathlib.Data.List.Basic

/-!
# Calls that may fork

A call is a function from the state of the process that makes it to the
outcomes of all processes that come out of it: each returns from the call or
ends inside it.  Every process has its own copy of the state.
-/

namespace Susrv.Base

variable {ε σ α β : Type}

inductive Outcome (ε σ α : Type)
  | returned (a : α) (s : σ)
  | ended (e : ε) (s : σ)
  deriving DecidableEq

/-- The process as the outcome leaves it. -/
def Outcome.process : Outcome ε σ α → σ
  | .returned _ s => s
  | .ended _ s => s

@[simp] theorem Outcome.process_returned (a : α) (s : σ) :
    (.returned a s : Outcome ε σ α).process = s := rfl

@[simp] theorem Outcome.process_ended (e : ε) (s : σ) :
    (.ended e s : Outcome ε σ α).process = s := rfl

def Proc (ε σ α : Type) := σ → List (Outcome ε σ α)

/-- A process that has returned goes on. -/
def Outcome.andThen (f : α → Proc ε σ β) : Outcome ε σ α → List (Outcome ε σ β)
  | .returned a s => f a s
  | .ended e s => [.ended e s]

@[simp] theorem Outcome.andThen_returned (f : α → Proc ε σ β) (a : α) (s : σ) :
    (.returned a s : Outcome ε σ α).andThen f = f a s := rfl

@[simp] theorem Outcome.andThen_ended (f : α → Proc ε σ β) (e : ε) (s : σ) :
    (.ended e s : Outcome ε σ α).andThen f = [.ended e s] := rfl

namespace Proc

instance : Monad (Proc ε σ) where
  pure a := fun s => [.returned a s]
  bind m f := fun s => (m s).flatMap (Outcome.andThen f)

def stop (e : ε) : Proc ε σ α := fun s => [.ended e s]

def get : Proc ε σ σ := fun s => [.returned s s]

def modify (f : σ → σ) : Proc ε σ Unit := fun s => [.returned () (f s)]

/-- The calling process goes on with `true`, its copy with `false`. -/
def fork (child : σ → σ) : Proc ε σ Bool :=
  fun s => [.returned true s, .returned false (child s)]

variable {m : Proc ε σ α} {f : α → Proc ε σ β} {s s' s'' : σ} {a b : α} {e : ε}

@[simp] theorem pure_apply : (pure a : Proc ε σ α) s = [.returned a s] := rfl

@[simp] theorem stop_apply : (stop e : Proc ε σ α) s = [.ended e s] := rfl

theorem bind_apply : (m >>= f) s = (m s).flatMap (Outcome.andThen f) := rfl

@[simp] theorem get_bind {f : σ → Proc ε σ β} : (get >>= f) s = f s s := by
  simp [bind_apply, get]

@[simp] theorem modify_bind {g : σ → σ} {f : Unit → Proc ε σ β} :
    (modify g >>= f) s = f () (g s) := by
  simp [bind_apply, modify]

@[simp] theorem modify_apply {g : σ → σ} :
    (modify g : Proc ε σ Unit) s = [.returned () (g s)] := rfl

@[simp] theorem pure_bind_apply : ((pure a : Proc ε σ α) >>= f) s = f a s := by
  simp [bind_apply]

@[simp] theorem stop_bind : ((stop e : Proc ε σ α) >>= f) s = [.ended e s] := by
  simp [bind_apply]

theorem andThen_assoc {γ : Type} (f : α → Proc ε σ β) (g : β → Proc ε σ γ) (o : Outcome ε σ α) :
    (o.andThen f).flatMap (Outcome.andThen g) = o.andThen fun a => f a >>= g := by
  cases o with
  | returned a s => rfl
  | ended e s => simp

theorem andThen_pure (o : Outcome ε σ α) :
    o.andThen (fun a => (pure a : Proc ε σ α)) = [o] := by
  cases o <;> rfl

instance : LawfulMonad (Proc ε σ) := .mk' _
  (fun m => by
    funext s
    change (m s).flatMap (Outcome.andThen fun a => (pure a : Proc ε σ _)) = m s
    rw [funext andThen_pure, List.flatMap_singleton'])
  (fun a f => by
    funext s
    simp [bind_apply])
  (fun m f g => by
    funext s
    simp only [bind_apply, List.flatMap_assoc, andThen_assoc])

/-- A call with one outcome, in sequence. -/
theorem bind_of_returned (h : m s = [.returned a s']) : (m >>= f) s = f a s' := by
  simp [bind_apply, h]

theorem bind_of_ended (h : m s = [.ended e s']) : (m >>= f) s = [.ended e s'] := by
  simp [bind_apply, h]

@[simp] theorem fork_bind {child : σ → σ} {f : Bool → Proc ε σ β} :
    (fork child >>= f) s = f true s ++ f false (child s) := by
  simp [bind_apply, fork]

end Proc

end Susrv.Base
