import Mathlib.Data.List.Basic

/-!
# A mutex with one condition variable

The POSIX pair as a value: who owns the mutex, and who sleeps in
`pthread_cond_wait` and has not been woken.  A thread that was woken is on
neither side until it owns the mutex again.  Which sleeper a signal wakes is
the caller's argument, so that every choice is a run of its own.
-/

namespace Susrv.Base

structure Monitor (θ : Type*) where
  owner : Option θ
  sleepers : List θ
  deriving DecidableEq

namespace Monitor

variable {θ : Type*} {m m' : Monitor θ} {t u : θ}

def init : Monitor θ := ⟨none, []⟩

/-- `pthread_mutex_trylock`; also the moment a blocked `pthread_mutex_lock` succeeds. -/
def tryLock (m : Monitor θ) (t : θ) : Option (Monitor θ) :=
  if m.owner = none then some { m with owner := some t } else none

def unlock (m : Monitor θ) : Monitor θ := { m with owner := none }

/-- `pthread_cond_wait` up to the sleep: the mutex is given up in the same step. -/
def wait (m : Monitor θ) (t : θ) : Monitor θ := ⟨none, t :: m.sleepers⟩

theorem tryLock_eq_some :
    m.tryLock t = some m' ↔ m.owner = none ∧ m' = { m with owner := some t } := by
  unfold tryLock
  split <;> simp_all [eq_comm]

theorem tryLock_eq_none : m.tryLock t = none ↔ m.owner ≠ none := by
  unfold tryLock
  split <;> simp_all

variable [DecidableEq θ]

/-- A sleeper wakes up, because of a signal or spuriously. -/
def wake (m : Monitor θ) (t : θ) : Option (Monitor θ) :=
  if t ∈ m.sleepers then some { m with sleepers := m.sleepers.erase t } else none

/-- `pthread_cond_signal` wakes one sleeper; without sleepers it has no effect. -/
def signal (m : Monitor θ) : Option θ → Option (Monitor θ)
  | some t => m.wake t
  | none => if m.sleepers = [] then some m else none

/-- The end of `pthread_cond_wait`: a woken thread takes the mutex back. -/
def reacquire (m : Monitor θ) (t : θ) : Option (Monitor θ) :=
  if t ∈ m.sleepers then none else m.tryLock t

theorem wake_eq_some : m.wake t = some m' ↔
    t ∈ m.sleepers ∧ m' = { m with sleepers := m.sleepers.erase t } := by
  unfold wake
  split <;> simp_all [eq_comm]

theorem reacquire_eq_some : m.reacquire t = some m' ↔
    t ∉ m.sleepers ∧ m.owner = none ∧ m' = { m with owner := some t } := by
  unfold reacquire
  split <;> simp_all [tryLock_eq_some]

/-- A signal wakes one sleeper if there is one. -/
theorem signal_eq_some {w : Option θ} : m.signal w = some m' ↔
    (w = none ∧ m.sleepers = [] ∧ m' = m) ∨
      ∃ t, w = some t ∧ t ∈ m.sleepers ∧ m' = { m with sleepers := m.sleepers.erase t } := by
  cases w with
  | none =>
      by_cases hnil : m.sleepers = [] <;> simp [signal, hnil, eq_comm]
  | some t => simp [signal, wake_eq_some]

/-- A signal leaves the mutex alone and lets nobody fall asleep. -/
theorem signal_frame {w : Option θ} (h : m.signal w = some m') :
    m'.owner = m.owner ∧ ∀ u ∈ m'.sleepers, u ∈ m.sleepers := by
  rcases signal_eq_some.mp h with ⟨-, -, rfl⟩ | ⟨t, -, -, rfl⟩
  · exact ⟨rfl, fun u hu => hu⟩
  · exact ⟨rfl, fun u hu => List.mem_of_mem_erase hu⟩

end Monitor

end Susrv.Base
