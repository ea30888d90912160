import Mathlib.Data.List.Basic

/-!
# Descriptor tables

What a process holds open: a list of descriptors, each of them a number that
refers to an open file.  A table is copied by `fork`; `close`, `dup2` and
`execve` never make a process hold a file it did not hold before, so a file that
no table refers to is gone.
-/

namespace Susrv.Base

structure Fd (δ : Type*) where
  number : Nat
  file : δ
  cloexec : Bool
  deriving DecidableEq

abbrev FdTable (δ : Type*) := List (Fd δ)

namespace FdTable

variable {δ : Type*} {t : FdTable δ} {file : δ} {d : Fd δ} {n old new : Nat}

def Holds (t : FdTable δ) (file : δ) : Prop := ∃ d ∈ t, d.file = file

instance [DecidableEq δ] (t : FdTable δ) (file : δ) : Decidable (t.Holds file) :=
  inferInstanceAs (Decidable (∃ d ∈ t, _))

def close (t : FdTable δ) (n : Nat) : FdTable δ := t.filter (·.number ≠ n)

/-- `dup2(old, new)`; the copy stays open across `execve`. -/
def dup2 (t : FdTable δ) (old new : Nat) : FdTable δ :=
  match t.find? (·.number = old) with
  | none => t
  | some d => if old = new then t else ⟨new, d.file, false⟩ :: t.close new

def execve (t : FdTable δ) : FdTable δ := t.filter (!·.cloexec)

theorem not_holds_nil (file : δ) : ¬ Holds [] file := by
  rintro ⟨d, hd, -⟩
  cases hd

theorem holds_of_mem (h : d ∈ t) : t.Holds d.file := ⟨d, h, rfl⟩

/-! ## Nothing is gained -/

theorem mem_of_mem_close (h : d ∈ t.close n) : d ∈ t ∧ d.number ≠ n := by
  obtain ⟨hmem, hne⟩ := List.mem_filter.mp h
  exact ⟨hmem, by simpa using hne⟩

theorem holds_of_close (h : (t.close n).Holds file) : t.Holds file := by
  obtain ⟨d, hd, hfile⟩ := h
  exact ⟨d, List.mem_of_mem_filter hd, hfile⟩

theorem holds_of_dup2 (h : (t.dup2 old new).Holds file) : t.Holds file := by
  unfold dup2 at h
  split at h
  · exact h
  · rename_i d hfind
    split at h
    · exact h
    · obtain ⟨e, he, hfile⟩ := h
      rcases List.mem_cons.mp he with rfl | he
      · exact ⟨d, List.mem_of_find?_eq_some hfind, hfile⟩
      · exact holds_of_close ⟨e, he, hfile⟩

theorem holds_of_execve (h : t.execve.Holds file) : t.Holds file := by
  obtain ⟨d, hd, hfile⟩ := h
  exact ⟨d, List.mem_of_mem_filter hd, hfile⟩

/-! ## What is kept -/

theorem mem_close_of_ne (h : d ∈ t) (hne : d.number ≠ n) : d ∈ t.close n :=
  List.mem_filter.mpr ⟨h, by simpa using hne⟩

theorem mem_dup2_of_ne (h : d ∈ t) (hne : d.number ≠ new) : d ∈ t.dup2 old new := by
  unfold dup2
  split
  · exact h
  · split
    · exact h
    · exact List.mem_cons_of_mem _ (mem_close_of_ne h hne)

theorem mem_execve (h : d ∈ t) (hkeep : d.cloexec = false) : d ∈ t.execve :=
  List.mem_filter.mpr ⟨h, by simp [hkeep]⟩

end FdTable

end Susrv.Base
