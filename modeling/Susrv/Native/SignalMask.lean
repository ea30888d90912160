import Mathlib.Data.Finset.Insert
import Mathlib.Logic.Function.Basic
import Susrv.Base.Transition

/-!
# The signal mask around the creation of the handler

`create_handler_thread` blocks `SIGCHLD` while it creates the thread, which inherits the
mask, and keeps the mask to restore in a global, `SU_SRV_SIGMASK`.  Any number of calls
share it, each in a thread of its own; between its calls a thread has the mask that the
application gives it.  `masks_restored_iff` says when the calls do not show in the masks.
-/

namespace Susrv.Native

open Base.Transition

/-! ## The calls -/

abbrev SigSet := Finset Nat

def SIGCHLD : Nat := 17

/-- `create_handler_thread` -/
inductive CreatePc
  | outside
  | block
  | create
  | unblock
  deriving DecidableEq

/-- `handlers` lists the masks with which handler threads have begun.  `own` and `last`
are history: the mask that the application has last given a thread, and that of the thread
which has last blocked `SIGCHLD`. -/
structure Masks (τ : Type) where
  sigmask : τ → SigSet
  SU_SRV_SIGMASK : SigSet
  calls : τ → CreatePc
  handlers : List SigSet
  own : τ → SigSet
  last : Option SigSet

variable {τ : Type}

def Masks.init (own : τ → SigSet) : Masks τ := ⟨own, ∅, fun _ => .outside, [], own, none⟩

inductive MaskAction (τ : Type)
  /-- The application changes the mask of a thread. -/
  | setMask (t : τ) (set : SigSet)
  | call (t : τ)
  /-- The thread goes on in its call; `created` is what `pthread_create` answers. -/
  | step (t : τ) (created : Bool)

section Steps

variable [DecidableEq τ]

def Masks.goto (s : Masks τ) (t : τ) (pc : CreatePc) : Masks τ :=
  { s with calls := Function.update s.calls t pc }

/-- `pthread_sigmask(SIG_BLOCK, &s_mask, &SU_SRV_SIGMASK)` -/
def pth_block_sigchld (s : Masks τ) (t : τ) : Masks τ :=
  { s with
    SU_SRV_SIGMASK := s.sigmask t
    sigmask := Function.update s.sigmask t (insert SIGCHLD (s.sigmask t))
    last := some (s.own t) }

/-- `pthread_sigmask(SIG_SETMASK, &SU_SRV_SIGMASK, NULL)` -/
def pth_unblock_sigchld (s : Masks τ) (t : τ) : Masks τ :=
  { s with sigmask := Function.update s.sigmask t s.SU_SRV_SIGMASK }

/-- A new thread inherits the mask of its creator. -/
def pthread_create (s : Masks τ) (t : τ) (created : Bool) : Masks τ :=
  if created then { s with handlers := s.sigmask t :: s.handlers } else s

def Masks.step (s : Masks τ) : MaskAction τ → Option (Masks τ)
  | .setMask t set =>
      if s.calls t = .outside then
        some { s with
          sigmask := Function.update s.sigmask t set
          own := Function.update s.own t set }
      else none
  | .call t => if s.calls t = .outside then some (s.goto t .block) else none
  | .step t created =>
      match s.calls t with
      | .outside => none
      | .block => some ((pth_block_sigchld s t).goto t .create)
      | .create => some ((pthread_create s t created).goto t .unblock)
      | .unblock => some ((pth_unblock_sigchld s t).goto t .outside)

end Steps

/-! ## One step -/

section Step

variable [DecidableEq τ] {s s' : Masks τ} {t : τ}

inductive MaskStep (s : Masks τ) : MaskAction τ → Masks τ → Prop
  | setMask (t : τ) (set : SigSet) (hpc : s.calls t = .outside) :
      MaskStep s (.setMask t set) { s with
        sigmask := Function.update s.sigmask t set
        own := Function.update s.own t set }
  | call (t : τ) (hpc : s.calls t = .outside) : MaskStep s (.call t) (s.goto t .block)
  | block (t : τ) (created : Bool) (hpc : s.calls t = .block) :
      MaskStep s (.step t created) ((pth_block_sigchld s t).goto t .create)
  | create (t : τ) (created : Bool) (hpc : s.calls t = .create) :
      MaskStep s (.step t created) ((pthread_create s t created).goto t .unblock)
  | unblock (t : τ) (created : Bool) (hpc : s.calls t = .unblock) :
      MaskStep s (.step t created) ((pth_unblock_sigchld s t).goto t .outside)

theorem maskStep_of_step {a : MaskAction τ} (h : s.step a = some s') : MaskStep s a s' := by
  cases a with
  | setMask t set =>
      simp only [Masks.step] at h
      split at h <;> cases h
      exact .setMask t set ‹_›
  | call t =>
      simp only [Masks.step] at h
      split at h <;> cases h
      exact .call t ‹_›
  | step t created =>
      cases hpc : s.calls t <;> simp only [Masks.step, hpc] at h <;> cases h
      · exact .block t created hpc
      · exact .create t created hpc
      · exact .unblock t created hpc

@[simp] theorem Masks.goto_calls (pc : CreatePc) (u : τ) :
    (s.goto t pc).calls u = if u = t then pc else s.calls u :=
  Function.update_apply s.calls t pc u

@[simp] theorem Masks.goto_sigmask (pc : CreatePc) : (s.goto t pc).sigmask = s.sigmask := rfl

@[simp] theorem Masks.goto_own (pc : CreatePc) : (s.goto t pc).own = s.own := rfl

@[simp] theorem pth_block_sigchld_own : (pth_block_sigchld s t).own = s.own := rfl

@[simp] theorem pth_unblock_sigchld_own : (pth_unblock_sigchld s t).own = s.own := rfl

omit [DecidableEq τ] in
@[simp] theorem pthread_create_own (created : Bool) :
    (pthread_create s t created).own = s.own := by
  rw [pthread_create]
  split <;> rfl

@[simp] theorem pth_block_sigchld_sigmask (u : τ) : (pth_block_sigchld s t).sigmask u =
    if u = t then insert SIGCHLD (s.sigmask t) else s.sigmask u :=
  Function.update_apply s.sigmask t _ u

@[simp] theorem pth_unblock_sigchld_sigmask (u : τ) : (pth_unblock_sigchld s t).sigmask u =
    if u = t then s.SU_SRV_SIGMASK else s.sigmask u :=
  Function.update_apply s.sigmask t _ u

section

omit [DecidableEq τ]

@[simp] theorem pthread_create_sigmask (created : Bool) :
    (pthread_create s t created).sigmask = s.sigmask := by
  rw [pthread_create]
  split <;> rfl

@[simp] theorem pthread_create_calls (created : Bool) :
    (pthread_create s t created).calls = s.calls := by
  rw [pthread_create]
  split <;> rfl

@[simp] theorem pthread_create_saved (created : Bool) :
    (pthread_create s t created).SU_SRV_SIGMASK = s.SU_SRV_SIGMASK := by
  rw [pthread_create]
  split <;> rfl

theorem mem_pthread_create {created : Bool} {mask : SigSet}
    (h : mask ∈ (pthread_create s t created).handlers) :
    mask = s.sigmask t ∨ mask ∈ s.handlers := by
  rw [pthread_create] at h
  split at h
  · exact List.mem_cons.mp h
  · exact .inr h

end

end Step

/-! ## Where masks come from -/

/-- The thread has blocked the signal. -/
def CreatePc.blocked : CreatePc → Bool
  | .outside | .block => false
  | .create | .unblock => true

/-- The application gives its threads masks with `P`. -/
def Gives (P : SigSet → Prop) (_ : Masks τ) : MaskAction τ → Prop
  | .setMask _ set => P set
  | _ => True

instance (P : SigSet → Prop) [DecidablePred P] (s : Masks τ) : DecidablePred (Gives P s)
  | .setMask _ set => inferInstanceAs (Decidable (P set))
  | .call _ | .step _ _ => isTrue trivial

/-- All masks are those of the application, but for `SIGCHLD` inside a call. -/
structure Given (P : SigSet → Prop) (s : Masks τ) : Prop where
  free : ∀ t, (s.calls t).blocked = false → P (s.sigmask t)
  blocked : ∀ t, (s.calls t).blocked = true → ∃ m, P m ∧ s.sigmask t = insert SIGCHLD m
  saved : ∀ t, (s.calls t).blocked = true → P s.SU_SRV_SIGMASK
  handlers : ∀ mask ∈ s.handlers, ∃ m, P m ∧ mask = insert SIGCHLD m

section Given

variable [DecidableEq τ] {P : SigSet → Prop} {s s' : Masks τ}

theorem given_step {a : MaskAction τ} (hs : Given P s) (hok : Gives P s a)
    (h : s.step a = some s') : Given P s' := by
  cases maskStep_of_step h with
  | setMask t set hpc =>
      refine ⟨fun u hu => ?_, fun u hu => ?_, hs.saved, hs.handlers⟩
      · show P (Function.update s.sigmask t set u)
        rw [Function.update_apply]
        split
        · exact hok
        · exact hs.free u hu
      · obtain ⟨m, hm, hmask⟩ := hs.blocked u hu
        refine ⟨m, hm, ?_⟩
        show Function.update s.sigmask t set u = _
        rw [Function.update_apply, if_neg, hmask]
        rintro rfl
        rw [hpc] at hu
        cases hu
  | call t hpc =>
      have hsame : ∀ u, ((s.goto t .block).calls u).blocked = (s.calls u).blocked := by
        intro u
        rw [Masks.goto_calls]
        split
        · rename_i hu
          rw [hu, hpc]
          rfl
        · rfl
      exact ⟨fun u hu => hs.free u (hsame u ▸ hu), fun u hu => hs.blocked u (hsame u ▸ hu),
        fun u hu => hs.saved u (hsame u ▸ hu), hs.handlers⟩
  | block t created hpc =>
      have hmask : P (s.sigmask t) := hs.free t (by rw [hpc]; rfl)
      refine ⟨fun u hu => ?_, fun u hu => ?_, fun _ _ => hmask, hs.handlers⟩
      · by_cases hut : u = t
        · simp [hut, CreatePc.blocked] at hu
        · simp only [Masks.goto_calls, if_neg hut] at hu
          simpa [hut] using hs.free u hu
      · by_cases hut : u = t
        · exact ⟨_, hmask, by simp [hut]⟩
        · simp only [Masks.goto_calls, if_neg hut] at hu
          simpa [hut] using hs.blocked u hu
  | create t created hpc =>
      have hin : (s.calls t).blocked = true := by rw [hpc]; rfl
      have hsame : ∀ u, (((pthread_create s t created).goto t .unblock).calls u).blocked =
          (s.calls u).blocked := by
        intro u
        rw [Masks.goto_calls, pthread_create_calls]
        split
        · rename_i hu
          rw [hu, hin]
          rfl
        · rfl
      refine ⟨fun u hu => ?_, fun u hu => ?_, fun u hu => ?_, fun mask hmask => ?_⟩
      · simpa using hs.free u (hsame u ▸ hu)
      · simpa using hs.blocked u (hsame u ▸ hu)
      · simpa [Masks.goto] using hs.saved u (hsame u ▸ hu)
      · rcases mem_pthread_create hmask with rfl | hbefore
        · exact hs.blocked t hin
        · exact hs.handlers mask hbefore
  | unblock t created hpc =>
      have hin : (s.calls t).blocked = true := by rw [hpc]; rfl
      refine ⟨fun u hu => ?_, fun u hu => ?_, fun _ _ => hs.saved t hin, hs.handlers⟩
      · by_cases hut : u = t
        · simpa [hut] using hs.saved t hin
        · simp only [Masks.goto_calls, if_neg hut] at hu
          simpa [hut] using hs.free u hu
      · by_cases hut : u = t
        · simp [hut, CreatePc.blocked] at hu
        · simp only [Masks.goto_calls, if_neg hut] at hu
          simpa [hut] using hs.blocked u hu

/-- In every run: whatever holds of the masks that the application gives its threads, holds
of the mask of every thread outside the calls; and every handler thread begins with such a
mask and `SIGCHLD`. -/
theorem masks_given {own : τ → SigSet} (hown : ∀ t, P (own t))
    (h : Reach Masks.step (Gives P) (Masks.init own) s) :
    (∀ t, s.calls t = .outside → P (s.sigmask t)) ∧
      ∀ mask ∈ s.handlers, SIGCHLD ∈ mask ∧ ∃ m, P m ∧ mask = insert SIGCHLD m := by
  have hinit : Given P (Masks.init own) :=
    ⟨fun t _ => hown t, by simp [Masks.init, CreatePc.blocked],
      by simp [Masks.init, CreatePc.blocked], by simp [Masks.init]⟩
  have hs : Given P s := h.invariant hinit fun _ _ _ hs hok hstep => given_step hs hok hstep
  refine ⟨fun t ht => hs.free t (by rw [ht]; rfl), fun mask hmask => ?_⟩
  obtain ⟨m, hm, heq⟩ := hs.handlers mask hmask
  exact ⟨heq ▸ Finset.mem_insert_self SIGCHLD m, m, hm, heq⟩

/-- Two calls of threads with different masks overlap. -/
def overlapping : List (MaskAction Bool) :=
  [.call true, .step true true, .call false, .step false true, .step true true,
    .step true true, .step false true, .step false true]

theorem masks_given_overlapping :
    ∃ s : Masks Bool, SIGCHLD ∉ s.sigmask true ∧ SIGCHLD ∉ s.sigmask false ∧
      s.handlers.length = 2 ∧ ∀ mask ∈ s.handlers, SIGCHLD ∈ mask := by
  let own : Bool → SigSet := fun t => if t then {10} else {12}
  have hend : (runOk Masks.step (Gives (SIGCHLD ∉ ·)) (Masks.init own) overlapping).map
      (fun s => (s.calls true, s.calls false, s.handlers.length)) =
        some (.outside, .outside, 2) := by decide +kernel
  obtain ⟨s, hreach, heq⟩ := Reach.exists_of_runOk hend
  simp only [Prod.mk.injEq] at heq
  obtain ⟨htrue, hfalse, hlength⟩ := heq
  have hown : ∀ t, SIGCHLD ∉ own t := by decide
  obtain ⟨hfree, hhandlers⟩ := masks_given hown hreach
  exact ⟨s, hfree true htrue, hfree false hfalse, hlength, fun mask hmask =>
    (hhandlers mask hmask).1⟩

end Given

/-! ## When the calls do not show -/

/-- Outside the calls each thread has the mask that the application has given it. -/
def Restored (s : Masks τ) : Prop := ∀ t, s.calls t = .outside → s.sigmask t = s.own t

/-- A call ends only while the last thread that has entered one had the same mask. -/
def SameMask (s : Masks τ) : MaskAction τ → Prop
  | .step t _ => s.calls t = .unblock → s.last = some (s.own t)
  | _ => True

/-- As long as no thread has got the mask of another one. -/
structure MaskInv (s : Masks τ) : Prop where
  free : ∀ t, (s.calls t).blocked = false → s.sigmask t = s.own t
  blocked : ∀ t, (s.calls t).blocked = true → s.last ≠ none
  saved : ∀ m, s.last = some m → s.SU_SRV_SIGMASK = m

section Restored

variable [DecidableEq τ] {s s' : Masks τ}

theorem maskInv_step {a : MaskAction τ} (hs : MaskInv s) (hok : SameMask s a)
    (h : s.step a = some s') : MaskInv s' := by
  cases maskStep_of_step h with
  | setMask t set hpc =>
      refine ⟨fun u hu => ?_, hs.blocked, hs.saved⟩
      show Function.update s.sigmask t set u = Function.update s.own t set u
      rw [Function.update_apply, Function.update_apply, hs.free u hu]
  | call t hpc =>
      refine ⟨fun u hu => ?_, fun u hu => ?_, hs.saved⟩
      · by_cases hut : u = t
        · rw [hut]
          exact hs.free t (by rw [hpc]; rfl)
        · simp only [Masks.goto_calls, if_neg hut] at hu
          exact hs.free u hu
      · by_cases hut : u = t
        · simp [hut, CreatePc.blocked] at hu
        · simp only [Masks.goto_calls, if_neg hut] at hu
          exact hs.blocked u hu
  | block t created hpc =>
      have hmask := hs.free t (by rw [hpc]; rfl)
      refine ⟨fun u hu => ?_, fun _ _ => Option.some_ne_none _, fun m hm => ?_⟩
      · by_cases hut : u = t
        · simp [hut, CreatePc.blocked] at hu
        · simp only [Masks.goto_calls, if_neg hut] at hu
          simpa [hut] using hs.free u hu
      · exact hmask.trans (Option.some.inj hm)
  | create t created hpc =>
      have hin : (s.calls t).blocked = true := by rw [hpc]; rfl
      have hlast : (pthread_create s t created).last = s.last := by
        rw [pthread_create]
        split <;> rfl
      refine ⟨fun u hu => ?_, fun u hu => ?_, fun m hm => ?_⟩
      · by_cases hut : u = t
        · simp [hut, CreatePc.blocked] at hu
        · simp only [Masks.goto_calls, if_neg hut, pthread_create_calls] at hu
          simpa using hs.free u hu
      · rw [Masks.goto, hlast]
        exact hs.blocked t hin
      · rw [Masks.goto, hlast] at hm
        simpa [Masks.goto] using hs.saved m hm
  | unblock t created hpc =>
      have hsame := hs.saved _ (hok hpc)
      refine ⟨fun u hu => ?_, fun u hu => ?_, hs.saved⟩
      · by_cases hut : u = t
        · rw [hut]
          simpa using hsame
        · simp only [Masks.goto_calls, if_neg hut] at hu
          simpa [hut] using hs.free u hu
      · by_cases hut : u = t
        · simp [hut, CreatePc.blocked] at hu
        · simp only [Masks.goto_calls, if_neg hut] at hu
          exact hs.blocked u hu

theorem not_restored_of_miss {a : MaskAction τ} (hs : MaskInv s) (hmiss : ¬ SameMask s a)
    (h : s.step a = some s') : ¬ Restored s' := by
  intro hrestored
  cases maskStep_of_step h with
  | setMask | call => exact hmiss trivial
  | block t created hpc | create t created hpc =>
      refine hmiss fun hunblock => ?_
      rw [hpc] at hunblock
      cases hunblock
  | unblock t created hpc =>
      refine hmiss fun _ => ?_
      obtain ⟨m, hm⟩ := Option.ne_none_iff_exists'.mp (hs.blocked t (by rw [hpc]; rfl))
      have hmask := hrestored t (by simp)
      have hown : s.SU_SRV_SIGMASK = s.own t := by simpa using hmask
      rw [hm, ← hown, hs.saved m hm]

/-- The masks are restored all along a run exactly if every call in it ends while the last
thread to have entered one had the same mask. -/
theorem masks_restored_iff (own : τ → SigSet) (as : List (MaskAction τ)) :
    Along Masks.step Restored (Masks.init own) as ↔
      Guarded Masks.step SameMask (Masks.init own) as := by
  have hinit : MaskInv (Masks.init own) :=
    ⟨fun _ _ => rfl, by simp [Masks.init, CreatePc.blocked], by simp [Masks.init]⟩
  have hrestored : ∀ s : Masks τ, MaskInv s → Restored s :=
    fun s hs t ht => hs.free t (by rw [ht]; rfl)
  exact along_iff_guarded hrestored (fun _ _ _ hs hok hstep => maskInv_step hs hok hstep)
    (fun _ _ _ hs hmiss hstep => not_restored_of_miss hs hmiss hstep) hinit as

/-- The first thread returns with the mask of the second one. -/
example : (run Masks.step (Masks.init fun t => if t then {10} else {12}) overlapping).map
    (fun s => s.sigmask true) = some {12} := by
  decide +kernel

end Restored

end Susrv.Native
