import Mathlib.Algebra.Order.Group.Multiset

/-!
# Allocated memory

What has been allocated and not freed.  No address is handed out twice, so a
pointer to a freed block stays dangling and every use of it shows.  A program is
specified by the blocks it owns before and after; the rules leave all others alone.
-/

namespace Susrv.Base

structure Heap where
  next : Nat
  live : Multiset Nat

inductive MemFault
  | null
  /-- The block is used or freed, but not allocated. -/
  | dangling
  deriving DecidableEq

abbrev Pointer := Option Nat

/-- The block a pointer refers to, if it is not NULL. -/
def Pointer.block (p : Pointer) : Multiset Nat := p.elim 0 fun a => {a}

@[simp] theorem Pointer.block_none : Pointer.block none = 0 := rfl

@[simp] theorem Pointer.block_some (a : Nat) : Pointer.block (some a) = {a} := rfl

abbrev Alloc := StateT Heap (Except MemFault)

namespace Alloc

variable {α β : Type} {P P₁ : Multiset Nat} {E : Prop} {p : Pointer}

def malloc (succeeds : Bool) : Alloc Pointer := fun h =>
  if succeeds then .ok (some h.next, ⟨h.next + 1, h.next ::ₘ h.live⟩) else .ok (none, h)

/-- An access through the pointer. -/
def use (p : Pointer) : Alloc Unit := fun h =>
  match p with
  | none => .error .null
  | some a => if a ∈ h.live then .ok ((), h) else .error .dangling

def free (p : Pointer) : Alloc Unit := fun h =>
  match p with
  | none => .ok ((), h)
  | some a =>
      if a ∈ h.live then .ok ((), { h with live := h.live.erase a }) else .error .dangling

/-- The block moves; if there is no room it stays, and NULL is returned. -/
def realloc (succeeds : Bool) (p : Pointer) : Alloc Pointer := do
  let q ← malloc succeeds
  if q.isSome then free p
  return q

/-! ## Rules -/

/-- `m` uses and frees only blocks of `P` or its own; it ends with the blocks that `Q`
says, and dereferences NULL only if `E`. -/
def Spec (P : Multiset Nat) (m : Alloc α) (Q : α → Multiset Nat → Prop) (E : Prop) : Prop :=
  ∀ (h : Heap) (frame : Multiset Nat), h.live = frame + P →
    match m h with
    | .ok (a, h') => ∃ P', Q a P' ∧ h'.live = frame + P'
    | .error e => e = .null ∧ E

theorem Spec.pure {a : α} {Q : α → Multiset Nat → Prop} (h : Q a P) :
    Spec P (pure a : Alloc α) Q E :=
  fun _ _ hlive => ⟨P, h, hlive⟩

theorem Spec.bind {m : Alloc α} {f : α → Alloc β} {R : α → Multiset Nat → Prop}
    {Q : β → Multiset Nat → Prop} (hm : Spec P m R E)
    (hf : ∀ a P', R a P' → Spec P' (f a) Q E) : Spec P (m >>= f) Q E := by
  intro h frame hlive
  have hfirst := hm h frame hlive
  show match (m h).bind fun r => f r.1 r.2 with
    | .ok (a, h') => ∃ P', Q a P' ∧ h'.live = frame + P'
    | .error e => e = .null ∧ E
  cases hrun : m h with
  | error e =>
      rw [hrun] at hfirst
      exact hfirst
  | ok r =>
      rw [hrun] at hfirst
      obtain ⟨P', hR, hlive'⟩ := hfirst
      exact hf r.1 P' hR r.2 frame hlive'

theorem Spec.map {m : Alloc α} {f : α → β} {Q : β → Multiset Nat → Prop}
    (h : Spec P m (fun a P' => Q (f a) P') E) : Spec P (f <$> m) Q E := by
  rw [map_eq_pure_bind]
  exact h.bind fun _ _ => .pure

/-- The rule of consequence. -/
theorem Spec.mono {m : Alloc α} {Q R : α → Multiset Nat → Prop} (h : Spec P m R E)
    (himp : ∀ a P', R a P' → Q a P') : Spec P m Q E := by
  intro heap frame hlive
  have hm := h heap frame hlive
  split at hm
  · obtain ⟨P', hR, hlive'⟩ := hm
    exact ⟨P', himp _ P' hR, hlive'⟩
  · exact hm

theorem malloc_spec (succeeds : Bool) : Spec P (malloc succeeds)
    (fun p P' => p.isSome = succeeds ∧ P' = p.block + P) E := by
  intro h frame hlive
  cases succeeds with
  | false => exact ⟨P, ⟨rfl, (zero_add P).symm⟩, hlive⟩
  | true =>
      refine ⟨{h.next} + P, ⟨rfl, rfl⟩, ?_⟩
      calc h.next ::ₘ h.live
        _ = {h.next} + (frame + P) := by rw [Multiset.singleton_add, hlive]
        _ = frame + ({h.next} + P) := add_left_comm _ _ _

theorem mem_live {h : Heap} {frame : Multiset Nat} {a : Nat} (hlive : h.live = frame + P)
    (hP : P = Pointer.block (some a) + P₁) : a ∈ h.live := by
  rw [hlive, hP, Multiset.mem_add, Multiset.mem_add]
  exact .inr (.inl (Multiset.mem_singleton_self a))

/-- The pointer need not be owned where it is NULL. -/
theorem use_spec_of_isSome (hP : p.isSome = true → P = p.block + P₁) (hnull : p = none → E) :
    Spec P (use p) (fun _ P' => p.isSome = true ∧ P' = P) E := by
  intro h frame hlive
  cases p with
  | none => exact ⟨rfl, hnull rfl⟩
  | some a =>
      rw [use, if_pos (mem_live hlive (hP rfl))]
      exact ⟨P, ⟨rfl, rfl⟩, hlive⟩

theorem use_spec (hP : P = p.block + P₁) (hnull : p = none → E) :
    Spec P (use p) (fun _ P' => p.isSome = true ∧ P' = P) E :=
  use_spec_of_isSome (fun _ => hP) hnull

theorem free_spec (hP : P = p.block + P₁) : Spec P (free p) (fun _ P' => P' = P₁) E := by
  intro h frame hlive
  cases p with
  | none =>
      refine ⟨P₁, rfl, ?_⟩
      rw [hlive, hP, Pointer.block_none, zero_add]
  | some a =>
      rw [free, if_pos (mem_live hlive hP)]
      refine ⟨P₁, rfl, ?_⟩
      calc h.live.erase a
        _ = (a ::ₘ (frame + P₁)).erase a := by
            rw [hlive, hP, Pointer.block_some, add_left_comm, Multiset.singleton_add]
        _ = frame + P₁ := Multiset.erase_cons_head a _

theorem realloc_spec {succeeds : Bool} (hP : P = p.block + P₁) : Spec P (realloc succeeds p)
    (fun q P' => q.isSome = succeeds ∧
      P' = if succeeds then q.block + P₁ else p.block + P₁) E := by
  apply Spec.bind (malloc_spec succeeds)
  rintro q P' ⟨hq, rfl⟩
  cases q with
  | none =>
      subst hq
      exact .pure ⟨rfl, by rw [Pointer.block_none, zero_add, hP]; rfl⟩
  | some a =>
      subst hq
      have hmoved : Pointer.block (some a) + P = p.block + (Pointer.block (some a) + P₁) := by
        rw [hP, add_left_comm]
      apply Spec.bind (free_spec hmoved)
      rintro - P' rfl
      exact .pure ⟨rfl, rfl⟩

end Alloc

end Susrv.Base
