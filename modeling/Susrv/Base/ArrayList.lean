import Mathlib.Algebra.Group.Nat.Defs
import Mathlib.Data.List.Basic

/-!
# Lists that notice changes

The list behind `java.util.ArrayList` with its modification count, and the loop
`for (x : list)` whose body may change the list.  The iterator is that of OpenJDK:
`hasNext` is `cursor != size`, and `next` compares the modification counts.  (The
documentation leaves both open; the iterator of Android 4.4 counts the remaining
elements instead.)
-/

namespace Susrv.Base

/-- `modCount` counts all changes; the field of the class is an `int`. -/
structure ArrayList (α : Type) where
  elems : List α
  modCount : Nat
  deriving DecidableEq

variable {α ε σ : Type}

namespace ArrayList

def size (l : ArrayList α) : Nat := l.elems.length

def add (l : ArrayList α) (a : α) : ArrayList α := ⟨l.elems ++ [a], l.modCount + 1⟩

/-- The first occurrence, if there is one. -/
def remove [DecidableEq α] (l : ArrayList α) (a : α) : ArrayList α :=
  if a ∈ l.elems then ⟨l.elems.erase a, l.modCount + 1⟩ else l

def clear (l : ArrayList α) : ArrayList α := ⟨[], l.modCount + 1⟩

/-- `modCount == expectedModCount` -/
def Unmodified (l : ArrayList α) (expectedModCount : Nat) : Prop :=
  l.modCount % 2 ^ 32 = expectedModCount % 2 ^ 32

instance (l : ArrayList α) (expectedModCount : Nat) : Decidable (l.Unmodified expectedModCount) :=
  inferInstanceAs (Decidable (_ = _))

theorem unmodified_self (l : ArrayList α) : l.Unmodified l.modCount := rfl

/-- Fewer than 2³² changes are noticed. -/
theorem not_unmodified {l l' : ArrayList α} (hlt : l.modCount < l'.modCount)
    (hbound : l'.modCount < l.modCount + 2 ^ 32) : ¬ l'.Unmodified l.modCount := by
  unfold Unmodified
  omega

/-- `l'` comes from `l` by operations of the list. -/
def Follows (l l' : ArrayList α) : Prop :=
  l' = l ∨ l.modCount < l'.modCount

theorem Follows.trans {l l' l'' : ArrayList α} (h : Follows l l') (h' : Follows l' l'') :
    Follows l l'' := by
  rcases h with rfl | hlt
  · exact h'
  · rcases h' with rfl | hlt'
    · exact .inr hlt
    · exact .inr (Nat.lt_trans hlt hlt')

theorem follows_add (l : ArrayList α) (a : α) : Follows l (l.add a) := .inr (Nat.lt_succ_self _)

theorem follows_clear (l : ArrayList α) : Follows l l.clear := .inr (Nat.lt_succ_self _)

theorem follows_remove [DecidableEq α] (l : ArrayList α) (a : α) : Follows l (l.remove a) := by
  unfold remove
  split
  · exact .inr (Nat.lt_succ_self _)
  · exact .inl rfl

/-! ## The loop -/

/-- What `hasNext` and `next` come to. -/
inductive Next (α : Type)
  | done
  | comodified
  | missing
  | element (a : α)

def next (l : ArrayList α) (expectedModCount cursor : Nat) : Next α :=
  if cursor = l.size then .done
  else if l.Unmodified expectedModCount then
    match l.elems[cursor]? with
    | some a => .element a
    | none => .missing
  else .comodified

theorem next_done {l : ArrayList α} {expectedModCount cursor : Nat} (h : cursor = l.size) :
    l.next expectedModCount cursor = .done :=
  if_pos h

theorem next_element {l : ArrayList α} {seen rest : List α} {a : α}
    (h : l.elems = seen ++ a :: rest) : l.next l.modCount seen.length = .element a := by
  unfold next
  rw [if_neg, if_pos l.unmodified_self, h]
  · simp
  · rw [size, h, List.length_append, List.length_cons]
    omega

theorem next_comodified {l l' : ArrayList α} {cursor : Nat} (hsize : cursor ≠ l'.size)
    (hlt : l.modCount < l'.modCount) (hbound : l'.modCount < l.modCount + 2 ^ 32) :
    l'.next l.modCount cursor = .comodified := by
  unfold next
  rw [if_neg hsize, if_neg (not_unmodified hlt hbound)]

section ForEach

/-- The list in the state, the body of the loop with its exceptions, and the exceptions
of `next`. -/
structure Loop (α ε σ : Type) where
  list : σ → ArrayList α
  body : α → σ → Option (Except ε Unit × σ)
  comodified : ε
  missing : ε

/-- From the cursor on, with at most `fuel` tests of `hasNext`. -/
def Loop.forEach (p : Loop α ε σ) (expectedModCount : Nat) :
    (fuel cursor : Nat) → σ → Option (Except ε Unit × σ)
  | 0, _, _ => none
  | fuel + 1, cursor, s =>
      match (p.list s).next expectedModCount cursor with
      | .done => some (.ok (), s)
      | .comodified => some (.error p.comodified, s)
      | .missing => some (.error p.missing, s)
      | .element a =>
          match p.body a s with
          | none => none
          | some (.error e, s') => some (.error e, s')
          | some (.ok (), s') => p.forEach expectedModCount fuel (cursor + 1) s'

variable {p : Loop α ε σ} {expectedModCount cursor fuel : Nat} {s s' : σ}

theorem Loop.forEach_done (h : cursor = (p.list s).size) :
    p.forEach expectedModCount (fuel + 1) cursor s = some (.ok (), s) := by
  rw [forEach, next_done h]

theorem Loop.forEach_comodified (h : (p.list s).next expectedModCount cursor = .comodified) :
    p.forEach expectedModCount (fuel + 1) cursor s = some (.error p.comodified, s) := by
  rw [forEach, h]

theorem Loop.forEach_throw {a : α} {e : ε}
    (h : (p.list s).next expectedModCount cursor = .element a)
    (hbody : p.body a s = some (.error e, s')) :
    p.forEach expectedModCount (fuel + 1) cursor s = some (.error e, s') := by
  rw [forEach, h]
  simp only [hbody]

theorem Loop.forEach_element {a : α} (h : (p.list s).next expectedModCount cursor = .element a)
    (hbody : p.body a s = some (.ok (), s')) :
    p.forEach expectedModCount (fuel + 1) cursor s =
      p.forEach expectedModCount fuel (cursor + 1) s' := by
  rw [forEach, h]
  simp only [hbody]

theorem Loop.forEach_stuck {a : α} (h : (p.list s).next expectedModCount cursor = .element a)
    (hbody : p.body a s = none) : p.forEach expectedModCount (fuel + 1) cursor s = none := by
  rw [forEach, h]
  simp only [hbody]

/-- More fuel, for the loop and in its body, changes no result. -/
theorem Loop.forEach_mono {q : Loop α ε σ} {r : Except ε Unit × σ} {fuel' : Nat}
    (hlist : q.list = p.list) (hcomodified : q.comodified = p.comodified)
    (hmissing : q.missing = p.missing)
    (hbody : ∀ a s r, p.body a s = some r → q.body a s = some r) (hle : fuel ≤ fuel')
    (h : p.forEach expectedModCount fuel cursor s = some r) :
    q.forEach expectedModCount fuel' cursor s = some r := by
  induction fuel generalizing fuel' cursor s with
  | zero => cases h
  | succ fuel ih =>
      obtain ⟨fuel', rfl⟩ : ∃ n, fuel' = n + 1 := ⟨fuel' - 1, by omega⟩
      rw [forEach] at h ⊢
      rw [hlist]
      cases hnext : (p.list s).next expectedModCount cursor with
      | done =>
          rw [hnext] at h
          exact h
      | comodified =>
          rw [hnext] at h
          rw [hcomodified]
          exact h
      | missing =>
          rw [hnext] at h
          rw [hmissing]
          exact h
      | element a =>
          rw [hnext] at h
          dsimp only at h ⊢
          cases hresult : p.body a s with
          | none =>
              rw [hresult] at h
              cases h
          | some result =>
              rw [hresult] at h
              rw [hbody a s result hresult]
              obtain ⟨end_, s'⟩ := result
              cases end_ with
              | error e => exact h
              | ok u => exact ih (by omega) h

end ForEach

end ArrayList

end Susrv.Base
