import Mathlib.Logic.Function.Basic
import Susrv.Base.Simulation

/-!
# A buffered stream shared by threads

A `FILE` opened for appending: `print` fills its buffer, `flush` empties it into
the file, and the buffer may be drained in part at any other moment.  Each of
these is atomic, a call of several of them is not.  A thread may also write to
the descriptor behind the buffer.  Bytes carry the thread that wrote them.

If every call ends with a flush, whoever is not inside a call has all its bytes
in the file, in its own order and once.
-/

namespace Susrv.Base.Stdio

open Transition

variable {θ κ α : Type*}

inductive Op (α : Type*)
  | print (xs : List α)
  | flush
  deriving DecidableEq

structure Stream (θ α : Type*) where
  file : List (θ × α)
  buffer : List (θ × α)

/-- `todo p` is the rest of the call that `p` is in. -/
structure State (θ α : Type*) extends Stream θ α where
  todo : θ → List (Op α)

def State.init : State θ α := ⟨⟨[], []⟩, fun _ => []⟩

inductive Action (θ κ α : Type*)
  | call (p : θ) (k : κ)
  | op (p : θ)
  | drain (n : Nat)
  | write (p : θ) (xs : List α)

def Stream.perform (st : Stream θ α) (p : θ) : Op α → Stream θ α
  | .print xs => { st with buffer := st.buffer ++ xs.map (p, ·) }
  | .flush => ⟨st.file ++ st.buffer, []⟩

variable [DecidableEq θ] (code : κ → List (Op α))

def step (s : State θ α) : Action θ κ α → Option (State θ α)
  | .call p k =>
      if (s.todo p).isEmpty then some { s with todo := Function.update s.todo p (code k) } else none
  | .op p =>
      match s.todo p with
      | [] => none
      | o :: rest => some ⟨s.perform p o, Function.update s.todo p rest⟩
  | .drain n => some { s with file := s.file ++ s.buffer.take n, buffer := s.buffer.drop n }
  | .write p xs =>
      if (s.todo p).isEmpty then some { s with file := s.file ++ xs.map (p, ·) } else none

/-- What a call prints. -/
def text (ops : List (Op α)) : List α :=
  ops.flatMap fun
    | .print xs => xs
    | .flush => []

/-- What each action is meant to put into the file. -/
def messages (_ : State θ α) (a : Action θ κ α) (_ : State θ α) : List (θ × List α) :=
  match a with
  | .call p k => [(p, text (code k))]
  | .write p xs => [(p, xs)]
  | _ => []

/-- The calls and writes of a run, in the order in which they began. -/
def sent (s : State θ α) (as : List (Action θ κ α)) : List (θ × List α) :=
  trace (step code) (messages code) s as

/-- The messages of `p`. -/
def sentBy (p : θ) (log : List (θ × List α)) : List α :=
  log.flatMap fun m => if m.1 = p then m.2 else []

/-- The bytes of `p`. -/
def of (p : θ) (bytes : List (θ × α)) : List α :=
  bytes.filterMap fun b => if b.1 = p then some b.2 else none

/-- The call leaves nothing in the buffer behind its last operation. -/
def Flushes (ops : List (Op α)) : Prop := ops = [] ∨ ops.getLast? = some .flush

/-! ## Lemmas -/

section Lemmas

variable (p q : θ) (xs ys : List (θ × α))

@[simp] theorem of_append : of p (xs ++ ys) = of p xs ++ of p ys := List.filterMap_append ..

@[simp] theorem of_nil : of p ([] : List (θ × α)) = [] := rfl

theorem of_map (zs : List α) : of p (zs.map (q, ·)) = if q = p then zs else [] := by
  induction zs with
  | nil => simp
  | cons z zs ih =>
      rw [of] at ih ⊢
      rw [List.map_cons, List.filterMap_cons, ih]
      by_cases hq : q = p <;> simp [hq]

theorem sentBy_append (log log' : List (θ × List α)) :
    sentBy p (log ++ log') = sentBy p log ++ sentBy p log' := List.flatMap_append

theorem sentBy_snoc (log : List (θ × List α)) (m : θ × List α) :
    sentBy p (log ++ [m]) = sentBy p log ++ if m.1 = p then m.2 else [] := by
  simp [sentBy]

theorem text_cons (o : Op α) (ops : List (Op α)) : text (o :: ops) = text [o] ++ text ops := by
  simp [text]

end Lemmas

theorem Flushes.tail {o : Op α} {ops : List (Op α)} (h : Flushes (o :: ops)) :
    Flushes ops ∧ (ops = [] → o = .flush) := by
  rcases h with h | h
  · cases h
  · cases ops with
    | nil => exact ⟨.inl rfl, fun _ => by simpa using h⟩
    | cons o' ops => exact ⟨.inr (by simpa using h), fun hnil => by cases hnil⟩

/-! ## The invariant -/

/-- Nothing is lost, doubled or reordered, and the buffer holds bytes of calls in
progress only. -/
structure Inv (log : List (θ × List α)) (s : State θ α) : Prop where
  flushes : ∀ p, Flushes (s.todo p)
  conserved : ∀ p, of p (s.file ++ s.buffer) ++ text (s.todo p) = sentBy p log
  buffered : ∀ p, s.todo p = [] → of p s.buffer = []

theorem inv_init : Inv [] (State.init : State θ α) := by
  constructor
  · exact fun _ => .inl rfl
  · exact fun _ => rfl
  · exact fun _ _ => rfl

variable {code} {log : List (θ × List α)} {s s' : State θ α}

theorem Inv.call {p : θ} {k : κ} (hcode : ∀ k, Flushes (code k)) (hs : Inv log s)
    (hidle : s.todo p = []) :
    Inv (log ++ [(p, text (code k))]) { s with todo := Function.update s.todo p (code k) } := by
  constructor
  · intro q
    by_cases hq : q = p
    · subst hq
      simpa using hcode k
    · simpa [hq] using hs.flushes q
  · intro q
    rw [sentBy_snoc, ← hs.conserved q]
    by_cases hq : q = p
    · subst hq
      simp [hidle, text]
    · simp [hq, Ne.symm hq]
  · intro q hnil
    by_cases hq : q = p
    · subst hq
      exact hs.buffered q hidle
    · exact hs.buffered q (by simpa [hq] using hnil)

theorem Inv.op {p : θ} {o : Op α} {rest : List (Op α)} (hs : Inv log s)
    (htodo : s.todo p = o :: rest) :
    Inv log ⟨s.perform p o, Function.update s.todo p rest⟩ := by
  obtain ⟨hrest, hlast⟩ := (htodo ▸ hs.flushes p).tail
  constructor
  · intro q
    by_cases hq : q = p
    · subst hq
      simpa using hrest
    · simpa [hq] using hs.flushes q
  · intro q
    rw [← hs.conserved q]
    by_cases hq : q = p
    · subst hq
      rw [htodo, text_cons]
      cases o <;> simp [Stream.perform, of_map, text]
    · cases o <;> simp [Stream.perform, of_map, hq, Ne.symm hq]
  · intro q hnil
    cases o with
    | flush => rfl
    | print xs =>
        by_cases hq : q = p
        · subst hq
          cases hlast (by simpa using hnil)
        · have hold := hs.buffered q (by simpa [hq] using hnil)
          simp [Stream.perform, of_map, hold, Ne.symm hq]

theorem inv_step {a : Action θ κ α} (hcode : ∀ k, Flushes (code k)) (hs : Inv log s)
    (h : step code s a = some s') : Inv (log ++ messages code s a s') s' := by
  cases a with
  | call p k =>
      simp only [step] at h
      split at h
      · cases h
        exact hs.call hcode (List.isEmpty_iff.mp ‹_›)
      · cases h
  | op p =>
      simp only [step] at h
      split at h
      · cases h
      · cases h
        change Inv (log ++ []) _
        rw [List.append_nil]
        exact hs.op ‹_›
  | drain n =>
      cases h
      change Inv (log ++ []) _
      rw [List.append_nil]
      refine ⟨hs.flushes, fun p => ?_, fun p hnil => ?_⟩
      · rw [← hs.conserved p, List.append_assoc, List.take_append_drop]
      · have hsplit := hs.buffered p hnil
        rw [← List.take_append_drop n s.buffer, of_append] at hsplit
        exact (List.append_eq_nil_iff.mp hsplit).2
  | write p xs =>
      simp only [step] at h
      split at h
      · rename_i hidle
        cases h
        have hnil := hs.buffered p (List.isEmpty_iff.mp hidle)
        refine ⟨hs.flushes, fun q => ?_, hs.buffered⟩
        rw [messages, sentBy_snoc, ← hs.conserved q]
        by_cases hq : p = q
        · subst hq
          simp [of_map, hnil, List.isEmpty_iff.mp hidle, text]
        · simp [of_map, hq]
      · cases h

/-- At every moment of every run, the bytes of a thread outside a call are in the file. -/
theorem written_of_run (hcode : ∀ k, Flushes (code k)) {as : List (Action θ κ α)}
    (hrun : run (step code) State.init as = some s) {p : θ} (hidle : s.todo p = []) :
    of p s.file = sentBy p (sent code State.init as) ∧ of p s.buffer = [] := by
  have hstep : ∀ (log : List (θ × List α)) (s : State θ α) (a : Action θ κ α) (s' : State θ α),
      Inv log s → step code s a = some s' → Inv (log ++ messages code s a s') s' :=
    fun _ _ _ _ hs h => inv_step hcode hs h
  have hinv := trace_invariant hstep inv_init hrun
  have hbuffer := hinv.buffered p hidle
  refine ⟨?_, hbuffer⟩
  have hall := hinv.conserved p
  rw [of_append, hbuffer, hidle, List.append_nil] at hall
  simpa [text, sent] using hall

/-- The file only grows at its end. -/
theorem file_prefix_of_step {a : Action θ κ α} (h : step code s a = some s') :
    s.file <+: s'.file := by
  cases a with
  | call p k =>
      simp only [step] at h
      split at h <;> cases h
      exact List.prefix_rfl
  | op p =>
      simp only [step] at h
      split at h <;> cases h
      rename_i o _ _
      cases o with
      | print xs => exact List.prefix_rfl
      | flush => exact List.prefix_append _ _
  | drain n =>
      cases h
      exact List.prefix_append _ _
  | write p xs =>
      simp only [step] at h
      split at h <;> cases h
      exact List.prefix_append _ _

theorem file_prefix_of_run {as : List (Action θ κ α)} (hrun : run (step code) s as = some s') :
    s.file <+: s'.file := by
  induction as generalizing s with
  | nil =>
      cases hrun
      exact List.prefix_rfl
  | cons a as ih =>
      obtain ⟨u, hu, hrest⟩ := Option.bind_eq_some_iff.mp hrun
      exact (file_prefix_of_step hu).trans (ih hrest)

end Susrv.Base.Stdio
