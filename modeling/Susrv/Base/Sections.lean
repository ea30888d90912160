import Mathlib.Data.List.Infix

/-!
# A stream written in sections

Writers share a stream under a lock.  A writer inside its section has a frame to
write, symbol by symbol, before it may release the lock; one that never releases
it may leave its section as well.  The stream is then made of whole frames in
the order of the acquisitions, except for the section that is still open.
-/

namespace Susrv.Base.Sections

variable {θ α φ : Type*}

/-- `todo p` is what `p` still has to write, `none` outside its section. -/
structure View (θ α : Type*) where
  owner : Option θ
  stream : List α
  todo : θ → Option (List α)

/-- A move of `p`; a frame is reported when `p` takes the lock to write it. -/
inductive Move (content : φ → List α) (v : View θ α) (p : θ) : Option φ → View θ α → Prop
  | keep {v' : View θ α} (howner : v'.owner = v.owner) (hstream : v'.stream = v.stream)
      (htodo : (v'.todo p).getD [] = (v.todo p).getD [])
      (hinside : v'.todo p ≠ none → v.todo p ≠ none) : Move content v p none v'
  | acquire {v' : View θ α} (f : φ) (hfree : v.owner = none) (howner : v'.owner = some p)
      (hstream : v'.stream = v.stream) (htodo : v'.todo p = some (content f)) :
      Move content v p (some f) v'
  | write {v' : View θ α} (c : α) (rest : List α) (hbefore : v.todo p = some (c :: rest))
      (howner : v'.owner = v.owner) (hstream : v'.stream = v.stream ++ [c])
      (htodo : v'.todo p = some rest) : Move content v p none v'
  | release {v' : View θ α} (hbefore : v.todo p = some []) (howner : v'.owner = none)
      (hstream : v'.stream = v.stream) (htodo : v'.todo p = none) : Move content v p none v'

/-- The frames of a log, written out. -/
def written (content : φ → List α) (log : List (θ × φ)) : List α :=
  log.flatMap fun e => content e.2

/-- The stream consists of the frames of the log, the last one perhaps unfinished;
only the owner of the lock is inside a section. -/
structure Framed (content : φ → List α) (log : List (θ × φ)) (v : View θ α) : Prop where
  inside : ∀ p, v.todo p ≠ none → v.owner = some p
  free : v.owner = none → v.stream = written content log
  held : ∀ p, v.owner = some p → ∃ done f part, log = done ++ [(p, f)] ∧
    content f = part ++ (v.todo p).getD [] ∧ v.stream = written content done ++ part

variable {content : φ → List α} {log : List (θ × φ)} {v v' : View θ α} {p : θ}

theorem Framed.init (htodo : ∀ p, v.todo p = none) (howner : v.owner = none)
    (hstream : v.stream = []) : Framed content [] v where
  inside q hq := absurd (htodo q) hq
  free _ := by rw [hstream, written, List.flatMap_nil]
  held q hq := by rw [howner] at hq; cases hq

theorem written_append (done : List (θ × φ)) (f : φ) :
    written content (done ++ [(p, f)]) = written content done ++ content f := by
  simp [written]

/-- A writer that is inside holds the lock, and its section is the last one. -/
theorem Framed.at_work (h : Framed content log v) {rest : List α} (hp : v.todo p = some rest) :
    v.owner = some p ∧ ∃ done f part, log = done ++ [(p, f)] ∧ content f = part ++ rest ∧
      v.stream = written content done ++ part := by
  have howner := h.inside p (by simp [hp])
  obtain ⟨done, f, part, hlog, hf, hstream⟩ := h.held p howner
  rw [hp, Option.getD_some] at hf
  exact ⟨howner, done, f, part, hlog, hf, hstream⟩

/-- Every move keeps the stream framed, with the frame it reports in the log. -/
theorem Framed.move {f : Option φ} (h : Framed content log v) (hmove : Move content v p f v')
    (hothers : ∀ q, q ≠ p → v'.todo q = v.todo q) :
    Framed content (log ++ (f.map fun f => (p, f)).toList) v' := by
  have hinside : ∀ q, (q = p → v.todo q ≠ none) → v'.todo q ≠ none → v.owner = some q := by
    intro q hq hq'
    by_cases hqp : q = p
    · exact h.inside q (hq hqp)
    · exact h.inside q (hothers q hqp ▸ hq')
  cases hmove with
  | keep howner hstream htodo hin =>
      have hsame : ∀ q, (v'.todo q).getD [] = (v.todo q).getD [] := by
        intro q
        by_cases hqp : q = p
        · rw [hqp, htodo]
        · rw [hothers q hqp]
      rw [Option.map_none, Option.toList_none, List.append_nil]
      refine ⟨fun q hq => ?_, fun hfree => ?_, fun q hq => ?_⟩
      · rw [howner]
        exact hinside q (fun hqp => hqp ▸ hin (hqp ▸ hq)) hq
      · rw [hstream, h.free (howner ▸ hfree)]
      · rw [hsame, hstream]
        exact h.held q (howner ▸ hq)
  | acquire f hfree howner hstream htodo =>
      rw [Option.map_some, Option.toList_some]
      refine ⟨fun q hq => ?_, fun hno => ?_, fun q hq => ?_⟩
      · by_cases hqp : q = p
        · rw [howner, hqp]
        · have hown := h.inside q (hothers q hqp ▸ hq)
          rw [hfree] at hown
          cases hown
      · rw [howner] at hno
        cases hno
      · rw [howner, Option.some.injEq] at hq
        subst hq
        refine ⟨log, f, [], rfl, ?_, ?_⟩
        · rw [htodo, Option.getD_some, List.nil_append]
        · rw [hstream, h.free hfree, List.append_nil]
  | write c rest hbefore howner hstream htodo =>
      obtain ⟨hown, done, f, part, hlog, hf, hpart⟩ := h.at_work hbefore
      rw [Option.map_none, Option.toList_none, List.append_nil]
      refine ⟨fun q hq => ?_, fun hfree => ?_, fun q hq => ?_⟩
      · rw [howner]
        exact hinside q (fun hqp => by simp [hqp, hbefore]) hq
      · rw [howner, hown] at hfree
        cases hfree
      · rw [howner, hown, Option.some.injEq] at hq
        subst hq
        refine ⟨done, f, part ++ [c], hlog, ?_, ?_⟩
        · rw [htodo, Option.getD_some, hf]
          simp
        · rw [hstream, hpart, List.append_assoc]
  | release hbefore howner hstream htodo =>
      obtain ⟨hown, done, f, part, hlog, hf, hpart⟩ := h.at_work hbefore
      rw [Option.map_none, Option.toList_none, List.append_nil]
      refine ⟨fun q hq => ?_, fun _ => ?_, fun q hq => ?_⟩
      · by_cases hqp : q = p
        · rw [hqp, htodo] at hq
          exact absurd rfl hq
        · have hq' := h.inside q (hothers q hqp ▸ hq)
          rw [hown, Option.some.injEq] at hq'
          exact absurd hq'.symm hqp
      · rw [hstream, hpart, hlog, written_append, hf, List.append_nil]
      · rw [howner] at hq
        cases hq

/-- Nothing a view shows has changed. -/
theorem Framed.same (h : Framed content log v) (howner : v'.owner = v.owner)
    (hstream : v'.stream = v.stream) (htodo : v'.todo = v.todo) : Framed content log v' := by
  obtain ⟨hinside, hfree, hheld⟩ := h
  constructor <;> rw [howner]
  · rwa [htodo]
  · rwa [hstream]
  · rwa [htodo, hstream]

end Susrv.Base.Sections
