import Susrv.Base.Simulation

/-!
# One worker and its queue

What a component that runs jobs for others promises: jobs start in the order in
which they were submitted, one at a time, and each is answered once, with its
own result, before the next one starts.  The events that a queue accepts are
its specification; `orderly_of_run` reads the order off them.
-/

namespace Susrv.Base.JobQueue

open Transition

variable {κ ν : Type*}

inductive Event (κ ν : Type*)
  | submit (k : κ)
  | start (k : κ)
  | finish (v : ν)
  | answer (v : ν)
  deriving DecidableEq

/-- What the worker is at. -/
inductive Phase (κ ν : Type*)
  | idle
  | running (k : κ)
  | ended (k : κ) (v : ν)
  deriving DecidableEq

structure Queue (κ ν : Type*) where
  pending : List κ
  phase : Phase κ ν
  deriving DecidableEq

def init : Queue κ ν := ⟨[], .idle⟩

/-- Results that nobody was told yet. -/
def Phase.unanswered : Phase κ ν → List ν
  | .ended _ v => [v]
  | _ => []

/-- Jobs that have no result yet. -/
def Phase.underway : Phase κ ν → List κ
  | .running k => [k]
  | _ => []

def step [DecidableEq κ] [DecidableEq ν] (q : Queue κ ν) : Event κ ν → Option (Queue κ ν)
  | .submit k => some { q with pending := q.pending ++ [k] }
  | .start k =>
      if q.phase = .idle ∧ q.pending.head? = some k then some ⟨q.pending.tail, .running k⟩ else none
  | .finish v =>
      match q.phase with
      | .running k => some { q with phase := .ended k v }
      | _ => none
  | .answer v =>
      match q.phase with
      | .ended _ w => if v = w then some { q with phase := .idle } else none
      | _ => none

theorem Phase.length_le_one (p : Phase κ ν) : p.unanswered.length + p.underway.length ≤ 1 := by
  cases p <;> simp [Phase.unanswered, Phase.underway]

/-! ## What a log says -/

def Event.submitted : Event κ ν → Option κ
  | .submit k => some k
  | _ => none

def Event.started : Event κ ν → Option κ
  | .start k => some k
  | _ => none

def Event.finished : Event κ ν → Option ν
  | .finish v => some v
  | _ => none

def Event.answered : Event κ ν → Option ν
  | .answer v => some v
  | _ => none

def submits (log : List (Event κ ν)) : List κ := log.filterMap Event.submitted
def starts (log : List (Event κ ν)) : List κ := log.filterMap Event.started
def finishes (log : List (Event κ ν)) : List ν := log.filterMap Event.finished
def answers (log : List (Event κ ν)) : List ν := log.filterMap Event.answered

/-- The `n`-th job to start is the `n`-th submitted, the `n`-th answer is its result, and
it was given before the next job started. -/
structure Orderly (log : List (Event κ ν)) : Prop where
  started : starts log <+: submits log
  answered : answers log <+: finishes log
  finished_le : (finishes log).length ≤ (starts log).length
  started_le : (starts log).length ≤ (answers log).length + 1

/-- A log and the queue it leads to. -/
structure Accounts (log : List (Event κ ν)) (q : Queue κ ν) : Prop where
  submitted : submits log = starts log ++ q.pending
  finished : finishes log = answers log ++ q.phase.unanswered
  started : (starts log).length = (finishes log).length + q.phase.underway.length

theorem accounts_init : Accounts ([] : List (Event κ ν)) init := ⟨rfl, rfl, rfl⟩

theorem Accounts.orderly {log : List (Event κ ν)} {q : Queue κ ν} (h : Accounts log q) :
    Orderly log := by
  obtain ⟨hsubmitted, hfinished, hstarted⟩ := h
  have hone := q.phase.length_le_one
  have hlen := congrArg List.length hfinished
  rw [List.length_append] at hlen
  constructor
  · exact hsubmitted ▸ List.prefix_append _ _
  · exact hfinished ▸ List.prefix_append _ _
  · omega
  · omega

section Snoc

variable (log : List (Event κ ν)) (e : Event κ ν)

theorem filterMap_snoc {α β : Type*} (f : α → Option β) (xs : List α) (x : α) :
    (xs ++ [x]).filterMap f = xs.filterMap f ++ (f x).toList := by
  rw [List.filterMap_append]
  cases hx : f x <;> simp [hx]

theorem submits_snoc : submits (log ++ [e]) = submits log ++ e.submitted.toList :=
  filterMap_snoc _ log e

theorem starts_snoc : starts (log ++ [e]) = starts log ++ e.started.toList :=
  filterMap_snoc _ log e

theorem finishes_snoc : finishes (log ++ [e]) = finishes log ++ e.finished.toList :=
  filterMap_snoc _ log e

theorem answers_snoc : answers (log ++ [e]) = answers log ++ e.answered.toList :=
  filterMap_snoc _ log e

end Snoc

variable [DecidableEq κ] [DecidableEq ν] {log : List (Event κ ν)} {q q' : Queue κ ν}

theorem accounts_step {e : Event κ ν} (hq : Accounts log q) (h : step q e = some q') :
    Accounts (log ++ [e]) q' := by
  obtain ⟨hsubmitted, hfinished, hstarted⟩ := hq
  cases e with
  | submit k =>
      cases h
      constructor <;> simp only [submits_snoc, starts_snoc, finishes_snoc, answers_snoc]
      · simp [Event.submitted, Event.started, hsubmitted]
      · simp [Event.finished, Event.answered, hfinished]
      · simp [Event.started, Event.finished, hstarted]
  | start k =>
      simp only [step] at h
      split at h
      · rename_i hk
        obtain ⟨hidle, hhead⟩ := hk
        cases h
        have hpending : q.pending = k :: q.pending.tail := List.eq_cons_of_mem_head? hhead
        rw [hidle] at hfinished hstarted
        constructor <;> simp only [submits_snoc, starts_snoc, finishes_snoc, answers_snoc]
        · simp [Event.submitted, Event.started, hsubmitted, ← hpending]
        · simpa [Event.finished, Event.answered, Phase.unanswered] using hfinished
        · simpa [Event.started, Event.finished, Phase.underway] using hstarted
      · cases h
  | finish v =>
      simp only [step] at h
      split at h
      · rename_i k hphase
        cases h
        rw [hphase] at hfinished hstarted
        constructor <;> simp only [submits_snoc, starts_snoc, finishes_snoc, answers_snoc]
        · simpa [Event.submitted, Event.started] using hsubmitted
        · simpa [Event.finished, Event.answered, Phase.unanswered] using hfinished
        · simpa [Event.started, Event.finished, Phase.underway] using hstarted
      · cases h
  | answer v =>
      simp only [step] at h
      split at h
      · rename_i k w hphase
        split at h
        · rename_i hw
          cases h
          rw [hphase] at hfinished hstarted
          constructor <;> simp only [submits_snoc, starts_snoc, finishes_snoc, answers_snoc]
          · simpa [Event.submitted, Event.started] using hsubmitted
          · simpa [Event.finished, Event.answered, Phase.unanswered, hw] using hfinished
          · simpa [Event.started, Event.finished, Phase.underway] using hstarted
        · cases h
      · cases h

theorem run_submits (q : Queue κ ν) (ks : List κ) :
    run step q (ks.map .submit) = some { q with pending := q.pending ++ ks } := by
  induction ks generalizing q with
  | nil => simp [run]
  | cons k ks ih =>
      rw [List.map_cons, run, step, Option.bind_some, ih]
      simp

theorem accounts_run (hq : Accounts log q) {es : List (Event κ ν)} (h : run step q es = some q') :
    Accounts (log ++ es) q' := by
  induction es generalizing log q with
  | nil =>
      cases h
      rwa [List.append_nil]
  | cons e es ih =>
      obtain ⟨u, hu, hrest⟩ := Option.bind_eq_some_iff.mp h
      have hnext := ih (accounts_step hq hu) hrest
      rwa [List.append_assoc] at hnext

/-- Whatever a queue accepts is in order. -/
theorem orderly_of_run {es : List (Event κ ν)} (h : run step init es = some q) : Orderly es :=
  (accounts_run accounts_init h).orderly

end Susrv.Base.JobQueue
