import Mathlib.Data.Fintype.Basic
import Susrv.Native.Proofs.LiveShell

/-!
# Delivery of results

All callers share one cell and one condition variable, and nothing ties a
wake-up to a command.  `ownStatus_of_reach` says which orders of the accesses to
the cell give every caller its own exit status, `noLostCompletion_of_reach`
which signals a single caller does not miss.
-/

namespace Susrv.Native

open Base Base.CString Base.Transition

variable {τ : Type}

/-! ## The exit status of one's own command -/

/-- The exit status of frame `k`, as a result of `su_srv_exec`. -/
def History.statusOf (h : History) (k : Nat) : Option Int := (h.statuses[k]?).map Nat.cast

/-- Every call that has returned gave the exit status of its own command. -/
def OwnStatus (s : State τ) : Prop :=
  ∀ r ∈ s.hist.results, s.hist.statusOf r.frame = some r.value

/-- The frame of a call that is about to reset the cell. -/
def Call.resets : Call → Option Nat
  | .exec _ (.reset k) => some k
  | _ => none

/-- The code the handler is about to store. -/
def HandlerPc.stores : HandlerPc → Option Int
  | .perform (.exitCode n :: _) => some n
  | _ => none

/-- No call resets the cell while a code is stored that its caller has not read, no
other code is stored over it, and no call reads before its own code is stored. -/
def CellKept (s : State τ) : Action τ → Prop
  | .caller t _ =>
      (∀ k ∈ (s.calls t).resets, ∀ u, ∀ j ∈ (s.calls u).frame, s.hist.stored ≤ j) ∧
      ∀ k ∈ (s.calls t).reads, k < s.hist.stored
  | .handler _ =>
      ∀ n ∈ s.handler.stores, ∀ u, ∀ j ∈ (s.calls u).frame, j < s.hist.stored →
        s.hist.statusOf j = some n
  | _ => True

structure CellInv (s : State τ) : Prop extends LiveInv s where
  kept : ∀ t k, (s.calls t).frame = some k → k < s.hist.stored →
    s.hist.statusOf k = some s.shell_cmd_exit_code
  own : OwnStatus s

theorem cellInv_published [DecidableEq τ] (code : Int) :
    CellInv (State.published code : State τ) where
  toLiveInv := liveInv_published code
  kept := by simp [State.published, State.opening]
  own := by simp [OwnStatus, State.published, State.opening, History.init]

theorem History.statusOf_mono {h h' : History} {k : Nat} {n : Int}
    (hpre : h.statuses <+: h'.statuses) (hk : h.statusOf k = some n) : h'.statusOf k = some n := by
  obtain ⟨more, hmore⟩ := hpre
  obtain ⟨m, hm, hn⟩ := Option.map_eq_some_iff.mp hk
  have hlt := (List.getElem?_eq_some_iff.mp hm).1
  rw [History.statusOf, ← hmore, List.getElem?_append_left hlt]
  exact hk

variable {s s' : State τ} {t : τ}

theorem LiveInv.stored_le_submitted (hs : LiveInv s) : s.hist.stored ≤ s.hist.submitted := by
  have hstored := hs.stored_le
  have hechoed := hs.echoed
  have htaken := hs.taken_le
  have hsubmitted := hs.submitted
  omega

variable [DecidableEq τ]

theorem cellInv_caller {ans : Answer τ} (hs : CellInv s) (hok : CellKept s (.caller t ans))
    (h : callStep s t ans (s.calls t) = some s') (hlive' : LiveInv s') : CellInv s' := by
  obtain ⟨hresets, hreads⟩ := hok
  cases execCall_cases (hs.no_exit t) h with
  | crash hdead => exact absurd hs.toLive hdead
  | move c hout hcalls hcell _ hresults _ _ _ _ _ _ hframe =>
      have hstatus : s'.hist.statusOf = s.hist.statusOf := by
        funext k
        rw [History.statusOf, History.statusOf, hout.statuses]
      refine ⟨hlive', fun u k hk hlt => ?_, ?_⟩
      · rw [hstatus, hcell]
        rw [hout.stored] at hlt
        rw [hcalls, Function.update_apply] at hk
        split at hk
        · rcases hframe k hk with ⟨hold, -⟩ | ⟨hnew, -⟩
          · exact hs.kept t k hold hlt
          · have := hs.stored_le_submitted
            omega
        · exact hs.kept u k hk hlt
      · rw [OwnStatus, hresults, hstatus]
        exact hs.own
  | reset cmd k hpc heq =>
      have hfresh := hresets k (by simp [hpc, Call.resets])
      subst heq
      refine ⟨hlive', fun u j hj hlt => ?_, hs.own⟩
      have hj' : (s.calls u).frame = some j := by
        rw [State.goto_calls] at hj
        split at hj
        · rename_i hut
          rw [hut, hpc]
          exact hj
        · exact hj
      exact absurd hlt (Nat.not_lt.mpr (hfresh u j hj'))
  | wait cmd k hpc _ heq =>
      subst heq
      refine ⟨hlive', fun u j hj hlt => ?_, hs.own⟩
      rw [State.goto_calls] at hj
      split at hj
      · exact hs.kept t j (by rw [hpc]; exact hj) hlt
      · exact hs.kept u j hj hlt
  | read cmd k hpc heq =>
      have hlt := hreads k (by simp [hpc, Call.reads])
      have hown := hs.kept t k (by simp [hpc, Call.frame]) hlt
      subst heq
      refine ⟨hlive', fun u j hj hlt => ?_, fun r hr => ?_⟩
      · rw [State.goto_calls] at hj
        split at hj
        · cases hj
        · exact hs.kept u j hj hlt
      · rcases List.mem_cons.mp hr with rfl | hr
        · exact hown
        · exact hs.own r hr

theorem cellInv_handler {ans : Answer τ} (hs : CellInv s) (hok : CellKept s (.handler ans))
    (h : handlerStep s ans s.handler = some s') (hlive' : LiveInv s') : CellInv s' := by
  rcases handlerStep_live hs.toLive hs.peer hs.reading h with
    ⟨pc, lines, rfl, -, -⟩ | ⟨e, rest, s₁, hpc, he, rfl⟩
  · exact ⟨hlive', hs.kept, hs.own⟩
  · cases e with
    | exitCode n =>
        cases he
        refine ⟨hlive', fun u j hj hlt => ?_, hs.own⟩
        have hstatus : s.hist.statusOf j = some n := by
          rcases Nat.lt_succ_iff_lt_or_eq.mp hlt with hbefore | hnow
          · exact hok n (by simp [hpc, HandlerPc.stores]) u j hj hbefore
          · rw [hnow]
            exact hs.code_eq hpc
        exact hstatus
    | signal =>
        simp only [applyEffect] at he
        split at he
        · obtain ⟨m, -, rfl⟩ := Option.map_eq_some_iff.mp he
          exact ⟨hlive', hs.kept, hs.own⟩
        · cases he
    | line text =>
        cases he
        exact ⟨hlive', hs.kept, hs.own⟩

theorem cellInv_step {a : Action τ} (hs : CellInv s) (hcons : Considered s a) (hok : CellKept s a)
    (h : step s a = some s') : CellInv s' := by
  have hlive' : LiveInv s' := liveInv_step hs.toLiveInv hcons h
  cases step_cases h with
  | invoke t e =>
      refine ⟨hlive', fun u j hj hlt => ?_, hs.own⟩
      rw [State.goto_calls] at hj
      split at hj
      · cases e <;> cases hj
      · exact hs.kept u j hj hlt
  | caller t ans _ h => exact cellInv_caller hs hok h hlive'
  | handler ans _ h => exact cellInv_handler hs hok h hlive'
  | spurious t => exact ⟨hlive', hs.kept, hs.own⟩
  | closePeer ho | publish ho => simp [hs.opened] at ho
  | shell a _ h =>
      have hk := shellStep_keeps h
      refine ⟨hlive', ?_, fun r hr => ?_⟩
      · rw [hk.calls, hk.stored, hk.exit_code]
        exact fun u j hj hlt => History.statusOf_mono hk.statuses (hs.kept u j hj hlt)
      · rw [hk.results] at hr
        exact History.statusOf_mono hk.statuses (hs.own r hr)

theorem ownStatus_of_reach (code : Int)
    (h : Reach step (fun s a => Considered s a ∧ CellKept s a) (State.published code) s) :
    OwnStatus s := by
  have hinv : CellInv s :=
    h.invariant (cellInv_published code) fun _ _ _ hs hok hstep => cellInv_step hs hok.1 hok.2 hstep
  exact hinv.own

instance (s : State τ) : DecidablePred (Considered s)
  | .invoke _ e => inferInstanceAs (Decidable (e ≠ .exit))
  | .shell (.print out) => inferInstanceAs (Decidable (¬ EOC_TAG <:+: s.shell.tail ++ out))
  | .shell (.finish _) => inferInstanceAs (Decidable (s.shell.tail = []))
  | .shell .die | .shell .closePeer => isFalse id
  | .shell .take | .caller _ _ | .handler _ | .spurious _ | .opener => isTrue trivial

instance [Fintype τ] (s : State τ) : DecidablePred (CellKept s)
  | .caller _ _ => inferInstanceAs (Decidable (_ ∧ _))
  | .handler _ => inferInstanceAs (Decidable (∀ n ∈ _, _))
  | .invoke _ _ | .spurious _ | .opener | .shell _ => isTrue trivial

instance (s : State τ) : Decidable (OwnStatus s) := inferInstanceAs (Decidable (∀ r ∈ _, _))

/-- A caller, from its call to its sleep. -/
def submitSteps (t : τ) (cmd : Bytes) : List (Action τ) :=
  .invoke t (.exec cmd) :: List.replicate 9 (.caller t .ok)

/-- The shell runs one frame. -/
def frameSteps (out : Bytes) (status : Nat) : List (Action τ) :=
  [.shell .take, .shell (.print out), .shell (.finish status)] ++ List.replicate 3 (.shell .take)

/-- Two calls overlap: both commands are submitted before the shell answers the first, and
each caller reads its own status before the handler stores the next. -/
theorem ownStatus_overlapping :
    ∃ s : State Bool, s.hist.results = [⟨1, 5, false⟩, ⟨0, 3, false⟩] ∧ OwnStatus s := by
  have hrun : (runOk step (fun s a => Considered s a ∧ CellKept s a) (State.published 0)
      [submitSteps false (ascii "ls"), submitSteps true (ascii "id"), frameSteps (ascii "etc\n") 3,
        List.replicate 8 (.handler .ok), [.handler (.wake (some (.caller false)))],
        List.replicate 3 (.caller false .ok), frameSteps [] 5, List.replicate 4 (.handler .ok),
        [.handler (.wake (some (.caller true)))],
        List.replicate 3 (.caller true .ok)].flatten).map (fun s => s.hist.results) =
      some [⟨1, 5, false⟩, ⟨0, 3, false⟩] := by decide +kernel
  obtain ⟨s, hreach, hresults⟩ := Reach.exists_of_runOk hrun
  exact ⟨s, hresults, ownStatus_of_reach 0 hreach⟩

/-- Two callers, no spurious wake-up: the second code is stored before the first
caller, already woken, has read its own. -/
theorem not_ownStatus_two_callers :
    ¬ ∀ (code : Int) (s : State Bool),
      Reach step Considered (State.published code) s → OwnStatus s := by
  intro h
  have hrun : (runOk step Considered (State.published 0)
      [submitSteps false (ascii "false"), submitSteps true (ascii "true"),
        frameSteps [] 1, frameSteps [] 0, List.replicate 4 (.handler .ok),
        [.handler (.wake (some (.caller false)))], List.replicate 4 (.handler .ok),
        List.replicate 3 (.caller false .ok)].flatten).map (fun s => decide (OwnStatus s)) =
      some false := by decide +kernel
  obtain ⟨s, hreach, hwrong⟩ := Reach.exists_of_runOk hrun
  exact of_decide_eq_false hwrong (h 0 s hreach)

/-! ## The completion of a single caller -/

/-- Only `t₀` calls `su_srv_exec`. -/
def OneCaller (t₀ : τ) : Action τ → Prop
  | .invoke t (.exec _) => t = t₀
  | _ => True

/-- While `t₀` sleeps behind the signal of its own command, a later one is to come. -/
def NoLostCompletion (t₀ : τ) (s : State τ) : Prop :=
  ∀ k ∈ (s.calls t₀).waitsFor, .caller t₀ ∈ s.sync.sleepers → k < s.hist.signalled →
    s.hist.signalled < s.hist.submitted

/-- The handler is about to signal a completion. -/
def HandlerPc.signals : HandlerPc → Bool
  | .perform (.signal :: _) => true
  | _ => false

/-- The handler does not signal the completion of a command whose caller has not
begun to wait. -/
def SignalsWaiter (t₀ : τ) (s : State τ) : Action τ → Prop
  | .handler _ =>
      s.handler.signals = true → (s.calls t₀).awaiting = none →
        ∀ k ∈ (s.calls t₀).frame, k ≠ s.hist.signalled
  | _ => True

structure CompletionInv (t₀ : τ) (s : State τ) : Prop extends LiveInv s where
  others : ∀ t, t ≠ t₀ → (s.calls t).isExec = false
  asleep : s.sync.sleepers = [] ∨
    (s.sync.sleepers = [.caller t₀] ∧ (s.calls t₀).waitsFor ≠ none)
  ahead : ∀ k, (s.calls t₀).frame = some k → (s.calls t₀).awaiting = none →
    s.hist.signalled ≤ k
  unsignalled : ∀ k, (s.calls t₀).waitsFor = some k → s.sync.sleepers ≠ [] →
    s.hist.signalled ≤ k

section

omit [DecidableEq τ]

theorem completionInv_published (t₀ : τ) (code : Int) :
    CompletionInv t₀ (State.published code) where
  toLiveInv := liveInv_published code
  others := fun _ _ => rfl
  asleep := .inl rfl
  ahead := by simp [State.published, State.opening]
  unsignalled := by simp [State.published, State.opening]

theorem CompletionInv.noLostCompletion {t₀ : τ} (hs : CompletionInv t₀ s) :
    NoLostCompletion t₀ s := by
  intro k hk hin hlt
  have hle := hs.unsignalled k hk (List.ne_nil_of_mem hin)
  omega

theorem LiveInv.signalled_le_submitted (hs : LiveInv s) :
    s.hist.signalled ≤ s.hist.submitted := by
  have hsignals := hs.signals
  have hechoed := hs.echoed
  have htaken := hs.taken_le
  have hsubmitted := hs.submitted
  omega

end

/-- A thread moves without touching the sleepers. -/
theorem completionInv_goto {t₀ : τ} {c : Call} (hs : CompletionInv t₀ s) (hlive' : LiveInv s')
    (hcalls : s'.calls = Function.update s.calls t c)
    (hsleepers : s'.sync.sleepers = s.sync.sleepers)
    (hsignalled : s'.hist.signalled = s.hist.signalled) (hkind : t ≠ t₀ → c.isExec = false)
    (hpark : c.waitsFor = none) (hawake : t = t₀ → s.sync.sleepers = [])
    (hframe : t = t₀ → ∀ k, c.frame = some k → c.awaiting = none → s.hist.signalled ≤ k) :
    CompletionInv t₀ s' := by
  have hcall : ∀ u, s'.calls u = if u = t then c else s.calls u := by
    intro u
    rw [hcalls, Function.update_apply]
  refine ⟨hlive', fun u hu => ?_, ?_, fun k hk hno => ?_, fun k hk hne => ?_⟩
  · rw [hcall u]
    split
    · rename_i hut
      exact hkind (hut ▸ hu)
    · exact hs.others u hu
  · rw [hsleepers, hcall t₀]
    split
    · rename_i ht
      exact .inl (hawake ht.symm)
    · exact hs.asleep
  · rw [hcall t₀] at hk hno
    rw [hsignalled]
    split at hk
    · rename_i ht
      rw [if_pos ht] at hno
      exact hframe ht.symm k hk hno
    · rename_i ht
      rw [if_neg ht] at hno
      exact hs.ahead k hk hno
  · rw [hcall t₀] at hk
    rw [hsleepers] at hne
    rw [hsignalled]
    split at hk
    · simp [hpark] at hk
    · exact hs.unsignalled k hk hne

theorem completionInv_caller {t₀ : τ} {ans : Answer τ} (hs : CompletionInv t₀ s)
    (h : callStep s t ans (s.calls t) = some s') (hlive' : LiveInv s') : CompletionInv t₀ s' := by
  have hother : (s.calls t).isExec = true → t = t₀ := by
    intro hexec
    by_contra ht
    simp [hs.others t ht] at hexec
  have hnobody : (s.calls t₀).waitsFor = none → s.sync.sleepers = [] :=
    fun hno => hs.asleep.resolve_right fun hin => hin.2 hno
  cases execCall_cases (hs.no_exit t) h with
  | crash hdead => exact absurd hs.toLive hdead
  | move c hout hcalls _ _ _ hsleep _ _ hpark hkind hawake hframe =>
      refine completionInv_goto hs hlive' hcalls hsleep hout.signalled ?_ hpark ?_ ?_
      · intro ht
        rw [Bool.eq_false_iff]
        exact fun hexec => ht (hother (hkind hexec))
      · rintro rfl
        rcases hs.asleep with hnil | ⟨hself, hwaits⟩
        · exact hnil
        · exact absurd (by simp [hself]) (hawake hwaits)
      · rintro rfl k hk hno
        rcases hframe k hk with ⟨hold, hsame⟩ | ⟨rfl, -⟩
        · exact hs.ahead k hold (hsame ▸ hno)
        · exact hs.signalled_le_submitted
  | reset cmd k hpc heq =>
      have ht := hother (by rw [hpc]; rfl)
      subst heq ht
      refine completionInv_goto hs hlive' rfl rfl rfl (by simp) rfl
        (fun _ => hnobody (by rw [hpc]; rfl)) fun _ j hj _ => ?_
      exact hs.ahead j (by rw [hpc]; exact hj) (by rw [hpc]; rfl)
  | wait cmd k hpc _ heq =>
      have ht := hother (by rw [hpc]; rfl)
      have hnil := hnobody (by rw [← ht, hpc]; rfl)
      subst heq ht
      refine ⟨hlive', fun u hu => ?_, .inr ⟨?_, ?_⟩, fun j hj hno => ?_, fun j hj _ => ?_⟩
      · rw [State.goto_calls, if_neg hu]
        exact hs.others u hu
      · simp [State.goto, Monitor.wait, hnil]
      · simp [State.goto_calls, Call.waitsFor]
      · simp [State.goto_calls, Call.awaiting] at hno
      · have hjk : k = j := by simpa [State.goto_calls, Call.waitsFor] using hj
        exact hs.ahead j (by simp [hpc, Call.frame, hjk]) (by rw [hpc]; rfl)
  | read cmd k hpc heq =>
      have ht := hother (by rw [hpc]; rfl)
      subst heq ht
      exact completionInv_goto hs hlive' rfl rfl rfl (by simp) rfl
        (fun _ => hnobody (by rw [hpc]; rfl)) (by simp)

/-- A signal leaves nobody asleep. -/
theorem CompletionInv.sleepers_signal {t₀ : τ} {w : Option (Party τ)} {m : Monitor (Party τ)}
    (hs : CompletionInv t₀ s) (hm : s.sync.signal w = some m) : m.sleepers = [] := by
  rcases Monitor.signal_eq_some.mp hm with ⟨-, hnil, rfl⟩ | ⟨p, -, hin, rfl⟩
  · exact hnil
  · rcases hs.asleep with hnil | ⟨hself, -⟩
    · simp [hnil] at hin
    · rw [hself, List.mem_singleton] at hin
      simp [hself, hin]

theorem completionInv_handler {t₀ : τ} {ans : Answer τ} (hs : CompletionInv t₀ s)
    (hok : SignalsWaiter t₀ s (.handler ans)) (h : handlerStep s ans s.handler = some s')
    (hlive' : LiveInv s') : CompletionInv t₀ s' := by
  rcases handlerStep_live hs.toLive hs.peer hs.reading h with
    ⟨pc, lines, rfl, -, -⟩ | ⟨e, rest, s₁, hpc, he, rfl⟩
  · exact ⟨hlive', hs.others, hs.asleep, hs.ahead, hs.unsignalled⟩
  · cases e with
    | exitCode n =>
        cases he
        exact ⟨hlive', hs.others, hs.asleep, hs.ahead, hs.unsignalled⟩
    | signal =>
        simp only [applyEffect] at he
        split at he
        · obtain ⟨m, hm, rfl⟩ := Option.map_eq_some_iff.mp he
          have hnil := hs.sleepers_signal hm
          refine ⟨hlive', hs.others, .inl hnil, fun k hk hno => ?_, fun k _ hne => absurd hnil hne⟩
          have hle := hs.ahead k hk hno
          have hne := hok (by simp [hpc, HandlerPc.signals]) hno k hk
          simp only [State.toHandler]
          omega
        · cases he
    | line text =>
        cases he
        exact ⟨hlive', hs.others, hs.asleep, hs.ahead, hs.unsignalled⟩

theorem completionInv_step {t₀ : τ} {a : Action τ} (hs : CompletionInv t₀ s)
    (hcons : Considered s a) (hone : OneCaller t₀ a) (hok : SignalsWaiter t₀ s a)
    (h : step s a = some s') : CompletionInv t₀ s' := by
  have hlive' : LiveInv s' := liveInv_step hs.toLiveInv hcons h
  cases step_cases h with
  | invoke t e hidle =>
      have hentry : e.call.frame = none ∧ e.call.waitsFor = none := by
        cases e <;> exact ⟨rfl, rfl⟩
      refine completionInv_goto hs hlive' rfl rfl rfl (fun ht => ?_) hentry.2 ?_
        (by simp [hentry.1])
      · cases e with
        | exec cmd => exact absurd hone ht
        | _ => rfl
      · rintro rfl
        exact hs.asleep.resolve_right fun hin => hin.2 (by rw [hidle]; rfl)
  | caller t ans _ h => exact completionInv_caller hs h hlive'
  | handler ans _ h => exact completionInv_handler hs hok h hlive'
  | spurious t hin =>
      have hnil : s.sync.sleepers.erase (.caller t) = [] := by
        rcases hs.asleep with hnil | ⟨hself, -⟩
        · simp [hnil]
        · rw [hself, List.mem_singleton] at hin
          simp [hself, hin]
      exact ⟨hlive', hs.others, .inl hnil, hs.ahead, fun k _ hne => absurd hnil hne⟩
  | closePeer ho | publish ho => simp [hs.opened] at ho
  | shell a _ h =>
      have hk := shellStep_keeps h
      refine ⟨hlive', ?_, ?_, ?_, ?_⟩ <;> simp only [hk.calls, hk.sync, hk.signalled]
      · exact hs.others
      · exact hs.asleep
      · exact hs.ahead
      · exact hs.unsignalled

theorem noLostCompletion_of_reach (t₀ : τ) (code : Int)
    (h : Reach step (fun s a => (Considered s a ∧ OneCaller t₀ a) ∧ SignalsWaiter t₀ s a)
      (State.published code) s) : NoLostCompletion t₀ s := by
  have hinv : CompletionInv t₀ s :=
    h.invariant (completionInv_published t₀ code) fun _ _ _ hs hok hstep =>
      completionInv_step hs hok.1.1 hok.1.2 hok.2 hstep
  exact hinv.noLostCompletion

instance (t₀ : τ) : DecidablePred (OneCaller t₀)
  | .invoke t (.exec _) => inferInstanceAs (Decidable (t = t₀))
  | .invoke _ .exit | .invoke _ (.setTtyEcho _) | .invoke _ .getTtyEcho | .invoke _ .lastTtyRead
  | .caller _ _ | .handler _ | .spurious _ | .opener | .shell _ => isTrue trivial

instance (t₀ : τ) (s : State τ) : DecidablePred (SignalsWaiter t₀ s)
  | .handler _ => inferInstanceAs (Decidable (_ → _ → ∀ k ∈ _, _))
  | .invoke _ _ | .caller _ _ | .spurious _ | .opener | .shell _ => isTrue trivial

instance (t₀ : τ) (s : State τ) : Decidable (NoLostCompletion t₀ s) :=
  inferInstanceAs (Decidable (∀ k ∈ _, _))

/-- The second of two commands: its caller sleeps before the handler signals. -/
theorem noLostCompletion_second_command :
    ∃ s : State Unit, s.hist.signalled = 1 ∧ (s.calls ()).waitsFor = some 1 ∧
      NoLostCompletion () s := by
  have hrun : (runOk step (fun s a => (Considered s a ∧ OneCaller () a) ∧ SignalsWaiter () s a)
      (State.published 0)
      [submitSteps () (ascii "true"), frameSteps [] 0, List.replicate 4 (.handler .ok),
        [.handler (.wake (some (.caller ())))], List.replicate 3 (.caller () .ok),
        submitSteps () (ascii "false"), frameSteps [] 1].flatten).map
        (fun s => (s.hist.signalled, (s.calls ()).waitsFor)) = some (1, some 1) := by
    decide +kernel
  obtain ⟨s, hreach, hend⟩ := Reach.exists_of_runOk hrun
  obtain ⟨hsignalled, hwaits⟩ := Prod.mk.inj hend
  exact ⟨s, hsignalled, hwaits, noLostCompletion_of_reach () 0 hreach⟩

/-- The shell is fast: the handler signals before the caller has gone on from its
third write, and the caller sleeps for good. -/
theorem not_noLostCompletion_fast_shell :
    ¬ ∀ (code : Int) (s : State Unit),
      Reach step (fun s a => Considered s a ∧ OneCaller () a) (State.published code) s →
        NoLostCompletion () s := by
  intro h
  have hrun : (runOk step (fun s a => Considered s a ∧ OneCaller () a) (State.published 0)
      [[.invoke () (.exec (ascii "true"))], List.replicate 6 (.caller () .ok),
        [.shell .take, .shell (.finish 0), .shell .take, .shell .take],
        List.replicate 4 (.handler .ok), [.handler (.wake none)],
        List.replicate 3 (.caller () .ok)].flatten).map
        (fun s => decide (NoLostCompletion () s)) = some false := by decide +kernel
  obtain ⟨s, hreach, hlost⟩ := Reach.exists_of_runOk hrun
  exact of_decide_eq_false hlost (h 0 s hreach)

end Susrv.Native
