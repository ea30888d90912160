import Susrv.Base.Simulation
import Susrv.Native.Proofs.Progress
import Susrv.Native.Proofs.SingleCaller

/-!
# Which sleep is for good

A signal that is sent before the caller sleeps is lost.  `sleeps_for_good_iff` says
that nothing else keeps a single caller asleep: a sleep is for good exactly if the
completion of its command had been signalled when it began.  In every other case the
shell and the handler lead out of it by themselves.
-/

namespace Susrv.Native

open Base Base.CString Base.Transition

variable {τ : Type} [DecidableEq τ] {s s' : State τ} {t₀ : τ} {ans : Answer τ}

/-- A step of the shell or of the handler. -/
def Action.settles : Action τ → Bool
  | .shell _ | .handler _ => true
  | _ => false

/-- Nobody but the shell and the handler moves. -/
def Settling (t₀ : τ) (s : State τ) (a : Action τ) : Prop :=
  SingleCaller t₀ s a ∧ a.settles = true

instance (t₀ : τ) (s : State τ) (a : Action τ) : Decidable (Settling t₀ s a) :=
  inferInstanceAs (Decidable (_ ∧ _))

/-! ## A lost signal -/

/-- The caller sleeps, and the completion of its command has been signalled. -/
structure Lost (t₀ : τ) (s : State τ) : Prop extends TurnInv t₀ s where
  sleeping : .caller t₀ ∈ s.sync.sleepers
  gone : s.hist.signalled = s.hist.submitted

/-- Nobody submits and nobody signals any more. -/
theorem lost_step {a : Action τ} (hs : Lost t₀ s) (hok : SingleCaller t₀ s a)
    (h : step s a = some s') : Lost t₀ s' := by
  have hinv' : TurnInv t₀ s' := turnInv_step hs.toTurnInv hok h
  have hwaits : (s.calls t₀).waitsFor ≠ none := by
    rcases hs.asleep with hnil | ⟨-, hwaits⟩
    · have hin := hs.sleeping
      simp [hnil] at hin
    · exact hwaits
  cases step_cases h with
  | invoke t e => exact ⟨hinv', hs.sleeping, hs.gone⟩
  | caller t ans _ h =>
      have hother : ∀ {u : τ}, (s.calls u).isExec = true → u = t₀ := by
        intro u hexec
        by_contra hu
        simp [hs.others u hu] at hexec
      cases turnStep_caller hs.toLive (hs.no_exit t) h with
      | quiet c hout _ _ _ hsubmitted hsleep =>
          exact ⟨hinv', hsleep ▸ hs.sleeping, hout.signalled.trans (hs.gone.trans hsubmitted.symm)⟩
      | submit c _ _ _ _ _ hexec hbefore =>
          obtain rfl := hother hexec
          obtain ⟨k, hk⟩ := Option.ne_none_iff_exists'.mp hwaits
          rw [Call.frame_of_awaiting (Call.awaiting_of_waitsFor hk)] at hbefore
          cases hbefore
      | reset cmd k hpc | wait cmd k hpc | read cmd k hpc =>
          obtain rfl := hother (u := t) (by rw [hpc]; rfl)
          rw [hpc] at hwaits
          exact absurd rfl hwaits
  | handler ans _ h =>
      rcases handlerStep_live hs.toLive hs.peer hs.reading h with
        ⟨pc, lines, rfl, -, -⟩ | ⟨e, rest, s₁, hpc, he, rfl⟩
      · exact ⟨hinv', hs.sleeping, hs.gone⟩
      · cases e with
        | exitCode n | line text =>
            cases he
            exact ⟨hinv', hs.sleeping, hs.gone⟩
        | signal =>
            have hpending := (hs.drained hs.gone).1
            simp [State.pending, hpc, HandlerPc.effects] at hpending
  | spurious t hin =>
      rcases hs.asleep with hnil | ⟨hself, -⟩
      · simp [hnil] at hin
      · rw [hself, List.mem_singleton, Party.caller.injEq] at hin
        exact absurd (by rw [hin]) hok.2
  | closePeer ho | publish ho => simp [hs.opened] at ho
  | shell a _ h =>
      have hk := shellStep_keeps h
      exact ⟨hinv', hk.sync ▸ hs.sleeping, hk.signalled.trans (hs.gone.trans hk.submitted.symm)⟩

/-! ## A signal still to come -/

/-- The call waits for its command; if it sleeps, the signal has not been sent. -/
structure Early (t₀ : τ) (s : State τ) : Prop extends TurnInv t₀ s where
  waits : (s.calls t₀).waitsFor ≠ none
  early : .caller t₀ ∈ s.sync.sleepers → s.hist.signalled < s.hist.submitted
  clean : ¬ EOC_TAG <:+: s.shell.tail

/-- The shell has run all commands and the handler has done all that they bring. -/
def Settled (s : State τ) : Prop :=
  s.pending = [] ∧ s.shell.running = false ∧ s.shell.taken = s.written.length

/-- Only an exec call that does not wait owns the mutex. -/
theorem Call.of_holds {c : Call} (h : c.holds = true) : c.isExec = true ∧ c.waitsFor = none := by
  unfold Call.holds at h
  split at h <;> first | exact ⟨rfl, rfl⟩ | cases h

theorem Early.awake_of_settled (hs : Early t₀ s) (h : Settled s) :
    .caller t₀ ∉ s.sync.sleepers := by
  obtain ⟨hpending, hrun, htaken⟩ := h
  have hfree : s.sync.owner = none := by
    by_contra howned
    obtain ⟨p, hp⟩ := Option.ne_none_iff_exists'.mp howned
    cases p with
    | handler => exact hs.not_handler hp
    | caller u =>
        obtain ⟨hexec, hwaits⟩ := Call.of_holds ((hs.owner_iff u).mp hp)
        have hu : u = t₀ := by
          by_contra hu
          simp [hs.others u hu] at hexec
        rw [hu] at hwaits
        exact hs.waits hwaits
  have hwhole := hs.whole hfree
  have hsubmitted := hs.submitted
  have hechoed := hs.echoed
  have hsignals := hs.signals
  rw [hpending, List.count_nil] at hsignals
  intro hin
  have hearly := hs.early hin
  omega

theorem early_handler (hs : Early t₀ s) (h : step s (.handler ans) = some s') : Early t₀ s' := by
  have hinv' : TurnInv t₀ s' := 
    turnInv_step (a := .handler ans) hs.toTurnInv ⟨⟨trivial, trivial⟩, by simp⟩ h
  rw [step, hs.no_fault] at h
  rcases handlerStep_live hs.toLive hs.peer hs.reading h with
    ⟨pc, lines, rfl, -, -⟩ | ⟨e, rest, s₁, hpc, he, rfl⟩
  · exact ⟨hinv', hs.waits, hs.early, hs.clean⟩
  · cases e with
    | exitCode n | line text =>
        cases he
        exact ⟨hinv', hs.waits, hs.early, hs.clean⟩
    | signal =>
        simp only [applyEffect] at he
        split at he
        · obtain ⟨m, hm, rfl⟩ := Option.map_eq_some_iff.mp he
          have hnil := signal_one_sleeper (hs.asleep.imp_right And.left) hm
          refine ⟨hinv', hs.waits, fun hin => ?_, hs.clean⟩
          simp [State.toHandler, hnil] at hin
        · cases he

theorem early_shell {a : ShellAction} (hs : Early t₀ s) (hok : Considered s (.shell a))
    (h : step s (.shell a) = some s') (hclean : ¬ EOC_TAG <:+: s'.shell.tail) : Early t₀ s' := by
  have hinv' : TurnInv t₀ s' := turnInv_step hs.toTurnInv ⟨⟨hok, trivial⟩, by simp⟩ h
  rw [step, hs.no_fault] at h
  have hk := shellStep_keeps h
  refine ⟨hinv', ?_, ?_, hclean⟩
  · rw [hk.calls]
    exact hs.waits
  · rw [hk.sync, hk.signalled, hk.submitted]
    exact hs.early

/-! ## The way out -/

def HandlerPc.cost : HandlerPc → Nat
  | .start => 3
  | .read => 2
  | .reading => 1
  | .perform effects => effects.length + 3
  | _ => 0

def lineCost (line : Bytes) : Nat := (lineEffects (cstr line)).length + 3

def Shell.cost (sh : Shell) : Nat :=
  if sh.running then if sh.tail = [] then 1 else 10 else 0

/-- A bound on the steps that the shell and the handler have still to make. -/
def State.cost (s : State τ) : Nat :=
  40 * (s.written.length - s.shell.taken) + s.shell.cost + s.handler.cost +
    (s.toOwner.map lineCost).sum

theorem lineCost_le (line : Bytes) : lineCost line ≤ 5 := by
  unfold lineCost lineEffects
  split
  · split <;> simp
  · simp

theorem handler_nearer (hs : Early t₀ s) (h : s.handler ≠ .reading ∨ s.toOwner ≠ []) :
    ∃ ans s', step s (.handler ans) = some s' ∧ s'.cost < s.cost := by
  have hstep : ∀ ans, step s (.handler ans) = handlerStep s ans s.handler := by
    intro ans
    rw [step, hs.no_fault]
    rfl
  have heof := hs.reading
  cases hpc : s.handler with
  | start =>
      refine ⟨.ok, s.toHandler .read, by rw [hstep, hpc]; rfl, ?_⟩
      simp [State.cost, State.toHandler, hpc, HandlerPc.cost]
  | read =>
      refine ⟨.ok, s.toHandler .reading, by rw [hstep, hpc, handlerStep, hs.toLive.deref], ?_⟩
      simp [State.cost, State.toHandler, hpc, HandlerPc.cost]
  | reading =>
      cases hlines : s.toOwner with
      | nil => simp [hpc, hlines] at h
      | cons line rest =>
          have hnext := hstep .ok
          rw [hpc] at hnext
          simp only [handlerStep, hlines, hs.toLive.deref] at hnext
          refine ⟨.ok, _, hnext, ?_⟩
          simp [State.cost, State.toHandler, hpc, HandlerPc.cost, hlines, lineCost]
          omega
  | perform effects =>
      cases effects with
      | nil =>
          refine ⟨.ok, s.toHandler .read, by rw [hstep, hpc]; rfl, ?_⟩
          simp [State.cost, State.toHandler, hpc, HandlerPc.cost]
      | cons e rest =>
          obtain ⟨w, m, hm⟩ := exists_signal s.sync
          have hnext : ∃ s₁, applyEffect s (.wake w) e = some s₁ ∧ s₁.written = s.written ∧
              s₁.shell = s.shell ∧ s₁.toOwner = s.toOwner := by
            cases e with
            | exitCode n => exact ⟨_, rfl, rfl, rfl, rfl⟩
            | signal =>
                have hsignal : applyEffect s (.wake w) .signal = some { s with
                    sync := m, hist := { s.hist with signalled := s.hist.signalled + 1 } } := by
                  simp only [applyEffect, hm, Option.map_some]
                exact ⟨_, hsignal, rfl, rfl, rfl⟩
            | line text => exact ⟨_, rfl, rfl, rfl, rfl⟩
          obtain ⟨s₁, he, hwritten, hshell, howner⟩ := hnext
          refine ⟨.wake w, s₁.toHandler (.perform rest), ?_, ?_⟩
          · rw [hstep, hpc, handlerStep, if_pos hs.bound, he]
            rfl
          · simp [State.cost, State.toHandler, hpc, HandlerPc.cost, hwritten, hshell, howner]
  | _ =>
      rw [hpc] at heof
      cases heof

theorem untagged_concat_LF {tail : Bytes} (h : ¬ EOC_TAG <:+: tail) :
    ¬ EOC_TAG <:+: tail ++ [LF] := by
  intro hin
  rcases List.infix_concat_iff.mp hin with hsuffix | hin
  · rcases List.suffix_concat_iff.mp hsuffix with hnil | ⟨t, ht, -⟩
    · exact absurd hnil (by decide)
    · have hlast := congrArg List.getLast? ht
      rw [List.getLast?_concat] at hlast
      exact absurd hlast (by decide)
  · exact h hin

/-- A shell that runs a command ends its line and then the command; otherwise it takes the
next chunk. -/
theorem shell_nearer (hs : Early t₀ s)
    (h : s.shell.running = true ∨ s.shell.taken ≠ s.written.length) :
    ∃ a s', Considered s (.shell a) ∧ step s (.shell a) = some s' ∧
      ¬ EOC_TAG <:+: s'.shell.tail ∧ s'.cost < s.cost := by
  have hstep : ∀ a, step s (.shell a) = shellStep s a := by
    intro a
    rw [step, hs.no_fault]
    rfl
  have hempty : ¬ EOC_TAG <:+: ([] : Bytes) := by decide
  cases hrun : s.shell.running with
  | true =>
      by_cases htail : s.shell.tail = []
      · refine ⟨.finish 0, _, htail, by rw [hstep, shellStep, if_pos (by simp [hs.alive, hrun])],
          by rw [htail]; exact hempty, ?_⟩
        simp [State.cost, Shell.cost, hrun, htail]
      · have hline : splitLines LF s.shell.tail [LF] = ([s.shell.tail ++ [LF]], []) := by
          simp [splitLines]
        refine ⟨.print [LF], s.print [LF], untagged_concat_LF hs.clean, ?_, ?_, ?_⟩
        · rw [hstep, shellStep, if_pos (by simp [hs.alive, hrun])]
        · rw [State.print_of_open hs.peer, hline]
          exact hempty
        · rw [State.print_of_open hs.peer, hline]
          have hle := lineCost_le (s.shell.tail ++ [LF])
          simp only [State.cost, Shell.cost, hrun, htail, if_true, if_false, List.map_append,
            List.sum_append, List.map_cons, List.map_nil, List.sum_cons, List.sum_nil]
          omega
  | false =>
      have htail := hs.tail hrun
      have hlt : s.shell.taken < s.written.length := by
        have hle := hs.taken_le
        have hne := h.resolve_left (by simp [hrun])
        omega
      obtain ⟨c, hc⟩ : ∃ c, s.written[s.shell.taken]? = some c :=
        ⟨_, List.getElem?_eq_getElem hlt⟩
      have htake : ∀ {s'}, shellStep s .take = some s' → ¬ EOC_TAG <:+: s'.shell.tail →
          s'.cost < s.cost → ∃ a s', Considered s (.shell a) ∧ step s (.shell a) = some s' ∧
            ¬ EOC_TAG <:+: s'.shell.tail ∧ s'.cost < s.cost :=
        fun h hclean hcost => ⟨.take, _, trivial, (hstep _).trans h, hclean, hcost⟩
      have hready : ¬ ((!s.shell.alive || s.shell.running) = true) := by simp [hs.alive, hrun]
      have hclean : ¬ EOC_TAG <:+: s.shell.tail := hs.clean
      cases c with
      | cmd text =>
          have hnext : shellStep s .take = some
              { s with shell := { s.shell with taken := s.shell.taken + 1, running := true } } := by
            simp only [shellStep, if_neg hready, hc]
          refine htake hnext hclean ?_
          simp only [State.cost, Shell.cost, hrun, htail, Bool.false_eq_true, if_true, if_false]
          omega
      | lf =>
          have hnext : shellStep s .take = some
              { s with shell := { s.shell with taken := s.shell.taken + 1 } } := by
            simp only [shellStep, if_neg hready, hc]
          refine htake hnext hclean ?_
          simp only [State.cost, Shell.cost, hrun, Bool.false_eq_true, if_false]
          omega
      | eocCmd =>
          have hmore : ∀ s₁ : State τ, s₁.shell.peerOpen = true → s₁.shell.tail = [] →
              s₁.toOwner = s.toOwner → s₁.handler = s.handler → s₁.written = s.written →
              s₁.shell.running = false → s₁.shell.taken = s.shell.taken + 1 →
              ¬ EOC_TAG <:+: (s₁.print (eocLine s.shell.status)).shell.tail ∧
                (s₁.print (eocLine s.shell.status)).cost < s.cost := by
            intro s₁ hpeer htail₁ howner hhandler hwritten hrun₁ htaken
            rw [State.print_of_open hpeer, htail₁, splitLines_eocLine]
            refine ⟨hempty, ?_⟩
            have hle := lineCost_le (eocLine s.shell.status)
            simp only [State.cost, Shell.cost, hrun, hrun₁, howner, hhandler, hwritten, htaken,
              List.map_append, List.sum_append, List.map_cons, List.map_nil, List.sum_cons,
              List.sum_nil, Bool.false_eq_true, if_false]
            omega
          let s₁ : State τ := { s with
            shell := { s.shell with taken := s.shell.taken + 1, status := 0 }
            hist := { s.hist with
              echoed := if s.shell.peerOpen then s.hist.echoed + 1 else s.hist.echoed } }
          have hnext : shellStep s .take = some (s₁.print (eocLine s.shell.status)) := by
            simp only [shellStep, if_neg hready, hc, s₁]
          obtain ⟨hclean', hcost⟩ := hmore s₁ hs.peer htail rfl rfl rfl hrun rfl
          exact htake hnext hclean' hcost
      | exitCmd => exact absurd (hs.layout _ _ hc) id

/-- The shell and the handler settle by themselves, and then the caller is awake. -/
theorem Early.exists_awake (hs : Early t₀ s) :
    ∃ as s', runOk step (Settling t₀) s as = some s' ∧ .caller t₀ ∉ s'.sync.sleepers := by
  have hstep : ∀ s : State τ, Early t₀ s → ¬ Settled s →
      ∃ a s', Settling t₀ s a ∧ step s a = some s' ∧ Early t₀ s' ∧ s'.cost < s.cost := by
    intro s hs hunsettled
    by_cases hquiet : s.handler = .reading ∧ s.toOwner = []
    · have hpending : s.pending = [] := by
        simp [State.pending, hquiet.1, hquiet.2, HandlerPc.effects]
      have hshell : s.shell.running = true ∨ s.shell.taken ≠ s.written.length := by
        by_contra hno
        obtain ⟨hrun, htaken⟩ := not_or.mp hno
        exact hunsettled ⟨hpending, Bool.eq_false_iff.mpr hrun, not_not.mp htaken⟩
      obtain ⟨a, s', hok, hs', hclean, hcost⟩ := shell_nearer hs hshell
      exact ⟨.shell a, s', ⟨⟨⟨hok, trivial⟩, by simp⟩, rfl⟩, hs',
        early_shell hs hok hs' hclean, hcost⟩
    · obtain ⟨ans, s', hs', hcost⟩ := handler_nearer hs (not_and_or.mp hquiet)
      exact ⟨.handler ans, s', ⟨⟨⟨trivial, trivial⟩, by simp⟩, rfl⟩, hs',
        early_handler hs hs', hcost⟩
  obtain ⟨as, s', hrun, hs', hsettled⟩ := exists_runOk_of_decreasing State.cost hstep hs
  exact ⟨as, s', hrun, hs'.awake_of_settled hsettled⟩

/-! ## Runs -/

omit [DecidableEq τ] in
theorem clean_shell {a : ShellAction} (hs : LiveInv s) (hclean : ¬ EOC_TAG <:+: s.shell.tail)
    (hok : Considered s (.shell a)) (h : shellStep s a = some s') :
    ¬ EOC_TAG <:+: s'.shell.tail := by
  have h₀ := h
  cases a <;> simp only [shellStep] at h
  case take =>
    split at h
    · cases h
    · rename_i hready
      simp only [Bool.or_eq_true, not_or, Bool.not_eq_true] at hready
      split at h
      · cases h
      · cases h
        exact hclean
      · cases h
        exact hclean
      · rename_i hat
        rw [(output_echo hs hready.2 hat h₀).2.1]
        decide
      · rename_i hat
        exact absurd (hs.layout _ _ hat) id
  case print out =>
    split at h
    · cases h
      rw [State.print_of_open hs.peer]
      -- what is left over is the end of what was to be split
      have hsuffix : (splitLines LF s.shell.tail out).2 <:+ s.shell.tail ++ out :=
        ⟨_, splitLines_flatten LF s.shell.tail out⟩
      exact fun hin => hok (hin.trans hsuffix.isInfix)
    · cases h
  case finish status =>
    split at h
    · cases h
      exact hclean
    · cases h
  case die => exact absurd hok id
  case closePeer => exact absurd hok id

theorem clean_step {a : Action τ} (hs : LiveInv s) (hclean : ¬ EOC_TAG <:+: s.shell.tail)
    (hok : Considered s a) (h : step s a = some s') : ¬ EOC_TAG <:+: s'.shell.tail := by
  have hsame : s'.shell.tail = s.shell.tail → ¬ EOC_TAG <:+: s'.shell.tail := by
    intro htail
    rwa [htail]
  cases step_cases h with
  | invoke t e => exact hclean
  | caller t ans _ h =>
      have hout := (execCall_cases (hs.no_exit t) h).outside hs.toLive
      exact hsame (congrArg Shell.tail hout.shell)
  | handler ans _ h =>
      rcases handlerStep_live hs.toLive hs.peer hs.reading h with
        ⟨pc, lines, rfl, -, -⟩ | ⟨e, rest, s₁, -, he, rfl⟩
      · exact hclean
      · exact hsame (congrArg Shell.tail (applyEffect_flow he).1)
  | spurious t => exact hclean
  | closePeer ho | publish ho => simp [hs.opened] at ho
  | shell a _ h => exact clean_shell hs hclean hok h

/-- The handler signals while the caller has still to write its last line feed. -/
def fastShell : List (Action Unit) :=
  [[.invoke () (.exec (ascii "true"))], List.replicate 6 (.caller () .ok),
    [.shell .take, .shell (.finish 0), .shell .take, .shell .take],
    List.replicate 4 (.handler .ok), [.handler (.wake none)],
    List.replicate 3 (.caller () .ok)].flatten

end Susrv.Native
