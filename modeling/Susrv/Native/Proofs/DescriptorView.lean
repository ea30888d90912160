import Susrv.Base.Simulation
import Susrv.Native.Proofs.Inheritance

/-!
# The session as the processes around it see it

`Session` has one shell that closes its end of the socket at some moment;
`Descriptors` has any number of processes, and the end is closed when the last of
them that holds it closes it or ends.  `world_refines_session` connects the two.
-/

namespace Susrv.Native

open Base Base.CString Base.Transition

variable {τ : Type} {fds : SessionFds} {w w' w₁ : World τ}
  {s s' : State τ}

/-! ## What a deed is to the session -/

/-- What the session sees of a deed itself: of the other processes only what they print. -/
def Deed.actions : Deed τ → List (Action τ)
  | .session a => [a]
  | .shell a => [.shell a]
  | .print _ out => [.shell (.print out)]
  | .child | .fork _ | .close _ _ | .dup2 _ _ _ | .exit _ => []

/-- The shell's end of the socket is closed with its last descriptor. -/
def closing (s s' : State τ) : List (Action τ) :=
  if s.shell.peerOpen && !s'.shell.peerOpen then [.shell .closePeer] else []

def sessionActions (w : World τ) (d : Deed τ) (w' : World τ) : List (Action τ) :=
  d.actions ++ closing w.session w'.session

/-- The owner has not crashed, and only processes of the running command print. -/
def Foreground (w : World τ) (d : Deed τ) : Prop :=
  w.session.fault = false ∧
    ∀ i out, d = .print i out → (w.session.shell.alive && w.session.shell.running) = true

/-- Where no process holds the shell's end of the socket it is closed, and a dead shell
holds nothing. -/
structure AtRest (w : World τ) : Prop where
  held : w.session.shell.peerOpen = true → w.Held
  dead : w.session.shell.alive = false → w.shell = []

theorem atRest_forked (fds : SessionFds) (code : Int) :
    AtRest (World.forked fds code : World τ) where
  held _ := ⟨fds.table, List.mem_cons_self, ⟨fds.peer, .peer, false⟩,
    by simp [SessionFds.table], rfl⟩
  dead h := by cases h

theorem atRest_settle (w : World τ) : AtRest w.settle where
  held hopen := by
    obtain ⟨-, hany⟩ := Bool.and_eq_true_iff.mp hopen
    obtain ⟨t, ht, hholds⟩ := List.any_eq_true.mp hany
    exact ⟨t, ht, of_decide_eq_true hholds⟩
  dead hdead := by
    have hdead' : w.session.shell.alive = false := hdead
    simp [World.settle, hdead']

def State.withPeer (s : State τ) (peerOpen : Bool) : State τ :=
  { s with shell := { s.shell with peerOpen } }

theorem State.withPeer_eq {b : Bool} (h : s.shell.peerOpen = b) : s.withPeer b = s := by
  rw [← h]
  rfl

variable [DecidableEq τ]

/-- Settling closes the shell's end of the socket or changes nothing. -/
theorem run_closing (hfault : s.fault = false) (held : Bool) :
    run step s (closing s (s.withPeer (s.shell.peerOpen && held))) =
      some (s.withPeer (s.shell.peerOpen && held)) := by
  cases hopen : s.shell.peerOpen with
  | false =>
      rw [Bool.false_and, State.withPeer_eq hopen, closing, hopen]
      rfl
  | true =>
      cases held with
      | true =>
          rw [Bool.true_and, State.withPeer_eq hopen, closing, hopen]
          rfl
      | false =>
          have hclose : step s (.shell .closePeer) = some (s.withPeer false) := by
            rw [step, if_neg (by simp [hfault])]
            exact if_pos hopen
          have hclosing : closing s (s.withPeer false) = [.shell .closePeer] := by
            rw [closing, hopen]
            rfl
          rw [Bool.true_and, hclosing, run, hclose]
          rfl

theorem Shell.of_self {shell shell' : Shell} (h : shell'.self = shell.self) :
    shell'.alive = shell.alive ∧ shell'.peerOpen = shell.peerOpen := by
  constructor
  · show shell'.self.alive = shell.self.alive
    rw [h]
  · show shell'.self.peerOpen = shell.self.peerOpen
    rw [h]

/-- Whether a process beside the owner holds the shell's end of the socket. -/
def World.anyHolds (w : World τ) : Bool := w.tables.any fun t => t.Holds .peer

omit [DecidableEq τ] in
theorem World.settle_eq (hdead : w.session.shell.alive = false → w.shell = []) :
    w.settle =
      { w with session := w.session.withPeer (w.session.shell.peerOpen && w.anyHolds) } := by
  have htable : (if w.session.shell.alive then w.shell else []) = w.shell := by
    cases halive : w.session.shell.alive with
    | true => rfl
    | false => exact (hdead halive).symm
  rw [World.settle, htable]
  rfl

omit [DecidableEq τ] in
/-- A settled world stays as it is if only the owner has moved. -/
theorem settle_of_atRest (hs : AtRest w) {owner : FdTable OpenFile}
    (hshell : s'.shell.self = w.session.shell.self) :
    ({ w with session := s', owner } : World τ).settle = { w with session := s', owner } := by
  obtain ⟨halive, hopen⟩ := Shell.of_self hshell
  have hany : (s'.shell.peerOpen && w.anyHolds) = s'.shell.peerOpen := by
    cases hpeer : s'.shell.peerOpen with
    | false => rfl
    | true =>
        rw [Bool.true_and, World.anyHolds, List.any_eq_true]
        obtain ⟨t, ht, hholds⟩ := hs.held (hopen ▸ hpeer)
        exact ⟨t, ht, decide_eq_true hholds⟩
  calc ({ w with session := s', owner } : World τ).settle
    _ = { w with session := s'.withPeer (s'.shell.peerOpen && w.anyHolds), owner } :=
        World.settle_eq fun hdead => hs.dead (halive ▸ hdead)
    _ = { w with session := s', owner } := by rw [hany, State.withPeer_eq rfl]

/-! ## One deed -/

theorem world_session_step {a : Action τ} (h : w.step fds (.session a) = some w') :
    (∀ b, a ≠ .shell b) ∧ ∃ s', step w.session a = some s' ∧
      w' = ({ w with session := s', owner := w.ownerAfter fds s' } : World τ).settle := by
  cases a with
  | shell b => cases h
  | invoke | caller | handler | spurious | opener =>
      obtain ⟨s', hs', heq⟩ := Option.map_eq_some_iff.mp h
      exact ⟨by simp, s', hs', heq.symm⟩

theorem world_shell_step {a : ShellAction} (h : w.step fds (.shell a) = some w') :
    a.own = true ∧ ∃ s', shellStep w.session a = some s' ∧
      w' = ({ w with session := s' } : World τ).settle := by
  simp only [World.step] at h
  split at h
  · rename_i hown
    obtain ⟨s', hs', heq⟩ := Option.map_eq_some_iff.mp h
    exact ⟨(Bool.and_eq_true_iff.mp hown).1, s', hs', heq.symm⟩
  · cases h

theorem world_print_step {i : Nat} {out : Bytes} (h : w.step fds (.print i out) = some w') :
    w' = ({ w with session := w.session.print out } : World τ).settle := by
  obtain ⟨t, -, hprint⟩ := Option.bind_eq_some_iff.mp h
  split at hprint <;> cases hprint
  rfl

/-- The other deeds are about the descriptors only. -/
theorem world_quiet_step {d : Deed τ} (hd : d.actions = []) (h : w.step fds d = some w') :
    ∃ w₁ : World τ, w₁.session = w.session ∧ w' = w₁.settle := by
  obtain ⟨w₁, hdeed, heq⟩ := world_step_cases h
  refine ⟨w₁, ?_, heq⟩
  cases hdeed with
  | session | shell | print => cases hd
  | child w₁ hw₁ => cases hpc : w.child <;> rw [hpc] at hw₁ <;> cases hw₁ <;> rfl
  | setTable _ p t u => exact setTable_session u p
  | fork | exit => rfl

/-- An action of the session, and the end of the socket closed behind it if need be. -/
theorem run_sessionActions {d : Deed τ} (hmove : run step w.session d.actions = some s')
    (hw₁ : w₁.session = s') (hfault : s'.fault = false)
    (hpeer : s'.shell.peerOpen = w.session.shell.peerOpen) :
    run step w.session (sessionActions w d w₁.settle) = some w₁.settle.session := by
  have hclosing : closing w.session w₁.settle.session = closing s' w₁.settle.session := by
    rw [closing, closing, hpeer]
  rw [sessionActions, run_append, hmove, Option.bind_some, hclosing, ← hw₁]
  exact run_closing (hw₁ ▸ hfault) _

theorem sessionActions_step {d : Deed τ} (hs : AtRest w) (hok : Foreground w d)
    (h : w.step fds d = some w') :
    run step w.session (sessionActions w d w') = some w'.session ∧ AtRest w' := by
  obtain ⟨hfault, hprints⟩ := hok
  cases d with
  | session a =>
      obtain ⟨ha, s', hs', heq⟩ := world_session_step h
      have hshell := owner_keeps_shell ha hs'
      have hpeer := (Shell.of_self hshell).2
      refine ⟨?_, heq ▸ atRest_settle _⟩
      rw [settle_of_atRest hs hshell] at heq
      rw [heq, sessionActions, closing, hpeer, Bool.and_not_self, if_neg Bool.false_ne_true,
        List.append_nil, Deed.actions, run, hs']
      rfl
  | shell a =>
      obtain ⟨hown, s', hs', rfl⟩ := world_shell_step h
      refine ⟨run_sessionActions ?_ rfl ((shellStep_keeps hs').fault.trans hfault)
        (shellStep_peerOpen hown hs'), atRest_settle _⟩
      simp [Deed.actions, run, step, hfault, hs']
  | print i out =>
      obtain rfl := world_print_step h
      have hs' : shellStep w.session (.print out) = some (w.session.print out) := by
        rw [shellStep, if_pos (hprints i out rfl)]
      refine ⟨run_sessionActions ?_ rfl ((shellStep_keeps hs').fault.trans hfault)
        (print_peerOpen w.session out), atRest_settle _⟩
      simp [Deed.actions, run, step, hfault, hs']
  | child | fork | close | dup2 | exit =>
      obtain ⟨w₁, hsame, rfl⟩ := world_quiet_step rfl h
      exact ⟨run_sessionActions rfl hsame hfault rfl, atRest_settle _⟩

/-! ## Whole runs -/

instance (w : World τ) : DecidablePred (Foreground w)
  | .print _ _ => decidable_of_iff
      (w.session.fault = false ∧ (w.session.shell.alive && w.session.shell.running) = true)
      (by simp [Foreground])
  | .session _ | .child | .shell _ | .fork _ | .close _ _ | .dup2 _ _ _ | .exit _ =>
      decidable_of_iff (w.session.fault = false) (by simp [Foreground])

/-- Every run of the processes in which the owner has not crashed and only processes of the
running command print is a run of the session, in which the shell's end of the
socket is closed at the moment the last process that holds it gives it up. -/
theorem world_refines_session {code : Int} {ds : List (Deed τ)}
    (hrun : runOk (World.step fds) Foreground (World.forked fds code) ds = some w) :
    run step (State.opening code)
      (trace (World.step fds) sessionActions (World.forked fds code) ds) = some w.session := by
  have hstep : ∀ (w : World τ) (d : Deed τ) (w' : World τ) (s : State τ),
      (w.session = s ∧ AtRest w) → Foreground w d → w.step fds d = some w' →
      ∃ s', run step s (sessionActions w d w') = some s' ∧ w'.session = s' ∧ AtRest w' := by
    rintro w d w' s ⟨rfl, hs⟩ hok h
    obtain ⟨hmatched, hs'⟩ := sessionActions_step hs hok h
    exact ⟨w'.session, hmatched, rfl, hs'⟩
  obtain ⟨s', hmatched, hsession, -⟩ :=
    simulates_runOk hstep ⟨rfl, atRest_forked fds code⟩ hrun
  rw [hsession]
  exact hmatched

/-- A command starts a process that prints and outlives the shell. -/
def outlived : List (Deed Unit) :=
  [.session .opener, .session .opener, .child, .child, .child,
    .session (.invoke () (.exec (ascii "sleep 99 &"))), .session (.caller () .ok),
    .session (.caller () .ok), .session (.caller () .ok), .session (.caller () .ok),
    .shell .take, .fork .shell, .print 0 (ascii "[1] 4242\n"), .shell .die, .exit 0]

/-- The end of the socket is closed when that process ends. -/
theorem world_refines_session_outlived :
    ∃ w : World Unit, w.session.toOwner = [ascii "[1] 4242\n"] ∧
      run step (State.opening 0) ([.opener, .opener, .invoke () (.exec (ascii "sleep 99 &")),
        .caller () .ok, .caller () .ok, .caller () .ok, .caller () .ok, .shell .take,
        .shell (.print (ascii "[1] 4242\n")), .shell .die, .shell .closePeer]) =
          some w.session := by
  have hseen : (runOk (World.step usualFds) Foreground (World.forked usualFds 0) outlived).map
      (fun w => w.session.toOwner) = some [ascii "[1] 4242\n"] := by decide +kernel
  obtain ⟨w, hrun, hlines⟩ := Option.map_eq_some_iff.mp hseen
  have htrace : trace (World.step usualFds) sessionActions (World.forked usualFds 0) outlived =
      [.opener, .opener, .invoke () (.exec (ascii "sleep 99 &")), .caller () .ok, .caller () .ok,
        .caller () .ok, .caller () .ok, .shell .take, .shell (.print (ascii "[1] 4242\n")),
        .shell .die, .shell .closePeer] := by decide +kernel
  exact ⟨w, hlines, htrace ▸ world_refines_session hrun⟩

end Susrv.Native
