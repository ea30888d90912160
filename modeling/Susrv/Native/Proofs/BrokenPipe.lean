import Susrv.Native.Proofs.Frames

/-!
# Writes to a shell that is gone

Nothing in the library ignores or blocks `SIGPIPE`, so a `write` after the other
end of the socket was closed ends the process.  The handler writes a stop request
there whenever it gets the mutex after EOF.  `no_sigpipe_of_reach` says which
schedules stay clear of it.
-/

namespace Susrv.Native

open Base Base.CString Base.Transition Base.Sections

variable {τ : Type} {s s' : State τ}

/-- Whoever takes `shell_sync_mutex` in order to write finds the shell's end open,
and it is not closed while the owner still has something to write. -/
def PeerOutlastsWrites (s : State τ) : Action τ → Prop
  | .caller t _ =>
      s.asks (.caller t) = true → s.sync.owner = none → s.shell.peerOpen = true
  | .handler _ => s.asks .handler = true → s.sync.owner = none → s.shell.peerOpen = true
  | .shell .closePeer => ∀ p ∈ s.sync.owner, s.writing p = false
  | _ => True

instance (s : State τ) : DecidablePred (PeerOutlastsWrites s)
  | .caller _ _ | .handler _ => inferInstanceAs (Decidable (_ → _ → _))
  | .shell .closePeer => inferInstanceAs (Decidable (∀ p ∈ s.sync.owner, _))
  | .shell .take | .shell (.print _) | .shell (.finish _) | .shell .die
  | .invoke _ _ | .spurious _ | .opener => isTrue trivial

structure PipeInv (s : State τ) : Prop where
  framed : ∃ log, Framed Frame.chunks log s.view
  intact : s.sigpipe = false
  open_end : ∀ p, s.writing p = true → s.shell.peerOpen = true

theorem pipeInv_opening (code : Int) : PipeInv (State.opening code : State τ) where
  framed := ⟨[], framed_opening code⟩
  intact := rfl
  open_end _ _ := rfl

theorem PipeInv.owner_of_writing (hs : PipeInv s) {p : Party τ} (h : s.writing p = true) :
    s.sync.owner = some p := by
  obtain ⟨log, hlog⟩ := hs.framed
  apply hlog.inside p
  intro hnone
  simp [State.writing, hnone] at h

variable [DecidableEq τ]

theorem PipeInv.framed_step (hs : PipeInv s) {a : Action τ} (h : step s a = some s') :
    ∃ log, Framed Frame.chunks log s'.view := by
  obtain ⟨log, hlog⟩ := hs.framed
  exact ⟨_, Native.framed_step hlog h⟩

theorem Moves.open_end {p : Party τ} (h : Moves s p s') (hs : PipeInv s)
    (hok : s.asks p = true → s.sync.owner = none → s.shell.peerOpen = true) (q : Party τ)
    (hq : s'.writing q = true) : s'.shell.peerOpen = true := by
  rw [h.peer]
  by_cases hqp : q = p
  · subst hqp
    rcases h.begins hq with hwriting | ⟨hasks, hfree⟩
    · exact hs.open_end q hwriting
    · exact hok hasks hfree
  · rw [State.writing, h.others q hqp] at hq
    exact hs.open_end q hq

theorem Moves.intact {p : Party τ} (h : Moves s p s') (hs : PipeInv s) : s'.sigpipe = false := by
  rcases h.sigpipe with hsame | ⟨hwriting, hset⟩
  · exact hsame.trans hs.intact
  · rw [hset, hs.intact, hs.open_end p hwriting]
    rfl

omit [DecidableEq τ] in
theorem print_sigpipe (s : State τ) (out : Bytes) :
    (s.print out).sigpipe = s.sigpipe ∧ (s.print out).shell.peerOpen = s.shell.peerOpen := by
  unfold State.print
  split <;> exact ⟨rfl, rfl⟩

omit [DecidableEq τ] in
theorem shellStep_sigpipe {a : ShellAction} (h : shellStep s a = some s') :
    s'.sigpipe = s.sigpipe ∧ (a ≠ .closePeer → s'.shell.peerOpen = s.shell.peerOpen) := by
  cases a <;> simp only [shellStep] at h
  case take =>
    split at h
    · cases h
    · split at h <;> cases h
      · exact ⟨rfl, fun _ => rfl⟩
      · exact ⟨rfl, fun _ => rfl⟩
      · rw [(print_sigpipe _ _).1, (print_sigpipe _ _).2]
        exact ⟨rfl, fun _ => rfl⟩
      · exact ⟨rfl, fun _ => rfl⟩
  case print out =>
    split at h <;> cases h
    obtain ⟨hsigpipe, hpeer⟩ := print_sigpipe s out
    exact ⟨hsigpipe, fun _ => hpeer⟩
  case finish status =>
    split at h <;> cases h
    exact ⟨rfl, fun _ => rfl⟩
  case die =>
    split at h <;> cases h
    exact ⟨rfl, fun _ => rfl⟩
  case closePeer =>
    split at h <;> cases h
    exact ⟨rfl, fun ha => absurd rfl ha⟩

theorem pipeInv_step {a : Action τ} (hs : PipeInv s) (hok : PeerOutlastsWrites s a)
    (h : step s a = some s') : PipeInv s' := by
  have hframed := hs.framed_step h
  have hmoves : ∀ {p : Party τ}, Moves s p s' →
      (s.asks p = true → s.sync.owner = none → s.shell.peerOpen = true) → PipeInv s' :=
    fun hmove hasks => ⟨hframed, hmove.intact hs, hmove.open_end hs hasks⟩
  have hsame : s'.sigpipe = s.sigpipe → s'.shell.peerOpen = s.shell.peerOpen →
      s'.view.todo = s.view.todo → PipeInv s' := by
    intro hsigpipe hpeer htodo
    refine ⟨hframed, hsigpipe.trans hs.intact, fun p hp => ?_⟩
    rw [State.writing, htodo] at hp
    exact hpeer.trans (hs.open_end p hp)
  cases step_cases h with
  | invoke t e hidle =>
      refine hmoves (moves_invoke hidle) fun hasks => ?_
      simp [State.asks, hidle] at hasks
  | caller t ans _ h => exact hmoves (moves_caller h) hok
  | handler ans _ h => exact hmoves (moves_handler h) hok
  | spurious t => exact hsame rfl rfl rfl
  | closePeer | publish => exact hsame rfl rfl rfl
  | shell a _ h =>
      obtain ⟨hsigpipe, hpeer⟩ := shellStep_sigpipe h
      have htodo := todo_of_shell h
      by_cases ha : a = .closePeer
      · -- nobody is in the middle of a frame, so no obligation is broken
        subst ha
        refine ⟨hframed, hsigpipe.trans hs.intact, fun p hp => ?_⟩
        rw [State.writing, htodo] at hp
        have hfalse := hok p (hs.owner_of_writing hp)
        rw [State.writing] at hfalse
        rw [hfalse] at hp
        cases hp
      · exact hsame hsigpipe (hpeer ha) htodo

/-- As long as the shell's end outlasts the writes, no write finds it closed. -/
theorem no_sigpipe_of_reach {code : Int}
    (h : Reach step PeerOutlastsWrites (State.opening code) s) : s.sigpipe = false :=
  (h.invariant (pipeInv_opening code) fun _ _ _ => pipeInv_step).intact

/-- One command, then a stop request; the shell exits when it has read it. -/
theorem no_sigpipe_exit :
    ∃ s, Reach step PeerOutlastsWrites (State.opening 0 : State Bool) s ∧
      s.written.length = 6 ∧ s.shell.peerOpen = false ∧ s.sigpipe = false := by
  have hrun : (runOk step PeerOutlastsWrites (State.opening 0 : State Bool)
      [[.opener, .opener, .invoke true (.exec (ascii "id"))],
        List.replicate 9 (.caller true .ok), [.invoke false .exit],
        List.replicate 4 (.caller false .ok), [.shell .die, .shell .closePeer]].flatten).map
        (fun s => (s.written.length, s.shell.peerOpen)) = some (6, false) := by decide +kernel
  obtain ⟨s, hreach, hs⟩ := Reach.exists_of_runOk hrun
  obtain ⟨hlen, hpeer⟩ := Prod.mk.inj hs
  exact ⟨s, hreach, hlen, hpeer, no_sigpipe_of_reach hreach⟩

/-- The shell dies while no call is in progress: the handler takes the mutex at EOF
and writes a stop request to the closed socket. -/
theorem not_no_sigpipe_idle_death :
    ¬ ∀ (code : Int) (as : List (Action Unit)) (s : State Unit),
      run step (State.opening code) as = some s → s.sigpipe = false := by
  intro h
  have hrun : (run step (State.opening 0 : State Unit)
      [[.opener, .opener, .shell .die, .shell .closePeer], List.replicate 5 (.handler .ok)].flatten).map
        State.sigpipe = some true := by decide +kernel
  obtain ⟨s, hs, hsigpipe⟩ := Option.map_eq_some_iff.mp hrun
  rw [h 0 _ s hs] at hsigpipe
  cases hsigpipe

end Susrv.Native
