import Susrv.Native.Proofs.OpenOutcome

/-!
# Paths of exit

What `su_srv_exit_shell_session` leaves for every combination of results it can
get.  `exitUsable_iff` says on which of them later calls are not stuck.
-/

namespace Susrv.Native

open Base Base.CString

variable {α : Type} {env : ExitEnv} {session : SuShellSession} {w : Process} {me : Nat}

/-! ## The parts of exit -/

/-- The mutex is locked at the first or at the second attempt. -/
def Acquires (env : ExitEnv) : Prop :=
  env.trylock = 0 ∨ (env.signal = 0 ∧ env.lock = 0)

/-- One of the polls reports the child, after polls with result 0 only. -/
def Reaps (waitpid : Nat → WaitResult) (poll retries : Nat) : Prop :=
  ∃ i < retries, waitpid (poll + i) = .pid ∧ ∀ j < i, waitpid (poll + j) = .zero

theorem not_reaps_zero (waitpid : Nat → WaitResult) (poll : Nat) : ¬ Reaps waitpid poll 0 :=
  fun ⟨_, hlt, _⟩ => absurd hlt (Nat.not_lt_zero _)

theorem reaps_succ (waitpid : Nat → WaitResult) (poll retries : Nat) :
    Reaps waitpid poll (retries + 1) ↔
      waitpid poll = .pid ∨ (waitpid poll = .zero ∧ Reaps waitpid (poll + 1) retries) := by
  constructor
  · rintro ⟨i, hlt, hpid, hzero⟩
    cases i with
    | zero => exact .inl hpid
    | succ i =>
        refine .inr ⟨hzero 0 (Nat.succ_pos i), i, by omega, ?_, fun j hj => ?_⟩
        · rwa [Nat.add_right_comm, Nat.add_assoc]
        · have hj' := hzero (j + 1) (by omega)
          rwa [← Nat.add_assoc, Nat.add_right_comm] at hj'
  · rintro (hpid | ⟨hzero, i, hlt, hpid, hzeros⟩)
    · exact ⟨0, by omega, hpid, by omega⟩
    · refine ⟨i + 1, by omega, ?_, fun j hj => ?_⟩
      · rwa [← Nat.add_assoc, Nat.add_right_comm]
      · cases j with
        | zero => exact hzero
        | succ j =>
            have hj' := hzeros j (by omega)
            rwa [Nat.add_right_comm, Nat.add_assoc] at hj'

theorem waitChild_of_reaps {waitpid : Nat → WaitResult} {poll retries : Nat}
    (h : Reaps waitpid poll retries) :
    waitChild waitpid poll retries w = [.returned 0 { w with shell := .reaped }] := by
  induction retries generalizing poll with
  | zero => exact absurd h (not_reaps_zero waitpid poll)
  | succ retries ih =>
      unfold waitChild
      rcases (reaps_succ waitpid poll retries).mp h with hpid | ⟨hzero, hrest⟩
      · simp [hpid, -bind_pure_comp]
      · rw [hzero]
        exact ih hrest

theorem waitChild_of_not_reaps {waitpid : Nat → WaitResult} {poll retries : Nat}
    (h : ¬ Reaps waitpid poll retries) :
    waitChild waitpid poll retries w = [.returned (-1) w] := by
  induction retries generalizing poll with
  | zero => rfl
  | succ retries ih =>
      rw [reaps_succ, not_or, not_and] at h
      unfold waitChild
      cases hpoll : waitpid poll with
      | pid => exact absurd hpoll h.1
      | zero => exact ih (h.2 hpoll)
      | error => rfl

/-- The child is reaped within the polls of `shell_stop_process`. -/
def Stops (env : ExitEnv) : Prop :=
  Reaps env.waitpid 0 WAIT_CHILD_MAX_RETRY

theorem stop_of_stops (h : Stops env) (hsession : w.su_session = some session) :
    shell_stop_process env.waitpid w = [.returned 0 { w with shell := .reaped }] := by
  unfold shell_stop_process
  rw [Proc.get_bind, if_neg (by simp [hsession])]
  exact waitChild_of_reaps h

theorem stop_of_not_stops (h : ¬ Stops env) (hsession : w.su_session = some session) :
    shell_stop_process env.waitpid w = [.returned (-1) w] := by
  unfold shell_stop_process
  rw [Proc.get_bind, if_neg (by simp [hsession])]
  exact waitChild_of_not_reaps h

theorem invalidate_eq (hsession : w.su_session = some session) :
    invalidate_current_session w =
      su_shell_session_delete session { w with su_session := none } := by
  unfold invalidate_current_session
  rw [Proc.get_bind, Proc.modify_bind, hsession]

/-! ## Usable outcomes -/

/-- The session is gone, with its shell and its handler thread. -/
structure Removed (w : Process) : Prop where
  su_session : w.su_session = none
  allocated : w.allocated = false
  shell : w.shell = .reaped
  handler : w.handler = .joined

/-- Thread `me` does not hold the mutex of the session that is left. -/
def Released (me : Nat) (w : Process) : Prop :=
  ∀ session, w.su_session = some session → session.shell_sync_owner ≠ some me

def Usable (me : Nat) : Outcome End Process Int → Prop
  | .returned last_err w => (last_err = 0 ∧ Removed w) ∨ (last_err ≠ 0 ∧ Released me w)
  | .ended _ _ => False

def ExitUsable (me : Nat) (outcomes : List (Outcome End Process Int)) : Prop :=
  ∀ o ∈ outcomes, Usable me o

@[simp] theorem exitUsable_singleton {o : Outcome End Process Int} :
    ExitUsable me [o] ↔ Usable me o := by
  unfold ExitUsable
  rw [List.forall_mem_singleton]

theorem removed_cleanUp (hnull : w.su_session = none) (hshell : w.shell = .reaped)
    (hhandler : w.handler = .joined) : Removed (cleanUp session w) := by
  have hsame := cleanUp_sameHost session w
  refine ⟨hsame.su_session.trans hnull, ?_, hsame.shell.trans hshell,
    hsame.handler.trans hhandler⟩
  unfold cleanUp
  split <;> rfl

theorem usable_error {last_err : Int} (herr : last_err ≠ 0)
    (hsession : w.su_session = some session) :
    Usable me (.returned last_err w) ↔ session.shell_sync_owner ≠ some me := by
  simp [Usable, herr, Released, hsession]

/-- The shell is stopped and the handler thread joined. -/
def Removes (env : ExitEnv) : Prop :=
  Stops env ∧ env.join = 0

/-- The rest of exit, when `_su_session` is `locked`. -/
theorem removeSession_usable_iff {locked : SuShellSession}
    (hsession : w.su_session = some locked) :
    ExitUsable me (removeSession env session w) ↔
      (Stops env → session.handler_pth = true) ∧
        (Removes env → locked.shell_sync_mutex = true ∧ locked.shell_sync_ready = true) ∧
        (¬ Removes env → locked.shell_sync_owner ≠ some me) := by
  unfold removeSession
  by_cases hstops : Stops env
  · rw [Proc.bind_of_returned (stop_of_stops hstops hsession)]
    cases hpth : session.handler_pth with
    | false => simp [hstops, Usable]
    | true =>
        have hsession' : ({ w with shell := .reaped } : Process).su_session = some locked :=
          hsession
        by_cases hjoin : env.join = 0
        · have hremoves : Removes env := ⟨hstops, hjoin⟩
          have hdelete := (invalidate_eq (w := { w with shell := .reaped, handler := .joined })
            hsession).trans delete_eq
          simp only [Bool.not_true, Bool.false_eq_true, hjoin, ne_eq, not_true_eq_false, if_false,
            Proc.modify_bind, Bool.and_eq_true] at hdelete ⊢
          rw [Proc.bind_apply, hdelete]
          split
          · rename_i hpointers
            have hremoved : Removed (cleanUp locked
                { w with su_session := none, shell := .reaped, handler := .joined }) :=
              removed_cleanUp rfl rfl rfl
            simp [hremoves, hpointers, Usable, hremoved]
          · rename_i hpointers
            simp [hremoves, hpointers, Usable]
        · have hremoves : ¬ Removes env := fun h => hjoin h.2
          simp [hjoin, hremoves, usable_error hjoin hsession']
  · have hremoves : ¬ Removes env := fun h => hstops h.1
    rw [Proc.bind_of_returned (stop_of_not_stops hstops hsession)]
    simp [hstops, hremoves, usable_error (by decide : (-1 : Int) ≠ 0) hsession]

/-! ## The whole call -/

/-- The session after the attempts to lock its mutex. -/
def lockedBy (env : ExitEnv) (me : Nat) (session : SuShellSession) : SuShellSession :=
  if env.trylock = 0 ∨ (env.signal = 0 ∧ env.lock = 0) then
    { session with shell_sync_owner := some me }
  else session

theorem lockedBy_pointers :
    (lockedBy env me session).shell_sync_mutex = session.shell_sync_mutex ∧
      (lockedBy env me session).shell_sync_ready = session.shell_sync_ready := by
  unfold lockedBy
  split <;> exact ⟨rfl, rfl⟩

theorem lockedBy_owner : (lockedBy env me session).shell_sync_owner ≠ some me ↔
    ¬ Acquires env ∧ session.shell_sync_owner ≠ some me := by
  unfold lockedBy Acquires
  split
  · rename_i hacquired
    simp [hacquired]
  · rename_i hacquired
    simp [hacquired]

theorem acquire_returned (me : Nat) (hmutex : session.shell_sync_mutex = true)
    (hready : session.shell_sync_ready = true ∨ env.trylock = 0)
    (hsession : w.su_session = some session) :
    ∃ last_err, acquireSession env me session w =
      [.returned last_err { w with su_session := some (lockedBy env me session) }] := by
  have hunlocked : ({ w with su_session := some session } : Process) = w := by rw [← hsession]
  unfold acquireSession lockSession lockedBy
  by_cases htry : env.trylock = 0
  · exact ⟨0, by simp [hmutex, htry, -bind_pure_comp]⟩
  · have hready := hready.resolve_right htry
    by_cases hsignal : env.signal = 0
    · by_cases hlock : env.lock = 0
      · exact ⟨0, by simp [hmutex, htry, hready, hsignal, hlock, -bind_pure_comp]⟩
      · exact ⟨1, by simp [hmutex, htry, hready, hsignal, hlock, hunlocked, -bind_pure_comp]⟩
    · exact ⟨1, by simp [hmutex, htry, hready, hsignal, hunlocked, -bind_pure_comp]⟩

theorem acquire_ended (h : session.shell_sync_mutex = false ∨
    (session.shell_sync_ready = false ∧ env.trylock ≠ 0)) :
    acquireSession env me session w = [.ended .nullDereference w] := by
  unfold acquireSession lockSession
  cases hmutex : session.shell_sync_mutex with
  | false => simp
  | true =>
      rcases h with h | ⟨hready, htry⟩
      · rw [hmutex] at h
        cases h
      · simp [hready, htry]

/-- The call goes through a NULL pointer, or it removes the session that it has locked. -/
theorem exit_cases (env : ExitEnv) (me : Nat) (hsession : w.su_session = some session) :
    (¬ (session.shell_sync_mutex = true ∧
        (session.shell_sync_ready = true ∨ env.trylock = 0)) ∧
      su_srv_exit_shell_session env me w = [.ended .nullDereference w]) ∨
    (session.shell_sync_mutex = true ∧ (session.shell_sync_ready = true ∨ env.trylock = 0) ∧
      su_srv_exit_shell_session env me w =
        removeSession env session { w with su_session := some (lockedBy env me session) }) := by
  unfold su_srv_exit_shell_session
  rw [Proc.get_bind, hsession]
  by_cases hcrash : session.shell_sync_mutex = false ∨
      (session.shell_sync_ready = false ∧ env.trylock ≠ 0)
  · refine .inl ⟨fun ⟨hmutex, hready⟩ => ?_, Proc.bind_of_ended (acquire_ended hcrash)⟩
    rcases hcrash with h | ⟨h, htry⟩
    · rw [hmutex] at h
      cases h
    · rcases hready with hready | hready
      · rw [hready] at h
        cases h
      · exact htry hready
  · have hmutex : session.shell_sync_mutex = true := by simpa using fun h => hcrash (.inl h)
    have hready : session.shell_sync_ready = true ∨ env.trylock = 0 := by
      by_contra h
      rw [not_or, Bool.not_eq_true] at h
      exact hcrash (.inr h)
    obtain ⟨last_err, hacquire⟩ := acquire_returned me hmutex hready hsession
    exact .inr ⟨hmutex, hready, Proc.bind_of_returned hacquire⟩

/-- The mutex and the condition exist; if the shell is reaped in time, so does the
`pthread_t`; the call removes the session, or its thread does not get the mutex
and has not locked it before. -/
def ExitsCleanly (env : ExitEnv) (me : Nat) (session : SuShellSession) : Prop :=
  session.shell_sync_mutex = true ∧ session.shell_sync_ready = true ∧
    (Stops env → session.handler_pth = true) ∧
    (Removes env ∨ (¬ Acquires env ∧ session.shell_sync_owner ≠ some me))

theorem exitUsable_iff (hsession : w.su_session = some session) :
    ExitUsable me (su_srv_exit_shell_session env me w) ↔ ExitsCleanly env me session := by
  rcases exit_cases env me hsession with ⟨hcrash, hexit⟩ | ⟨hmutex, hready, hexit⟩
  · rw [hexit, exitUsable_singleton]
    refine ⟨False.elim, fun ⟨hmutex, hready, _⟩ => ?_⟩
    exact hcrash ⟨hmutex, .inl hready⟩
  · have hacquires : env.trylock = 0 → Acquires env := .inl
    rw [hexit, removeSession_usable_iff rfl, lockedBy_owner, lockedBy_pointers.1,
      lockedBy_pointers.2]
    unfold ExitsCleanly
    tauto

def openSession : SuShellSession :=
  { sun_path := ascii "/data/susrv/var/run/su-04711", afun_client_fd := 4, handler_pth := true,
    shell_sync_mutex := true, shell_sync_ready := true, shell_sync_owner := none }

/-- A host process that has opened a session. -/
def openProcess : Process :=
  { role := .caller, su_session := some openSession, allocated := true, fds := {4},
    paths := [openSession.sun_path], shell := .unreaped, handler := .running }

example : .returned 0 openProcess ∈
    su_srv_open_shell_session faultless (ascii "/data/susrv") 4711 initialProcess := by
  decide +kernel

/-- The second poll reports the child. -/
theorem exitUsable_second_poll :
    ExitUsable 0 (su_srv_exit_shell_session
      { trylock := 0, signal := 0, lock := 0,
        waitpid := fun poll => if poll = 0 then .zero else .pid, join := 0 } 0 openProcess) :=
  (exitUsable_iff rfl).mpr
    ⟨rfl, rfl, fun _ => rfl, .inl ⟨⟨1, by decide, rfl, fun j hj => by
      rw [Nat.lt_one_iff.mp hj]
      rfl⟩, rfl⟩⟩

/-- When the host has reaped the child itself, exit keeps the mutex. -/
theorem not_exitUsable_reaped_child :
    ¬ ∀ (env : ExitEnv) (me : Nat) (session : SuShellSession) (w : Process),
      w.su_session = some session → session.shell_sync_mutex = true →
        session.shell_sync_ready = true → session.handler_pth = true →
          ExitUsable me (su_srv_exit_shell_session env me w) := by
  intro h
  let env : ExitEnv :=
    { trylock := 0, signal := 0, lock := 0, waitpid := fun _ => .error, join := 0 }
  have hfails : .returned (-1) { openProcess with
      su_session := some { openSession with shell_sync_owner := some 0 } } ∈
      su_srv_exit_shell_session env 0 openProcess := by
    decide +kernel
  rcases h env 0 openSession openProcess rfl rfl rfl rfl _ hfails with ⟨hzero, -⟩ | ⟨-, hreleased⟩
  · cases hzero
  · exact hreleased _ rfl rfl

end Susrv.Native
