import Susrv.Native.Proofs.OpenOutcome

/-!
# Failures of open

`oneReturn_iff` is about the processes that come out of
`su_srv_open_shell_session`, `openAtomic_iff` about what a failed call leaves
behind.
-/

namespace Susrv.Native

open Base Base.CString

variable {env : OpenEnv} {session : SuShellSession} {w : Process} {pfs_root : Bytes}
  {owner_pid : Nat}

/-! ## Processes that return -/

def returningRole : Outcome End Process Int → Option Role
  | .returned _ w => some w.role
  | .ended _ _ => none

/-- The call returns in the calling process and nowhere else; a forked process has
ended in it, with no handler thread and no session of its own. -/
structure OneReturn (outcomes : List (Outcome End Process Int)) : Prop where
  returns : outcomes.filterMap returningRole = [.caller]
  children : ∀ o ∈ outcomes, o.process.role = .child →
    o.process.handler = .none ∧ o.process.su_session = none

/-- A call that gets as far as the shell finds a candidate; if it forks, the thread
of the caller is created and the child either becomes `su` or cannot create a
thread; a call that fails has a mutex and a condition to destroy. -/
def ReturnsOnce (env : OpenEnv) (pfs_root : Bytes) (owner_pid : Nat) (w : Process) : Prop :=
  OnSession env pfs_root owner_pid fun session =>
    (Connects env session.sun_path w →
      Found env ∧
        (env.fork = true → session.handler_pth = true ∧ env.pthread_create .caller = 0 ∧
          (env.execve = true ∨ env.pthread_create .child ≠ 0)) ∧
        (env.fork = false → session.shell_sync_mutex = true ∧ session.shell_sync_ready = true)) ∧
    (¬ Connects env session.sun_path w →
      session.shell_sync_mutex = true ∧ session.shell_sync_ready = true)

theorem oneReturn_deleteOutcome (hrole : w.role = .caller) :
    OneReturn [deleteOutcome session w] ↔
      session.shell_sync_mutex = true ∧ session.shell_sync_ready = true := by
  unfold deleteOutcome
  split
  · rename_i hpointers
    refine ⟨fun _ => hpointers, fun _ => ⟨?_, ?_⟩⟩
    · rw [List.filterMap_cons_some (b := .caller)]
      · rfl
      · rw [returningRole, (cleanUp_sameHost session w).role, hrole]
    · intro o ho hchild
      rw [List.mem_singleton.mp ho, Outcome.process_returned, (cleanUp_sameHost session w).role,
        hrole] at hchild
      cases hchild
  · rename_i hpointers
    refine ⟨fun h => ?_, fun h => absurd h hpointers⟩
    have hreturns : [] = [Role.caller] := h.returns
    cases hreturns

theorem openedOutcome_of_thread {peer : Nat}
    (h : session.handler_pth = true ∧ env.pthread_create w.role = 0) :
    openedOutcome env session peer w =
      .returned 0 { closed peer { w with handler := .running } with su_session := some session } :=
  if_pos h

theorem openedOutcome_of_no_thread {peer : Nat}
    (h : ¬ (session.handler_pth = true ∧ env.pthread_create w.role = 0)) :
    openedOutcome env session peer w = .ended .nullDereference w :=
  if_neg h

/-- The two processes of a call that forks. -/
theorem oneReturn_forked {parent child : Process} {peer : Nat} (hparent : parent.role = .caller)
    (hchild : child.role = .child ∧ child.handler = .none ∧ child.su_session = none) :
    OneReturn
        [openedOutcome env session peer parent,
          if env.execve then .ended .becameSu child else openedOutcome env session peer child] ↔
      session.handler_pth = true ∧ env.pthread_create .caller = 0 ∧
        (env.execve = true ∨ env.pthread_create .child ≠ 0) := by
  obtain ⟨hrole, hclean⟩ := hchild
  by_cases hthread : session.handler_pth = true ∧ env.pthread_create .caller = 0
  · rw [openedOutcome_of_thread (w := parent) (by rwa [hparent])]
    have hended : ∀ e : End, OneReturn
        [.returned 0 { closed peer { parent with handler := .running } with
          su_session := some session }, .ended e child] := by
      intro e
      constructor
      · simpa [returningRole, closed] using hparent
      · simp [closed, hparent, hclean]
    cases hexec : env.execve with
    | true => simpa [hthread] using hended .becameSu
    | false =>
        by_cases hpth : env.pthread_create .child = 0
        · have hboth : session.handler_pth = true ∧ env.pthread_create child.role = 0 :=
            ⟨hthread.1, by rwa [hrole]⟩
          simp only [Bool.false_eq_true, if_false, openedOutcome_of_thread hboth]
          refine ⟨fun h => ?_, by simp [hpth]⟩
          have hreturns := h.returns
          simp [returningRole, closed] at hreturns
        · have hneither : ¬ (session.handler_pth = true ∧ env.pthread_create child.role = 0) := by
            rw [hrole]
            exact fun h => hpth h.2
          simp only [Bool.false_eq_true, if_false, openedOutcome_of_no_thread hneither]
          simpa [hthread, hpth] using hended .nullDereference
  · rw [openedOutcome_of_no_thread (w := parent) (by rwa [hparent])]
    refine ⟨fun h => ?_, fun h => absurd ⟨h.1, h.2.1⟩ hthread⟩
    -- only the child can have returned
    have hreturns : .caller ∈ List.filterMap returningRole _ :=
      h.returns ▸ List.mem_singleton_self _
    obtain ⟨o, ho, hcaller⟩ := List.mem_filterMap.mp hreturns
    rcases List.mem_cons.mp ho with rfl | ho
    · cases hcaller
    · rw [List.mem_singleton.mp ho] at hcaller
      unfold openedOutcome at hcaller
      split at hcaller
      · cases hcaller
      · split at hcaller
        · simp [returningRole, closed, hrole] at hcaller
        · cases hcaller

theorem oneReturn_iff (hrole : w.role = .caller) :
    OneReturn (su_srv_open_shell_session env pfs_root owner_pid w) ↔
      (w.su_session = none → ReturnsOnce env pfs_root owner_pid w) := by
  have hstay : ∀ last_err, OneReturn [.returned last_err w] := fun last_err =>
    ⟨by simp [returningRole, hrole], by simp [hrole]⟩
  by_cases hnull : w.su_session = none
  swap
  · rw [open_of_bound hnull]
    exact ⟨fun _ h => absurd h hnull, fun _ => hstay _⟩
  rw [forall_prop_of_true hnull]
  unfold ReturnsOnce
  rcases started_or_not env pfs_root owner_pid with hstart | ⟨hpfs, session, hnew⟩
  · rw [open_of_not_started hnull hstart]
    exact ⟨fun _ => onSession_of_not_started hstart, fun _ => hstay _⟩
  rw [onSession_iff hpfs hnew]
  by_cases hconn : Connects env session.sun_path w
  · by_cases hfound : Found env
    · cases hfork : env.fork with
      | false =>
          obtain ⟨client, peer, -, hopen⟩ := open_of_not_forked hnull hpfs hnew hconn hfound hfork
          rw [hopen, oneReturn_deleteOutcome (by exact hrole)]
          simp [hconn, hfound]
      | true =>
          obtain ⟨client, peer, hopen⟩ := open_of_forked hnull hpfs hnew hconn hfound hfork
          rw [hopen]
          refine Iff.trans (oneReturn_forked ?_ ?_) ?_
          · exact hrole
          · exact ⟨rfl, rfl, hnull⟩
          · simp [hconn, hfound]
    · obtain ⟨w', -, hopen⟩ := open_of_not_found hnull hpfs hnew hconn hfound
      rw [hopen]
      refine ⟨fun h => ?_, fun h => absurd (h.1 hconn).1 hfound⟩
      have hreturns : [] = [Role.caller] := h.returns
      cases hreturns
  · obtain ⟨client, w', hopen, hsame, -⟩ := open_of_not_connected hnull hpfs hnew hconn
    rw [hopen, oneReturn_deleteOutcome (hsame.role.trans hrole)]
    simp [hconn]

theorem oneReturn_faultless :
    OneReturn (su_srv_open_shell_session faultless (ascii "/data/susrv") 4711 initialProcess) :=
  (oneReturn_iff rfl).mpr fun _ _ session hnew => by
    rw [noFault_faultless.new_eq (by decide)] at hnew
    cases hnew
    exact ⟨fun _ => ⟨found_faultless, fun _ => ⟨rfl, rfl, .inl rfl⟩, fun _ => ⟨rfl, rfl⟩⟩,
      fun _ => ⟨rfl, rfl⟩⟩

/-- When `execve` fails, open returns in two processes. -/
theorem not_oneReturn_failed_execve :
    ¬ ∀ (env : OpenEnv) (pfs_root : Bytes) (owner_pid : Nat) (w : Process),
      w.su_session = none → w.role = .caller → Found env →
        OneReturn (su_srv_open_shell_session env pfs_root owner_pid w) := by
  intro h
  have hone := h { faultless with execve := false } (ascii "/data/susrv") 4711 initialProcess
    rfl rfl found_faultless
  have htwo : (su_srv_open_shell_session { faultless with execve := false } (ascii "/data/susrv")
      4711 initialProcess).filterMap returningRole = [.caller, .child] := by decide +kernel
  rw [hone.returns] at htwo
  cases htwo

/-! ## What a failed call leaves -/

def Completed : Outcome End Process Int → Prop
  | .returned last_err w => last_err = 0 ∧ w.su_session.isSome = true
  | .ended _ _ => False

/-- The call fails with `last_err` and leaves `w'`, which is `w` for all that matters;
a later call with no fault, to the same root, completes. -/
structure Undone (pfs_root : Bytes) (owner_pid : Nat) (w : Process) (last_err : Int)
    (w' : Process) : Prop where
  last_err : last_err ≠ 0
  su_session : w'.su_session = none
  shell : w'.shell = w.shell ∨ w'.shell = .reaped
  fds : w'.fds = w.fds
  paths : w'.paths = w.paths
  later : pathFits pfs_root = true → ∀ env, NoFault env →
    ∃ o ∈ su_srv_open_shell_session env pfs_root owner_pid w',
      o.process.role = .caller ∧ Completed o

def OpenAtomic (pfs_root : Bytes) (owner_pid : Nat) (w : Process)
    (outcomes : List (Outcome End Process Int)) : Prop :=
  ∀ o ∈ outcomes, o.process.role = .caller →
    Completed o ∨ ∃ last_err w', o = .returned last_err w' ∧
      Undone pfs_root owner_pid w last_err w'

/-- The path is free.  A call that gets as far as the shell finds a candidate and
creates its thread; a call that fails has a mutex and a condition to destroy, and
fails in the rendez-vous only where that is undone. -/
def OpensCleanly (env : OpenEnv) (pfs_root : Bytes) (owner_pid : Nat) (w : Process) : Prop :=
  (pathFits pfs_root = true → rdvPath pfs_root owner_pid ∉ w.paths) ∧
  OnSession env pfs_root owner_pid fun session =>
    (Connects env session.sun_path w →
      Found env ∧
        (env.fork = true → session.handler_pth = true ∧ env.pthread_create .caller = 0) ∧
        (env.fork = false → session.shell_sync_mutex = true ∧ session.shell_sync_ready = true)) ∧
    (¬ Connects env session.sun_path w →
      (session.shell_sync_mutex = true ∧ session.shell_sync_ready = true) ∧
        Withdraws env session.sun_path w)

theorem not_completed_deleteOutcome : ¬ Completed (deleteOutcome session w) := by
  unfold deleteOutcome
  split
  · exact fun h => absurd h.1 (by decide)
  · exact id

/-- With no fault, open completes exactly if its path is free. -/
theorem NoFault.completes_iff (h : NoFault env) (hnull : w.su_session = none)
    (hrole : w.role = .caller) (hfits : pathFits pfs_root = true) :
    (∃ o ∈ su_srv_open_shell_session env pfs_root owner_pid w,
      o.process.role = .caller ∧ Completed o) ↔ rdvPath pfs_root owner_pid ∉ w.paths := by
  have hnew : su_shell_session_new env pfs_root owner_pid = _ := h.new_eq hfits
  constructor
  · rintro ⟨o, ho, -, hcompleted⟩ hpath
    obtain ⟨client, w', hopen, -⟩ :=
      open_of_not_connected hnull h.pfs_init hnew fun hconn => hconn.2.2.1 hpath
    rw [hopen, List.mem_singleton] at ho
    rw [ho] at hcompleted
    exact not_completed_deleteOutcome hcompleted
  · intro hpath
    obtain ⟨client, peer, hopen⟩ :=
      open_of_forked hnull h.pfs_init hnew (h.connects hpath) h.found h.fork
    rw [hopen, openedOutcome_of_thread ⟨rfl, h.pthread_create _⟩]
    exact ⟨_, List.mem_cons_self, hrole, rfl, rfl⟩

theorem undone_iff {w' : Process} {last_err : Int} (herr : last_err ≠ 0)
    (hrole : w'.role = .caller) (hnull : w'.su_session = none) (hshell : w'.shell = w.shell) :
    Undone pfs_root owner_pid w last_err w' ↔
      (w'.fds = w.fds ∧ w'.paths = w.paths) ∧
        (pathFits pfs_root = true → rdvPath pfs_root owner_pid ∉ w.paths) := by
  constructor
  · intro h
    refine ⟨⟨h.fds, h.paths⟩, fun hfits => ?_⟩
    have hlater := h.later hfits faultless noFault_faultless
    rw [noFault_faultless.completes_iff hnull hrole hfits, h.paths] at hlater
    exact hlater
  · rintro ⟨⟨hfds, hpaths⟩, hfree⟩
    refine ⟨herr, hnull, .inl hshell, hfds, hpaths, fun hfits env' henv' => ?_⟩
    rw [henv'.completes_iff hnull hrole hfits, hpaths]
    exact hfree hfits

theorem openAtomic_ended {e : End} {w' : Process} (hrole : w'.role = .caller) :
    ¬ OpenAtomic pfs_root owner_pid w [.ended e w'] := by
  intro h
  rcases h _ (List.mem_singleton_self _) hrole with hcompleted | ⟨last_err, w'', heq, -⟩
  · exact hcompleted
  · cases heq

theorem openAtomic_returned {w' : Process} {last_err : Int} (herr : last_err ≠ 0)
    (hrole : w'.role = .caller) (hnull : w'.su_session = none) (hshell : w'.shell = w.shell) :
    OpenAtomic pfs_root owner_pid w [.returned last_err w'] ↔
      (w'.fds = w.fds ∧ w'.paths = w.paths) ∧
        (pathFits pfs_root = true → rdvPath pfs_root owner_pid ∉ w.paths) := by
  rw [← undone_iff herr hrole hnull hshell]
  constructor
  · intro h
    rcases h _ (List.mem_singleton_self _) hrole with hcompleted | ⟨_, _, heq, hundone⟩
    · exact absurd hcompleted.1 herr
    · cases heq
      exact hundone
  · intro hundone o ho _
    exact .inr ⟨last_err, w', List.mem_singleton.mp ho, hundone⟩

theorem openAtomic_deleteOutcome {w' : Process} (hrole : w'.role = .caller)
    (hnull : w'.su_session = none) (hshell : w'.shell = w.shell) :
    OpenAtomic pfs_root owner_pid w [deleteOutcome session w'] ↔
      (session.shell_sync_mutex = true ∧ session.shell_sync_ready = true) ∧
        Restores session w w' ∧
        (pathFits pfs_root = true → rdvPath pfs_root owner_pid ∉ w.paths) := by
  have hsame := cleanUp_sameHost session w'
  unfold deleteOutcome
  split
  · rename_i hpointers
    rw [openAtomic_returned (by decide) (hsame.role.trans hrole) (hsame.su_session.trans hnull)
      (hsame.shell.trans hshell)]
    exact ⟨fun h => ⟨hpointers, h⟩, And.right⟩
  · rename_i hpointers
    exact ⟨fun h => absurd h (openAtomic_ended hrole), fun h => absurd h.1 hpointers⟩

theorem openAtomic_forked {parent child : Process} {peer : Nat} (hparent : parent.role = .caller)
    (hchild : child.role = .child) :
    OpenAtomic pfs_root owner_pid w
        [openedOutcome env session peer parent,
          if env.execve then .ended .becameSu child else openedOutcome env session peer child] ↔
      session.handler_pth = true ∧ env.pthread_create .caller = 0 := by
  have hskip : ∀ o : Outcome End Process Int, o.process.role = .child →
      ∀ outcomes, OpenAtomic pfs_root owner_pid w (outcomes ++ [o]) ↔
        OpenAtomic pfs_root owner_pid w outcomes := by
    intro o ho outcomes
    simp [OpenAtomic, or_imp, forall_and, ho]
  have hrole : (if env.execve then .ended .becameSu child
      else openedOutcome env session peer child : Outcome End Process Int).process.role =
        .child := by
    unfold openedOutcome
    split
    · exact hchild
    · split <;> exact hchild
  rw [← List.singleton_append, hskip _ hrole]
  by_cases hthread : session.handler_pth = true ∧ env.pthread_create parent.role = 0
  · rw [openedOutcome_of_thread hthread, ← hparent]
    refine ⟨fun _ => hthread, fun _ o ho _ => .inl ?_⟩
    rw [List.mem_singleton.mp ho]
    exact ⟨rfl, rfl⟩
  · rw [openedOutcome_of_no_thread hthread, ← hparent]
    exact ⟨fun h => absurd h (openAtomic_ended hparent), fun h => absurd h hthread⟩

theorem openAtomic_iff (hnull : w.su_session = none) (hrole : w.role = .caller) :
    OpenAtomic pfs_root owner_pid w (su_srv_open_shell_session env pfs_root owner_pid w) ↔
      OpensCleanly env pfs_root owner_pid w := by
  unfold OpensCleanly
  rcases started_or_not env pfs_root owner_pid with hstart | ⟨hpfs, session, hnew⟩
  · rw [open_of_not_started hnull hstart, openAtomic_returned (by decide) hrole hnull rfl]
    simp [onSession_of_not_started hstart]
  rw [onSession_iff hpfs hnew]
  obtain ⟨-, hsun_path, -⟩ := new_eq_some hnew
  by_cases hconn : Connects env session.sun_path w
  · have hfree : rdvPath pfs_root owner_pid ∉ w.paths := hsun_path ▸ hconn.2.2.1
    by_cases hfound : Found env
    · cases hfork : env.fork with
      | false =>
          obtain ⟨client, peer, hclient, hopen⟩ :=
            open_of_not_forked hnull hpfs hnew hconn hfound hfork
          rw [hopen, openAtomic_deleteOutcome (by exact hrole) (by exact hnull) (by rfl)]
          simp [hconn, hfound, hfree, Restores, cleanUp, closed, connected, hclient]
      | true =>
          obtain ⟨client, peer, hopen⟩ := open_of_forked hnull hpfs hnew hconn hfound hfork
          rw [hopen]
          refine Iff.trans (openAtomic_forked ?_ rfl) ?_
          · exact hrole
          · simp [hconn, hfound, hfree]
    · obtain ⟨w', hrole', hopen⟩ := open_of_not_found hnull hpfs hnew hconn hfound
      rw [hopen]
      exact ⟨fun h => absurd h (openAtomic_ended (hrole'.trans hrole)),
        fun h => absurd (h.2.1 hconn).1 hfound⟩
  · obtain ⟨client, w', hopen, hsame, hclean⟩ := open_of_not_connected hnull hpfs hnew hconn
    rw [hopen, openAtomic_deleteOutcome (hsame.role.trans hrole) (hsame.su_session.trans hnull)
      hsame.shell, hclean]
    simp only [hconn, not_false_eq_true, true_implies, false_implies, true_and]
    tauto

theorem openAtomic_refused_connect :
    OpenAtomic (ascii "/data/susrv") 4711 initialProcess
      (su_srv_open_shell_session { faultless with connect := false } (ascii "/data/susrv") 4711
        initialProcess) :=
  (openAtomic_iff rfl rfl).mpr ⟨fun _ => List.not_mem_nil, fun _ session hnew => by
    have hsession : some session = su_shell_session_new faultless (ascii "/data/susrv") 4711 :=
      hnew.symm
    rw [noFault_faultless.new_eq (by decide)] at hsession
    cases hsession
    refine ⟨fun hconn => ?_, fun _ => ⟨⟨rfl, rfl⟩, ?_⟩⟩
    · exact absurd hconn.2.2.2.2.2.1 (by decide)
    · exact .inr ⟨by decide, .inr (.inr ⟨rfl, by decide, .inl rfl⟩)⟩⟩

/-- When the handler thread cannot be created, open stops the shell through
`_su_session`, which is still NULL. -/
theorem not_openAtomic_failed_pthread_create :
    ¬ ∀ (env : OpenEnv) (pfs_root : Bytes) (owner_pid : Nat) (w : Process),
      w.su_session = none → w.role = .caller →
        OpenAtomic pfs_root owner_pid w (su_srv_open_shell_session env pfs_root owner_pid w) := by
  intro h
  let env : OpenEnv := { faultless with pthread_create := fun _ => 11 }
  let crashed : Process :=
    { initialProcess with
      allocated := true, fds := {5, 4}, paths := [ascii "/data/susrv/var/run/su-04711"],
      shell := .unreaped }
  have hcrash : .ended .nullDereference crashed ∈
      su_srv_open_shell_session env (ascii "/data/susrv") 4711 initialProcess := by
    decide +kernel
  rcases h env (ascii "/data/susrv") 4711 initialProcess rfl rfl _ hcrash rfl with
    hcompleted | ⟨last_err, w', heq, -⟩
  · exact hcompleted
  · cases heq

end Susrv.Native
