import Susrv.Native.Library
import Susrv.Native.Proofs.ExitPaths

/-!
# What is held between sessions

Nothing closes the log, so a session that ends, or an open that fails behind
`su_srv_log_init`, leaves a buffer behind.  `balanced_iff` is the balance for all runs.
-/

namespace Susrv.Native

open Base Base.CString Base.Transition

/-! ## The property -/

structure NothingHeld (h : Library) : Prop where
  fds : h.process.fds = 0
  streams : h.log.streams = 0
  buffers : h.log.buffers = 0
  unreaped : h.unreaped = 0
  unjoined : h.unjoined = 0

/-- Between the calls, without a session nothing is held. -/
def Balanced (h : Library) : Prop :=
  h.fault = false → h.process.su_session = none → NothingHeld h

/-! ## Descriptors of a failed open -/

section Open

variable {env : OpenEnv} {session : SuShellSession} {w : Process} {pfs_root : Bytes}
  {owner_pid : Nat}

/-- A socket of the rendez-vous gets descriptor 0, which the code takes for none. -/
def LeavesZero (env : OpenEnv) (sun_path : Bytes) (w : Process) : Prop :=
  env.rdv_socket = some 0 ∨
    (0 < descriptor env.rdv_socket ∧ env.bind = true ∧ sun_path ∉ w.paths ∧ env.listen = true ∧
      (env.client_socket = some 0 ∨
        (0 < descriptor env.client_socket ∧ env.connect = true ∧ env.accept = some 0)))

theorem not_leavesZero_of_connects {sun_path : Bytes} (h : Connects env sun_path w) :
    ¬ LeavesZero env sun_path w := by
  obtain ⟨hrdv, -, -, -, hclient, -, haccept⟩ := h
  rintro (hzero | ⟨-, -, -, -, hzero | ⟨-, -, hzero⟩⟩)
  · simp [hzero] at hrdv
  · simp [hzero] at hclient
  · simp [hzero] at haccept

/-- The rendez-vous behind a successful `bind`, without a peer. -/
theorem rendezvous_fds {r : Nat} {x : Int × SuShellSession} {w' : Process} (hpos : 0 < r)
    (hbind : env.bind = true) (hpath : session.sun_path ∉ w.paths)
    (hclient : session.afun_client_fd = 0) (hpeer : x.1 ≤ 0)
    (h : rendezvous env r session { w with fds := r ::ₘ w.fds } = [.returned x w']) :
    (cleanUp x.2 { w' with fds := w'.fds.erase r }).fds = w.fds ↔
      ¬ (env.listen = true ∧
        (env.client_socket = some 0 ∨
          (0 < descriptor env.client_socket ∧ env.connect = true ∧ env.accept = some 0))) := by
  unfold rendezvous at h
  rw [bindRdv_bind, if_pos ⟨by omega, hbind, hpath⟩] at h
  by_cases hlisten : env.listen = true
  · rcases hc : env.client_socket with _ | c
    · simp [hlisten, openFd_bind, hc] at h
      obtain ⟨rfl, rfl⟩ := h
      simp [cleanUp]
    · by_cases hczero : c = 0
      · subst hczero
        simp [hlisten, openFd_bind, hc] at h
        obtain ⟨rfl, rfl⟩ := h
        simp [cleanUp, hlisten, erase_second, cons_ne]
      · have hcpos : 0 < c := Nat.pos_of_ne_zero hczero
        by_cases hconnect : env.connect = true
        · rcases ha : env.accept with _ | a
          · simp [hlisten, openFd_bind, hc, hconnect, hcpos, ha, -bind_pure_comp] at h
            obtain ⟨rfl, rfl⟩ := h
            simp [cleanUp, hcpos, erase_second, hczero]
          · simp [hlisten, openFd_bind, hc, hconnect, hcpos, ha, -bind_pure_comp] at h
            obtain ⟨rfl, rfl⟩ := h
            have hazero : a = 0 := by simpa using hpeer
            subst hazero
            simp [cleanUp, hcpos, hlisten, hconnect, erase_third, erase_second, cons_ne]
        · simp [hlisten, openFd_bind, hc, hconnect] at h
          obtain ⟨rfl, rfl⟩ := h
          simp [cleanUp, hcpos, erase_second, hczero, hconnect]
  · simp [hlisten] at h
    obtain ⟨rfl, rfl⟩ := h
    simp [cleanUp, hclient, hlisten]

theorem rdv_fds {x : Int × SuShellSession} {w' : Process} (hclient : session.afun_client_fd = 0)
    (hconnects : ¬ Connects env session.sun_path w)
    (h : su_shell_session_af_un_rdv env session w = [.returned x w']) :
    (cleanUp x.2 w').fds = w.fds ↔ ¬ LeavesZero env session.sun_path w := by
  unfold LeavesZero
  rcases hr : env.rdv_socket with _ | r
  · have hinner : rendezvous env (-1) session w = [.returned (-1, session) w] := by
      unfold rendezvous
      rw [bindRdv_bind, if_neg (by simp)]
      simp
    unfold su_shell_session_af_un_rdv at h
    rw [openFd_bind, hr, if_pos (by decide), Option.elim, descriptor,
      Proc.bind_of_returned hinner, close_bind] at h
    simp at h
    obtain ⟨rfl, rfl⟩ := h
    simp [cleanUp, hclient]
  · by_cases hzero : r = 0
    · subst hzero
      unfold su_shell_session_af_un_rdv at h
      rw [openFd_bind, hr] at h
      simp [descriptor] at h
      obtain ⟨rfl, rfl⟩ := h
      simp [cleanUp, hclient, cons_ne]
    · have hpos : 0 < r := Nat.pos_of_ne_zero hzero
      by_cases hbound : env.bind = true ∧ session.sun_path ∉ w.paths
      · obtain ⟨hbind, hpath⟩ := hbound
        obtain ⟨peer, client, u, hpeer, hinner, -, -⟩ :=
          rendezvous_of_not_connects hconnects hclient hr hpos
        rw [rdv_of_rendezvous hr hpos hinner] at h
        obtain ⟨rfl, rfl⟩ : (peer, { session with afun_client_fd := client }) = x ∧
            { u with fds := u.fds.erase r } = w' := by
          simpa using h
        rw [rendezvous_fds hpos hbind hpath hclient hpeer hinner]
        simp [hzero, hpos, hbind, hpath]
      · have hinner : rendezvous env r session { w with fds := r ::ₘ w.fds } =
            [.returned (-1, session) { w with fds := r ::ₘ w.fds }] := by
          unfold rendezvous
          rw [bindRdv_bind, if_neg fun hall => hbound hall.2]
          simp
        rw [rdv_of_rendezvous hr hpos hinner] at h
        simp at h
        obtain ⟨rfl, rfl⟩ := h
        have hnot : ¬ (env.bind = true ∧ session.sun_path ∉ w.paths ∧ env.listen = true ∧
            (env.client_socket = some 0 ∨
              (0 < descriptor env.client_socket ∧ env.connect = true ∧ env.accept = some 0))) :=
          fun hall => hbound ⟨hall.1, hall.2.1⟩
        simp [cleanUp, hclient, hzero, hnot]

/-! ## Open in its caller -/

/-- The call, past `su_srv_pfs_init`, returns an error. -/
def OpenFails (env : OpenEnv) (pfs_root : Bytes) (owner_pid : Nat) (w : Process) : Prop :=
  ∀ session, su_shell_session_new env pfs_root owner_pid = some session →
    (session.shell_sync_mutex = true ∧ session.shell_sync_ready = true) ∧
      (Connects env session.sun_path w → Found env ∧ env.fork = false)

def LeavesDescriptor (env : OpenEnv) (pfs_root : Bytes) (owner_pid : Nat) (w : Process) : Prop :=
  ∃ session, su_shell_session_new env pfs_root owner_pid = some session ∧
    LeavesZero env session.sun_path w

/-- How a call that finds no session comes out in the process that makes it. -/
inductive OpenResult (env : OpenEnv) (pfs_root : Bytes) (owner_pid : Nat) (w : Process) :
    Outcome End Process Int → Prop
  | failed (u : Process) (hsame : SameHost w u) (h : OpenFails env pfs_root owner_pid w)
      (hfds : u.fds = w.fds ↔ ¬ LeavesDescriptor env pfs_root owner_pid w) :
      OpenResult env pfs_root owner_pid w (.returned SU_SRV_SYSTEM_ERR u)
  | opened (u : Process) (hrole : u.role = .caller) (hsession : u.su_session.isSome = true)
      (h : ¬ OpenFails env pfs_root owner_pid w) :
      OpenResult env pfs_root owner_pid w (.returned 0 u)
  | ended (e : End) (u : Process) (h : ¬ OpenFails env pfs_root owner_pid w) :
      OpenResult env pfs_root owner_pid w (.ended e u)

theorem deleteOutcome_result {u : Process}
    (hnew : su_shell_session_new env pfs_root owner_pid = some session) (client : Int)
    (hsame : SameHost w u)
    (hconnects : Connects env session.sun_path w → Found env ∧ env.fork = false)
    (hfds : (cleanUp { session with afun_client_fd := client } u).fds = w.fds ↔
      ¬ LeavesZero env session.sun_path w) :
    OpenResult env pfs_root owner_pid w
      (deleteOutcome { session with afun_client_fd := client } u) := by
  unfold deleteOutcome
  split
  · rename_i hpointers
    obtain ⟨h₁, h₂, h₃, h₄⟩ := cleanUp_sameHost { session with afun_client_fd := client } u
    refine .failed _ ⟨h₁.trans hsame.role, h₂.trans hsame.su_session, h₃.trans hsame.shell,
      h₄.trans hsame.handler⟩ (fun session' hsession' => ?_) (hfds.trans (not_congr ?_))
    · obtain rfl : session = session' := Option.some.inj (hnew.symm.trans hsession')
      exact ⟨hpointers, hconnects⟩
    · simp [LeavesDescriptor, hnew]
  · rename_i hpointers
    exact .ended _ _ fun hfails => hpointers (hfails session hnew).1

theorem deleteOutcome_role {u : Process} (h : u.role = .caller) :
    (deleteOutcome session u).process.role = .caller := by
  unfold deleteOutcome
  split
  · exact (cleanUp_sameHost session u).role.trans h
  · exact h

theorem openedOutcome_result (session : SuShellSession) (peer : Nat) {u : Process}
    (hrole : u.role = .caller) (h : ¬ OpenFails env pfs_root owner_pid w) :
    (openedOutcome env session peer u).process.role = .caller ∧
      OpenResult env pfs_root owner_pid w (openedOutcome env session peer u) := by
  unfold openedOutcome
  split
  · exact ⟨hrole, .opened _ hrole rfl h⟩
  · exact ⟨hrole, .ended _ _ h⟩

theorem open_result (pfs_root : Bytes) (owner_pid : Nat) (hnull : w.su_session = none)
    (hrole : w.role = .caller) (hpfs : env.pfs_init = true) :
    ∃ o, callerOutcome (su_srv_open_shell_session env pfs_root owner_pid w) = some o ∧
      OpenResult env pfs_root owner_pid w o := by
  rcases started_or_not env pfs_root owner_pid with hnot | ⟨-, session, hnew⟩
  · have hnone := hnot hpfs
    rw [open_of_not_started hnull hnot]
    refine ⟨_, callerOutcome_cons hrole,
      .failed w ⟨rfl, rfl, rfl, rfl⟩ (fun session hsession => ?_) ?_⟩
    · rw [hnone] at hsession
      cases hsession
    · simp [LeavesDescriptor, hnone]
  have hclient := (new_eq_some hnew).2.2
  by_cases hconnects : Connects env session.sun_path w
  · have hopens : ¬ (Found env ∧ env.fork = false) → ¬ OpenFails env pfs_root owner_pid w :=
      fun h hfails => h ((hfails session hnew).2 hconnects)
    by_cases hfound : Found env
    · cases hfork : env.fork with
      | true =>
          obtain ⟨client, peer, hopen⟩ := open_of_forked hnull hpfs hnew hconnects hfound hfork
          rw [hopen]
          obtain ⟨hcaller, hresult⟩ := openedOutcome_result
            { session with afun_client_fd := client } peer
            (u := { connected w session.sun_path client peer with shell := .unreaped }) hrole
            (hopens (by simp [hfork]))
          exact ⟨_, callerOutcome_cons hcaller, hresult⟩
      | false =>
          obtain ⟨client, peer, hpos, hopen⟩ :=
            open_of_not_forked hnull hpfs hnew hconnects hfound hfork
          rw [hopen]
          have hsame : SameHost w (closed peer (connected w session.sun_path client peer)) :=
            ⟨rfl, rfl, rfl, rfl⟩
          refine ⟨_, callerOutcome_cons (deleteOutcome_role hrole),
            deleteOutcome_result hnew client hsame (fun _ => ⟨hfound, hfork⟩) ?_⟩
          simp [cleanUp, closed, connected, hpos, not_leavesZero_of_connects hconnects]
    · obtain ⟨u, hu, hopen⟩ := open_of_not_found hnull hpfs hnew hconnects hfound
      rw [hopen]
      exact ⟨_, callerOutcome_cons (hu.trans hrole), .ended _ _ (hopens fun h => hfound h.1)⟩
  · obtain ⟨peer, client, u, hpeer, hrdv, ⟨h₁, h₂, h₃, h₄⟩, -⟩ :=
      rdv_of_not_connects (w := { w with allocated := true }) hconnects hclient
    have hopen : su_srv_open_shell_session env pfs_root owner_pid w =
        [deleteOutcome { session with afun_client_fd := client } u] :=
      open_of_rdv_failed hnull hpfs hnew hpeer hrdv
    rw [hopen]
    refine ⟨_, callerOutcome_cons (deleteOutcome_role (h₁.trans hrole)),
      deleteOutcome_result hnew client ⟨h₁, h₂, h₃, h₄⟩ (fun h => absurd h hconnects) ?_⟩
    exact rdv_fds (w := { w with allocated := true }) hclient hconnects hrdv

end Open

/-! ## Exit and the end of the shell -/

section Removal

variable {session : SuShellSession} {w : Process}

/-- The call ends the process, or it removes the session if and only if `removes`. -/
def Leaves {α : Type} (removes : Prop) (role : Role) : Outcome End Process α → Prop
  | .returned _ u => u.role = role ∧ (u.su_session = none ↔ removes)
  | .ended _ _ => ¬ removes

theorem Leaves.bind_pure {α β : Type} {removes : Prop} {role : Role} {m : InProcess α}
    {o : Outcome End Process α} (b : β) (hm : m w = [o]) (h : Leaves removes role o) :
    ∃ o', (m >>= fun _ => pure b) w = [o'] ∧ Leaves removes role o' := by
  cases o with
  | returned a u => exact ⟨.returned b u, by rw [Proc.bind_of_returned hm, Proc.pure_apply], h⟩
  | ended e u => exact ⟨.ended e u, Proc.bind_of_ended hm, h⟩

/-- The shell is reaped, the thread joined, and there is nothing NULL on the way. -/
def ExitRemoves (env : ExitEnv) (session : SuShellSession) : Prop :=
  (session.shell_sync_mutex = true ∧ session.shell_sync_ready = true) ∧
    session.handler_pth = true ∧ Removes env

/-- The handler finds the mutex free. -/
def EofRemoves (session : SuShellSession) : Prop :=
  (session.shell_sync_mutex = true ∧ session.shell_sync_ready = true) ∧
    session.shell_sync_owner = none

theorem invalidate_leaves (hsession : w.su_session = some session) :
    ∃ o, invalidate_current_session w = [o] ∧
      Leaves (session.shell_sync_mutex = true ∧ session.shell_sync_ready = true) w.role o := by
  rw [invalidate_eq hsession, delete_eq]
  simp only [Bool.and_eq_true]
  split
  · rename_i hpointers
    have hsame := cleanUp_sameHost session { w with su_session := none }
    exact ⟨_, rfl, hsame.role, fun _ => hpointers, fun _ => hsame.su_session⟩
  · rename_i hpointers
    exact ⟨_, rfl, hpointers⟩

theorem removeSession_leaves {env : ExitEnv} {locked : SuShellSession}
    (hsession : w.su_session = some locked)
    (hmutex : locked.shell_sync_mutex = session.shell_sync_mutex)
    (hready : locked.shell_sync_ready = session.shell_sync_ready) :
    ∃ o, removeSession env session w = [o] ∧ Leaves (ExitRemoves env session) w.role o := by
  have hbound : w.su_session ≠ none := by simp [hsession]
  unfold removeSession
  by_cases hstops : Stops env
  · rw [Proc.bind_of_returned (stop_of_stops hstops hsession)]
    cases hpth : session.handler_pth with
    | false =>
        exact ⟨.ended .nullDereference { w with shell := .reaped }, by simp,
          by simp [Leaves, ExitRemoves, hpth]⟩
    | true =>
        by_cases hjoin : env.join = 0
        · obtain ⟨o, hinvalidate, hleaves⟩ :=
            invalidate_leaves (w := { w with shell := .reaped, handler := .joined }) hsession
          obtain ⟨o', ho', hleaves'⟩ := Leaves.bind_pure (0 : Int) hinvalidate hleaves
          refine ⟨o', ?_, ?_⟩
          · simp only [Bool.not_true, Bool.false_eq_true, hjoin, ne_eq, not_true_eq_false, if_false,
              Proc.modify_bind]
            exact ho'
          · have hiff : ExitRemoves env session ↔
                locked.shell_sync_mutex = true ∧ locked.shell_sync_ready = true := by
              rw [hmutex, hready]
              simp [ExitRemoves, hpth, Removes, hstops, hjoin]
            rw [hiff]
            exact hleaves'
        · refine ⟨.returned env.join { w with shell := .reaped }, by simp [hjoin], rfl, ?_⟩
          simp [hbound, ExitRemoves, Removes, hjoin]
  · rw [Proc.bind_of_returned (stop_of_not_stops hstops hsession)]
    refine ⟨.returned (-1) w, by simp, rfl, ?_⟩
    simp [hbound, ExitRemoves, Removes, hstops]

theorem exit_leaves (env : ExitEnv) (me : Nat) (hsession : w.su_session = some session) :
    ∃ o, su_srv_exit_shell_session env me w = [o] ∧ Leaves (ExitRemoves env session) w.role o := by
  rcases exit_cases env me hsession with ⟨hcrash, hexit⟩ | ⟨-, -, hexit⟩
  · refine ⟨.ended .nullDereference w, hexit, ?_⟩
    rintro ⟨⟨hmutex, hready⟩, -⟩
    exact hcrash ⟨hmutex, .inl hready⟩
  · rw [hexit]
    exact removeSession_leaves (w := { w with su_session := some (lockedBy env me session) }) rfl
      lockedBy_pointers.1 lockedBy_pointers.2

theorem stop_returned (waitpid : Nat → WaitResult) (hsession : w.su_session = some session) :
    ∃ last_err shell, shell_stop_process waitpid w =
      [.returned last_err { w with shell := shell }] := by
  unfold shell_stop_process
  rw [Proc.get_bind, if_neg (by simp [hsession])]
  by_cases hreaps : Reaps waitpid 0 WAIT_CHILD_MAX_RETRY
  · exact ⟨0, .reaped, waitChild_of_reaps hreaps⟩
  · exact ⟨-1, w.shell, waitChild_of_not_reaps hreaps⟩

theorem handlerEof_leaves (waitpid : Nat → WaitResult) (hsession : w.su_session = some session) :
    ∃ o, handlerEof waitpid w = [o] ∧ Leaves (EofRemoves session) w.role o := by
  have hbound : w.su_session ≠ none := by simp [hsession]
  unfold handlerEof
  rw [Proc.get_bind, hsession]
  cases hmutex : session.shell_sync_mutex with
  | false =>
      exact ⟨.ended .nullDereference w, by simp [hmutex], by simp [Leaves, EofRemoves, hmutex]⟩
  | true =>
      cases howner : session.shell_sync_owner with
      | some party =>
          cases hready : session.shell_sync_ready with
          | false =>
              exact ⟨.ended .nullDereference w, by simp [hmutex, howner, hready],
                by simp [Leaves, EofRemoves, hready]⟩
          | true =>
              refine ⟨.returned () w, by simp [hmutex, howner, hready], rfl, ?_⟩
              simp [hbound, EofRemoves, howner]
      | none =>
          obtain ⟨last_err, shell, hstop⟩ := stop_returned waitpid hsession
          obtain ⟨o, hinvalidate, hleaves⟩ :=
            invalidate_leaves (w := { w with shell := shell }) hsession
          refine ⟨o, ?_, ?_⟩
          · simp only [hmutex, howner, Bool.not_true, Bool.false_eq_true, if_false,
              Option.isSome_none]
            rw [Proc.bind_of_returned hstop]
            exact hinvalidate
          · have hiff : EofRemoves session ↔
                session.shell_sync_mutex = true ∧ session.shell_sync_ready = true := by
              simp [EofRemoves, howner]
            rw [hiff]
            exact hleaves

end Removal

/-! ## Whole runs -/

section Runs

variable {h h' : Library}

/-- An open that gets its log buffer does not fail, one without it loses no descriptor,
and no session is removed. -/
def LibraryKept (h : Library) : LibraryAction → Prop
  | .open env log pfs_root =>
      h.process.su_session = none → env.pfs_init = true →
        OpenFails env pfs_root h.owner_pid h.process →
          log.malloc = false ∧ ¬ LeavesDescriptor env pfs_root h.owner_pid h.process
  | .exit env _ => ∀ session, h.process.su_session = some session → ¬ ExitRemoves env session
  | .die _ => ∀ session, h.process.su_session = some session → ¬ EofRemoves session

/-- A session that is bound has its log. -/
structure LibraryInv (h : Library) : Prop where
  role : h.process.role = .caller
  balanced : h.process.su_session = none → NothingHeld h
  fresh : h.process.su_session = none → h.process.shell = .none ∧ h.process.handler = .none
  logged : h.process.su_session ≠ none → 0 < h.log.buffers
  stream : h.log.su_srv_log_fptr = true → 0 < h.log.streams

/-- Behind a fault nothing runs. -/
def LibraryOk (h : Library) : Prop := h.fault = false → LibraryInv h

theorem LibraryOk.balanced (hok : LibraryOk h) : Balanced h :=
  fun hfault hnull => (hok hfault).balanced hnull

@[simp] theorem settle_log : h.settle.log = h.log := by
  unfold Library.settle
  split <;> rfl

@[simp] theorem settle_fault : h.settle.fault = h.fault := by
  unfold Library.settle
  split <;> rfl

@[simp] theorem settle_su_session : h.settle.process.su_session = h.process.su_session := by
  unfold Library.settle
  split <;> rfl

@[simp] theorem settle_fds : h.settle.process.fds = h.process.fds := by
  unfold Library.settle
  split <;> rfl

theorem settle_of_bound (hbound : h.process.su_session ≠ none) : h.settle = h := by
  unfold Library.settle
  rw [if_pos (Option.isSome_iff_ne_none.mpr hbound)]

/-- A past session whose log buffer is there. -/
theorem not_balanced_of_buffers (hfault : h.fault = false) (hnull : h.process.su_session = none)
    (hbuffers : 0 < h.log.buffers) : ¬ Balanced h := by
  intro hbalanced
  have hzero : h.log.buffers = 0 := (hbalanced hfault hnull).buffers
  omega

/-- A call in a bound session keeps it or ends the balance. -/
theorem after_leaves {α : Type} {removes : Prop} {o : Outcome End Process α}
    (hfault : h.fault = false) (hinv : LibraryInv h) (hbound : h.process.su_session ≠ none)
    (hleaves : Leaves removes h.process.role o) (hstep : h.after (some o) = some h') :
    (¬ removes → LibraryOk h') ∧ (removes → ¬ Balanced h') := by
  cases o with
  | ended e u =>
      cases hstep
      refine ⟨fun _ hfault' => ?_, fun hremoves => absurd hremoves hleaves⟩
      cases hfault'
  | returned a u =>
      obtain ⟨hrole, hiff⟩ := hleaves
      cases hstep
      constructor
      · intro hkept _
        have hbound' : u.su_session ≠ none := fun hnull => hkept (hiff.mp hnull)
        rw [settle_of_bound (h := { h with process := u }) hbound']
        exact {
          role := hrole.trans hinv.role
          balanced := fun hnull => absurd hnull hbound'
          fresh := fun hnull => absurd hnull hbound'
          logged := fun _ => hinv.logged hbound
          stream := hinv.stream }
      · intro hremoves
        apply not_balanced_of_buffers
        · simpa using hfault
        · simpa using hiff.mpr hremoves
        · simpa using hinv.logged hbound

theorem LibraryInv.settle (hinv : LibraryInv h) : LibraryInv h.settle := by
  by_cases hbound : h.process.su_session = none
  · obtain ⟨hshell, hhandler⟩ := hinv.fresh hbound
    obtain ⟨hfds, hstreams, hbuffers, hunreaped, hunjoined⟩ := hinv.balanced hbound
    unfold Library.settle
    rw [if_neg (by simp [hbound])]
    exact {
      role := hinv.role
      balanced := fun _ => ⟨hfds, hstreams, hbuffers, by simp [hshell, hunreaped],
        by simp [hhandler, hunjoined]⟩
      fresh := fun _ => ⟨rfl, rfl⟩
      logged := fun hbound' => absurd hbound hbound'
      stream := hinv.stream }
  · rw [settle_of_bound hbound]
    exact hinv

theorem LibraryInv.handler (hinv : LibraryInv h) (eofPending : Bool) :
    LibraryInv { h with eofPending := eofPending } where
  role := hinv.role
  balanced hnull :=
    have hheld := hinv.balanced hnull
    ⟨hheld.fds, hheld.streams, hheld.buffers, hheld.unreaped, hheld.unjoined⟩
  fresh := hinv.fresh
  logged := hinv.logged
  stream := hinv.stream

/-- The step keeps the invariant or ends the balance. -/
structure Decides (kept : Prop) (h' : Library) : Prop where
  keeps : kept → LibraryOk h'
  misses : ¬ kept → ¬ Balanced h'

theorem balance_exit {env : ExitEnv} {me : Nat} (hfault : h.fault = false) (hinv : LibraryInv h)
    (hstep : h.step (.exit env me) = some h') : Decides (LibraryKept h (.exit env me)) h' := by
  simp only [Library.step, hfault, Bool.false_eq_true, if_false] at hstep
  cases hsession : h.process.su_session with
  | none =>
      have hexit : su_srv_exit_shell_session env me h.process =
          [.returned SU_SRV_NO_SESSION_ERR h.process] := by
        unfold su_srv_exit_shell_session
        rw [Proc.get_bind, hsession]
        rfl
      rw [hexit] at hstep
      cases hstep
      exact ⟨fun _ _ => hinv.settle, fun hnot => absurd (fun _ h => by simp [hsession] at h) hnot⟩
  | some session =>
      obtain ⟨o, hexit, hleaves⟩ := exit_leaves env me hsession
      rw [hexit] at hstep
      have hbound : h.process.su_session ≠ none := by simp [hsession]
      obtain ⟨hkeeps, hmisses⟩ := after_leaves hfault hinv hbound hleaves hstep
      refine ⟨fun hkept => hkeeps (hkept session hsession), fun hnot => hmisses ?_⟩
      simpa [LibraryKept, hsession] using hnot

theorem balance_die {waitpid : Nat → WaitResult} (hfault : h.fault = false) (hinv : LibraryInv h)
    (hstep : h.step (.die waitpid) = some h') : Decides (LibraryKept h (.die waitpid)) h' := by
  simp only [Library.step] at hstep
  split at hstep
  · cases hstep
  · cases hsession : h.process.su_session with
    | none =>
        have heof : handlerEof waitpid h.process = [.ended .nullDereference h.process] := by
          unfold handlerEof
          rw [Proc.get_bind, hsession]
          rfl
        rw [heof] at hstep
        cases hstep
        refine ⟨fun _ hfault' => ?_, fun hnot => absurd (fun _ h => by simp [hsession] at h) hnot⟩
        cases hfault'
    | some session =>
        obtain ⟨o, heof, hleaves⟩ := handlerEof_leaves waitpid hsession
        rw [heof] at hstep
        have hbound : h.process.su_session ≠ none := by simp [hsession]
        obtain ⟨hkeeps, hmisses⟩ :=
          after_leaves (h := { h with eofPending := false }) hfault (hinv.handler false) hbound
            hleaves hstep
        refine ⟨fun hkept => hkeeps (hkept session hsession), fun hnot => hmisses ?_⟩
        simpa [LibraryKept, hsession] using hnot

/-! ### Open -/

/-- The log of a failed open without a buffer. -/
theorem openFailed_inv {env : OpenEnv} {log : LogEnv} {u : Process} (hinv : LibraryInv h)
    (hnull : h.process.su_session = none) (hpfs : env.pfs_init = true)
    (hmalloc : log.malloc = false) (hsame : SameHost h.process u)
    (hfds : u.fds = h.process.fds) :
    LibraryInv { h.openLog env log with process := u } := by
  have hlog : (h.openLog env log).log = { h.log with su_srv_log_path := false } := by
    simp [Library.openLog, hnull, hpfs, su_srv_log_init, hmalloc]
  have hrest : (h.openLog env log).unreaped = h.unreaped ∧
      (h.openLog env log).unjoined = h.unjoined := by
    unfold Library.openLog
    split <;> exact ⟨rfl, rfl⟩
  have hheld := hinv.balanced hnull
  have hfresh := hinv.fresh hnull
  constructor
  case role => exact hsame.role.trans hinv.role
  case balanced =>
    intro _
    constructor
    case fds => exact hfds.trans hheld.fds
    case streams => simpa [hlog] using hheld.streams
    case buffers => simpa [hlog] using hheld.buffers
    case unreaped => exact hrest.1.trans hheld.unreaped
    case unjoined => exact hrest.2.trans hheld.unjoined
  case fresh => exact fun _ => ⟨hsame.shell.trans hfresh.1, hsame.handler.trans hfresh.2⟩
  case logged => exact fun hbound => absurd (hsame.su_session.trans hnull) hbound
  case stream => simpa [hlog] using hinv.stream

/-- The log of a failed open with a buffer, or a descriptor that it leaves. -/
theorem openFailed_not_balanced {env : OpenEnv} {log : LogEnv} {pfs_root : Bytes} {u : Process}
    (hfault : h.fault = false) (hinv : LibraryInv h) (hnull : h.process.su_session = none)
    (hpfs : env.pfs_init = true) (hnull' : u.su_session = none)
    (hfds : u.fds = h.process.fds ↔ ¬ LeavesDescriptor env pfs_root h.owner_pid h.process)
    (hlost : log.malloc = true ∨ LeavesDescriptor env pfs_root h.owner_pid h.process) :
    ¬ Balanced ({ h.openLog env log with process := u } : Library).settle := by
  have hlog : (h.openLog env log).log = (su_srv_log_init log h.log).2 := by
    simp [Library.openLog, hnull, hpfs]
  have hfault' : (h.openLog env log).fault = false := by
    unfold Library.openLog
    split <;> exact hfault
  rcases hlost with hmalloc | hleaves
  · apply not_balanced_of_buffers (by simpa using hfault') (by simpa using hnull')
    rw [settle_log, hlog]
    unfold su_srv_log_init
    rw [if_pos hmalloc]
    split <;> simp
  · intro hbalanced
    have hheld := hbalanced (by simpa using hfault') (by simpa using hnull')
    have hzero : u.fds = 0 := by simpa using hheld.fds
    have hzero' : h.process.fds = 0 := (hinv.balanced hnull).fds
    exact hfds.mp (hzero.trans hzero'.symm) hleaves

/-- A call that opens a session has its log, or the handler thread ends the process. -/
theorem opened_ok {env : OpenEnv} {log : LogEnv} {u : Process} (hinv : LibraryInv h)
    (hnull : h.process.su_session = none) (hpfs : env.pfs_init = true) (hrole : u.role = .caller)
    (hbound : u.su_session.isSome = true) :
    LibraryOk ({ h.openLog env log with process := u }.startHandler false) := by
  have hlog : (h.openLog env log).log = (su_srv_log_init log h.log).2 := by
    simp [Library.openLog, hnull, hpfs]
  have hstart : ({ h.openLog env log with process := u } : Library).startHandler false =
      { h.openLog env log with
        process := u
        eofPending := true
        fault := (h.openLog env log).fault || !(h.openLog env log).log.su_srv_log_fptr } := by
    unfold Library.startHandler
    rw [if_pos (by simpa using hbound)]
  rw [hstart]
  intro hfault
  have hfptr : (h.openLog env log).log.su_srv_log_fptr = true := by
    simp only [Bool.or_eq_false_iff, Bool.not_eq_false'] at hfault
    exact hfault.2
  have hne : u.su_session ≠ none := Option.isSome_iff_ne_none.mp hbound
  have hheld := hinv.balanced hnull
  rw [hlog] at hfptr
  have hopened : 0 < (su_srv_log_init log h.log).2.streams ∧
      0 < (su_srv_log_init log h.log).2.buffers := by
    unfold su_srv_log_init at hfptr ⊢
    cases hmalloc : log.malloc with
    | false =>
        -- the stream would be one of an earlier session
        have hstream := hinv.stream (by simpa [hmalloc] using hfptr)
        rw [hheld.streams] at hstream
        exact absurd hstream (Nat.lt_irrefl 0)
    | true =>
        by_cases hfopen : log.fopen = 0
        · simp [hfopen]
        · simp [hmalloc, hfopen] at hfptr
  constructor
  case role => exact hrole
  case balanced => exact fun h => absurd h hne
  case fresh => exact fun h => absurd h hne
  case logged =>
    intro _
    show 0 < (h.openLog env log).log.buffers
    rw [hlog]
    exact hopened.2
  case stream =>
    intro _
    show 0 < (h.openLog env log).log.streams
    rw [hlog]
    exact hopened.1

theorem startHandler_of_null (bound : Bool) (hnull : h.process.su_session = none) :
    h.startHandler bound = h := by
  unfold Library.startHandler
  rw [if_neg (by simp [hnull])]

theorem startHandler_of_fault (bound : Bool) (hfault : h.fault = true) :
    (h.startHandler bound).fault = true := by
  unfold Library.startHandler
  split
  · rw [hfault, Bool.true_or]
  · exact hfault

/-- An open behind `su_srv_pfs_init`, from its outcome in the caller. -/
theorem OpenResult.decides {env : OpenEnv} {log : LogEnv} {pfs_root : Bytes}
    {o : Outcome End Process Int} {h₁ : Library}
    (hresult : OpenResult env pfs_root h.owner_pid h.process o) (hfault : h.fault = false)
    (hinv : LibraryInv h) (hnull : h.process.su_session = none) (hpfs : env.pfs_init = true)
    (hafter : (h.openLog env log).after (some o) = some h₁) :
    Decides (LibraryKept h (.open env log pfs_root)) (h₁.startHandler false) := by
  cases hresult with
  | ended e u hfails =>
      cases hafter
      refine ⟨fun _ hfault' => ?_, fun hnot => absurd (fun _ _ h => absurd h hfails) hnot⟩
      rw [startHandler_of_fault _ rfl] at hfault'
      cases hfault'
  | opened u hrole hbound hfails =>
      cases hafter
      have hne : u.su_session ≠ none := Option.isSome_iff_ne_none.mp hbound
      rw [settle_of_bound (h := { h.openLog env log with process := u }) hne]
      refine ⟨fun _ => opened_ok hinv hnull hpfs hrole hbound, fun hnot => ?_⟩
      exact absurd (fun _ _ h => absurd h hfails) hnot
  | failed u hsame hfails hfds =>
      cases hafter
      have hnull' : u.su_session = none := hsame.su_session.trans hnull
      rw [startHandler_of_null _ (by simpa using hnull')]
      constructor
      · intro hkept _
        obtain ⟨hmalloc, hleaves⟩ := hkept hnull hpfs hfails
        exact (openFailed_inv hinv hnull hpfs hmalloc hsame (hfds.mpr hleaves)).settle
      · intro hnot
        have hlost : log.malloc = true ∨
            LeavesDescriptor env pfs_root h.owner_pid h.process := by
          by_contra hboth
          rw [not_or, Bool.not_eq_true] at hboth
          exact hnot fun _ _ _ => hboth
        exact openFailed_not_balanced hfault hinv hnull hpfs hnull' hfds hlost

theorem balance_open {env : OpenEnv} {log : LogEnv} {pfs_root : Bytes} (hfault : h.fault = false)
    (hinv : LibraryInv h) (hstep : h.step (.open env log pfs_root) = some h') :
    Decides (LibraryKept h (.open env log pfs_root)) h' := by
  simp only [Library.step, hfault, Bool.false_eq_true, if_false] at hstep
  obtain ⟨h₁, hafter, rfl⟩ := Option.map_eq_some_iff.mp hstep
  cases hsession : h.process.su_session with
  | some session =>
      have hbound : h.process.su_session ≠ none := by simp [hsession]
      have hlog : h.openLog env log = h := by simp [Library.openLog, hsession]
      rw [open_of_bound hbound,
        callerOutcome_cons (o := .returned SU_SRV_SESSION_EXISTS_ERR h.process) hinv.role,
        hlog] at hafter
      cases hafter
      refine ⟨fun _ _ => hinv.settle, fun hnot => absurd (fun hnull => ?_) hnot⟩
      exact absurd hnull hbound
  | none =>
      cases hpfs : env.pfs_init with
      | false =>
          have hlog : h.openLog env log = h := by simp [Library.openLog, hpfs]
          rw [open_of_not_started hsession (by simp [hpfs]),
            callerOutcome_cons (o := .returned SU_SRV_SYSTEM_ERR h.process) hinv.role,
            hlog] at hafter
          cases hafter
          have hkeep : h.settle.startHandler (none : Option SuShellSession).isSome = h.settle :=
            startHandler_of_null _ (by simpa using hsession)
          refine ⟨fun _ _ => ?_, fun hnot => absurd (fun _ htrue => ?_) hnot⟩
          · rw [hkeep]
            exact hinv.settle
          · rw [hpfs] at htrue
            cases htrue
      | true =>
          obtain ⟨o, ho, hresult⟩ := open_result pfs_root h.owner_pid hsession hinv.role hpfs
          rw [ho] at hafter
          exact hresult.decides hfault hinv hsession hpfs hafter

/-! ### Runs -/

theorem balance_step {a : LibraryAction} (hok : LibraryOk h) (hstep : h.step a = some h') :
    Decides (LibraryKept h a) h' := by
  have hfault : h.fault = false := by
    by_contra hne
    rw [Bool.not_eq_false] at hne
    cases a <;> simp [Library.step, hne] at hstep
  cases a with
  | «open» env log pfs_root => exact balance_open hfault (hok hfault) hstep
  | exit env me => exact balance_exit hfault (hok hfault) hstep
  | die waitpid => exact balance_die hfault (hok hfault) hstep

theorem libraryOk_init (owner_pid : Nat) (paths : List Bytes) :
    LibraryOk (Library.init owner_pid paths) := by
  intro _
  constructor
  case role => rfl
  case balanced => exact fun _ => ⟨rfl, rfl, rfl, rfl, rfl⟩
  case fresh => exact fun _ => ⟨rfl, rfl⟩
  case logged => exact fun hbound => absurd rfl hbound
  case stream => exact fun hfptr => absurd hfptr Bool.false_ne_true

/-- In all states of a run without a session nothing is held exactly when the run keeps
every session and every log buffer. -/
theorem balanced_iff (owner_pid : Nat) (paths : List Bytes) (as : List LibraryAction) :
    Along Library.step Balanced (Library.init owner_pid paths) as ↔
      Guarded Library.step LibraryKept (Library.init owner_pid paths) as := by
  apply along_iff_guarded (I := LibraryOk)
  · exact fun h hok => hok.balanced
  · exact fun h a h' hok hkept hstep => (balance_step hok hstep).keeps hkept
  · exact fun h a h' hok hmissed hstep => (balance_step hok hstep).misses hmissed
  · exact libraryOk_init owner_pid paths

/-- A session that is opened and exited without any failure: its log is still open. -/
theorem not_balanced_log_open :
    ¬ ∀ (owner_pid : Nat) (paths : List Bytes) (as : List LibraryAction),
      Along Library.step Balanced (Library.init owner_pid paths) as := by
  intro h
  let as : List LibraryAction :=
    [.open faultless ⟨true, 0⟩ (ascii "/data/susrv"), .exit ⟨0, 0, 0, fun _ => .pid, 0⟩ 1]
  have hrun : (run Library.step (Library.init 4711 []) as).map
      (fun h => (h.fault, h.process.su_session, h.log.streams, h.log.buffers)) =
        some (false, none, 1, 1) := by
    decide +kernel
  obtain ⟨h', hrun', hlast⟩ := Option.map_eq_some_iff.mp hrun
  simp only [Prod.mk.injEq] at hlast
  obtain ⟨hfault, hnull, hstreams, -⟩ := hlast
  have hheld := (h 4711 [] as).last hrun' hfault hnull
  have hclosed : h'.log.streams = 0 := hheld.streams
  omega

/-- A shell that dies: the handler thread that removes the session is never joined. -/
example : (run Library.step (Library.init 4711 [])
    [.open faultless ⟨true, 0⟩ (ascii "/data/susrv"), .die fun _ => .pid]).map
      (fun h => (h.fault, h.process.su_session, h.unreaped, h.unjoined)) =
        some (false, none, 0, 1) := by
  decide +kernel

end Runs

end Susrv.Native
