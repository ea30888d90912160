import Susrv.Native.Lifecycle

/-!
# What open and delete do

The outcomes of `su_srv_open_shell_session` and of `su_shell_session_delete`,
process by process, for every combination of results they can get.
-/

namespace Susrv.Native

open Base Base.CString

variable {α : Type} {env : OpenEnv} {session : SuShellSession} {w : Process}

/-! ## One process -/

theorem openFd_bind {fd : Option Nat} {f : Int → InProcess α} :
    (openFd fd >>= f) w = f (descriptor fd) { w with fds := fd.elim w.fds (· ::ₘ w.fds) } :=
  Proc.bind_of_returned (by simp [openFd])

theorem close_bind {fd : Int} {f : Unit → InProcess α} :
    (close fd >>= f) w = f () { w with fds := if 0 ≤ fd then w.fds.erase fd.toNat else w.fds } :=
  Proc.bind_of_returned (by simp [close])

theorem bindRdv_bind {fd : Int} {f : Bool → InProcess α} :
    (bindRdv env fd session >>= f) w =
      if 0 ≤ fd ∧ env.bind = true ∧ session.sun_path ∉ w.paths then
        f true { w with paths := session.sun_path :: w.paths }
      else f false w := by
  split
  · exact Proc.bind_of_returned (by simp [bindRdv, *, -bind_pure_comp])
  · exact Proc.bind_of_returned (by simp [bindRdv, *, -bind_pure_comp])

/-- What `su_shell_session_delete` does when the mutex and the condition exist. -/
def cleanUp (session : SuShellSession) (w : Process) : Process :=
  if 0 < session.afun_client_fd then
    { w with
      fds := w.fds.erase session.afun_client_fd.toNat
      paths := w.paths.erase session.sun_path
      allocated := false }
  else { w with allocated := false }

/-- The call moves nothing but descriptors, paths and memory. -/
structure SameHost (w w' : Process) : Prop where
  role : w'.role = w.role
  su_session : w'.su_session = w.su_session
  shell : w'.shell = w.shell
  handler : w'.handler = w.handler

theorem cleanUp_sameHost (session : SuShellSession) (w : Process) :
    SameHost w (cleanUp session w) := by
  unfold cleanUp
  split <;> exact ⟨rfl, rfl, rfl, rfl⟩

/-- Deleting the session gives back what there was in `w`. -/
def Restores (session : SuShellSession) (w w' : Process) : Prop :=
  (cleanUp session w').fds = w.fds ∧ (cleanUp session w').paths = w.paths

theorem delete_eq : su_shell_session_delete session w =
    if session.shell_sync_mutex && session.shell_sync_ready then
      [.returned () (cleanUp session w)]
    else [.ended .nullDereference w] := by
  unfold su_shell_session_delete destroy_mutexes cleanUp
  split
  · rw [Proc.pure_bind_apply]
    split
    · rename_i hpos
      rw [close_bind]
      simp [hpos.le]
    · simp
  · rw [Proc.stop_bind]

/-! ## The rendez-vous -/

/-- All calls of the rendez-vous succeed, with positive descriptors. -/
def Connects (env : OpenEnv) (sun_path : Bytes) (w : Process) : Prop :=
  0 < descriptor env.rdv_socket ∧ env.bind = true ∧ sun_path ∉ w.paths ∧ env.listen = true ∧
    0 < descriptor env.client_socket ∧ env.connect = true ∧ 0 < descriptor env.accept

/-- The rendez-vous fails where `su_shell_session_delete` undoes it: at the first
socket, at `bind`, or after a client socket was made, without a peer. -/
def Withdraws (env : OpenEnv) (sun_path : Bytes) (w : Process) : Prop :=
  descriptor env.rdv_socket < 0 ∨
    (0 < descriptor env.rdv_socket ∧
      (env.bind = false ∨ sun_path ∈ w.paths ∨
        (env.listen = true ∧ 0 < descriptor env.client_socket ∧
          (env.connect = false ∨ descriptor env.accept < 0))))

@[simp] theorem descriptor_none : descriptor none = -1 := rfl
@[simp] theorem descriptor_some (n : Nat) : descriptor (some n) = n := rfl

theorem cons_ne (a : Nat) (fds : Multiset Nat) : a ::ₘ fds ≠ fds :=
  (Multiset.lt_cons_self fds a).ne'

theorem descriptor_pos {fd : Option Nat} (h : 0 < descriptor fd) : ∃ n, fd = some n ∧ 0 < n := by
  cases fd with
  | none => simp at h
  | some n => exact ⟨n, rfl, by simpa using h⟩

theorem erase_second (a b : Nat) (fds : Multiset Nat) :
    (a ::ₘ b ::ₘ fds).erase b = a ::ₘ fds := by
  rw [Multiset.cons_swap, Multiset.erase_cons_head]

theorem erase_third (a b c : Nat) (fds : Multiset Nat) :
    (a ::ₘ b ::ₘ c ::ₘ fds).erase c = a ::ₘ b ::ₘ fds := by
  rw [Multiset.cons_swap b c, Multiset.cons_swap a c, Multiset.erase_cons_head]

/-- The rendez-vous without its last `close`. -/
theorem rdv_of_rendezvous {r : Nat} (hr : env.rdv_socket = some r) (hpos : 0 < r)
    {x : Int × SuShellSession} {w' : Process}
    (h : rendezvous env r session { w with fds := r ::ₘ w.fds } = [.returned x w']) :
    su_shell_session_af_un_rdv env session w =
      [.returned x { w' with fds := w'.fds.erase r }] := by
  unfold su_shell_session_af_un_rdv
  rw [openFd_bind, hr, descriptor, if_pos (by omega)]
  rw [Option.elim, Proc.bind_of_returned h, close_bind]
  simp

theorem rdv_of_connects (h : Connects env session.sun_path w) :
    ∃ client peer : Nat, 0 < client ∧ 0 < peer ∧
      su_shell_session_af_un_rdv env session w =
        [.returned (peer, { session with afun_client_fd := client })
          { w with fds := peer ::ₘ client ::ₘ w.fds, paths := session.sun_path :: w.paths }] := by
  obtain ⟨hrdv, hbind, hpath, hlisten, hclient, hconnect, hpeer⟩ := h
  obtain ⟨r, hr, hrpos⟩ := descriptor_pos hrdv
  obtain ⟨c, hc, hcpos⟩ := descriptor_pos hclient
  obtain ⟨a, ha, hapos⟩ := descriptor_pos hpeer
  refine ⟨c, a, hcpos, hapos, ?_⟩
  have hinner : rendezvous env r session { w with fds := r ::ₘ w.fds } =
      [.returned ((a : Int), { session with afun_client_fd := c })
        { w with fds := a ::ₘ c ::ₘ r ::ₘ w.fds, paths := session.sun_path :: w.paths }] := by
    unfold rendezvous
    rw [bindRdv_bind, if_pos ⟨by omega, hbind, hpath⟩]
    simp [hlisten, openFd_bind, hc, ha, hcpos, hconnect, -bind_pure_comp]
  rw [rdv_of_rendezvous hr hrpos hinner, erase_third]

/-- The client socket is made, and then no peer is accepted. -/
theorem rendezvous_of_no_peer {r c : Nat} (hpos : 0 < r) (hbind : env.bind = true)
    (hpath : session.sun_path ∉ w.paths) (hlisten : env.listen = true)
    (hc : env.client_socket = some c) (hcpos : 0 < c)
    (h : ¬ (env.connect = true ∧ 0 < descriptor env.accept)) :
    ∃ (peer : Int) (w' : Process), peer ≤ 0 ∧
      rendezvous env r session { w with fds := r ::ₘ w.fds } =
        [.returned (peer, { session with afun_client_fd := c }) w'] ∧
      SameHost w w' ∧
      (Restores { session with afun_client_fd := c } w { w' with fds := w'.fds.erase r } ↔
        env.connect = false ∨ descriptor env.accept < 0) := by
  unfold rendezvous
  rw [bindRdv_bind, if_pos ⟨by omega, hbind, hpath⟩]
  by_cases hconnect : env.connect = true
  · rcases ha : env.accept with _ | a
    · refine ⟨-1, { w with fds := c ::ₘ r ::ₘ w.fds, paths := session.sun_path :: w.paths },
        by omega, ?_, ⟨rfl, rfl, rfl, rfl⟩, ?_⟩
      · simp [hlisten, openFd_bind, hc, hcpos, hconnect, -bind_pure_comp]
      · simp [Restores, cleanUp, hcpos, erase_second]
    · have hzero : a = 0 := by
        by_contra hne
        exact h ⟨hconnect, by rw [ha, descriptor_some]; omega⟩
      subst hzero
      refine ⟨0, { w with fds := 0 ::ₘ c ::ₘ r ::ₘ w.fds, paths := session.sun_path :: w.paths },
        by omega, ?_, ⟨rfl, rfl, rfl, rfl⟩, ?_⟩
      · simp [hlisten, openFd_bind, hc, hcpos, hconnect, -bind_pure_comp]
      · simp [Restores, cleanUp, hcpos, hconnect, erase_third, erase_second, cons_ne]
  · refine ⟨-1, { w with fds := c ::ₘ r ::ₘ w.fds, paths := session.sun_path :: w.paths },
      by omega, ?_, ⟨rfl, rfl, rfl, rfl⟩, ?_⟩
    · simp [hlisten, openFd_bind, hc, hconnect]
    · simp [Restores, cleanUp, hcpos, hconnect, erase_second]

/-- `rdv_of_not_connects` once the first socket is made. -/
theorem rendezvous_of_not_connects (h : ¬ Connects env session.sun_path w)
    (hnew : session.afun_client_fd = 0) {r : Nat} (hr : env.rdv_socket = some r) (hpos : 0 < r) :
    ∃ (peer client : Int) (w' : Process), peer ≤ 0 ∧
      rendezvous env r session { w with fds := r ::ₘ w.fds } =
        [.returned (peer, { session with afun_client_fd := client }) w'] ∧
      SameHost w w' ∧
      (Restores { session with afun_client_fd := client } w { w' with fds := w'.fds.erase r } ↔
        Withdraws env session.sun_path w) := by
  have hsession : { session with afun_client_fd := 0 } = session := by rw [← hnew]
  have hrdv : 0 < descriptor env.rdv_socket := by
    rw [hr, descriptor_some]
    omega
  have hnot : ¬ descriptor env.rdv_socket < 0 := by omega
  by_cases hbind : env.bind = true ∧ session.sun_path ∉ w.paths
  · obtain ⟨hbind, hpath⟩ := hbind
    by_cases hclient : env.listen = true ∧ 0 < descriptor env.client_socket
    · obtain ⟨hlisten, hclient⟩ := hclient
      obtain ⟨c, hc, hcpos⟩ := descriptor_pos hclient
      obtain ⟨peer, w', hpeer, hreturned, hsame, hrestores⟩ :=
        rendezvous_of_no_peer hpos hbind hpath hlisten hc hcpos
          fun hconn => h ⟨hrdv, hbind, hpath, hlisten, hclient, hconn⟩
      refine ⟨peer, c, w', hpeer, hreturned, hsame, hrestores.trans ?_⟩
      simp [Withdraws, hrdv, hnot, hbind, hpath, hlisten, hclient]
    · -- the path is bound and no client socket to delete it with
      have hwithdraws : ¬ Withdraws env session.sun_path w := by
        rintro (hneg | ⟨-, hno | hin | ⟨hlisten, hpos, -⟩⟩)
        · exact hnot hneg
        · rw [hbind] at hno
          cases hno
        · exact hpath hin
        · exact hclient ⟨hlisten, hpos⟩
      have hbound : ∃ (client : Int) (fds : Multiset Nat), client ≤ 0 ∧
          rendezvous env r session { w with fds := r ::ₘ w.fds } =
            [.returned (-1, { session with afun_client_fd := client })
              { w with fds := fds, paths := session.sun_path :: w.paths }] := by
        unfold rendezvous
        rw [bindRdv_bind, if_pos ⟨by omega, hbind, hpath⟩]
        by_cases hlisten : env.listen = true
        · have hle : descriptor env.client_socket ≤ 0 := by
            by_contra hpos
            exact hclient ⟨hlisten, by omega⟩
          refine ⟨descriptor env.client_socket,
            env.client_socket.elim (r ::ₘ w.fds) (· ::ₘ r ::ₘ w.fds), hle, ?_⟩
          simp [hlisten, openFd_bind, not_lt.mpr hle]
        · refine ⟨0, r ::ₘ w.fds, le_rfl, ?_⟩
          simp [hlisten, hsession]
      obtain ⟨client, fds, hle, hreturned⟩ := hbound
      refine ⟨-1, client, _, by omega, hreturned, ⟨rfl, rfl, rfl, rfl⟩, ?_⟩
      simp [Restores, cleanUp, not_lt.mpr hle, hwithdraws]
  · refine ⟨-1, 0, { w with fds := r ::ₘ w.fds }, by omega, ?_, ⟨rfl, rfl, rfl, rfl⟩, ?_⟩
    · unfold rendezvous
      rw [bindRdv_bind, if_neg fun hbound => hbind hbound.2]
      simp [hsession]
    · have hwithdraws : Withdraws env session.sun_path w := by
        refine .inr ⟨hrdv, ?_⟩
        by_cases hb : env.bind = true
        · exact .inr (.inl (by simpa [hb] using hbind))
        · exact .inl (by simpa using hb)
      simp [Restores, cleanUp, hwithdraws]

/-- A rendez-vous that fails: what is left after `su_shell_session_delete` is what
was there before exactly if it withdraws. -/
theorem rdv_of_not_connects (h : ¬ Connects env session.sun_path w)
    (hnew : session.afun_client_fd = 0) :
    ∃ (peer client : Int) (w' : Process), peer ≤ 0 ∧
      su_shell_session_af_un_rdv env session w =
        [.returned (peer, { session with afun_client_fd := client }) w'] ∧
      SameHost w w' ∧
      (Restores { session with afun_client_fd := client } w w' ↔
        Withdraws env session.sun_path w) := by
  have hsession : { session with afun_client_fd := 0 } = session := by rw [← hnew]
  cases hr : env.rdv_socket with
  | none =>
      refine ⟨-1, 0, w, by omega, ?_, ⟨rfl, rfl, rfl, rfl⟩, ?_⟩
      · have hinner : rendezvous env (-1) session w = [.returned (-1, session) w] := by
          unfold rendezvous
          rw [bindRdv_bind, if_neg (by simp)]
          simp
        unfold su_shell_session_af_un_rdv
        rw [openFd_bind, hr, hsession, if_pos (by decide)]
        rw [Option.elim, descriptor, Proc.bind_of_returned hinner, close_bind]
        simp
      · simp [Restores, cleanUp, Withdraws, hr]
  | some r =>
      by_cases hzero : r = 0
      · subst hzero
        refine ⟨-1, 0, { w with fds := 0 ::ₘ w.fds }, by omega, ?_, ⟨rfl, rfl, rfl, rfl⟩, ?_⟩
        · unfold su_shell_session_af_un_rdv
          rw [openFd_bind, hr, hsession]
          simp [descriptor]
        · simp [Restores, cleanUp, Withdraws, hr, cons_ne]
      · have hpos : 0 < r := Nat.pos_of_ne_zero hzero
        obtain ⟨peer, client, w', hpeer, hinner, ⟨h₁, h₂, h₃, h₄⟩, hclean⟩ :=
          rendezvous_of_not_connects h hnew hr hpos
        exact ⟨peer, client, _, hpeer, rdv_of_rendezvous hr hpos hinner, ⟨h₁, h₂, h₃, h₄⟩, hclean⟩

/-! ## The shell and the handler thread -/

/-- One of the candidates exists. -/
def Found (env : OpenEnv) : Prop :=
  ∃ su_binary, some su_binary ∈ SU_SHELL_BINARY_CANDIDATES ∧ env.stat su_binary = true

theorem firstCandidate_eq (stat : Bytes → Bool) (candidates : List (Option Bytes)) :
    firstCandidate stat candidates w =
      match candidates.find? fun candidate => candidate.any stat with
      | some candidate => [.returned candidate w]
      | none => [.ended .outOfBounds w] := by
  induction candidates with
  | nil => rfl
  | cons candidate rest ih =>
      rw [firstCandidate, List.find?_cons]
      cases hstat : candidate.any stat with
      | true => rfl
      | false => simpa using ih

theorem find_su_binary_of_found (h : Found env) :
    ∃ su_binary, find_su_binary env w = [.returned (some su_binary) w] := by
  obtain ⟨su_binary, hmem, hstat⟩ := h
  rw [find_su_binary, firstCandidate_eq]
  split
  · rename_i candidate hfind
    cases candidate with
    | none => simpa using List.find?_some hfind
    | some found => exact ⟨found, rfl⟩
  · rename_i hfind
    have hnone := List.find?_eq_none.mp hfind _ hmem
    simp [hstat] at hnone

theorem find_su_binary_of_not_found (h : ¬ Found env) :
    find_su_binary env w = [.ended .outOfBounds w] := by
  rw [find_su_binary, firstCandidate_eq]
  split
  · rename_i candidate hfind
    have hstat := List.find?_some hfind
    cases candidate with
    | none => simp at hstat
    | some found =>
        exact absurd ⟨found, List.mem_of_find?_eq_some hfind, by simpa using hstat⟩ h
  · rfl

theorem startHandler_eq (hnull : w.su_session = none) : startHandler env session w =
    if session.handler_pth = true ∧ env.pthread_create w.role = 0 then
      [.returned 0 { w with handler := .running }]
    else [.ended .nullDereference w] := by
  unfold startHandler create_handler_thread
  cases session.handler_pth with
  | false => simp
  | true =>
      by_cases hpth : env.pthread_create w.role = 0
      · simp [hpth]
      · simp [hpth, shell_stop_process, hnull, -bind_pure_comp]

/-- The process after `close(fd)`. -/
def closed (fd : Nat) (w : Process) : Process := { w with fds := w.fds.erase fd }

theorem startShell_of_not_found {peer : Nat} (h : ¬ Found env) :
    startShell env session peer w = [.ended .outOfBounds w] := by
  unfold startShell shell_start_process
  simp only [bind_assoc]
  exact Proc.bind_of_ended (find_su_binary_of_not_found h)

theorem startShell_of_not_forked {peer : Nat} (h : Found env) (hfork : env.fork = false) :
    startShell env session peer w = [.returned SU_SRV_SYSTEM_ERR (closed peer w)] := by
  obtain ⟨su_binary, hfind⟩ := find_su_binary_of_found (w := w) h
  unfold startShell shell_start_process
  simp only [bind_assoc]
  rw [Proc.bind_of_returned hfind]
  simp [hfork, SU_SRV_SYSTEM_ERR, close_bind, closed, -bind_pure_comp]

/-- What becomes of a process that goes on to create the handler thread. -/
def handlerOutcome (env : OpenEnv) (session : SuShellSession) (peer : Nat) (w : Process) :
    Outcome End Process Int :=
  if session.handler_pth = true ∧ env.pthread_create w.role = 0 then
    .returned 0 (closed peer { w with handler := .running })
  else .ended .nullDereference w

theorem startShell_of_forked {peer : Nat} (h : Found env) (hfork : env.fork = true)
    (hnull : w.su_session = none) :
    startShell env session peer w =
      [handlerOutcome env session peer { w with shell := .unreaped },
        if env.execve then .ended .becameSu (forkedChild w)
        else handlerOutcome env session peer (forkedChild w)] := by
  obtain ⟨su_binary, hfind⟩ := find_su_binary_of_found (w := w) h
  have hthread : ∀ u : Process, u.su_session = none →
      (startHandler env session >>= fun last_err => do close peer; return last_err) u =
        [handlerOutcome env session peer u] := by
    intro u hu
    rw [Proc.bind_apply, startHandler_eq hu, handlerOutcome]
    split <;> simp [close_bind, closed, -bind_pure_comp]
  unfold startShell shell_start_process
  simp only [bind_assoc]
  rw [Proc.bind_of_returned hfind]
  simp only [hfork, Bool.not_true, Bool.false_eq_true, if_false, bind_assoc, Proc.fork_bind,
    if_true, Proc.modify_bind, pure_bind]
  rw [← List.singleton_append]
  congr 1
  · simpa using hthread { w with shell := .unreaped } hnull
  · cases env.execve with
    | true => simp
    | false => simpa using hthread (forkedChild w) hnull

/-! ## The whole call -/

section Open

variable {pfs_root : Bytes} {owner_pid : Nat}

theorem new_eq_some (h : su_shell_session_new env pfs_root owner_pid = some session) :
    pathFits pfs_root = true ∧ session.sun_path = rdvPath pfs_root owner_pid ∧
      session.afun_client_fd = 0 := by
  unfold su_shell_session_new init_af_un_address at h
  split at h
  · obtain ⟨sun_path, hpath, h⟩ := Option.bind_eq_some_iff.mp h
    obtain ⟨pointers, -, h⟩ := Option.bind_eq_some_iff.mp h
    cases h
    split at hpath
    · rename_i hfits
      cases hpath
      simp only [Bool.and_eq_true] at hfits
      exact ⟨hfits.1, rfl, rfl⟩
    · cases hpath
  · cases h

/-- If the call gets a session, then one with `P`. -/
def OnSession (env : OpenEnv) (pfs_root : Bytes) (owner_pid : Nat) (P : SuShellSession → Prop) :
    Prop :=
  env.pfs_init = true → ∀ session, su_shell_session_new env pfs_root owner_pid = some session →
    P session

theorem onSession_iff {P : SuShellSession → Prop} (hpfs : env.pfs_init = true)
    (hnew : su_shell_session_new env pfs_root owner_pid = some session) :
    OnSession env pfs_root owner_pid P ↔ P session := by
  simp [OnSession, hpfs, hnew]

theorem onSession_of_not_started {P : SuShellSession → Prop}
    (h : env.pfs_init = true → su_shell_session_new env pfs_root owner_pid = none) :
    OnSession env pfs_root owner_pid P := by
  intro hpfs session hnew
  rw [h hpfs] at hnew
  cases hnew

theorem started_or_not (env : OpenEnv) (pfs_root : Bytes) (owner_pid : Nat) :
    (env.pfs_init = true → su_shell_session_new env pfs_root owner_pid = none) ∨
      (env.pfs_init = true ∧
        ∃ session, su_shell_session_new env pfs_root owner_pid = some session) := by
  cases su_shell_session_new env pfs_root owner_pid with
  | none => exact .inl fun _ => rfl
  | some session =>
      by_cases hpfs : env.pfs_init = true
      · exact .inr ⟨hpfs, session, rfl⟩
      · exact .inl fun h => absurd h hpfs

theorem open_of_bound (h : w.su_session ≠ none) :
    su_srv_open_shell_session env pfs_root owner_pid w =
      [.returned SU_SRV_SESSION_EXISTS_ERR w] := by
  unfold su_srv_open_shell_session
  rw [Proc.get_bind, if_pos (Option.isSome_iff_ne_none.mpr h), Proc.pure_apply]

theorem open_of_not_started (hnull : w.su_session = none)
    (h : env.pfs_init = true → su_shell_session_new env pfs_root owner_pid = none) :
    su_srv_open_shell_session env pfs_root owner_pid w = [.returned SU_SRV_SYSTEM_ERR w] := by
  unfold su_srv_open_shell_session
  rw [Proc.get_bind]
  cases hpfs : env.pfs_init with
  | false => simp [hnull]
  | true => simp [hnull, h hpfs]

/-- The last step of a failed call. -/
def deleteOutcome (session : SuShellSession) (w : Process) : Outcome End Process Int :=
  if session.shell_sync_mutex = true ∧ session.shell_sync_ready = true then
    .returned SU_SRV_SYSTEM_ERR (cleanUp session w)
  else .ended .nullDereference w

theorem publish_error : publish session SU_SRV_SYSTEM_ERR w = [deleteOutcome session w] := by
  unfold publish deleteOutcome
  rw [if_pos (by decide), Proc.bind_apply, delete_eq]
  simp only [Bool.and_eq_true]
  split <;> simp

/-- Without a rendez-vous the new session is deleted. -/
theorem open_of_rdv_failed (hnull : w.su_session = none) (hpfs : env.pfs_init = true)
    (hnew : su_shell_session_new env pfs_root owner_pid = some session) {peer : Int}
    {opened : SuShellSession} {w' : Process} (hpeer : peer ≤ 0)
    (hrdv : su_shell_session_af_un_rdv env session { w with allocated := true } =
      [.returned (peer, opened) w']) :
    su_srv_open_shell_session env pfs_root owner_pid w = [deleteOutcome opened w'] := by
  unfold su_srv_open_shell_session
  rw [Proc.get_bind, if_neg (by simp [hnull]), if_neg (by simp [hpfs])]
  simp only [hnew, Proc.modify_bind]
  rw [Proc.bind_of_returned hrdv]
  simp only [if_neg (not_lt.mpr hpeer), pure_bind]
  exact publish_error

theorem open_of_not_connected (hnull : w.su_session = none) (hpfs : env.pfs_init = true)
    (hnew : su_shell_session_new env pfs_root owner_pid = some session)
    (h : ¬ Connects env session.sun_path w) :
    ∃ (client : Int) (w' : Process),
      su_srv_open_shell_session env pfs_root owner_pid w =
        [deleteOutcome { session with afun_client_fd := client } w'] ∧
      SameHost w w' ∧
      (Restores { session with afun_client_fd := client } w w' ↔
        Withdraws env session.sun_path w) := by
  obtain ⟨peer, client, w', hpeer, hrdv, ⟨h₁, h₂, h₃, h₄⟩, hclean⟩ :=
    rdv_of_not_connects (w := { w with allocated := true }) h (new_eq_some hnew).2.2
  exact ⟨client, w', open_of_rdv_failed hnull hpfs hnew hpeer hrdv, ⟨h₁, h₂, h₃, h₄⟩, hclean⟩

/-- The process when the rendez-vous is complete. -/
def connected (w : Process) (sun_path : Bytes) (client peer : Nat) : Process :=
  { w with allocated := true, fds := peer ::ₘ client ::ₘ w.fds, paths := sun_path :: w.paths }

/-- A complete rendez-vous leads to the shell, whatever becomes of it. -/
theorem open_of_connected (hnull : w.su_session = none) (hpfs : env.pfs_init = true)
    (hnew : su_shell_session_new env pfs_root owner_pid = some session)
    (h : Connects env session.sun_path w) :
    ∃ client peer : Nat, 0 < client ∧
      su_srv_open_shell_session env pfs_root owner_pid w =
        (startShell env { session with afun_client_fd := client } peer
          (connected w session.sun_path client peer)).flatMap
          (Outcome.andThen (publish { session with afun_client_fd := client })) := by
  obtain ⟨client, peer, hclient, hpeer, hrdv⟩ :=
    rdv_of_connects (w := { w with allocated := true }) h
  refine ⟨client, peer, hclient, ?_⟩
  unfold su_srv_open_shell_session
  rw [Proc.get_bind, if_neg (by simp [hnull]), if_neg (by simp [hpfs])]
  simp only [hnew, Proc.modify_bind]
  rw [Proc.bind_of_returned hrdv]
  simp only [if_pos (by omega : (0 : Int) < peer)]
  rfl

/-- What becomes of a process that creates the handler thread and publishes. -/
def openedOutcome (env : OpenEnv) (session : SuShellSession) (peer : Nat) (w : Process) :
    Outcome End Process Int :=
  if session.handler_pth = true ∧ env.pthread_create w.role = 0 then
    .returned 0 { closed peer { w with handler := .running } with su_session := some session }
  else .ended .nullDereference w

theorem handlerOutcome_andThen (peer : Nat) :
    (handlerOutcome env session peer w).andThen (publish session) =
      [openedOutcome env session peer w] := by
  unfold handlerOutcome openedOutcome
  split
  · simp [publish, -bind_pure_comp]
  · rfl

theorem open_of_forked (hnull : w.su_session = none) (hpfs : env.pfs_init = true)
    (hnew : su_shell_session_new env pfs_root owner_pid = some session)
    (h : Connects env session.sun_path w) (hfound : Found env) (hfork : env.fork = true) :
    ∃ client peer : Nat,
      su_srv_open_shell_session env pfs_root owner_pid w =
        [openedOutcome env { session with afun_client_fd := client } peer
            { connected w session.sun_path client peer with shell := .unreaped },
          if env.execve then
            .ended .becameSu (forkedChild (connected w session.sun_path client peer))
          else openedOutcome env { session with afun_client_fd := client } peer
            (forkedChild (connected w session.sun_path client peer))] := by
  obtain ⟨client, peer, -, hopen⟩ := open_of_connected hnull hpfs hnew h
  refine ⟨client, peer, ?_⟩
  have hnull' : (connected w session.sun_path client peer).su_session = none := hnull
  rw [hopen, startShell_of_forked hfound hfork hnull']
  cases env.execve <;> simp [handlerOutcome_andThen]

theorem open_of_not_forked (hnull : w.su_session = none) (hpfs : env.pfs_init = true)
    (hnew : su_shell_session_new env pfs_root owner_pid = some session)
    (h : Connects env session.sun_path w) (hfound : Found env) (hfork : env.fork = false) :
    ∃ client peer : Nat, 0 < client ∧
      su_srv_open_shell_session env pfs_root owner_pid w =
        [deleteOutcome { session with afun_client_fd := client }
          (closed peer (connected w session.sun_path client peer))] := by
  obtain ⟨client, peer, hclient, hopen⟩ := open_of_connected hnull hpfs hnew h
  refine ⟨client, peer, hclient, ?_⟩
  rw [hopen, startShell_of_not_forked hfound hfork]
  simp [publish_error]

theorem open_of_not_found (hnull : w.su_session = none) (hpfs : env.pfs_init = true)
    (hnew : su_shell_session_new env pfs_root owner_pid = some session)
    (h : Connects env session.sun_path w) (hfound : ¬ Found env) :
    ∃ w' : Process, w'.role = w.role ∧
      su_srv_open_shell_session env pfs_root owner_pid w = [.ended .outOfBounds w'] := by
  obtain ⟨client, peer, -, hopen⟩ := open_of_connected hnull hpfs hnew h
  refine ⟨connected w session.sun_path client peer, rfl, ?_⟩
  rw [hopen, startShell_of_not_found hfound]
  rfl

/-! ## A call with no fault -/

/-- Every call succeeds, every descriptor is positive and a candidate exists. -/
structure NoFault (env : OpenEnv) : Prop where
  pfs_init : env.pfs_init = true
  malloc_session : env.malloc_session = true
  malloc_handler_pth : env.malloc_handler_pth = true
  malloc_path : env.malloc_path = true
  malloc_mutex : env.malloc_mutex = true
  mutex_init : env.mutex_init = true
  malloc_cond : env.malloc_cond = true
  cond_init : env.cond_init = true
  rdv_socket : 0 < descriptor env.rdv_socket
  bind : env.bind = true
  listen : env.listen = true
  client_socket : 0 < descriptor env.client_socket
  connect : env.connect = true
  accept : 0 < descriptor env.accept
  found : Found env
  fork : env.fork = true
  execve : env.execve = true
  pthread_create : ∀ role, env.pthread_create role = 0

theorem NoFault.new_eq (h : NoFault env) (hfits : pathFits pfs_root = true) :
    su_shell_session_new env pfs_root owner_pid =
      some { sun_path := rdvPath pfs_root owner_pid, afun_client_fd := 0, handler_pth := true,
             shell_sync_mutex := true, shell_sync_ready := true, shell_sync_owner := none } := by
  unfold su_shell_session_new init_af_un_address init_mutexes
  rw [h.malloc_session, h.malloc_handler_pth, h.malloc_path, h.malloc_mutex, h.mutex_init,
    h.malloc_cond, h.cond_init, hfits]
  rfl

theorem NoFault.connects (h : NoFault env) {sun_path : Bytes} (hpath : sun_path ∉ w.paths) :
    Connects env sun_path w :=
  ⟨h.rdv_socket, h.bind, hpath, h.listen, h.client_socket, h.connect, h.accept⟩

/-- An environment with no fault, where `/system/xbin/su` exists. -/
def faultless : OpenEnv where
  pfs_init := true
  malloc_session := true
  malloc_handler_pth := true
  malloc_path := true
  malloc_mutex := true
  mutex_init := true
  malloc_cond := true
  cond_init := true
  rdv_socket := some 3
  bind := true
  listen := true
  client_socket := some 4
  connect := true
  accept := some 5
  stat path := path = ascii "/system/xbin/su"
  fork := true
  execve := true
  pthread_create _ := 0
  waitpid _ := .pid

theorem found_faultless : Found faultless :=
  ⟨ascii "/system/xbin/su", by simp [SU_SHELL_BINARY_CANDIDATES], by simp [faultless]⟩

theorem noFault_faultless : NoFault faultless := by
  constructor
  case found => exact found_faultless
  case pthread_create => exact fun _ => rfl
  all_goals decide

/-- The host process before it has used the library. -/
def initialProcess : Process :=
  { role := .caller, su_session := none, allocated := false, fds := 0, paths := [],
    shell := .none, handler := .none }

end Open

end Susrv.Native
