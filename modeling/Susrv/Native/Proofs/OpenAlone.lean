import Susrv.Base.Simulation
import Susrv.Native.Library
import Susrv.Native.Openers
import Susrv.Native.Proofs.OpenOutcome

/-!
# An undisturbed call of open

`Openers.lean` cuts `su_srv_open_shell_session` at each access to what the calls share.
`open_alone` puts the pieces together: a call that no other thread disturbs ends as the
function of `Lifecycle.lean` does, for every combination of results it can get.
-/

namespace Susrv.Native

open Base Base.CString Base.Transition

variable {κ φ : Type}

/-! ## The two views of one process -/

/-- What the calls share, as the process of call `c` has it. -/
structure Agrees (o : OpenCalls κ φ) (c : κ) (s : Openers κ φ) (w : Process) : Prop where
  role : w.role = .caller
  bound : s.su_session.isSome = w.su_session.isSome
  files : s.files = w.paths.map o.resolve
  handler : s.handler c = true ↔ w.handler = .running

/-- The call stands before `pc`. -/
structure Before (o : OpenCalls κ φ) (c : κ) (pc : OpenCallPc) (s : Openers κ φ) (w : Process) :
    Prop extends Agrees o c s w where
  calls : s.calls c = pc
  fault : s.fault = false

/-- The call has ended, and in the same way. -/
def Ends (o : OpenCalls κ φ) (c : κ) (s : Openers κ φ) : Option (Outcome End Process Int) → Prop
  | some (.returned last_err w) => Before o c (.returned last_err) s w
  | some (.ended _ _) => s.fault = true
  | none => False

section Alone

variable [DecidableEq κ] [DecidableEq φ]

/-- With steps of the call alone it ends like `outcome`. -/
def Alone (o : OpenCalls κ φ) (c : κ) (s : Openers κ φ)
    (outcome : Option (Outcome End Process Int)) : Prop :=
  ∃ n s', run (Openers.step o) s (List.replicate n (.open c)) = some s' ∧ Ends o c s' outcome

variable {o : OpenCalls κ φ} {c : κ} {s s' : Openers κ φ} {w : Process} {pc : OpenCallPc}
  {session : SuShellSession} {outcome : Option (Outcome End Process Int)}
  {rest : List (Outcome End Process Int)}

theorem Before.step (h : Before o c pc s w) :
    Openers.step o s (.open c) = openCallStep o s c pc := by
  rw [Openers.step, h.fault, h.calls]
  rfl

theorem Alone.of_step (hstep : Openers.step o s (.open c) = some s') (h : Alone o c s' outcome) :
    Alone o c s outcome := by
  obtain ⟨n, s'', hrun, hends⟩ := h
  refine ⟨n + 1, s'', ?_, hends⟩
  rw [List.replicate_succ, run, hstep]
  exact hrun

theorem Alone.of_crash {e : End} (h : Before o c pc s w)
    (hstep : openCallStep o s c pc = some s.crash) :
    Alone o c s (callerOutcome (.ended e w :: rest)) := by
  refine .of_step (h.step.trans hstep) ⟨0, s.crash, rfl, ?_⟩
  rw [callerOutcome_cons (o := .ended e w) h.role]
  rfl

theorem Alone.of_returned {last_err : Int} (h : Before o c (.returned last_err) s w) :
    Alone o c s (callerOutcome (.returned last_err w :: rest)) := by
  refine ⟨0, s, rfl, ?_⟩
  rw [callerOutcome_cons (o := .returned last_err w) h.role]
  exact h

omit [DecidableEq φ] in
theorem Before.goto {s₁ : Openers κ φ} {w₁ : Process} (h : Agrees o c s₁ w₁)
    (hfault : s₁.fault = false) : Before o c pc (s₁.goto c pc) w₁ where
  role := h.role
  bound := h.bound
  files := h.files
  handler := h.handler
  calls := by simp [Openers.goto]
  fault := hfault

omit [DecidableEq κ] [DecidableEq φ] in
/-- What the calls do not share may change. -/
theorem Before.same {w₁ : Process} (h : Before o c pc s w) (hrole : w₁.role = w.role)
    (hbound : w₁.su_session = w.su_session) (hpaths : w₁.paths = w.paths)
    (hhandler : w₁.handler = w.handler) : Before o c pc s w₁ where
  role := hrole.trans h.role
  bound := by rw [hbound, h.bound]
  files := by rw [hpaths, h.files]
  handler := by rw [hhandler, h.handler]
  calls := h.calls
  fault := h.fault

/-! ## The parts of the call -/

section Parts

theorem alone_delete (hinj : Function.Injective o.resolve)
    (h : Before o c (.delete session SU_SRV_SYSTEM_ERR) s w) :
    Alone o c s (callerOutcome [deleteOutcome session w]) := by
  rw [deleteOutcome]
  split
  · rename_i hsync
    have hstep : Openers.step o s (.open c) = some ({ s with
        files := if 0 < session.afun_client_fd then s.files.erase (o.resolve session.sun_path)
          else s.files }.goto c (.returned SU_SRV_SYSTEM_ERR)) := by
      rw [h.step, openCallStep, hsync.1, hsync.2]
      rfl
    refine .of_step hstep (.of_returned (.goto ?_ h.fault))
    have hsame := cleanUp_sameHost session w
    refine ⟨hsame.role.trans h.role, ?_, ?_, ?_⟩
    · rw [hsame.su_session, ← h.bound]
    · rw [cleanUp]
      split
      · rw [List.map_erase hinj, ← h.files]
      · exact h.files
    · rw [hsame.handler]
      exact h.handler
  · rename_i hsync
    refine .of_crash h ?_
    rw [openCallStep, if_neg (by simpa using hsync)]

theorem alone_createThread {peer : Nat} (hnull : w.su_session = none)
    (h : Before o c (.createThread session) s w) :
    Alone o c s (callerOutcome (openedOutcome (o.env c) session peer w :: rest)) := by
  have hfree : s.su_session.isSome = false := by rw [h.bound, hnull]; rfl
  rw [openedOutcome]
  cases hpth : session.handler_pth with
  | false =>
      rw [if_neg (by simp)]
      exact .of_crash h (by rw [openCallStep, hpth]; rfl)
  | true =>
      by_cases hcreate : (o.env c).pthread_create w.role = 0
      · rw [if_pos ⟨rfl, hcreate⟩]
        rw [h.role] at hcreate
        have hthread : Before o c (.publish session)
            ({ s with handler := Function.update s.handler c true }.goto c (.publish session))
            { w with handler := .running } := by
          refine .goto ⟨h.role, h.bound, h.files, ?_⟩ h.fault
          simp
        refine .of_step (h.step.trans ?_) (.of_step hthread.step (.of_returned (.goto ?_ h.fault)))
        · simp [openCallStep, hpth, hcreate]
        · exact ⟨h.role, rfl, hthread.files, hthread.handler⟩
      · rw [if_neg fun hboth => hcreate hboth.2]
        rw [h.role] at hcreate
        have hstop : Before o c (.stopShell session ((o.env c).pthread_create .caller))
            (s.goto c (.stopShell session ((o.env c).pthread_create .caller))) w :=
          .goto h.toAgrees h.fault
        refine .of_step (h.step.trans ?_) (.of_crash hstop ?_)
        · simp [openCallStep, hpth, hcreate]
        · rw [openCallStep, if_neg]
          rw [Bool.not_eq_true]
          exact hfree

theorem found_iff {env : OpenEnv} :
    Found env ↔ (SU_SHELL_BINARY_CANDIDATES.any (·.any env.stat)) = true := by
  rw [List.any_eq_true]
  constructor
  · rintro ⟨su_binary, hmem, hstat⟩
    exact ⟨some su_binary, hmem, hstat⟩
  · rintro ⟨candidate, hmem, hstat⟩
    cases candidate with
    | none => cases hstat
    | some su_binary => exact ⟨su_binary, hmem, hstat⟩

theorem alone_startShell (hinj : Function.Injective o.resolve) {peer : Nat}
    (hnull : w.su_session = none) (h : Before o c (.startShell session) s w) :
    Alone o c s (callerOutcome
      ((startShell (o.env c) session peer w).flatMap (Outcome.andThen (publish session)))) := by
  by_cases hfound : Found (o.env c)
  · have hany := found_iff.mp hfound
    cases hfork : (o.env c).fork with
    | false =>
        rw [startShell_of_not_forked hfound hfork, List.flatMap_singleton, Outcome.andThen_returned,
          publish_error]
        have hdelete : Before o c (.delete session SU_SRV_SYSTEM_ERR)
            (s.goto c (.delete session SU_SRV_SYSTEM_ERR)) (closed peer w) :=
          (Before.goto h.toAgrees h.fault).same rfl rfl rfl rfl
        refine .of_step (h.step.trans ?_) (alone_delete hinj hdelete)
        rw [openCallStep, if_pos hany, hfork]
        rfl
    | true =>
        rw [startShell_of_forked hfound hfork hnull, List.flatMap_cons, handlerOutcome_andThen]
        have hthread : Before o c (.createThread session) (s.goto c (.createThread session))
            { w with shell := .unreaped } :=
          (Before.goto h.toAgrees h.fault).same rfl rfl rfl rfl
        refine .of_step (h.step.trans ?_) (alone_createThread hnull hthread)
        rw [openCallStep, if_pos hany, hfork]
        rfl
  · rw [startShell_of_not_found hfound]
    refine .of_crash h ?_
    rw [openCallStep, if_neg fun hany => hfound (found_iff.mpr hany)]

/-- What follows the rendez-vous. -/
def finishOpen (env : OpenEnv) (rdv : Int × SuShellSession) : InProcess Int := do
  let last_err ← if 0 < rdv.1 then startShell env rdv.2 rdv.1 else pure SU_SRV_SYSTEM_ERR
  publish rdv.2 last_err

theorem alone_finish (hinj : Function.Injective o.resolve) {rdv : Int × SuShellSession}
    (hnull : w.su_session = none) (h : Before o c (afterRdv rdv) s w) :
    Alone o c s (callerOutcome (finishOpen (o.env c) rdv w)) := by
  obtain ⟨peer, session⟩ := rdv
  rw [finishOpen]
  by_cases hpeer : 0 < peer
  · obtain ⟨n, rfl⟩ : ∃ n : Nat, peer = n := ⟨peer.toNat, by omega⟩
    rw [afterRdv, if_pos hpeer] at h
    simp only [if_pos hpeer]
    exact alone_startShell hinj hnull h
  · rw [afterRdv, if_neg hpeer] at h
    simp only [if_neg hpeer, pure_bind]
    rw [publish_error]
    exact alone_delete hinj h

/-- The rendez-vous gives what the pieces around `bind` give, in either model. -/
theorem rendezvous_eq (env : OpenEnv) (fd : Int) (session : SuShellSession) (w : Process) :
    ∃ fds, rendezvous env fd session w =
      if 0 ≤ fd ∧ env.bind = true ∧ session.sun_path ∉ w.paths then
        [.returned (afterBind env session)
          { w with fds := fds, paths := session.sun_path :: w.paths }]
      else [.returned (-1, session) w] := by
  unfold rendezvous afterBind
  rw [bindRdv_bind]
  split
  · cases env.listen with
    | false => exact ⟨w.fds, rfl⟩
    | true =>
        by_cases hclient : 0 < descriptor env.client_socket
        · cases hconnect : env.connect
          · exact ⟨_, by simp [openFd_bind, hclient]; rfl⟩
          · exact ⟨_, by simp [openFd_bind, hclient, -bind_pure_comp]; rfl⟩
        · exact ⟨_, by simp [openFd_bind, hclient]; rfl⟩
  · exact ⟨w.fds, rfl⟩

theorem alone_bind (hinj : Function.Injective o.resolve) {fd : Int} (hnull : w.su_session = none)
    (h : Before o c (.bind session fd) s w) :
    Alone o c s (callerOutcome
      ((rendezvous (o.env c) fd session >>= fun rdv => close fd >>= fun _ =>
        finishOpen (o.env c) rdv) w)) := by
  have hpath : o.resolve session.sun_path ∉ s.files ↔ session.sun_path ∉ w.paths := by
    rw [h.files, List.mem_map_of_injective hinj]
  obtain ⟨fds, hrdv⟩ := rendezvous_eq (o.env c) fd session w
  by_cases hbound : 0 ≤ fd ∧ (o.env c).bind = true ∧ session.sun_path ∉ w.paths
  · rw [if_pos hbound] at hrdv
    rw [Proc.bind_of_returned hrdv, close_bind]
    have hgoto : Before o c (afterRdv (afterBind (o.env c) session))
        ({ s with files := o.resolve session.sun_path :: s.files }.goto c
          (afterRdv (afterBind (o.env c) session)))
        { w with paths := session.sun_path :: w.paths } :=
      .goto ⟨h.role, h.bound, by rw [h.files]; rfl, h.handler⟩ h.fault
    refine .of_step (h.step.trans ?_) (alone_finish hinj hnull (hgoto.same rfl rfl rfl rfl))
    rw [openCallStep, if_pos ⟨hbound.1, hbound.2.1, hpath.mpr hbound.2.2⟩]
  · rw [if_neg hbound] at hrdv
    rw [Proc.bind_of_returned hrdv, close_bind]
    have hgoto : Before o c (afterRdv (-1, session))
        (s.goto c (.delete session SU_SRV_SYSTEM_ERR)) w := Before.goto h.toAgrees h.fault
    refine .of_step (h.step.trans ?_) (alone_finish hinj hnull (hgoto.same rfl rfl rfl rfl))
    rw [openCallStep, if_neg]
    rintro ⟨hfd, hbind, hfree⟩
    exact hbound ⟨hfd, hbind, hpath.mp hfree⟩

/-- Open, once it has a session to set up. -/
theorem open_eq {env : OpenEnv} {pfs_root : Bytes} {owner_pid : Nat}
    (hnull : w.su_session = none) (hpfs : env.pfs_init = true)
    (hnew : su_shell_session_new env pfs_root owner_pid = some session) :
    su_srv_open_shell_session env pfs_root owner_pid w =
      (su_shell_session_af_un_rdv env session >>= finishOpen env) { w with allocated := true } := by
  unfold su_srv_open_shell_session
  rw [Proc.get_bind, if_neg (by simp [hnull]), if_neg (by simp [hpfs])]
  simp only [hnew, Proc.modify_bind]
  rfl

end Parts

/-! ## The whole call -/

/-- A call of open that no other thread disturbs ends as `su_srv_open_shell_session` does in
its process, whatever results it gets, if no two paths name one file: with the same result, the
same socket files and a session and a handler thread exactly where that has them, or by a fault
where that has one. -/
theorem open_alone (hinj : Function.Injective o.resolve) (h : Before o c .test s w) :
    Alone o c s (callerOutcome
      (su_srv_open_shell_session (o.env c) (o.pfs_root c) o.owner_pid w)) := by
  by_cases hbound : w.su_session = none
  · have hfree : s.su_session.isSome = false := by rw [h.bound, hbound]; rfl
    have hstep : Openers.step o s (.open c) =
        some (s.goto c (beforeBind (o.env c) (o.pfs_root c) o.owner_pid)) := by
      rw [h.step, openCallStep, hfree]
      rfl
    refine .of_step hstep ?_
    rcases started_or_not (o.env c) (o.pfs_root c) o.owner_pid with hno | ⟨hpfs, session, hnew⟩
    · rw [open_of_not_started hbound hno]
      have hreturned : beforeBind (o.env c) (o.pfs_root c) o.owner_pid =
          .returned SU_SRV_SYSTEM_ERR := by
        rw [beforeBind]
        cases hpfs : (o.env c).pfs_init with
        | false => rfl
        | true => rw [hno hpfs]; rfl
      rw [hreturned]
      exact .of_returned (.goto h.toAgrees h.fault)
    · rw [open_eq hbound hpfs hnew, su_shell_session_af_un_rdv, bind_assoc, openFd_bind]
      rw [beforeBind, hpfs, hnew]
      simp only [Bool.not_true, Bool.false_eq_true, if_false]
      by_cases hfd : descriptor (o.env c).rdv_socket = 0
      · rw [if_neg (not_not.mpr hfd), if_neg (not_not.mpr hfd)]
        have hgoto : Before o c (afterRdv (-1, session))
            (s.goto c (.delete session SU_SRV_SYSTEM_ERR)) w := .goto h.toAgrees h.fault
        rw [pure_bind]
        exact alone_finish hinj hbound (hgoto.same rfl rfl rfl rfl)
      · rw [if_pos hfd, if_pos hfd]
        have hgoto : Before o c (.bind session (descriptor (o.env c).rdv_socket))
            (s.goto c (.bind session (descriptor (o.env c).rdv_socket))) w :=
          .goto h.toAgrees h.fault
        simp only [bind_assoc, pure_bind]
        exact alone_bind hinj hbound (hgoto.same rfl rfl rfl rfl)
  · have htaken : s.su_session.isSome = true := by
      rw [h.bound]
      exact Option.isSome_iff_ne_none.mpr hbound
    rw [open_of_bound hbound]
    refine .of_step (h.step.trans ?_) (.of_returned (.goto h.toAgrees h.fault))
    rw [openCallStep, htaken]
    rfl

end Alone

/-- Nothing is in the way of the only call. -/
def onlyCall : OpenCalls Unit Bytes := ⟨fun _ => ascii "/data", fun _ => faultless, 1234, id⟩

theorem open_alone_onlyCall :
    Alone onlyCall () (Openers.init []) (callerOutcome
      (su_srv_open_shell_session faultless (ascii "/data") 1234 initialProcess)) := by
  refine open_alone Function.injective_id ⟨⟨rfl, rfl, rfl, ?_⟩, rfl, rfl⟩
  decide

end Susrv.Native
