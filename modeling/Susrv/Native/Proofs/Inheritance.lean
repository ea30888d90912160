import Mathlib.Data.Fintype.Basic
import Susrv.Native.Descriptors
import Susrv.Native.Proofs.ExecCalls
import Susrv.Native.Proofs.Frames
import Susrv.Native.Proofs.OpenOutcome

/-!
# What the shell inherits

The owner closes the end of the socket that is not its own; the forked child does
not, so it keeps the client end and the log file across `execve` and passes them
on.  `ownerOnly_iff` says when no such copy is left as open returns, and
`not_exitHeldUp_of_reach` when the descendants of the shell do not hold up exit.
-/

namespace Susrv.Native

open Base Base.CString Base.Transition Base.Sections

variable {τ : Type} [DecidableEq τ] {s s' : State τ}

/-! ## Before the session is published -/

/-- Until open returns no call is past its test, so no command is written or read. -/
structure Idle (s : State τ) : Prop where
  written : s.written = []
  taken : s.shell.taken = 0
  outside : ∀ t, (s.calls t).inside = false

theorem Call.inside_of_todo {c : Call} {chunk : Chunk} {rest : List Chunk}
    (h : c.todo = some (chunk :: rest)) : c.inside = true := by
  unfold Call.todo at h
  split at h <;> simp_all [Call.inside]

/-- A writer with nothing to write leaves the stream as it is. -/
theorem Moves.written_eq {p : Party τ} (h : Moves s p s') (hidle : s.writing p = false) :
    s'.written = s.written := by
  obtain ⟨f, hmove, -⟩ := h.moved
  cases hmove with
  | keep _ hstream => exact hstream
  | acquire _ _ _ hstream => exact hstream
  | write c rest hbefore =>
      rw [State.writing, hbefore] at hidle
      simp at hidle
  | release _ _ hstream => exact hstream

section

omit [DecidableEq τ]

theorem writing_of_outside {t : τ} (h : (s.calls t).inside = false) :
    s.writing (.caller t) = false := by
  rw [State.writing, decide_eq_false_iff_not, not_not]
  cases htodo : (s.calls t).todo with
  | none => simp [State.view, htodo]
  | some rest =>
      cases rest with
      | nil => simp [State.view, htodo]
      | cons c rest =>
          rw [Call.inside_of_todo htodo] at h
          cases h

theorem print_taken (s : State τ) (out : Bytes) :
    (s.print out).shell.taken = s.shell.taken ∧ (s.print out).shell.alive = s.shell.alive := by
  unfold State.print
  split <;> exact ⟨rfl, rfl⟩

/-- The shell reads nothing that was not written, and a dead one stays dead. -/
theorem shellStep_reads {a : ShellAction} (h : shellStep s a = some s') :
    s.shell.alive = true ∧ (s.written = [] → s'.shell.taken = s.shell.taken) ∨ a = .closePeer ∧
      s'.shell.taken = s.shell.taken ∧ s'.shell.alive = s.shell.alive := by
  cases a <;> simp only [shellStep] at h
  case closePeer =>
    split at h <;> cases h
    exact .inr ⟨rfl, rfl, rfl⟩
  case take =>
    split at h
    · cases h
    · rename_i hready
      refine .inl ⟨by simp_all, fun hnil => ?_⟩
      simp [hnil] at h
  case print out =>
    split at h <;> cases h
    rename_i hready
    exact .inl ⟨by simp_all, fun _ => (print_taken s out).1⟩
  case finish status =>
    split at h <;> cases h
    rename_i hready
    exact .inl ⟨by simp_all, fun _ => rfl⟩
  case die =>
    split at h <;> cases h
    exact .inl ⟨‹_›, fun _ => rfl⟩

theorem Idle.print (hs : Idle s) (out : Bytes) : Idle (s.print out) := by
  unfold State.print
  split <;> exact ⟨hs.written, hs.taken, hs.outside⟩

theorem LifeInv.print (hs : LifeInv s) (out : Bytes) :
    LifeInv (s.print out) ∧ (s.print out).opener = s.opener := by
  unfold State.print
  split
  · exact ⟨hs.same rfl rfl rfl rfl rfl, rfl⟩
  · exact ⟨hs, rfl⟩

theorem idle_shell {a : ShellAction} (hs : Idle s) (h : shellStep s a = some s') : Idle s' := by
  have hk := shellStep_keeps h
  refine ⟨hk.written.trans hs.written, ?_, fun t => by rw [hk.calls]; exact hs.outside t⟩
  rcases shellStep_reads h with ⟨-, htaken⟩ | ⟨-, htaken, -⟩
  · exact (htaken hs.written).trans hs.taken
  · exact htaken.trans hs.taken

end

theorem idle_step {a : Action τ} (hlife : LifeInv s) (hopen : s.opener ≠ .done) (hs : Idle s)
    (h : step s a = some s') : Idle s' := by
  obtain ⟨hnull, -, hhandler, hdelete⟩ := hlife.unopened hopen
  obtain ⟨hwritten, htaken, hout⟩ := hs
  cases step_cases h with
  | invoke t e =>
      refine ⟨hwritten, htaken, fun u => ?_⟩
      rw [State.goto_calls]
      split
      · cases e <;> rfl
      · exact hout u
  | caller t ans _ h =>
      have hmove := moves_caller h
      have hwritten' : s'.written = [] :=
        (hmove.written_eq (writing_of_outside (hout t))).trans hwritten
      refine ⟨hwritten', hmove.taken.trans htaken, fun u => ?_⟩
      cases callStep_cases h with
      | crash _ heq =>
          rw [heq]
          exact hout u
      | move c _ _ hcalls _ _ hinside =>
          rw [hcalls, Function.update_apply]
          split
          · exact hinside hnull (hout t)
          · exact hout u
      | setNull _ hbound =>
          rw [hnull] at hbound
          cases hbound
      | delete hpc => exact absurd hpc (hdelete t)
  | handler ans _ h =>
      have hmove := moves_handler h
      have hquiet : s.writing .handler = false := by
        rcases hhandler with hpc | hpc <;> simp [State.writing, State.view, hpc, HandlerPc.todo]
      refine ⟨(hmove.written_eq hquiet).trans hwritten, hmove.taken.trans htaken, ?_⟩
      rw [handlerStep_calls h]
      exact hout
  | spurious t => exact ⟨hwritten, htaken, hout⟩
  | closePeer | publish => exact ⟨hwritten, htaken, hout⟩
  | shell a _ h => exact idle_shell ⟨hwritten, htaken, hout⟩ h

/-- The threads of the owner do not run the shell. -/
theorem owner_keeps_shell {a : Action τ} (ha : ∀ b, a ≠ .shell b) (h : step s a = some s') :
    s'.shell.self = s.shell.self := by
  cases step_cases h with
  | invoke | spurious | closePeer | publish => rfl
  | caller t ans _ h => exact (moves_caller h).shell
  | handler ans _ h => exact (moves_handler h).shell
  | shell b => exact absurd rfl (ha b)

/-! ## The step of the world -/

variable {fds : SessionFds} {w w' : World τ}

/-- What a deed does before the world settles.  A process closes and duplicates only
what it holds. -/
inductive DeedStep (fds : SessionFds) (w : World τ) : Deed τ → World τ → Prop
  | session (a : Action τ) (ha : ∀ b, a ≠ .shell b) (s' : State τ)
      (h : step w.session a = some s') :
      DeedStep fds w (.session a) { w with session := s', owner := w.ownerAfter fds s' }
  | child (w₁ : World τ) (h : w.childStep fds w.child = some w₁) : DeedStep fds w .child w₁
  | shell (a : ShellAction) (hown : a.own = true) (s' : State τ)
      (h : shellStep w.session a = some s') : DeedStep fds w (.shell a) { w with session := s' }
  | fork (p : ProcessId) (t : FdTable OpenFile) (ht : w.table p = some t) :
      DeedStep fds w (.fork p) { w with descendants := w.descendants ++ [t] }
  | setTable (d : Deed τ) (p : ProcessId) (t u : FdTable OpenFile) (ht : w.table p = some t)
      (hcommanded : w.commanded = true) (hu : ∀ f, u.Holds f → t.Holds f) :
      DeedStep fds w d (w.setTable u p)
  | print (i : Nat) (out : Bytes) :
      DeedStep fds w (.print i out) { w with session := w.session.print out }
  | exit (i : Nat) (t : FdTable OpenFile) (ht : w.table (.descendant i) = some t) :
      DeedStep fds w (.exit i) { w with descendants := w.descendants.eraseIdx i }

theorem world_step_cases {d : Deed τ} (h : w.step fds d = some w') :
    ∃ w₁, DeedStep fds w d w₁ ∧ w' = w₁.settle := by
  cases d with
  | session a =>
      have hsession : ∀ {a : Action τ}, (∀ b, a ≠ .shell b) →
          (Native.step w.session a).map (fun s' =>
            ({ w with session := s', owner := w.ownerAfter fds s' } : World τ).settle) = some w' →
          ∃ w₁, DeedStep fds w (.session a) w₁ ∧ w' = w₁.settle := by
        intro a ha h
        obtain ⟨s', hs', rfl⟩ := Option.map_eq_some_iff.mp h
        exact ⟨_, .session a ha s' hs', rfl⟩
      cases a with
      | shell b => cases h
      | _ => exact hsession (by simp) h
  | child =>
      simp only [World.step] at h
      split at h
      · obtain ⟨w₁, hw₁, rfl⟩ := Option.map_eq_some_iff.mp h
        exact ⟨w₁, .child w₁ hw₁, rfl⟩
      · cases h
  | shell a =>
      simp only [World.step] at h
      split at h
      · rename_i hown
        obtain ⟨s', hs', rfl⟩ := Option.map_eq_some_iff.mp h
        exact ⟨_, .shell a (Bool.and_eq_true_iff.mp hown).1 s' hs', rfl⟩
      · cases h
  | fork p =>
      obtain ⟨t, ht, rfl⟩ := Option.map_eq_some_iff.mp h
      exact ⟨_, .fork p t ht, rfl⟩
  | close p n =>
      simp only [World.step] at h
      split at h
      · rename_i hcommanded
        obtain ⟨t, ht, rfl⟩ := Option.map_eq_some_iff.mp h
        exact ⟨_, .setTable _ p t (t.close n) ht hcommanded fun _ => FdTable.holds_of_close, rfl⟩
      · cases h
  | dup2 p old new =>
      simp only [World.step] at h
      split at h
      · rename_i hcommanded
        obtain ⟨t, ht, rfl⟩ := Option.map_eq_some_iff.mp h
        exact ⟨_, .setTable _ p t (t.dup2 old new) ht hcommanded fun _ => FdTable.holds_of_dup2,
          rfl⟩
      · cases h
  | print i out =>
      obtain ⟨t, -, hprint⟩ := Option.bind_eq_some_iff.mp h
      split at hprint <;> cases hprint
      exact ⟨_, .print i out, rfl⟩
  | exit i =>
      obtain ⟨t, ht, rfl⟩ := Option.map_eq_some_iff.mp h
      exact ⟨_, .exit i t ht, rfl⟩

/-! ## Copies of the client end -/

/-- The child that becomes su has both ends of the socket: the table a world begins with. -/
theorem becameSu_fds {env : OpenEnv} {pfs_root : Bytes} {owner_pid : Nat} {p : Process}
    {session : SuShellSession} (hnull : p.su_session = none) (hpfs : env.pfs_init = true)
    (hnew : su_shell_session_new env pfs_root owner_pid = some session)
    (h : Connects env session.sun_path p) (hfound : Found env) (hfork : env.fork = true)
    (hexecve : env.execve = true) :
    ∃ (client peer : Nat) (child : Process),
      .ended .becameSu child ∈ su_srv_open_shell_session env pfs_root owner_pid p ∧
        ∀ fds : SessionFds, fds.client = client → fds.peer = peer →
          child.fds =
            ((fds.table.filter (·.file ≠ .log)).map Fd.number : Multiset Nat) + p.fds := by
  obtain ⟨client, peer, hopen⟩ := open_of_forked hnull hpfs hnew h hfound hfork
  refine ⟨client, peer, forkedChild (connected p session.sun_path client peer), ?_, ?_⟩
  · rw [hopen, hexecve]
    exact List.mem_cons_of_mem _ (List.mem_singleton_self _)
  · rintro fds rfl rfl
    show fds.peer ::ₘ fds.client ::ₘ p.fds = fds.client ::ₘ fds.peer ::ₘ 0 + p.fds
    rw [Multiset.cons_swap, Multiset.cons_add, Multiset.cons_add, Multiset.zero_add]

/-- After open has returned 0, the client end and the log file are open in the owner
only, and the owner has closed the peer end. -/
def OwnerOnly (w : World τ) : Prop :=
  w.session.opener = .done →
    (∀ t ∈ w.tables, ¬ t.Holds .client ∧ ¬ t.Holds .log) ∧ ¬ w.owner.Holds .peer

/-- When open publishes the session, the shell and all it has started have ended. -/
def ShellGone (w : World τ) : Deed τ → Prop
  | .session .opener =>
      w.session.opener = .publish → w.session.shell.alive = false ∧ w.descendants = []
  | _ => True

def SessionFds.clientFd (fds : SessionFds) : Fd OpenFile := ⟨fds.client, .client, false⟩

/-- Every process beside the owner has its copy of the client end until open returns,
and there is none afterwards. -/
structure Copies (fds : SessionFds) (w : World τ) : Prop where
  life : LifeInv w.session
  idle : w.session.opener ≠ .done → Idle w.session
  shell_copy : w.session.opener ≠ .done → w.session.shell.alive = true → fds.clientFd ∈ w.shell
  copies : w.session.opener ≠ .done → ∀ t ∈ w.descendants, fds.clientFd ∈ t
  gone : w.session.opener = .done → w.session.shell.alive = false ∧ w.descendants = []
  peer_number : ∀ d ∈ w.owner, d.file = .peer → d.number = fds.peer
  dropped : w.session.opener ≠ .closePeer → ¬ w.owner.Holds .peer

structure CopiesInv (fds : SessionFds) (w : World τ) : Prop extends Copies fds w where
  dead : w.session.shell.alive = false → w.shell = []

section

omit [DecidableEq τ]

theorem copies_forked (fds : SessionFds) (code : Int) :
    CopiesInv fds (World.forked fds code : World τ) where
  life := lifeInv_opening code
  idle _ := ⟨rfl, rfl, fun _ => rfl⟩
  shell_copy _ _ := by simp [World.forked, SessionFds.table, SessionFds.clientFd]
  copies _ t ht := by simp [World.forked] at ht
  gone h := by cases h
  peer_number d hd hfile := by
    simp only [World.forked, SessionFds.table, List.mem_cons, List.not_mem_nil, or_false] at hd
    rcases hd with rfl | rfl | rfl
    · cases hfile
    · rfl
    · cases hfile
  dropped h := absurd rfl h
  dead h := by cases h

theorem LifeInv.peerOpen (h : LifeInv s) (b : Bool) :
    LifeInv { s with shell := { s.shell with peerOpen := b } } :=
  h.same rfl rfl rfl rfl rfl

theorem Copies.settle (hs : Copies fds w) : CopiesInv fds w.settle where
  life := hs.life.peerOpen _
  idle hopen := ⟨(hs.idle hopen).written, (hs.idle hopen).taken, (hs.idle hopen).outside⟩
  shell_copy hopen halive := by
    have halive' : w.session.shell.alive = true := halive
    simp only [World.settle, if_pos halive']
    exact hs.shell_copy hopen halive
  copies := hs.copies
  gone := hs.gone
  peer_number := hs.peer_number
  dropped := hs.dropped
  dead halive := by
    have halive' : w.session.shell.alive = false := halive
    simp [World.settle, halive']

theorem CopiesInv.ownerOnly (hs : CopiesInv fds w) : OwnerOnly w := by
  intro hdone
  obtain ⟨halive, hnone⟩ := hs.gone hdone
  refine ⟨fun t ht => ?_, hs.dropped (by simp [hdone])⟩
  rw [World.tables, hs.dead halive, hnone, List.mem_singleton] at ht
  subst ht
  exact ⟨FdTable.not_holds_nil _, FdTable.not_holds_nil _⟩

/-- A process beside the owner runs only before open returns, and has the client end. -/
theorem Copies.process (hs : Copies fds w) {p : ProcessId} {t : FdTable OpenFile}
    (h : w.table p = some t) : w.session.opener ≠ .done ∧ fds.clientFd ∈ t := by
  cases p with
  | shell =>
      simp only [World.table] at h
      split at h <;> cases h
      rename_i hrun
      have halive : w.session.shell.alive = true := by simp_all
      have hopen : w.session.opener ≠ .done := by
        intro hdone
        rw [(hs.gone hdone).1] at halive
        cases halive
      exact ⟨hopen, hs.shell_copy hopen halive⟩
  | descendant i =>
      have hmem : t ∈ w.descendants := List.mem_of_getElem? h
      have hopen : w.session.opener ≠ .done := by
        intro hdone
        rw [(hs.gone hdone).2] at hmem
        cases hmem
      exact ⟨hopen, hs.copies hopen t hmem⟩

theorem Copies.uncommanded (hs : Copies fds w) (hopen : w.session.opener ≠ .done) :
    w.commanded = false := by
  simp [World.commanded, (hs.idle hopen).taken]

/-- The session moves on without its open call. -/
theorem Copies.of_session (hs : Copies fds w) (hlife : LifeInv s')
    (hopener : s'.opener = w.session.opener)
    (halive : s'.shell.alive = true → w.session.shell.alive = true)
    (hidle : w.session.opener ≠ .done → Idle s') : Copies fds { w with session := s' } where
  life := hlife
  idle h := hidle (hopener ▸ h)
  shell_copy h ha := hs.shell_copy (hopener ▸ h) (halive ha)
  copies h := hs.copies (hopener ▸ h)
  gone h := by
    obtain ⟨hdead, hnone⟩ := hs.gone (hopener ▸ h)
    refine ⟨?_, hnone⟩
    by_contra ha
    rw [halive (by simpa using ha)] at hdead
    cases hdead
  peer_number := hs.peer_number
  dropped h := hs.dropped (hopener ▸ h)

theorem mem_ownerAfter {d : Fd OpenFile} (h : d ∈ w.ownerAfter fds s') :
    d ∈ w.afterOpener fds s' := by
  unfold World.ownerAfter at h
  split at h
  · exact (FdTable.mem_of_mem_close h).1
  · exact h

theorem mem_owner {d : Fd OpenFile} (h : d ∈ w.ownerAfter fds s') : d ∈ w.owner := by
  have h' := mem_ownerAfter h
  unfold World.afterOpener at h'
  split at h'
  · exact (FdTable.mem_of_mem_close h').1
  · exact h'

/-- `close(peer_fd)` leaves the owner without the peer end. -/
theorem Copies.dropped_after (hs : Copies fds w) (hpc : w.session.opener = .closePeer)
    (hnext : s'.opener ≠ .closePeer) : ¬ (w.ownerAfter fds s').Holds .peer := by
  rintro ⟨d, hd, hfile⟩
  have hnumber := hs.peer_number d (mem_owner hd) hfile
  have hclosed := mem_ownerAfter hd
  rw [World.afterOpener, if_pos ⟨hpc, hnext⟩] at hclosed
  exact (FdTable.mem_of_mem_close hclosed).2 hnumber

end

theorem copies_session {a : Action τ} (hs : CopiesInv fds w) (ha : ∀ b, a ≠ .shell b)
    (hok : ShellGone w (.session a)) (h : step w.session a = some s') :
    Copies fds { w with session := s', owner := w.ownerAfter fds s' } := by
  have halive : s'.shell.alive = w.session.shell.alive := by
    show s'.shell.self.alive = w.session.shell.self.alive
    rw [owner_keeps_shell ha h]
  have hkept : ¬ w.owner.Holds .peer → ¬ (w.ownerAfter fds s').Holds .peer := by
    rintro hno ⟨d, hd, hfile⟩
    exact hno ⟨d, mem_owner hd, hfile⟩
  have hlife' : LifeInv s' := lifeInv_step hs.life h
  have hnumber : ∀ d ∈ w.ownerAfter fds s', d.file = .peer → d.number = fds.peer :=
    fun d hd => hs.peer_number d (mem_owner hd)
  rcases opener_step h with hsame | ⟨rfl, ⟨hpc, hnext⟩ | ⟨hpc, hnext⟩⟩
  · have hidle : w.session.opener ≠ .done → Idle s' :=
      fun hopen => idle_step hs.life hopen (hs.idle hopen) h
    have hmoved := hs.toCopies.of_session hlife' hsame (fun h => halive ▸ h) hidle
    exact { hmoved with
      peer_number := hnumber
      dropped := fun hopen => hkept (hmoved.dropped hopen) }
  · have hopen : w.session.opener ≠ .done := by simp [hpc]
    exact {
      life := hlife'
      idle := fun _ => idle_step hs.life hopen (hs.idle hopen) h
      shell_copy := fun _ h => hs.shell_copy hopen (halive ▸ h)
      copies := fun _ => hs.copies hopen
      gone := fun hdone => by simp [hnext] at hdone
      peer_number := hnumber
      dropped := fun _ => hs.dropped_after hpc (by simp [hnext]) }
  · exact {
      life := hlife'
      idle := fun hopen => absurd hnext hopen
      shell_copy := fun hopen => absurd hnext hopen
      copies := fun hopen => absurd hnext hopen
      gone := fun _ => by
        rw [halive]
        exact hok hpc
      peer_number := hnumber
      dropped := fun _ => hkept (hs.dropped (by simp [hpc])) }

omit [DecidableEq τ] in
theorem copies_child {pc : ChildPc} {w₁ : World τ} (hs : Copies fds w)
    (h : w.childStep fds pc = some w₁) : Copies fds w₁ := by
  have hone := fds.one_lt_client
  cases pc <;> simp only [World.childStep, Option.some.injEq, reduceCtorEq] at h <;> subst h
  case dupStdin =>
    refine { hs with shell_copy := fun hopen halive => ?_ }
    exact FdTable.mem_dup2_of_ne (hs.shell_copy hopen halive) (by simp [SessionFds.clientFd]; omega)
  case dupStdout =>
    refine { hs with shell_copy := fun hopen halive => ?_ }
    exact FdTable.mem_dup2_of_ne (hs.shell_copy hopen halive) (by simp [SessionFds.clientFd]; omega)
  case execve =>
    refine { hs with shell_copy := fun hopen halive => ?_ }
    exact FdTable.mem_execve (hs.shell_copy hopen halive) rfl

omit [DecidableEq τ] in
theorem Copies.shell {a : ShellAction} (hs : Copies fds w) (h : shellStep w.session a = some s') :
    Copies fds { w with session := s' } := by
  have hk := shellStep_keeps h
  have hlife : LifeInv s' := hs.life.same hk.su_session hk.freed hk.opener hk.calls hk.handler
  refine hs.of_session hlife hk.opener (fun halive => ?_) fun hopen => idle_shell (hs.idle hopen) h
  rcases shellStep_reads h with ⟨hbefore, -⟩ | ⟨-, -, hsame⟩
  · exact hbefore
  · exact hsame ▸ halive

theorem copies_step {d : Deed τ} (hs : CopiesInv fds w) (hok : ShellGone w d)
    (h : w.step fds d = some w') : CopiesInv fds w' := by
  obtain ⟨w₁, hdeed, rfl⟩ := world_step_cases h
  apply Copies.settle
  cases hdeed with
  | session a ha s' hs' => exact copies_session hs ha hok hs'
  | child w₁ hw₁ => exact copies_child hs.toCopies hw₁
  | shell a _ s' hs' => exact hs.toCopies.shell hs'
  | fork p t ht =>
      obtain ⟨hopen, hcopy⟩ := hs.process ht
      refine { hs.toCopies with
        copies := fun hopen u hu => ?_
        gone := fun hdone => absurd hdone hopen }
      rcases List.mem_append.mp hu with hu | hu
      · exact hs.copies hopen u hu
      · rw [List.mem_singleton.mp hu]
        exact hcopy
  | setTable _ p t u ht hcommanded =>
      -- while there is a process, no command has been read
      rw [hs.uncommanded (hs.process ht).1] at hcommanded
      cases hcommanded
  | print i out =>
      obtain ⟨hlife, hopener⟩ := hs.life.print out
      refine hs.toCopies.of_session hlife hopener ?_ fun hopen => (hs.idle hopen).print out
      exact fun halive => (print_taken w.session out).2 ▸ halive
  | exit i t ht =>
      have hopen := (hs.process ht).1
      exact { hs.toCopies with
        copies := fun hopen u hu => hs.copies hopen u (List.mem_of_mem_eraseIdx hu)
        gone := fun hdone => absurd hdone hopen }

/-- A process that still runs as the session is published has the client end. -/
theorem not_ownerOnly_of_running {d : Deed τ} (hs : CopiesInv fds w) (hrunning : ¬ ShellGone w d)
    (h : w.step fds d = some w') : ¬ OwnerOnly w' := by
  intro honly
  unfold ShellGone at hrunning
  split at hrunning
  · rw [Classical.not_imp, not_and_or] at hrunning
    obtain ⟨hpc, hlive⟩ := hrunning
    have hopen : w.session.opener ≠ .done := by simp [hpc]
    obtain ⟨s', hs', rfl⟩ := Option.map_eq_some_iff.mp h
    have hdone : s'.opener = .done := by
      cases step_cases hs' with
      | closePeer hclose =>
          rw [hpc] at hclose
          cases hclose
      | publish => rfl
    have hnone := (honly hdone).1
    rcases hlive with halive | hdescendants
    · have hbefore : w.session.shell.alive = true := by simpa using halive
      have hafter : s'.shell.alive = true := by
        show s'.shell.self.alive = true
        rw [owner_keeps_shell (by simp) hs']
        exact hbefore
      have hcopy : fds.clientFd ∈ w.shell := hs.shell_copy hopen hbefore
      refine (hnone w.shell ?_).1 (FdTable.holds_of_mem hcopy)
      simp [World.tables, World.settle, hafter]
    · obtain ⟨t, ht⟩ := List.exists_mem_of_ne_nil _ hdescendants
      have hcopy := hs.copies hopen t ht
      refine (hnone t ?_).1 (FdTable.holds_of_mem hcopy)
      exact List.mem_cons_of_mem _ ht
  · exact hrunning trivial

theorem ownerOnly_iff (fds : SessionFds) (code : Int) (ds : List (Deed τ)) :
    Along (World.step fds) OwnerOnly (World.forked fds code) ds ↔
      Guarded (World.step fds) ShellGone (World.forked fds code) ds :=
  along_iff_guarded (fun _ hs => hs.ownerOnly) (fun _ _ _ => copies_step)
    (fun _ _ _ => not_ownerOnly_of_running) (copies_forked fds code) ds

/-- Descriptors as a process gets them that has the standard ones and a log open. -/
def usualFds : SessionFds where
  client := 5
  peer := 6
  log := 3
  one_lt_client := by decide
  one_lt_peer := by decide
  client_ne_peer := by decide
  client_ne_log := by decide
  peer_ne_log := by decide

/-- The forked child becomes su and open returns: the shell has the client end. -/
theorem not_ownerOnly_running_shell :
    ¬ ∀ (fds : SessionFds) (code : Int) (ds : List (Deed Unit)),
      Along (World.step fds) OwnerOnly (World.forked fds code) ds := by
  intro h
  have hrun := h usualFds 0 [.child, .child, .child, .session .opener, .session .opener]
  have honly := hrun.last rfl rfl
  exact (honly.1 _ List.mem_cons_self).1 (by decide)

/-! ## Exit and the descendants -/

/-- Exit has reaped the shell and waits for the handler, which waits for input on a
socket that a descendant of the shell holds open. -/
def ExitHeldUp (w : World τ) : Prop :=
  (∃ t, w.session.calls t = .exit .joining) ∧ w.session.shell.reaped = true ∧
    w.session.handler = .reading ∧ w.session.toOwner = [] ∧
      ∃ u ∈ w.descendants, u.Holds .peer

def Call.polls : Call → Bool
  | .exit (.stop (.poll _)) => true
  | _ => false

/-- Exit waits for the handler. -/
def Call.joins : Call → Bool
  | .exit .join | .exit .joining => true
  | _ => false

/-- When exit reaps the shell, no descendant of the shell holds the peer end. -/
def NoneLeftBehind (w : World τ) : Deed τ → Prop
  | .session (.caller t (.waitpid .pid)) =>
      (w.session.calls t).polls = true → ∀ u ∈ w.descendants, ¬ u.Holds .peer
  | _ => True

/-- Exit comes to wait for the handler by reaping the shell. -/
theorem joins_of_exit {t : τ} {ans : Answer τ} {pc : ExitPc} (hpc : s.calls t = .exit pc)
    (h : exitStep s t ans pc = some s') (hjoins : (s'.calls t).joins = true) :
    (s.calls t).joins = true ∨
      (s.calls t).polls = true ∧ ans = .waitpid .pid ∧ s.shell.alive = false := by
  have hgoto : ∀ (s₁ : State τ) (c : Call), (s₁.goto t c).calls t = c := by simp [State.goto]
  have hnot : ∀ (s₁ : State τ) (c : Call), s₁.goto t c = s' ∨ s.crash = s' → c.joins = false →
      (s.calls t).joins = true := by
    rintro s₁ c (rfl | rfl) hc
    · rw [hgoto, hc] at hjoins
      cases hjoins
    · exact hjoins
  cases pc with
  | join => exact .inl (by rw [hpc]; rfl)
  | joining => exact .inl (by rw [hpc]; rfl)
  | test =>
      simp only [exitStep, Option.some.injEq] at h
      refine .inl (hnot _ _ (.inl h) ?_)
      cases s.su_session <;> rfl
  | trylock =>
      simp only [exitStep] at h
      split at h <;> exact .inl (hnot _ _ (eq_or_crash_of_deref (Option.some.inj h)) rfl)
  | signal =>
      simp only [exitStep] at h
      split at h
      · obtain ⟨m, -, hm⟩ := Option.map_eq_some_iff.mp h
        exact .inl (hnot _ _ (eq_or_crash_of_deref hm) rfl)
      · cases h
  | lock => exact .inl (hnot _ _ (eq_or_crash_of_deref (Option.some.inj h)) rfl)
  | locking =>
      simp only [exitStep] at h
      split at h
      · exact .inl (hnot s .idle (.inr (Option.some.inj h)) rfl)
      · obtain ⟨m, -, hm⟩ := Option.map_eq_some_iff.mp h
        exact .inl (hnot _ _ (.inl hm) rfl)
  | setNull => exact .inl (hnot _ _ (eq_or_crash_of_deref (Option.some.inj h)) rfl)
  | delete => exact .inl (hnot _ _ (eq_or_crash_of_use (Option.some.inj h)) rfl)
  | stop p =>
      rw [exitStep] at h
      cases p with
      | writeExit => exact .inl (hnot _ _ (eq_or_crash_of_deref (Option.some.inj h)) rfl)
      | writeEnd => exact .inl (hnot _ _ (eq_or_crash_of_use (Option.some.inj h)) rfl)
      | poll again =>
          simp only [stopStep] at h
          split at h
          · split at h
            · split at h <;> exact .inl (hnot _ _ (eq_or_crash_of_use (Option.some.inj h)) rfl)
            · cases h
          · split at h
            · rename_i hdead
              refine .inr ⟨by rw [hpc]; rfl, rfl, ?_⟩
              simp_all
            · cases h
          · exact .inl (hnot _ _ (eq_or_crash_of_use (Option.some.inj h)) rfl)
          · cases h

/-- No other function waits for the handler. -/
theorem joins_of_caller {t : τ} {ans : Answer τ} (h : callStep s t ans (s.calls t) = some s')
    (hjoins : (s'.calls t).joins = true) :
    (s.calls t).joins = true ∨
      (s.calls t).polls = true ∧ ans = .waitpid .pid ∧ s.shell.alive = false := by
  cases hexiting : (s.calls t).exiting with
  | true =>
      cases hpc : s.calls t with
      | exit pc =>
          rw [hpc] at h
          rw [← hpc]
          exact joins_of_exit hpc h hjoins
      | _ => simp [hpc, Call.exiting] at hexiting
  | false =>
      have hself : ∀ {s₁ : State τ} {c : Call}, s' = s₁.goto t c → c.joins = false → False := by
        rintro s₁ c rfl hc
        simp [State.goto, hc] at hjoins
      cases execCall_cases hexiting h with
      | crash _ heq =>
          rw [heq] at hjoins
          exact .inl hjoins
      | move c _ hcalls _ _ _ _ _ hexit =>
          rw [hcalls, Function.update_self] at hjoins
          cases c <;> simp_all [Call.exiting, Call.joins]
      | reset cmd k _ heq => exact (hself heq rfl).elim
      | wait cmd k _ _ heq => exact (hself heq rfl).elim
      | read cmd k _ heq => exact (hself heq rfl).elim

/-- While an exit call waits for the handler, the shell is dead and nobody else has the
peer end. -/
def JoinInv (w : World τ) : Prop :=
  ∀ t, (w.session.calls t).joins = true →
    w.session.shell.alive = false ∧ ∀ u ∈ w.descendants, ¬ u.Holds .peer

theorem joins_session {a : Action τ} (hs : JoinInv w) (ha : ∀ b, a ≠ .shell b)
    (hok : NoneLeftBehind w (.session a)) (h : step w.session a = some s') (t : τ)
    (hjoins : (s'.calls t).joins = true) :
    w.session.shell.alive = false ∧ ∀ u ∈ w.descendants, ¬ u.Holds .peer := by
  cases step_cases h with
  | invoke u e =>
      rw [State.goto_calls] at hjoins
      split at hjoins
      · cases e <;> cases hjoins
      · exact hs t hjoins
  | caller u ans _ h =>
      by_cases htu : t = u
      · subst htu
        rcases joins_of_caller h hjoins with hbefore | ⟨hpolls, rfl, hdead⟩
        · exact hs t hbefore
        · exact ⟨hdead, hok hpolls⟩
      · apply hs t
        cases callStep_cases h with
        | crash _ heq =>
            rw [heq] at hjoins
            exact hjoins
        | move c _ _ hcalls => simpa [hcalls, htu] using hjoins
        | setNull _ _ heq => simpa [heq, State.goto, htu] using hjoins
        | delete _ _ heq => simpa [heq, State.goto, htu] using hjoins
  | handler ans _ h => exact hs t (handlerStep_calls h ▸ hjoins)
  | spurious | closePeer | publish => exact hs t hjoins
  | shell b => exact absurd rfl (ha b)

section

omit [DecidableEq τ]

/-- Nobody gains the peer end by a step beside the owner. -/
theorem JoinInv.beside {w₁ : World τ} (hs : JoinInv w)
    (hcalls : w₁.session.calls = w.session.calls)
    (halive : w.session.shell.alive = false → w₁.session.shell.alive = false)
    (hheld : w.session.shell.alive = false → (∀ u ∈ w.descendants, ¬ u.Holds .peer) →
      ∀ u ∈ w₁.descendants, ¬ u.Holds .peer) : JoinInv w₁.settle := by
  intro t hjoins
  have hbefore : (w.session.calls t).joins = true := hcalls ▸ hjoins
  obtain ⟨hdead, hnone⟩ := hs t hbefore
  exact ⟨halive hdead, hheld hdead hnone⟩

/-- A process that outlives the shell is a descendant. -/
theorem mem_descendants_of_dead {p : ProcessId} {t : FdTable OpenFile}
    (hdead : w.session.shell.alive = false) (h : w.table p = some t) : t ∈ w.descendants := by
  cases p with
  | shell => simp [World.table, hdead] at h
  | descendant i => exact List.mem_of_getElem? h

theorem not_holds_setTable {p : ProcessId} {t : FdTable OpenFile}
    (hnone : ∀ u ∈ w.descendants, ¬ u.Holds .peer) (ht : ¬ t.Holds .peer) :
    ∀ u ∈ (w.setTable t p).descendants, ¬ u.Holds .peer := by
  cases p with
  | shell => exact hnone
  | descendant i =>
      intro u hu
      rcases List.mem_or_eq_of_mem_set hu with hu | rfl
      · exact hnone u hu
      · exact ht

theorem setTable_session (t : FdTable OpenFile) (p : ProcessId) :
    (w.setTable t p).session = w.session := by
  cases p <;> rfl

end

theorem joinInv_step {d : Deed τ} (hs : JoinInv w) (hok : NoneLeftBehind w d)
    (h : w.step fds d = some w') : JoinInv w' := by
  obtain ⟨w₁, hdeed, rfl⟩ := world_step_cases h
  cases hdeed with
  | session a ha s' hs' =>
      intro t hjoins
      obtain ⟨hdead, hnone⟩ := joins_session hs ha hok hs' t hjoins
      refine ⟨?_, hnone⟩
      show s'.shell.self.alive = false
      rw [owner_keeps_shell ha hs']
      exact hdead
  | child w₁ hw₁ =>
      cases hpc : w.child <;> rw [hpc] at hw₁ <;> cases hw₁ <;>
        exact hs.beside rfl id fun _ => id
  | shell a hown s' hs' =>
      refine hs.beside (shellStep_keeps hs').calls (fun hdead => ?_) fun _ => id
      rcases shellStep_reads hs' with ⟨halive, -⟩ | ⟨rfl, -⟩
      · rw [hdead] at halive
        cases halive
      · cases hown
  | fork p t ht =>
      refine hs.beside rfl id fun hdead hnone u hu => ?_
      rcases List.mem_append.mp hu with hu | hu
      · exact hnone u hu
      · rw [List.mem_singleton.mp hu]
        exact hnone t (mem_descendants_of_dead hdead ht)
  | setTable _ p t u ht _ hu =>
      have hsession := setTable_session (w := w) u p
      refine hs.beside (by rw [hsession]) (by rw [hsession]; exact id) fun hdead hnone => ?_
      apply not_holds_setTable hnone
      exact fun hholds => hnone t (mem_descendants_of_dead hdead ht) (hu .peer hholds)
  | print i out =>
      refine hs.beside ?_ (fun hdead => (print_taken w.session out).2.trans hdead) fun _ => id
      show (w.session.print out).calls = w.session.calls
      unfold State.print
      split <;> rfl
  | exit i t ht =>
      exact hs.beside rfl id fun _ hnone u hu => hnone u (List.mem_of_mem_eraseIdx hu)

/-- If nothing that holds the peer end is left behind when the shell is reaped, exit is
never held up. -/
theorem not_exitHeldUp_of_reach {code : Int}
    (h : Reach (World.step fds) NoneLeftBehind (World.forked fds code) w) : ¬ ExitHeldUp w := by
  have hinv : JoinInv w := h.invariant (fun t hjoins => by cases hjoins) fun _ _ _ => joinInv_step
  rintro ⟨⟨t, ht⟩, -, -, -, u, hu, hholds⟩
  exact (hinv t (by rw [ht]; rfl)).2 u hu hholds

instance (w : World τ) : DecidablePred (NoneLeftBehind w)
  | .session (.caller t (.waitpid .pid)) =>
      inferInstanceAs (Decidable ((w.session.calls t).polls = true → ∀ u ∈ w.descendants, _))
  | .session (.caller _ .ok) | .session (.caller _ (.wake _)) | .session (.caller _ .error)
  | .session (.caller _ (.waitpid .zero)) | .session (.caller _ (.waitpid .error))
  | .session (.invoke _ _) | .session (.handler _) | .session (.spurious _) | .session .opener
  | .session (.shell _) | .child | .shell _ | .fork _ | .close _ _ | .dup2 _ _ _ | .print _ _
  | .exit _ => isTrue trivial

instance [Fintype τ] (w : World τ) : Decidable (ExitHeldUp w) := inferInstanceAs (Decidable (_ ∧ _))

/-- Open, one command during which the processes do `job`, then exit up to the join. -/
def commandThenExit (job : List (Deed Unit)) : List (Deed Unit) :=
  [[.session .opener, .session .opener, .child, .child, .child,
      .session (.invoke () (.exec (ascii "sleep 99 &")))],
    List.replicate 9 (.session (.caller () .ok)), List.replicate 2 (.session (.handler .ok)),
    [.shell .take], job, [.shell (.finish 0), .shell .take, .shell .take, .shell .take],
    List.replicate 2 (.session (.handler .ok)),
    [.session (.handler (.wake (some (.caller ()))))], List.replicate 2 (.session (.handler .ok)),
    List.replicate 3 (.session (.caller () .ok)), [.session (.invoke () .exit)],
    List.replicate 4 (.session (.caller () .ok)),
    [.shell .take, .session (.caller () (.waitpid .pid)), .session (.caller () .ok)]].flatten

/-- A background process that gives up its standard input and output, and the rest. -/
theorem not_exitHeldUp_daemon :
    ∃ w, Reach (World.step usualFds) NoneLeftBehind (World.forked usualFds 0 : World Unit) w ∧
      w.session.calls () = .exit .joining ∧ w.descendants.length = 1 ∧ ¬ ExitHeldUp w := by
  have hrun : (runOk (World.step usualFds) NoneLeftBehind (World.forked usualFds 0 : World Unit)
      (commandThenExit [.fork .shell, .close (.descendant 0) 0, .close (.descendant 0) 1,
        .close (.descendant 0) usualFds.peer])).map
        (fun w => (w.session.calls (), w.descendants.length)) = some (.exit .joining, 1) := by
    decide +kernel
  obtain ⟨w, hreach, hw⟩ := Reach.exists_of_runOk hrun
  obtain ⟨hcalls, hlen⟩ := Prod.mk.inj hw
  exact ⟨w, hreach, hcalls, hlen, not_exitHeldUp_of_reach hreach⟩

/-- `sleep 99 &` keeps the shell's end of the socket; exit waits for it. -/
theorem not_not_exitHeldUp_background :
    ¬ ∀ (fds : SessionFds) (code : Int) (ds : List (Deed Unit)) (w : World Unit),
      run (World.step fds) (World.forked fds code) ds = some w → ¬ ExitHeldUp w := by
  intro h
  have hrun : (run (World.step usualFds) (World.forked usualFds 0 : World Unit)
      (commandThenExit [.fork .shell])).map (fun w => decide (ExitHeldUp w)) = some true := by
    decide +kernel
  obtain ⟨w, hw, hheld⟩ := Option.map_eq_some_iff.mp hrun
  exact h usualFds 0 _ w hw (of_decide_eq_true hheld)

/-! ## The two waits -/

/-- A process has the peer end. -/
def World.Held (w : World τ) : Prop := ∃ t ∈ w.tables, t.Holds .peer

/-- An end that somebody has is open. -/
def HeldOpen (w : World τ) : Prop := w.Held → w.session.shell.peerOpen = true

section

omit [DecidableEq τ]

theorem HeldOpen.settle {w₁ : World τ} (hs : HeldOpen w)
    (hpeer : w₁.session.shell.peerOpen = w.session.shell.peerOpen) (hheld : w₁.Held → w.Held) :
    HeldOpen w₁.settle := by
  rintro ⟨t, ht, hholds⟩
  have hany : ((w₁.settle.shell :: w₁.descendants).any fun t => t.Holds .peer) = true :=
    List.any_eq_true.mpr ⟨t, ht, decide_eq_true hholds⟩
  have hbefore : w₁.Held := by
    rcases List.mem_cons.mp ht with rfl | hmem
    · simp only [World.settle] at hholds
      split at hholds
      · exact ⟨w₁.shell, List.mem_cons_self, hholds⟩
      · exact absurd hholds (FdTable.not_holds_nil _)
    · exact ⟨t, List.mem_cons_of_mem _ hmem, hholds⟩
  show (w₁.session.shell.peerOpen && _) = true
  rw [hpeer, hs (hheld hbefore), Bool.true_and]
  exact hany

theorem World.mem_tables {p : ProcessId} {t : FdTable OpenFile} (h : w.table p = some t) :
    t ∈ w.tables := by
  cases p with
  | shell =>
      simp only [World.table] at h
      split at h <;> cases h
      exact List.mem_cons_self
  | descendant i => exact List.mem_cons_of_mem _ (List.mem_of_getElem? h)

theorem World.held_of_setTable {p : ProcessId} {t u : FdTable OpenFile} (ht : w.table p = some t)
    (hu : u.Holds .peer → t.Holds .peer) (h : (w.setTable u p).Held) : w.Held := by
  obtain ⟨v, hv, hholds⟩ := h
  cases p with
  | shell =>
      rcases List.mem_cons.mp hv with rfl | hv
      · exact ⟨t, w.mem_tables ht, hu hholds⟩
      · exact ⟨v, List.mem_cons_of_mem _ hv, hholds⟩
  | descendant i =>
      rcases List.mem_cons.mp hv with rfl | hv
      · exact ⟨_, List.mem_cons_self, hholds⟩
      · rcases List.mem_or_eq_of_mem_set hv with hv | rfl
        · exact ⟨v, List.mem_cons_of_mem _ hv, hholds⟩
        · exact ⟨t, w.mem_tables ht, hu hholds⟩

theorem World.held_of_childStep {pc : ChildPc} {w₁ : World τ} (h : w.childStep fds pc = some w₁)
    (hheld : w₁.Held) : w.Held := by
  obtain ⟨t, ht, hholds⟩ := hheld
  cases pc <;> cases h <;> rcases List.mem_cons.mp ht with rfl | ht
  · exact ⟨_, List.mem_cons_self, FdTable.holds_of_dup2 hholds⟩
  · exact ⟨t, List.mem_cons_of_mem _ ht, hholds⟩
  · exact ⟨_, List.mem_cons_self, FdTable.holds_of_dup2 hholds⟩
  · exact ⟨t, List.mem_cons_of_mem _ ht, hholds⟩
  · exact ⟨_, List.mem_cons_self, FdTable.holds_of_execve hholds⟩
  · exact ⟨t, List.mem_cons_of_mem _ ht, hholds⟩

theorem print_peerOpen (s : State τ) (out : Bytes) :
    (s.print out).shell.peerOpen = s.shell.peerOpen := by
  unfold State.print
  split <;> rfl

theorem shellStep_peerOpen {a : ShellAction} (ha : a.own = true) (h : shellStep s a = some s') :
    s'.shell.peerOpen = s.shell.peerOpen := by
  cases a <;> simp only [shellStep] at h
  case take =>
    split at h
    · cases h
    · split at h <;> cases h <;> first | rfl | exact print_peerOpen _ _
  case print out =>
    split at h <;> cases h
    exact print_peerOpen s out
  case finish status =>
    split at h <;> cases h
    rfl
  case die =>
    split at h <;> cases h
    rfl
  case closePeer => cases ha

end

theorem heldOpen_step {d : Deed τ} (hs : HeldOpen w) (h : w.step fds d = some w') :
    HeldOpen w' := by
  obtain ⟨w₁, hdeed, rfl⟩ := world_step_cases h
  cases hdeed with
  | session a ha s' hs' =>
      refine hs.settle ?_ id
      show s'.shell.self.peerOpen = w.session.shell.self.peerOpen
      rw [owner_keeps_shell ha hs']
  | child w₁ hw₁ =>
      refine hs.settle ?_ (World.held_of_childStep hw₁)
      cases hpc : w.child <;> rw [hpc] at hw₁ <;> cases hw₁ <;> rfl
  | shell a hown s' hs' => exact hs.settle (shellStep_peerOpen hown hs') id
  | fork p t ht =>
      refine hs.settle rfl ?_
      rintro ⟨u, hu, hholds⟩
      rcases List.mem_cons.mp hu with rfl | hu
      · exact ⟨_, List.mem_cons_self, hholds⟩
      · rcases List.mem_append.mp hu with hu | hu
        · exact ⟨u, List.mem_cons_of_mem _ hu, hholds⟩
        · rw [List.mem_singleton.mp hu] at hholds
          exact ⟨t, w.mem_tables ht, hholds⟩
  | setTable _ p t u ht _ hu =>
      exact hs.settle (by rw [setTable_session]) (World.held_of_setTable ht (hu .peer))
  | print i out => exact hs.settle (print_peerOpen w.session out) id
  | exit i t ht =>
      refine hs.settle rfl ?_
      rintro ⟨u, hu, hholds⟩
      rcases List.mem_cons.mp hu with rfl | hu
      · exact ⟨_, List.mem_cons_self, hholds⟩
      · exact ⟨u, List.mem_cons_of_mem _ (List.mem_of_mem_eraseIdx hu), hholds⟩

/-- An exit call that is held up waits for a handler that cannot move. -/
theorem ExitHeldUp.blocked {ok : World τ → Deed τ → Prop} {code : Int}
    (hreach : Reach (World.step fds) ok (World.forked fds code) w) (h : ExitHeldUp w) :
    (∀ ans, handlerStep w.session ans w.session.handler = none) ∧
      ∀ t ans, w.session.calls t = .exit .joining → ans ≠ .error →
        callStep w.session t ans (w.session.calls t) = none := by
  have hopen : HeldOpen w :=
    hreach.invariant (fun _ => rfl) fun _ _ _ hs _ hstep => heldOpen_step hs hstep
  obtain ⟨-, -, hreading, hempty, u, hu, hholds⟩ := h
  have hpeer := hopen ⟨u, List.mem_cons_of_mem _ hu, hholds⟩
  constructor
  · intro ans
    rw [hreading]
    simp [handlerStep, hempty, hpeer]
  · intro t ans ht hans
    simp [ht, callStep, exitStep, hans, hreading]

end Susrv.Native
