import Susrv.Native.PointerUse
import Susrv.Native.Proofs.Balance
import Susrv.Native.Proofs.SessionLife

/-!
# What a session has when open returns 0

`init_mutexes` reports a failed initialisation but not a failed allocation, and
nothing looks at `handler_buf`, allocated or grown, or at the result of
`su_srv_log_init`.  So open can return 0 with pointers that its session, or the
handler thread, uses later.
-/

namespace Susrv.Native

open Base Base.CString Base.Transition

/-! ## Runs of a session with its pointers -/

section Runs

variable {τ : Type} {abi : Abi} {s s' : Pointed τ} {a : PointedAction τ}

/-- No step has used a pointer that is NULL. -/
def NoNullUsed (s : Pointed τ) : Prop := s.nullUsed = false

/-- Where the handler lets its buffer grow, `realloc` succeeds. -/
def BufferGrows (abi : Abi) (s : Pointed τ) (a : PointedAction τ) : Prop :=
  s.reallocs abi a.action = true → a.realloc = true

structure PointedInv (s : Pointed τ) : Prop where
  life : LifeInv s.session
  unused : NoNullUsed s
  kept : s.session.freed = false → ∀ r, s.nonNull r = true

theorem pointedInv_opening (code : Int) {nonNull : Resource → Bool}
    (h : ∀ r, nonNull r = true) : PointedInv (Pointed.opening code nonNull : Pointed τ) :=
  ⟨lifeInv_opening code, rfl, fun _ => h⟩

theorem reading_of_nextByte {b : UInt8} (h : s.nextByte = some b) :
    s.session.handler = .reading := by
  unfold Pointed.nextByte at h
  split at h
  · assumption
  · cases h

/-- The handler only reads while the session is there. -/
theorem LifeInv.live_of_reading {s : State τ} (hs : LifeInv s) (hpc : s.handler = .reading) :
    Live s := by
  apply hs.live
  by_contra hnull
  have hdone : s.opener = .done := by
    by_contra ho
    have hearly := (hs.unopened ho).2.2.1
    simp [hpc] at hearly
  have hgone := hs.null_handler hdone (by simpa using hnull)
  simp [hpc] at hgone

theorem grow_nonNull {realloc : Bool} (hkept : ∀ r, s.nonNull r = true)
    (hgrows : s.mustGrow abi = true → realloc = true) (r : Resource) :
    (s.grow abi realloc).nonNull r = true := by
  unfold Pointed.grow
  split
  · rename_i hmust
    rw [hgrows hmust]
    by_cases hr : r = .handler_buf
    · simp [hr]
    · simpa [hr] using hkept r
  · exact hkept r

theorem ne_crash {s s' : State τ} (hok : s'.fault = false) : s' ≠ s.crash := by
  rintro rfl
  cases hok

variable [DecidableEq τ]

/-- What a step does: it reads a byte into the buffer, or is a step of the session. -/
inductive PointedStep (abi : Abi) (s : Pointed τ) (a : PointedAction τ) : Pointed τ → Prop
  | byte (curr_byte : UInt8) (session : State τ) (hnext : s.nextByte = some curr_byte)
      (hreallocs : s.reallocs abi a.action = s.mustGrow abi)
      (hread : Pointed.readByte curr_byte a.action s.session = some session) :
      PointedStep abi s a { (s.grow abi a.realloc).store curr_byte with session }
  | other (session : State τ) (hreallocs : s.reallocs abi a.action = false)
      (hstep : step s.session a.action = some session) :
      PointedStep abi s a (s.use (s.session.uses a.action) session).destroy

theorem pointedStep_cases (h : s.step abi a = some s') : PointedStep abi s a s' := by
  unfold Pointed.step at h
  split at h
  · cases h
  · split at h
    · rename_i ans curr_byte haction hnext
      obtain ⟨session, hread, rfl⟩ := Option.map_eq_some_iff.mp h
      refine .byte curr_byte session hnext ?_ (haction ▸ hread)
      rw [haction, Pointed.reallocs, hnext, Option.isSome_some, Bool.true_and]
    · rename_i hnone
      obtain ⟨session, hstep, rfl⟩ := Option.map_eq_some_iff.mp h
      refine .other session ?_ hstep
      cases haction : a.action with
      | handler ans =>
          cases hnext : s.nextByte with
          | some curr_byte => exact absurd hnext (hnone ans curr_byte haction)
          | none => rw [Pointed.reallocs, hnext]; rfl
      | _ => rfl

/-- A byte leaves the session alone, or completes the line that `Session` takes. -/
theorem readByte_cases {b : UInt8} {a : Action τ} {s s' : State τ} (hs : LifeInv s)
    (hpc : s.handler = .reading) (h : Pointed.readByte b a s = some s') :
    s' = s ∨ step s a = some s' := by
  unfold Pointed.readByte at h
  split at h
  · exact .inr h
  · split at h
    · cases h
    · rw [(hs.live_of_reading hpc).deref] at h
      exact .inl (Option.some.inj h).symm

/-- The sessions of a run with pointers are those of a run of `Session`. -/
theorem session_step (hs : LifeInv s.session) (h : s.step abi a = some s') :
    s'.session = s.session ∨ step s.session a.action = some s'.session := by
  cases pointedStep_cases h with
  | byte b session hnext _ hread => exact readByte_cases hs (reading_of_nextByte hnext) hread
  | other session _ hstep =>
      refine .inr ?_
      unfold Pointed.destroy
      split <;> exact hstep

theorem exec_uses_of_freed {s s' : State τ} {t : τ} {cmd : Bytes} {pc : ExecPc}
    (hnull : s.su_session = false) (hfreed : s.freed = true)
    (h : execStep s t cmd pc = some s') (hok : s'.fault = false) : pc.uses = [] := by
  have hderef : ∀ next, s.deref next = s.crash := fun _ => if_neg (by simp [hnull])
  cases pc with
  | locking | wait | unlock =>
      simp only [execStep, hderef, hfreed, if_true, Option.some.injEq] at h
      exact absurd h.symm (ne_crash hok)
  | waiting =>
      simp only [execStep, hfreed, if_true] at h
      split at h
      · cases h
      · exact absurd (Option.some.inj h).symm (ne_crash hok)
  | _ => rfl

theorem exit_uses_of_freed {s s' : State τ} {t : τ} {ans : Answer τ} {pc : ExitPc}
    (hnull : s.su_session = false) (hfreed : s.freed = true)
    (h : exitStep s t ans pc = some s') (hok : s'.fault = false) : pc.uses = [] := by
  have hderef : ∀ next, s.deref next = s.crash := fun _ => if_neg (by simp [hnull])
  have huse : ∀ next, s.use next = s.crash := fun _ => if_pos hfreed
  cases pc with
  | trylock =>
      simp only [exitStep, hderef] at h
      split at h <;> exact absurd (Option.some.inj h).symm (ne_crash hok)
  | signal =>
      simp only [exitStep, hderef] at h
      split at h
      · obtain ⟨m, -, hm⟩ := Option.map_eq_some_iff.mp h
        exact absurd hm.symm (ne_crash hok)
      · cases h
  | locking | join | delete =>
      simp only [exitStep, deleteStep, hderef, huse, hfreed, if_true, Option.some.injEq] at h
      exact absurd h.symm (ne_crash hok)
  | _ => rfl

/-- With the session its pointers are gone too: a step that would use one crashes. -/
theorem uses_of_freed {s s' : State τ} {a : Action τ} (hs : LifeInv s) (hfreed : s.freed = true)
    (h : step s a = some s') (hok : s'.fault = false) : s.uses a = [] := by
  have hnull := hs.freed_null hfreed
  cases step_cases h with
  | handler ans _ h => exact absurd (hs.freed_handler hfreed) (not_terminated_of_step h)
  | caller t ans _ h =>
      rw [State.uses]
      cases hc : s.calls t with
      | exec cmd pc => exact exec_uses_of_freed hnull hfreed (by rwa [hc] at h) hok
      | exit pc => exact exit_uses_of_freed hnull hfreed (by rwa [hc] at h) hok
      | _ => rfl
  | _ => rfl

theorem pointedInv_step (hs : PointedInv s) (hok : BufferGrows abi s a)
    (h : s.step abi a = some s') : PointedInv s' := by
  have hlife : LifeInv s'.session := by
    rcases session_step hs.life h with hsame | hstep
    · rw [hsame]
      exact hs.life
    · exact lifeInv_step hs.life hstep
  cases pointedStep_cases h with
  | byte b session hnext hreallocs hread =>
      have hlive := hs.life.live_of_reading (reading_of_nextByte hnext)
      have hnonNull : ∀ r, (s.grow abi a.realloc).nonNull r = true :=
        grow_nonNull (hs.kept hlive.allocated) (fun hmust => hok (hreallocs.trans hmust))
      refine ⟨hlife, ?_, fun _ => hnonNull⟩
      simp [NoNullUsed, Pointed.store, hnonNull]
  | other session _ hstep =>
      have hunused : (s.use (s.session.uses a.action) session).nullUsed = false := by
        cases hfreed : s.session.freed with
        | false => simp [Pointed.use, hs.kept hfreed]
        | true =>
            cases hok : session.fault with
            | false => simp [Pointed.use, uses_of_freed hs.life hfreed hstep hok]
            | true => simp [Pointed.use, hok]
      unfold Pointed.destroy
      split
      · rename_i hgone
        exact ⟨lifeInv_step hs.life hstep, hunused, fun hlive => by simp [hgone] at hlive⟩
      · refine ⟨lifeInv_step hs.life hstep, hunused, fun hlive => hs.kept ?_⟩
        cases hfreed : s.session.freed with
        | false => rfl
        | true => exact absurd (hs.life.freed_step hfreed hstep).2 (ne_true_of_eq_false hlive)

theorem nullUsed_of_failed_growth (hfails : ¬ BufferGrows abi s a)
    (h : s.step abi a = some s') : ¬ NoNullUsed s' := by
  obtain ⟨hcalls, hno⟩ := Classical.not_imp.mp hfails
  cases pointedStep_cases h with
  | byte b session _ hreallocs =>
      have hnull : (s.grow abi a.realloc).nonNull .handler_buf = false := by
        rw [Pointed.grow, if_pos (hreallocs.symm.trans hcalls)]
        simpa using hno
      simp [NoNullUsed, Pointed.store, hnull]
  | other session hreallocs hstep =>
      rw [hcalls] at hreallocs
      cases hreallocs

/-- From pointers that are all there, a run uses none that is NULL exactly if every
`realloc` of the buffer succeeds. -/
theorem noNullUsed_iff (code : Int) {nonNull : Resource → Bool} (h : ∀ r, nonNull r = true)
    (as : List (PointedAction τ)) :
    Along (Pointed.step abi) NoNullUsed (Pointed.opening code nonNull) as ↔
      Guarded (Pointed.step abi) (BufferGrows abi) (Pointed.opening code nonNull) as :=
  along_iff_guarded (I := PointedInv) (fun _ hs => hs.unused)
    (fun _ _ _ hs hok hstep => pointedInv_step hs hok hstep)
    (fun _ _ _ _ hfails hstep => nullUsed_of_failed_growth hfails hstep)
    (pointedInv_opening code h) as

end Runs

/-! ## The open call -/

/-- The results of an open call, with those that do not decide how it ends. -/
structure FullEnv where
  env : OpenEnv
  malloc_handler_buf : Bool
  log : LogEnv

/-- The log as `su_srv_log_init` leaves it. -/
def FullEnv.logAfter (e : FullEnv) (l : Log) : Log := (su_srv_log_init e.log l).2

/-- Which pointers of the published session differ from NULL when open returns. -/
def pointersAtOpen (e : FullEnv) (l : Log) (session : SuShellSession) : Resource → Bool
  | .shell_sync_mutex => session.shell_sync_mutex
  | .shell_sync_ready => session.shell_sync_ready
  | .handler_buf => e.malloc_handler_buf
  | .handler_pth => session.handler_pth
  | .su_srv_log_fptr => (e.logAfter l).su_srv_log_fptr

/-- The session is complete when open has returned 0. -/
structure Complete (e : FullEnv) (l : Log) (role : Role) (session : SuShellSession) : Prop where
  mutex : session.shell_sync_mutex = true ∧ e.env.mutex_init = true
  ready : session.shell_sync_ready = true ∧ e.env.cond_init = true
  buffer : e.malloc_handler_buf = true
  thread : session.handler_pth = true ∧ e.env.pthread_create role = 0
  stream : (e.logAfter l).su_srv_log_fptr = true ∧ 0 < (e.logAfter l).streams

/-- The same, and in a run that begins with the handler thread no step uses one of the
pointers while it is NULL. -/
structure CompleteIn {τ : Type} [DecidableEq τ] (abi : Abi) (e : FullEnv) (l : Log) (role : Role)
    (session : SuShellSession) (code : Int) (as : List (PointedAction τ)) : Prop
    extends Complete e l role session where
  unused : Along (Pointed.step abi) NoNullUsed
    (Pointed.opening code (pointersAtOpen e l session)) as

/-- The allocations that nobody checks have succeeded, and so has the log file; an
earlier session's stream will do if not even the path was allocated. -/
def Allocated (e : FullEnv) (l : Log) : Prop :=
  e.env.malloc_mutex = true ∧ e.env.malloc_cond = true ∧ e.malloc_handler_buf = true ∧
    ((e.log.malloc = true ∧ e.log.fopen = 0) ∨ (e.log.malloc = false ∧ l.su_srv_log_fptr = true))

section Open

variable {env : OpenEnv} {pfs_root : Bytes} {owner_pid : Nat} {session : SuShellSession}
  {w u : Process}

/-- A new session has the pointers that were allocated, and those are initialised. -/
theorem new_pointers (h : su_shell_session_new env pfs_root owner_pid = some session) :
    (session.shell_sync_mutex = env.malloc_mutex ∧
        (env.malloc_mutex = true → env.mutex_init = true)) ∧
      (session.shell_sync_ready = env.malloc_cond ∧
        (env.malloc_cond = true → env.cond_init = true)) := by
  unfold su_shell_session_new at h
  split at h
  · obtain ⟨sun_path, -, h⟩ := Option.bind_eq_some_iff.mp h
    obtain ⟨pointers, hinit, h⟩ := Option.bind_eq_some_iff.mp h
    cases h
    unfold init_mutexes at hinit
    split at hinit
    · cases hinit
    · rename_i hmutex
      split at hinit
      · cases hinit
      · rename_i hcond
        cases hinit
        simp only [Bool.and_eq_true, Bool.not_eq_true', not_and, Bool.not_eq_false] at hmutex hcond
        exact ⟨⟨rfl, hmutex⟩, ⟨rfl, hcond⟩⟩
  · cases h

theorem deleteOutcome_ne_zero (session : SuShellSession) (w : Process) :
    .returned 0 u ≠ deleteOutcome session w := by
  unfold deleteOutcome
  split <;> simp [SU_SRV_SYSTEM_ERR]

theorem of_openedOutcome {peer : Nat} (h : .returned 0 u = openedOutcome env session peer w) :
    u.su_session = some session ∧ session.handler_pth = true ∧ env.pthread_create u.role = 0 := by
  unfold openedOutcome at h
  split at h
  · rename_i hthread
    cases h
    exact ⟨rfl, hthread.1, hthread.2⟩
  · cases h

/-- A call that returns 0 has published the session it made. -/
theorem of_open_zero (hnull : w.su_session = none)
    (h : .returned 0 u ∈ su_srv_open_shell_session env pfs_root owner_pid w) :
    ∃ session, ∃ client : Nat, su_shell_session_new env pfs_root owner_pid = some session ∧
      u.su_session = some { session with afun_client_fd := client } ∧
      session.handler_pth = true ∧ env.pthread_create u.role = 0 := by
  rcases started_or_not env pfs_root owner_pid with hnot | ⟨hpfs, session, hnew⟩
  · rw [open_of_not_started hnull hnot] at h
    simp [SU_SRV_SYSTEM_ERR] at h
  by_cases hconnects : Connects env session.sun_path w
  · by_cases hfound : Found env
    · cases hfork : env.fork with
      | true =>
          obtain ⟨client, peer, hopen⟩ := open_of_forked hnull hpfs hnew hconnects hfound hfork
          rw [hopen, List.mem_cons, List.mem_singleton] at h
          rcases h with h | h
          · exact ⟨session, client, hnew, of_openedOutcome h⟩
          · split at h
            · cases h
            · exact ⟨session, client, hnew, of_openedOutcome h⟩
      | false =>
          obtain ⟨client, peer, -, hopen⟩ :=
            open_of_not_forked hnull hpfs hnew hconnects hfound hfork
          rw [hopen, List.mem_singleton] at h
          exact absurd h (deleteOutcome_ne_zero _ _)
    · obtain ⟨u', -, hopen⟩ := open_of_not_found hnull hpfs hnew hconnects hfound
      rw [hopen, List.mem_singleton] at h
      cases h
  · obtain ⟨client, u', hopen, -⟩ := open_of_not_connected hnull hpfs hnew hconnects
    rw [hopen, List.mem_singleton] at h
    exact absurd h (deleteOutcome_ne_zero _ _)

end Open

/-! ## The log stream -/

/-- A stream pointer is only kept as long as its stream is open. -/
def StreamOpen (l : Log) : Prop := l.su_srv_log_fptr = true → 0 < l.streams

theorem StreamOpen.init {l : Log} (h : StreamOpen l) (env : LogEnv) :
    StreamOpen (su_srv_log_init env l).2 := by
  unfold su_srv_log_init
  split
  · split
    · intro _
      exact Nat.succ_pos _
    · intro hnull
      cases hnull
  · exact h

theorem after_log {α : Type} {h h' : Library} {o : Option (Outcome End Process α)}
    (hafter : h.after o = some h') : h'.log = h.log := by
  cases o with
  | none => cases hafter
  | some o =>
      cases o with
      | returned a u =>
          cases hafter
          rw [settle_log]
      | ended e u =>
          cases hafter
          rfl

theorem openLog_streamOpen {h : Library} (env : OpenEnv) (log : LogEnv) (hs : StreamOpen h.log) :
    StreamOpen (h.openLog env log).log := by
  unfold Library.openLog
  split
  · exact hs.init log
  · exact hs

theorem startHandler_log (bound : Bool) (h : Library) : (h.startHandler bound).log = h.log := by
  unfold Library.startHandler
  split <;> rfl

theorem streamOpen_step {h h' : Library} {a : LibraryAction} (hs : StreamOpen h.log)
    (hstep : h.step a = some h') : StreamOpen h'.log := by
  cases a with
  | «open» env log pfs_root =>
      simp only [Library.step] at hstep
      split at hstep
      · cases hstep
      · obtain ⟨u, hu, rfl⟩ := Option.map_eq_some_iff.mp hstep
        rw [startHandler_log, after_log hu]
        exact openLog_streamOpen env log hs
  | exit env me =>
      simp only [Library.step] at hstep
      split at hstep
      · cases hstep
      · rw [after_log hstep]
        exact hs
  | die waitpid =>
      simp only [Library.step] at hstep
      split at hstep
      · cases hstep
      · rw [after_log hstep]
        exact hs

theorem streamOpen_of_reach {h : Library} {owner_pid : Nat} {paths : List Bytes}
    (hreach : Reach Library.step (fun _ _ => True) (Library.init owner_pid paths) h) :
    StreamOpen h.log := by
  apply hreach.invariant (I := fun h => StreamOpen h.log)
  · intro hnull
    cases hnull
  · intro s a s' hs _ hstep
    exact streamOpen_step hs hstep

theorem su_srv_log_fptr_iff (e : FullEnv) (l : Log) :
    (e.logAfter l).su_srv_log_fptr = true ↔
      (e.log.malloc = true ∧ e.log.fopen = 0) ∨
        (e.log.malloc = false ∧ l.su_srv_log_fptr = true) := by
  unfold FullEnv.logAfter su_srv_log_init
  cases e.log.malloc with
  | false => simp
  | true =>
      by_cases hopen : e.log.fopen = 0
      · simp [hopen]
      · simp [hopen]

/-! ## The result 0 -/

/-- With the allocations that nobody checks all five pointers are there. -/
theorem pointersAtOpen_of_complete {e : FullEnv} {l : Log} {role : Role}
    {session : SuShellSession} (h : Complete e l role session) (r : Resource) :
    pointersAtOpen e l session r = true := by
  cases r with
  | shell_sync_mutex => exact h.mutex.1
  | shell_sync_ready => exact h.ready.1
  | handler_buf => exact h.buffer
  | handler_pth => exact h.thread.1
  | su_srv_log_fptr => exact h.stream.1

/-- After the result 0 the session is complete, and its pointers can be used, exactly when
the unchecked allocations of open have succeeded, there is a log stream, and so do all
that the handler makes for its buffer. -/
theorem complete_iff {h : Library} {owner_pid : Nat} {paths : List Bytes}
    (hreach : Reach Library.step (fun _ _ => True) (Library.init owner_pid paths) h)
    (hnull : h.process.su_session = none) {e : FullEnv} {pfs_root : Bytes} {w : Process}
    (hzero : .returned 0 w ∈ su_srv_open_shell_session e.env pfs_root h.owner_pid h.process) :
    ∃ session, w.su_session = some session ∧
      ∀ (τ : Type) [DecidableEq τ] (abi : Abi) (code : Int) (as : List (PointedAction τ)),
        CompleteIn abi e h.log w.role session code as ↔
          Allocated e h.log ∧ Guarded (Pointed.step abi) (BufferGrows abi)
            (Pointed.opening code (pointersAtOpen e h.log session)) as := by
  obtain ⟨new, client, hnew, hsession, hpth, hcreate⟩ := of_open_zero hnull hzero
  obtain ⟨⟨hmutex, hmutexInit⟩, hready, hreadyInit⟩ := new_pointers hnew
  refine ⟨_, hsession, fun τ _ abi code as => ?_⟩
  constructor
  · intro hcomplete
    have hmalloc : e.env.malloc_mutex = true := hmutex ▸ hcomplete.mutex.1
    have hmalloc' : e.env.malloc_cond = true := hready ▸ hcomplete.ready.1
    have hall : ∀ r, pointersAtOpen e h.log { new with afun_client_fd := client } r = true :=
      pointersAtOpen_of_complete hcomplete.toComplete
    exact ⟨⟨hmalloc, hmalloc', hcomplete.buffer,
      (su_srv_log_fptr_iff e h.log).mp hcomplete.stream.1⟩,
      (noNullUsed_iff code hall as).mp hcomplete.unused⟩
  · rintro ⟨⟨hmalloc, hmalloc', hbuf, hlog⟩, hgrows⟩
    have hfptr := (su_srv_log_fptr_iff e h.log).mpr hlog
    have hstreams : StreamOpen (e.logAfter h.log) := (streamOpen_of_reach hreach).init e.log
    have hcomplete : Complete e h.log w.role { new with afun_client_fd := client } :=
      ⟨⟨hmutex.trans hmalloc, hmutexInit hmalloc⟩, ⟨hready.trans hmalloc', hreadyInit hmalloc'⟩,
        hbuf, ⟨hpth, hcreate⟩, ⟨hfptr, hstreams hfptr⟩⟩
    exact ⟨hcomplete,
      (noNullUsed_iff code (pointersAtOpen_of_complete hcomplete) as).mpr hgrows⟩

/-- The first open of a process, with the results of the allocation of the mutex and of
`fopen`. -/
def firstOpen (mutex : Bool) (fopen : Int) : FullEnv where
  env := { faultless with malloc_mutex := mutex }
  malloc_handler_buf := true
  log := ⟨true, fopen⟩

/-- The process when this open has returned 0. -/
def firstOpened (mutex : Bool) : Process :=
  { initialProcess with
    su_session := some {
      sun_path := ascii "/data/var/run/su-00042", afun_client_fd := 4, handler_pth := true,
      shell_sync_mutex := mutex, shell_sync_ready := true, shell_sync_owner := none }
    allocated := true
    fds := {4}
    paths := [ascii "/data/var/run/su-00042"]
    shell := .unreaped
    handler := .running }

/-- A command prints a line for which the buffer must grow, whatever `realloc` gives. -/
def longLine (realloc : Bool) : List (PointedAction Unit) :=
  ([[.opener, .opener, .invoke () (.exec (ascii "id"))], List.replicate 4 (.caller () .ok),
    [.shell .take, .shell (.print (ascii "uid=0(root)\n"))],
    List.replicate 16 (.handler .ok)].flatten).map (⟨·, realloc⟩)

/-- The eighth byte is the first one that finds the buffer too small. -/
example : (run (Pointed.step .lp64) (Pointed.opening 0 fun _ => true)
    ((longLine false).take 19)).map Pointed.nullUsed = some true := by decide +kernel

theorem complete_first_open :
    (run (Pointed.step .lp64) (Pointed.opening 0 fun _ => true) (longLine true)).isSome = true ∧
      ∃ session, (firstOpened true).su_session = some session ∧
        CompleteIn .lp64 (firstOpen true 0) (Library.init 42 []).log (firstOpened true).role
          session 0 (longLine true) := by
  have hzero : .returned 0 (firstOpened true) ∈ su_srv_open_shell_session (firstOpen true 0).env
      (ascii "/data") 42 (Library.init 42 []).process := by decide +kernel
  obtain ⟨session, hsession, hiff⟩ := complete_iff (h := Library.init 42 []) .refl rfl hzero
  have hgrows : ∀ a ∈ longLine true, a.realloc = true := by decide
  exact ⟨by decide +kernel, session, hsession, (hiff Unit .lp64 0 (longLine true)).mpr
    ⟨⟨rfl, rfl, rfl, .inl ⟨rfl, rfl⟩⟩, .of_forall fun a ha s _ => hgrows a ha⟩⟩

/-- Without a mutex open returns 0 all the same. -/
theorem not_complete_unchecked :
    ¬ ∀ (h : Library) (owner_pid : Nat) (paths : List Bytes),
      Reach Library.step (fun _ _ => True) (Library.init owner_pid paths) h →
      h.process.su_session = none → ∀ (e : FullEnv) (pfs_root : Bytes) (w : Process),
        .returned 0 w ∈ su_srv_open_shell_session e.env pfs_root h.owner_pid h.process →
          ∃ session, w.su_session = some session ∧
            ∀ (abi : Abi) (code : Int) (as : List (PointedAction Unit)),
              CompleteIn abi e h.log w.role session code as := by
  intro h
  have hzero : .returned 0 (firstOpened false) ∈ su_srv_open_shell_session (firstOpen false 0).env
      (ascii "/data") 42 (Library.init 42 []).process := by decide +kernel
  obtain ⟨session, hsession, hcomplete⟩ :=
    h (Library.init 42 []) 42 [] .refl rfl (firstOpen false 0) (ascii "/data") _ hzero
  cases hsession
  exact absurd (hcomplete .lp64 0 []).mutex.1 (by decide)

end Susrv.Native
