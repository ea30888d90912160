import Susrv.Native.Proofs.Delivery
import Susrv.Native.Proofs.Freshness

/-!
# A single caller keeps in step with the shell

With several callers nothing ties a wake-up to a command.  When only one thread
calls `su_srv_exec` and no wake-up is spurious, the order of the calls does it:
`single_caller_in_step` needs nothing of the schedule.  A call that returns was
woken by its own command, its value is the status of that command or the one the
reset left, and everything the command printed has been handled.
-/

namespace Susrv.Native

open Base Base.CString Base.Transition

variable {τ : Type}

/-- The calls to `su_srv_exec` return one by one: `results` has the first
`results.length` commands, and at most one more has been submitted. -/
structure TurnInv (t₀ : τ) (s : State τ) : Prop extends LiveInv s where
  others : ∀ t, t ≠ t₀ → (s.calls t).isExec = false
  asleep : s.sync.sleepers = [] ∨
    (s.sync.sleepers = [.caller t₀] ∧ (s.calls t₀).waitsFor ≠ none)
  answered : s.shell.running = false → s.shell.taken % 4 = 0 ∨ s.shell.taken % 4 = 3 →
    s.pending = [] ∨ s.pending.getLast? = some .signal
  turn : ∀ k, (s.calls t₀).frame = some k →
    k = s.hist.results.length ∧ s.hist.submitted = k + 1
  between : (s.calls t₀).frame = none →
    s.hist.submitted = s.hist.results.length ∧ s.hist.signalled = s.hist.submitted
  signalled_ge : s.hist.results.length ≤ s.hist.signalled
  stored_ge : s.hist.results.length ≤ s.hist.stored
  woken : (s.calls t₀).awaiting ≠ none → s.sync.sleepers = [] →
    s.hist.signalled = s.hist.submitted
  cell : (s.calls t₀).pastReset = true → s.shell_cmd_exit_code = SU_SRV_INVALID_RESULT_ERR ∨
    s.hist.stored = s.hist.submitted ∧
      s.hist.statusOf s.hist.results.length = some s.shell_cmd_exit_code
  frames : s.hist.results.map Result.frame = (List.range s.hist.results.length).reverse
  values : ∀ r ∈ s.hist.results,
    r.value = SU_SRV_INVALID_RESULT_ERR ∨ s.hist.statusOf r.frame = some r.value

theorem turnInv_published [DecidableEq τ] (t₀ : τ) (code : Int) :
    TurnInv t₀ (State.published code) where
  toLiveInv := liveInv_published code
  others := fun _ _ => rfl
  asleep := .inl rfl
  answered := fun _ _ => .inl rfl
  turn := by simp [State.published, State.opening]
  between := fun _ => ⟨rfl, rfl⟩
  signalled_ge := le_rfl
  stored_ge := le_rfl
  woken := by simp [State.published, State.opening]
  cell := by simp [State.published, State.opening]
  frames := rfl
  values := by simp [State.published, State.opening, History.init]

variable {s s' : State τ} {t t₀ : τ}

/-- Once every command submitted has been signalled, nothing is left to be done. -/
theorem TurnInv.drained (hs : TurnInv t₀ s) (h : s.hist.signalled = s.hist.submitted) :
    s.pending = [] ∧ s.hist.stored = s.hist.submitted := by
  have hechoed := hs.echoed
  have htaken := hs.taken_le
  have hsubmitted := hs.submitted
  have hsignals := hs.signals
  have hcount : s.pending.count .signal = 0 := by omega
  have hmod : s.shell.taken % 4 = 0 ∨ s.shell.taken % 4 = 3 := by omega
  have hrun : s.shell.running = false := by
    rw [Bool.eq_false_iff]
    intro hrun
    have := hs.running hrun
    omega
  have hnil : s.pending = [] := by
    rcases hs.answered hrun hmod with hnil | hlast
    · exact hnil
    · exact absurd (List.mem_of_getLast? hlast) (List.count_eq_zero.mp hcount)
  refine ⟨hnil, ?_⟩
  have hcodes := congrArg List.length hs.codes
  rw [hnil, List.filterMap_nil, List.length_nil, List.length_map, List.length_drop,
    List.length_take] at hcodes
  have hle := hs.toShellFlow.echoed_le
  have hstored := hs.stored_le
  omega

variable [DecidableEq τ]

/-! ## The steps of the caller -/

/-- What a step of an exec call or of an accessor does to the turn of its thread. -/
inductive TurnStep (s : State τ) (t : τ) (s' : State τ) : Prop
  | quiet (c : Call) (hout : SameOutside s s') (hcalls : s'.calls = Function.update s.calls t c)
      (hcell : s'.shell_cmd_exit_code = s.shell_cmd_exit_code)
      (hresults : s'.hist.results = s.hist.results)
      (hsubmitted : s'.hist.submitted = s.hist.submitted)
      (hsleep : s'.sync.sleepers = s.sync.sleepers)
      (hexec : c.isExec = true → (s.calls t).isExec = true)
      (hframe : c.frame = (s.calls t).frame) (hawaiting : c.awaiting = (s.calls t).awaiting)
      (hpast : c.pastReset = (s.calls t).pastReset) (hpark : c.waitsFor = none)
      (hawake : (s.calls t).waitsFor ≠ none → .caller t ∉ s.sync.sleepers)
  | submit (c : Call) (hout : SameOutside s s') (hcalls : s'.calls = Function.update s.calls t c)
      (hresults : s'.hist.results = s.hist.results)
      (hsubmitted : s'.hist.submitted = s.hist.submitted + 1)
      (hsleep : s'.sync.sleepers = s.sync.sleepers)
      (hexec : (s.calls t).isExec = true)
      (hbefore : (s.calls t).frame = none) (hframe : c.frame = some s.hist.submitted)
      (hawaiting : c.awaiting = none) (hpast : c.pastReset = false)
  | reset (cmd : Bytes) (k : Nat) (hpc : s.calls t = .exec cmd (.reset k))
      (heq : s' =
        { s with
            shell_cmd_exit_code := SU_SRV_INVALID_RESULT_ERR
            hist := { s.hist with storedAtReset := some s.hist.stored } }.goto t
          (.exec cmd (.wait k)))
  | wait (cmd : Bytes) (k : Nat) (hpc : s.calls t = .exec cmd (.wait k))
      (heq : s' = { s with sync := s.sync.wait (.caller t) }.goto t (.exec cmd (.waiting k)))
  | read (cmd : Bytes) (k : Nat) (hpc : s.calls t = .exec cmd (.read k))
      (heq : s' =
        { s with
            hist := { s.hist with
              results := ⟨k, s.shell_cmd_exit_code, !s.shell.peerOpen⟩ :: s.hist.results } }.goto t
          .idle)

theorem TurnStep.of_goto {s₁ : State τ} {c c' : Call} (hpc : s.calls t = c)
    (hout : SameOutside s s₁) (hcalls : s₁.calls = s.calls)
    (hcell : s₁.shell_cmd_exit_code = s.shell_cmd_exit_code)
    (hresults : s₁.hist.results = s.hist.results)
    (hsubmitted : s₁.hist.submitted = s.hist.submitted)
    (hsleep : s₁.sync.sleepers = s.sync.sleepers)
    (hexec : c'.isExec = true → c.isExec = true)
    (hframe : c'.frame = c.frame) (hawaiting : c'.awaiting = c.awaiting)
    (hpast : c'.pastReset = c.pastReset) (hpark : c'.waitsFor = none)
    (hawake : c.waitsFor ≠ none → .caller t ∉ s.sync.sleepers) :
    TurnStep s t (s₁.goto t c') := by
  subst hpc
  exact .quiet c' hout.of_goto (by simp [State.goto, hcalls]) hcell hresults hsubmitted hsleep
    hexec hframe hawaiting hpast hpark hawake

theorem turnStep_exec {cmd : Bytes} {pc : ExecPc} (hl : Live s) (hpc : s.calls t = .exec cmd pc)
    (h : execStep s t cmd pc = some s') : TurnStep s t s' := by
  have hgo : ∀ {m : Monitor (Party τ)} {written : List Chunk} {sigpipe : Bool} {pc' : ExecPc},
      m.sleepers = s.sync.sleepers →
      (Call.exec cmd pc').frame = (Call.exec cmd pc).frame →
      (Call.exec cmd pc').awaiting = (Call.exec cmd pc).awaiting →
      (Call.exec cmd pc').pastReset = (Call.exec cmd pc).pastReset →
      (Call.exec cmd pc').waitsFor = none →
      ((Call.exec cmd pc).waitsFor ≠ none → .caller t ∉ s.sync.sleepers) →
      TurnStep s t
        ({ s with sync := m, written := written, sigpipe := sigpipe }.goto t (.exec cmd pc')) := by
    intro m written sigpipe pc' hsleep hframe hawaiting hpast hpark hawake
    exact .of_goto hpc ⟨⟨rfl, rfl, rfl, rfl⟩, rfl, rfl, rfl, rfl, rfl, rfl, rfl⟩ rfl rfl rfl rfl
      hsleep (fun _ => rfl) hframe hawaiting hpast hpark hawake
  cases pc <;> simp only [execStep, hl.deref, Option.some.injEq] at h
  case test =>
    rw [← h, if_pos hl.bound]
    exact hgo rfl rfl rfl rfl rfl (by simp [Call.waitsFor])
  case lock =>
    rw [← h]
    exact hgo rfl rfl rfl rfl rfl (by simp [Call.waitsFor])
  case locking =>
    rw [if_neg (by simp [hl.allocated])] at h
    obtain ⟨m, hm, rfl⟩ := Option.map_eq_some_iff.mp h
    obtain ⟨-, rfl⟩ := Monitor.tryLock_eq_some.mp hm
    exact hgo rfl rfl rfl rfl rfl (by simp [Call.waitsFor])
  case writeCmd =>
    rw [← h]
    refine .submit (.exec cmd (.writeLf s.hist.submitted)) ?_ rfl rfl rfl rfl
      (by rw [hpc]; rfl) (by rw [hpc]; rfl) rfl rfl rfl
    exact ⟨⟨rfl, rfl, rfl, rfl⟩, rfl, rfl, rfl, rfl, rfl, rfl, rfl⟩
  case writeLf | writeEoc | writeEnd =>
    rw [← h]
    exact hgo rfl rfl rfl rfl rfl (by simp [Call.waitsFor])
  case reset k => exact .reset cmd k hpc h.symm
  case wait k => exact .wait cmd k hpc h.symm
  case waiting k =>
    split at h
    · cases h
    · rename_i hawake
      rw [if_neg (by simp [hl.allocated])] at h
      obtain ⟨m, hm, rfl⟩ := Option.map_eq_some_iff.mp h
      obtain ⟨-, -, rfl⟩ := Monitor.reacquire_eq_some.mp hm
      exact hgo rfl rfl rfl rfl rfl (fun _ => hawake)
  case unlock k =>
    rw [← h]
    exact hgo rfl rfl rfl rfl rfl (by simp [Call.waitsFor])
  case read k => exact .read cmd k hpc h.symm

theorem turnStep_access {resume : Call} {access : State τ → State τ} {pc : AccessPc}
    {c : AccessPc → Call} (hl : Live s) (hpc : s.calls t = c pc)
    (hout : SameOutside s (access s)) (hsync : (access s).sync = s.sync)
    (hcalls : (access s).calls = s.calls)
    (hcell : (access s).shell_cmd_exit_code = s.shell_cmd_exit_code)
    (hhist : (access s).hist = s.hist)
    (hplain : ∀ pc', (c pc').isExec = false ∧ (c pc').frame = none ∧ (c pc').awaiting = none ∧
      (c pc').pastReset = false ∧ (c pc').waitsFor = none)
    (hresume : resume = c .access) (h : accessStep s t resume access pc = some s') :
    TurnStep s t s' := by
  obtain ⟨hexec, hframe, hawaiting, hpast, hpark⟩ := hplain pc
  cases pc <;>
    simp only [accessStep, hl.deref, hl.bound, if_true, Option.some.injEq] at h <;> rw [← h]
  case test =>
    obtain ⟨hexec', hframe', hawaiting', hpast', hpark'⟩ := hplain .access
    rw [hresume]
    refine .of_goto hpc ⟨⟨rfl, rfl, rfl, rfl⟩, rfl, rfl, rfl, rfl, rfl, rfl, rfl⟩ rfl rfl rfl rfl
      rfl ?_ ?_ ?_ ?_ hpark' ?_
    · simp [hexec']
    · rw [hframe, hframe']
    · rw [hawaiting, hawaiting']
    · rw [hpast, hpast']
    · simp [hpark]
  case access =>
    refine .of_goto hpc hout hcalls hcell (by rw [hhist]) (by rw [hhist]) (by rw [hsync])
      (by simp) ?_ ?_ ?_ rfl ?_
    · rw [hframe, Call.frame_idle]
    · rw [hawaiting, Call.awaiting_idle]
    · rw [hpast, Call.pastReset_idle]
    · simp [hpark]

theorem turnStep_caller {ans : Answer τ} (hl : Live s) (hno : (s.calls t).exiting = false)
    (h : callStep s t ans (s.calls t) = some s') : TurnStep s t s' := by
  have hsame : SameOutside s s := ⟨⟨rfl, rfl, rfl, rfl⟩, rfl, rfl, rfl, rfl, rfl, rfl, rfl⟩
  cases hpc : s.calls t with
  | idle => simp [hpc, callStep] at h
  | exit pc => simp [hpc, Call.exiting] at hno
  | exec cmd pc =>
      rw [hpc] at h
      exact turnStep_exec hl hpc h
  | setTtyEcho echo pc =>
      rw [hpc, callStep] at h
      exact turnStep_access (c := .setTtyEcho echo) hl hpc
        ⟨⟨rfl, rfl, rfl, rfl⟩, rfl, rfl, rfl, rfl, rfl, rfl, rfl⟩ rfl rfl rfl rfl
        (fun _ => ⟨rfl, rfl, rfl, rfl, rfl⟩) rfl h
  | getTtyEcho pc =>
      rw [hpc, callStep] at h
      exact turnStep_access (c := .getTtyEcho) hl hpc hsame rfl rfl rfl rfl
        (fun _ => ⟨rfl, rfl, rfl, rfl, rfl⟩) rfl h
  | lastTtyRead pc =>
      rw [hpc, callStep] at h
      exact turnStep_access (c := .lastTtyRead) hl hpc hsame rfl rfl rfl rfl
        (fun _ => ⟨rfl, rfl, rfl, rfl, rfl⟩) rfl h

omit [DecidableEq τ] in
theorem SameOutside.pending (hout : SameOutside s s') : s'.pending = s.pending := by
  rw [State.pending, State.pending, hout.handler, hout.toOwner]

omit [DecidableEq τ] in
theorem SameOutside.statusOf (hout : SameOutside s s') : s'.hist.statusOf = s.hist.statusOf := by
  funext k
  rw [History.statusOf, History.statusOf, hout.statuses]

/-- Another thread moves, or the caller outside its exec call. -/
theorem turnInv_quiet {c : Call} (hs : TurnInv t₀ s) (hlive' : LiveInv s')
    (hout : SameOutside s s') (hcalls : s'.calls = Function.update s.calls t c)
    (hcell : s'.shell_cmd_exit_code = s.shell_cmd_exit_code)
    (hresults : s'.hist.results = s.hist.results)
    (hsubmitted : s'.hist.submitted = s.hist.submitted)
    (hsleep : s'.sync.sleepers = s.sync.sleepers) (hexec : t ≠ t₀ → c.isExec = false)
    (hframe : c.frame = (s.calls t).frame) (hawaiting : c.awaiting = (s.calls t).awaiting)
    (hpast : c.pastReset = (s.calls t).pastReset)
    (hawake : t = t₀ → s.sync.sleepers = []) : TurnInv t₀ s' := by
  have hcall : s'.calls t₀ = if t₀ = t then c else s.calls t₀ := by
    rw [hcalls, Function.update_apply]
  have hsame : (s'.calls t₀).frame = (s.calls t₀).frame ∧
      (s'.calls t₀).awaiting = (s.calls t₀).awaiting ∧
      (s'.calls t₀).pastReset = (s.calls t₀).pastReset := by
    rw [hcall]
    split
    · rename_i ht
      rw [ht]
      exact ⟨hframe, hawaiting, hpast⟩
    · exact ⟨rfl, rfl, rfl⟩
  obtain ⟨hframe', hawaiting', hpast'⟩ := hsame
  have hothers : ∀ u, u ≠ t₀ → (s'.calls u).isExec = false := by
    intro u hu
    rw [hcalls, Function.update_apply]
    split
    · rename_i hut
      exact hexec (hut ▸ hu)
    · exact hs.others u hu
  refine {
    toLiveInv := hlive'
    others := hothers
    asleep := ?_
    answered := ?_
    turn := ?_
    between := ?_
    signalled_ge := ?_
    stored_ge := ?_
    woken := ?_
    cell := ?_
    frames := ?_
    values := ?_ } <;>
    simp only [hframe', hawaiting', hpast', hresults, hsubmitted, hsleep, hcell, hout.signalled,
      hout.stored, hout.shell, hout.statusOf, hout.pending]
  · rw [hcall]
    split
    · rename_i ht
      exact .inl (hawake ht.symm)
    · exact hs.asleep
  · exact hs.answered
  · exact hs.turn
  · exact hs.between
  · exact hs.signalled_ge
  · exact hs.stored_ge
  · exact hs.woken
  · exact hs.cell
  · exact hs.frames
  · exact hs.values

omit [DecidableEq τ] in
theorem TurnInv.nobody (hs : TurnInv t₀ s) (h : (s.calls t₀).waitsFor = none) :
    s.sync.sleepers = [] :=
  hs.asleep.resolve_right fun hin => hin.2 h

theorem TurnInv.others_update {c : Call} (hs : TurnInv t₀ s)
    (hcalls : s'.calls = Function.update s.calls t₀ c) :
    ∀ u, u ≠ t₀ → (s'.calls u).isExec = false := by
  intro u hu
  rw [hcalls, Function.update_of_ne hu]
  exact hs.others u hu

/-- The caller writes its command. -/
theorem turnInv_submit {c : Call} (hs : TurnInv t s) (hlive' : LiveInv s')
    (hout : SameOutside s s') (hcalls : s'.calls = Function.update s.calls t c)
    (hresults : s'.hist.results = s.hist.results)
    (hsubmitted : s'.hist.submitted = s.hist.submitted + 1)
    (hsleep : s'.sync.sleepers = s.sync.sleepers) (hbefore : (s.calls t).frame = none)
    (hframe : c.frame = some s.hist.submitted) (hawaiting : c.awaiting = none)
    (hpast : c.pastReset = false) : TurnInv t s' := by
  have hcall : s'.calls t = c := by rw [hcalls, Function.update_self]
  obtain ⟨hcount, hsignalled⟩ := hs.between hbefore
  have hwaits : (s.calls t).waitsFor = none := by
    rw [Option.eq_none_iff_forall_ne_some]
    intro k hk
    have := Call.frame_of_awaiting (Call.awaiting_of_waitsFor hk)
    rw [hbefore] at this
    cases this
  refine {
    toLiveInv := hlive'
    others := hs.others_update hcalls
    asleep := .inl (by rw [hsleep, hs.nobody hwaits])
    answered := ?_
    turn := fun k hk => ?_
    between := fun hno => ?_
    signalled_ge := ?_
    stored_ge := ?_
    woken := fun hno => ?_
    cell := fun hc => ?_
    frames := ?_
    values := ?_ } <;>
    simp only [hresults, hsubmitted, hout.signalled, hout.stored, hout.shell, hout.statusOf,
      hout.pending]
  · exact hs.answered
  · rw [hcall, hframe, Option.some.injEq] at hk
    omega
  · simp [hcall, hframe] at hno
  · exact hs.signalled_ge
  · exact hs.stored_ge
  · simp [hcall, hawaiting] at hno
  · simp [hcall, hpast] at hc
  · exact hs.frames
  · exact hs.values

theorem turnInv_reset {cmd : Bytes} {k : Nat} (hs : TurnInv t s) (hlive' : LiveInv s')
    (hpc : s.calls t = .exec cmd (.reset k))
    (heq : s' =
      { s with
          shell_cmd_exit_code := SU_SRV_INVALID_RESULT_ERR
          hist := { s.hist with storedAtReset := some s.hist.stored } }.goto t
        (.exec cmd (.wait k))) : TurnInv t s' := by
  have hcall : s'.calls t = .exec cmd (.wait k) := by rw [heq, State.goto_calls, if_pos rfl]
  refine {
    toLiveInv := hlive'
    others := hs.others_update (by rw [heq]; rfl)
    asleep := ?_
    answered := ?_
    turn := fun j hj => ?_
    between := fun hno => ?_
    signalled_ge := ?_
    stored_ge := ?_
    woken := fun hno => ?_
    cell := fun _ => ?_
    frames := ?_
    values := ?_ } <;> subst heq
  · exact .inl (hs.nobody (by rw [hpc]; rfl))
  · exact hs.answered
  · exact hs.turn j (by rw [hpc]; rw [hcall] at hj; exact hj)
  · rw [hcall] at hno
    cases hno
  · exact hs.signalled_ge
  · exact hs.stored_ge
  · rw [hcall] at hno
    exact absurd rfl hno
  · exact .inl rfl
  · exact hs.frames
  · exact hs.values

theorem turnInv_wait {cmd : Bytes} {k : Nat} (hs : TurnInv t s) (hlive' : LiveInv s')
    (hpc : s.calls t = .exec cmd (.wait k))
    (heq : s' = { s with sync := s.sync.wait (.caller t) }.goto t (.exec cmd (.waiting k))) :
    TurnInv t s' := by
  have hcall : s'.calls t = .exec cmd (.waiting k) := by rw [heq, State.goto_calls, if_pos rfl]
  have hsleepers : s'.sync.sleepers = [.caller t] := by
    rw [heq]
    simp [State.goto, Monitor.wait, hs.nobody (by rw [hpc]; rfl)]
  refine {
    toLiveInv := hlive'
    others := hs.others_update (by rw [heq]; rfl)
    asleep := .inr ⟨hsleepers, by rw [hcall]; simp [Call.waitsFor]⟩
    answered := ?_
    turn := fun j hj => ?_
    between := fun hno => ?_
    signalled_ge := ?_
    stored_ge := ?_
    woken := fun _ hnil => ?_
    cell := fun _ => ?_
    frames := ?_
    values := ?_ } <;> subst heq
  · exact hs.answered
  · exact hs.turn j (by rw [hpc]; rw [hcall] at hj; exact hj)
  · rw [hcall] at hno
    cases hno
  · exact hs.signalled_ge
  · exact hs.stored_ge
  · rw [hsleepers] at hnil
    cases hnil
  · exact hs.cell (by rw [hpc]; rfl)
  · exact hs.frames
  · exact hs.values

/-- The call returns: nothing is left to be done, so the cell keeps the status it has. -/
theorem turnInv_read {cmd : Bytes} {k : Nat} (hs : TurnInv t s) (hlive' : LiveInv s')
    (hpc : s.calls t = .exec cmd (.read k))
    (heq : s' =
      { s with
          hist := { s.hist with
            results := ⟨k, s.shell_cmd_exit_code, !s.shell.peerOpen⟩ :: s.hist.results } }.goto t
        .idle) : TurnInv t s' := by
  obtain ⟨hk, hsubmitted⟩ := hs.turn k (by rw [hpc]; rfl)
  have hcall : s'.calls t = .idle := by rw [heq, State.goto_calls, if_pos rfl]
  have hnil : s.sync.sleepers = [] := hs.nobody (by rw [hpc]; rfl)
  have hsignalled := hs.woken (by rw [hpc]; simp [Call.awaiting]) hnil
  obtain ⟨-, hstored⟩ := hs.drained hsignalled
  have hvalue := hs.cell (by rw [hpc]; rfl)
  refine {
    toLiveInv := hlive'
    others := hs.others_update (by rw [heq]; rfl)
    asleep := ?_
    answered := ?_
    turn := fun j hj => ?_
    between := fun _ => ?_
    signalled_ge := ?_
    stored_ge := ?_
    woken := fun hno => ?_
    cell := fun hc => ?_
    frames := ?_
    values := fun r hr => ?_ } <;> subst heq
  · exact .inl hnil
  · exact hs.answered
  · rw [hcall] at hj
    cases hj
  · simp only [State.goto, List.length_cons]
    omega
  · simp only [State.goto, List.length_cons]
    omega
  · simp only [State.goto, List.length_cons]
    omega
  · rw [hcall] at hno
    exact absurd rfl hno
  · rw [hcall] at hc
    cases hc
  · simp only [State.goto, List.map_cons, List.length_cons, List.range_succ,
      List.reverse_append, List.reverse_singleton, List.singleton_append, hs.frames, hk]
  · rcases List.mem_cons.mp hr with rfl | hr
    · rcases hvalue with hinvalid | ⟨-, hown⟩
      · exact .inl hinvalid
      · rw [← hk] at hown
        exact .inr hown
    · exact hs.values r hr

theorem turnInv_caller {ans : Answer τ} (hs : TurnInv t₀ s)
    (h : callStep s t ans (s.calls t) = some s') (hlive' : LiveInv s') : TurnInv t₀ s' := by
  have hother : (s.calls t).isExec = true → t = t₀ := by
    intro hexec
    by_contra ht
    simp [hs.others t ht] at hexec
  cases turnStep_caller hs.toLive (hs.no_exit t) h with
  | quiet c hout hcalls hcell hresults hsubmitted hsleep hexec hframe hawaiting hpast _ hawake =>
      refine turnInv_quiet hs hlive' hout hcalls hcell hresults hsubmitted hsleep ?_ hframe
        hawaiting hpast ?_
      · intro ht
        rw [Bool.eq_false_iff]
        exact fun hc => ht (hother (hexec hc))
      · rintro rfl
        rcases hs.asleep with hnil | ⟨hself, hwaits⟩
        · exact hnil
        · exact absurd (by simp [hself]) (hawake hwaits)
  | submit c hout hcalls hresults hsubmitted hsleep hexec hbefore hframe hawaiting hpast =>
      obtain rfl := hother hexec
      exact turnInv_submit hs hlive' hout hcalls hresults hsubmitted hsleep hbefore hframe
        hawaiting hpast
  | reset cmd k hpc heq =>
      obtain rfl := hother (by rw [hpc]; rfl)
      exact turnInv_reset hs hlive' hpc heq
  | wait cmd k hpc heq =>
      obtain rfl := hother (by rw [hpc]; rfl)
      exact turnInv_wait hs hlive' hpc heq
  | read cmd k hpc heq =>
      obtain rfl := hother (by rw [hpc]; rfl)
      exact turnInv_read hs hlive' hpc heq

/-! ## The steps of the others -/

theorem pending_perform {ans : Answer τ} {e : Effect} {rest : List Effect} {s₁ : State τ}
    (hpc : s.handler = .perform (e :: rest)) (h : applyEffect s ans e = some s₁) :
    s.pending = e :: (s₁.toHandler (.perform rest)).pending := by
  have howner : s₁.toOwner = s.toOwner := by
    cases e with
    | exitCode n | line text =>
        cases h
        rfl
    | signal =>
        simp only [applyEffect] at h
        split at h
        · obtain ⟨m, -, rfl⟩ := Option.map_eq_some_iff.mp h
          rfl
        · cases h
  simp [State.pending, State.toHandler, hpc, HandlerPc.effects, howner]

theorem answered_tail {e : Effect} {effects : List Effect}
    (h : e :: effects = [] ∨ (e :: effects).getLast? = some .signal) :
    effects = [] ∨ effects.getLast? = some .signal := by
  cases effects with
  | nil => exact .inl rfl
  | cons e' rest =>
      rw [List.getLast?_cons_cons] at h
      exact .inr (h.resolve_left (List.cons_ne_nil _ _))

theorem signal_one_sleeper {p : Party τ} {w : Option (Party τ)} {m m' : Monitor (Party τ)}
    (hone : m.sleepers = [] ∨ m.sleepers = [p]) (h : m.signal w = some m') :
    m'.sleepers = [] := by
  rcases Monitor.signal_eq_some.mp h with ⟨-, hnil, rfl⟩ | ⟨q, -, hin, rfl⟩
  · exact hnil
  · rcases hone with hnil | hself
    · simp [hnil] at hin
    · rw [hself, List.mem_singleton] at hin
      simp [hself, hin]

theorem turnInv_handler {ans : Answer τ} (hs : TurnInv t₀ s)
    (h : handlerStep s ans s.handler = some s') (hlive' : LiveInv s') : TurnInv t₀ s' := by
  rcases handlerStep_live hs.toLive hs.peer hs.reading h with
    ⟨pc, lines, rfl, hpending, -⟩ | ⟨e, rest, s₁, hpc, he, rfl⟩
  · refine { hs with toLiveInv := hlive', answered := ?_ }
    rw [hpending]
    exact hs.answered
  · have hpending := pending_perform hpc he
    have hanswered := hs.answered
    rw [hpending] at hanswered
    cases e with
    | exitCode n =>
        have hcode := hs.code_eq hpc
        have hlt := hlive'.stored_le_submitted
        cases he
        refine { hs with
          toLiveInv := hlive'
          answered := fun hrun hat => answered_tail (hanswered hrun hat)
          stored_ge := hs.stored_ge.trans (Nat.le_succ _)
          cell := fun hpast => .inr ?_ }
        have hframe : ∃ k, (s.calls t₀).frame = some k := by
          cases hc : s.calls t₀ with
          | exec cmd pc =>
              simp only [State.toHandler, hc] at hpast
              cases pc <;> first | exact ⟨_, rfl⟩ | cases hpast
          | _ => simp [State.toHandler, hc, Call.pastReset] at hpast
        obtain ⟨k, hk⟩ := hframe
        have hturn := hs.turn k hk
        have hge := hs.stored_ge
        simp only [State.toHandler] at hlt ⊢
        refine ⟨by omega, ?_⟩
        rw [show s.hist.results.length = s.hist.stored by omega]
        exact hcode
    | signal =>
        have hle := hlive'.signalled_le_submitted
        simp only [applyEffect] at he
        split at he
        · obtain ⟨m, hm, rfl⟩ := Option.map_eq_some_iff.mp he
          have hnil := signal_one_sleeper (hs.asleep.imp_right And.left) hm
          simp only [State.toHandler] at hle
          refine { hs with
            toLiveInv := hlive'
            asleep := .inl hnil
            answered := fun hrun hat => answered_tail (hanswered hrun hat)
            between := fun hno => ?_
            signalled_ge := hs.signalled_ge.trans (Nat.le_succ _)
            woken := fun hwaits _ => ?_ }
          · have := hs.between hno
            omega
          · obtain ⟨k, hk⟩ := Option.ne_none_iff_exists'.mp hwaits
            have hturn := hs.turn k (Call.frame_of_awaiting hk)
            have hge := hs.signalled_ge
            simp only [State.toHandler]
            omega
        · cases he
    | line text =>
        cases he
        exact { hs with
          toLiveInv := hlive'
          answered := fun hrun hat => answered_tail (hanswered hrun hat) }

section

omit [DecidableEq τ]

/-- The end-of-command line adds the code and the signal of its frame. -/
theorem output_echo (hs : LiveInv s) (hrun : s.shell.running = false)
    (hat : s.written[s.shell.taken]? = some .eocCmd) (h : shellStep s .take = some s') :
    s'.pending = s.pending ++ [.exitCode s.shell.status, .signal] ∧ s'.shell.tail = [] ∧
      s'.last_tty_read = s.last_tty_read := by
  have hmod : s.shell.taken % 4 = 2 := hs.layout _ _ hat
  have hlast := hs.status hrun (.inr hmod)
  have hrange : s.shell.status ≤ 255 := hs.range _ (List.mem_of_getLast? hlast)
  have heffects : lineEffects (cstr (eocLine s.shell.status)) =
      [.exitCode s.shell.status, .signal] := by
    rw [cstr_eq_self (nul_not_mem_eocLine _), lineEffects_eocLine hrange]
  have hprint : ∀ s₁ : State τ, s₁.shell.peerOpen = true → s₁.shell.tail = [] →
      s₁.toOwner = s.toOwner → s₁.handler = s.handler →
      (s₁.print (eocLine s.shell.status)).pending =
          s.pending ++ [.exitCode s.shell.status, .signal] ∧
        (s₁.print (eocLine s.shell.status)).shell.tail = [] ∧
        (s₁.print (eocLine s.shell.status)).last_tty_read = s₁.last_tty_read := by
    intro s₁ hpeer htail howner hhandler
    rw [State.print_of_open hpeer, htail, splitLines_eocLine]
    refine ⟨?_, rfl, rfl⟩
    simp [State.pending, howner, hhandler, heffects]
  simp only [shellStep] at h
  rw [if_neg (by simp [hs.alive, hrun]), hat] at h
  rw [← Option.some.inj h]
  exact hprint _ hs.peer (hs.tail hrun) rfl rfl

theorem answered_shell {a : ShellAction} (hs : TurnInv t₀ s) (hok : Considered s (.shell a))
    (h : shellStep s a = some s') (hrun' : s'.shell.running = false)
    (hat' : s'.shell.taken % 4 = 0 ∨ s'.shell.taken % 4 = 3) :
    s'.pending = [] ∨ s'.pending.getLast? = some .signal := by
  have h₀ := h
  cases a <;> simp only [shellStep] at h
  case take =>
    split at h
    · cases h
    · rename_i hready
      simp only [Bool.or_eq_true, not_or, Bool.not_eq_true] at hready
      split at h
      · cases h
      · cases h
        cases hrun'
      · rename_i hat
        have hmod := hs.layout _ _ hat
        cases h
        simp only [Chunk.Fits] at hmod hat'
        exact hs.answered hready.2 (.inr (by omega))
      · rename_i hat
        rw [(output_echo hs.toLiveInv hready.2 hat h₀).1]
        exact .inr (by simp)
      · rename_i hat
        exact absurd (hs.layout _ _ hat) id
  case print out =>
    split at h
    · rename_i hready
      rw [Bool.and_eq_true] at hready
      rw [← Option.some.inj h, State.print_of_open hs.peer] at hrun'
      rw [hready.2] at hrun'
      cases hrun'
    · cases h
  case finish status =>
    split at h
    · rename_i hready
      simp only [Bool.and_eq_true] at hready
      have hmod := hs.running hready.1.2
      cases h
      simp only at hat'
      omega
    · cases h
  case die => exact absurd hok id
  case closePeer => exact absurd hok id

theorem turnInv_shell {a : ShellAction} (hs : TurnInv t₀ s) (hok : Considered s (.shell a))
    (h : shellStep s a = some s') (hlive' : LiveInv s') : TurnInv t₀ s' := by
  have hk := shellStep_keeps h
  have hstatus : ∀ {k : Nat} {n : Int}, s.hist.statusOf k = some n →
      s'.hist.statusOf k = some n := History.statusOf_mono hk.statuses
  have hanswered := answered_shell hs hok h
  refine {
    toLiveInv := hlive'
    others := ?_
    asleep := ?_
    answered := hanswered
    turn := ?_
    between := ?_
    signalled_ge := ?_
    stored_ge := ?_
    woken := ?_
    cell := ?_
    frames := ?_
    values := ?_ } <;>
    simp only [hk.calls, hk.sync, hk.results, hk.submitted, hk.signalled, hk.stored, hk.exit_code]
  · exact hs.others
  · exact hs.asleep
  · exact hs.turn
  · exact hs.between
  · exact hs.signalled_ge
  · exact hs.stored_ge
  · exact hs.woken
  · intro hpast
    exact (hs.cell hpast).imp_right fun hown => ⟨hown.1, hstatus hown.2⟩
  · exact hs.frames
  · intro r hr
    exact (hs.values r hr).imp_right hstatus

end

/-- The steps of the runs considered, with one caller and no spurious wake-up. -/
def SingleCaller (t₀ : τ) (s : State τ) (a : Action τ) : Prop :=
  (Considered s a ∧ OneCaller t₀ a) ∧ a ≠ .spurious t₀

instance (t₀ : τ) (s : State τ) (a : Action τ) : Decidable (SingleCaller t₀ s a) :=
  inferInstanceAs (Decidable (_ ∧ _))

theorem turnInv_step {a : Action τ} (hs : TurnInv t₀ s) (hok : SingleCaller t₀ s a)
    (h : step s a = some s') : TurnInv t₀ s' := by
  obtain ⟨⟨hcons, hone⟩, hsignal⟩ := hok
  have hlive' : LiveInv s' := liveInv_step hs.toLiveInv hcons h
  cases step_cases h with
  | invoke t e hidle =>
      refine turnInv_quiet hs hlive' (c := e.call) (t := t) ?_ rfl rfl rfl rfl rfl ?_ ?_ ?_ ?_ ?_
      · exact SameOutside.of_goto ⟨⟨rfl, rfl, rfl, rfl⟩, rfl, rfl, rfl, rfl, rfl, rfl, rfl⟩
      · intro ht
        cases e with
        | exec cmd => exact absurd hone ht
        | _ => rfl
      · rw [hidle]
        cases e <;> rfl
      · rw [hidle]
        cases e <;> rfl
      · rw [hidle]
        cases e <;> rfl
      · rintro rfl
        exact hs.asleep.resolve_right fun hin => hin.2 (by rw [hidle]; rfl)
  | caller t ans _ h => exact turnInv_caller hs h hlive'
  | handler ans _ h => exact turnInv_handler hs h hlive'
  | spurious t hin =>
      rcases hs.asleep with hnil | ⟨hself, -⟩
      · simp [hnil] at hin
      · rw [hself, List.mem_singleton, Party.caller.injEq] at hin
        exact absurd (by rw [hin]) hsignal
  | closePeer ho | publish ho => simp [hs.opened] at ho
  | shell a _ h => exact turnInv_shell hs hcons h hlive'

/-! ## Runs -/

/-- With one caller and no spurious wake-up, under every schedule: the calls return in the
order of their commands; each value is the status of the command or what the reset left;
and between two calls every command has returned, with all it printed handled. -/
theorem single_caller_in_step (t₀ : τ) (code : Int)
    (h : Reach step (SingleCaller t₀) (State.published code) s) :
    s.hist.results.map Result.frame = (List.range s.hist.results.length).reverse ∧
      (∀ r ∈ s.hist.results, r.value = SU_SRV_INVALID_RESULT_ERR ∨
        s.hist.statusOf r.frame = some r.value) ∧
      ((s.calls t₀).frame = none →
        s.hist.results.length = s.hist.submitted ∧ s.pending = []) := by
  have hinv : TurnInv t₀ s :=
    h.invariant (turnInv_published t₀ code) fun _ _ _ hs hok hstep =>
      turnInv_step hs hok hstep
  refine ⟨hinv.frames, hinv.values, fun hno => ?_⟩
  obtain ⟨hcount, hsignalled⟩ := hinv.between hno
  exact ⟨hcount.symm, (hinv.drained hsignalled).1⟩

/-- Two commands; the handler stores the code of the second before its reset, so that the
second call gives `SU_SRV_INVALID_RESULT_ERR`. -/
theorem single_caller_in_step_twoCalls :
    ∃ s : State Unit, s.hist.results = [⟨1, SU_SRV_INVALID_RESULT_ERR, false⟩, ⟨0, 3, false⟩] ∧
      s.hist.submitted = 2 ∧ s.pending = [] := by
  have hrun : (runOk step (SingleCaller ()) (State.published 0)
      [submitSteps () (ascii "ls"), frameSteps (ascii "etc\n") 3,
        List.replicate 8 (.handler .ok), [.handler (.wake (some (.caller ())))],
        List.replicate 3 (.caller () .ok),
        [.invoke () (.exec (ascii "id"))], List.replicate 7 (.caller () .ok),
        frameSteps (ascii "root\n") 0, List.replicate 8 (.handler .ok),
        List.replicate 2 (.caller () .ok), [.handler (.wake (some (.caller ())))],
        List.replicate 3 (.caller () .ok)].flatten).map
        (fun s => (s.hist.results, (s.calls ()).frame)) =
      some ([⟨1, SU_SRV_INVALID_RESULT_ERR, false⟩, ⟨0, 3, false⟩], none) := by decide +kernel
  obtain ⟨s, hreach, hend⟩ := Reach.exists_of_runOk hrun
  obtain ⟨hresults, hframe⟩ := Prod.mk.inj hend
  obtain ⟨-, -, hidle⟩ := single_caller_in_step () 0 hreach
  obtain ⟨hcount, hpending⟩ := hidle hframe
  refine ⟨s, hresults, ?_, hpending⟩
  rw [← hcount, hresults]
  rfl

end Susrv.Native
