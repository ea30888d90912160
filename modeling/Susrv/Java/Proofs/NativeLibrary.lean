import Susrv.Base.Simulation
import Susrv.Java.SuShell
import Susrv.Native.Proofs.ExitSection

/-!
# The native session behind `LibSusrv`

`SuShell.lean` takes the native side of a call for a few operations on a flag.
`session_refines_libSusrv` justifies it: every run of the session with all its
threads, from its publication on, is a run of that flag in which the threads execute
`LibSusrv.exec` and `LibSusrv.exitShellSession`, with the same commands and results.
-/

namespace Susrv.Java

open Base Base.CString Base.Transition Base.Threads

variable {τ : Type}

/-! ## The native methods over the flag -/

inductive NativeCall
  | exec (cmd : String)
  | exitShellSession
  deriving DecidableEq

def NativeCall.code : NativeCall → Method Int
  | .exec cmd => LibSusrv.exec cmd
  | .exitShellSession => LibSusrv.exitShellSession

/-- The host with the texts of the commands written and the results of the calls that
have executed one, the last first. -/
structure Observed (τ : Type) where
  host : Host τ
  commands : List String
  results : List Int

def Observed.after (v : Observed τ) (i : Int) (host : Host τ) : Op → Observed τ
  | .execWrite cmd => { v with host := host, commands := cmd :: v.commands }
  | .execEnd => { v with host := host, results := i :: v.results }
  | _ => { v with host := host }

def libSusrv [DecidableEq τ] :
    System τ NativeCall Op Op.Result Thrown Int Int Unit (Observed τ) where
  code := NativeCall.code
  enter _ _ v := v
  act t o v i := (act t v.host i o).map fun r => (v.after i r.1 o, r.2)
  leave _ _ _ v := v
  env _ v := v.host.die.map fun host => { v with host := host }

abbrev LibraryPool (τ : Type) := Pool τ NativeCall Op Op.Result Thrown Int (Observed τ)

def LibraryPool.init (τ : Type) : LibraryPool τ :=
  Pool.init ⟨(Host.init : Host τ).bind, [], []⟩

/-! ## What is left of a call -/

def afterWrite : Method Int := .op .execEnd fun (rval : Int) => .pure rval

def afterLock (cmd : String) : Method Int := .op (.execWrite cmd) fun _ => afterWrite

def afterExecTest (cmd : String) : Method Int :=
  .op .execLock fun (last_err : Int) =>
    if last_err ≠ 0 then .pure LibSusrv.SYS_ERR else afterLock cmd

def afterExitTest : Method Int := .op .exitEnd fun (rval : Int) => .pure rval

section Left

-- the text of a command, as Java gave it
variable (text : Bytes → String)

/-- What a call of the session has still to do in terms of the flag. -/
def left : Native.Call → Option (NativeCall × Method Int)
  | .exec cmd .test => some (.exec (text cmd), LibSusrv.exec (text cmd))
  | .exec cmd .lock => some (.exec (text cmd), afterExecTest (text cmd))
  | .exec cmd .locking | .exec cmd .writeCmd => some (.exec (text cmd), afterLock (text cmd))
  | .exec cmd _ => some (.exec (text cmd), afterWrite)
  | .exit .test => some (.exitShellSession, LibSusrv.exitShellSession)
  | .exit .delete => some (.exitShellSession, .pure 0)
  | .exit _ => some (.exitShellSession, afterExitTest)
  | _ => none

def Chunk.command : Native.Chunk → Option String
  | .cmd cmd => some (text cmd)
  | _ => none

/-- The operations that a step of a call completes, and its return. -/
def callerActions [DecidableEq τ] (s : Native.State τ) (t : τ) (ans : Native.Answer τ) :
    List (Threads.Action τ NativeCall Int Unit) :=
  match s.calls t with
  | .exec _ .test | .exit .test => if s.su_session then [.run t 0] else [.run t 0, .run t 0]
  | .exec _ .lock => if s.su_session then [.run t 0] else []
  | .exec _ (.read _) =>
      if s.su_session then [.run t s.shell_cmd_exit_code, .run t 0] else []
  | .exec _ .writeCmd | .exit .setNull | .exit .delete => [.run t 0]
  | .exit (.stop (.poll again)) =>
      if Native.pollFails ans again then [.run t (-1), .run t 0] else []
  | .exit .joining => if ans = .error then [.run t 1, .run t 0] else []
  | _ => []

def libraryActions [DecidableEq τ] (s : Native.State τ) (a : Native.Action τ)
    (_ : Native.State τ) : List (Threads.Action τ NativeCall Int Unit) :=
  match a with
  | .invoke t (.exec cmd) => [.start t (.exec (text cmd))]
  | .invoke t .exit => [.start t .exitShellSession]
  | .caller t ans => callerActions s t ans
  | .handler _ => if s.handler = .setNull ∧ s.su_session = true then [.env ()] else []
  | _ => []

/-- The flag, the threads and what they have done agree. -/
structure Mirrors (s : Native.State τ) (p : LibraryPool τ) : Prop where
  bound : p.shared.host.su_session.isSome = s.su_session
  threads : ∀ t, p.threads t = left text (s.calls t)
  commands : p.shared.commands.reverse = s.written.filterMap (Chunk.command text)
  results : p.shared.results = s.hist.results.map Native.Result.value

theorem mirrors_init (code : Int) :
    Mirrors text (Native.State.published code : Native.State τ) (LibraryPool.init τ) where
  bound := rfl
  threads := fun _ => rfl
  commands := rfl
  results := rfl

end Left

/-! ## Operations of the flag -/

section Operations

variable [DecidableEq τ] {p : LibraryPool τ} {t : τ} {call : NativeCall} {i : Int}

theorem run_op {o : Op} {next : o.Result → Method Int} {v : Observed τ} {r : o.Result}
    (hp : p.threads t = some (call, .op o next))
    (hact : libSusrv.act t o p.shared i = some (v, r)) :
    libSusrv.step p (.run t i) =
      some ⟨v, Function.update p.threads t (some (call, next r))⟩ := by
  simp only [System.step, hp, hact, Option.map_some]

theorem run_end {rval : Int} (hp : p.threads t = some (call, .pure rval)) :
    libSusrv.step p (.run t i) = some ⟨p.shared, Function.update p.threads t none⟩ := by
  simp only [System.step, hp]
  rfl

theorem run_pair {q q' : LibraryPool τ} {a b : Threads.Action τ NativeCall Int Unit}
    (ha : libSusrv.step p a = some q) (hb : libSusrv.step q b = some q') :
    run libSusrv.step p [a, b] = some q' := by
  simp [run, ha, hb]

theorem run_single {q : LibraryPool τ} {a : Threads.Action τ NativeCall Int Unit}
    (ha : libSusrv.step p a = some q) : run libSusrv.step p [a] = some q := by
  simp [run, ha]

/-- The last operation of a call, and its return. -/
theorem run_last {o : Op} {next : o.Result → Method Int} {v : Observed τ} {r : o.Result}
    {rval : Int} {j : Int} (hp : p.threads t = some (call, .op o next))
    (hact : libSusrv.act t o p.shared i = some (v, r)) (hnext : next r = .pure rval) :
    run libSusrv.step p [.run t i, .run t j] = some ⟨v, Function.update p.threads t none⟩ := by
  refine run_pair (run_op hp hact) ?_
  have hend : (⟨v, Function.update p.threads t (some (call, next r))⟩ : LibraryPool τ).threads t =
      some (call, .pure rval) := by
    rw [← hnext]
    exact Function.update_self t _ _
  rw [run_end hend]
  simp only [Function.update_idem]

/-- An operation through `_su_session`. -/
theorem act_use {v : Observed τ} (h : v.host.su_session.isSome = true) :
    libSusrv.act t .execLock v i = some (v, i) ∧
      libSusrv.act t .execEnd v i = some ({ v with results := i :: v.results }, i) ∧
      libSusrv.act t .exitEnd v i =
        some ({ v with host := if i = 0 then v.host.unbind else v.host }, i) := by
  obtain ⟨session, hsession⟩ := Option.isSome_iff_exists.mp h
  refine ⟨?_, ?_, ?_⟩ <;> simp only [libSusrv, act, Host.use, hsession, Option.map_some] <;> rfl

theorem act_write {v : Observed τ} (h : v.host.su_session.isSome = true) (cmd : String) :
    ∃ host : Host τ, host.su_session = v.host.su_session ∧
      libSusrv.act t (.execWrite cmd) v i =
        some ({ v with host := host, commands := cmd :: v.commands }, ()) := by
  obtain ⟨session, hsession⟩ := Option.isSome_iff_exists.mp h
  refine ⟨_, ?_, by simp only [libSusrv, act, Host.use, hsession, Option.map_some]; rfl⟩
  exact hsession.symm

end Operations

/-! ## Steps -/

section Steps

variable [DecidableEq τ] {text : Bytes → String} {s s' : Native.State τ} {p : LibraryPool τ}
  {t : τ} {ans : Native.Answer τ}

/-- The flag follows with the given actions. -/
def Matched (text : Bytes → String) (p : LibraryPool τ) (s' : Native.State τ)
    (as : List (Threads.Action τ NativeCall Int Unit)) : Prop :=
  ∃ p', run libSusrv.step p as = some p' ∧ Mirrors text s' p'

theorem Mirrors.quiet (hm : Mirrors text s' p) : Matched text p s' [] := ⟨p, rfl, hm⟩

omit [DecidableEq τ] in
theorem Mirrors.crash (hm : Mirrors text s p) : Mirrors text s.crash p :=
  ⟨hm.bound, hm.threads, hm.commands, hm.results⟩

/-- The thread of the step moves on, the others stay. -/
theorem Mirrors.follow {c : Native.Call} {v : Observed τ} (hm : Mirrors text s p)
    (hcalls : s'.calls = Function.update s.calls t c)
    (hbound : v.host.su_session.isSome = s'.su_session)
    (hcommands : v.commands.reverse = s'.written.filterMap (Chunk.command text))
    (hresults : v.results = s'.hist.results.map Native.Result.value) :
    Mirrors text s' ⟨v, Function.update p.threads t (left text c)⟩ := by
  refine ⟨hbound, fun u => ?_, hcommands, hresults⟩
  show Function.update p.threads t (left text c) u = _
  rw [hcalls, Function.update_apply, Function.update_apply]
  split
  · rfl
  · exact hm.threads u

theorem Mirrors.goto {s₁ : Native.State τ} {c : Native.Call} {v : Observed τ}
    (hm : Mirrors text s p) (hcalls : s₁.calls = s.calls)
    (hbound : v.host.su_session.isSome = s₁.su_session)
    (hcommands : v.commands.reverse = s₁.written.filterMap (Chunk.command text))
    (hresults : v.results = s₁.hist.results.map Native.Result.value) :
    Mirrors text (s₁.goto t c) ⟨v, Function.update p.threads t (left text c)⟩ :=
  hm.follow (by rw [← hcalls]; rfl) hbound hcommands hresults

/-- What a step shows of the session besides `_su_session` and the calls. -/
def shown (text : Bytes → String) (s : Native.State τ) : List String × List Int :=
  (s.written.filterMap (Chunk.command text), s.hist.results.map Native.Result.value)

omit [DecidableEq τ] in
theorem Mirrors.same (hm : Mirrors text s p) (hbound : s'.su_session = s.su_session)
    (hcalls : ∀ t, left text (s'.calls t) = left text (s.calls t))
    (hshown : shown text s' = shown text s) : Mirrors text s' p where
  bound := hm.bound.trans hbound.symm
  threads u := (hm.threads u).trans (hcalls u).symm
  commands := hm.commands.trans (congrArg Prod.fst hshown).symm
  results := hm.results.trans (congrArg Prod.snd hshown).symm

/-- A move of a call between two operations. -/
theorem Mirrors.stay {c : Native.Call} (hm : Mirrors text s p)
    (hcalls : s'.calls = Function.update s.calls t c)
    (hleft : left text c = left text (s.calls t)) (hbound : s'.su_session = s.su_session)
    (hshown : shown text s' = shown text s) : Mirrors text s' p := by
  refine hm.same hbound (fun u => ?_) hshown
  rw [hcalls, Function.update_apply]
  split
  · rename_i hu
    rw [hu, hleft]
  · rfl

/-- The same in a state where nothing but the program counter has changed since. -/
theorem Mirrors.move {s₁ : Native.State τ} {b c : Native.Call} (hm : Mirrors text s p)
    (hpc : s.calls t = b) (hcalls : s₁.calls = s.calls) (hbound : s₁.su_session = s.su_session)
    (hshown : shown text s₁ = shown text s) (hleft : left text c = left text b) :
    Mirrors text (s₁.goto t c) p :=
  hm.stay (by rw [← hcalls]; rfl) (by rw [hleft, hpc]) hbound hshown

/-- A step through `_su_session` completes its operations, or crashes with none. -/
theorem Mirrors.deref {next : Native.State τ} {as : List (Threads.Action τ NativeCall Int Unit)}
    (hm : Mirrors text s p) (h : s.deref next = s')
    (hgo : s.su_session = true → Matched text p next as) :
    Matched text p s' (if s.su_session then as else []) := by
  rw [← h, Native.State.deref]
  cases hbound : s.su_session
  · exact hm.crash.quiet
  · exact hgo hbound

theorem mirrors_exec {cmd : Bytes} {pc : Native.ExecPc} (hs : Native.Deleting s)
    (hm : Mirrors text s p) (hpc : s.calls t = .exec cmd pc)
    (h : Native.execStep s t cmd pc = some s') :
    Matched text p s' (callerActions s t ans) := by
  have hthread := hm.threads t
  rw [hpc] at hthread
  have hmove : ∀ {m : Monitor (Native.Party τ)} {code : Int} {reset : Option Nat} {c : Native.Call},
      left text c = left text (.exec cmd pc) →
      Mirrors text ({ s with
        sync := m, shell_cmd_exit_code := code,
        hist := { s.hist with storedAtReset := reset } }.goto t c) p :=
    fun hleft => hm.move hpc rfl rfl rfl hleft
  have hwrite : ∀ {ch : Native.Chunk} {c : Native.Call}, Chunk.command text ch = none →
      left text c = left text (.exec cmd pc) → Mirrors text ((s.write ch).goto t c) p := by
    intro ch c hch hleft
    refine hm.move hpc rfl rfl ?_ hleft
    simp [shown, Native.State.write, hch]
  have hquiet : ∀ {next : Native.State τ}, s.deref next = s' → Mirrors text next p →
      Matched text p s' [] := by
    intro next h hnext
    simpa using hm.deref h fun _ => hnext.quiet
  cases pc <;> simp only [Native.execStep, Option.some.injEq] at h <;>
    simp only [callerActions, hpc]
  case test =>
    have hact : libSusrv.act t .execTest p.shared 0 = some (p.shared, s.su_session) := by
      rw [← hm.bound]
      rfl
    rw [← h]
    cases hbound : s.su_session <;> rw [hbound] at hact
    · refine ⟨_, run_last hthread hact rfl, ?_⟩
      exact hm.goto (c := .idle) rfl hm.bound hm.commands hm.results
    · refine ⟨_, run_single (run_op hthread hact), ?_⟩
      exact hm.goto (c := .exec cmd .lock) rfl hm.bound hm.commands hm.results
  case lock =>
    refine hm.deref h fun hbound => ?_
    have hact := (act_use (t := t) (i := 0) (hm.bound.trans hbound)).1
    exact ⟨_, run_single (run_op hthread hact),
      hm.goto (c := .exec cmd .locking) rfl hm.bound hm.commands hm.results⟩
  case locking =>
    split at h
    · rw [← Option.some.inj h]
      exact hm.crash.quiet
    · obtain ⟨m, -, rfl⟩ := Option.map_eq_some_iff.mp h
      exact (hmove (c := .exec cmd .writeCmd) rfl).quiet
  case writeCmd =>
    have hlive := hs.live_of_inside (t := t) (by simp [hpc, Native.Call.todo]) (by simp [hpc])
    have hbound := hlive.bound
    rw [← h, hlive.deref]
    obtain ⟨host, hhost, hact⟩ := act_write (t := t) (i := 0) (hm.bound.trans hbound) (text cmd)
    refine ⟨_, run_single (run_op hthread hact),
      hm.goto (c := .exec cmd (.writeLf s.hist.submitted)) rfl ?_ ?_ hm.results⟩
    · rw [hhost]
      exact hm.bound
    · simp [Native.State.write, hm.commands, Chunk.command]
  case writeLf k => exact hquiet h (hwrite rfl rfl)
  case writeEoc k => exact hquiet h (hwrite rfl rfl)
  case writeEnd k => exact hquiet h (hwrite rfl rfl)
  case reset k => exact hquiet h (hmove rfl)
  case wait k => exact hquiet h (hmove rfl)
  case waiting k =>
    split at h
    · cases h
    · split at h
      · rw [← Option.some.inj h]
        exact hm.crash.quiet
      · obtain ⟨m, -, rfl⟩ := Option.map_eq_some_iff.mp h
        exact (hmove (c := .exec cmd (.unlock k)) rfl).quiet
  case unlock k => exact hquiet h (hmove rfl)
  case read k =>
    refine hm.deref h fun hbound => ?_
    have hact := (act_use (t := t) (i := s.shell_cmd_exit_code) (hm.bound.trans hbound)).2.1
    refine ⟨_, run_last hthread hact rfl, hm.goto (c := .idle) rfl hm.bound hm.commands ?_⟩
    simp [hm.results]

omit [DecidableEq τ] in
theorem stopStep_shown {next : Native.StopPc → Native.State τ → Native.State τ}
    {done : Bool → Native.State τ → Native.State τ} {pc : Native.StopPc}
    (hnext : ∀ pc s₁, shown text (next pc s₁) = shown text s₁)
    (hdone : ∀ stopped s₁, shown text (done stopped s₁) = shown text s₁)
    (h : Native.stopStep s ans next done pc = some s') : shown text s' = shown text s := by
  have hwrite : ∀ c ∈ [Native.Chunk.exitCmd, .lf], shown text (s.write c) = shown text s := by
    intro c hc
    have hnone : Chunk.command text c = none := by
      rcases List.mem_pair.mp hc with rfl | rfl <;> rfl
    simp [shown, Native.State.write, hnone]
  exact Native.stopStep_same (shown text) rfl hwrite rfl hnext hdone h

theorem mirrors_exit {pc : Native.ExitPc} (hs : Native.Deleting s) (hm : Mirrors text s p)
    (hpc : s.calls t = .exit pc) (h : Native.exitStep s t ans pc = some s') :
    Matched text p s' (callerActions s t ans) := by
  have hthread := hm.threads t
  rw [hpc] at hthread
  have hmove : ∀ {m : Monitor (Native.Party τ)} {c : Native.Call},
      left text c = left text (.exit pc) → Mirrors text ({ s with sync := m }.goto t c) p :=
    fun hleft => hm.move hpc rfl rfl rfl hleft
  have hquiet : ∀ {next : Native.State τ}, s.deref next = s' → Mirrors text next p →
      Matched text p s' [] := by
    intro next h hnext
    simpa using hm.deref h fun _ => hnext.quiet
  -- the call is in its section, with the session to itself
  have hlive : (Native.Call.exit pc).todo ≠ none → pc ≠ .delete → s.su_session = true :=
    fun hin hne => (hs.live_of_inside (t := t) (by rwa [hpc]) (by simpa [hpc] using hne)).bound
  -- an error, with the session left as it is
  have hfail : s.su_session = true → left text (.exit pc) =
      some (.exitShellSession, afterExitTest) → ∀ last_err : Int, last_err ≠ 0 →
      s'.calls = Function.update s.calls t .idle → s'.su_session = s.su_session →
      shown text s' = shown text s → Matched text p s' [.run t last_err, .run t 0] := by
    intro hbound hleft last_err hne hcalls hsu hshown
    rw [hleft] at hthread
    have hact := (act_use (t := t) (i := last_err) (hm.bound.trans hbound)).2.2
    rw [if_neg hne] at hact
    exact ⟨_, run_last hthread hact rfl, hm.follow (c := .idle) hcalls (hm.bound.trans hsu.symm)
      (hm.commands.trans (congrArg Prod.fst hshown).symm)
      (hm.results.trans (congrArg Prod.snd hshown).symm)⟩
  cases pc <;> simp only [callerActions, hpc]
  case test =>
    have hact : libSusrv.act t .exitTest p.shared 0 = some (p.shared, s.su_session) := by
      rw [← hm.bound]
      rfl
    rw [← Option.some.inj h]
    cases hbound : s.su_session <;> rw [hbound] at hact
    · refine ⟨_, run_last hthread hact rfl, ?_⟩
      exact hm.goto (c := .idle) rfl hm.bound hm.commands hm.results
    · refine ⟨_, run_single (run_op hthread hact), ?_⟩
      exact hm.goto (c := .exit .trylock) rfl hm.bound hm.commands hm.results
  case trylock =>
    simp only [Native.exitStep] at h
    split at h
    · exact hquiet (Option.some.inj h) (hmove (c := .exit (.stop .writeExit)) rfl)
    · exact hquiet (Option.some.inj h) (hmove (c := .exit .signal) rfl)
  case signal =>
    simp only [Native.exitStep] at h
    split at h
    · obtain ⟨m, -, heq⟩ := Option.map_eq_some_iff.mp h
      exact hquiet heq (hmove (c := .exit .lock) rfl)
    · cases h
  case lock => exact hquiet (Option.some.inj h) (hmove (c := .exit .locking) rfl)
  case locking =>
    simp only [Native.exitStep] at h
    split at h
    · rw [← Option.some.inj h]
      exact hm.crash.quiet
    · obtain ⟨m, -, rfl⟩ := Option.map_eq_some_iff.mp h
      exact (hmove (c := .exit (.stop .writeExit)) rfl).quiet
  case stop pc =>
    simp only [Native.exitStep] at h
    have hshown : shown text s' = shown text s :=
      stopStep_shown (by intros; rfl) (by intros; rfl) h
    have hbound := hlive (by simp [Native.Call.todo]) (by simp)
    rcases Native.stopStep_cases h with
      ⟨hdead, -⟩ | ⟨s₁, hlife, hcalls, -, -, ⟨pc', rfl, hgo⟩ | ⟨stopped, again, rfl, rfl, hstop⟩⟩
    · exact absurd (hs.live hbound) hdead
    · have hsame : Mirrors text (s₁.goto t (.exit (.stop pc'))) p :=
        hm.stay (by rw [← hcalls]; rfl) (by rw [hpc]; rfl) hlife.su_session hshown
      cases pc with
      | poll again =>
          simp only [hgo again rfl, Bool.false_eq_true, if_false]
          exact hsame.quiet
      | writeExit | writeEnd => exact hsame.quiet
    · cases hfails : Native.pollFails ans again <;> rw [hfails] at hstop <;> subst hstop
      · have hsame : Mirrors text (s₁.goto t (.exit .join)) p :=
          hm.stay (by rw [← hcalls]; rfl) (by rw [hpc]; rfl) hlife.su_session hshown
        simp only [hfails, Bool.false_eq_true, if_false]
        exact hsame.quiet
      · simp only [hfails, if_true]
        exact hfail hbound rfl (-1) (by decide) (by rw [← hcalls]; rfl) hlife.su_session hshown
  case join => exact hquiet (Option.some.inj h) (hmove (c := .exit .joining) rfl)
  case joining =>
    have hbound := hlive (by simp [Native.Call.todo]) (by simp)
    simp only [Native.exitStep] at h
    split at h
    · rename_i herror
      rw [if_pos herror, ← Option.some.inj h]
      rw [← Option.some.inj h] at hfail
      exact hfail hbound rfl 1 (by decide) rfl rfl rfl
    · rename_i hjoined
      rw [if_neg hjoined]
      split at h
      · rw [← Option.some.inj h]
        exact (hmove (c := .exit .setNull) rfl).quiet
      · cases h
  case setNull =>
    have hbound := hlive (by simp [Native.Call.todo]) (by simp)
    simp only [Native.exitStep, Native.setNullStep, Native.State.deref, hbound, if_true] at h
    rw [← Option.some.inj h]
    have hact := (act_use (t := t) (i := 0) (hm.bound.trans hbound)).2.2
    rw [if_pos rfl] at hact
    exact ⟨_, run_single (run_op hthread hact),
      hm.goto (c := .exit .delete) rfl rfl hm.commands hm.results⟩
  case delete =>
    have hfreed : s.freed = false := by
      rw [← Bool.not_eq_true]
      intro hfreed
      obtain ⟨log, hlog⟩ := hs.framed
      have howner := hlog.inside (.caller t) (by simp [Native.State.view, hpc, Native.Call.todo])
      rw [show s.view.owner = none from hs.deleted hfreed] at howner
      cases howner
    simp only [Native.exitStep, Native.deleteStep, Native.State.use, hfreed, Bool.false_eq_true,
      if_false] at h
    rw [← Option.some.inj h]
    exact ⟨_, run_single (run_end hthread),
      hm.goto (c := .idle) rfl hm.bound hm.commands hm.results⟩

theorem mirrors_access {resume : Native.Call} {access : Native.State τ → Native.State τ}
    {pc : Native.AccessPc} {c : Native.AccessPc → Native.Call} (hm : Mirrors text s p)
    (hpc : s.calls t = c pc) (hc : ∀ pc, left text (c pc) = none)
    (hresume : left text resume = none) (hcalls : (access s).calls = s.calls)
    (hbound : (access s).su_session = s.su_session) (hshown : shown text (access s) = shown text s)
    (h : Native.accessStep s t resume access pc = some s') : Matched text p s' [] := by
  cases pc <;> simp only [Native.accessStep, Option.some.injEq] at h
  case test =>
    rw [← h]
    refine (hm.move hpc rfl rfl rfl ?_).quiet
    rw [hc]
    split
    · exact hresume
    · rfl
  case access =>
    have hnext := hm.move (c := .idle) hpc hcalls hbound hshown (hc .access).symm
    simpa using hm.deref h fun _ => hnext.quiet

theorem mirrors_caller (hs : Native.Deleting s) (hm : Mirrors text s p)
    (h : Native.callStep s t ans (s.calls t) = some s') :
    Matched text p s' (callerActions s t ans) := by
  cases hpc : s.calls t with
  | idle =>
      rw [hpc] at h
      cases h
  | exec cmd pc => exact mirrors_exec hs hm hpc (by rwa [hpc] at h)
  | exit pc => exact mirrors_exit hs hm hpc (by rwa [hpc] at h)
  | setTtyEcho echo pc =>
      rw [hpc] at h
      simp only [Native.callStep] at h
      simp only [callerActions, hpc]
      exact mirrors_access (c := .setTtyEcho echo) hm hpc (fun _ => rfl) rfl rfl rfl rfl h
  | getTtyEcho pc =>
      rw [hpc] at h
      simp only [Native.callStep] at h
      simp only [callerActions, hpc]
      exact mirrors_access (c := .getTtyEcho) hm hpc (fun _ => rfl) rfl rfl rfl rfl h
  | lastTtyRead pc =>
      rw [hpc] at h
      simp only [Native.callStep] at h
      simp only [callerActions, hpc]
      exact mirrors_access (c := .lastTtyRead) hm hpc (fun _ => rfl) rfl rfl rfl rfl h

/-- The handler writes no command and executes none. -/
theorem handlerStep_shown (h : Native.handlerStep s ans s.handler = some s') :
    shown text s' = shown text s := by
  have hderef : ∀ {next : Native.State τ}, s.deref next = s' → shown text next = shown text s →
      shown text s' = shown text s := by
    intro next h hnext
    rcases Native.eq_or_crash_of_deref h with heq | heq <;> rw [← heq]
    · exact hnext
    · rfl
  cases hpc : s.handler <;> rw [hpc] at h <;> simp only [Native.handlerStep] at h
  case start =>
    rw [← Option.some.inj h]
    rfl
  case read => exact hderef (Option.some.inj h) rfl
  case reading =>
    split at h
    · exact hderef (Option.some.inj h) rfl
    · split at h <;> cases h
      rfl
  case perform effects =>
    cases effects with
    | nil =>
        cases h
        rfl
    | cons e rest =>
        dsimp only at h
        split at h
        · obtain ⟨s₁, heffect, rfl⟩ := Option.map_eq_some_iff.mp h
          cases e <;> simp only [Native.applyEffect] at heffect
          · cases heffect
            rfl
          · split at heffect
            · obtain ⟨m, -, rfl⟩ := Option.map_eq_some_iff.mp heffect
              rfl
            · cases heffect
          · cases heffect
            rfl
        · cases h
          rfl
  case trylock | trylockAgain =>
    split at h <;> exact hderef (Option.some.inj h) rfl
  case signal =>
    split at h
    · obtain ⟨m, -, heq⟩ := Option.map_eq_some_iff.mp h
      exact hderef heq rfl
    · cases h
  case stop pc => exact stopStep_shown (by intros; rfl) (by intros; rfl) h
  case setNull => exact hderef (Option.some.inj h) rfl
  case delete =>
    simp only [Native.deleteStep, Option.some.injEq] at h
    rcases Native.eq_or_crash_of_use h with heq | heq <;> rw [← heq] <;> rfl
  case terminated => cases h

theorem mirrors_handler (hm : Mirrors text s p)
    (h : Native.handlerStep s ans s.handler = some s') :
    Matched text p s'
      (if s.handler = .setNull ∧ s.su_session = true then [.env ()] else []) := by
  have hshown : shown text s' = shown text s := handlerStep_shown h
  have hunbinds : s.handler = .setNull ∧ s.su_session = true → s'.su_session = false := by
    rintro ⟨hpc, hbound⟩
    simp only [hpc, Native.handlerStep, Native.setNullStep, Native.State.deref, hbound,
      if_true] at h
    rw [← Option.some.inj h]
    rfl
  -- a step that leaves the flag alone is not the one that invalidates the session
  have hquiet : s'.su_session = s.su_session → s'.calls = s.calls → Matched text p s'
      (if s.handler = .setNull ∧ s.su_session = true then [.env ()] else []) := by
    intro hsu hcalls
    have hno : ¬ (s.handler = .setNull ∧ s.su_session = true) := by
      intro hboth
      have hnull := hunbinds hboth
      rw [hsu, hboth.2] at hnull
      cases hnull
    rw [if_neg hno]
    exact (hm.same hsu (fun u => by rw [hcalls]) hshown).quiet
  cases Native.handlerStep_cases h with
  | crash hdead heq => exact hquiet (by rw [heq]; rfl) (by rw [heq]; rfl)
  | move hlife hcalls => exact hquiet hlife.su_session hcalls
  | setNull hpc hbound heq =>
      rw [if_pos ⟨hpc, hbound⟩, heq]
      obtain ⟨session, hsession⟩ := Option.isSome_iff_exists.mp (hm.bound.trans hbound)
      refine ⟨⟨{ p.shared with host := p.shared.host.unbind }, p.threads⟩, run_single ?_, ?_⟩
      · simp only [System.step, libSusrv, Host.die, Host.use, hsession, Option.map_some]
      · exact ⟨rfl, hm.threads, hm.commands, hm.results⟩
  | delete hpc _ heq => exact hquiet (by rw [heq]; rfl) (by rw [heq]; rfl)

theorem mirrors_step {a : Native.Action τ} (hs : Native.Deleting s) (hm : Mirrors text s p)
    (h : Native.step s a = some s') : Matched text p s' (libraryActions text s a s') := by
  cases Native.step_cases h with
  | invoke t e hidle =>
      have hthread : p.threads t = none := (hm.threads t).trans (by rw [hidle]; rfl)
      have hgoto : Mirrors text (s.goto t e.call)
          ⟨p.shared, Function.update p.threads t (left text e.call)⟩ :=
        hm.goto rfl hm.bound hm.commands hm.results
      cases e with
      | exec cmd =>
          refine ⟨_, run_single ?_, hgoto⟩
          simp only [System.step, hthread]
          rfl
      | exit =>
          refine ⟨_, run_single ?_, hgoto⟩
          simp only [System.step, hthread]
          rfl
      | setTtyEcho echo | getTtyEcho | lastTtyRead =>
          exact Mirrors.quiet (hm.move hidle rfl rfl rfl rfl)
  | caller t ans _ h => exact mirrors_caller hs hm h
  | handler ans _ h => exact mirrors_handler hm h
  | spurious t => exact Mirrors.quiet (hm.same rfl (fun _ => rfl) rfl)
  | closePeer ho | publish ho => simp [hs.opened] at ho
  | shell a _ h =>
      have hk := Native.shellStep_keeps h
      refine (hm.same hk.su_session (fun u => by rw [hk.calls]) ?_).quiet
      rw [shown, hk.written, hk.results]
      rfl

end Steps

/-! ## Runs -/

variable [DecidableEq τ]

theorem simulates_libSusrv (text : Bytes → String) :
    Simulates (Native.step (τ := τ)) (libraryActions text) libSusrv.step
      (fun s p => Mirrors text s p ∧ Native.Deleting s) := by
  rintro s a s' p ⟨hm, hs⟩ h
  obtain ⟨p', hrun, hm'⟩ := mirrors_step hs hm h
  exact ⟨p', hrun, hm', Native.deleting_step hs h⟩

/-- Every run of a published session is a run of its flag, in which the threads execute the
code of the two native methods: they have written the same commands and got the same
results, and each thread has to do what is left of its native call. -/
theorem session_refines_libSusrv (text : Bytes → String) (code : Int)
    {as : List (Native.Action τ)} {s : Native.State τ}
    (h : run Native.step (Native.State.published code) as = some s) :
    ∃ p : LibraryPool τ,
      run libSusrv.step (LibraryPool.init τ)
        (trace Native.step (libraryActions text) (Native.State.published code) as) = some p ∧
      p.shared.host.su_session.isSome = s.su_session ∧
      p.shared.commands.reverse = s.written.filterMap (Chunk.command text) ∧
      p.shared.results = s.hist.results.map Native.Result.value ∧
      ∀ t, p.threads t = left text (s.calls t) := by
  obtain ⟨p, hrun, hm, -⟩ := (simulates_libSusrv text).run
    ⟨mirrors_init text code, Native.deleting_published code⟩ h
  exact ⟨p, hrun, hm.bound, hm.commands, hm.results, hm.threads⟩

/-- A command that ends with status 3, the end of the shell, and a second call. -/
def commandThenDeath : List (Native.Action Unit) :=
  [[.invoke () (.exec (ascii "id"))], List.replicate 9 (.caller () .ok),
    [.shell .take, .shell (.finish 3)], List.replicate 3 (.shell .take),
    List.replicate 4 (.handler .ok), [.handler (.wake (some (.caller ())))],
    List.replicate 3 (.caller () .ok),
    [.shell .die, .shell .closePeer], List.replicate 6 (.handler .ok),
    [.handler (.waitpid .pid), .handler .ok, .handler .ok],
    [.invoke () (.exec (ascii "id")), .caller () .ok]].flatten

theorem session_refines_libSusrv_commandThenDeath :
    ∃ p : LibraryPool Unit,
      run libSusrv.step (LibraryPool.init Unit)
        (trace Native.step (libraryActions fun _ => "id") (Native.State.published 0)
          commandThenDeath) = some p ∧
      p.shared.host.su_session.isSome = false ∧ p.shared.results = [3] := by
  have hend : ((run Native.step (Native.State.published 0) commandThenDeath).map
      fun s => (s.su_session, s.hist.results.map Native.Result.value)) = some (false, [3]) := by
    decide +kernel
  obtain ⟨s, hs, heq⟩ := Option.map_eq_some_iff.mp hend
  obtain ⟨p, hrun, hbound, -, hresults, -⟩ := session_refines_libSusrv (fun _ => "id") 0 hs
  rw [Prod.mk.injEq] at heq
  exact ⟨p, hrun, hbound.trans heq.1, hresults.trans heq.2⟩

end Susrv.Java
