import Susrv.Base.PosixShell
import Susrv.Java.SuShell

/-!
# Paths in command texts

`mkdir`, `chmod` and `cd` put the path into the command text as it is, and the
shell reads the text as its own language.  The path arrives as the operand that it
was meant to be exactly when it is `Plain`, and where no operand stands before it
does not look like an option (`paths_reach_iff`).
-/

namespace Susrv.Java

open Base.Threads Base.PosixShell

/-! ## What a call makes the shell run -/

def writtenText : (o : Op) × o.Result → Option String
  | ⟨.execWrite cmd, _⟩ => some cmd
  | _ => none

/-- The command texts that the operations of a call have written, in order. -/
def written (answers : List ((o : Op) × o.Result)) : List String :=
  answers.filterMap writtenText

/-- What the shell makes of a command text and of the newline that `su_srv_exec`
writes behind it, if that is one utility. -/
def shellRuns (env : Env) (cmd : String) : Option Invocation :=
  reads env (cmd.toList ++ [newline])

/-- In every environment the shell runs these utilities, or the first ones of them
if the call ends earlier. -/
def Runs (method : Method Int) (commands : List Invocation) : Prop :=
  ∀ env answers result, Code.Yields method answers result →
    (written answers).map (shellRuns env) <+: commands.map some

def mkdirCommand (path : String) : Invocation :=
  ⟨"mkdir".toList, ["-p".toList], [path.toList]⟩

def chmodCommand (path : String) (mode : Int) : Invocation :=
  ⟨"chmod".toList, [], [(octal mode).toList, path.toList]⟩

def cdCommand (path : String) : Invocation := ⟨"cd".toList, [], [path.toList]⟩

/-! ## The texts that are written -/

section Written

variable {answers answers' : List ((o : Op) × o.Result)} {result : Except Thrown Int}
  {cmd : String}

@[simp] theorem written_append :
    written (answers ++ answers') = written answers ++ written answers' :=
  List.filterMap_append

/-- Without writing the command `LibSusrv.exec` returns a negative error. -/
theorem libSusrv_exec_written (h : Code.Yields (LibSusrv.exec cmd) answers result) :
    ∃ rval, result = .ok rval ∧
      (written answers = [cmd] ∨ (written answers = [] ∧ rval < 0)) := by
  rcases LibSusrv.exec_cases h with ⟨rfl, rfl⟩ | ⟨_, -, rfl, rfl⟩ | ⟨rval, rfl, rfl⟩
  · exact ⟨_, rfl, .inr ⟨rfl, by decide⟩⟩
  · exact ⟨_, rfl, .inr ⟨rfl, by decide⟩⟩
  · exact ⟨rval, rfl, .inl rfl⟩

/-- The test for an invalidated session writes nothing. -/
theorem checked_written {rval : Int} (next : Unit → Method Int)
    (h : Code.Yields (if rval = LibSusrv.NO_SESSION_ERR then
      SuShell.invalidatedSessionError >>= next else next ()) answers result) :
    (written answers = [] ∧ ∃ e, result = .error e) ∨
      Code.Yields (next ()) answers result := by
  rcases SuShell.checked_cases next h with ⟨-, rfl, rfl⟩ | ⟨-, h⟩
  · exact .inl ⟨rfl, _, rfl⟩
  · exact .inr h

/-- The text is written, or the call ends with an error. -/
theorem exec_written {this : SuShell} (h : Code.Yields (this.exec cmd) answers result) :
    written answers = [cmd] ∨ (written answers = [] ∧ ∀ rval, result = .ok rval → rval < 0) := by
  unfold SuShell.exec at h
  rcases h.bind with ⟨e, hexec, -⟩ | ⟨rval, first, rest, rfl, hexec, h⟩
  · obtain ⟨_, hok, -⟩ := libSusrv_exec_written hexec
    cases hok
  · obtain ⟨_, hok, hfirst⟩ := libSusrv_exec_written hexec
    cases hok
    have hrest : written rest = [] ∧ ∀ n, result = .ok n → n = rval := by
      rcases checked_written (fun _ => Pure.pure rval) h with ⟨hnone, e, he⟩ | h
      · refine ⟨hnone, fun n hn => ?_⟩
        rw [he] at hn
        cases hn
      · obtain ⟨rfl, hresult⟩ := Code.Yields.pure_iff.mp h
        exact ⟨rfl, fun n hn => Except.ok.inj (hn.symm.trans hresult)⟩
    rw [written_append, hrest.1, List.append_nil]
    refine hfirst.imp_right fun hnone => ⟨hnone.1, fun n hn => ?_⟩
    rw [hrest.2 n hn]
    exact hnone.2

theorem exec_written_only {this : SuShell} (h : Code.Yields (this.exec cmd) answers result) :
    written answers <+: [cmd] := by
  rcases exec_written h with hwritten | ⟨hwritten, -⟩
  · exact hwritten ▸ List.prefix_refl [cmd]
  · exact hwritten ▸ List.nil_prefix

theorem chmod_written {this : SuShell} {path : String} {mode : Int}
    (h : Code.Yields (this.chmod path mode) answers result) :
    written answers <+: ["chmod " ++ octal mode ++ " " ++ path] := by
  have hexec : Code.Yields (this.exec ("chmod " ++ octal mode ++ " " ++ path)) answers result := h
  exact exec_written_only hexec

theorem cd_written {this : SuShell} {path : String}
    (h : Code.Yields (this.cd path) answers result) : written answers <+: ["cd " ++ path] := by
  unfold SuShell.cd at h
  rcases h.bind with ⟨e, hexec, -⟩ | ⟨rval, first, rest, rfl, hexec, h⟩
  · exact exec_written_only hexec
  · have hrest : written rest = [] := by
      rcases checked_written (fun _ => Pure.pure rval) h with ⟨hnone, -⟩ | h
      · exact hnone
      · obtain ⟨rfl, -⟩ := Code.Yields.pure_iff.mp h
        rfl
    rw [written_append, hrest, List.append_nil]
    exact exec_written_only hexec

/-- `chmod` is only reached behind a `mkdir` that has been written. -/
theorem mkdir_written {this : SuShell} {path : String} {mode : Int}
    (h : Code.Yields (this.mkdir path mode) answers result) :
    written answers <+: ["mkdir -p " ++ path, "chmod " ++ octal mode ++ " " ++ path] := by
  unfold SuShell.mkdir at h
  rcases h.bind with ⟨e, hexec, -⟩ | ⟨rval, first, rest, rfl, hexec, h⟩
  · exact (exec_written_only hexec).trans (List.prefix_append _ _)
  · have hrest : written rest <+: ["chmod " ++ octal mode ++ " " ++ path] ∧
        (rval < 0 → written rest = []) := by
      rcases checked_written (fun _ =>
          if (rval = 0 ∨ rval = ERRNO_EEXIST) ∧ 0 < mode then this.chmod path mode
          else Pure.pure rval) h with ⟨hnone, -⟩ | h
      · rw [hnone]
        exact ⟨List.nil_prefix, fun _ => rfl⟩
      · rcases Code.Yields.ite h with ⟨⟨hdone, -⟩, h⟩ | ⟨-, h⟩
        · refine ⟨chmod_written h, fun hneg => ?_⟩
          rw [ERRNO_EEXIST] at hdone
          omega
        · obtain ⟨rfl, -⟩ := Code.Yields.pure_iff.mp h
          exact ⟨List.nil_prefix, fun _ => rfl⟩
    rw [written_append]
    rcases exec_written hexec with hfirst | ⟨hfirst, hneg⟩
    · rw [hfirst, List.singleton_append, List.prefix_cons_iff]
      exact .inr ⟨_, rfl, hrest.1⟩
    · rw [hfirst, hrest.2 (hneg rval rfl)]
      exact List.nil_prefix

end Written

/-! ## The exact condition -/

/-- The argument is not empty, has no character that quoting, an operator, an expansion or a
pattern begins with, and does not look like an option. -/
def PlainOperand (path : String) : Prop := Plain path.toList ∧ isOption path.toList = false

theorem isDigit_of_mem_octal {n : Int} {c : Char} (hc : c ∈ (octal n).toList) :
    c.isDigit = true := by
  rw [octal, String.toList_ofList] at hc
  exact Nat.isDigit_of_mem_toDigits (by omega) (by omega) hc

theorem plain_octal (n : Int) : Plain (octal n).toList := by
  apply plain_of_digits
  · rw [octal, String.toList_ofList]
    exact Nat.toDigits_ne_nil
  · intro c hc
    exact isDigit_of_mem_octal hc

theorem isOption_octal (n : Int) : isOption (octal n).toList = false := by
  have hdash : (octal n).toList.head? ≠ some '-' := by
    intro hhead
    exact absurd (isDigit_of_mem_octal (List.mem_of_mem_head? hhead)) (by decide)
  simp [isOption, hdash]

/-! ## What the shell reads -/

theorem shellRuns_mkdir_iff (path : String) :
    (∀ env, shellRuns env ("mkdir -p " ++ path) = some (mkdirCommand path)) ↔
      PlainOperand path := by
  have hmkdir : Plain "mkdir".toList := plain_of_all (by decide) (by decide)
  have hp : Plain "-p".toList := plain_of_all (by decide) (by decide)
  have hline : ∀ env, shellRuns env ("mkdir -p " ++ path) =
      reads env (commandLine ["mkdir".toList, "-p".toList] path.toList) := by
    intro env
    simp [shellRuns, commandLine]
  have hargs : ∀ t ∈ ["mkdir".toList, "-p".toList], Plain t :=
    List.forall_mem_cons.mpr ⟨hmkdir, List.forall_mem_singleton.mpr hp⟩
  simp only [hline]
  rw [reads_iff hargs rfl, PlainOperand, ← arguments_singleton_iff, Prod.ext_iff]
  apply and_congr_right'
  simp [invocation, arguments, isOption, mkdirCommand]

theorem shellRuns_chmod_iff (path : String) (mode : Int) :
    (∀ env, shellRuns env ("chmod " ++ octal mode ++ " " ++ path) =
      some (chmodCommand path mode)) ↔ Plain path.toList := by
  have hchmod : Plain "chmod".toList := plain_of_all (by decide) (by decide)
  have hline : ∀ env, shellRuns env ("chmod " ++ octal mode ++ " " ++ path) =
      reads env (commandLine ["chmod".toList, (octal mode).toList] path.toList) := by
    intro env
    simp [shellRuns, commandLine]
  have hargs : ∀ t ∈ ["chmod".toList, (octal mode).toList], Plain t :=
    List.forall_mem_cons.mpr ⟨hchmod, List.forall_mem_singleton.mpr (plain_octal mode)⟩
  simp only [hline]
  rw [reads_iff hargs rfl]
  apply and_iff_left
  -- the mode is an operand, so everything behind it is one
  have hend : (octal mode).toList ≠ ['-', '-'] := by
    intro heq
    have hoption := isOption_octal mode
    rw [heq] at hoption
    cases hoption
  simp only [List.cons_append, List.nil_append, invocation, arguments,
    hend, isOption_octal, if_false, Bool.false_eq_true, chmodCommand]

theorem shellRuns_cd_iff (path : String) :
    (∀ env, shellRuns env ("cd " ++ path) = some (cdCommand path)) ↔ PlainOperand path := by
  have hcd : Plain "cd".toList := plain_of_all (by decide) (by decide)
  have hline : ∀ env, shellRuns env ("cd " ++ path) =
      reads env (commandLine ["cd".toList] path.toList) := by
    intro env
    simp [shellRuns, commandLine]
  simp only [hline]
  rw [reads_iff (List.forall_mem_singleton.mpr hcd) rfl, PlainOperand, ← arguments_singleton_iff,
    Prod.ext_iff]
  apply and_congr_right'
  simp [invocation, cdCommand]

/-- A command that is written and ends with an error. -/
def failingExec (cmd : String) : List ((o : Op) × o.Result) :=
  [⟨.execTest, true⟩, ⟨.execLock, (0 : Int)⟩, ⟨.execWrite cmd, ()⟩, ⟨.execEnd, (1 : Int)⟩]

theorem written_failingExec (cmd : String) : written (failingExec cmd) = [cmd] := rfl

theorem exec_writes (this : SuShell) (cmd : String) :
    ∃ answers result, Code.Yields (this.exec cmd) answers result ∧ written answers = [cmd] :=
  ⟨failingExec cmd, .ok 1, .op (.op (.op (.op (.pure 1)))), written_failingExec cmd⟩

theorem mkdir_writes (this : SuShell) (path : String) (mode : Int) :
    ∃ answers result, Code.Yields (this.mkdir path mode) answers result ∧
      written answers = ["mkdir -p " ++ path] :=
  ⟨failingExec _, .ok 1, .op (.op (.op (.op (.pure 1)))), written_failingExec _⟩

theorem cd_writes (this : SuShell) (path : String) :
    ∃ answers result, Code.Yields (this.cd path) answers result ∧
      written answers = ["cd " ++ path] :=
  ⟨failingExec _, .ok 1, .op (.op (.op (.op (.pure 1)))), written_failingExec _⟩

/-- The first text of a call that writes is read as the first of its commands. -/
theorem Runs.shellRuns {method : Method Int} {command : Invocation} {commands : List Invocation}
    {cmd : String} (h : Runs method (command :: commands))
    (hwrites : ∃ answers result, Code.Yields method answers result ∧ written answers = [cmd])
    (env : Env) : shellRuns env cmd = some command := by
  obtain ⟨answers, result, hyields, hwritten⟩ := hwrites
  have hpre := h env answers result hyields
  rw [hwritten, List.map_cons, List.map_cons, List.cons_prefix_cons] at hpre
  exact hpre.1

/-- A call that writes some of these texts runs what the shell reads them as. -/
theorem runs_of_written {method : Method Int} {texts : List String} {commands : List Invocation}
    (hwritten : ∀ answers result, Code.Yields method answers result → written answers <+: texts)
    (hreads : ∀ env, texts.map (shellRuns env) = commands.map some) : Runs method commands := by
  intro env answers result hyields
  rw [← hreads env]
  exact (hwritten answers result hyields).map (shellRuns env)

/-- Each of the three calls runs the commands it is meant to, with the path as the last
operand, exactly if nothing in the path means something to the shell. -/
theorem paths_reach_iff (this : SuShell) (path : String) (mode : Int) :
    (Runs (this.chmod path mode) [chmodCommand path mode] ↔ Plain path.toList) ∧
    (Runs (this.mkdir path mode) [mkdirCommand path, chmodCommand path mode] ↔
      PlainOperand path) ∧
    (Runs (this.cd path) [cdCommand path] ↔ PlainOperand path) := by
  refine ⟨⟨fun h => ?_, fun hplain => ?_⟩, ⟨fun h => ?_, fun hplain => ?_⟩,
    ⟨fun h => ?_, fun hplain => ?_⟩⟩
  · rw [← shellRuns_chmod_iff path mode]
    exact h.shellRuns (exec_writes this _)
  · apply runs_of_written fun _ _ => chmod_written
    intro env
    rw [List.map_singleton, (shellRuns_chmod_iff path mode).mpr hplain env]
    rfl
  · rw [← shellRuns_mkdir_iff]
    exact h.shellRuns (mkdir_writes this path mode)
  · apply runs_of_written fun _ _ => mkdir_written
    intro env
    rw [List.map_cons, List.map_singleton, (shellRuns_mkdir_iff path).mpr hplain env,
      (shellRuns_chmod_iff path mode).mpr hplain.1 env]
    rfl
  · rw [← shellRuns_cd_iff]
    exact h.shellRuns (cd_writes this path)
  · apply runs_of_written fun _ _ => cd_written
    intro env
    rw [List.map_singleton, (shellRuns_cd_iff path).mpr hplain env]
    rfl

/-- A directory named `x;reboot`: the shell changes the mode of `x`, and reboots. -/
theorem not_paths_reach_semicolon :
    ¬ ∀ (this : SuShell) (path : String) (mode : Int), Char.ofNat 0 ∉ path.toList → path ≠ "" →
      0 < mode →
      Runs (this.chmod path mode) [chmodCommand path mode] ∧
        Runs (this.mkdir path mode) [mkdirCommand path, chmodCommand path mode] ∧
        Runs (this.cd path) [cdCommand path] := by
  intro h
  obtain ⟨hchmod, -, -⟩ := h ⟨0, "/data"⟩ "x;reboot" 493 (by decide +kernel) (by decide)
    (by decide)
  have hread := hchmod.shellRuns (exec_writes ⟨0, "/data"⟩ _) bare
  exact absurd hread (by decide +kernel)

end Susrv.Java
