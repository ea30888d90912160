import Susrv.Java.Assets

/-!
# What `importAsset` and `cpa` report

The copy itself is exact for every chunking.  What goes wrong are the numbers:
`iBytes` starts at -1 and is taken for an error while it is not positive
(`importAsset_exact_iff`), and the 0 that stands for an unknown asset is the exit
code of a successful command (`cpa_correct_iff`).
-/

namespace Susrv.Java

open Base.CString Base.Threads

/-! ## The copy -/

@[simp] theorem take_readInto (buf : Bytes) (chunk : Chunk) :
    (readInto buf chunk).take chunk.bytes.length = chunk.bytes := by
  rw [readInto, List.take_left]

theorem toInt32_add (i : Int) (n : Nat) : toInt32 (toInt32 i + n) = toInt32 (i + n) :=
  Int.bmod_add_bmod

/-- Without an exception everything delivered is written, and counted as an `int`. -/
theorem copyLoop_eq {write : Nat → Option Nat} (hwrite : ∀ n, write n = none) (n : Nat)
    (chunks : List Chunk) (buf content : Bytes) (i : Int) :
    copyLoop write n chunks buf content (toInt32 i) =
      ⟨content ++ delivered chunks, some (toInt32 (i + (delivered chunks).length))⟩ := by
  induction chunks generalizing n buf content i with
  | nil => simp [copyLoop, delivered]
  | cons chunk chunks ih =>
      have hlen : (delivered (chunk :: chunks)).length =
          chunk.bytes.length + (delivered chunks).length := by
        simp [delivered]
      have hcount : i + (chunk.bytes.length : Int) + ((delivered chunks).length : Int) =
          i + ((delivered (chunk :: chunks)).length : Int) := by
        rw [hlen]
        push_cast
        omega
      simp only [copyLoop, hwrite n, take_readInto, toInt32_add]
      rw [ih, hcount, List.append_assoc]
      simp [delivered]

/-- Whenever the loop ends by itself, everything delivered has been written. -/
theorem copyLoop_content {write : Nat → Option Nat} {n : Nat} {chunks : List Chunk}
    {buf content : Bytes} {i m : Int}
    (h : (copyLoop write n chunks buf content i).iBytes = some m) :
    (copyLoop write n chunks buf content i).content = content ++ delivered chunks := by
  induction chunks generalizing n buf content i with
  | nil => simp [copyLoop, delivered]
  | cons chunk chunks ih =>
      simp only [copyLoop] at h ⊢
      cases hwrite : write n with
      | some written => simp [hwrite] at h
      | none =>
          simp only [hwrite, take_readInto] at h ⊢
          rw [ih h, List.append_assoc]
          simp [delivered]

theorem InputStream.delivered_eq (is : InputStream) (h : is.fails = false) :
    delivered is.chunks = is.content := by
  have hexact := is.exact
  rw [h] at hexact
  simpa using hexact

/-- A positive result means that the file is the asset. -/
theorem content_of_copyAsset_pos {env : ImportEnv} {files : Files} {privateFile : String}
    {is : InputStream} {isExec : Bool}
    (h : 0 < (copyAsset env files privateFile is isExec).2) :
    ((copyAsset env files privateFile is isExec).1 privateFile).map File.content =
      some is.content := by
  have hfail : ¬ 0 < importResult (-1) := by decide
  unfold copyAsset at h ⊢
  by_cases hopen : env.newFileOutputStream = true
  · simp only [hopen, Bool.not_true, Bool.false_eq_true, if_false] at h ⊢
    cases hcopied : (copyLoop env.write 0 is.chunks (List.replicate BUF_SIZE 0) [] (-1)).iBytes with
    | none =>
        simp only [hcopied] at h
        exact absurd h hfail
    | some iBytes =>
        simp only [hcopied] at h ⊢
        split at h
        · rename_i hok
          simp only [Bool.and_eq_true, Bool.not_eq_true'] at hok
          obtain ⟨⟨hread, hclose⟩, hclose'⟩ := hok
          simp only [hread, hclose, hclose', Bool.not_false, Bool.true_and, if_true,
            Function.update_self, Option.map_some]
          rw [copyLoop_content hcopied, List.nil_append, is.delivered_eq hread]
        · exact absurd h hfail
  · simp only [hopen, Bool.not_false, if_true] at h
    exact absurd h hfail

/-! ## `importAsset` -/

section Import

variable {this : SuShell} {env : ImportEnv} {files : Files} {rawAsset dirPath filename : String}
  {isExec : Bool} {is : InputStream}

/-- No call of an import throws. -/
structure NoException (env : ImportEnv) (is : InputStream) : Prop where
  newFileOutputStream : env.newFileOutputStream = true
  write : ∀ n, env.write n = none
  read : is.fails = false
  close_is : env.close_is = true
  close_os : env.close_os = true

theorem copyAsset_of_noException (h : NoException env is) (files : Files) (privateFile : String)
    (isExec : Bool) :
    ((copyAsset env files privateFile is isExec).1 privateFile).map File.content =
        some is.content ∧
      (copyAsset env files privateFile is isExec).2 =
        importResult (toInt32 (-1 + is.content.length)) := by
  have hloop := copyLoop_eq h.write 0 is.chunks (List.replicate BUF_SIZE 0) [] (-1)
  have hstart : toInt32 (-1) = -1 := by decide
  rw [hstart, is.delivered_eq h.read, List.nil_append] at hloop
  simp [copyAsset, h.newFileOutputStream, h.read, h.close_is, h.close_os, hloop]

/-- The destination file is the asset and the result its length. -/
def ImportsExactly (this : SuShell) (env : ImportEnv) (files : Files)
    (rawAsset dirPath filename : String) (isExec : Bool) (content : Bytes) : Prop :=
  ((this.importAsset env files rawAsset dirPath filename isExec).1
      (this.privatePath dirPath filename)).map File.content = some content ∧
    (this.importAsset env files rawAsset dirPath filename isExec).2 = content.length

theorem importAsset_of_asset (hasset : 0 ≤ getRawAssetId env.classes rawAsset)
    (hopen : env.openRawResource (getRawAssetId env.classes rawAsset) = some is) :
    this.importAsset env files rawAsset dirPath filename isExec =
      copyAsset env files (this.privatePath dirPath filename) is isExec := by
  have hknown : ¬ getRawAssetId env.classes rawAsset < 0 := by omega
  simp only [SuShell.importAsset, hknown, if_false, hopen]

/-- `iBytes` ends at the length less one, so an import of one byte is reported as an error. -/
theorem importResult_eq_iff {n : Nat} (hpos : 1 ≤ n) (hlt : n < 2 ^ 31) :
    importResult (toInt32 (-1 + n)) = n ↔ n ≠ 1 := by
  have hrange : InIntRange (-1 + n) := by constructor <;> omega
  have hrange' : InIntRange (-1 + n + 1) := by constructor <;> omega
  rw [toInt32_of_inIntRange hrange, importResult, toInt32_of_inIntRange hrange']
  split <;> omega

/-- Every import without an exception is exact but that of a single byte. -/
theorem importAsset_exact_iff (this : SuShell) (files : Files) (dirPath filename : String)
    (isExec : Bool) (hasset : 0 ≤ getRawAssetId env.classes rawAsset)
    (hopen : env.openRawResource (getRawAssetId env.classes rawAsset) = some is)
    (hexc : NoException env is) (hpos : 1 ≤ is.content.length)
    (hlt : is.content.length < 2 ^ 31) :
    ImportsExactly this env files rawAsset dirPath filename isExec is.content ↔
      is.content.length ≠ 1 := by
  obtain ⟨hcontent, hresult⟩ :=
    copyAsset_of_noException hexc files (this.privatePath dirPath filename) isExec
  rw [ImportsExactly, importAsset_of_asset hasset hopen, hresult]
  rw [← importResult_eq_iff hpos hlt]
  exact and_iff_right hcontent

/-- A resource that is read in chunks of two bytes at most. -/
def streamOf (first : UInt8) (rest : Option UInt8) : InputStream where
  content := first :: rest.toList
  chunks := [⟨first :: rest.toList, by simp, by cases rest <;> simp [BUF_SIZE]⟩]
  fails := false
  exact := by simp [delivered]

/-- The application has the resource `asset`, and nothing throws. -/
def importing (is : InputStream) : ImportEnv where
  classes := some [⟨"id", fun _ => none⟩,
    ⟨"raw", fun name => if name = "asset" then some (some 2131099648) else none⟩]
  openRawResource id := if id = 2131099648 then some is else none
  newFileOutputStream := true
  write _ := none
  close_is := true
  close_os := true
  setExecutable := true

theorem importAsset_exact_two_bytes :
    ImportsExactly ⟨0, "/data"⟩ (importing (streamOf 35 (some 33))) (fun _ => none)
      "asset" "bin" "tool" true [35, 33] :=
  have hasset : 0 ≤ getRawAssetId (importing (streamOf 35 (some 33))).classes "asset" := by decide
  (importAsset_exact_iff ⟨0, "/data"⟩ (fun _ => none) "bin" "tool" true hasset rfl
    ⟨rfl, fun _ => rfl, rfl, rfl, rfl⟩ (by decide) (by decide)).mpr (by decide)

/-- One byte is imported, but reported as an error. -/
theorem not_importAsset_exact_one_byte :
    ¬ ∀ (this : SuShell) (env : ImportEnv) (files : Files) (rawAsset dirPath filename : String)
      (isExec : Bool) (is : InputStream), 0 ≤ getRawAssetId env.classes rawAsset →
      env.openRawResource (getRawAssetId env.classes rawAsset) = some is → NoException env is →
      1 ≤ is.content.length → is.content.length < 2 ^ 31 →
      ImportsExactly this env files rawAsset dirPath filename isExec is.content := by
  intro h
  have hone := h ⟨0, "/data"⟩ (importing (streamOf 35 none)) (fun _ => none) "asset" "bin" "tool"
    true (streamOf 35 none) (by decide) rfl ⟨rfl, fun _ => rfl, rfl, rfl, rfl⟩ (by decide)
    (by decide)
  exact absurd hone.2 (by decide)

end Import

/-! ## Commands -/

/-- The commands that the operations of a call have written, each with what
`su_srv_exec` returned for it. -/
def exitCodes : (cmd : Option String) → List ((o : Op) × o.Result) → List (String × Int)
  | _, [] => []
  | _, ⟨.execWrite cmd, _⟩ :: answers => exitCodes (some cmd) answers
  | some cmd, ⟨.execEnd, rval⟩ :: answers => (cmd, rval) :: exitCodes none answers
  | cmd, _ :: answers => exitCodes cmd answers

/-- The answers are those of the commands `exits`, whatever comes after them. -/
def ExitsWith (answers : List ((o : Op) × o.Result)) (exits : List (String × Int)) : Prop :=
  ∀ rest, exitCodes none (answers ++ rest) = exits ++ exitCodes none rest

/-- At most the command `cmd` is written, and the call returns 0 exactly when it exits with 0. -/
def Reports (cmd : String) (answers : List ((o : Op) × o.Result)) (result : Except Thrown Int) :
    Prop :=
  ∃ exits, ExitsWith answers exits ∧ (∀ e ∈ exits, e.1 = cmd) ∧
    (result = .ok 0 ↔ (cmd, 0) ∈ exits)

section Commands

variable {answers answers' : List ((o : Op) × o.Result)} {exits exits' : List (String × Int)}
  {result : Except Thrown Int} {cmd : String}

theorem ExitsWith.append (h : ExitsWith answers exits) (h' : ExitsWith answers' exits') :
    ExitsWith (answers ++ answers') (exits ++ exits') := by
  intro rest
  rw [List.append_assoc, h, h', List.append_assoc]

theorem ExitsWith.exitCodes_eq (h : ExitsWith answers exits) : exitCodes none answers = exits := by
  have hall := h []
  rw [List.append_nil] at hall
  rw [hall, exitCodes, List.append_nil]

/-- `LibSusrv.exec` always returns; without writing the command it returns an error. -/
theorem libSusrv_exec_yields (h : Code.Yields (LibSusrv.exec cmd) answers result) :
    ∃ rval exits, result = .ok rval ∧ ExitsWith answers exits ∧
      ((exits = [] ∧ rval ≠ 0) ∨ exits = [(cmd, rval)]) := by
  rcases LibSusrv.exec_cases h with ⟨rfl, rfl⟩ | ⟨_, -, rfl, rfl⟩ | ⟨rval, rfl, rfl⟩
  · exact ⟨_, [], rfl, fun _ => rfl, .inl ⟨rfl, by decide⟩⟩
  · exact ⟨_, [], rfl, fun _ => rfl, .inl ⟨rfl, by decide⟩⟩
  · exact ⟨rval, [(cmd, rval)], rfl, fun _ => rfl, .inr rfl⟩

/-- The test for an invalidated session after a command. -/
theorem checked_yields {rval : Int} (next : Unit → Method Int)
    (h : Code.Yields (if rval = LibSusrv.NO_SESSION_ERR then
      SuShell.invalidatedSessionError >>= next else next ()) answers result) :
    (rval ≠ 0 ∧ ExitsWith answers [] ∧ ∃ e, result = .error e) ∨
      Code.Yields (next ()) answers result := by
  rcases SuShell.checked_cases next h with ⟨hno, rfl, rfl⟩ | ⟨-, h⟩
  · have hne : rval ≠ 0 := by
      rw [hno]
      decide
    exact .inl ⟨hne, fun _ => rfl, _, rfl⟩
  · exact .inr h

theorem not_ok_of_error {e : Thrown} (h : result = .error e) : result ≠ .ok 0 := by
  rw [h]
  intro heq
  cases heq

/-- A command whose result is checked and then returned. -/
theorem checked_exec_reports
    (h : Code.Yields (LibSusrv.exec cmd >>= fun rval =>
      if rval = LibSusrv.NO_SESSION_ERR then
        SuShell.invalidatedSessionError >>= fun _ => Pure.pure rval
      else Pure.pure rval) answers result) : Reports cmd answers result := by
  rcases h.bind with ⟨e, hexec, -⟩ | ⟨rval, first, rest, rfl, hexec, h⟩
  · obtain ⟨_, _, hok, -⟩ := libSusrv_exec_yields hexec
    cases hok
  · obtain ⟨_, exits, hok, hexits, hcase⟩ := libSusrv_exec_yields hexec
    cases hok
    have hmem : rval = 0 ↔ (cmd, 0) ∈ exits := by
      rcases hcase with ⟨rfl, hne⟩ | rfl
      · simpa using hne
      · simp [eq_comm]
    have hcmd : ∀ e ∈ exits, e.1 = cmd := by
      rcases hcase with ⟨rfl, -⟩ | rfl
      · simp
      · simp
    rcases checked_yields (fun _ => Pure.pure rval) h with ⟨hne, hrest, e, he⟩ | h
    · refine ⟨exits ++ [], hexits.append hrest, by simpa using hcmd, ?_⟩
      rw [List.append_nil, ← hmem]
      exact iff_of_false (not_ok_of_error he) hne
    · obtain ⟨rfl, rfl⟩ := Code.Yields.pure_iff.mp h
      refine ⟨exits, ?_, hcmd, ?_⟩
      · rw [List.append_nil]
        exact hexits
      · rw [← hmem, Except.ok.injEq]

theorem chmod_reports {this : SuShell} {path : String} {mode : Int}
    (h : Code.Yields (this.chmod path mode) answers result) :
    Reports ("chmod " ++ octal mode ++ " " ++ path) answers result :=
  checked_exec_reports h

theorem exec_reports {this : SuShell} (h : Code.Yields (this.exec cmd) answers result) :
    Reports cmd answers result :=
  checked_exec_reports h

/-- `cp` returns 0 exactly when its commands exit with 0. -/
theorem cp_yields {this : SuShell} {sourcePath destinationPath : String} {mode : Int}
    (h : Code.Yields (this.cp sourcePath destinationPath mode) answers result) :
    result = .ok 0 ↔
      ("cp " ++ sourcePath ++ " " ++ destinationPath, 0) ∈ exitCodes none answers ∧
        (0 < mode →
          ("chmod " ++ octal mode ++ " " ++ destinationPath, 0) ∈ exitCodes none answers) := by
  have hdiffer : "cp " ++ sourcePath ++ " " ++ destinationPath ≠
      "chmod " ++ octal mode ++ " " ++ destinationPath := by
    intro heq
    have hsecond := congrArg (fun text : String => text.toList[1]?) heq
    simp at hsecond
  generalize hcp : "cp " ++ sourcePath ++ " " ++ destinationPath = cpText at hdiffer ⊢
  generalize hchmod : "chmod " ++ octal mode ++ " " ++ destinationPath = chmodText at hdiffer ⊢
  unfold SuShell.cp at h
  rw [hcp] at h
  rcases Code.Yields.bind h with ⟨e, hexec, he⟩ | ⟨rval, first, rest, rfl, hexec, h⟩
  · obtain ⟨exits, hexits, -, hreport⟩ := exec_reports hexec
    rw [hexits.exitCodes_eq, ← hreport]
    exact iff_of_false (not_ok_of_error he) fun hboth => not_ok_of_error rfl hboth.1
  · obtain ⟨exits, hexits, hcmd, hreport⟩ := exec_reports hexec
    rw [Except.ok.injEq] at hreport
    rcases checked_yields _ h with ⟨hne, hrest, e, he⟩ | h
    · rw [(hexits.append hrest).exitCodes_eq, List.append_nil, ← hreport]
      exact iff_of_false (not_ok_of_error he) fun hboth => hne hboth.1
    · rcases Code.Yields.ite h with ⟨⟨hzero, hmode⟩, hrest⟩ | ⟨hnot, hrest⟩
      · obtain ⟨exits', hexits', -, hreport'⟩ := chmod_reports hrest
        rw [hchmod] at hreport'
        have hother : (chmodText, 0) ∉ exits := fun hin => hdiffer (hcmd _ hin).symm
        rw [(hexits.append hexits').exitCodes_eq, hreport', List.mem_append, List.mem_append]
        simp [hreport.mp hzero, hother, hmode]
      · obtain ⟨rfl, rfl⟩ := Code.Yields.pure_iff.mp hrest
        rw [List.append_nil, hexits.exitCodes_eq, ← hreport, Except.ok.injEq]
        constructor
        · intro hzero
          exact ⟨hzero, fun hmode => absurd ⟨hzero, hmode⟩ hnot⟩
        · exact And.left

end Commands

/-! ## `cpa` -/

section Cpa

variable {this : SuShell} {env : ImportEnv} {files : Files} {rawAsset destinationPath : String}
  {mode : Int}

theorem privatePath_tmp (this : SuShell) (filename : String) :
    this.privatePath "tmp" filename = this.getTmp ++ "/" ++ filename := by
  have htmp : this.mPfsRoot ++ "/" ++ "tmp" = this.mPfsRoot ++ "/tmp" := String.append_assoc
  rw [SuShell.privatePath, SuShell.getTmp, htmp]

/-- `cp` reads its source from here. -/
def tmpFilePath (this : SuShell) (rawAsset : String) : String :=
  this.getTmp ++ "/" ++ (rawAsset ++ ".tmp")

/-- The asset exists and the temporary file holds its bytes. -/
def Imported (this : SuShell) (env : ImportEnv) (files : Files) (rawAsset destinationPath : String)
    (mode : Int) : Prop :=
  0 ≤ getRawAssetId env.classes rawAsset ∧
    ∃ is, env.openRawResource (getRawAssetId env.classes rawAsset) = some is ∧
      ((this.cpa env files rawAsset destinationPath mode).1 (tmpFilePath this rawAsset)).map
        File.content = some is.content

/-- The result 0 means that the asset was imported and all commands exited with 0. -/
def CpaCorrect (this : SuShell) (env : ImportEnv) (files : Files)
    (rawAsset destinationPath : String) (mode : Int) (answers : List ((o : Op) × o.Result))
    (result : Except Thrown Int) : Prop :=
  result = .ok 0 ↔
    Imported this env files rawAsset destinationPath mode ∧
      ("cp " ++ tmpFilePath this rawAsset ++ " " ++ destinationPath, 0) ∈ exitCodes none answers ∧
      (0 < mode →
        ("chmod " ++ octal mode ++ " " ++ destinationPath, 0) ∈ exitCodes none answers)

theorem copyLoop_inIntRange {write : Nat → Option Nat} {n : Nat} {chunks : List Chunk}
    {buf content : Bytes} {i m : Int} (hi : InIntRange i)
    (h : (copyLoop write n chunks buf content i).iBytes = some m) : InIntRange m := by
  induction chunks generalizing n buf content i with
  | nil =>
      rw [← Option.some.inj h]
      exact hi
  | cons chunk chunks ih =>
      simp only [copyLoop] at h
      cases hwrite : write n with
      | some written => simp [hwrite] at h
      | none =>
          simp only [hwrite] at h
          exact ih (inIntRange_toInt32 _) h

/-- The counter of an import never makes its result 0. -/
theorem importResult_ne_zero {iBytes : Int} (h : InIntRange iBytes) : importResult iBytes ≠ 0 := by
  have hbmod := Int.bmod_def (iBytes + 1) (2 ^ 32)
  rw [importResult, toInt32]
  obtain ⟨hlow, hhigh⟩ := h
  split
  · split at hbmod <;> omega
  · omega

theorem copyAsset_ne_zero (env : ImportEnv) (files : Files) (privateFile : String)
    (is : InputStream) (isExec : Bool) :
    (copyAsset env files privateFile is isExec).2 ≠ 0 := by
  have hfail : importResult (-1) ≠ 0 := by decide
  unfold copyAsset
  split
  · exact hfail
  · dsimp only
    split
    · rename_i iBytes hcopied
      split
      · exact importResult_ne_zero (copyLoop_inIntRange (by decide) hcopied)
      · exact hfail
    · exact hfail

theorem cpa_files :
    (this.cpa env files rawAsset destinationPath mode).1 =
      (this.importTmp env files rawAsset (rawAsset ++ ".tmp")).1 := rfl

/-- After an import the rest of `cpa` is `cp`, and otherwise nothing. -/
theorem cpa_code :
    (this.cpa env files rawAsset destinationPath mode).2 =
      if 0 < (this.importTmp env files rawAsset (rawAsset ++ ".tmp")).2 then
        this.cp (tmpFilePath this rawAsset) destinationPath mode
      else return (this.importTmp env files rawAsset (rawAsset ++ ".tmp")).2 := rfl

theorem importTmp_of_unknown (hasset : getRawAssetId env.classes rawAsset < 0)
    (filename : String) : this.importTmp env files rawAsset filename = (files, 0) := by
  simp only [SuShell.importTmp, SuShell.importAsset, hasset, if_true]

/-- An asset that exists is imported, or an error is reported. -/
theorem importTmp_of_asset (this : SuShell) (files : Files) (destinationPath : String) (mode : Int)
    (hasset : 0 ≤ getRawAssetId env.classes rawAsset) :
    (this.importTmp env files rawAsset (rawAsset ++ ".tmp")).2 ≠ 0 ∧
      (0 < (this.importTmp env files rawAsset (rawAsset ++ ".tmp")).2 →
        Imported this env files rawAsset destinationPath mode) := by
  cases hopen : env.openRawResource (getRawAssetId env.classes rawAsset) with
  | none =>
      have hknown : ¬ getRawAssetId env.classes rawAsset < 0 := by omega
      have herror : (this.importTmp env files rawAsset (rawAsset ++ ".tmp")).2 = -1 := by
        simp only [SuShell.importTmp, SuShell.importAsset, hknown, if_false, hopen]
        decide
      rw [herror]
      exact ⟨by decide, fun hpos => absurd hpos (by decide)⟩
  | some is =>
      have himport : this.importTmp env files rawAsset (rawAsset ++ ".tmp") =
          copyAsset env files (tmpFilePath this rawAsset) is false := by
        rw [SuShell.importTmp, importAsset_of_asset hasset hopen, privatePath_tmp, tmpFilePath]
      rw [himport]
      refine ⟨copyAsset_ne_zero env files _ is false, fun hpos => ⟨hasset, is, hopen, ?_⟩⟩
      rw [cpa_files, himport]
      exact content_of_copyAsset_pos hpos

/-- The result of `cpa` is to be trusted exactly when the asset is defined. -/
theorem cpa_correct_iff {answers : List ((o : Op) × o.Result)} {result : Except Thrown Int}
    (h : Code.Yields (this.cpa env files rawAsset destinationPath mode).2 answers result) :
    CpaCorrect this env files rawAsset destinationPath mode answers result ↔
      0 ≤ getRawAssetId env.classes rawAsset := by
  rw [cpa_code] at h
  constructor
  · intro hcorrect
    by_contra hunknown
    have hneg : getRawAssetId env.classes rawAsset < 0 := by omega
    rw [importTmp_of_unknown hneg, if_neg (Int.lt_irrefl 0)] at h
    obtain ⟨-, hresult⟩ := Code.Yields.pure_iff.mp h
    exact hunknown (hcorrect.mp hresult).1.1
  · intro hasset
    obtain ⟨hne, himported⟩ := importTmp_of_asset this files destinationPath mode hasset
    rcases Code.Yields.ite h with ⟨hpos, hcp⟩ | ⟨hnot, hrest⟩
    · rw [CpaCorrect, and_iff_right (himported hpos)]
      exact cp_yields hcp
    · obtain ⟨rfl, rfl⟩ := Code.Yields.pure_iff.mp hrest
      rw [CpaCorrect, Except.ok.injEq]
      refine iff_of_false hne ?_
      rintro ⟨-, hcp, -⟩
      simp [exitCodes] at hcp

/-- `cpa("asset", "/sbin/tool", 0)` while `cp` exits with 0. -/
theorem cpa_correct_two_bytes :
    CpaCorrect ⟨0, "/data"⟩ (importing (streamOf 35 (some 33))) (fun _ => none) "asset"
      "/sbin/tool" 0
      [⟨.execTest, true⟩, ⟨.execLock, (0 : Int)⟩,
        ⟨.execWrite "cp /data/tmp/asset.tmp /sbin/tool", ()⟩, ⟨.execEnd, (0 : Int)⟩]
      (.ok 0) := by
  refine (cpa_correct_iff ?_).mpr (by decide)
  have hpos : 0 < ((⟨0, "/data"⟩ : SuShell).importTmp (importing (streamOf 35 (some 33)))
      (fun _ => none) "asset" ("asset" ++ ".tmp")).2 := by decide
  rw [cpa_code, if_pos hpos]
  exact .op (.op (.op (.op (.pure 0))))

/-- An asset that is not defined counts as copied. -/
theorem not_cpa_correct_unknown_asset :
    ¬ ∀ (this : SuShell) (env : ImportEnv) (files : Files) (rawAsset destinationPath : String)
      (mode : Int) (answers : List ((o : Op) × o.Result)) (result : Except Thrown Int),
      Code.Yields (this.cpa env files rawAsset destinationPath mode).2 answers result →
      CpaCorrect this env files rawAsset destinationPath mode answers result := by
  intro h
  have hmissing := h ⟨0, "/data"⟩ (importing (streamOf 35 none)) (fun _ => none) "missing"
    "/sbin/tool" 493 [] (.ok 0) (.pure 0)
  have himported := (hmissing.mp rfl).1.1
  exact absurd himported (by decide)

end Cpa

end Susrv.Java
