import Susrv.Native.Proofs.Framing

/-!
# What the output of a command can do to results

The end-of-command line travels in the same stream as the output of the
commands.  `session_handler_fn` takes every line with `EOC_TAG` in it for the end
of a command, unless nothing but white space follows the tag.
`codesAgree_iff` compares two runs that differ in their output alone.
-/

namespace Susrv.Native

open Base.CString

/-- A command the shell has run: what it printed, and `$?`. -/
structure Executed where
  output : Bytes
  status : Nat
  deriving DecidableEq

/-- The bytes the shell sends for commands, each followed by its `EOC_CMD`. -/
def transcript (cmds : List Executed) : Bytes :=
  cmds.flatMap fun c => c.output ++ eocLine c.status

/-- `shell_cmd_exit_code` at each completion signal raised while a stream is read. -/
def Reader.codes (abi : Abi) (r : Reader) (cell : Int) (bs : Bytes) : Option (List Int) :=
  (r.readBytes abi bs).map fun read => signalled cell read.2.flatten

/-- The output consists of finished lines without a NUL. -/
def WholeLines (out : Bytes) : Prop := (out = [] ∨ out.getLast? = some LF) ∧ 0 ∉ out

instance (out : Bytes) : Decidable (WholeLines out) := inferInstanceAs (Decidable (_ ∧ _))

/-- The commands end with an exit status and print whole lines. -/
def WellFormed (cmds : List Executed) : Prop := ∀ c ∈ cmds, c.status ≤ 255 ∧ WholeLines c.output

instance (cmds : List Executed) : Decidable (WellFormed cmds) :=
  inferInstanceAs (Decidable (∀ c ∈ cmds, _))

/-- The two runs signal the same codes, one for each command. -/
def CodesAgree (abi : Abi) (r : Reader) (cell : Int) (run₁ run₂ : List Executed) : Prop :=
  ∃ codes, codes.length = run₁.length ∧
    r.codes abi cell (transcript run₁) = some codes ∧
    r.codes abi cell (transcript run₂) = some codes

/-- A line of output that the handler does not take for the end of a command. -/
def Inert (line : Bytes) : Prop :=
  EOC_TAG <:+: line → ∃ ws, line = EOC_TAG ++ ws ∧ ∀ b ∈ ws, isSpace b = true

/-- No line of the output overflows `curr_line_offset` or looks like the end of a command. -/
def Unobtrusive (out : Bytes) : Prop :=
  linesFit 0 out = true ∧ ∀ line ∈ (splitLines LF [] out).1, Inert line

/-! ## One line of output -/

theorem lineEffects_of_inert {line : Bytes} (h : Inert line) : Quiet (lineEffects line) := by
  by_cases htag : EOC_TAG <:+: line
  · have hscan : sscanf EOC_TAG line = .eof := (sscanf_eof_iff htag.length_le).mpr (h htag)
    simp [lineEffects, htag, hscan, Quiet]
  · simp [lineEffects, htag, Quiet]

theorem signal_mem_of_not_inert {line : Bytes} (h : ¬ Inert line) :
    Effect.signal ∈ lineEffects line := by
  rw [Inert, Classical.not_imp] at h
  obtain ⟨htag, hscan⟩ := h
  rw [← sscanf_eof_iff htag.length_le] at hscan
  rw [lineEffects, if_pos (strstr_iff.mpr htag)]
  cases hs : sscanf EOC_TAG line with
  | eof => exact absurd hs hscan
  | mismatch => simp
  | value n => simp

/-! ## One command -/

variable {out : Bytes} {n : Nat}

theorem WholeLines.rest_eq_nil (h : WholeLines out) : (splitLines LF [] out).2 = [] :=
  (splitLines_rest_eq_nil_iff LF out).mpr h.1

theorem WholeLines.cstr_line (h : WholeLines out) {line : Bytes}
    (hline : line ∈ (splitLines LF [] out).1) : cstr line = line := by
  apply cstr_eq_self
  intro hnul
  have hin : line <:+: [] ++ out := infix_of_mem_splitLines hline
  exact h.2 (hin.subset hnul)

/-- The effects of output made of whole lines. -/
def outputEffects (out : Bytes) : List Effect :=
  (splitLines LF [] out).1.flatMap lineEffects

theorem WholeLines.flatten_assemble (h : WholeLines out) :
    (assemble [] out).flatten = outputEffects out := by
  rw [Native.flatten_assemble, outputEffects]
  apply List.flatMap_congr
  intro line hline
  rw [h.cstr_line hline]

theorem quiet_outputEffects (h : ∀ line ∈ (splitLines LF [] out).1, Inert line) :
    Quiet (outputEffects out) := by
  intro e he
  obtain ⟨line, hline, he⟩ := List.mem_flatMap.mp he
  exact lineEffects_of_inert (h line hline) e he

theorem count_signal_outputEffects_eq_zero_iff :
    (outputEffects out).count .signal = 0 ↔ ∀ line ∈ (splitLines LF [] out).1, Inert line := by
  refine ⟨fun h line hline => ?_, fun h => (quiet_outputEffects h).count_signal⟩
  by_contra hno
  rw [List.count_eq_zero] at h
  exact h (List.mem_flatMap.mpr ⟨line, hline, signal_mem_of_not_inert hno⟩)

theorem length_eocLine_le (hn : n ≤ 255) : (eocLine n).length ≤ 16 := by
  have htag : EOC_TAG.length = 12 := by decide
  have hdigits : (decimal n).length ≤ 3 := (length_decimal_le_iff (by omega)).mpr (by omega)
  simp only [eocLine, List.length_append, List.length_singleton]
  omega

/-- Behind whole lines the end-of-command line stands at a line start. -/
theorem WholeLines.framed (h : WholeLines out) (n : Nat) :
    splitLines LF [] (out ++ eocLine n) = ((splitLines LF [] out).1 ++ [eocLine n], []) := by
  rw [splitLines_append, h.rest_eq_nil, splitLines_eocLine]

theorem WholeLines.framed_effects (h : WholeLines out) (hn : n ≤ 255) :
    (assemble [] (out ++ eocLine n)).flatten = outputEffects out ++ [.exitCode n, .signal] := by
  rw [assemble_append, List.flatten_append, h.flatten_assemble, h.rest_eq_nil,
    Native.flatten_assemble, splitLines_eocLine, List.flatMap_singleton,
    cstr_eq_self (nul_not_mem_eocLine n), lineEffects_eocLine hn]

theorem WholeLines.linesFit_framed (h : WholeLines out) (hn : n ≤ 255) :
    linesFit 0 (out ++ eocLine n) = linesFit 0 out := by
  have hline : linesFit 0 (eocLine n) = true := by
    apply linesFit_of_length
    have hlen := length_eocLine_le hn
    simp only [INT_MAX]
    omega
  have happend := linesFit_append [] out (eocLine n)
  rw [h.rest_eq_nil, List.length_nil, hline, Bool.and_true] at happend
  exact happend

/-! ## A sequence of commands -/

variable {abi : Abi} {r : Reader} {cell : Int} {cmds : List Executed}


theorem transcript_cons (c : Executed) (cmds : List Executed) :
    transcript (c :: cmds) = c.output ++ eocLine c.status ++ transcript cmds := by
  simp [transcript]

theorem transcript_effects (h : WellFormed cmds) :
    (assemble [] (transcript cmds)).flatten =
      cmds.flatMap fun c => outputEffects c.output ++ [.exitCode c.status, .signal] := by
  induction cmds with
  | nil => rfl
  | cons c cmds ih =>
      obtain ⟨hstatus, hwhole⟩ := h c (by simp)
      rw [transcript_cons, assemble_append, List.flatten_append, hwhole.framed_effects hstatus,
        hwhole.framed, ih fun d hd => h d (by simp [hd]), List.flatMap_cons]

theorem linesFit_transcript (h : WellFormed cmds) :
    linesFit 0 (transcript cmds) = true ↔ ∀ c ∈ cmds, linesFit 0 c.output = true := by
  induction cmds with
  | nil => simp [transcript, linesFit]
  | cons c cmds ih =>
      obtain ⟨hstatus, hwhole⟩ := h c (by simp)
      have happend := linesFit_append [] (c.output ++ eocLine c.status) (transcript cmds)
      rw [hwhole.framed, List.length_nil, hwhole.linesFit_framed hstatus] at happend
      rw [transcript_cons, happend, Bool.and_eq_true, ih fun d hd => h d (by simp [hd]),
        List.forall_mem_cons]

/-- There is one signal for each command and one for each line that is taken for an end. -/
theorem count_signal_transcript (cmds : List Executed) :
    (cmds.flatMap fun c => outputEffects c.output ++ [Effect.exitCode c.status, .signal]).count
        .signal =
      (cmds.map fun c => (outputEffects c.output).count .signal).sum + cmds.length := by
  induction cmds with
  | nil => rfl
  | cons c cmds ih =>
      rw [List.flatMap_cons, List.count_append, ih, List.count_append, List.map_cons,
        List.sum_cons, List.length_cons]
      have hend : [Effect.exitCode c.status, .signal].count .signal = 1 := by simp
      omega

/-- If no output has an effect on the cell, the codes are the exit statuses. -/
theorem signalled_transcript (h : ∀ c ∈ cmds, Quiet (outputEffects c.output)) (cell : Int) :
    signalled cell
        (cmds.flatMap fun c => outputEffects c.output ++ [.exitCode c.status, .signal]) =
      cmds.map fun c => (c.status : Int) := by
  induction cmds generalizing cell with
  | nil => rfl
  | cons c cmds ih =>
      have hquiet := h c (by simp)
      rw [List.flatMap_cons, List.append_assoc, signalled_append, hquiet.signalled,
        hquiet.cellAfter, List.nil_append, List.cons_append, List.cons_append, List.nil_append,
        signalled, signalled, ih fun d hd => h d (by simp [hd]), List.map_cons]

/-- What a run of commands has the handler signal. -/
theorem codes_transcript (hr : r.Holds []) (h : WellFormed cmds) :
    r.codes abi cell (transcript cmds) =
      if linesFit 0 (transcript cmds) = true then
        some (signalled cell
          (cmds.flatMap fun c => outputEffects c.output ++ [.exitCode c.status, .signal]))
      else none := by
  split
  · rename_i hfit
    obtain ⟨r', hread, -⟩ := Reader.readBytes_eq abi (transcript cmds) hr hfit
    rw [Reader.codes, hread, Option.map_some, transcript_effects h]
  · rename_i hfit
    rw [Reader.codes, Reader.readBytes_overflow _ hr (by simpa using hfit), Option.map_none]

/-- One signal for each command is exactly what unobtrusive output allows. -/
theorem codes_length_iff (hr : r.Holds []) (h : WellFormed cmds) :
    (∃ codes, codes.length = cmds.length ∧ r.codes abi cell (transcript cmds) = some codes) ↔
      ∀ c ∈ cmds, Unobtrusive c.output := by
  rw [codes_transcript hr h]
  constructor
  · rintro ⟨codes, hlen, hcodes⟩ c hc
    split at hcodes
    · rename_i hfit
      cases hcodes
      rw [length_signalled, count_signal_transcript] at hlen
      have hsum : (cmds.map fun c => (outputEffects c.output).count .signal).sum = 0 := by omega
      have hzero := List.sum_eq_zero_iff_forall_eq_nat.mp hsum _ (List.mem_map_of_mem hc)
      exact ⟨(linesFit_transcript h).mp hfit c hc,
        count_signal_outputEffects_eq_zero_iff.mp hzero⟩
    · cases hcodes
  · intro hall
    have hfit := (linesFit_transcript h).mpr fun c hc => (hall c hc).1
    have hquiet : ∀ c ∈ cmds, Quiet (outputEffects c.output) :=
      fun c hc => quiet_outputEffects (hall c hc).2
    rw [if_pos hfit, signalled_transcript hquiet]
    exact ⟨_, by simp, rfl⟩

/-- Unobtrusive output leaves the exit statuses as the only codes. -/
theorem codes_of_unobtrusive (hr : r.Holds []) (h : WellFormed cmds)
    (hall : ∀ c ∈ cmds, Unobtrusive c.output) :
    r.codes abi cell (transcript cmds) = some (cmds.map fun c => (c.status : Int)) := by
  have hfit := (linesFit_transcript h).mpr fun c hc => (hall c hc).1
  rw [codes_transcript hr h, if_pos hfit,
    signalled_transcript fun c hc => quiet_outputEffects (hall c hc).2]

/-! ## Two runs -/

theorem codesAgree_iff {run₁ run₂ : List Executed} (hr : r.Holds []) (h₁ : WellFormed run₁)
    (h₂ : WellFormed run₂) (hsame : run₁.map Executed.status = run₂.map Executed.status) :
    CodesAgree abi r cell run₁ run₂ ↔ ∀ c ∈ run₁ ++ run₂, Unobtrusive c.output := by
  have hlen : run₁.length = run₂.length := by
    have hmap := congrArg List.length hsame
    rwa [List.length_map, List.length_map] at hmap
  constructor
  · rintro ⟨codes, hcodes, hrun₁, hrun₂⟩ c hc
    rcases List.mem_append.mp hc with hc | hc
    · exact (codes_length_iff hr h₁).mp ⟨codes, hcodes, hrun₁⟩ c hc
    · exact (codes_length_iff hr h₂).mp ⟨codes, hcodes.trans hlen, hrun₂⟩ c hc
  · intro hall
    have hcast : run₁.map (fun c => (c.status : Int)) = run₂.map fun c => (c.status : Int) := by
      have hmap := congrArg (List.map Int.ofNat) hsame
      rwa [List.map_map, List.map_map] at hmap
    refine ⟨run₁.map fun c => (c.status : Int), by simp, ?_, ?_⟩
    · exact codes_of_unobtrusive hr h₁ fun c hc => hall c (List.mem_append_left _ hc)
    · rw [hcast]
      exact codes_of_unobtrusive hr h₂ fun c hc => hall c (List.mem_append_right _ hc)

/-- Two commands that succeed, the second run with a listing in between. -/
theorem codesAgree_listing :
    CodesAgree .lp64 .init SU_SRV_INVALID_RESULT_ERR [⟨[], 0⟩, ⟨[], 1⟩]
      [⟨ascii "etc\nsystem\n", 0⟩, ⟨[], 1⟩] := by
  have hlisting : Unobtrusive (ascii "etc\nsystem\n") := by
    refine ⟨by decide, fun line hline htag => ?_⟩
    have hfree : ¬ EOC_TAG <:+: ascii "etc\nsystem\n" := by decide
    exact absurd (htag.trans (infix_of_mem_splitLines hline)) hfree
  have hsilent : Unobtrusive [] := ⟨rfl, by simp⟩
  rw [codesAgree_iff Reader.init_holds (by decide) (by decide) (by decide)]
  simp [hlisting, hsilent]

/-- A command that prints the tag is signalled twice. -/
theorem not_codesAgree_tag :
    ¬ ∀ (abi : Abi) (r : Reader) (cell : Int) (run₁ run₂ : List Executed),
      r.Holds [] → WellFormed run₁ → WellFormed run₂ →
        run₁.map Executed.status = run₂.map Executed.status → CodesAgree abi r cell run₁ run₂ := by
  intro h
  obtain ⟨codes, hlen, -, hcodes⟩ := h .lp64 .init SU_SRV_INVALID_RESULT_ERR [⟨[], 0⟩]
    [⟨ascii "<SU_SRV_EOC>0\n", 0⟩] Reader.init_holds (by decide) (by decide) rfl
  have htwice : Reader.codes .lp64 .init SU_SRV_INVALID_RESULT_ERR
      (transcript [⟨ascii "<SU_SRV_EOC>0\n", 0⟩]) = some [0, 0] := by decide
  rw [htwice] at hcodes
  cases hcodes
  cases hlen

end Susrv.Native
