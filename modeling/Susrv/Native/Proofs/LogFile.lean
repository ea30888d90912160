import Mathlib.Algebra.Order.BigOperators.Group.List
import Susrv.Native.Proofs.LineSplitting
import Susrv.Native.Proofs.Noninterference

/-!
# What the log file gets of the output

Only complete lines without the tag are logged, each as far as `strlen` sees it.
`logged_transcript_iff` says for which commands that is all they printed.
-/

namespace Susrv.Native

open Base.CString

/-- The bytes `session_handler_fn` writes to the log file while it reads `bs`. -/
def Terminal.log (abi : Abi) (t : Terminal) (bs : Bytes) : Option Bytes :=
  (t.run abi (bs.map .byte)).map fun read => logged read.2

/-! ## Lists of pieces -/

theorem length_flatMap_le {α β : Type*} {f g : α → List β} {xs : List α}
    (h : ∀ x ∈ xs, (f x).length ≤ (g x).length) :
    (xs.flatMap f).length ≤ (xs.flatMap g).length := by
  rw [List.length_flatMap, List.length_flatMap]
  exact List.sum_le_sum h

/-- Pieces that never outgrow others have the same concatenation only when they
are the same pieces. -/
theorem flatMap_eq_flatMap_iff {α β : Type*} {f g : α → List β} {xs : List α}
    (h : ∀ x ∈ xs, (f x).length ≤ (g x).length) :
    xs.flatMap f = xs.flatMap g ↔ ∀ x ∈ xs, f x = g x := by
  refine ⟨?_, List.flatMap_congr⟩
  induction xs with
  | nil => simp
  | cons x xs ih =>
      intro heq
      have hrest : ∀ y ∈ xs, (f y).length ≤ (g y).length := fun y hy => h y (by simp [hy])
      have hsum : (xs.flatMap f).length ≤ (xs.flatMap g).length := length_flatMap_le hrest
      rw [List.flatMap_cons, List.flatMap_cons] at heq
      have hlen : (f x).length = (g x).length := by
        have hle : (f x).length ≤ (g x).length := h x (by simp)
        have htotal := congrArg List.length heq
        rw [List.length_append, List.length_append] at htotal
        omega
      obtain ⟨hx, hxs⟩ := List.append_inj heq hlen
      intro y hy
      rcases List.mem_cons.mp hy with rfl | hy
      · exact hx
      · exact ih hrest hxs y hy

/-! ## One line -/

theorem logged_performed (line : Bytes) :
    logged (performed true line) = if EOC_TAG <:+: line then [] else line := by
  split
  · rename_i htag
    rw [performed_of_tagged true htag]
    cases sscanf EOC_TAG line <;> rfl
  · rename_i htag
    rw [performed_of_untagged true htag]
    simp [logged]

theorem length_cstr_le (bs : Bytes) : (cstr bs).length ≤ bs.length :=
  (cstr_isPrefix bs).length_le

theorem length_flatMap_cstr_le (lines : List Bytes) :
    (lines.flatMap cstr).length ≤ lines.flatten.length := by
  rw [← List.flatMap_id]
  exact length_flatMap_le fun line _ => length_cstr_le line

theorem cstr_eq_self_iff {bs : Bytes} : cstr bs = bs ↔ 0 ∉ bs := by
  refine ⟨fun h hnul => ?_, cstr_eq_self⟩
  rw [cstr, List.takeWhile_eq_self_iff] at h
  simpa using h 0 hnul

/-- What is logged of a line of output. -/
theorem logged_output_line {line : Bytes} (h : ¬ EOC_TAG <:+: line) :
    logged (performed true (cstr line)) = cstr line := by
  rw [logged_performed, if_neg]
  intro hin
  exact h (hin.trans (cstr_isPrefix line).isInfix)

/-- Of an unfinished line glued to an end-of-command line, less than the unfinished
line itself is logged. -/
theorem length_logged_glued {t : Bytes} (htag : ¬ EOC_TAG <:+: t) (hne : t ≠ []) (n : Nat) :
    (logged (performed true (cstr (t ++ eocLine n)))).length < t.length := by
  by_cases hnul : 0 ∈ t
  · rw [cstr_append_of_mem hnul, logged_output_line htag]
    apply lt_of_le_of_ne (length_cstr_le t)
    intro hlen
    exact cstr_eq_self_iff.mp ((cstr_isPrefix t).eq_of_length hlen) hnul
  · have hwhole : cstr (t ++ eocLine n) = t ++ eocLine n := by
      apply cstr_eq_self
      simp [hnul, nul_not_mem_eocLine n]
    rw [hwhole, logged_performed, if_pos (tag_infix_append_eocLine t n), List.length_nil]
    exact List.length_pos_iff.mpr hne

theorem logged_eocLine (n : Nat) : logged (performed true (cstr (eocLine n))) = [] := by
  rw [cstr_eq_self (nul_not_mem_eocLine n), logged_performed, if_pos]
  simpa using tag_infix_append_eocLine [] n

/-! ## One command -/

/-- What is logged of a command. -/
def loggedOf (c : Executed) : Bytes :=
  (splitLines LF [] (c.output ++ eocLine c.status)).1.flatMap fun line =>
    logged (performed true (cstr line))

/-- The lines of the output, and the unfinished line in front of the tag. -/
theorem splitLines_output (out : Bytes) (n : Nat) :
    splitLines LF [] (out ++ eocLine n) =
      ((splitLines LF [] out).1 ++ [(splitLines LF [] out).2 ++ eocLine n], []) := by
  have hbody : LF ∉ EOC_TAG ++ decimal n := by
    have hLF : LF ∉ EOC_TAG := by decide
    simp [hLF, LF_not_mem_decimal]
  rw [splitLines_append, eocLine, splitLines_line hbody]
  simp

variable {c : Executed}

theorem loggedOf_eq (htag : ¬ EOC_TAG <:+: c.output) :
    loggedOf c = (splitLines LF [] c.output).1.flatMap cstr ++
      logged (performed true (cstr ((splitLines LF [] c.output).2 ++ eocLine c.status))) := by
  rw [loggedOf, splitLines_output, List.flatMap_append, List.flatMap_singleton]
  congr 1
  apply List.flatMap_congr
  intro line hline
  apply logged_output_line
  intro hin
  have hline : line <:+: [] ++ c.output := infix_of_mem_splitLines hline
  exact htag (hin.trans hline)

/-- Of the unfinished line nothing more than itself is logged, and it is logged
only when it is empty. -/
theorem logged_rest (htag : ¬ EOC_TAG <:+: c.output) :
    (logged (performed true (cstr ((splitLines LF [] c.output).2 ++ eocLine c.status)))).length ≤
        (splitLines LF [] c.output).2.length ∧
      (logged (performed true (cstr ((splitLines LF [] c.output).2 ++ eocLine c.status))) =
        (splitLines LF [] c.output).2 ↔ (splitLines LF [] c.output).2 = []) := by
  have hrest : ¬ EOC_TAG <:+: (splitLines LF [] c.output).2 := by
    intro hin
    have hsuffix : (splitLines LF [] c.output).2 <:+ c.output :=
      ⟨_, splitLines_flatten LF [] c.output⟩
    exact htag (hin.trans hsuffix.isInfix)
  by_cases hempty : (splitLines LF [] c.output).2 = []
  · simp [hempty, logged_eocLine]
  · have hlt := length_logged_glued hrest hempty c.status
    refine ⟨by omega, fun heq => ?_, fun h => absurd h hempty⟩
    rw [heq] at hlt
    omega

theorem length_loggedOf_le (htag : ¬ EOC_TAG <:+: c.output) :
    (loggedOf c).length ≤ c.output.length := by
  have hsplit := congrArg List.length (splitLines_flatten LF [] c.output)
  have hlines := length_flatMap_cstr_le (splitLines LF [] c.output).1
  have hrest := (logged_rest htag).1
  rw [loggedOf_eq htag, List.length_append]
  rw [List.length_append, List.nil_append] at hsplit
  omega

theorem WholeLines_iff_lines (out : Bytes) :
    WholeLines out ↔
      (∀ line ∈ (splitLines LF [] out).1, 0 ∉ line) ∧ (splitLines LF [] out).2 = [] := by
  have hsplit := splitLines_flatten LF [] out
  rw [WholeLines, ← splitLines_rest_eq_nil_iff LF out, and_comm]
  refine and_congr_left fun hrest => ?_
  rw [hrest, List.append_nil, List.nil_append] at hsplit
  have hmem : 0 ∈ out ↔ ∃ line ∈ (splitLines LF [] out).1, 0 ∈ line := by
    rw [← List.mem_flatten, hsplit]
  rw [hmem]
  simp

/-- A command is logged in full exactly when it prints whole lines. -/
theorem loggedOf_eq_output_iff (htag : ¬ EOC_TAG <:+: c.output) :
    loggedOf c = c.output ↔ WholeLines c.output := by
  have hcstr : (splitLines LF [] c.output).1.flatMap cstr =
      (splitLines LF [] c.output).1.flatten ↔
        ∀ line ∈ (splitLines LF [] c.output).1, 0 ∉ line := by
    have hle : ∀ line ∈ (splitLines LF [] c.output).1, (cstr line).length ≤ (id line).length :=
      fun line _ => length_cstr_le line
    rw [← List.flatMap_id, flatMap_eq_flatMap_iff hle]
    simp only [id_eq, cstr_eq_self_iff]
  obtain ⟨hle, hrest⟩ := logged_rest htag
  rw [WholeLines_iff_lines, ← hcstr, ← hrest, loggedOf_eq htag]
  constructor
  · intro heq
    have hlines := length_flatMap_cstr_le (splitLines LF [] c.output).1
    have hsplit := splitLines_flatten LF [] c.output
    rw [List.nil_append] at hsplit
    have heq' := heq.trans hsplit.symm
    have htotal := congrArg List.length heq'
    rw [List.length_append, List.length_append] at htotal
    exact List.append_inj heq' (by omega)
  · intro h
    obtain ⟨hlines, htail⟩ := h
    rw [hlines, htail, splitLines_flatten, List.nil_append]

/-! ## A session -/

theorem stream_byte (bs : Bytes) : stream (bs.map .byte) = bs := by
  simp [stream, List.filterMap_map]

/-- Without calls of `su_srv_set_tty_echo` every line finds the echo of the start. -/
theorem completeLines_byte (cur : Bytes) (echo : Bool) (bs : Bytes) :
    completeLines cur echo (bs.map .byte) = (splitLines LF cur bs).1.map (echo, ·) := by
  induction bs generalizing cur with
  | nil => rfl
  | cons b bs ih =>
      simp only [List.map_cons, completeLines, splitLines]
      split
      · rename_i hb
        rw [List.map_cons, ih, hb]
      · exact ih _

theorem splitLines_transcript (cmds : List Executed) :
    splitLines LF [] (transcript cmds) =
      (cmds.flatMap fun c => (splitLines LF [] (c.output ++ eocLine c.status)).1, []) := by
  induction cmds with
  | nil => rfl
  | cons c cmds ih =>
      have hend : (splitLines LF [] (c.output ++ eocLine c.status)).2 = [] := by
        rw [splitLines_output]
      rw [transcript, List.flatMap_cons, splitLines_append, hend, ← transcript, ih,
        List.flatMap_cons]

theorem Terminal.log_transcript (abi : Abi) {r : Reader} (hr : r.Holds [])
    {cmds : List Executed} (hfit : linesFit 0 (transcript cmds) = true) :
    (Terminal.mk r true).log abi (transcript cmds) = some (cmds.flatMap loggedOf) := by
  rw [← stream_byte (transcript cmds)] at hfit
  obtain ⟨t, hrun⟩ := Terminal.run_eq abi true hr hfit
  rw [Terminal.log, hrun, Option.map_some, performedAll, completeLines_byte, splitLines_transcript]
  simp only [logged, List.flatMap_map, List.flatMap_assoc]
  rfl

/-- The log holds what the commands printed exactly when they all print whole lines
(and no line overflows `curr_line_offset`). -/
theorem logged_transcript_iff {abi : Abi} {r : Reader} (hr : r.Holds []) {cmds : List Executed}
    (htag : ∀ c ∈ cmds, ¬ EOC_TAG <:+: c.output) :
    (Terminal.mk r true).log abi (transcript cmds) = some (cmds.flatMap Executed.output) ↔
      linesFit 0 (transcript cmds) = true ∧ ∀ c ∈ cmds, WholeLines c.output := by
  cases hfit : linesFit 0 (transcript cmds) with
  | false =>
      have hrun : (Terminal.mk r true).run abi ((transcript cmds).map .byte) = none := by
        apply Terminal.run_overflow hr
        rw [stream_byte]
        exact hfit
      simp [Terminal.log, hrun]
  | true =>
      have hlog := Terminal.log_transcript abi hr hfit
      have hpieces := flatMap_eq_flatMap_iff fun c hc => length_loggedOf_le (htag c hc)
      rw [hlog, Option.some.injEq, hpieces]
      have hwhole : (∀ c ∈ cmds, loggedOf c = c.output) ↔ ∀ c ∈ cmds, WholeLines c.output :=
        forall₂_congr fun c hc => loggedOf_eq_output_iff (htag c hc)
      rw [hwhole]
      simp

/-- Two `ls` and a silent command. -/
theorem logged_transcript_whole_lines :
    (Terminal.mk Reader.init true).log .lp64
        (transcript [⟨ascii "bin\netc\n", 0⟩, ⟨[], 1⟩, ⟨ascii "sbin\n", 0⟩]) =
      some (ascii "bin\netc\nsbin\n") :=
  (logged_transcript_iff Reader.init_holds (by decide)).mpr ⟨by decide, by decide⟩

/-- Of `printf foo` nothing is logged. -/
theorem not_logged_transcript_printf :
    ¬ ∀ (abi : Abi) (r : Reader) (cmds : List Executed), r.Holds [] →
      (∀ c ∈ cmds, ¬ EOC_TAG <:+: c.output) →
      (Terminal.mk r true).log abi (transcript cmds) = some (cmds.flatMap Executed.output) := by
  intro h
  have hfoo := h .lp64 Reader.init [⟨ascii "foo", 0⟩] Reader.init_holds (by decide)
  exact absurd hfoo (by decide)

end Susrv.Native
