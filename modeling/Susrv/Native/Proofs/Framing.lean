import Susrv.Native.Handler

/-!
# Exit-code framing

`session_handler_fn` finds the end of a command by looking for `EOC_TAG`
anywhere in a line, but reads the exit code with a `sscanf` anchored at the
start of that line.  The two agree only when the command left the stream at a
line start; `roundTrip_iff` is the exact condition.
-/

namespace Susrv.Native

open Base.CString

/-! ## One iteration -/

theorem Reader.init_holds : Reader.init.Holds [] where
  offset := rfl
  content := List.nil_prefix
  size := by simp [Reader.init, malloc]

theorem Reader.grow_spec (abi : Abi) {r : Reader} {cur : Bytes} (h : r.Holds cur)
    (hfit : cur.length + 32 ≤ INT_MAX) :
    ∃ buf, r.grow abi = some buf ∧ StartsWith buf cur ∧
      cur.length + 1 < buf.length ∧ BUF_INITIAL_SIZE ≤ buf.length := by
  obtain ⟨hoff, hcontent, hsize⟩ := h
  unfold Reader.grow
  split
  · rw [hoff, if_pos hfit]
    refine ⟨_, rfl, hcontent.realloc (by omega), ?_, ?_⟩
    · rw [length_realloc]; omega
    · rw [length_realloc, BUF_INITIAL_SIZE]; omega
  · rename_i hsmall
    refine ⟨_, rfl, hcontent, ?_, hsize⟩
    have hptr : abi.sizeofPtr ≤ 8 := by cases abi <;> decide
    simp only [BUF_INITIAL_SIZE] at hsize
    omega

theorem Reader.grow_overflow {abi : Abi} {r : Reader} {cur : Bytes} (h : r.Holds cur)
    (hbig : INT_MAX < cur.length + 32) : r.grow abi = none := by
  have hptr : abi.sizeofPtr ≤ 8 := by cases abi <;> decide
  unfold Reader.grow
  rw [h.offset, if_pos (by simp only [INT_MAX] at hbig; omega), if_neg (by omega)]

/-- A byte that is not a line feed is appended to the unfinished line. -/
theorem Reader.readByte_of_ne (abi : Abi) {r : Reader} {cur : Bytes} {b : UInt8}
    (h : r.Holds cur) (hfit : cur.length + 32 ≤ INT_MAX) (hb : b ≠ LF) :
    ∃ r', r.readByte abi b = some (r', []) ∧ r'.Holds (cur ++ [b]) := by
  obtain ⟨buf, hgrow, hcontent, hlen, hsize⟩ := Reader.grow_spec abi h hfit
  refine ⟨⟨buf.set cur.length (some b), cur.length + 1⟩, ?_, ?_⟩
  · simp only [Reader.readByte, hgrow, h.offset,
      store_eq_some b (by omega : cur.length < buf.length),
      hb, if_false, Option.bind_eq_bind, Option.bind_some, pure]
  · exact ⟨by simp, hcontent.set b (by omega), by simpa using hsize⟩

/-- A line feed hands the finished line over and starts an empty one. -/
theorem Reader.readByte_LF (abi : Abi) {r : Reader} {cur : Bytes}
    (h : r.Holds cur) (hfit : cur.length + 32 ≤ INT_MAX) :
    ∃ r', r.readByte abi LF = some (r', lineEffects (cstr (cur ++ [LF]))) ∧ r'.Holds [] := by
  obtain ⟨buf, hgrow, hcontent, hlen, hsize⟩ := Reader.grow_spec abi h hfit
  let line := buf.set cur.length (some LF)
  let terminated := line.set (cur.length + 1) (some 0)
  have hline : StartsWith line (cur ++ [LF]) := hcontent.set LF (by omega)
  have hterm : StartsWith terminated (cur ++ [LF] ++ [0]) := by
    have hset := hline.set 0 (by simpa [line] using hlen)
    simpa [terminated] using hset
  refine ⟨⟨terminated, 0⟩, ?_, rfl, List.nil_prefix, by simpa [terminated, line] using hsize⟩
  simp only [Reader.readByte, hgrow, h.offset, Option.bind_eq_bind, Option.bind_some, if_true,
    store_eq_some LF (by omega : cur.length < buf.length)]
  change (store line (cur.length + 1) 0).bind _ = _
  rw [store_eq_some 0 (by simpa [line] using hlen)]
  change (loadString terminated).bind _ = _
  rw [loadString_of_startsWith hterm]
  rfl

/-! ## The loop -/

/-- As long as no line overflows, the loop assembles lines. -/
theorem Reader.readBytes_eq (abi : Abi) {r : Reader} {cur : Bytes} (bs : Bytes)
    (h : r.Holds cur) (hfit : linesFit cur.length bs = true) :
    ∃ r', r.readBytes abi bs = some (r', assemble cur bs) ∧
      r'.Holds (splitLines LF cur bs).2 := by
  induction bs generalizing r cur with
  | nil => exact ⟨r, rfl, h⟩
  | cons b bs ih =>
      simp only [linesFit, Bool.and_eq_true, decide_eq_true_eq] at hfit
      obtain ⟨hnow, hrest⟩ := hfit
      by_cases hb : b = LF
      · subst hb
        obtain ⟨r', hbyte, hr'⟩ := Reader.readByte_LF abi h hnow
        obtain ⟨r'', hbytes, hr''⟩ := ih hr' (by simpa using hrest)
        refine ⟨r'', ?_, by simpa [splitLines] using hr''⟩
        simp [Reader.readBytes, hbyte, hbytes, assemble]
      · obtain ⟨r', hbyte, hr'⟩ := Reader.readByte_of_ne abi h hnow hb
        obtain ⟨r'', hbytes, hr''⟩ := ih hr' (by simpa [hb] using hrest)
        refine ⟨r'', ?_, by simpa [splitLines, hb] using hr''⟩
        simp [Reader.readBytes, hbyte, hbytes, assemble, hb]

theorem Reader.readBytes_overflow {abi : Abi} {r : Reader} {cur : Bytes} (bs : Bytes)
    (h : r.Holds cur) (hfit : linesFit cur.length bs = false) :
    r.readBytes abi bs = none := by
  induction bs generalizing r cur with
  | nil => simp [linesFit] at hfit
  | cons b bs ih =>
      by_cases hnow : cur.length + 32 ≤ INT_MAX
      · simp only [linesFit, hnow, decide_true, Bool.true_and] at hfit
        by_cases hb : b = LF
        · subst hb
          obtain ⟨r', hbyte, hr'⟩ := Reader.readByte_LF abi h hnow
          simp [Reader.readBytes, hbyte, ih hr' (by simpa using hfit)]
        · obtain ⟨r', hbyte, hr'⟩ := Reader.readByte_of_ne abi h hnow hb
          simp [Reader.readBytes, hbyte, ih hr' (by simpa [hb] using hfit)]
      · simp [Reader.readBytes, Reader.readByte, Reader.grow_overflow h (by omega)]

theorem assemble_append (cur xs ys : Bytes) :
    assemble cur (xs ++ ys) = assemble cur xs ++ assemble (splitLines LF cur xs).2 ys := by
  induction xs generalizing cur with
  | nil => simp [assemble]
  | cons x xs ih =>
      simp only [List.cons_append, assemble, splitLines]
      split <;> simp [ih]

@[simp] theorem length_assemble (cur bs : Bytes) : (assemble cur bs).length = bs.length := by
  induction bs generalizing cur with
  | nil => rfl
  | cons b bs ih =>
      simp only [assemble]
      split <;> simp [ih]

/-- The effects of a stream are those of its finished lines, in order. -/
theorem flatten_assemble (cur bs : Bytes) :
    (assemble cur bs).flatten =
      (splitLines LF cur bs).1.flatMap fun line => lineEffects (cstr line) := by
  induction bs generalizing cur with
  | nil => rfl
  | cons b bs ih =>
      simp only [assemble, splitLines]
      split
      · rename_i hb
        simp [ih, hb]
      · simp [ih]

theorem linesFit_append (cur xs ys : Bytes) :
    linesFit cur.length (xs ++ ys) =
      (linesFit cur.length xs && linesFit (splitLines LF cur xs).2.length ys) := by
  induction xs generalizing cur with
  | nil => simp [linesFit]
  | cons x xs ih =>
      simp only [List.cons_append, linesFit, splitLines]
      split
      · rw [← List.length_nil, ih, Bool.and_assoc]
      · have hlen : cur.length + 1 = (cur ++ [x]).length := by simp
        rw [hlen, ih, Bool.and_assoc]

theorem linesFit_of_length {n : Nat} {bs : Bytes} (h : n + bs.length + 32 ≤ INT_MAX) :
    linesFit n bs = true := by
  induction bs generalizing n with
  | nil => rfl
  | cons b bs ih =>
      rw [List.length_cons] at h
      rw [linesFit, Bool.and_eq_true, decide_eq_true_eq]
      refine ⟨by omega, ih ?_⟩
      split <;> omega

/-! ## Signals -/

theorem completions_append (n : Nat) (cell : Int) (xs ys : List (List Effect)) :
    completions n cell (xs ++ ys) =
      completions n cell xs ++ completions (n + xs.length) (cellAfter cell xs.flatten) ys := by
  induction xs generalizing n cell with
  | nil => rfl
  | cons e xs ih =>
      have hcell : cellAfter cell (e ++ xs.flatten) = cellAfter (cellAfter cell e) xs.flatten := by
        induction e generalizing cell with
        | nil => rfl
        | cons a e ihe => cases a <;> simp [cellAfter, ihe]
      simp [completions, ih, hcell, Nat.add_assoc, Nat.add_comm 1]

theorem signalled_append (cell : Int) (xs ys : List Effect) :
    signalled cell (xs ++ ys) = signalled cell xs ++ signalled (cellAfter cell xs) ys := by
  induction xs generalizing cell with
  | nil => rfl
  | cons e xs ih => cases e <;> simp [signalled, cellAfter, ih]

theorem length_signalled (cell : Int) (effects : List Effect) :
    (signalled cell effects).length = effects.count .signal := by
  induction effects generalizing cell with
  | nil => rfl
  | cons e effects ih => cases e <;> simp [signalled, ih]

/-- Ordinary lines touch neither the cell nor the condition variable. -/
def Quiet (effects : List Effect) : Prop := ∀ e ∈ effects, ∃ text, e = .line text

theorem Quiet.cellAfter {effects : List Effect} (h : Quiet effects) (cell : Int) :
    cellAfter cell effects = cell := by
  induction effects with
  | nil => rfl
  | cons e effects ih =>
      obtain ⟨text, rfl⟩ := h e (by simp)
      exact ih fun a ha => h a (by simp [ha])

theorem Quiet.signalled {effects : List Effect} (h : Quiet effects) (cell : Int) :
    signalled cell effects = [] := by
  induction effects with
  | nil => rfl
  | cons e effects ih =>
      obtain ⟨text, rfl⟩ := h e (by simp)
      exact ih fun a ha => h a (by simp [ha])

theorem Quiet.count_signal {effects : List Effect} (h : Quiet effects) :
    effects.count .signal = 0 := by
  apply List.count_eq_zero.mpr
  intro hin
  obtain ⟨text, htext⟩ := h _ hin
  cases htext

theorem completions_quiet {effects : List (List Effect)} (h : Quiet effects.flatten)
    (n : Nat) (cell : Int) : completions n cell effects = [] := by
  induction effects generalizing n with
  | nil => rfl
  | cons e effects ih =>
      have he : Quiet e := fun a ha => h a (by simp [ha])
      have hrest : Quiet effects.flatten := fun a ha => h a (by
        rw [List.flatten_cons]; exact List.mem_append_right _ ha)
      simp [completions, he.signalled, he.cellAfter, ih hrest]

/-- A line without the tag is an ordinary line. -/
theorem lineEffects_of_untagged {line : Bytes} (h : ¬ EOC_TAG <:+: line) :
    lineEffects (cstr line) = [.line (cstr line)] := by
  have hcstr : strstr (cstr line) EOC_TAG = false := by
    rw [Bool.eq_false_iff, ne_eq, strstr_iff]
    exact fun hin => h (hin.trans (cstr_isPrefix line).isInfix)
  simp [lineEffects, hcstr]

theorem quiet_assemble {cur bs : Bytes} (h : ¬ EOC_TAG <:+: cur ++ bs) :
    Quiet (assemble cur bs).flatten := by
  rw [flatten_assemble]
  intro e he
  obtain ⟨line, hline, he⟩ := List.mem_flatMap.mp he
  have hfree : ¬ EOC_TAG <:+: line := fun hin => h (hin.trans (infix_of_mem_splitLines hline))
  rw [lineEffects_of_untagged hfree, List.mem_singleton] at he
  exact ⟨_, he⟩

/-! ## The end-of-command line -/

theorem LF_not_mem_decimal (n : Nat) : LF ∉ decimal n := by
  intro h
  have hdigit := isDigit_of_mem_decimal (n := n) LF h
  exact absurd hdigit (by decide)

theorem nul_not_mem_decimal (n : Nat) : 0 ∉ decimal n := by
  intro h
  have hdigit := isDigit_of_mem_decimal (n := n) 0 h
  exact absurd hdigit (by decide)

theorem assemble_line {body : Bytes} (h : LF ∉ body) (cur : Bytes) :
    assemble cur (body ++ [LF]) =
      List.replicate body.length [] ++ [lineEffects (cstr (cur ++ body ++ [LF]))] := by
  induction body generalizing cur with
  | nil => simp [assemble]
  | cons b body ih =>
      simp only [List.mem_cons, not_or] at h
      rw [List.cons_append, assemble, if_neg (Ne.symm h.1), ih h.2, List.length_cons,
        List.replicate_succ]
      simp

theorem completions_line {body : Bytes} (h : LF ∉ body) (n : Nat) (cell : Int) (cur : Bytes) :
    completions n cell (assemble cur (body ++ [LF])) =
      (signalled cell (lineEffects (cstr (cur ++ body ++ [LF])))).map (n + body.length + 1, ·) := by
  rw [assemble_line h, completions_append, completions_quiet (by simp [Quiet])]
  simp [completions, cellAfter]

/-- The tag has no border: after other text it does not match at the line start. -/
theorem tag_without_border {t : Bytes} (hne : t ≠ []) (htag : ¬ EOC_TAG <:+: t) (rest : Bytes) :
    ¬ EOC_TAG <+: t ++ (EOC_TAG ++ rest) := by
  intro hpre
  have hlen : EOC_TAG.length = 12 := by decide
  rcases Nat.lt_or_ge t.length EOC_TAG.length with hlt | hge
  · have hat : (t ++ (EOC_TAG ++ rest))[t.length]? = EOC_TAG[t.length]? := by
      rw [List.prefix_iff_getElem?] at hpre
      rw [hpre t.length hlt, List.getElem?_eq_getElem hlt]
    have hhead : (t ++ (EOC_TAG ++ rest))[t.length]? = some 60 := by
      rw [List.getElem?_append_right (Nat.le_refl _)]
      simp [EOC_TAG, ascii]
    have hpos : 0 < t.length := List.length_pos_iff.mpr hne
    have htail : ∀ i < 12, 0 < i → EOC_TAG[i]? ≠ some 60 := by decide
    exact htail _ (hlen ▸ hlt) hpos (hat.symm.trans hhead)
  · have hin : EOC_TAG <+: t :=
      List.prefix_of_prefix_length_le hpre (List.prefix_append t _) hge
    exact htag hin.isInfix

theorem nul_not_mem_eocLine (n : Nat) : 0 ∉ eocLine n := by
  have htag : (0 : UInt8) ∉ EOC_TAG := by decide
  simp only [eocLine, List.mem_append, List.mem_singleton, not_or]
  exact ⟨⟨htag, nul_not_mem_decimal n⟩, by decide⟩

theorem splitLines_eocLine (n : Nat) : splitLines LF [] (eocLine n) = ([eocLine n], []) := by
  have hbody : LF ∉ EOC_TAG ++ decimal n := by
    have hLF : LF ∉ EOC_TAG := by decide
    simp [hLF, LF_not_mem_decimal]
  rw [eocLine, splitLines_line hbody, List.nil_append]

theorem tag_infix_append_eocLine (t : Bytes) (n : Nat) : EOC_TAG <:+: t ++ eocLine n :=
  ⟨t, decimal n ++ [LF], by simp [eocLine]⟩

theorem lineEffects_eocLine {n : Nat} (hn : n ≤ 255) :
    lineEffects (eocLine n) = [.exitCode n, .signal] := by
  have hscan : sscanf EOC_TAG (eocLine n) = .value n := by
    rw [eocLine, List.append_assoc, sscanf_append]
    exact scanInt_decimal (by simp only [INT_MAX]; omega) (by decide) []
  have htag : strstr (eocLine n) EOC_TAG = true :=
    strstr_iff.mpr (by simpa using tag_infix_append_eocLine [] n)
  simp [lineEffects, htag, hscan]

/-- Glued to a NUL-free tail the line still signals, but nothing is stored. -/
theorem lineEffects_glued {t : Bytes} (hne : t ≠ []) (htag : ¬ EOC_TAG <:+: t) (n : Nat) :
    lineEffects (t ++ eocLine n) = [.signal] := by
  have hscan : sscanf EOC_TAG (t ++ eocLine n) = .mismatch := by
    apply sscanf_mismatch
    · rw [eocLine, List.append_assoc EOC_TAG]
      exact tag_without_border hne htag _
    · intro hpre
      have hlen := hpre.length_le
      have hpos : 0 < t.length := List.length_pos_iff.mpr hne
      simp only [eocLine, List.length_append] at hlen
      omega
  simp [lineEffects, strstr_iff.mpr (tag_infix_append_eocLine t n), hscan]

/-- What the handler signals for an end-of-command line behind an unfinished line. -/
theorem signalled_eocLine {t : Bytes} (htag : ¬ EOC_TAG <:+: t) {n : Nat} (hn : n ≤ 255)
    (cell : Int) :
    signalled cell (lineEffects (cstr (t ++ eocLine n))) = [(n : Int)] ↔
      t = [] ∨ (0 ∉ t ∧ cell = n) := by
  by_cases ht : t = []
  · subst ht
    rw [List.nil_append, cstr_eq_self (nul_not_mem_eocLine n), lineEffects_eocLine hn]
    simp [signalled]
  · by_cases hnul : 0 ∈ t
    · rw [cstr_append_of_mem hnul, lineEffects_of_untagged htag]
      simp [signalled, ht, hnul]
    · have hwhole : cstr (t ++ eocLine n) = t ++ eocLine n := by
        apply cstr_eq_self
        simp [hnul, nul_not_mem_eocLine n]
      rw [hwhole, lineEffects_glued ht htag]
      simp [signalled, ht, hnul]

/-! ## The round trip -/

/-- Feeding the output of a command and then its end-of-command line raises one
completion signal, at the last byte, with the exit code in the cell. -/
def RoundTrip (abi : Abi) (r : Reader) (cell : Int) (out : Bytes) (n : Nat) : Prop :=
  (r.readBytes abi (out ++ eocLine n)).map (fun read => completions 0 cell read.2) =
    some [((out ++ eocLine n).length, (n : Int))]

instance (abi : Abi) (r : Reader) (cell : Int) (out : Bytes) (n : Nat) :
    Decidable (RoundTrip abi r cell out n) := inferInstanceAs (Decidable (_ = _))

/-- The signals of output followed by its end-of-command line depend on the
unfinished last line alone. -/
theorem completions_framed {out : Bytes} (htag : ¬ EOC_TAG <:+: out) (n : Nat) (cell : Int) :
    completions 0 cell (assemble [] (out ++ eocLine n)) =
      (signalled cell (lineEffects (cstr ((splitLines LF [] out).2 ++ eocLine n)))).map
        ((out ++ eocLine n).length, ·) := by
  have hquiet : Quiet (assemble [] out).flatten := quiet_assemble (by simpa using htag)
  have hbody : LF ∉ EOC_TAG ++ decimal n := by
    have hLF : LF ∉ EOC_TAG := by decide
    simp [hLF, LF_not_mem_decimal]
  rw [assemble_append, completions_append, completions_quiet hquiet, hquiet.cellAfter,
    List.nil_append, length_assemble]
  have hline := completions_line hbody (0 + out.length) cell (splitLines LF [] out).2
  rw [← eocLine] at hline
  rw [hline]
  simp [eocLine, Nat.add_assoc]

theorem roundTrip_iff {abi : Abi} {r : Reader} {cell : Int} {out : Bytes} {n : Nat}
    (hr : r.Holds []) (htag : ¬ EOC_TAG <:+: out) (hn : n ≤ 255) :
    RoundTrip abi r cell out n ↔
      linesFit 0 (out ++ eocLine n) = true ∧
        (out = [] ∨ out.getLast? = some LF ∨
          (0 ∉ (splitLines LF [] out).2 ∧ cell = n)) := by
  have hrest : ¬ EOC_TAG <:+: (splitLines LF [] out).2 := by
    intro hin
    have hsuffix : (splitLines LF [] out).2 <:+ out := ⟨_, splitLines_flatten LF [] out⟩
    exact htag (hin.trans hsuffix.isInfix)
  have hsignal := signalled_eocLine hrest hn cell
  rw [splitLines_rest_eq_nil_iff, or_assoc] at hsignal
  rw [← hsignal]
  cases hfit : linesFit 0 (out ++ eocLine n) with
  | false => simp [RoundTrip, Reader.readBytes_overflow _ hr hfit]
  | true =>
      obtain ⟨r', hread, -⟩ := Reader.readBytes_eq abi _ hr hfit
      rw [RoundTrip, hread, Option.map_some, completions_framed htag, Option.some.injEq]
      cases signalled cell (lineEffects (cstr ((splitLines LF [] out).2 ++ eocLine n))) with
      | nil => simp
      | cons x xs => simp

/-- `ls`-like output, closed by a line feed. -/
theorem roundTrip_finished_line :
    RoundTrip .lp64 .init SU_SRV_INVALID_RESULT_ERR (ascii "etc\n") 127 :=
  (roundTrip_iff Reader.init_holds (by decide) (by decide)).mpr ⟨by decide, by decide⟩

/-- `printf foo` leaves the tag in the middle of a line: the signal is raised,
but the cell keeps what `su_srv_exec` had put there. -/
theorem not_roundTrip_unfinished_line :
    ¬ ∀ (abi : Abi) (r : Reader) (cell : Int) (out : Bytes) (n : Nat),
      r.Holds [] → ¬ EOC_TAG <:+: out → n ≤ 255 → RoundTrip abi r cell out n := by
  intro h
  have hfoo := h .lp64 .init SU_SRV_INVALID_RESULT_ERR (ascii "foo") 0 Reader.init_holds
    (by decide) (by decide)
  exact absurd hfoo (by decide)

end Susrv.Native
