import Susrv.Native.Terminal
import Susrv.Native.Proofs.Framing

/-!
# The reader loop is a line splitter

`handler_refines_splitter`: whatever the buffer held before, a stream without NUL
bytes has the effects of its complete lines, in order.
-/

namespace Susrv.Native

open Base.CString

/-! ## One line -/

variable {line : Bytes}

/-- What the loop does for a complete line while echo is `echo`. -/
def performed (echo : Bool) (line : Bytes) : List TtyAction :=
  (lineEffects line).flatMap (Effect.perform echo)

theorem OnlyTag.tag (h : OnlyTag line) : EOC_TAG <:+: line := by
  obtain ⟨ws, rfl, -⟩ := h
  exact (List.prefix_append EOC_TAG ws).isInfix

theorem TagNumber.tag {n : Int} (h : TagNumber line n) : EOC_TAG <:+: line := by
  obtain ⟨ws, body, rfl, -⟩ := h
  exact (List.prefix_append EOC_TAG (ws ++ body)).isInfix

theorem sscanf_eof_iff_onlyTag (htag : EOC_TAG <:+: line) :
    sscanf EOC_TAG line = .eof ↔ OnlyTag line :=
  sscanf_eof_iff htag.length_le

theorem sscanf_value_iff_tagNumber {m : Int} :
    sscanf EOC_TAG line = .value m ↔ ∃ n, TagNumber line n ∧ m = toInt32 n := by
  rw [sscanf_eq_value_iff]
  constructor
  · intro h
    obtain ⟨rest, rfl, hscan⟩ := h
    obtain ⟨ws, body, n, rfl, hws, hn, hm⟩ := scanInt_eq_value_iff.mp hscan
    exact ⟨n, ⟨ws, body, rfl, hws, hn⟩, hm⟩
  · intro h
    obtain ⟨n, ⟨ws, body, rfl, hws, hn⟩, hm⟩ := h
    exact ⟨ws ++ body, rfl, scanInt_eq_value_iff.mpr ⟨ws, body, n, rfl, hws, hn, hm⟩⟩

theorem performed_of_untagged (echo : Bool) (h : ¬ EOC_TAG <:+: line) :
    performed echo line = if echo then [.log line, .lastRead line] else [.lastRead line] := by
  simp [performed, lineEffects, h, Effect.perform]

/-- A tagged line does what the outcome of its scan says. -/
theorem performed_of_tagged (echo : Bool) (h : EOC_TAG <:+: line) :
    performed echo line =
      match sscanf EOC_TAG line with
      | .eof => []
      | .mismatch => [.signal]
      | .value n => [.exitCode n, .signal] := by
  rw [performed, lineEffects, if_pos (strstr_iff.mpr h)]
  cases sscanf EOC_TAG line with
  | eof => simp
  | mismatch => simp [Effect.perform]
  | value n => simp [Effect.perform]

/-- The loop treats every line as the reference asks. -/
theorem treated_performed (echo : Bool) (line : Bytes) :
    Treated echo line (performed echo line) := by
  by_cases htag : EOC_TAG <:+: line
  · rw [performed_of_tagged echo htag]
    cases hscan : sscanf EOC_TAG line with
    | eof => exact .onlyTag ((sscanf_eof_iff_onlyTag htag).mp hscan)
    | value m =>
        obtain ⟨n, hn, hm⟩ := sscanf_value_iff_tagNumber.mp hscan
        by_cases hrange : InIntRange n
        · have hmn : m = n := hm.trans (toInt32_of_inIntRange hrange)
          rw [hmn]
          exact .status hn hrange
        · exact .overflow hn hrange m
    | mismatch =>
        apply Treated.tagged htag
        · intro hws
          rw [(sscanf_eof_iff_onlyTag htag).mpr hws] at hscan
          cases hscan
        · intro n hn
          rw [sscanf_value_iff_tagNumber.mpr ⟨n, hn, rfl⟩] at hscan
          cases hscan
  · rw [performed_of_untagged echo htag]
    exact .ordinary htag

/-- The reference leaves no choice for a line without an oversized number. -/
theorem Treated.eq_performed {echo : Bool} {actions : List TtyAction}
    (h : Treated echo line actions) (hrange : ∀ n, TagNumber line n → InIntRange n) :
    actions = performed echo line := by
  cases h with
  | ordinary h => exact (performed_of_untagged echo h).symm
  | onlyTag h =>
      rw [performed_of_tagged echo h.tag, (sscanf_eof_iff_onlyTag h.tag).mpr h]
  | status h hn =>
      have hscan := sscanf_value_iff_tagNumber.mpr ⟨_, h, rfl⟩
      rw [performed_of_tagged echo h.tag, hscan, toInt32_of_inIntRange hn]
  | overflow h hn _ => exact absurd (hrange _ h) hn
  | tagged htag hws hnum =>
      rw [performed_of_tagged echo htag]
      cases hscan : sscanf EOC_TAG line with
      | eof => exact absurd ((sscanf_eof_iff_onlyTag htag).mp hscan) hws
      | mismatch => rfl
      | value m =>
          obtain ⟨n, hn, -⟩ := sscanf_value_iff_tagNumber.mp hscan
          exact absurd hn (hnum n)

/-! ## The stream -/

/-- What the loop does for the complete lines of its inputs, read as C strings. -/
def performedAll (cur : Bytes) (echo : Bool) (inputs : List TtyInput) : List TtyAction :=
  (completeLines cur echo inputs).flatMap fun line => performed line.1 (cstr line.2)

/-- The reference and the splitter see the same lines. -/
theorem map_snd_completeLines (cur : Bytes) (echo : Bool) (inputs : List TtyInput) :
    (completeLines cur echo inputs).map Prod.snd = (splitLines LF cur (stream inputs)).1 := by
  induction inputs generalizing cur echo with
  | nil => rfl
  | cons i inputs ih =>
      cases i with
      | byte b =>
          simp only [completeLines, stream, List.filterMap_cons, splitLines]
          split
          · rename_i hb
            rw [List.map_cons, ih, hb]
            rfl
          · exact ih _ _
      | su_srv_set_tty_echo e => exact ih _ _

/-- As long as no line overflows, the loop does what its lines ask for, whatever
else the buffer holds. -/
theorem Terminal.run_eq (abi : Abi) (echo : Bool) {r : Reader} {cur : Bytes}
    {inputs : List TtyInput} (h : r.Holds cur)
    (hfit : linesFit cur.length (stream inputs) = true) :
    ∃ t, (Terminal.mk r echo).run abi inputs = some (t, performedAll cur echo inputs) := by
  induction inputs generalizing r echo cur with
  | nil => exact ⟨_, rfl⟩
  | cons i inputs ih =>
      cases i with
      | su_srv_set_tty_echo e =>
          obtain ⟨t, ht⟩ := ih (decide (e ≠ 0)) h hfit
          refine ⟨t, ?_⟩
          simp only [Terminal.run, Terminal.step, Option.bind_eq_bind, Option.bind_some, ht]
          rfl
      | byte b =>
          simp only [stream, List.filterMap_cons, linesFit, Bool.and_eq_true,
            decide_eq_true_eq] at hfit
          obtain ⟨hnow, hrest⟩ := hfit
          by_cases hb : b = LF
          · subst hb
            obtain ⟨r', hbyte, hr'⟩ := Reader.readByte_LF abi h hnow
            obtain ⟨t, ht⟩ := ih echo hr' (by simpa [stream] using hrest)
            refine ⟨t, ?_⟩
            simp only [Terminal.run, Terminal.step, hbyte, Option.bind_eq_bind, Option.bind_some,
              ht, pure]
            simp [performedAll, completeLines, performed]
          · obtain ⟨r', hbyte, hr'⟩ := Reader.readByte_of_ne abi h hnow hb
            obtain ⟨t, ht⟩ := ih echo hr' (by simpa [stream, hb] using hrest)
            refine ⟨t, ?_⟩
            simp only [Terminal.run, Terminal.step, hbyte, Option.bind_eq_bind, Option.bind_some,
              ht, pure]
            simp [performedAll, completeLines, hb]

theorem Terminal.run_overflow {abi : Abi} {echo : Bool} {r : Reader} {cur : Bytes}
    {inputs : List TtyInput} (h : r.Holds cur)
    (hfit : linesFit cur.length (stream inputs) = false) :
    (Terminal.mk r echo).run abi inputs = none := by
  induction inputs generalizing r echo cur with
  | nil => simp [stream, linesFit] at hfit
  | cons i inputs ih =>
      cases i with
      | su_srv_set_tty_echo e =>
          have hrest : (Terminal.mk r (decide (e ≠ 0))).run abi inputs = none := ih h hfit
          simp only [Terminal.run, Terminal.step, Option.bind_eq_bind, Option.bind_some, hrest]
          rfl
      | byte b =>
          by_cases hnow : cur.length + 32 ≤ INT_MAX
          · simp only [stream, List.filterMap_cons, linesFit, hnow, decide_true,
              Bool.true_and] at hfit
            by_cases hb : b = LF
            · subst hb
              obtain ⟨r', hbyte, hr'⟩ := Reader.readByte_LF abi h hnow
              have hrest : (Terminal.mk r' echo).run abi inputs = none :=
                ih hr' (by simpa [stream] using hfit)
              simp [Terminal.run, Terminal.step, hbyte, hrest]
            · obtain ⟨r', hbyte, hr'⟩ := Reader.readByte_of_ne abi h hnow hb
              have hrest : (Terminal.mk r' echo).run abi inputs = none :=
                ih hr' (by simpa [stream, hb] using hfit)
              simp [Terminal.run, Terminal.step, hbyte, hrest]
          · simp [Terminal.run, Terminal.step, Reader.readByte,
              Reader.grow_overflow h (by omega)]

/-- Lines that are short enough keep `curr_line_offset + 32` an `int`. -/
theorem linesFit_of_lines {cur bs : Bytes}
    (h : ∀ piece ∈ (splitLines LF cur bs).1 ++ [(splitLines LF cur bs).2],
      piece.length < INT_MAX - 32) :
    linesFit cur.length bs = true := by
  have hmax : INT_MAX = 2147483647 := rfl
  induction bs generalizing cur with
  | nil => rfl
  | cons b bs ih =>
      have hnow : cur.length + 32 ≤ INT_MAX := by
        obtain ⟨piece, hpiece, hpre⟩ := exists_splitLines_prefix LF cur (b :: bs)
        have hle := hpre.length_le
        have hlt := h piece hpiece
        omega
      rw [linesFit, Bool.and_eq_true, decide_eq_true_eq]
      refine ⟨hnow, ?_⟩
      rw [splitLines] at h
      split at h
      · rename_i hb
        rw [if_pos hb, ← List.length_nil]
        apply ih
        intro piece hpiece
        apply h
        rw [List.cons_append]
        exact List.mem_cons_of_mem _ hpiece
      · rename_i hb
        have hrest := ih h
        rw [if_neg hb]
        simpa using hrest

/-- A treatment of every line is a treatment in order. -/
theorem treatedInOrder_flatMap {lines : List (Bool × Bytes)}
    (f : Bool × Bytes → List TtyAction) (h : ∀ line ∈ lines, Treated line.1 line.2 (f line)) :
    TreatedInOrder lines (lines.flatMap f) := by
  induction lines with
  | nil => exact .nil
  | cons line lines ih =>
      rw [List.flatMap_cons]
      apply TreatedInOrder.cons
      · exact h line (by simp)
      · apply ih
        intro l hl
        exact h l (by simp [hl])

theorem TreatedInOrder.eq_flatMap {lines : List (Bool × Bytes)} {actions : List TtyAction}
    (h : TreatedInOrder lines actions)
    (hrange : ∀ line ∈ lines.map Prod.snd, ∀ n, TagNumber line n → InIntRange n) :
    actions = lines.flatMap fun line => performed line.1 line.2 := by
  induction h with
  | nil => rfl
  | cons hline _ ih =>
      rw [List.flatMap_cons, hline.eq_performed (hrange _ (by simp)), ih]
      intro l hl
      exact hrange l (by simp [List.mem_map.mp hl])

/-- In a stream without NUL every line is its own C string. -/
theorem performedAll_eq {echo : Bool} {inputs : List TtyInput} (hnul : 0 ∉ stream inputs) :
    performedAll [] echo inputs =
      (completeLines [] echo inputs).flatMap fun line => performed line.1 line.2 := by
  apply List.flatMap_congr
  intro line hline
  have hsplit : line.2 ∈ (splitLines LF [] (stream inputs)).1 := by
    rw [← map_snd_completeLines [] echo]
    exact List.mem_map_of_mem hline
  have hin : line.2 <:+: [] ++ stream inputs := infix_of_mem_splitLines hsplit
  rw [cstr_eq_self fun h => hnul (hin.subset h)]

/-- The effects of the loop are those of the reference.  The reference determines
them unless a status does not fit an `int`, and earlier content of the buffer has
no part in them. -/
theorem handler_refines_splitter (abi : Abi) (echo : Bool) {r : Reader} (hr : r.Holds [])
    {inputs : List TtyInput} (hnul : 0 ∉ stream inputs)
    (hlen : ∀ line ∈ (splitLines LF [] (stream inputs)).1 ++ [(splitLines LF [] (stream inputs)).2],
      line.length < INT_MAX - 32) :
    ∃ t actions, (Terminal.mk r echo).run abi inputs = some (t, actions) ∧
      Reference echo inputs actions ∧
      ((∀ line ∈ (splitLines LF [] (stream inputs)).1, ∀ n, TagNumber line n → InIntRange n) →
        ∀ other, Reference echo inputs other → other = actions) ∧
      ∀ r₂ : Reader, r₂.Holds [] →
        ((Terminal.mk r₂ echo).run abi inputs).map Prod.snd = some actions := by
  have hfit : linesFit ([] : Bytes).length (stream inputs) = true := linesFit_of_lines hlen
  obtain ⟨t, hrun⟩ := Terminal.run_eq abi echo hr hfit
  refine ⟨t, performedAll [] echo inputs, hrun, ?_, ?_, ?_⟩
  · rw [performedAll_eq hnul]
    exact treatedInOrder_flatMap _ fun line _ => treated_performed line.1 line.2
  · intro hrange other hother
    rw [performedAll_eq hnul]
    apply hother.eq_flatMap
    rw [map_snd_completeLines]
    exact hrange
  · intro r₂ hr₂
    obtain ⟨t₂, hrun₂⟩ := Terminal.run_eq abi echo hr₂ hfit
    rw [hrun₂, Option.map_some]

/-- A finished line, a status and an unfinished line, echo being switched off between. -/
def statusWithoutEcho : List TtyInput :=
  (ascii "ok\n").map .byte ++ .su_srv_set_tty_echo 0 :: (ascii "<SU_SRV_EOC>0\nrest").map .byte

theorem handler_refines_splitter_statusWithoutEcho :
    ∃ t actions, (Terminal.mk Reader.init true).run .lp64 statusWithoutEcho = some (t, actions) ∧
      Reference true statusWithoutEcho actions := by
  have hnul : 0 ∉ stream statusWithoutEcho := by decide
  obtain ⟨t, actions, hrun, href, -⟩ :=
    handler_refines_splitter .lp64 true Reader.init_holds hnul (by decide)
  exact ⟨t, actions, hrun, href⟩

end Susrv.Native
