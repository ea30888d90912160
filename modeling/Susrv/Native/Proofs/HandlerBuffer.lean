import Susrv.Native.Proofs.LineSplitting

/-!
# The size of `handler_buf`

The growth test of `session_handler_fn` compares `curr_line_offset` with the size
of a pointer, and no capacity is stored anywhere.  What keeps the stores inside
the buffer is `Reader.Holds`: it never has fewer than `BUF_INITIAL_SIZE` bytes
between two iterations, and from the seventh or third byte of a line on every
byte is preceded by a `realloc`.
-/

namespace Susrv.Native

open Base.CString

/-- The lines of a stream without their line feeds, the unfinished one included. -/
def lineTexts (bs : Bytes) : List Bytes :=
  (splitLines LF [] bs).1.map List.dropLast ++ [(splitLines LF [] bs).2]

/-- What the iteration for `curr_byte` needs of its accesses, `line` being the
current line and `buf` the buffer it stores into. -/
structure Reader.InBounds (abi : Abi) (r : Reader) (line : Bytes) (curr_byte : UInt8)
    (buf : Block) : Prop where
  /-- `curr_line_offset` counts the bytes of the line, and they are in the buffer. -/
  offset : r.curr_line_offset = line.length
  current : StartsWith r.handler_buf line
  /-- Neither `curr_line_offset + 32` nor `curr_line_offset++` leaves `int`. -/
  noOverflow : r.curr_line_offset + 32 ≤ INT_MAX
  grown : r.grow abi = some buf
  /-- The growth moves the whole line. -/
  kept : StartsWith buf line
  index : r.curr_line_offset < buf.length
  terminator : curr_byte = LF → r.curr_line_offset + 1 < buf.length

/-- A held line that leaves room for the arithmetic is read on within bounds. -/
theorem Reader.Holds.inBounds (abi : Abi) {r : Reader} {line : Bytes} (h : r.Holds line)
    (hfit : line.length + 32 ≤ INT_MAX) (curr_byte : UInt8) :
    ∃ buf, r.InBounds abi line curr_byte buf := by
  obtain ⟨buf, hgrow, hkept, hlen, -⟩ := Reader.grow_spec abi h hfit
  have hoff := h.offset
  refine ⟨buf, ?_⟩
  exact {
    offset := hoff
    current := h.content
    noOverflow := by rw [hoff]; exact hfit
    grown := hgrow
    kept := hkept
    index := by omega
    terminator := fun _ => by omega }

/-! ## From the lengths of the lines to the arithmetic -/

/-- Every finished line ends with the line feed that finished it. -/
theorem exists_body_of_mem_splitLines {cur bs line : Bytes}
    (h : line ∈ (splitLines LF cur bs).1) : ∃ body, line = body ++ [LF] := by
  induction bs generalizing cur with
  | nil => simp at h
  | cons b bs ih =>
      rw [splitLines] at h
      split at h
      · rename_i hb
        rw [List.mem_cons] at h
        rcases h with rfl | h
        · exact ⟨cur, by rw [hb]⟩
        · exact ih h
      · exact ih h

/-- The line being read is the start of one of the lines of the stream. -/
theorem exists_lineTexts_prefix (before : Bytes) (b : UInt8) (after : Bytes) :
    ∃ line ∈ lineTexts (before ++ b :: after), (splitLines LF [] before).2 <+: line := by
  set cur := (splitLines LF [] before).2 with hcur
  rw [lineTexts, splitLines_append, ← hcur, splitLines]
  split
  · -- the line ends here: its text is what was read of it
    refine ⟨cur, ?_, List.prefix_refl cur⟩
    rw [List.map_append, List.map_cons, List.dropLast_concat]
    simp
  · obtain ⟨piece, hpiece, hpre⟩ := exists_splitLines_prefix LF (cur ++ [b]) after
    have hcurPre : cur <+: piece := (List.prefix_append cur [b]).trans hpre
    rw [List.mem_append, List.mem_singleton] at hpiece
    rcases hpiece with hfinished | hrest
    · obtain ⟨body, rfl⟩ := exists_body_of_mem_splitLines hfinished
      refine ⟨body, ?_, ?_⟩
      · rw [List.map_append, List.append_assoc]
        apply List.mem_append_right
        apply List.mem_append_left
        exact List.mem_map.mpr ⟨_, hfinished, List.dropLast_concat⟩
      · rw [List.prefix_concat_iff] at hcurPre
        apply hcurPre.resolve_left
        intro hwhole
        have hle := hpre.length_le
        simp only [hwhole, List.length_append, List.length_singleton] at hle
        omega
    · refine ⟨piece, ?_, hcurPre⟩
      rw [hrest]
      simp

theorem linesFit_of_prefixes {cur bs : Bytes}
    (h : ∀ before b after, bs = before ++ b :: after →
      (splitLines LF cur before).2.length + 32 ≤ INT_MAX) :
    linesFit cur.length bs = true := by
  induction bs generalizing cur with
  | nil => rfl
  | cons b bs ih =>
      rw [linesFit, Bool.and_eq_true, decide_eq_true_eq]
      refine ⟨h [] b bs rfl, ?_⟩
      -- the rest of the stream continues the line that `b` leaves behind
      have hstep : ∀ next, (splitLines LF cur [b]).2 = next → linesFit next.length bs = true := by
        intro next hnext
        apply ih
        intro before c after hbs
        have hlater := h (b :: before) c after (by rw [hbs, List.cons_append])
        rw [← List.singleton_append, splitLines_append, hnext] at hlater
        exact hlater
      by_cases hb : b = LF
      · rw [if_pos hb]
        exact hstep [] (by simp [splitLines, hb])
      · rw [if_neg hb]
        have hlen : cur.length + 1 = (cur ++ [b]).length := by simp
        rw [hlen]
        exact hstep (cur ++ [b]) (by simp [splitLines, hb])

/-! ## Every iteration of every stream -/

/-- Whatever came before, each iteration stores within the buffer it has just
grown, and the growth keeps the current line. -/
theorem handler_buf_large_enough (abi : Abi) {bs : Bytes}
    (hlines : ∀ line ∈ lineTexts bs, line.length ≤ INT_MAX - 32) :
    (Reader.init.readBytes abi bs).isSome ∧
      ∀ before curr_byte after, bs = before ++ curr_byte :: after →
        ∃ r effects buf, Reader.init.readBytes abi before = some (r, effects) ∧
          r.InBounds abi (splitLines LF [] before).2 curr_byte buf := by
  have hfits : ∀ before b after, bs = before ++ b :: after →
      (splitLines LF [] before).2.length + 32 ≤ INT_MAX := by
    intro before b after hbs
    obtain ⟨line, hline, hpre⟩ := exists_lineTexts_prefix before b after
    have hle := hpre.length_le
    have hmax : INT_MAX = 2147483647 := rfl
    have hbound := hlines line (hbs ▸ hline)
    omega
  have hfit : linesFit ([] : Bytes).length bs = true := linesFit_of_prefixes hfits
  constructor
  · obtain ⟨r, hread, -⟩ := Reader.readBytes_eq abi bs Reader.init_holds hfit
    rw [hread, Option.isSome_some]
  · intro before b after hbs
    have hbefore : linesFit ([] : Bytes).length before = true := by
      rw [hbs, linesFit_append, Bool.and_eq_true] at hfit
      exact hfit.1
    obtain ⟨r, hread, hholds⟩ := Reader.readBytes_eq abi before Reader.init_holds hbefore
    obtain ⟨buf, hbuf⟩ := hholds.inBounds abi (hfits before b after hbs) b
    exact ⟨r, _, buf, hread, hbuf⟩

/-- A line of nine bytes, which outgrows a pointer, and a short one behind it. -/
theorem handler_buf_large_enough_long_then_short :
    (Reader.init.readBytes .ilp32 (ascii "/data/app\nok\n")).isSome ∧
      ∀ before curr_byte after, ascii "/data/app\nok\n" = before ++ curr_byte :: after →
        ∃ r effects buf, Reader.init.readBytes .ilp32 before = some (r, effects) ∧
          r.InBounds .ilp32 (splitLines LF [] before).2 curr_byte buf :=
  handler_buf_large_enough .ilp32 (by decide)

end Susrv.Native
