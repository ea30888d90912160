import Susrv.Native.LastRead
import Susrv.Native.Proofs.Framing

/-!
# When reading the last line is atomic

`PcInv` says for each point of the handler which buffers exist and what they hold, and
`WindowInv` what a call may find behind the pointer it fetched.  A run is atomic in all its
states exactly when its calls copy buffers that the session holds
(`last_read_atomic_iff`).
-/

namespace Susrv.Native.LastRead

open Base.CString Base.Transition

/-! ## Complete lines -/

/-- A line with its line feed. -/
def IsLine (line : Bytes) : Prop := ∃ body, line = body ++ [LF] ∧ LF ∉ body

theorem IsLine.ne_nil {line : Bytes} (h : IsLine line) : line ≠ [] := by
  obtain ⟨body, rfl, _⟩ := h
  simp

theorem IsLine.getLast? {line : Bytes} (h : IsLine line) : line.getLast? = some LF := by
  obtain ⟨body, rfl, _⟩ := h
  exact List.getLast?_concat

/-- A string that ends with a line feed is the whole line. -/
theorem IsLine.cstr_eq {line : Bytes} (h : IsLine line)
    (hlast : (cstr line).getLast? = some LF) : cstr line = line := by
  obtain ⟨body, rfl, hbody⟩ := h
  rcases List.prefix_concat_iff.mp (cstr_isPrefix (body ++ [LF])) with hwhole | hpart
  · exact hwhole
  · exact absurd (hpart.subset (List.mem_of_getLast? hlast)) hbody

theorem lineEffects_cases (text : Bytes) :
    afterEffects (lineEffects text) = .reading ∨
      afterEffects (lineEffects text) = .update text := by
  unfold lineEffects
  split
  · left
    cases sscanf EOC_TAG text <;> rfl
  · exact .inr rfl

/-! ## The buffers of a session -/

/-- The buffer at `last` is `cell`, another one at `tmp` has a string, and there are no more. -/
structure HeapIs (heap : Nat → Cell) (last : Option Nat) (cell : Cell) (tmp : Option Nat) :
    Prop where
  at_last : ∀ p, last = some p → heap p = cell
  at_tmp : ∀ p, tmp = some p → last ≠ some p ∧ ∃ text, heap p = .filled text
  rest : ∀ p, last ≠ some p → tmp ≠ some p → heap p = .unused

variable {heap : Nat → Cell} {last tmp : Option Nat} {cell : Cell} {text : Bytes} {p : Nat}

theorem HeapIs.store_null (h : HeapIs heap last (.filled text) none) :
    HeapIs heap none .fresh last where
  at_last p hp := absurd hp (by simp)
  at_tmp p hp := ⟨by simp, text, h.at_last p hp⟩
  rest p _ hp := h.rest p hp (by simp)

theorem HeapIs.store (h : HeapIs heap last (.filled text) none) (hfree : heap p = .unused) :
    HeapIs (Function.update heap p .fresh) (some p) .fresh last := by
  have hne : ∀ q, last = some q → q ≠ p := by
    intro q hq heq
    have hfilled := h.at_last q hq
    rw [heq, hfree] at hfilled
    exact absurd hfilled (by simp)
  constructor
  · intro q hq
    rw [← Option.some.inj hq, Function.update_self]
  · intro q hq
    refine ⟨fun hp => hne q hq (Option.some.inj hp).symm, text, ?_⟩
    rw [Function.update_of_ne (hne q hq)]
    exact h.at_last q hq
  · intro q hp hq
    have hother : q ≠ p := fun heq => hp (by rw [heq])
    rw [Function.update_of_ne hother]
    exact h.rest q hq (by simp)

theorem HeapIs.fill (h : HeapIs heap (some p) .fresh tmp) (cell : Cell) :
    HeapIs (Function.update heap p cell) (some p) cell tmp := by
  constructor
  · intro q hq
    rw [← Option.some.inj hq, Function.update_self]
  · intro q hq
    obtain ⟨hne, text, htext⟩ := h.at_tmp q hq
    have hother : q ≠ p := fun heq => hne (by rw [heq])
    rw [Function.update_of_ne hother]
    exact ⟨hne, text, htext⟩
  · intro q hp hq
    have hother : q ≠ p := fun heq => hp (by rw [heq])
    rw [Function.update_of_ne hother]
    exact h.rest q hp hq

theorem HeapIs.free (h : HeapIs heap last cell (some p)) :
    HeapIs (Function.update heap p .unused) last cell none := by
  constructor
  · intro q hq
    have hother : q ≠ p := fun heq => (h.at_tmp p rfl).1 (by rw [hq, heq])
    rw [Function.update_of_ne hother]
    exact h.at_last q hq
  · intro q hq
    exact absurd hq (by simp)
  · intro q hq _
    by_cases heq : q = p
    · rw [heq, Function.update_self]
    · rw [Function.update_of_ne heq]
      exact h.rest q hq (fun hp => heq (Option.some.inj hp).symm)

theorem HeapIs.null (h : HeapIs heap none cell tmp) (cell' : Cell) :
    HeapIs heap none cell' tmp where
  at_last p hp := absurd hp (by simp)
  at_tmp := h.at_tmp
  rest := h.rest

/-- The string of the most recent line. -/
def State.shown (s : State) : Cell := .filled (cstr (s.latest.getD []))

/-- What holds at each point of the handler. -/
def PcInv (s : State) : HandlerPc → Prop
  | .reading => HeapIs s.heap s.last_tty_read s.shown none
  | .update text => text = cstr s.line ∧ IsLine s.line ∧
      HeapIs s.heap s.last_tty_read s.shown none
  | .kept text tmp => text = cstr s.line ∧ IsLine s.line ∧ tmp = s.last_tty_read ∧
      HeapIs s.heap s.last_tty_read s.shown none
  | .stored text tmp => text = cstr s.line ∧ s.latest = some s.line ∧
      HeapIs s.heap s.last_tty_read .fresh tmp
  | .copied tmp => HeapIs s.heap s.last_tty_read s.shown tmp

/-- A call that has fetched `line` sees the lines of `window`; what it finds behind its
pointer is one of them. -/
structure WindowInv (heap : Nat → Cell) (last : Option Nat) (latest : Option Bytes)
    (line : Option Nat) (window : List (Option Bytes)) : Prop where
  lines : ∀ l, some l ∈ window → IsLine l
  first : none ∈ window → window.head? = some none
  begun : ∀ p, line = some p → none ∉ window
  current : ∀ p, line = some p → last = some p → latest ∈ window
  content : ∀ p, line = some p → ∀ text, heap p = .filled text →
    ∃ l, some l ∈ window ∧ text = cstr l

structure Inv (s : State) : Prop where
  reader : s.reader.Holds s.cur
  cur : LF ∉ s.cur
  pc : PcInv s s.pc
  latest : ∀ l, s.latest = some l → IsLine l
  null : s.latest = none → s.last_tty_read = none
  calls : ∀ i line window, s.calls i = .fetched line window →
    WindowInv s.heap s.last_tty_read s.latest line window
  reads : Atomic s

theorem inv_init : Inv State.init where
  reader := Reader.init_holds
  cur := by simp [State.init]
  pc := ⟨fun p hp => absurd hp (by simp [State.init]), fun p hp => absurd hp (by simp),
    fun _ _ _ => rfl⟩
  latest l hl := absurd hl (by simp [State.init])
  null _ := rfl
  calls i line window h := absurd h (by simp [State.init])
  reads read h := absurd h (by simp [State.init])

/-! ## The buffers that a call may copy -/

theorem HeapIs.filled_iff (h : HeapIs heap last (.filled text) tmp) (p : Nat) :
    (∃ text, heap p = .filled text) ↔ last = some p ∨ tmp = some p := by
  constructor
  · rintro ⟨text', hfilled⟩
    by_contra hno
    rw [not_or] at hno
    rw [h.rest p hno.1 hno.2] at hfilled
    exact absurd hfilled (by simp)
  · rintro (hlast | htmp)
    · exact ⟨text, h.at_last p hlast⟩
    · exact (h.at_tmp p htmp).2

theorem HeapIs.fresh_iff (h : HeapIs heap last .fresh tmp) (p : Nat) :
    (∃ text, heap p = .filled text) ↔ tmp = some p := by
  constructor
  · rintro ⟨text', hfilled⟩
    by_contra hno
    by_cases hlast : last = some p
    · rw [h.at_last p hlast] at hfilled
      exact absurd hfilled (by simp)
    · rw [h.rest p hlast hno] at hfilled
      exact absurd hfilled (by simp)
  · intro htmp
    exact (h.at_tmp p htmp).2

/-- The session holds exactly the buffers that have a string. -/
theorem Inv.holds_iff {s : State} (h : Inv s) (p : Nat) :
    s.Holds p ↔ ∃ text, s.heap p = .filled text := by
  have hinv := h.pc
  unfold State.Holds
  cases hpc : s.pc with
  | reading =>
      rw [hpc] at hinv
      rw [HeapIs.filled_iff hinv p]
      simp [HandlerPc.Filling, HandlerPc.tmp]
  | update text =>
      rw [hpc] at hinv
      rw [HeapIs.filled_iff hinv.2.2 p]
      simp [HandlerPc.Filling, HandlerPc.tmp]
  | kept text tmp =>
      rw [hpc] at hinv
      rw [HeapIs.filled_iff hinv.2.2.2 p, hinv.2.2.1]
      simp [HandlerPc.Filling, HandlerPc.tmp]
  | stored text tmp =>
      rw [hpc] at hinv
      rw [HeapIs.fresh_iff hinv.2.2 p]
      simp [HandlerPc.Filling, HandlerPc.tmp]
  | copied tmp =>
      rw [hpc] at hinv
      rw [HeapIs.filled_iff hinv p]
      simp [HandlerPc.Filling, HandlerPc.tmp]

/-- The current buffer has the string of the most recent line, once it has one. -/
theorem Inv.current_text {s : State} (h : Inv s) (hlast : s.last_tty_read = some p)
    (htext : s.heap p = .filled text) : text = cstr (s.latest.getD []) := by
  have hinv := h.pc
  have hshown : s.heap p = s.shown → text = cstr (s.latest.getD []) := by
    intro heq
    rw [htext, State.shown, Cell.filled.injEq] at heq
    exact heq
  cases hpc : s.pc with
  | reading =>
      rw [hpc] at hinv
      exact hshown (HeapIs.at_last hinv p hlast)
  | update text =>
      rw [hpc] at hinv
      exact hshown (hinv.2.2.at_last p hlast)
  | kept text tmp =>
      rw [hpc] at hinv
      exact hshown (hinv.2.2.2.at_last p hlast)
  | stored text tmp =>
      rw [hpc] at hinv
      rw [hinv.2.2.at_last p hlast] at htext
      exact absurd htext (by simp)
  | copied tmp =>
      rw [hpc] at hinv
      exact hshown (HeapIs.at_last hinv p hlast)

theorem Inv.exists_latest {s : State} (h : Inv s) (hlast : s.last_tty_read = some p) :
    ∃ l, s.latest = some l := by
  apply Option.ne_none_iff_exists'.mp
  intro hnone
  rw [h.null hnone] at hlast
  exact absurd hlast (by simp)

/-! ## What a call finds -/

variable {line : Option Nat} {window : List (Option Bytes)} {latest : Option Bytes}
  {heap' : Nat → Cell} {l : Bytes}

theorem Inv.fetch {s : State} (h : Inv s) :
    WindowInv s.heap s.last_tty_read s.latest s.last_tty_read [s.latest] where
  lines l hl := h.latest l (List.mem_singleton.mp hl).symm
  first hnone := by rw [← List.mem_singleton.mp hnone]; rfl
  begun p hp hnone := by
    obtain ⟨l, hl⟩ := h.exists_latest hp
    rw [hl, List.mem_singleton] at hnone
    exact absurd hnone (by simp)
  current _ _ _ := List.mem_singleton_self _
  content p hp text htext := by
    obtain ⟨l, hl⟩ := h.exists_latest hp
    refine ⟨l, by rw [hl]; exact List.mem_singleton_self _, ?_⟩
    rw [h.current_text hp htext, hl, Option.getD_some]

/-- A line is stored while the call runs. -/
theorem WindowInv.store (h : WindowInv heap last latest line window) (hl : IsLine l)
    (hheap : ∀ p text, heap' p = .filled text → heap p = .filled text) (last' : Option Nat) :
    WindowInv heap' last' (some l) line (window ++ [some l]) where
  lines k hk := by
    rcases List.mem_append.mp hk with hold | hnew
    · exact h.lines k hold
    · rw [Option.some.inj (List.mem_singleton.mp hnew)]
      exact hl
  first hnone := by
    have hold : none ∈ window := by simpa using hnone
    rw [List.head?_append, h.first hold, Option.some_or]
  begun p hp hnone := by
    apply h.begun p hp
    simpa using hnone
  current _ _ _ := by simp
  content p hp text htext := by
    obtain ⟨k, hk, hcstr⟩ := h.content p hp text (hheap p text htext)
    exact ⟨k, List.mem_append_left _ hk, hcstr⟩

/-- The current buffer is filled with the most recent line. -/
theorem WindowInv.fill (h : WindowInv heap (some p) (some l) line window) :
    WindowInv (Function.update heap p (.filled (cstr l))) (some p) (some l) line window where
  lines := h.lines
  first := h.first
  begun := h.begun
  current := h.current
  content q hq text htext := by
    by_cases heq : q = p
    · rw [heq, Function.update_self, Cell.filled.injEq] at htext
      exact ⟨l, h.current q hq (by rw [heq]), htext.symm⟩
    · rw [Function.update_of_ne heq] at htext
      exact h.content q hq text htext

/-- A buffer is freed while the call runs. -/
theorem WindowInv.free (h : WindowInv heap last latest line window) (p : Nat) :
    WindowInv (Function.update heap p .unused) last latest line window where
  lines := h.lines
  first := h.first
  begun := h.begun
  current := h.current
  content q hq text htext := by
    by_cases heq : q = p
    · rw [heq, Function.update_self] at htext
      exact absurd htext (by simp)
    · rw [Function.update_of_ne heq] at htext
      exact h.content q hq text htext

theorem see_eq_fetched {call : ReadCall} (h : call.see latest = .fetched line window) :
    ∃ before, call = .fetched line before ∧ window = before ++ [latest] := by
  cases call with
  | idle => exact absurd h (by simp [ReadCall.see])
  | fetched line' before =>
      rw [ReadCall.see, ReadCall.fetched.injEq] at h
      exact ⟨before, by rw [h.1], h.2.symm⟩

/-- What a call copies from a buffer that the session holds, up to the line feed, is one of
the lines it has seen. -/
theorem WindowInv.atomic (h : WindowInv heap last latest line window)
    (hnull : line = none → window.head? = some none)
    (hheld : ∀ p, line = some p → ∃ text, heap p = .filled text ∧ text.getLast? = some LF) :
    LineRead.Atomic ⟨copyString heap line, window⟩ := by
  cases line with
  | none => exact ⟨none, List.mem_of_mem_head? (hnull rfl), rfl⟩
  | some p =>
      obtain ⟨text, htext, hlast⟩ := hheld p rfl
      obtain ⟨k, hk, hcstr⟩ := h.content p rfl text htext
      rw [hcstr] at hlast
      have hwhole := (h.lines k hk).cstr_eq hlast
      refine ⟨some k, hk, ?_⟩
      simp only [copyString, htext]
      rw [hcstr, hwhole, Option.getD_some]

/-- Only such a copy is one of the lines. -/
theorem WindowInv.of_atomic (h : WindowInv heap last latest line window)
    (hatomic : LineRead.Atomic ⟨copyString heap line, window⟩) :
    (line = none → window.head? = some none) ∧
      ∀ p, line = some p → ∃ text, heap p = .filled text ∧ text.getLast? = some LF := by
  obtain ⟨recent, hmem, hobtained⟩ := hatomic
  constructor
  · intro hline
    cases recent with
    | none => exact h.first hmem
    | some k =>
        rw [hline, copyString, Option.some.injEq, Option.getD_some] at hobtained
        exact absurd hobtained.symm (h.lines k hmem).ne_nil
  · intro p hp
    cases recent with
    | none => exact absurd hmem (h.begun p hp)
    | some k =>
        simp only [hp, copyString] at hobtained
        split at hobtained
        · rename_i text htext
          refine ⟨text, htext, ?_⟩
          rw [Option.some.inj hobtained]
          exact (h.lines k hmem).getLast?
        · exact absurd hobtained (by simp)

/-! ## The steps of the handler -/

variable {abi : Abi} {s s' : State}

theorem inv_read {b : UInt8} (h : Inv s) (hstep : step abi s (.read b) = some s') : Inv s' := by
  have hinv := h.pc
  cases hpc : s.pc with
  | reading =>
      rw [hpc] at hinv
      simp only [step, hpc, Option.bind_eq_bind, Option.bind_eq_some_iff] at hstep
      obtain ⟨⟨reader, effects⟩, hread, hs'⟩ := hstep
      have hfit : s.cur.length + 32 ≤ INT_MAX := by
        by_contra hno
        rw [Reader.readByte, Reader.grow_overflow h.reader (by omega)] at hread
        exact absurd hread (by simp)
      by_cases hb : b = LF
      · obtain ⟨r, hr, hholds⟩ := Reader.readByte_LF abi h.reader hfit
        rw [hb, hr, Option.some.injEq, Prod.mk.injEq] at hread
        rw [← hread.1, ← hread.2, State.recordByte, if_pos hb] at hs'
        rw [← Option.some.inj hs']
        have hline : IsLine (s.cur ++ [LF]) := ⟨s.cur, rfl, h.cur⟩
        refine ⟨hholds, List.not_mem_nil, ?_, h.latest, h.null, h.calls, h.reads⟩
        rcases lineEffects_cases (cstr (s.cur ++ [LF])) with hreading | hupdate
        · rw [hreading]
          exact hinv
        · rw [hupdate]
          exact ⟨rfl, hline, hinv⟩
      · obtain ⟨r, hr, hholds⟩ := Reader.readByte_of_ne abi h.reader hfit hb
        rw [hr, Option.some.injEq, Prod.mk.injEq] at hread
        rw [← hread.1, ← hread.2, State.recordByte, if_neg hb] at hs'
        rw [← Option.some.inj hs']
        refine ⟨hholds, ?_, hinv, h.latest, h.null, h.calls, h.reads⟩
        simp [h.cur, Ne.symm hb]
  | _ => simp [step, hpc] at hstep

theorem inv_keep (h : Inv s) (hstep : step abi s .keep = some s') : Inv s' := by
  have hinv := h.pc
  cases hpc : s.pc with
  | update text =>
      rw [hpc] at hinv
      simp only [step, hpc, Option.some.injEq] at hstep
      rw [← hstep]
      obtain ⟨htext, hline, hheap⟩ := hinv
      exact ⟨h.reader, h.cur, ⟨htext, hline, rfl, hheap⟩, h.latest, h.null, h.calls, h.reads⟩
  | _ => simp [step, hpc] at hstep

/-- The calls that run see the line that is stored. -/
theorem calls_publish (h : Inv s) (hline : IsLine s.line)
    (hheap : ∀ p text, heap' p = .filled text → s.heap p = .filled text)
    (address : Option Nat) (i : Nat)
    (hcall : (s.publish address heap').calls i = .fetched line window) :
    WindowInv heap' address (some s.line) line window := by
  obtain ⟨before, hbefore, hwindow⟩ := see_eq_fetched hcall
  rw [hwindow]
  exact (h.calls i line before hbefore).store hline hheap address

theorem inv_publish {text : Bytes} {tmp address : Option Nat} (h : Inv s)
    (hline : IsLine s.line) (htext : text = cstr s.line)
    (hheap : ∀ p text, heap' p = .filled text → s.heap p = .filled text)
    (hbuffers : HeapIs heap' address .fresh tmp) :
    Inv { s.publish address heap' with pc := .stored text tmp } where
  reader := h.reader
  cur := h.cur
  pc := ⟨htext, rfl, hbuffers⟩
  latest l hl := by rw [← Option.some.inj hl]; exact hline
  null hnone := absurd hnone (by simp [State.publish])
  calls i _ _ hcall := calls_publish h hline hheap address i hcall
  reads := h.reads

theorem inv_store {address : Option Nat} (h : Inv s)
    (hstep : step abi s (.store address) = some s') : Inv s' := by
  have hinv := h.pc
  cases hpc : s.pc with
  | kept text tmp =>
      rw [hpc] at hinv
      obtain ⟨htext, hline, htmp, hbuffers⟩ := hinv
      cases address with
      | none =>
          simp only [step, hpc, Option.some.injEq] at hstep
          rw [← hstep, htmp]
          exact inv_publish h hline htext (fun _ _ hp => hp) hbuffers.store_null
      | some p =>
          simp only [step, hpc, Option.ite_none_right_eq_some, Option.some.injEq] at hstep
          obtain ⟨hfree, hs'⟩ := hstep
          rw [← hs', htmp]
          refine inv_publish h hline htext ?_ (hbuffers.store hfree)
          intro q text' hq
          by_cases heq : q = p
          · rw [heq, Function.update_self] at hq
            exact absurd hq (by simp)
          · rw [Function.update_of_ne heq] at hq
            exact hq
  | _ => simp [step, hpc] at hstep

theorem inv_strncpy (h : Inv s) (hstep : step abi s .strncpy = some s') : Inv s' := by
  have hinv := h.pc
  cases hpc : s.pc with
  | stored text tmp =>
      rw [hpc] at hinv
      obtain ⟨htext, hlatest, hbuffers⟩ := hinv
      cases hlast : s.last_tty_read with
      | none =>
          simp only [step, hpc, hlast, Option.some.injEq] at hstep
          rw [hlast] at hbuffers
          rw [← hstep]
          refine ⟨h.reader, h.cur, hbuffers.null _, h.latest, fun _ => rfl, ?_, h.reads⟩
          intro i line window hcall
          have hwindow := h.calls i line window hcall
          rw [hlast] at hwindow
          exact hwindow
      | some p =>
          simp only [step, hpc, hlast, Option.some.injEq] at hstep
          rw [hlast] at hbuffers
          have hfilled : s.shown = .filled text := by
            rw [State.shown, hlatest, Option.getD_some, htext]
          rw [← hstep]
          refine ⟨h.reader, h.cur, ?_, h.latest, ?_, ?_, h.reads⟩
          · have hnow := hbuffers.fill s.shown
            rw [hfilled] at hnow
            change HeapIs (Function.update s.heap p (.filled text)) (some p) s.shown tmp
            rw [hfilled]
            exact hnow
          · intro hnone
            change s.latest = none at hnone
            rw [hlatest] at hnone
            exact absurd hnone (by simp)
          · intro i line window hcall
            have hwindow := h.calls i line window hcall
            rw [hlast, hlatest] at hwindow
            change WindowInv (Function.update s.heap p (.filled text)) (some p) s.latest
              line window
            rw [hlatest, htext]
            exact hwindow.fill
  | _ => simp [step, hpc] at hstep

theorem inv_free (h : Inv s) (hstep : step abi s .free = some s') : Inv s' := by
  have hinv := h.pc
  cases hpc : s.pc with
  | copied tmp =>
      rw [hpc] at hinv
      cases tmp with
      | none =>
          simp only [step, hpc, Option.some.injEq] at hstep
          rw [← hstep]
          exact ⟨h.reader, h.cur, hinv, h.latest, h.null, h.calls, h.reads⟩
      | some p =>
          simp only [step, hpc, Option.some.injEq] at hstep
          rw [← hstep]
          exact ⟨h.reader, h.cur, HeapIs.free hinv, h.latest, h.null,
            fun i line window hcall => (h.calls i line window hcall).free p, h.reads⟩
  | _ => simp [step, hpc] at hstep

/-! ## The steps of a call -/

/-- The handler does not notice the calls. -/
theorem PcInv.beside {pc : HandlerPc} (h : PcInv s pc) (calls : Nat → ReadCall)
    (reads : List LineRead) : PcInv { s with calls := calls, reads := reads } pc := by
  cases pc with
  | reading => exact h
  | update text => exact h
  | kept text tmp => exact h
  | stored text tmp => exact h
  | copied tmp => exact h

theorem inv_fetch {i : Nat} (h : Inv s) (hstep : step abi s (.fetch i) = some s') : Inv s' := by
  cases hcall : s.calls i with
  | fetched line window => simp [step, hcall] at hstep
  | idle =>
      simp only [step, hcall, Option.some.injEq] at hstep
      rw [← hstep]
      refine ⟨h.reader, h.cur, h.pc.beside _ s.reads, h.latest, h.null, ?_, h.reads⟩
      intro j line window hj
      by_cases heq : j = i
      · simp only [heq, Function.update_self, ReadCall.fetched.injEq] at hj
        rw [← hj.1, ← hj.2]
        exact h.fetch
      · simp only [Function.update_of_ne heq] at hj
        exact h.calls j line window hj

/-- A copy is atomic exactly under its guard. -/
theorem atomic_iff_copyOk {i : Nat} (h : Inv s) (hcall : s.calls i = .fetched line window) :
    LineRead.Atomic ⟨copyString s.heap line, window⟩ ↔ CopyOk s (.copy i) := by
  have hwindow := h.calls i line window hcall
  have hsame : CopyOk s (.copy i) ↔ (line = none → window.head? = some none) ∧
      ∀ p, line = some p → ∃ text, s.heap p = .filled text ∧ text.getLast? = some LF := by
    simp only [CopyOk, hcall]
    cases line with
    | none => simp
    | some p =>
        change (s.Holds p ∧ ∀ text, s.heap p = .filled text → text.getLast? = some LF) ↔ _
        rw [h.holds_iff p]
        constructor
        · rintro ⟨⟨text, htext⟩, hlast⟩
          refine ⟨by simp, fun q hq => ⟨text, ?_, hlast text htext⟩⟩
          rw [← Option.some.inj hq, htext]
        · rintro ⟨_, hall⟩
          obtain ⟨text, htext, hlast⟩ := hall p rfl
          refine ⟨⟨text, htext⟩, fun text' htext' => ?_⟩
          rw [htext, Cell.filled.injEq] at htext'
          rw [← htext']
          exact hlast
  rw [hsame]
  constructor
  · exact hwindow.of_atomic
  · intro hok
    exact hwindow.atomic hok.1 hok.2

theorem copy_eq {i : Nat} (hstep : step abi s (.copy i) = some s') :
    ∃ line window, s.calls i = .fetched line window ∧
      s' = { s with
        calls := Function.update s.calls i .idle
        reads := s.reads ++ [⟨copyString s.heap line, window⟩] } := by
  cases hcall : s.calls i with
  | idle => simp [step, hcall] at hstep
  | fetched line window =>
      simp only [step, hcall, Option.some.injEq] at hstep
      exact ⟨line, window, rfl, hstep.symm⟩

theorem inv_copy {i : Nat} (h : Inv s) (hok : CopyOk s (.copy i))
    (hstep : step abi s (.copy i) = some s') : Inv s' := by
  obtain ⟨line, window, hcall, hs'⟩ := copy_eq hstep
  rw [hs']
  refine ⟨h.reader, h.cur, h.pc.beside _ _, h.latest, h.null, ?_, ?_⟩
  · intro j line' window' hj
    by_cases heq : j = i
    · simp only [heq, Function.update_self] at hj
      exact absurd hj (by simp)
    · simp only [Function.update_of_ne heq] at hj
      exact h.calls j line' window' hj
  · intro read hread
    rcases List.mem_append.mp hread with hold | hnew
    · exact h.reads read hold
    · rw [List.mem_singleton.mp hnew]
      exact (atomic_iff_copyOk h hcall).mpr hok

theorem inv_step {a : Action} (h : Inv s) (hok : CopyOk s a)
    (hstep : step abi s a = some s') : Inv s' := by
  cases a with
  | read b => exact inv_read h hstep
  | keep => exact inv_keep h hstep
  | store address => exact inv_store h hstep
  | strncpy => exact inv_strncpy h hstep
  | free => exact inv_free h hstep
  | fetch i => exact inv_fetch h hstep
  | copy i => exact inv_copy h hok hstep

/-- A step that misses the guard is a copy that is not atomic. -/
theorem not_atomic_of_not_copyOk {a : Action} (h : Inv s) (hno : ¬ CopyOk s a)
    (hstep : step abi s a = some s') : ¬ Atomic s' := by
  cases a with
  | copy i =>
      obtain ⟨line, window, hcall, hs'⟩ := copy_eq hstep
      intro hatomic
      rw [hs'] at hatomic
      exact hno ((atomic_iff_copyOk h hcall).mp (hatomic _ (by simp)))
  | read b => exact absurd trivial hno
  | keep => exact absurd trivial hno
  | store address => exact absurd trivial hno
  | strncpy => exact absurd trivial hno
  | free => exact absurd trivial hno
  | fetch i => exact absurd trivial hno

/-! ## The result -/

/-- All calls of a run are atomic exactly when they copy buffers that the session holds. -/
theorem last_read_atomic_iff (abi : Abi) (actions : List Action) :
    Along (step abi) Atomic State.init actions ↔
      Guarded (step abi) CopyOk State.init actions := by
  apply along_iff_guarded (I := Inv)
  · intro s h
    exact h.reads
  · intro s a s' h hok hstep
    exact inv_step h hok hstep
  · intro s a s' h hno hstep
    exact not_atomic_of_not_copyOk h hno hstep
  · exact inv_init

/-- Between its two steps a call loses its buffer to the next line. -/
theorem not_last_read_atomic_freed :
    ¬ ∀ (abi : Abi) (actions : List Action), Along (step abi) Atomic State.init actions := by
  intro h
  let one (b : UInt8) (address : Nat) : List Action :=
    [.read b, .read LF, .keep, .store (some address), .strncpy, .free]
  have hrun : (run (step .lp64) State.init
      (one 97 1 ++ [.fetch 0] ++ one 98 2 ++ [.copy 0])).map (·.reads) =
        some [⟨none, [some [97, LF], some [98, LF]]⟩] := by decide +kernel
  rw [Option.map_eq_some_iff] at hrun
  obtain ⟨s, hs, hreads⟩ := hrun
  have hatomic := (h .lp64 _).last hs ⟨none, [some [97, LF], some [98, LF]]⟩ (by simp [hreads])
  obtain ⟨latest, _, hobtained⟩ := hatomic
  exact absurd hobtained (by simp)

end Susrv.Native.LastRead
