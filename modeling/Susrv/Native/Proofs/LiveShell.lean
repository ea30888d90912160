import Mathlib.Data.List.Count
import Susrv.Native.Proofs.ExecCalls
import Susrv.Native.Proofs.Framing

/-!
# Exec calls on a live shell

What holds of every run in which the shell stays alive, nobody calls exit and
every command prints whole lines without the end-of-command tag.  The mutex
keeps the four writes of a command together (`Submission`), so the shell sees
frame after frame (`ShellFlow`), and what the handler has still to do are the
codes and signals of the frames echoed so far (`HandlerFlow`).
-/

namespace Susrv.Native

open Base Base.CString Base.Transition

variable {τ : Type}

/-- The runs considered.  NUL bytes do no harm in a line that is complete. -/
def Considered (s : State τ) : Action τ → Prop
  | .invoke _ e => e ≠ .exit
  | .shell (.print out) => ¬ EOC_TAG <:+: s.shell.tail ++ out
  | .shell (.finish _) => s.shell.tail = []
  | .shell .die | .shell .closePeer => False
  | _ => True

/-! ## Submission -/

/-- The call owns the mutex. -/
def Call.holds : Call → Bool
  | .exec _ .writeCmd | .exec _ (.writeLf _) | .exec _ (.writeEoc _) | .exec _ (.writeEnd _)
  | .exec _ (.reset _) | .exec _ (.wait _) | .exec _ (.unlock _) => true
  | _ => false

/-- How many of its four writes the call has made, while it makes them. -/
def Call.sent : Call → Nat
  | .exec _ (.writeLf _) => 1
  | .exec _ (.writeEoc _) => 2
  | .exec _ (.writeEnd _) => 3
  | _ => 0

/-- Chunk `i` of the input of the shell. -/
def Chunk.Fits (c : Chunk) (i : Nat) : Prop :=
  match c with
  | .cmd _ => i % 4 = 0
  | .lf => i % 4 = 1 ∨ i % 4 = 3
  | .eocCmd => i % 4 = 2
  | .exitCmd => False

structure Submission (s : State τ) : Prop where
  owner_iff : ∀ t, s.sync.owner = some (.caller t) ↔ (s.calls t).holds = true
  not_handler : s.sync.owner ≠ some .handler
  sent : ∀ t, (s.calls t).holds = true → s.written.length % 4 = (s.calls t).sent
  whole : s.sync.owner = none → s.written.length % 4 = 0
  layout : ∀ i (c : Chunk), s.written[i]? = some c → c.Fits i
  submitted : s.hist.submitted = (s.written.length + 3) / 4
  frame_lt : ∀ t k, (s.calls t).frame = some k → k < s.hist.submitted

theorem submission_published (code : Int) : Submission (State.published code : State τ) := by
  constructor <;>
    simp [State.published, State.opening, Monitor.init, Call.holds, History.init]

variable [DecidableEq τ] {s s' : State τ} {t : τ}

theorem Submission.goto {c : Call} (hs : Submission s)
    (hcalls : s'.calls = Function.update s.calls t c)
    (hself : s'.sync.owner = some (.caller t) ↔ c.holds = true)
    (hother : ∀ u, u ≠ t → (s'.sync.owner = some (.caller u) ↔ s.sync.owner = some (.caller u)))
    (hhandler : s'.sync.owner ≠ some .handler)
    (hkeep : ∀ u, u ≠ t → s.sync.owner = some (.caller u) → s'.written.length = s.written.length)
    (hsent : c.holds = true → s'.written.length % 4 = c.sent)
    (hwhole : s'.sync.owner = none → s'.written.length % 4 = 0)
    (hlayout : ∀ i (c : Chunk), s'.written[i]? = some c → c.Fits i)
    (hsubmitted : s'.hist.submitted = (s'.written.length + 3) / 4)
    (hmono : s.hist.submitted ≤ s'.hist.submitted)
    (hframe : ∀ k, c.frame = some k → k < s'.hist.submitted) : Submission s' := by
  have hcall : ∀ u, s'.calls u = if u = t then c else s.calls u := by
    intro u
    rw [hcalls, Function.update_apply]
  refine ⟨fun u => ?_, hhandler, fun u hu => ?_, hwhole, hlayout, hsubmitted, fun u k hk => ?_⟩
  · rw [hcall u]
    split
    · rename_i hut
      rw [hut]
      exact hself
    · rw [hother u ‹_›]
      exact hs.owner_iff u
  · rw [hcall u] at hu ⊢
    split at hu
    · rename_i hut
      rw [if_pos hut]
      exact hsent hu
    · rename_i hut
      rw [if_neg hut, hkeep u hut ((hs.owner_iff u).mpr hu)]
      exact hs.sent u hu
  · rw [hcall u] at hk
    split at hk
    · exact hframe k hk
    · exact lt_of_lt_of_le (hs.frame_lt u k hk) hmono

section Moves

variable {c c' : Call} {s₁ : State τ}

/-- A move that leaves the mutex and the input alone. -/
theorem Submission.keep (hs : Submission s) (hpc : s.calls t = c) (hcalls : s₁.calls = s.calls)
    (howner : s₁.sync.owner = s.sync.owner) (hwritten : s₁.written = s.written)
    (hsubmitted : s₁.hist.submitted = s.hist.submitted) (hholds : c'.holds = c.holds)
    (hsent : c'.sent = c.sent) (hframe : ∀ k, c'.frame = some k → c.frame = some k) :
    Submission (s₁.goto t c') := by
  subst hpc
  refine hs.goto (t := t) (c := c') (by simp [State.goto, hcalls]) ?_ ?_ ?_ ?_ ?_ ?_ ?_ ?_ ?_ ?_ <;>
    simp only [State.goto, howner, hwritten, hsubmitted, hholds, hsent]
  · exact hs.owner_iff t
  · exact fun _ _ => trivial
  · exact hs.not_handler
  · exact fun _ _ _ => trivial
  · exact hs.sent t
  · exact hs.whole
  · exact hs.layout
  · exact hs.submitted
  · exact le_rfl
  · exact fun k hk => hs.frame_lt t k (hframe k hk)

/-- The call locks the mutex. -/
theorem Submission.acquire (hs : Submission s) (hpc : s.calls t = c)
    {m : Monitor (Party τ)} (hfree : s.sync.owner = none) (howner : m.owner = some (.caller t))
    (hholds : c'.holds = true) (hsent : c'.sent = 0)
    (hframe : ∀ k, c'.frame = some k → c.frame = some k) :
    Submission ({ s with sync := m }.goto t c') := by
  subst hpc
  refine hs.goto (t := t) (c := c') rfl ?_ ?_ ?_ ?_ ?_ ?_ hs.layout hs.submitted le_rfl
    (fun k hk => hs.frame_lt t k (hframe k hk)) <;> simp only [State.goto, howner]
  · simp [hholds]
  · intro u hut
    simp [hfree, Ne.symm hut]
  · simp
  · exact fun _ _ _ => trivial
  · intro _
    rw [hsent]
    exact hs.whole hfree
  · simp

/-- The call gives the mutex up after its writes. -/
theorem Submission.release (hs : Submission s) (hpc : s.calls t = c)
    {m : Monitor (Party τ)} (howner : m.owner = none) (hheld : c.holds = true) (hsent : c.sent = 0)
    (hholds : c'.holds = false) (hframe : ∀ k, c'.frame = some k → c.frame = some k) :
    Submission ({ s with sync := m }.goto t c') := by
  subst hpc
  have hown := (hs.owner_iff t).mpr hheld
  refine hs.goto (t := t) (c := c') rfl ?_ ?_ ?_ ?_ ?_ ?_ hs.layout hs.submitted le_rfl
    (fun k hk => hs.frame_lt t k (hframe k hk)) <;> simp only [State.goto, howner]
  · simp [hholds]
  · intro u hut
    simp [hown, Ne.symm hut]
  · simp
  · exact fun _ _ _ => trivial
  · simp [hholds]
  · intro _
    rw [← hsent]
    exact hs.sent t hheld

/-- The owner of the mutex writes its next chunk. -/
theorem Submission.append (hs : Submission s) (hpc : s.calls t = c) {ch : Chunk}
    (hcalls : s₁.calls = s.calls) (howner : s₁.sync.owner = s.sync.owner)
    (hwritten : s₁.written = s.written ++ [ch]) (hheld : c.holds = true) (hholds : c'.holds = true)
    (hfits : ch.Fits c.sent) (hsent : c'.sent = (c.sent + 1) % 4)
    (hsubmitted : s₁.hist.submitted = (s.written.length + 1 + 3) / 4)
    (hframe : ∀ k, c'.frame = some k → c.frame = some k ∨ k < s₁.hist.submitted) :
    Submission (s₁.goto t c') := by
  subst hpc
  have hown := (hs.owner_iff t).mpr hheld
  have hmod := hs.sent t hheld
  have hmono : s.hist.submitted ≤ s₁.hist.submitted := by
    rw [hsubmitted, hs.submitted]
    omega
  refine hs.goto (t := t) (c := c') (by simp [State.goto, hcalls]) ?_ ?_ ?_ ?_ ?_ ?_
    ?_ ?_ hmono ?_ <;>
    simp only [State.goto, howner, hwritten, List.length_append, List.length_singleton]
  · simp [hown, hholds]
  · exact fun _ _ => trivial
  · exact hs.not_handler
  · intro u hut hu
    rw [hown] at hu
    cases hu
    exact absurd rfl hut
  · intro _
    rw [hsent, ← hmod]
    omega
  · simp [hown]
  · intro i d hd
    rw [List.getElem?_append] at hd
    split at hd
    · exact hs.layout i d hd
    · rename_i hge
      have hi : i = s.written.length := by
        by_contra hne
        rw [List.getElem?_eq_none (by simp; omega)] at hd
        cases hd
      subst hi
      simp only [Nat.sub_self, List.getElem?_cons_zero, Option.some.injEq] at hd
      subst hd
      have hmod' : s.written.length % 4 = (s.calls t).sent % 4 := by omega
      cases ch <;> simp only [Chunk.Fits] at hfits ⊢ <;> omega
  · exact hsubmitted
  · intro k hk
    rcases hframe k hk with hold | hnew
    · exact lt_of_lt_of_le (hs.frame_lt t k hold) hmono
    · exact hnew

end Moves

/-- The next piece of a frame that has been begun is written. -/
theorem Submission.write (hs : Submission s) (hpc : s.calls t = c) {ch : Chunk}
    (hheld : c.holds = true) (hholds : c'.holds = true) (hfits : ch.Fits c.sent)
    (hsent : c'.sent = (c.sent + 1) % 4) (hbegun : 0 < c.sent) (hframe : c'.frame = c.frame) :
    Submission ((s.write ch).goto t c') ∧
      s.written.length ≤ ((s.write ch).goto t c').written.length := by
  have hmod : s.written.length % 4 = c.sent := by
    rw [← hpc]
    apply hs.sent t
    rw [hpc, hheld]
  refine ⟨hs.append hpc rfl rfl rfl hheld hholds hfits hsent ?_ ?_,
    by simp [State.goto, State.write]⟩
  · simp only [State.write, hs.submitted]
    omega
  · intro k hk
    rw [hframe] at hk
    exact .inl hk

theorem submission_exec {cmd : Bytes} {pc : ExecPc} (hs : Submission s) (hl : Live s)
    (hpc : s.calls t = .exec cmd pc) (h : execStep s t cmd pc = some s') :
    Submission s' ∧ s.written.length ≤ s'.written.length := by
  have hmod : (s.calls t).holds = true → s.written.length % 4 = (s.calls t).sent := hs.sent t
  rw [hpc] at hmod
  cases pc <;> simp only [execStep, hl.deref, Option.some.injEq] at h
  case test =>
    rw [if_pos hl.bound] at h
    subst h
    exact ⟨hs.keep hpc rfl rfl rfl rfl rfl rfl (fun _ hk => hk), le_rfl⟩
  case lock =>
    subst h
    exact ⟨hs.keep hpc rfl rfl rfl rfl rfl rfl (fun _ hk => hk), le_rfl⟩
  case locking =>
    rw [if_neg (by simp [hl.allocated])] at h
    obtain ⟨m, hm, rfl⟩ := Option.map_eq_some_iff.mp h
    obtain ⟨hfree, rfl⟩ := Monitor.tryLock_eq_some.mp hm
    exact ⟨hs.acquire hpc hfree rfl rfl rfl (fun _ hk => hk), le_rfl⟩
  case writeCmd =>
    subst h
    have hmod := hmod rfl
    simp only [Call.sent] at hmod
    refine ⟨hs.append hpc rfl rfl rfl rfl rfl rfl rfl ?_ ?_,
      by simp [State.goto, State.write]⟩
    · simp only [hs.submitted]
      omega
    · intro k hk
      cases hk
      exact .inr (Nat.lt_succ_self _)
  case writeLf k =>
    subst h
    exact hs.write hpc rfl rfl (.inl rfl) rfl (by simp [Call.sent]) rfl
  case writeEoc k =>
    subst h
    exact hs.write hpc rfl rfl rfl rfl (by simp [Call.sent]) rfl
  case writeEnd k =>
    subst h
    exact hs.write hpc rfl rfl (.inr rfl) (by simp [Call.sent]) (by simp [Call.sent]) rfl
  case reset k =>
    subst h
    exact ⟨hs.keep hpc rfl rfl rfl rfl rfl rfl (fun _ hk => hk), le_rfl⟩
  case wait k =>
    subst h
    exact ⟨hs.release hpc rfl rfl rfl rfl (fun _ hk => hk), le_rfl⟩
  case waiting k =>
    split at h
    · cases h
    · rw [if_neg (by simp [hl.allocated])] at h
      obtain ⟨m, hm, rfl⟩ := Option.map_eq_some_iff.mp h
      obtain ⟨-, hfree, rfl⟩ := Monitor.reacquire_eq_some.mp hm
      exact ⟨hs.acquire hpc hfree rfl rfl rfl (fun _ hk => hk), le_rfl⟩
  case unlock k =>
    subst h
    exact ⟨hs.release hpc rfl rfl rfl rfl (fun _ hk => hk), le_rfl⟩
  case read k =>
    subst h
    exact ⟨hs.keep hpc rfl rfl rfl rfl rfl rfl (fun _ hk => by cases hk), le_rfl⟩

theorem submission_access {resume : Call} {access : State τ → State τ} {pc : AccessPc}
    {c : AccessPc → Call} (hs : Submission s) (hl : Live s) (hpc : s.calls t = c pc)
    (hcalls : (access s).calls = s.calls) (hsync : (access s).sync = s.sync)
    (hwritten : (access s).written = s.written) (hhist : (access s).hist = s.hist)
    (hholds : ∀ pc', (c pc').holds = false ∧ (c pc').sent = 0 ∧ (c pc').frame = none)
    (hresume : resume = c .access) (h : accessStep s t resume access pc = some s') :
    Submission s' ∧ s.written.length ≤ s'.written.length := by
  obtain ⟨hno, hsent, hframe⟩ := hholds pc
  cases pc <;>
    simp only [accessStep, hl.deref, hl.bound, if_true, Option.some.injEq] at h <;> subst h
  case test =>
    obtain ⟨hno', hsent', hframe'⟩ := hholds .access
    subst hresume
    exact ⟨hs.keep hpc rfl rfl rfl rfl (hno'.trans hno.symm) (hsent'.trans hsent.symm)
      (by simp [hframe']), le_rfl⟩
  case access =>
    refine ⟨hs.keep hpc hcalls (by rw [hsync]) hwritten (by rw [hhist])
      hno.symm hsent.symm (by simp), ?_⟩
    rw [State.goto, hwritten]

theorem submission_caller {ans : Answer τ} (hs : Submission s) (hl : Live s)
    (hno : (s.calls t).exiting = false) (h : callStep s t ans (s.calls t) = some s') :
    Submission s' ∧ s.written.length ≤ s'.written.length := by
  cases hpc : s.calls t with
  | idle => simp [hpc, callStep] at h
  | exit pc => simp [hpc, Call.exiting] at hno
  | exec cmd pc =>
      rw [hpc] at h
      exact submission_exec hs hl hpc h
  | setTtyEcho echo pc =>
      rw [hpc, callStep] at h
      exact submission_access (c := .setTtyEcho echo) hs hl hpc rfl rfl rfl rfl
        (fun _ => ⟨rfl, rfl, rfl⟩) rfl h
  | getTtyEcho pc =>
      rw [hpc, callStep] at h
      exact submission_access (c := .getTtyEcho) hs hl hpc rfl rfl rfl rfl
        (fun _ => ⟨rfl, rfl, rfl⟩) rfl h
  | lastTtyRead pc =>
      rw [hpc, callStep] at h
      exact submission_access (c := .lastTtyRead) hs hl hpc rfl rfl rfl rfl
        (fun _ => ⟨rfl, rfl, rfl⟩) rfl h

omit [DecidableEq τ] in
theorem Submission.same (hs : Submission s) (hcalls : s'.calls = s.calls)
    (howner : s'.sync.owner = s.sync.owner) (hwritten : s'.written = s.written)
    (hsubmitted : s'.hist.submitted = s.hist.submitted) : Submission s' := by
  constructor <;> simp only [hcalls, howner, hwritten, hsubmitted]
  · exact hs.owner_iff
  · exact hs.not_handler
  · exact hs.sent
  · exact hs.whole
  · exact hs.layout
  · exact hs.submitted
  · exact hs.frame_lt

omit [DecidableEq τ] in
theorem Submission.shell (hs : Submission s) (hk : ShellKeeps s s') : Submission s' :=
  hs.same hk.calls (by rw [hk.sync]) hk.written hk.submitted

/-! ## The shell -/

/-- The shell has taken `taken` chunks; the command of the last frame taken may
still run. -/
structure ShellFlow (s : State τ) : Prop where
  alive : s.shell.alive = true
  peer : s.shell.peerOpen = true
  taken_le : s.shell.taken ≤ s.written.length
  statuses : s.hist.statuses.length + s.shell.running.toNat = (s.shell.taken + 3) / 4
  echoed : s.hist.echoed = (s.shell.taken + 1) / 4
  running : s.shell.running = true → s.shell.taken % 4 = 1
  tail : s.shell.running = false → s.shell.tail = []
  status : s.shell.running = false → s.shell.taken % 4 = 1 ∨ s.shell.taken % 4 = 2 →
    s.hist.statuses.getLast? = some s.shell.status
  range : ∀ n ∈ s.hist.statuses, n ≤ 255

def Effect.code : Effect → Option Int
  | .exitCode n => some n
  | _ => none

def HandlerPc.effects : HandlerPc → List Effect
  | .perform effects => effects
  | _ => []

/-- What the handler has still to do for the lines delivered so far. -/
def State.pending (s : State τ) : List Effect :=
  s.handler.effects ++ s.toOwner.flatMap fun line => lineEffects (cstr line)

/-- The codes not yet stored and the signals not yet sent belong to the last
frames echoed. -/
structure HandlerFlow (s : State τ) : Prop where
  codes : s.pending.filterMap Effect.code =
    ((s.hist.statuses.take s.hist.echoed).drop s.hist.stored).map Nat.cast
  stored_le : s.hist.stored ≤ s.hist.echoed
  signals : s.hist.signalled + s.pending.count .signal = s.hist.echoed

section

omit [DecidableEq τ]

/-- The shell may be fed further. -/
theorem ShellFlow.same (hs : ShellFlow s) (hshell : s'.shell = s.shell)
    (hwritten : s.written.length ≤ s'.written.length)
    (hstatuses : s'.hist.statuses = s.hist.statuses)
    (hechoed : s'.hist.echoed = s.hist.echoed) : ShellFlow s' := by
  constructor <;> simp only [hshell, hstatuses, hechoed]
  · exact hs.alive
  · exact hs.peer
  · exact hs.taken_le.trans hwritten
  · exact hs.statuses
  · exact hs.echoed
  · exact hs.running
  · exact hs.tail
  · exact hs.status
  · exact hs.range

theorem HandlerFlow.same (hs : HandlerFlow s) (hpending : s'.pending = s.pending)
    (hstatuses : s'.hist.statuses = s.hist.statuses) (hechoed : s'.hist.echoed = s.hist.echoed)
    (hstored : s'.hist.stored = s.hist.stored) (hsignalled : s'.hist.signalled = s.hist.signalled) :
    HandlerFlow s' := by
  constructor <;> simp only [hpending, hstatuses, hechoed, hstored, hsignalled]
  · exact hs.codes
  · exact hs.stored_le
  · exact hs.signals

theorem ShellFlow.echoed_le (hs : ShellFlow s) : s.hist.echoed ≤ s.hist.statuses.length := by
  have hstatuses := hs.statuses
  have hechoed := hs.echoed
  cases hrun : s.shell.running with
  | true =>
      have hmod := hs.running hrun
      rw [hrun, Bool.toNat_true] at hstatuses
      omega
  | false =>
      rw [hrun, Bool.toNat_false] at hstatuses
      omega

end

/-- Whole lines without the tag bring no work but logging. -/
theorem quiet_lines {cur out : Bytes} (htag : ¬ EOC_TAG <:+: cur ++ out) :
    Quiet ((splitLines LF cur out).1.flatMap fun line => lineEffects (cstr line)) := by
  intro e he
  obtain ⟨line, hline, he⟩ := List.mem_flatMap.mp he
  have hclean : ¬ EOC_TAG <:+: line :=
    fun hin => htag (hin.trans (infix_of_mem_splitLines hline))
  rw [lineEffects_of_untagged hclean, List.mem_singleton] at he
  exact ⟨_, he⟩

theorem Quiet.codes {effects : List Effect} (h : Quiet effects) :
    effects.filterMap Effect.code = [] := by
  apply List.filterMap_eq_nil_iff.mpr
  intro e he
  obtain ⟨text, rfl⟩ := h e he
  rfl

section

omit [DecidableEq τ]

theorem State.print_of_open (hpeer : s.shell.peerOpen = true) (out : Bytes) :
    s.print out =
      { s with
        toOwner := s.toOwner ++ (splitLines LF s.shell.tail out).1
        shell := { s.shell with tail := (splitLines LF s.shell.tail out).2 } } := by
  rw [State.print, if_pos hpeer]

theorem flow_print {out : Bytes} (hs : ShellFlow s) (hh : HandlerFlow s)
    (hrun : s.shell.running = true) (htag : ¬ EOC_TAG <:+: s.shell.tail ++ out) :
    ShellFlow (s.print out) ∧ HandlerFlow (s.print out) := by
  have hquiet := quiet_lines htag
  rw [State.print_of_open hs.peer]
  constructor
  · obtain ⟨h₁, h₂, h₃, h₄, h₅, h₆, -, h₈, h₉⟩ := hs
    exact ⟨h₁, h₂, h₃, h₄, h₅, h₆, fun hno => by simp [hrun] at hno, h₈, h₉⟩
  · refine ⟨?_, hh.stored_le, ?_⟩
    · rw [← hh.codes]
      simp [State.pending, hquiet.codes]
    · rw [← hh.signals]
      simp [State.pending, hquiet.count_signal]

/-- The end-of-command line of a finished frame. -/
theorem flow_echo (hs : ShellFlow s) (hh : HandlerFlow s) (hsub : Submission s)
    (hrun : s.shell.running = false) (hat : s.written[s.shell.taken]? = some .eocCmd) :
    let s₁ := { s with
      shell := { s.shell with taken := s.shell.taken + 1, status := 0 }
      hist := { s.hist with echoed := s.hist.echoed + 1 } }
    ShellFlow (s₁.print (eocLine s.shell.status)) ∧
      HandlerFlow (s₁.print (eocLine s.shell.status)) := by
  intro s₁
  have hmod : s.shell.taken % 4 = 2 := hsub.layout _ _ hat
  have hlt : s.shell.taken < s.written.length := List.getElem?_eq_some_iff.mp hat |>.1
  have hstatuses := hs.statuses
  have hechoed := hs.echoed
  rw [hrun, Bool.toNat_false] at hstatuses
  have hlast := hs.status hrun (.inr hmod)
  have hlen : s.hist.statuses.length = s.hist.echoed + 1 := by omega
  have hstatus : s.hist.statuses = s.hist.statuses.take s.hist.echoed ++ [s.shell.status] := by
    obtain ⟨front, hfront⟩ := List.getLast?_eq_some_iff.mp hlast
    have hfl : front.length = s.hist.echoed := by
      rw [hfront, List.length_append, List.length_singleton] at hlen
      omega
    rw [hfront, ← hfl, List.take_left]
  have hrange : s.shell.status ≤ 255 := hs.range _ (List.mem_of_getLast? hlast)
  have heffects : lineEffects (cstr (eocLine s.shell.status)) =
      [.exitCode s.shell.status, .signal] := by
    rw [cstr_eq_self (nul_not_mem_eocLine _), lineEffects_eocLine hrange]
  have htail : s₁.shell.tail = [] := hs.tail hrun
  rw [State.print_of_open (s := s₁) hs.peer, htail, splitLines_eocLine]
  constructor
  · refine ⟨hs.alive, hs.peer, hlt, ?_, ?_, fun h => ?_, fun _ => rfl, fun _ h => ?_, hs.range⟩
    · simp only [s₁, hrun, Bool.toNat_false]
      omega
    · simp only [s₁]
      omega
    · simp [s₁, hrun] at h
    · simp only [s₁] at h
      omega
  · refine ⟨?_, ?_, ?_⟩
    · simp only [State.pending, s₁, List.flatMap_append, List.flatMap_cons, List.flatMap_nil,
        List.append_nil, heffects, ← List.append_assoc, List.filterMap_append]
      rw [← List.filterMap_append, ← State.pending, hh.codes]
      have hle : s.hist.stored ≤ (s.hist.statuses.take s.hist.echoed).length := by
        rw [List.length_take]
        have := hh.stored_le
        omega
      rw [List.take_of_length_le (Nat.le_of_eq hlen)]
      conv_rhs => rw [hstatus, List.drop_append_of_le_length hle, List.map_append]
      simp [Effect.code]
    · simp only [s₁]
      have := hh.stored_le
      omega
    · simp only [State.pending, s₁, List.flatMap_append, List.flatMap_cons, List.flatMap_nil,
        List.append_nil, heffects, ← List.append_assoc, List.count_append]
      have hsignals := hh.signals
      rw [State.pending, List.count_append] at hsignals
      have hone : List.count Effect.signal [Effect.exitCode s.shell.status, Effect.signal] = 1 := by
        simp
      omega

/-- The shell takes a chunk that brings no output: the command of a frame, or a
line feed. -/
theorem flow_chunk {c : Chunk} {running : Bool} (hs : ShellFlow s) (hh : HandlerFlow s)
    (hsub : Submission s) (hrun : s.shell.running = false)
    (hat : s.written[s.shell.taken]? = some c)
    (hc : (∃ text, c = .cmd text ∧ running = true) ∨ (c = .lf ∧ running = false)) :
    let s₁ := { s with shell := { s.shell with taken := s.shell.taken + 1, running := running } }
    ShellFlow s₁ ∧ HandlerFlow s₁ := by
  have hfits := hsub.layout _ _ hat
  have hstatuses := hs.statuses
  have hechoed := hs.echoed
  rw [hrun, Bool.toNat_false] at hstatuses
  refine ⟨⟨hs.alive, hs.peer, (List.getElem?_eq_some_iff.mp hat).1, ?_, ?_, ?_,
    fun _ => hs.tail hrun, ?_, hs.range⟩, ⟨hh.codes, hh.stored_le, hh.signals⟩⟩ <;>
    obtain ⟨text, rfl, rfl⟩ | ⟨rfl, rfl⟩ := hc <;> simp only [Chunk.Fits] at hfits <;> simp only
  · rw [Bool.toNat_true]
    omega
  · rw [Bool.toNat_false]
    omega
  · omega
  · omega
  · exact fun _ => by omega
  · exact fun h => absurd h (by decide)
  · exact fun h => absurd h (by decide)
  · exact fun _ h => hs.status hrun (by omega)

/-- The running command ends. -/
theorem flow_finish {status : Nat} (hs : ShellFlow s) (hh : HandlerFlow s)
    (hrun : s.shell.running = true) (htail : s.shell.tail = []) (hstatus : status ≤ 255) :
    let s₁ := { s with
      shell := { s.shell with running := false, status := status }
      hist := { s.hist with statuses := s.hist.statuses ++ [status] } }
    ShellFlow s₁ ∧ HandlerFlow s₁ := by
  have hstatuses := hs.statuses
  rw [hrun, Bool.toNat_true] at hstatuses
  constructor
  · refine ⟨hs.alive, hs.peer, hs.taken_le, ?_, hs.echoed, fun h => ?_, fun _ => htail,
      fun _ _ => ?_, fun n hn => ?_⟩
    · rw [List.length_append, List.length_singleton, Bool.toNat_false]
      exact hstatuses
    · cases h
    · exact List.getLast?_concat
    · rcases List.mem_append.mp hn with hn | hn
      · exact hs.range n hn
      · rw [List.mem_singleton.mp hn]
        exact hstatus
  · refine ⟨?_, hh.stored_le, hh.signals⟩
    simp only [List.take_append_of_le_length hs.echoed_le]
    exact hh.codes

theorem flow_shell {a : ShellAction} (hs : ShellFlow s) (hh : HandlerFlow s) (hsub : Submission s)
    (hok : Considered s (.shell a)) (h : shellStep s a = some s') :
    ShellFlow s' ∧ HandlerFlow s' := by
  cases a <;> simp only [shellStep] at h
  case take =>
    split at h
    · cases h
    · rename_i hready
      simp only [Bool.or_eq_true, not_or, Bool.not_eq_true] at hready
      have hrun := hready.2
      split at h
      · cases h
      · rename_i text hat
        cases h
        exact flow_chunk hs hh hsub hrun hat (.inl ⟨text, rfl, rfl⟩)
      · rename_i hat
        rw [← Option.some.inj h]
        have hflow := flow_chunk hs hh hsub hrun hat (.inr ⟨rfl, rfl⟩)
        rw [← hrun] at hflow
        exact hflow
      · rename_i hat
        rw [if_pos hs.peer] at h
        rw [← Option.some.inj h]
        exact flow_echo hs hh hsub hrun hat
      · rename_i hat
        exact absurd (hsub.layout _ _ hat) id
  case print out =>
    split at h
    · rename_i hready
      cases h
      rw [Bool.and_eq_true] at hready
      exact flow_print hs hh hready.2 hok
    · cases h
  case finish status =>
    split at h
    · rename_i hready
      cases h
      simp only [Bool.and_eq_true, decide_eq_true_eq] at hready
      exact flow_finish hs hh hready.1.2 hok hready.2
    · cases h
  case die => exact absurd hok id
  case closePeer => exact absurd hok id

end

/-! ## The handler -/

omit [DecidableEq τ] in
theorem State.pending_toHandler (s : State τ) {pc : HandlerPc}
    (h : pc.effects = s.handler.effects) :
    (s.toHandler pc).pending = s.pending := by
  unfold State.pending State.toHandler
  rw [h]

/-- On a live shell the handler goes on to the next effect or performs one. -/
theorem handlerStep_live {ans : Answer τ} (hl : Live s) (hpeer : s.shell.peerOpen = true)
    (heof : s.handler.atEof = false) (h : handlerStep s ans s.handler = some s') :
    (∃ pc lines, s' = { s with toOwner := lines }.toHandler pc ∧ s'.pending = s.pending ∧
      pc.atEof = false) ∨
    ∃ e rest s₁, s.handler = .perform (e :: rest) ∧ applyEffect s ans e = some s₁ ∧
      s' = s₁.toHandler (.perform rest) := by
  cases hpc : s.handler <;> rw [hpc] at h heof
  case start =>
    cases h
    exact .inl ⟨_, s.toOwner, rfl, s.pending_toHandler (by rw [hpc]; rfl), rfl⟩
  case read =>
    rw [handlerStep, hl.deref] at h
    cases h
    exact .inl ⟨_, s.toOwner, rfl, s.pending_toHandler (by rw [hpc]; rfl), rfl⟩
  case reading =>
    simp only [handlerStep, hl.deref] at h
    split at h
    · rename_i line rest hlines
      cases h
      refine .inl ⟨_, rest, rfl, ?_, rfl⟩
      simp [State.pending, State.toHandler, hpc, HandlerPc.effects, hlines]
    · simp [hpeer] at h
  case perform effects =>
    cases effects with
    | nil =>
        cases h
        exact .inl ⟨_, s.toOwner, rfl, s.pending_toHandler (by rw [hpc]; rfl), rfl⟩
    | cons e rest =>
        rw [handlerStep, if_pos hl.bound] at h
        obtain ⟨s₁, hs₁, rfl⟩ := Option.map_eq_some_iff.mp h
        exact .inr ⟨e, rest, s₁, rfl, hs₁, rfl⟩
  all_goals cases heof

theorem applyEffect_flow {ans : Answer τ} {e : Effect} {s₁ : State τ}
    (h : applyEffect s ans e = some s₁) :
    s₁.shell = s.shell ∧ s₁.written = s.written ∧ s₁.hist.statuses = s.hist.statuses ∧
      s₁.hist.echoed = s.hist.echoed ∧ s₁.hist.submitted = s.hist.submitted := by
  cases e with
  | exitCode n =>
      cases h
      exact ⟨rfl, rfl, rfl, rfl, rfl⟩
  | signal =>
      simp only [applyEffect] at h
      split at h
      · obtain ⟨m, -, rfl⟩ := Option.map_eq_some_iff.mp h
        exact ⟨rfl, rfl, rfl, rfl, rfl⟩
      · cases h
  | line text =>
      cases h
      exact ⟨rfl, rfl, rfl, rfl, rfl⟩

theorem handlerFlow_perform {ans : Answer τ} {e : Effect} {rest : List Effect} {s₁ : State τ}
    (hh : HandlerFlow s) (hpc : s.handler = .perform (e :: rest))
    (h : applyEffect s ans e = some s₁) : HandlerFlow (s₁.toHandler (.perform rest)) := by
  obtain ⟨hcodes, hle, hsignals⟩ := hh
  simp only [State.pending, hpc, HandlerPc.effects, List.cons_append] at hcodes hsignals
  cases e with
  | exitCode n =>
      cases h
      rw [List.filterMap_cons_some (rfl : Effect.code (.exitCode n) = some n)] at hcodes
      have hlt : s.hist.stored < (s.hist.statuses.take s.hist.echoed).length := by
        by_contra hge
        rw [List.drop_eq_nil_of_le (Nat.not_lt.mp hge)] at hcodes
        cases hcodes
      rw [List.drop_eq_getElem_cons hlt, List.map_cons, List.cons.injEq] at hcodes
      refine ⟨hcodes.2, ?_, ?_⟩
      · rw [List.length_take] at hlt
        simp only [State.toHandler]
        omega
      · rw [List.count_cons_of_ne (by simp)] at hsignals
        exact hsignals
  | signal =>
      simp only [applyEffect] at h
      split at h
      · obtain ⟨m, -, rfl⟩ := Option.map_eq_some_iff.mp h
        rw [List.filterMap_cons_none rfl] at hcodes
        rw [List.count_cons_self] at hsignals
        refine ⟨hcodes, hle, ?_⟩
        simp only [State.toHandler, State.pending, HandlerPc.effects]
        omega
      · cases h
  | line text =>
      cases h
      rw [List.filterMap_cons_none rfl] at hcodes
      rw [List.count_cons_of_ne (by simp)] at hsignals
      exact ⟨hcodes, hle, hsignals⟩

omit [DecidableEq τ] in
/-- The code about to be stored is the exit status of the next frame in order. -/
theorem HandlerFlow.code_eq {n : Int} {rest : List Effect} (hh : HandlerFlow s)
    (hpc : s.handler = .perform (.exitCode n :: rest)) :
    (s.hist.statuses[s.hist.stored]?).map Nat.cast = some n := by
  have hcodes := hh.codes
  simp only [State.pending, hpc, HandlerPc.effects, List.cons_append] at hcodes
  rw [List.filterMap_cons_some (rfl : Effect.code (.exitCode n) = some n)] at hcodes
  have hhead := congrArg List.head? hcodes
  rw [List.head?_cons, List.head?_map, List.head?_drop] at hhead
  obtain ⟨m, hm, hn⟩ := Option.map_eq_some_iff.mp hhead.symm
  rw [List.getElem?_take] at hm
  split at hm
  · rw [hm, Option.map_some, hn]
  · cases hm

/-! ## The runs considered -/

structure LiveInv (s : State τ) : Prop
    extends Live s, Submission s, ShellFlow s, HandlerFlow s where
  no_fault : s.fault = false
  opened : s.opener = .done
  no_exit : ∀ t, (s.calls t).exiting = false
  reading : s.handler.atEof = false

omit [DecidableEq τ] in
theorem liveInv_published (code : Int) : LiveInv (State.published code : State τ) where
  toLive := ⟨rfl, rfl⟩
  toSubmission := submission_published code
  toShellFlow := by
    constructor <;> simp [State.published, State.opening, Shell.init, History.init]
  toHandlerFlow := by
    constructor <;>
      simp [State.published, State.opening, History.init, State.pending, HandlerPc.effects]
  no_fault := rfl
  opened := rfl
  no_exit := fun _ => rfl
  reading := rfl

theorem ExecStep.outside (hl : Live s) (h : ExecStep s t s') : SameOutside s s' := by
  cases h with
  | crash hdead => exact absurd hl hdead
  | move c hout => exact hout
  | reset cmd k hpc heq =>
      subst heq
      exact ⟨⟨rfl, rfl, rfl, rfl⟩, rfl, rfl, rfl, rfl, rfl, rfl, rfl⟩
  | wait cmd k hpc _ heq =>
      subst heq
      exact ⟨⟨rfl, rfl, rfl, rfl⟩, rfl, rfl, rfl, rfl, rfl, rfl, rfl⟩
  | read cmd k hpc heq =>
      subst heq
      exact ⟨⟨rfl, rfl, rfl, rfl⟩, rfl, rfl, rfl, rfl, rfl, rfl, rfl⟩

theorem ExecStep.calls (hl : Live s) (h : ExecStep s t s') :
    ∃ c, s'.calls = Function.update s.calls t c ∧ c.exiting = false := by
  cases h with
  | crash hdead => exact absurd hl hdead
  | move c _ hcalls _ _ _ _ _ hexit => exact ⟨c, hcalls, hexit⟩
  | reset cmd k hpc heq => exact ⟨.exec cmd (.wait k), by rw [heq]; rfl, rfl⟩
  | wait cmd k hpc _ heq => exact ⟨.exec cmd (.waiting k), by rw [heq]; rfl, rfl⟩
  | read cmd k hpc heq => exact ⟨.idle, by rw [heq]; rfl, rfl⟩

theorem liveInv_caller {ans : Answer τ} (hs : LiveInv s)
    (h : callStep s t ans (s.calls t) = some s') : LiveInv s' := by
  have hcases := execCall_cases (hs.no_exit t) h
  obtain ⟨⟨hsu, hfr, hfault, hop⟩, hhandler, hshell, hlines, hstatuses, hechoed, hstored,
    hsignalled⟩ := hcases.outside hs.toLive
  obtain ⟨c, hcalls, hexit⟩ := hcases.calls hs.toLive
  obtain ⟨hsub, hwritten⟩ := submission_caller hs.toSubmission hs.toLive (hs.no_exit t) h
  have hpending : s'.pending = s.pending := by
    rw [State.pending, State.pending, hhandler, hlines]
  refine ⟨⟨hsu.trans hs.bound, hfr.trans hs.allocated⟩, hsub,
    hs.toShellFlow.same hshell hwritten hstatuses hechoed,
    hs.toHandlerFlow.same hpending hstatuses hechoed hstored hsignalled, hfault.trans hs.no_fault,
    hop.trans hs.opened, fun u => ?_, ?_⟩
  · rw [hcalls, Function.update_apply]
    split
    · exact hexit
    · exact hs.no_exit u
  · rw [hhandler]
    exact hs.reading

theorem liveInv_handler {ans : Answer τ} (hs : LiveInv s)
    (h : handlerStep s ans s.handler = some s') : LiveInv s' := by
  rcases handlerStep_live hs.toLive hs.peer hs.reading h with
    ⟨pc, lines, rfl, hpending, heof⟩ | ⟨e, rest, s₁, hpc, he, rfl⟩
  · exact {
      toLive := ⟨hs.bound, hs.allocated⟩
      toSubmission := hs.toSubmission.same rfl rfl rfl rfl
      toShellFlow := hs.toShellFlow.same rfl le_rfl rfl rfl
      toHandlerFlow := hs.toHandlerFlow.same hpending rfl rfl rfl rfl
      no_fault := hs.no_fault
      opened := hs.opened
      no_exit := hs.no_exit
      reading := heof }
  · have hflow := handlerFlow_perform hs.toHandlerFlow hpc he
    obtain ⟨⟨hsu, hfr, hfault, hop⟩, hcalls, howner⟩ := applyEffect_frame he
    obtain ⟨hshell, hwritten, hstatuses, hechoed, hsubmitted⟩ := applyEffect_flow he
    exact {
      toLive := ⟨hsu.trans hs.bound, hfr.trans hs.allocated⟩
      toSubmission := hs.toSubmission.same hcalls howner hwritten hsubmitted
      toShellFlow := hs.toShellFlow.same hshell (congrArg List.length hwritten).ge hstatuses hechoed
      toHandlerFlow := hflow
      no_fault := hfault.trans hs.no_fault
      opened := hop.trans hs.opened
      no_exit := fun u => (congrFun hcalls u) ▸ hs.no_exit u
      reading := rfl }

theorem liveInv_step {a : Action τ} (hs : LiveInv s) (hok : Considered s a)
    (h : step s a = some s') : LiveInv s' := by
  cases step_cases h with
  | invoke t e hidle =>
      have hentry : e.call.exiting = false ∧ e.call.holds = false ∧ e.call.sent = 0 ∧
          e.call.frame = none := by
        cases e <;> first | exact absurd rfl hok | exact ⟨rfl, rfl, rfl, rfl⟩
      obtain ⟨hexit, hholds, hsent, hframe⟩ := hentry
      have hsub : Submission (s.goto t e.call) :=
        hs.toSubmission.keep hidle rfl rfl rfl rfl hholds hsent (by simp [hframe])
      refine ⟨⟨hs.bound, hs.allocated⟩, hsub, hs.toShellFlow.same rfl le_rfl rfl rfl,
        hs.toHandlerFlow.same rfl rfl rfl rfl rfl, hs.no_fault, hs.opened, fun u => ?_, hs.reading⟩
      rw [State.goto_calls]
      split
      · exact hexit
      · exact hs.no_exit u
  | caller t ans _ h => exact liveInv_caller hs h
  | handler ans _ h => exact liveInv_handler hs h
  | spurious t =>
      exact ⟨⟨hs.bound, hs.allocated⟩, hs.toSubmission.same rfl rfl rfl rfl,
        hs.toShellFlow.same rfl le_rfl rfl rfl, hs.toHandlerFlow.same rfl rfl rfl rfl rfl,
        hs.no_fault, hs.opened, hs.no_exit, hs.reading⟩
  | closePeer ho | publish ho => simp [hs.opened] at ho
  | shell a _ h =>
      have hk := shellStep_keeps h
      obtain ⟨hflow, hhandler⟩ := flow_shell hs.toShellFlow hs.toHandlerFlow hs.toSubmission hok h
      refine ⟨⟨hk.su_session.trans hs.bound, hk.freed.trans hs.allocated⟩, hs.toSubmission.shell hk,
        hflow, hhandler, hk.fault.trans hs.no_fault, hk.opener.trans hs.opened, ?_, ?_⟩
      · rw [hk.calls]
        exact hs.no_exit
      · rw [hk.handler]
        exact hs.reading

end Susrv.Native
