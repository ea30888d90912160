import Susrv.Base.Sections
import Susrv.Native.Proofs.SessionLife

/-!
# The command stream is made of whole frames

The bytes on `afun_client_fd` come from three places, each of them between the
acquisition of `shell_sync_mutex` and its release: the four writes of
`su_srv_exec`, and the two of a stop request by `su_srv_exit_shell_session` or
the handler.  `stream_framed` follows the order of the acquisitions through any
run.
-/

namespace Susrv.Native

open Base Base.CString Base.Transition Base.Sections

variable {τ : Type}

/-- What a critical section writes: a command, a stop request, or nothing if it is
the rest of `su_srv_exec` after `pthread_cond_wait`. -/
inductive Frame
  | command (text : Bytes)
  | stopRequest
  | nothing
  deriving DecidableEq

def Frame.chunks : Frame → List Chunk
  | .command text => [.cmd text, .lf, .eocCmd, .lf]
  | .stopRequest => [.exitCmd, .lf]
  | .nothing => []

def Frame.bytes : Frame → Bytes
  | .command text => text ++ [LF] ++ EOC_CMD ++ [LF]
  | .stopRequest => SU_SRV_EXIT_CMD ++ [LF]
  | .nothing => []

/-- The bytes written to `afun_client_fd` so far. -/
def State.stream (s : State τ) : Bytes := s.written.flatMap Chunk.bytes

/-- The section that a thread owning the mutex is in. -/
def State.frame (s : State τ) : Party τ → Frame
  | .handler => .stopRequest
  | .caller t =>
      match s.calls t with
      | .exec cmd .writeCmd => .command cmd
      | .exit _ => .stopRequest
      | _ => .nothing

section Sections

variable [DecidableEq τ]

/-- The acquisition of the mutex by the step from `s` to `s'`. -/
def acquired (s s' : State τ) : List (Party τ × Frame) :=
  match s'.sync.owner with
  | none => []
  | some p => if s.sync.owner = some p then [] else [(p, s'.frame p)]

/-- The critical sections of a run, in the order of their acquisitions. -/
def sections (s : State τ) (as : List (Action τ)) : List (Party τ × Frame) :=
  emitted step acquired s as

/-- The stream of `s` is what the finished sections of a log wrote, followed by
the part the open section has written so far. -/
def InFrames (log : List (Party τ × Frame)) (s : State τ) : Prop :=
  match s.sync.owner with
  | none => s.stream = log.flatMap fun e => e.2.bytes
  | some p => ∃ done f part, log = done ++ [(p, f)] ∧ part <+: f.bytes ∧
      s.stream = (done.flatMap fun e => e.2.bytes) ++ part

end Sections

/-! ## Positions -/

def StopPc.todo : StopPc → List Chunk
  | .writeExit => [.exitCmd, .lf]
  | .writeEnd => [.lf]
  | .poll _ => []

/-- What a call still has to write before it gives the mutex up. -/
def Call.todo : Call → Option (List Chunk)
  | .exec cmd .writeCmd => some [.cmd cmd, .lf, .eocCmd, .lf]
  | .exec _ (.writeLf _) => some [.lf, .eocCmd, .lf]
  | .exec _ (.writeEoc _) => some [.eocCmd, .lf]
  | .exec _ (.writeEnd _) => some [.lf]
  | .exec _ (.reset _) | .exec _ (.wait _) | .exec _ (.unlock _) => some []
  | .exit (.stop p) => some p.todo
  | .exit .join | .exit .joining | .exit .setNull | .exit .delete => some []
  | _ => none

def HandlerPc.todo : HandlerPc → Option (List Chunk)
  | .stop p => some p.todo
  | .setNull | .delete => some []
  | _ => none

def State.view (s : State τ) : View (Party τ) Chunk where
  owner := s.sync.owner
  stream := s.written
  todo
    | .handler => s.handler.todo
    | .caller t => (s.calls t).todo

/-- What the shell knows of itself: all but whether it was reaped. -/
def Shell.self (shell : Shell) : Shell := { shell with reaped := false }

/-- The party is in its section and has something left to write. -/
def State.writing (s : State τ) (p : Party τ) : Bool := (s.view.todo p).getD [] ≠ []

/-- The party's next step takes the mutex, if it is free, in order to write. -/
def State.asks (s : State τ) : Party τ → Bool
  | .handler => s.handler = .trylock || s.handler = .trylockAgain
  | .caller t =>
      match s.calls t with
      | .exec _ .locking | .exit .trylock | .exit .locking => true
      | _ => false

variable [DecidableEq τ] {s s' : State τ} {t : τ} {ans : Answer τ}

/-! ## One step -/

theorem flatMap_chunks (f : Frame) : f.chunks.flatMap Chunk.bytes = f.bytes := by
  cases f <;> simp [Frame.chunks, Frame.bytes, Chunk.bytes]

theorem acquired_of_owner (h : s'.sync.owner = s.sync.owner) : acquired s s' = [] := by
  unfold acquired
  rw [h]
  cases s.sync.owner with
  | none => rfl
  | some p => simp

theorem acquired_of_free (h : s'.sync.owner = none) : acquired s s' = [] := by
  unfold acquired
  rw [h]

theorem acquired_of_lock {p : Party τ} (hfree : s.sync.owner = none)
    (howner : s'.sync.owner = some p) : acquired s s' = [(p, s'.frame p)] := by
  unfold acquired
  rw [howner, hfree]
  simp

/-- `f` moves the program counter of `p`, who then has `rest` to write, and nothing else. -/
structure Goes (s : State τ) (p : Party τ) (f : State τ → State τ)
    (rest : Option (List Chunk)) : Prop where
  sync : ∀ s₁, (f s₁).sync = s₁.sync
  written : ∀ s₁, (f s₁).written = s₁.written
  shell : ∀ s₁, (f s₁).shell = s₁.shell
  sigpipe : ∀ s₁, (f s₁).sigpipe = s₁.sigpipe
  here : ∀ s₁ : State τ, (f s₁).view.todo p = rest
  others : ∀ s₁ : State τ, s₁.calls = s.calls → s₁.handler = s.handler →
    ∀ q, q ≠ p → (f s₁).view.todo q = s.view.todo q

theorem goes_goto (c : Call) : Goes s (.caller t) (·.goto t c) c.todo where
  sync _ := rfl
  written _ := rfl
  shell _ := rfl
  sigpipe _ := rfl
  here s₁ := by simp [State.view, State.goto_calls]
  others s₁ hcalls hhandler q hq := by
    cases q with
    | handler => exact congrArg HandlerPc.todo hhandler
    | caller u =>
        have hu : u ≠ t := fun h => hq (h ▸ rfl)
        simp only [State.view, State.goto_calls, if_neg hu, hcalls]

omit [DecidableEq τ] in
theorem goes_toHandler (pc : HandlerPc) : Goes s .handler (·.toHandler pc) pc.todo where
  sync _ := rfl
  written _ := rfl
  shell _ := rfl
  sigpipe _ := rfl
  here _ := rfl
  others s₁ hcalls _ q hq := by
    cases q with
    | handler => exact absurd rfl hq
    | caller u => exact congrArg (fun calls => (calls u).todo) hcalls

/-- The step from `s` to `s'` is a move of `p`; the log gets its acquisition.  The pipe
breaks only if `p` had something to write, and `p` begins to write only by taking the
mutex it asks for. -/
structure Moves (s : State τ) (p : Party τ) (s' : State τ) : Prop where
  others : ∀ q, q ≠ p → s'.view.todo q = s.view.todo q
  moved : ∃ f : Option Frame, Move Frame.chunks s.view p f s'.view ∧
    acquired s s' = (f.map fun f => (p, f)).toList
  shell : s'.shell.self = s.shell.self
  sigpipe : s'.sigpipe = s.sigpipe ∨
    s.writing p = true ∧ s'.sigpipe = (s.sigpipe || !s.shell.peerOpen)
  begins : s'.writing p = true → s.writing p = true ∨ s.asks p = true ∧ s.sync.owner = none

theorem Moves.crash (p : Party τ) : Moves s p s.crash where
  others _ _ := rfl
  moved := ⟨none, .keep rfl rfl rfl id, acquired_of_owner rfl⟩
  shell := rfl
  sigpipe := .inl rfl
  begins h := .inl h

theorem Moves.peer {p : Party τ} (h : Moves s p s') : s'.shell.peerOpen = s.shell.peerOpen := by
  show s'.shell.self.peerOpen = s.shell.self.peerOpen
  rw [h.shell]

theorem Moves.taken {p : Party τ} (h : Moves s p s') : s'.shell.taken = s.shell.taken := by
  show s'.shell.self.taken = s.shell.self.taken
  rw [h.shell]

theorem Moves.of_deref {next : State τ} {p : Party τ} (h : s.deref next = s')
    (hnext : Moves s p next) : Moves s p s' := by
  rcases eq_or_crash_of_deref h with heq | heq
  · rwa [← heq]
  · rw [← heq]
    exact .crash p

theorem Moves.of_use {next : State τ} {p : Party τ} (h : s.use next = s')
    (hnext : Moves s p next) : Moves s p s' := by
  rcases eq_or_crash_of_use h with heq | heq
  · rwa [← heq]
  · rw [← heq]
    exact .crash p

/-- Two states that no other writer can tell apart. -/
structure Beside (s s₁ : State τ) : Prop where
  calls : s₁.calls = s.calls
  handler : s₁.handler = s.handler
  shell : s₁.shell.self = s.shell.self

section Moves

variable {p : Party τ} {f : State τ → State τ} {rest : Option (List Chunk)} (s₁ : State τ)

theorem Moves.keep (hf : Goes s p f rest) (hbeside : Beside s s₁)
    (howner : s₁.sync.owner = s.sync.owner) (hwritten : s₁.written = s.written)
    (hsigpipe : s₁.sigpipe = s.sigpipe) (htodo : rest.getD [] = (s.view.todo p).getD [])
    (hinside : rest ≠ none → s.view.todo p ≠ none) : Moves s p (f s₁) := by
  have hown : (f s₁).sync.owner = s.sync.owner := by rw [hf.sync, howner]
  constructor
  case others => exact hf.others s₁ hbeside.calls hbeside.handler
  case moved =>
    refine ⟨none, .keep hown ?_ ?_ ?_, acquired_of_owner hown⟩
    · exact (hf.written s₁).trans hwritten
    · rwa [hf.here]
    · rwa [hf.here]
  case shell => rw [hf.shell, hbeside.shell]
  case sigpipe => exact .inl ((hf.sigpipe s₁).trans hsigpipe)
  case begins =>
    intro h
    rw [State.writing, hf.here, htodo] at h
    exact .inl h

/-- Only the program counter of `p` moves. -/
theorem Moves.stay (hf : Goes s p f rest) (htodo : rest.getD [] = (s.view.todo p).getD [])
    (hinside : rest ≠ none → s.view.todo p ≠ none) : Moves s p (f s) :=
  .keep s hf ⟨rfl, rfl, rfl⟩ rfl rfl rfl htodo hinside

theorem Moves.acquire (hf : Goes s p f rest) (hbeside : Beside s s₁) (hfree : s.sync.owner = none)
    (howner : s₁.sync.owner = some p) (hwritten : s₁.written = s.written)
    (hsigpipe : s₁.sigpipe = s.sigpipe) (hrest : rest = some ((f s₁).frame p).chunks)
    (hasks : rest = some [] ∨ s.asks p = true) : Moves s p (f s₁) := by
  have hown : (f s₁).sync.owner = some p := by rw [hf.sync, howner]
  constructor
  case others => exact hf.others s₁ hbeside.calls hbeside.handler
  case moved =>
    refine ⟨some ((f s₁).frame p), .acquire _ hfree hown ?_ ?_, acquired_of_lock hfree hown⟩
    · exact (hf.written s₁).trans hwritten
    · rw [hf.here, hrest]
  case shell => rw [hf.shell, hbeside.shell]
  case sigpipe => exact .inl ((hf.sigpipe s₁).trans hsigpipe)
  case begins =>
    intro h
    rw [State.writing, hf.here] at h
    rcases hasks with hnil | hasks
    · simp [hnil] at h
    · exact .inr ⟨hasks, hfree⟩

theorem Moves.write {c : Chunk} {left : List Chunk} (hf : Goes s p f (some left))
    (hbeside : Beside s s₁) (howner : s₁.sync.owner = s.sync.owner)
    (hwritten : s₁.written = s.written ++ [c])
    (hsigpipe : s₁.sigpipe = (s.sigpipe || !s.shell.peerOpen))
    (hbefore : s.view.todo p = some (c :: left)) : Moves s p (f s₁) := by
  have hown : (f s₁).sync.owner = s.sync.owner := by rw [hf.sync, howner]
  have hwriting : s.writing p = true := by simp [State.writing, hbefore]
  constructor
  case others => exact hf.others s₁ hbeside.calls hbeside.handler
  case moved =>
    refine ⟨none, .write c left hbefore hown ?_ (hf.here s₁), acquired_of_owner hown⟩
    exact (hf.written s₁).trans hwritten
  case shell => rw [hf.shell, hbeside.shell]
  case sigpipe => exact .inr ⟨hwriting, (hf.sigpipe s₁).trans hsigpipe⟩
  case begins => exact fun _ => .inl hwriting

theorem Moves.release (hf : Goes s p f none) (hbeside : Beside s s₁)
    (howner : s₁.sync.owner = none) (hwritten : s₁.written = s.written)
    (hsigpipe : s₁.sigpipe = s.sigpipe) (hbefore : s.view.todo p = some []) :
    Moves s p (f s₁) := by
  have hown : (f s₁).sync.owner = none := by rw [hf.sync, howner]
  constructor
  case others => exact hf.others s₁ hbeside.calls hbeside.handler
  case moved =>
    refine ⟨none, .release hbefore hown ?_ (hf.here s₁), acquired_of_free hown⟩
    exact (hf.written s₁).trans hwritten
  case shell => rw [hf.shell, hbeside.shell]
  case sigpipe => exact .inl ((hf.sigpipe s₁).trans hsigpipe)
  case begins =>
    intro h
    simp [State.writing, hf.here] at h

end Moves

/-- Behind the two writes of a stop request `shell_stop_process` writes nothing. -/
theorem moves_stop {p : Party τ} {pc : StopPc} {next : StopPc → State τ → State τ}
    {done : Bool → State τ → State τ} {rest : Bool → Option (List Chunk)}
    (hnow : s.view.todo p = some pc.todo)
    (hnext : ∀ pc', Goes s p (next pc') (some pc'.todo))
    (hdone : ∀ stopped, Goes s p (done stopped) (rest stopped))
    (hrest : ∀ stopped, (rest stopped).getD [] = [])
    (h : stopStep s ans next done pc = some s') : Moves s p s' := by
  have hin : s.view.todo p ≠ none := by simp [hnow]
  cases pc with
  | writeExit =>
      exact .of_deref (Option.some.inj h)
        (.write (s.write .exitCmd) (hnext .writeEnd) ⟨rfl, rfl, rfl⟩ rfl rfl rfl hnow)
  | writeEnd =>
      exact .of_use (Option.some.inj h)
        (.write (s.write .lf) (hnext (.poll 0)) ⟨rfl, rfl, rfl⟩ rfl rfl rfl hnow)
  | poll again =>
      have hback : ∀ stopped (s₁ : State τ), Beside s s₁ → s₁.sync = s.sync →
          s₁.written = s.written → s₁.sigpipe = s.sigpipe → Moves s p (done stopped s₁) := by
        intro stopped s₁ hbeside hsync hwritten hsigpipe
        refine .keep s₁ (hdone stopped) hbeside (by rw [hsync]) hwritten hsigpipe ?_ fun _ => hin
        rw [hrest, hnow, Option.getD_some, StopPc.todo]
      simp only [stopStep] at h
      split at h
      · split at h
        · refine .of_use (Option.some.inj h) ?_
          split
          · refine .stay (hnext (.poll (again + 1))) ?_ fun _ => hin
            rw [hnow, Option.getD_some, Option.getD_some, StopPc.todo, StopPc.todo]
          · exact hback false s ⟨rfl, rfl, rfl⟩ rfl rfl rfl
        · cases h
      · split at h
        · exact .of_use (Option.some.inj h) (hback true _ ⟨rfl, rfl, rfl⟩ rfl rfl rfl)
        · cases h
      · exact .of_use (Option.some.inj h) (hback false s ⟨rfl, rfl, rfl⟩ rfl rfl rfl)
      · cases h

theorem moves_exec {cmd : Bytes} {pc : ExecPc} (hpc : s.calls t = .exec cmd pc)
    (h : execStep s t cmd pc = some s') : Moves s (.caller t) s' := by
  have hnow : s.view.todo (.caller t) = (Call.exec cmd pc).todo := congrArg Call.todo hpc
  have hgo : ∀ c, Goes s (.caller t) (·.goto t c) c.todo := goes_goto
  cases pc <;> simp only [execStep, Option.some.injEq] at h
  case test =>
    rw [← h]
    refine .stay (hgo _) ?_ ?_ <;> rw [hnow] <;>
      cases s.su_session <;> simp [Call.todo]
  case lock =>
    exact .of_deref h (.stay (hgo _) (by rw [hnow]; rfl) (by simp [Call.todo]))
  case locking =>
    split at h
    · rw [← Option.some.inj h]
      exact .crash _
    · obtain ⟨m, hm, rfl⟩ := Option.map_eq_some_iff.mp h
      obtain ⟨hfree, rfl⟩ := Monitor.tryLock_eq_some.mp hm
      refine .acquire _ (hgo _) ⟨rfl, rfl, rfl⟩ hfree rfl rfl rfl ?_ (.inr ?_)
      · simp [Call.todo, State.frame, State.goto_calls, Frame.chunks]
      · simp [State.asks, hpc]
  case writeCmd =>
    have hmove := Moves.write { s.write (.cmd cmd) with
      hist := { s.hist with submitted := s.hist.submitted + 1 } }
      (hgo (.exec cmd (.writeLf s.hist.submitted))) ⟨rfl, rfl, rfl⟩ rfl rfl rfl hnow
    exact .of_deref h hmove
  case writeLf k =>
    exact .of_deref h
      (.write (s.write .lf) (hgo (.exec cmd (.writeEoc k))) ⟨rfl, rfl, rfl⟩ rfl rfl rfl hnow)
  case writeEoc k =>
    exact .of_deref h
      (.write (s.write .eocCmd) (hgo (.exec cmd (.writeEnd k))) ⟨rfl, rfl, rfl⟩ rfl rfl rfl hnow)
  case writeEnd k =>
    exact .of_deref h
      (.write (s.write .lf) (hgo (.exec cmd (.reset k))) ⟨rfl, rfl, rfl⟩ rfl rfl rfl hnow)
  case reset k =>
    exact .of_deref h (.keep _ (hgo _) ⟨rfl, rfl, rfl⟩ rfl rfl rfl (by rw [hnow]; rfl)
      (by simp [hnow, Call.todo]))
  case wait k =>
    exact .of_deref h (.release { s with sync := s.sync.wait (.caller t) }
      (hgo (.exec cmd (.waiting k))) ⟨rfl, rfl, rfl⟩ rfl rfl rfl hnow)
  case waiting k =>
    split at h
    · cases h
    · split at h
      · rw [← Option.some.inj h]
        exact .crash _
      · obtain ⟨m, hm, rfl⟩ := Option.map_eq_some_iff.mp h
        obtain ⟨-, hfree, rfl⟩ := Monitor.reacquire_eq_some.mp hm
        refine .acquire _ (hgo _) ⟨rfl, rfl, rfl⟩ hfree rfl rfl rfl ?_ (.inl rfl)
        simp [Call.todo, State.frame, State.goto_calls, Frame.chunks]
  case unlock k =>
    exact .of_deref h (.release { s with sync := s.sync.unlock } (hgo (.exec cmd (.read k)))
      ⟨rfl, rfl, rfl⟩ rfl rfl rfl hnow)
  case read k =>
    exact .of_deref h (.keep _ (hgo _) ⟨rfl, rfl, rfl⟩ rfl rfl rfl (by rw [hnow]; rfl)
      (by simp [Call.todo]))

theorem moves_access {resume : Call} {access : State τ → State τ} {pc : AccessPc}
    {c : AccessPc → Call} (hpc : s.calls t = c pc) (hresume : resume.todo = none)
    (hbeside : Beside s (access s)) (hsync : (access s).sync = s.sync)
    (hwritten : (access s).written = s.written) (hsigpipe : (access s).sigpipe = s.sigpipe)
    (hc : (c pc).todo = none)
    (h : accessStep s t resume access pc = some s') : Moves s (.caller t) s' := by
  have hnow : s.view.todo (.caller t) = none := (congrArg Call.todo hpc).trans hc
  have hgo : ∀ c, Goes s (.caller t) (·.goto t c) c.todo := goes_goto
  cases pc <;> simp only [accessStep, Option.some.injEq] at h
  case test =>
    rw [← h]
    have hidle : Call.idle.todo = none := rfl
    refine .stay (hgo _) ?_ ?_ <;> rw [hnow] <;>
      cases s.su_session <;> simp [hresume, hidle]
  case access =>
    exact .of_deref h (.keep (access s) (hgo _) hbeside (by rw [hsync]) hwritten
      hsigpipe (by rw [hnow]; rfl) (by simp [Call.todo]))

theorem moves_exit {pc : ExitPc} (hpc : s.calls t = .exit pc)
    (h : exitStep s t ans pc = some s') : Moves s (.caller t) s' := by
  have hnow : s.view.todo (.caller t) = (Call.exit pc).todo := congrArg Call.todo hpc
  have hgo : ∀ c, Goes s (.caller t) (·.goto t c) c.todo := goes_goto
  have hlock : ∀ m, s.sync.tryLock (.caller t) = some m → s.asks (.caller t) = true →
      Moves s (.caller t) ({ s with sync := m }.goto t (.exit (.stop .writeExit))) := by
    intro m hm hasks
    obtain ⟨hfree, rfl⟩ := Monitor.tryLock_eq_some.mp hm
    refine .acquire _ (hgo _) ⟨rfl, rfl, rfl⟩ hfree rfl rfl rfl ?_ (.inr hasks)
    simp [Call.todo, StopPc.todo, State.frame, State.goto_calls, Frame.chunks]
  cases pc with
  | test =>
      rw [exitStep, Option.some.injEq] at h
      rw [← h]
      refine .stay (hgo _) ?_ ?_ <;> rw [hnow] <;>
        cases s.su_session <;> simp [Call.todo]
  | trylock =>
      simp only [exitStep] at h
      split at h
      · exact .of_deref (Option.some.inj h) (hlock _ ‹_› (by simp [State.asks, hpc]))
      · exact .of_deref (Option.some.inj h)
          (.stay (hgo _) (by rw [hnow]; rfl) (by simp [Call.todo]))
  | signal =>
      simp only [exitStep] at h
      split at h
      · obtain ⟨m, hm, hnext⟩ := Option.map_eq_some_iff.mp h
        exact .of_deref hnext (.keep { s with sync := m } (hgo _) ⟨rfl, rfl, rfl⟩
          (Monitor.signal_frame hm).1 rfl rfl (by rw [hnow]; rfl) (by simp [Call.todo]))
      · cases h
  | lock =>
      exact .of_deref (Option.some.inj h)
        (.stay (hgo _) (by rw [hnow]; rfl) (by simp [Call.todo]))
  | locking =>
      simp only [exitStep] at h
      split at h
      · rw [← Option.some.inj h]
        exact .crash _
      · obtain ⟨m, hm, rfl⟩ := Option.map_eq_some_iff.mp h
        exact hlock m hm (by simp [State.asks, hpc])
  | stop p =>
      rw [exitStep] at h
      refine moves_stop hnow (fun pc' => hgo (.exit (.stop pc')))
        (fun stopped => hgo (if stopped then .exit .join else .idle)) ?_ h
      intro stopped
      cases stopped <;> rfl
  | join =>
      exact .of_deref (Option.some.inj h)
        (.stay (hgo _) (by rw [hnow]; rfl) (by simp [hnow, Call.todo]))
  | joining =>
      simp only [exitStep] at h
      split at h
      · rw [← Option.some.inj h]
        exact .stay (hgo _) (by rw [hnow]; rfl) (by simp [Call.todo])
      · split at h
        · rw [← Option.some.inj h]
          exact .stay (hgo _) (by rw [hnow]; rfl) (by simp [hnow, Call.todo])
        · cases h
  | setNull =>
      exact .of_deref (Option.some.inj h) (.keep { s with su_session := false } (hgo _)
        ⟨rfl, rfl, rfl⟩ rfl rfl rfl (by rw [hnow]; rfl) (by simp [hnow, Call.todo]))
  | delete =>
      exact .of_use (Option.some.inj h) (.release { s with freed := true, sync := s.sync.unlock }
        (hgo .idle) ⟨rfl, rfl, rfl⟩ rfl rfl rfl hnow)

theorem moves_caller (h : callStep s t ans (s.calls t) = some s') : Moves s (.caller t) s' := by
  cases hpc : s.calls t with
  | idle => simp [hpc, callStep] at h
  | exec cmd pc =>
      rw [hpc] at h
      exact moves_exec hpc h
  | exit pc =>
      rw [hpc] at h
      exact moves_exit hpc h
  | setTtyEcho echo pc =>
      rw [hpc, callStep] at h
      exact moves_access (c := .setTtyEcho echo) hpc rfl ⟨rfl, rfl, rfl⟩ rfl rfl rfl rfl h
  | getTtyEcho pc =>
      rw [hpc, callStep] at h
      exact moves_access (c := .getTtyEcho) hpc rfl ⟨rfl, rfl, rfl⟩ rfl rfl rfl rfl h
  | lastTtyRead pc =>
      rw [hpc, callStep] at h
      exact moves_access (c := .lastTtyRead) hpc rfl ⟨rfl, rfl, rfl⟩ rfl rfl rfl rfl h

theorem moves_effect {e : Effect} {s₁ : State τ} (h : applyEffect s ans e = some s₁) :
    Beside s s₁ ∧ s₁.sync.owner = s.sync.owner ∧ s₁.written = s.written ∧
      s₁.sigpipe = s.sigpipe := by
  cases e with
  | exitCode n =>
      cases h
      exact ⟨⟨rfl, rfl, rfl⟩, rfl, rfl, rfl⟩
  | signal =>
      simp only [applyEffect] at h
      split at h
      · obtain ⟨m, hm, rfl⟩ := Option.map_eq_some_iff.mp h
        exact ⟨⟨rfl, rfl, rfl⟩, (Monitor.signal_frame hm).1, rfl, rfl⟩
      · cases h
  | line text =>
      cases h
      exact ⟨⟨rfl, rfl, rfl⟩, rfl, rfl, rfl⟩

theorem moves_handler (h : handlerStep s ans s.handler = some s') : Moves s .handler s' := by
  have hgo : ∀ pc, Goes s .handler (·.toHandler pc) pc.todo := goes_toHandler
  have hlock : ∀ m, s.sync.tryLock .handler = some m → s.asks .handler = true →
      Moves s .handler ({ s with sync := m }.toHandler (.stop .writeExit)) := by
    intro m hm hasks
    obtain ⟨hfree, rfl⟩ := Monitor.tryLock_eq_some.mp hm
    exact .acquire _ (hgo _) ⟨rfl, rfl, rfl⟩ hfree rfl rfl rfl rfl (.inr hasks)
  cases hpc : s.handler <;> rw [hpc] at h
  all_goals have hnow : s.view.todo .handler = _ := congrArg HandlerPc.todo hpc
  case start =>
    cases h
    exact .stay (hgo _) (by rw [hnow]; rfl) (by simp [HandlerPc.todo])
  case read =>
    exact .of_deref (Option.some.inj h)
      (.stay (hgo _) (by rw [hnow]; rfl) (by simp [HandlerPc.todo]))
  case reading =>
    simp only [handlerStep] at h
    split at h
    · rename_i line rest _
      exact .of_deref (Option.some.inj h) (.keep { s with toOwner := rest } (hgo _)
        ⟨rfl, rfl, rfl⟩ rfl rfl rfl (by rw [hnow]; rfl) (by simp [HandlerPc.todo]))
    · split at h
      · cases h
      · cases h
        exact .stay (hgo _) (by rw [hnow]; rfl) (by simp [HandlerPc.todo])
  case perform effects =>
    cases effects with
    | nil =>
        cases h
        exact .stay (hgo _) (by rw [hnow]; rfl) (by simp [HandlerPc.todo])
    | cons e rest =>
        simp only [handlerStep] at h
        split at h
        · obtain ⟨s₁, hs₁, rfl⟩ := Option.map_eq_some_iff.mp h
          obtain ⟨hbeside, howner, hwritten, hsigpipe⟩ := moves_effect hs₁
          exact .keep s₁ (hgo _) hbeside howner hwritten hsigpipe (by rw [hnow]; rfl)
            (by simp [HandlerPc.todo])
        · rw [← Option.some.inj h]
          exact .crash _
  case trylock | trylockAgain =>
    simp only [handlerStep] at h
    split at h
    · exact .of_deref (Option.some.inj h) (hlock _ ‹_› (by simp [State.asks, hpc]))
    · exact .of_deref (Option.some.inj h)
        (.stay (hgo _) (by rw [hnow]; rfl) (by simp [HandlerPc.todo]))
  case signal =>
    simp only [handlerStep] at h
    split at h
    · obtain ⟨m, hm, hnext⟩ := Option.map_eq_some_iff.mp h
      exact .of_deref hnext (.keep { s with sync := m } (hgo _) ⟨rfl, rfl, rfl⟩
        (Monitor.signal_frame hm).1 rfl rfl (by rw [hnow]; rfl) (by simp [HandlerPc.todo]))
    · cases h
  case stop p =>
    rw [handlerStep] at h
    exact moves_stop hnow (fun pc' => hgo (.stop pc')) (fun _ => hgo .setNull) (fun _ => rfl) h
  case setNull =>
    exact .of_deref (Option.some.inj h) (.keep { s with su_session := false } (hgo _)
      ⟨rfl, rfl, rfl⟩ rfl rfl rfl (by rw [hnow]; rfl) (by simp [hnow, HandlerPc.todo]))
  case delete =>
    exact .of_use (Option.some.inj h) (.release { s with freed := true, sync := s.sync.unlock }
      (hgo .terminated) ⟨rfl, rfl, rfl⟩ rfl rfl rfl hnow)
  case terminated => cases h

/-- Entering a function writes nothing. -/
theorem moves_invoke {e : Entry} (hidle : s.calls t = .idle) :
    Moves s (.caller t) (s.goto t e.call) := by
  have hnow : s.view.todo (.caller t) = none := congrArg Call.todo hidle
  have hentry : e.call.todo = none := by cases e <;> rfl
  have hgo : Goes s (.caller t) (·.goto t e.call) e.call.todo := goes_goto _
  refine .stay hgo ?_ ?_ <;> rw [hnow, hentry]
  exact id

omit [DecidableEq τ] in
theorem todo_of_shell {a : ShellAction} (h : shellStep s a = some s') :
    s'.view.todo = s.view.todo := by
  have hk := shellStep_keeps h
  funext q
  cases q with
  | handler => exact congrArg HandlerPc.todo hk.handler
  | caller t => exact congrArg (fun calls => (calls t).todo) hk.calls

/-! ## Runs -/

variable {log : List (Party τ × Frame)}

theorem Moves.framed {p : Party τ} (h : Moves s p s')
    (hs : Framed Frame.chunks log s.view) :
    Framed Frame.chunks (log ++ acquired s s') s'.view := by
  obtain ⟨hothers, ⟨f, hmove, hacquired⟩, -, -, -⟩ := h
  rw [hacquired]
  exact hs.move hmove hothers

theorem framed_of_same (hs : Framed Frame.chunks log s.view) (hsync : s'.sync.owner = s.sync.owner)
    (hwritten : s'.written = s.written) (htodo : s'.view.todo = s.view.todo) :
    Framed Frame.chunks (log ++ acquired s s') s'.view := by
  rw [acquired_of_owner hsync, List.append_nil]
  exact hs.same hsync hwritten htodo

/-- Each step of the system is a move of one writer or changes nothing that a writer sees. -/
theorem framed_step {a : Action τ} (hs : Framed Frame.chunks log s.view)
    (h : step s a = some s') : Framed Frame.chunks (log ++ acquired s s') s'.view := by
  cases step_cases h with
  | invoke t e hidle => exact (moves_invoke hidle).framed hs
  | caller t ans _ h => exact (moves_caller h).framed hs
  | handler ans _ h => exact (moves_handler h).framed hs
  | spurious t => exact framed_of_same hs rfl rfl rfl
  | closePeer | publish => exact framed_of_same hs rfl rfl rfl
  | shell a _ h =>
      have hk := shellStep_keeps h
      exact framed_of_same hs (by rw [hk.sync]) hk.written (todo_of_shell h)

section

omit [DecidableEq τ]

theorem framed_opening (code : Int) :
    Framed Frame.chunks [] (State.opening code : State τ).view := by
  refine .init (fun p => ?_) rfl rfl
  cases p <;> rfl

theorem flatMap_written (log : List (Party τ × Frame)) :
    (written Frame.chunks log).flatMap Chunk.bytes = log.flatMap fun e => e.2.bytes := by
  rw [written, List.flatMap_assoc]
  simp only [flatMap_chunks]

theorem inFrames_of_framed (hs : Framed Frame.chunks log s.view) : InFrames log s := by
  unfold InFrames
  cases howner : s.sync.owner with
  | none =>
      have hfree : s.written = written Frame.chunks log := hs.free howner
      change s.stream = log.flatMap fun e => e.2.bytes
      rw [State.stream, hfree, flatMap_written]
  | some p =>
      obtain ⟨done, f, part, hlog, hf, hstream⟩ := hs.held p howner
      refine ⟨done, f, part.flatMap Chunk.bytes, hlog, ?_, ?_⟩
      · rw [← flatMap_chunks, hf, List.flatMap_append]
        exact List.prefix_append _ _
      · have hwritten : s.written = written Frame.chunks done ++ part := hstream
        rw [State.stream, hwritten, List.flatMap_append, flatMap_written]

end

/-- In every run the stream consists of whole frames in the order of the acquisitions of
`shell_sync_mutex`, save for the section that is still open. -/
theorem stream_framed {code : Int} {as : List (Action τ)}
    (hrun : run step (State.opening code) as = some s) :
    InFrames (sections (State.opening code) as) s := by
  have hframed := emitted_invariant (I := fun log (s : State τ) => Framed Frame.chunks log s.view)
    (fun _ _ _ _ hs h => framed_step hs h) (framed_opening code) hrun
  exact inFrames_of_framed hframed

/-- One thread submits `id` and waits; another one is in the middle of a stop request. -/
def execThenExit : List (Action Bool) :=
  [[.opener, .opener, .invoke true (.exec (ascii "id"))], List.replicate 9 (.caller true .ok),
    [.invoke false .exit], List.replicate 3 (.caller false .ok)].flatten

theorem stream_framed_execThenExit :
    ∃ s, run step (State.opening 0) execThenExit = some s ∧
      InFrames (sections (State.opening 0) execThenExit) s := by
  have hsome : (run step (State.opening 0) execThenExit).isSome = true := by decide +kernel
  obtain ⟨s, hs⟩ := Option.isSome_iff_exists.mp hsome
  exact ⟨s, hs, stream_framed hs⟩

end Susrv.Native
