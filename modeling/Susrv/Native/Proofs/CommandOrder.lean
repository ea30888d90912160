import Susrv.Base.JobQueue
import Susrv.Native.Proofs.Frames

/-!
# Commands run in the order in which they were submitted

What the callers write, and what the shell reads, runs and prints, as the events
of a `JobQueue`: a caller submits a command with its first write, and the shell
answers it by printing the line of `EOC_CMD`.  `session_refines_jobQueue` holds of
every run, with exit calls, a shell that dies and accesses that crash.
-/

namespace Susrv.Native

open Base Base.CString Base.Transition Base.Sections

variable {τ : Type}

def Chunk.command : Chunk → Option Bytes
  | .cmd text => some text
  | _ => none

/-- The commands the shell has not read yet. -/
def State.unread (s : State τ) : List Bytes :=
  (s.written.drop s.shell.taken).filterMap Chunk.command

/-- What a step does to the commands. -/
def jobEvents (s : State τ) : Action τ → State τ → List (JobQueue.Event Bytes Nat)
  | .shell .take, _ =>
      match s.written[s.shell.taken]? with
      | some (.cmd text) => [.start text]
      | some .eocCmd => [.answer s.shell.status]
      | _ => []
  | .shell (.finish status), _ => [.finish status]
  | _, s' => ((s'.written.drop s.written.length).filterMap Chunk.command).map .submit

/-- The submissions, starts, ends and answers of a run. -/
def jobs [DecidableEq τ] (s : State τ) (as : List (Action τ)) : List (JobQueue.Event Bytes Nat) :=
  trace step jobEvents s as

/-! ## Reading a stream of frames -/

/-- The command whose `EOC_CMD` a reader has not met yet. -/
def begun : (cur : Option Bytes) → List Chunk → Option Bytes
  | cur, [] => cur
  | _, .cmd text :: rest => begun (some text) rest
  | _, .eocCmd :: rest => begun none rest
  | cur, .lf :: rest => begun cur rest
  | cur, .exitCmd :: rest => begun cur rest

/-- Commands and `EOC_CMD`s alternate. -/
def Alternating : (cur : Option Bytes) → List Chunk → Prop
  | _, [] => True
  | cur, .cmd text :: rest => cur = none ∧ Alternating (some text) rest
  | cur, .eocCmd :: rest => cur ≠ none ∧ Alternating none rest
  | cur, .lf :: rest => Alternating cur rest
  | cur, .exitCmd :: rest => Alternating cur rest

theorem begun_append (cur : Option Bytes) (xs ys : List Chunk) :
    begun cur (xs ++ ys) = begun (begun cur xs) ys := by
  induction xs generalizing cur with
  | nil => rfl
  | cons c xs ih => cases c <;> exact ih _

theorem alternating_append {cur : Option Bytes} {xs ys : List Chunk} :
    Alternating cur (xs ++ ys) ↔ Alternating cur xs ∧ Alternating (begun cur xs) ys := by
  induction xs generalizing cur with
  | nil => simp [Alternating, begun]
  | cons c xs ih => cases c <;> simp [Alternating, begun, ih, and_assoc]

theorem alternating_frames (log : List (Party τ × Frame)) :
    Alternating none (written Frame.chunks log) ∧ begun none (written Frame.chunks log) = none := by
  induction log with
  | nil => exact ⟨trivial, rfl⟩
  | cons e log ih =>
      obtain ⟨p, f⟩ := e
      obtain ⟨halt, hend⟩ := ih
      rw [written, List.flatMap_cons, ← written, alternating_append, begun_append]
      have hframe : begun none f.chunks = none := by cases f <;> rfl
      rw [hframe]
      refine ⟨⟨?_, halt⟩, hend⟩
      cases f <;> simp [Frame.chunks, Alternating]

/-- Whoever has written what, commands and `EOC_CMD`s alternate on the socket. -/
theorem alternating_written {log : List (Party τ × Frame)} {s : State τ}
    (h : Framed Frame.chunks log s.view) : Alternating none s.written := by
  cases howner : s.sync.owner with
  | none =>
      have hfree : s.written = written Frame.chunks log := h.free howner
      rw [hfree]
      exact (alternating_frames log).1
  | some p =>
      obtain ⟨done, f, part, hlog, hf, hstream⟩ := h.held p howner
      have hwhole := (alternating_frames log).1
      rw [hlog, written_append, hf, ← List.append_assoc, alternating_append] at hwhole
      have hwritten : s.written = written Frame.chunks done ++ part := hstream
      rw [hwritten]
      exact hwhole.1

/-! ## The refinement -/

/-- What the shell is at, as far as its input and its status tell. -/
def State.phase (s : State τ) : JobQueue.Phase Bytes Nat :=
  match begun none (s.written.take s.shell.taken) with
  | none => .idle
  | some text => if s.shell.running then .running text else .ended text s.shell.status

def State.queue (s : State τ) : JobQueue.Queue Bytes Nat := ⟨s.unread, s.phase⟩

structure Served (s : State τ) : Prop where
  framed : ∃ log, Framed Frame.chunks log s.view
  taken_le : s.shell.taken ≤ s.written.length
  running : s.shell.running = true → begun none (s.written.take s.shell.taken) ≠ none

variable {s s' : State τ}

theorem served_opening (code : Int) : Served (State.opening code : State τ) where
  framed := ⟨[], framed_opening code⟩
  taken_le := Nat.le_refl 0
  running := by simp [State.opening, Shell.init]

variable [DecidableEq τ]

/-- The state whose queue is `q`, if it can be one. -/
def Tracks (s : State τ) (q : JobQueue.Queue Bytes Nat) : Prop := Served s ∧ q = s.queue

/-- Everybody but the shell only adds to the stream. -/
structure Adds (s s' : State τ) : Prop where
  grows : s.written <+: s'.written
  taken : s'.shell.taken = s.shell.taken
  running : s'.shell.running = s.shell.running
  status : s'.shell.status = s.shell.status

theorem Moves.adds {p : Party τ} (h : Moves s p s') : Adds s s' := by
  constructor
  · obtain ⟨f, hmove, -⟩ := h.moved
    cases hmove with
    | keep _ hstream => exact ⟨[], (List.append_nil _).trans hstream.symm⟩
    | acquire _ _ _ hstream => exact ⟨[], (List.append_nil _).trans hstream.symm⟩
    | write c _ _ _ hstream => exact ⟨[c], hstream.symm⟩
    | release _ _ hstream => exact ⟨[], (List.append_nil _).trans hstream.symm⟩
  · exact h.taken
  · show s'.shell.self.running = s.shell.self.running
    rw [h.shell]
  · show s'.shell.self.status = s.shell.self.status
    rw [h.shell]

omit [DecidableEq τ] in
/-- New commands queue up behind the ones the shell has not read. -/
theorem Adds.tracks (h : Adds s s') (hs : Served s)
    (hframed : ∃ log, Framed Frame.chunks log s'.view) :
    ∃ q, run JobQueue.step s.queue
        (((s'.written.drop s.written.length).filterMap Chunk.command).map .submit) = some q ∧
      Tracks s' q := by
  obtain ⟨⟨more, hmore⟩, htaken, hrunning, hstatus⟩ := h
  have hle := hs.taken_le
  have hseen : s'.written.take s'.shell.taken = s.written.take s.shell.taken := by
    rw [← hmore, htaken, List.take_append_of_le_length hle]
  have hunread : s'.unread = s.unread ++ more.filterMap Chunk.command := by
    rw [State.unread, ← hmore, htaken, List.drop_append_of_le_length hle, List.filterMap_append]
    rfl
  have hphase : s'.phase = s.phase := by
    rw [State.phase, hseen, hrunning, hstatus, State.phase]
  have hnew : s'.written.drop s.written.length = more := by
    rw [← hmore, List.drop_left]
  rw [hnew, JobQueue.run_submits]
  refine ⟨_, rfl, ⟨hframed, ?_, ?_⟩, ?_⟩
  · rw [htaken, ← hmore, List.length_append]
    omega
  · rw [hrunning, hseen]
    exact hs.running
  · rw [State.queue, State.queue, hunread, hphase]

/-! ## The shell reads its input -/

section

omit [DecidableEq τ]

/-- The stream around the chunk the shell reads next. -/
theorem take_next {c : Chunk} (hc : s.written[s.shell.taken]? = some c) :
    s.written.take (s.shell.taken + 1) = s.written.take s.shell.taken ++ [c] ∧
      s.written.drop s.shell.taken = c :: s.written.drop (s.shell.taken + 1) ∧
      s.shell.taken + 1 ≤ s.written.length := by
  obtain ⟨hlt, hget⟩ := List.getElem?_eq_some_iff.mp hc
  refine ⟨?_, ?_, hlt⟩
  · rw [List.take_add_one, hc]
    rfl
  · rw [List.drop_eq_getElem_cons hlt, hget]

/-- A command comes behind finished frames, `EOC_CMD` behind its command. -/
theorem Served.next {c : Chunk} (hs : Served s) (hc : s.written[s.shell.taken]? = some c) :
    Alternating (begun none (s.written.take s.shell.taken)) [c] := by
  obtain ⟨log, hlog⟩ := hs.framed
  have halt := alternating_written hlog
  obtain ⟨hseen, hrest, -⟩ := take_next hc
  rw [← List.take_append_drop (s.shell.taken + 1) s.written, hseen, alternating_append,
    alternating_append] at halt
  exact halt.1.2

theorem State.unread_cons {c : Chunk} (hc : s.written[s.shell.taken]? = some c) :
    s.unread = c.command.toList ++
      (s.written.drop (s.shell.taken + 1)).filterMap Chunk.command := by
  rw [State.unread, (take_next hc).2.1, List.filterMap_cons]
  cases c <;> rfl

/-- The shell has read `c`. -/
theorem tracks_take {c : Chunk} (hc : s.written[s.shell.taken]? = some c)
    (hframed : ∃ log, Framed Frame.chunks log s'.view)
    (hwritten : s'.written = s.written) (htaken : s'.shell.taken = s.shell.taken + 1)
    (hrunning : s'.shell.running = true →
      begun (begun none (s.written.take s.shell.taken)) [c] ≠ none) :
    Tracks s' ⟨(s.written.drop (s.shell.taken + 1)).filterMap Chunk.command, s'.phase⟩ ∧
      begun none (s'.written.take s'.shell.taken) =
        begun (begun none (s.written.take s.shell.taken)) [c] := by
  obtain ⟨hseen, -, hle⟩ := take_next hc
  have hbegun : begun none (s'.written.take s'.shell.taken) =
      begun (begun none (s.written.take s.shell.taken)) [c] := by
    rw [hwritten, htaken, hseen, begun_append]
  refine ⟨⟨⟨hframed, ?_, ?_⟩, ?_⟩, hbegun⟩
  · rw [htaken, hwritten]
    exact hle
  · rw [hbegun]
    exact hrunning
  · rw [State.queue, State.unread, hwritten, htaken]

@[simp] theorem State.print_written (s : State τ) (out : Bytes) :
    (s.print out).written = s.written := by
  unfold State.print
  split <;> rfl

@[simp] theorem State.print_taken (s : State τ) (out : Bytes) :
    (s.print out).shell.taken = s.shell.taken := by
  unfold State.print
  split <;> rfl

@[simp] theorem State.print_running (s : State τ) (out : Bytes) :
    (s.print out).shell.running = s.shell.running := by
  unfold State.print
  split <;> rfl

@[simp] theorem State.print_status (s : State τ) (out : Bytes) :
    (s.print out).shell.status = s.shell.status := by
  unfold State.print
  split <;> rfl

theorem tracks_read (hs : Served s) (h : shellStep s .take = some s')
    (hframed : ∃ log, Framed Frame.chunks log s'.view) :
    ∃ q, run JobQueue.step s.queue (jobEvents s (.shell .take) s') = some q ∧ Tracks s' q := by
  simp only [shellStep] at h
  split at h
  · cases h
  rename_i hready
  have hidle : s.shell.running = false := by
    cases hr : s.shell.running <;> simp [hr] at hready ⊢
  cases hc : s.written[s.shell.taken]? with
  | none => simp [hc] at h
  | some c =>
      have halt := hs.next hc
      have hunread := State.unread_cons hc
      have hnow : s.phase = match begun none (s.written.take s.shell.taken) with
          | none => .idle
          | some text => .ended text s.shell.status := by
        simp only [State.phase, hidle, Bool.false_eq_true, if_false]
      simp only [hc] at h
      simp only [jobEvents, hc]
      cases c with
      | cmd text =>
          have hnone : begun none (s.written.take s.shell.taken) = none := halt.1
          cases h
          obtain ⟨htracks, hbegun⟩ := tracks_take hc hframed rfl rfl (by simp [begun])
          refine ⟨_, ?_, htracks⟩
          rw [hnone] at hnow hbegun
          have hphase : State.phase { s with
              shell := { s.shell with taken := s.shell.taken + 1, running := true } } =
                .running text := by
            rw [State.phase, hbegun]
            rfl
          simp [run, JobQueue.step, State.queue, hnow, hunread, Chunk.command, hphase]
      | lf | exitCmd =>
          cases h
          obtain ⟨htracks, hbegun⟩ := tracks_take hc hframed rfl rfl (by simp [hidle])
          refine ⟨_, ?_, htracks⟩
          rw [State.phase, hbegun]
          simp [run, State.queue, hnow, hunread, Chunk.command, hidle, begun]
      | eocCmd =>
          have hsome : begun none (s.written.take s.shell.taken) ≠ none := halt.1
          obtain ⟨text, htext⟩ := Option.ne_none_iff_exists'.mp hsome
          cases h
          obtain ⟨htracks, hbegun⟩ := tracks_take hc hframed (by simp) (by simp) (by simp [hidle])
          refine ⟨_, ?_, htracks⟩
          rw [htext] at hnow
          rw [State.phase, hbegun]
          simp [run, JobQueue.step, State.queue, hnow, hunread, Chunk.command, begun]

theorem tracks_shell {a : ShellAction} (hs : Served s) (h : shellStep s a = some s')
    (hframed : ∃ log, Framed Frame.chunks log s'.view) :
    ∃ q, run JobQueue.step s.queue (jobEvents s (.shell a) s') = some q ∧ Tracks s' q := by
  have hwritten := (shellStep_keeps h).written
  have hadds : Adds s s' →
      ∃ q, run JobQueue.step s.queue
        (((s'.written.drop s.written.length).filterMap Chunk.command).map .submit) = some q ∧
      Tracks s' q := fun hadds => hadds.tracks hs hframed
  cases a with
  | take => exact tracks_read hs h hframed
  | print out =>
      simp only [shellStep] at h
      split at h <;> cases h
      exact hadds ⟨by simp, by simp, by simp, by simp⟩
  | finish status =>
      simp only [shellStep] at h
      split at h
      · rename_i hready
        simp only [Bool.and_eq_true, decide_eq_true_eq] at hready
        obtain ⟨⟨-, hrunning⟩, -⟩ := hready
        obtain ⟨text, htext⟩ := Option.ne_none_iff_exists'.mp (hs.running hrunning)
        cases h
        refine ⟨_, ?_, ⟨hframed, hs.taken_le, by simp⟩, rfl⟩
        simp [jobEvents, run, JobQueue.step, State.queue, State.phase, State.unread, htext,
          hrunning]
      · cases h
  | die | closePeer =>
      simp only [shellStep] at h
      split at h <;> cases h
      exact hadds ⟨List.prefix_rfl, rfl, rfl, rfl⟩

end

/-- The session is a simulation of a job queue. -/
theorem simulates_jobQueue :
    Simulates step jobEvents JobQueue.step
      (Tracks : State τ → JobQueue.Queue Bytes Nat → Prop) := by
  rintro s a s' q ⟨hs, rfl⟩ h
  have hframed : ∃ log, Framed Frame.chunks log s'.view := by
    obtain ⟨log, hlog⟩ := hs.framed
    exact ⟨_, framed_step hlog h⟩
  cases step_cases h with
  | invoke t e hidle => exact (moves_invoke hidle).adds.tracks hs hframed
  | caller t ans _ h => exact (moves_caller h).adds.tracks hs hframed
  | handler ans _ h => exact (moves_handler h).adds.tracks hs hframed
  | spurious t => exact Adds.tracks ⟨List.prefix_rfl, rfl, rfl, rfl⟩ hs hframed
  | closePeer | publish => exact Adds.tracks ⟨List.prefix_rfl, rfl, rfl, rfl⟩ hs hframed
  | shell a _ h => exact tracks_shell hs h hframed

/-- Two threads submit a command each; the first command has ended and been answered, the
second one is running. -/
def twoCommands : List (Action Bool) :=
  [[.opener, .opener, .invoke true (.exec (ascii "id")), .invoke false (.exec (ascii "false"))],
    List.replicate 9 (.caller true .ok), List.replicate 8 (.caller false .ok),
    [.shell .take, .shell (.finish 3)],
    List.replicate 4 (.shell .take)].flatten

example : jobs (State.opening 0) twoCommands =
    [.submit (ascii "id"), .submit (ascii "false"), .start (ascii "id"), .finish 3, .answer 3,
      .start (ascii "false")] := by
  decide +kernel

end Susrv.Native
