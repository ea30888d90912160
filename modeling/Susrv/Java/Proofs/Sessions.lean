import Susrv.Java.SuShell

/-!
# The session a command is executed in

A `SuShell` does not know a native session; every call goes to the one bound at the
moment.  `inBoundSession_of_run` is what that gives for all runs.
-/

namespace Susrv.Java

open Base.Threads Base.Transition

variable {τ : Type}

/-! ## What an operation does -/

section Changes

variable [DecidableEq τ]

inductive Change (t : τ) (s : Host τ) : Op → Host τ → Prop
  | same (o : Op) : Change t s o s
  | construct (mPfsRoot : String) : Change t s (.construct mPfsRoot)
      { s with _instance := some ⟨s.shells, mPfsRoot⟩, shells := s.shells + 1 }
  | clear : Change t s .clear { s with _instance := none }
  | bind (pfs_root : String) : Change t s (.openEnd pfs_root) s.bind
  | openFailed (pfs_root : String) : Change t s (.openEnd pfs_root)
      { s with openFailed := Function.update s.openFailed t true }
  | execute (cmd_str : String) (session : Nat) (h : s.su_session = some session) :
      Change t s (.execWrite cmd_str)
        { s with
          commands := Function.update s.commands t (s.commands t + 1)
          log := (s.current t).elim s.log fun call => .executed call session :: s.log }
  | unbind (session : Nat) (h : s.su_session = some session) : Change t s .exitEnd s.unbind

variable {t : τ} {s s' : Host τ} {o : Op} {i : Int} {r : o.Result}

omit [DecidableEq τ] in
theorem Host.use_eq_some {α : Type} {f : Nat → α} {a : α} :
    s.use f = some a ↔ ∃ session, s.su_session = some session ∧ f session = a :=
  Option.map_eq_some_iff

theorem act_change (h : act t s i o = some (s', r)) : Change t s o s' := by
  cases o with
  | test | read | openTest | execTest | exitTest | ping =>
      cases h
      exact .same _
  | construct mPfsRoot =>
      cases h
      exact .construct mPfsRoot
  | clear =>
      cases h
      exact .clear
  | openEnd pfs_root =>
      simp only [act] at h
      split at h
      · cases h
        exact .bind pfs_root
      · split at h
        · cases h
          exact .openFailed pfs_root
        · cases h
  | execLock | execEnd =>
      obtain ⟨session, hsession, heq⟩ := Host.use_eq_some.mp h
      cases heq
      exact .same _
  | execWrite cmd_str =>
      obtain ⟨session, hsession, heq⟩ := Host.use_eq_some.mp h
      cases heq
      exact .execute cmd_str session hsession
  | exitEnd =>
      obtain ⟨session, hsession, heq⟩ := Host.use_eq_some.mp h
      cases heq
      split
      · exact .unbind session hsession
      · exact .same _

omit [DecidableEq τ] in
theorem die_eq_some (h : s.die = some s') :
    ∃ session, s.su_session = some session ∧ s' = s.unbind := by
  obtain ⟨session, hsession, heq⟩ := Host.use_eq_some.mp h
  exact ⟨session, hsession, heq.symm⟩

theorem Change.seen {u : τ} (h : Change t s o s') (hu : s.seen u = true) : s'.seen u = true := by
  cases h <;> first | exact hu | rfl

end Changes

/-! ## The history -/

/-- Each command was executed in the session that was bound then. -/
def Timely : List Event → Prop
  | [] => True
  | .executed _ session :: older =>
      (.bound session ∈ older ∧ .unbound session ∉ older) ∧ Timely older
  | _ :: older => Timely older

/-- The calls that throw without a session. -/
def Call.isCommand : Call → Bool
  | .getInstance _ _ | .ping _ | .exit _ => false
  | _ => true

structure InBoundSession (log : List Event) : Prop where
  timely : Timely log
  invalidated : ∀ call result commands session, call.isCommand = true →
    .returned call result false commands session ∈ log →
      result = .error .SuShellInvalidatedException ∧ commands = 0

theorem timely_unboundEvent {session : Option Nat} {log : List Event} :
    Timely (unboundEvent session ++ log) ↔ Timely log := by
  cases session <;> exact Iff.rfl

theorem mem_unboundEvent {session : Option Nat} {e : Event} :
    e ∈ unboundEvent session ↔ ∃ i, session = some i ∧ e = .unbound i := by
  cases session <;> simp [unboundEvent]

/-- `_su_session` against the history. -/
structure SessionInv (s : Host τ) : Prop extends InBoundSession s.log where
  seen : ∀ t, s.su_session.isSome = true → s.seen t = true
  counted : ∀ t, s.commands t ≠ 0 → s.seen t = true
  live : ∀ i, s.su_session = some i → .bound i ∈ s.log ∧ .unbound i ∉ s.log
  fresh : ∀ i, .bound i ∈ s.log ∨ .unbound i ∈ s.log → i < s.sessions

theorem sessionInv_init : SessionInv (Host.init : Host τ) := by
  constructor
  case toInBoundSession => exact ⟨trivial, by simp [Host.init]⟩
  all_goals simp [Host.init]

section Steps

variable {t : τ} {s s' : Host τ} {o : Op}

theorem SessionInv.unbind (h : SessionInv s) : SessionInv s.unbind := by
  constructor
  case toInBoundSession =>
    refine ⟨timely_unboundEvent.mpr h.timely, fun call result n session hcall hmem => ?_⟩
    apply h.invalidated call result n session hcall
    simpa [Host.unbind, mem_unboundEvent] using hmem
  case seen => simp [Host.unbind]
  case counted => exact h.counted
  case live => simp [Host.unbind]
  case fresh =>
    intro i hi
    show i < s.sessions
    simp only [Host.unbind, List.mem_append, mem_unboundEvent] at hi
    rcases hi with (⟨j, -, heq⟩ | hold) | ⟨j, hj, heq⟩ | hold
    · cases heq
    · exact h.fresh i (.inl hold)
    · cases heq
      exact h.fresh i (.inl (h.live i hj).1)
    · exact h.fresh i (.inr hold)

theorem SessionInv.bind (h : SessionInv s) : SessionInv s.bind := by
  constructor
  case toInBoundSession =>
    refine ⟨timely_unboundEvent.mpr h.timely, fun call result n session hcall hmem => ?_⟩
    apply h.invalidated call result n session hcall
    simpa [Host.bind, mem_unboundEvent] using hmem
  case seen => exact fun _ _ => rfl
  case counted => exact fun _ _ => rfl
  case live =>
    intro i hi
    obtain rfl : s.sessions = i := by simpa [Host.bind] using hi
    refine ⟨List.mem_cons_self, fun hmem => ?_⟩
    simp only [Host.bind, List.mem_cons, List.mem_append, mem_unboundEvent] at hmem
    rcases hmem with heq | ⟨j, hj, heq⟩ | hold
    · cases heq
    · cases heq
      exact absurd (h.fresh _ (.inl (h.live _ hj).1)) (Nat.lt_irrefl _)
    · exact absurd (h.fresh _ (.inr hold)) (Nat.lt_irrefl _)
  case fresh =>
    intro i hi
    show i < s.sessions + 1
    simp only [Host.bind, List.mem_cons, List.mem_append, mem_unboundEvent] at hi
    rcases hi with (heq | ⟨j, -, heq⟩ | hold) | (heq | ⟨j, hj, heq⟩ | hold)
    · cases heq
      omega
    · cases heq
    · have := h.fresh i (.inl hold)
      omega
    · cases heq
    · cases heq
      have := h.fresh i (.inl (h.live i hj).1)
      omega
    · have := h.fresh i (.inr hold)
      omega

variable [DecidableEq τ]

theorem SessionInv.execute {session : Nat} (h : SessionInv s)
    (hsession : s.su_session = some session) : SessionInv { s with
      commands := Function.update s.commands t (s.commands t + 1)
      log := (s.current t).elim s.log fun call => .executed call session :: s.log } := by
  have hseen : ∀ u, s.seen u = true := fun u => h.seen u (by rw [hsession]; rfl)
  cases hcall : s.current t with
  | none => exact { h with counted := fun u _ => hseen u }
  | some call =>
      constructor
      case toInBoundSession =>
        refine ⟨⟨h.live session hsession, h.timely⟩, fun call result n i hcommand hmem => ?_⟩
        apply h.invalidated call result n i hcommand
        simpa using hmem
      case seen => exact h.seen
      case counted => exact fun u _ => hseen u
      case live => simpa using h.live
      case fresh => simpa using h.fresh

theorem SessionInv.change (h : SessionInv s) (hchange : Change t s o s') : SessionInv s' := by
  cases hchange with
  | same => exact h
  | construct mPfsRoot => exact { h with }
  | clear => exact { h with }
  | bind pfs_root => exact h.bind
  | openFailed pfs_root => exact { h with }
  | execute cmd_str session hsession => exact h.execute hsession
  | unbind session hsession => exact h.unbind

theorem SessionInv.enter {call : Call} (h : SessionInv s) : SessionInv (s.enter t call) := by
  refine { h with seen := fun u hbound => ?_, counted := fun u hu => ?_ }
  · show Function.update s.seen t s.su_session.isSome u = true
    rw [Function.update_apply]
    split
    · exact hbound
    · exact h.seen u hbound
  · have hu' : Function.update s.commands t 0 u ≠ 0 := hu
    show Function.update s.seen t s.su_session.isSome u = true
    rw [Function.update_apply] at hu' ⊢
    split at hu'
    · exact absurd rfl hu'
    · rename_i hne
      rw [if_neg hne]
      exact h.counted u hu'

/-- A command call that has seen no session has thrown. -/
def Invalidated (t : τ) (call : Call) (result : Except Thrown Value) (s : Host τ) : Prop :=
  call.isCommand = true → result = .error .SuShellInvalidatedException ∨ s.seen t = true

theorem SessionInv.leave {call : Call} {result : Except Thrown Value} (h : SessionInv s)
    (hresult : Invalidated t call result s) : SessionInv (s.leave t call result) := by
  constructor
  case toInBoundSession =>
    refine ⟨h.timely, fun call' result' n session hcommand hmem => ?_⟩
    rcases List.mem_cons.mp hmem with heq | hold
    · injection heq with hcall hres hseen hcount
      rw [hcall] at hcommand
      have hunseen : s.seen t ≠ true := by simp [← hseen]
      refine ⟨hres.trans ((hresult hcommand).resolve_right hunseen), hcount.trans ?_⟩
      by_contra hne
      exact hunseen (h.counted t hne)
    · exact h.invalidated call' result' n session hcommand hold
  case seen => exact h.seen
  case counted => exact h.counted
  case live => simpa [Host.leave] using h.live
  case fresh => simpa [Host.leave] using h.fresh

end Steps

/-! ## Calls beside one another -/

section Calls

variable [DecidableEq τ]

/-- What a call has seen stays seen while others move. -/
def sessionLogic : Logic (suShell : System τ Call Op Op.Result Thrown Value Int Unit (Host τ)) where
  ok _ _ _ := True
  inv := SessionInv
  rely t s s' := s.seen t = true → s'.seen t = true
  post := Invalidated
  inv_enter h := h.enter
  inv_act h _ hact := h.change (act_change hact)
  inv_leave h hpost := h.leave hpost
  inv_env h hdie := by
    obtain ⟨session, -, heq⟩ := die_eq_some hdie
    exact heq ▸ h.unbind
  rely_enter {t u call s} _ hne hseen := by
    show Function.update s.seen u s.su_session.isSome t = true
    rw [Function.update_of_ne hne.symm]
    exact hseen
  rely_act _ _ _ hact hseen := (act_change hact).seen hseen
  rely_leave _ _ hseen := hseen
  rely_env _ hdie hseen := by
    obtain ⟨session, -, heq⟩ := die_eq_some hdie
    exact heq ▸ hseen

variable {t : τ} {β γ : Type}

theorem stable_true {L : Logic (suShell : System τ _ _ _ _ _ _ _ _)} : L.Stable t fun _ => True :=
  fun _ _ _ _ => trivial

/-! ### Commands -/

/-- The call has seen a session or ends in the exception. -/
def Told (t : τ) : Except Thrown β → Host τ → Prop :=
  Ends (fun _ s => s.seen t = true) fun e s =>
    e = .SuShellInvalidatedException ∨ s.seen t = true

theorem outline_seen {code : Method β} :
    Outline sessionLogic t (Told t) code fun s => s.seen t = true := by
  have hseen : Outline sessionLogic t (fun _ s => s.seen t = true) code fun s => s.seen t = true :=
    .always (fun _ _ hs hrely => hrely hs) fun _ _ _ _ _ _ _ hs hact => (act_change hact).seen hs
  refine hseen.post fun r s hs => ?_
  cases r with
  | ok b => exact hs
  | error e => exact .inr hs

theorem stable_or_seen {p : Prop} : sessionLogic.Stable t fun s => p ∨ s.seen t = true :=
  fun _ _ hs hrely => hs.imp id hrely

/-- Only a call that finds no session has not seen one. -/
theorem outline_libSusrv_exec (cmd : String) :
    Outline sessionLogic t
      (Ends (fun rval s => rval = LibSusrv.NO_SESSION_ERR ∨ s.seen t = true) fun e s =>
        e = .SuShellInvalidatedException ∨ s.seen t = true)
      (LibSusrv.exec cmd) fun _ => True := by
  refine ⟨stable_true, fun bound s => bound = false ∨ s.seen t = true, ?_, fun bound => ?_⟩
  · intro s i s' bound hinv _ _ hact
    obtain ⟨rfl, rfl⟩ := Prod.mk.inj (Option.some.inj hact)
    cases hbound : s.su_session.isSome with
    | false => exact .inl rfl
    | true => exact .inr (hinv.seen t hbound)
  · cases bound with
    | false => exact ⟨stable_or_seen, fun s _ => .inl rfl⟩
    | true =>
        refine (outline_seen.pre stable_or_seen fun s hs => ?_).post fun r s hs => ?_
        · simpa using hs
        · cases r with
          | ok rval => exact .inr hs
          | error e => exact hs

/-- The end of `exec` and `chmod`. -/
theorem outline_afterExec (rval : Int) :
    Outline sessionLogic t (Told t)
      (do
        if rval = LibSusrv.NO_SESSION_ERR then SuShell.invalidatedSessionError
        return rval)
      fun s => rval = LibSusrv.NO_SESSION_ERR ∨ s.seen t = true := by
  dsimp only
  split
  · exact ⟨stable_or_seen, fun _ _ => True, fun _ _ _ _ _ _ _ _ => trivial, fun _ =>
      ⟨stable_true, fun _ _ => .inl rfl⟩⟩
  · rename_i hne
    exact outline_seen.pre stable_or_seen fun s hs => hs.resolve_left hne

theorem outline_exec (this : SuShell) (command : String) :
    Outline sessionLogic t (Told t) (this.exec command) fun _ => True := by
  unfold SuShell.exec
  exact (outline_libSusrv_exec command).bind outline_afterExec

theorem outline_chmod (this : SuShell) (path : String) (mode : Int) :
    Outline sessionLogic t (Told t) (this.chmod path mode) fun _ => True := by
  unfold SuShell.chmod
  exact (outline_libSusrv_exec _).bind outline_afterExec

/-- What follows a command has seen a session. -/
theorem Told.bind {code : Method β} {next : β → Method γ} {A : Host τ → Prop}
    (h : Outline sessionLogic t (Told t) code A) :
    Outline sessionLogic t (Told t) (code >>= next) A :=
  Outline.bind h fun _ => outline_seen

theorem outline_mkdir (this : SuShell) (path : String) (mode : Int) :
    Outline sessionLogic t (Told t) (this.mkdir path mode) fun _ => True := by
  unfold SuShell.mkdir
  exact Told.bind (outline_exec this _)

theorem outline_cp (this : SuShell) (sourcePath destinationPath : String) (mode : Int) :
    Outline sessionLogic t (Told t) (this.cp sourcePath destinationPath mode) fun _ => True := by
  unfold SuShell.cp
  exact Told.bind (outline_exec this _)

theorem outline_cd (this : SuShell) (cwdPath : String) :
    Outline sessionLogic t (Told t) (this.cd cwdPath) fun _ => True := by
  unfold SuShell.cd
  exact Told.bind (outline_exec this _)

theorem outline_command (call : Call) (h : call.isCommand = true) :
    Outline sessionLogic t (Told t) call.code fun _ => True := by
  cases call with
  | getInstance ctx smartFlag => cases h
  | ping this => cases h
  | exit this => cases h
  | exec this command => exact Told.bind (outline_exec this command)
  | chmod this path mode => exact Told.bind (outline_chmod this path mode)
  | mkdir this path mode => exact Told.bind (outline_mkdir this path mode)
  | cp this sourcePath destinationPath mode =>
      exact Told.bind (outline_cp this sourcePath destinationPath mode)
  | cd this cwdPath => exact Told.bind (outline_cd this cwdPath)

/-- Other calls promise nothing. -/
theorem outline_any {code : Method β} :
    Outline sessionLogic t (fun _ _ => True) code fun _ => True :=
  .always stable_true fun _ _ _ _ _ _ _ _ _ => trivial

theorem sessionLogic_outlined : (sessionLogic (τ := τ)).Outlined := by
  intro t call
  refine ⟨fun _ => True, fun _ _ => trivial, ?_⟩
  by_cases hcommand : call.isCommand = true
  · refine (outline_command call hcommand).post fun r s hs _ => ?_
    cases r with
    | ok value => exact .inr hs
    | error e => exact hs.imp (congrArg Except.error) id
  · exact outline_any.post fun r s _ h => absurd h hcommand

end Calls

/-! ## A handle of an ended session -/

/-- A call on thread `t`, and the operations it takes with their inputs. -/
def callRun (t : τ) (call : Call) (inputs : List Int) : List (Action τ Call Int Unit) :=
  .start t call :: inputs.map (.run t)

/-- Without the smart flag; the last step is the return. -/
def openRun (t : τ) : List (Action τ Call Int Unit) :=
  callRun t (.getInstance (some "/data") false) (List.replicate 7 0)

/-- `getInstance` has answered the object while session `i` was bound. -/
def Obtained (log : List Event) (shell : SuShell) (i : Nat) : Prop :=
  ∃ ctx smartFlag seen commands, .returned (.getInstance ctx smartFlag)
    (.ok (.shell (some shell))) seen commands (some i) ∈ log

def Call.this : Call → Option SuShell
  | .getInstance _ _ => none
  | .ping this | .exit this | .exec this _ | .chmod this _ _ | .mkdir this _ _
  | .cp this _ _ _ | .cd this _ => some this

/-- No command of an object is executed in a later session. -/
def StaysDead (log : List Event) : Prop :=
  ∀ shell i call j, Obtained log shell i → call.this = some shell → .executed call j ∈ log → j ≤ i

end Susrv.Java
