import Mathlib.Data.Fintype.Basic
import Susrv.Java.Proofs.Sessions
import Susrv.Native.Proofs.OpenOutcome

/-!
# `_instance` against `_su_session`

`_instance` is set before the native open is known to succeed and outlives a session
whose shell dies.  `instanceAgrees_of_reach` is about the runs in which neither is
seen by a `getInstance`.
-/

namespace Susrv.Java

open Base.Threads Base.Transition

variable {τ : Type}

/-! ## The native open -/

section NativeOpen

open Native

variable {env : OpenEnv} {pfs_root : Base.CString.Bytes} {owner_pid : Nat} {w w' : Process}
  {last_err : Int}

/-- What the input of `openEnd` stands for. -/
def OpenEnds (last_err : Int) (w' : Process) : Prop :=
  if last_err = 0 then w'.su_session.isSome = true
  else OpenError last_err ∧ w'.su_session = none

theorem openEnds_system_err (hnull : w'.su_session = none) : OpenEnds SU_SRV_SYSTEM_ERR w' := by
  unfold OpenEnds
  rw [if_neg (by decide)]
  exact ⟨.inl rfl, hnull⟩

theorem openEnds_of_delete {session : SuShellSession} (hnull : w.su_session = none)
    (h : .returned last_err w' = deleteOutcome session w) : OpenEnds last_err w' := by
  unfold deleteOutcome at h
  split at h
  · cases h
    exact openEnds_system_err ((cleanUp_sameHost session w).su_session.trans hnull)
  · cases h

theorem openEnds_of_opened {session : SuShellSession} {peer : Nat}
    (h : .returned last_err w' = openedOutcome env session peer w) : OpenEnds last_err w' := by
  unfold openedOutcome at h
  split at h
  · cases h
    rfl
  · cases h

theorem openEnds_of_open (hnull : w.su_session = none)
    (h : .returned last_err w' ∈ su_srv_open_shell_session env pfs_root owner_pid w) :
    OpenEnds last_err w' := by
  rcases started_or_not env pfs_root owner_pid with hnot | ⟨hpfs, session, hnew⟩
  · rw [open_of_not_started hnull hnot, List.mem_singleton] at h
    cases h
    exact openEnds_system_err hnull
  · by_cases hconnects : Connects env session.sun_path w
    · by_cases hfound : Found env
      · cases hfork : env.fork with
        | true =>
            obtain ⟨client, peer, hopen⟩ := open_of_forked hnull hpfs hnew hconnects hfound hfork
            rw [hopen] at h
            rcases List.mem_cons.mp h with hparent | hchild
            · exact openEnds_of_opened hparent
            · rw [List.mem_singleton] at hchild
              split at hchild
              · cases hchild
              · exact openEnds_of_opened hchild
        | false =>
            obtain ⟨client, peer, -, hopen⟩ :=
              open_of_not_forked hnull hpfs hnew hconnects hfound hfork
            rw [hopen, List.mem_singleton] at h
            exact openEnds_of_delete
              (w := closed peer (connected w session.sun_path client peer)) hnull h
      · obtain ⟨u, -, hopen⟩ := open_of_not_found hnull hpfs hnew hconnects hfound
        rw [hopen, List.mem_singleton] at h
        cases h
    · obtain ⟨client, u, hopen, hsame, -⟩ := open_of_not_connected hnull hpfs hnew hconnects
      rw [hopen, List.mem_singleton] at h
      exact openEnds_of_delete (hsame.su_session.trans hnull) h

end NativeOpen

/-- A session was bound during every `getInstance` that has answered an object. -/
def InstanceAgrees (log : List Event) : Prop :=
  ∀ ctx smartFlag shell seen commands session,
    .returned (.getInstance ctx smartFlag) (.ok (.shell (some shell))) seen commands session ∈ log →
      seen = true

/-- `getInstance` finds an object only while a session is bound, and none is made while
another call's open has failed and that call has not returned. -/
def InstanceKept (t : τ) (o : Op) (s : Host τ) : Prop :=
  match o with
  | .test => s._instance.isSome = true → s.su_session.isSome = true
  | .construct _ => ∀ u, u ≠ t → s.openFailed u = false
  | _ => True

structure InstanceInv (s : Host τ) : Prop where
  seen : ∀ t, s.su_session.isSome = true → s.seen t = true
  agrees : InstanceAgrees s.log

section Calls

variable {t u : τ} {s s' : Host τ} {o : Op}

theorem InstanceInv.log {log : List Event} (h : InstanceInv s)
    (hlog : ∀ call result seen commands session, .returned call result seen commands session ∈ log →
      .returned call result seen commands session ∈ s.log) : InstanceAgrees log :=
  fun ctx smartFlag shell seen commands session hmem =>
    h.agrees ctx smartFlag shell seen commands session (hlog _ _ _ _ _ hmem)

theorem InstanceInv.unbind (h : InstanceInv s) : InstanceInv s.unbind where
  seen _ hbound := by cases hbound
  agrees := h.log fun _ _ _ _ _ hmem => by simpa [Host.unbind, mem_unboundEvent] using hmem

variable [DecidableEq τ]

theorem InstanceInv.change (h : InstanceInv s) (hchange : Change t s o s') : InstanceInv s' := by
  cases hchange with
  | same => exact h
  | construct mPfsRoot => exact ⟨h.seen, h.agrees⟩
  | clear => exact ⟨h.seen, h.agrees⟩
  | bind pfs_root =>
      refine ⟨fun _ _ => rfl, h.log fun _ _ _ _ _ hmem => ?_⟩
      simpa [Host.bind, mem_unboundEvent] using hmem
  | openFailed pfs_root => exact ⟨h.seen, h.agrees⟩
  | execute cmd_str session hsession =>
      refine ⟨h.seen, h.log fun _ _ _ _ _ hmem => ?_⟩
      cases hcall : s.current t <;> simpa [hcall] using hmem
  | unbind session hsession => exact h.unbind

theorem InstanceInv.enter {call : Call} (h : InstanceInv s) : InstanceInv (s.enter t call) := by
  refine ⟨fun u hbound => ?_, h.agrees⟩
  show Function.update s.seen t s.su_session.isSome u = true
  rw [Function.update_apply]
  split
  · exact hbound
  · exact h.seen u hbound

/-- What a call relies on: what it has seen stays seen, and behind its failed open nobody
makes an object. -/
structure Undisturbed (t : τ) (s s' : Host τ) : Prop where
  seen : s.seen t = true → s'.seen t = true
  openFailed : s.openFailed t = true → s'.openFailed t = true
  cleared : s.openFailed t = true → s._instance = none → s'._instance = none

theorem Change.undisturbed (hne : u ≠ t) (hok : InstanceKept u o s) (h : Change u s o s') :
    Undisturbed t s s' := by
  refine ⟨h.seen, fun hfailed => ?_, fun hfailed hnull => ?_⟩
  · cases h with
    | openFailed pfs_root => exact (Function.update_of_ne hne.symm true s.openFailed).trans hfailed
    | _ => exact hfailed
  · cases h with
    | construct mPfsRoot =>
        rw [hok t hne.symm] at hfailed
        cases hfailed
    | clear => rfl
    | _ => exact hnull

omit [DecidableEq τ] in
theorem unbind_undisturbed : Undisturbed t s s.unbind := ⟨id, id, fun _ => id⟩

theorem enter_undisturbed {call : Call} (hne : u ≠ t) : Undisturbed t s (s.enter u call) := by
  refine ⟨fun hseen => ?_, fun hfailed => ?_, fun _ hnull => hnull⟩
  · exact (Function.update_of_ne hne.symm s.su_session.isSome s.seen).trans hseen
  · exact (Function.update_of_ne hne.symm false s.openFailed).trans hfailed

theorem leave_undisturbed {call : Call} {result : Except Thrown Value} (hne : u ≠ t) :
    Undisturbed t s (s.leave u call result) := by
  refine ⟨id, fun hfailed => ?_, fun _ hnull => hnull⟩
  exact (Function.update_of_ne hne.symm false s.openFailed).trans hfailed

/-- A call that answers an object has seen a session. -/
def Agrees (t : τ) (call : Call) (result : Except Thrown Value) (s : Host τ) : Prop :=
  ∀ ctx smartFlag shell, call = .getInstance ctx smartFlag → result = .ok (.shell (some shell)) →
    s.seen t = true

theorem InstanceInv.leave {call : Call} {result : Except Thrown Value} (h : InstanceInv s)
    (hresult : Agrees t call result s) : InstanceInv (s.leave t call result) := by
  refine ⟨h.seen, fun ctx smartFlag shell seen commands session hmem => ?_⟩
  rcases List.mem_cons.mp hmem with heq | hold
  · injection heq with hcall hres hseen hcommands hsession
    exact hseen.trans (hresult ctx smartFlag shell hcall.symm hres.symm)
  · exact h.agrees ctx smartFlag shell seen commands session hold

def instanceLogic : Logic (suShell : System τ Call Op Op.Result Thrown Value Int Unit (Host τ)) where
  ok := InstanceKept
  inv := InstanceInv
  rely := Undisturbed
  post := Agrees
  inv_enter h := h.enter
  inv_act h _ hact := h.change (act_change hact)
  inv_leave h hpost := h.leave hpost
  inv_env h hdie := by
    obtain ⟨session, -, heq⟩ := die_eq_some hdie
    exact heq ▸ h.unbind
  rely_enter _ hne := enter_undisturbed hne
  rely_act _ hne hok hact := (act_change hact).undisturbed hne hok
  rely_leave _ hne := leave_undisturbed hne
  rely_env _ hdie := by
    obtain ⟨session, -, heq⟩ := die_eq_some hdie
    exact heq ▸ unbind_undisturbed

end Calls

/-! ## `getInstance` -/

section Outlines

variable [DecidableEq τ] {t : τ} {β : Type}

/-- The object that is answered has a session behind it. -/
def Answers (t : τ) : Except Thrown (Option SuShell) → Host τ → Prop :=
  Ends (fun shell s => shell.isSome = true → s.seen t = true) fun _ _ => True

theorem stable_seen_of {p : Prop} : instanceLogic.Stable t fun s => p → s.seen t = true :=
  fun _ _ hs hrely hp => hrely.seen (hs hp)

/-- Once a session was seen nothing can go wrong. -/
theorem answers_of_seen {code : Method (Option SuShell)} :
    Outline instanceLogic t (Answers t) code fun s => s.seen t = true := by
  have hseen : Outline instanceLogic t (fun _ s => s.seen t = true) code fun s =>
      s.seen t = true :=
    .always (fun _ _ hs hrely => hrely.seen hs) fun _ _ _ _ _ _ _ hs hact =>
      (act_change hact).seen hs
  refine hseen.post fun r s hs => ?_
  cases r with
  | ok shell => exact fun _ => hs
  | error e => trivial

theorem outline_isNull : Outline instanceLogic t
    (Ends (fun null s => null = false → s.seen t = true) fun _ _ => True) isNull
      fun _ => True := by
  refine ⟨stable_true, fun null s => null = false → s.seen t = true, ?_, fun null =>
    ⟨stable_seen_of, fun _ hs => hs⟩⟩
  intro s i s' null hinv hok _ hact hnull
  obtain ⟨rfl, rfl⟩ := Prod.mk.inj (Option.some.inj hact)
  refine hinv.seen t (hok ?_)
  cases hinstance : s._instance with
  | none => simp [hinstance] at hnull
  | some shell => rfl

/-- What open leaves behind it: a session was seen, or the call is marked. -/
def Opened (t : τ) (rval : Int) (s : Host τ) : Prop :=
  if rval = 0 ∨ rval = LibSusrv.SESSION_EXISTS_ERR then s.seen t = true
  else s.openFailed t = true

theorem stable_opened {rval : Int} : instanceLogic.Stable t (Opened t rval) := by
  intro s s' hs hrely
  unfold Opened at hs ⊢
  split at hs <;> rename_i hrval
  · rw [if_pos hrval]
    exact hrely.seen hs
  · rw [if_neg hrval]
    exact hrely.openFailed hs

theorem OpenError.ne {i : Int} (h : OpenError i) :
    ¬ (i = 0 ∨ i = LibSusrv.SESSION_EXISTS_ERR) := by
  unfold OpenError LibSusrv.SYS_ERR at h
  unfold LibSusrv.SESSION_EXISTS_ERR
  omega

theorem outline_openShellSession (pfsRoot : String) :
    Outline instanceLogic t (Ends (Opened t) fun _ _ => True)
      (LibSusrv.openShellSession pfsRoot) fun _ => True := by
  refine ⟨stable_true, fun bound s => bound = true → s.seen t = true, ?_, fun bound => ?_⟩
  · intro s i s' bound hinv _ _ hact hbound
    obtain ⟨rfl, rfl⟩ := Prod.mk.inj (Option.some.inj hact)
    exact hinv.seen t hbound
  · cases bound with
    | true =>
        refine ⟨stable_seen_of, fun s hs => ?_⟩
        show Opened t LibSusrv.SESSION_EXISTS_ERR s
        rw [Opened, if_pos (.inr rfl)]
        exact hs rfl
    | false =>
        refine ⟨stable_seen_of, fun rval s => Opened t rval s, ?_, fun rval =>
          ⟨stable_opened, fun _ hs => hs⟩⟩
        intro s i s' rval _ _ _ hact
        simp only [suShell, act] at hact
        split at hact
        · obtain ⟨rfl, rfl⟩ := Prod.mk.inj (Option.some.inj hact)
          rename_i hzero
          rw [Opened, if_pos (.inl hzero)]
          rfl
        · split at hact
          · obtain ⟨rfl, rfl⟩ := Prod.mk.inj (Option.some.inj hact)
            rename_i herr
            rw [Opened, if_neg herr.ne]
            exact Function.update_self t true s.openFailed
          · cases hact

/-- `return _instance` behind a failed open, whose object was taken back. -/
theorem outline_giveUp : Outline instanceLogic t (Answers t) (do clear; read) fun s =>
    s.openFailed t = true := by
  have hcleared : instanceLogic.Stable t fun s => s.openFailed t = true ∧ s._instance = none :=
    fun _ _ hs hrely => ⟨hrely.openFailed hs.1, hrely.cleared hs.1 hs.2⟩
  refine ⟨fun _ _ hs hrely => hrely.openFailed hs,
    fun _ s => s.openFailed t = true ∧ s._instance = none, ?_, fun _ =>
      ⟨hcleared, fun shell _ => shell = none, ?_, fun shell => ⟨fun _ _ hs _ => hs, ?_⟩⟩⟩
  · intro s i s' r _ _ hs hact
    obtain ⟨rfl, -⟩ := Prod.mk.inj (Option.some.inj hact)
    exact ⟨hs, rfl⟩
  · intro s i s' shell _ _ hs hact
    obtain ⟨rfl, rfl⟩ := Prod.mk.inj (Option.some.inj hact)
    exact hs.2
  · rintro s rfl hsome
    cases hsome

/-- An operation of which nothing is known. -/
theorem outline_unknown {γ : Type} {code : Method γ} :
    Outline instanceLogic t (Ends (fun _ _ => True) fun _ _ => True) code fun _ => True := by
  have htrue : Outline instanceLogic t (fun _ _ => True) code fun _ => True :=
    .always stable_true fun _ _ _ _ _ _ _ _ _ => trivial
  refine htrue.post fun r s _ => ?_
  cases r <;> trivial

theorem outline_afterOpen (rval : Int) (smartFlag : Bool) :
    Outline instanceLogic t (Answers t)
      (do
        if rval = 0 then
          if smartFlag then (← dereference).updatePrivateEnvironment
        else if rval ≠ LibSusrv.SESSION_EXISTS_ERR then
          clear
        read)
      (Opened t rval) := by
  by_cases hbound : rval = 0 ∨ rval = LibSusrv.SESSION_EXISTS_ERR
  · refine answers_of_seen.pre stable_opened fun s hs => ?_
    rw [Opened, if_pos hbound] at hs
    exact hs
  · have hne : rval ≠ 0 ∧ rval ≠ LibSusrv.SESSION_EXISTS_ERR := not_or.mp hbound
    dsimp only
    rw [if_neg hne.1, if_pos hne.2]
    refine outline_giveUp.pre stable_opened fun s hs => ?_
    rw [Opened, if_neg hbound] at hs
    exact hs

theorem outline_getInstance (ctx : Option String) (smartFlag : Bool) :
    Outline instanceLogic t (Answers t) (SuShell.getInstance ctx smartFlag) fun _ => True := by
  unfold SuShell.getInstance
  refine outline_isNull.bind fun null => ?_
  cases null with
  | false => exact answers_of_seen.pre stable_seen_of fun s hs => hs rfl
  | true =>
      have hpre : instanceLogic.Stable t fun s => true = false → s.seen t = true := stable_seen_of
      refine Outline.pre ?_ hpre fun _ _ => trivial
      cases ctx with
      | none => exact ⟨stable_true, fun _ _ => trivial⟩
      | some filesDir =>
          refine outline_unknown.bind fun _ => outline_unknown.bind fun shell => ?_
          refine (outline_openShellSession shell.mPfsRoot).bind fun rval => ?_
          exact outline_afterOpen rval smartFlag

theorem instanceLogic_outlined : (instanceLogic (τ := τ)).Outlined := by
  intro t call
  refine ⟨fun _ => True, fun _ _ => trivial, ?_⟩
  by_cases hget : ∃ ctx smartFlag, call = .getInstance ctx smartFlag
  · obtain ⟨ctx, smartFlag, rfl⟩ := hget
    have hshell : Outline instanceLogic t
        (Ends (fun value s => ∀ shell, value = .shell (some shell) → s.seen t = true)
          fun _ _ => True)
        (Call.code (.getInstance ctx smartFlag)) fun _ => True := by
      refine (outline_getInstance ctx smartFlag).bind fun shell => ⟨stable_seen_of, ?_⟩
      rintro s hs _ ⟨⟩
      exact hs rfl
    refine hshell.post fun r s hs _ _ shell _ hr => ?_
    subst hr
    exact hs shell rfl
  · refine outline_unknown.post fun r s _ ctx smartFlag shell hcall => ?_
    exact absurd ⟨ctx, smartFlag, hcall⟩ hget

/-- Whenever `getInstance` answers an object a session was bound during the call. -/
theorem instanceAgrees_of_reach {p : Pool τ Call Op Op.Result Thrown Value (Host τ)}
    (h : Reach suShell.step (Guard InstanceKept) (.init Host.init) p) :
    InstanceAgrees p.shared.log := by
  have hinit : InstanceInv (Host.init : Host τ) := by
    constructor
    case seen => simp [Host.init]
    case agrees => simp [InstanceAgrees, Host.init]
  have hinv : InstanceInv p.shared := instanceLogic.sound instanceLogic_outlined hinit h
  exact hinv.agrees

end Outlines

/-! ## A shell that dies -/

instance [Fintype τ] [DecidableEq τ] (t : τ) (s : Host τ) : (o : Op) →
    Decidable (InstanceKept t o s)
  | .test => inferInstanceAs (Decidable (_ → _))
  | .construct _ => inferInstanceAs (Decidable (∀ u, u ≠ t → s.openFailed u = false))
  | .read | .clear | .openTest | .openEnd _ | .execTest | .execLock | .execWrite _ | .execEnd
  | .exitTest | .exitEnd | .ping => isTrue trivial

/-- Two threads; the second call opens a session of its own when the first session has
ended by `exit`. -/
theorem instanceAgrees_after_exit :
    ∃ p : Pool Bool Call Op Op.Result Thrown Value (Host Bool), InstanceAgrees p.shared.log ∧
      .returned (.getInstance (some "/data") false) (.ok (.shell (some ⟨1, "/data"⟩))) true 0
        (some 1) ∈ p.shared.log := by
  let as : List (Action Bool Call Int Unit) :=
    [openRun true, callRun false (.exit ⟨0, "/data"⟩) [0, 0, 0, 0], openRun false].flatten
  have hrun : (runOk suShell.step (Guard InstanceKept) (.init Host.init) as).map (fun p =>
      decide (.returned (.getInstance (some "/data") false) (.ok (.shell (some ⟨1, "/data"⟩))) true
        0 (some 1) ∈ p.shared.log)) = some true := by
    decide +kernel
  obtain ⟨p, hp, hlog⟩ := Reach.exists_of_runOk hrun
  exact ⟨p, instanceAgrees_of_reach hp, of_decide_eq_true hlog⟩

/-- After the death of its shell the old object is answered, and no session is bound. -/
theorem not_instanceAgrees_dead_shell :
    ¬ ∀ (as : List (Action Unit Call Int Unit))
      (p : Pool Unit Call Op Op.Result Thrown Value (Host Unit)),
      run suShell.step (.init Host.init) as = some p → InstanceAgrees p.shared.log := by
  intro h
  let as : List (Action Unit Call Int Unit) :=
    [openRun (), [.env ()], callRun () (.getInstance (some "/data") false) [0, 0, 0]].flatten
  have hrun : (run suShell.step (.init Host.init) as).map (fun p =>
      decide (.returned (.getInstance (some "/data") false) (.ok (.shell (some ⟨0, "/data"⟩))) false
        0 none ∈ p.shared.log)) = some true := by
    decide +kernel
  obtain ⟨p, hp, hlog⟩ := Option.map_eq_some_iff.mp hrun
  have hseen : false = true := h as p hp _ _ _ _ _ _ (of_decide_eq_true hlog)
  cases hseen

end Susrv.Java
