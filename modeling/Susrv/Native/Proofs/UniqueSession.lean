import Mathlib.Data.Fintype.Basic
import Susrv.Native.Openers
import Susrv.Native.Proofs.OpenOutcome

/-!
# At most one session

Open tests `_su_session` first and assigns it last.  What keeps two calls apart in
between is the rendez-vous socket: the second `bind` to one path fails.
`oneSession_of_reach` is about the calls that do meet there.
-/

namespace Susrv.Native

open Base Base.CString Base.Transition

variable {κ φ : Type}

/-! ## Positions -/

/-- The call has bound its socket and can still end in success. -/
def OpenCallPc.live : OpenCallPc → Bool
  | .startShell _ | .createThread _ | .publish _ => true
  | .returned last_err => last_err = 0
  | _ => false

/-- The file of the call's rendez-vous is its own. -/
def OpenCallPc.owns : OpenCallPc → Bool
  | .delete session _ => 0 < session.afun_client_fd
  | .stopShell _ _ => true
  | pc => pc.live

def OpenCallPc.session : OpenCallPc → Option SuShellSession
  | .bind session _ | .startShell session | .createThread session | .stopShell session _
  | .delete session _ | .publish session => some session
  | _ => none

/-- The error that the call is going to return. -/
def OpenCallPc.error : OpenCallPc → Option Int
  | .stopShell _ last_err | .delete _ last_err => some last_err
  | _ => none

def OpenCallPc.binds : OpenCallPc → Bool
  | .bind _ _ => true
  | _ => false

/-- The file a call makes for its rendez-vous. -/
def OpenCalls.file (o : OpenCalls κ φ) (c : κ) : φ :=
  o.resolve (rdvPath (o.pfs_root c) o.owner_pid)

theorem OpenCallPc.owns_of_live {pc : OpenCallPc} (h : pc.live = true) : pc.owns = true := by
  cases pc <;> first | exact h | cases h

/-! ## The property -/

/-- One call at most has succeeded, no session was replaced, and each handler has found
the session it was created for. -/
structure OneSession (s : Openers κ φ) : Prop where
  one_success : ∀ c d, s.calls c = .returned 0 → s.calls d = .returned 0 → c = d
  kept : s.overwritten = false
  own : ∀ e ∈ s.served, e.2 = some e.1

/-- A call that binds its socket has the rendez-vous file of every other call that has
bound one and may still succeed; a handler waits until its session is published. -/
def OneRendezvous (o : OpenCalls κ φ) (s : Openers κ φ) : OpenersAction κ → Prop
  | .open c => (s.calls c).binds = true → ∀ d, d ≠ c → (s.calls d).live = true →
      o.file d = o.file c
  | .handler c => s.calls c = .returned 0

/-- Where the calls are: each owner of a rendez-vous file has it for itself, and one call
at most can still succeed. -/
structure CallsInv (o : OpenCalls κ φ) (s : Openers κ φ) : Prop where
  path : ∀ c session, (s.calls c).session = some session →
    o.resolve session.sun_path = o.file c
  unconnected : ∀ c session fd, s.calls c = .bind session fd → session.afun_client_fd = 0
  error : ∀ c last_err, (s.calls c).error = some last_err → last_err ≠ 0
  owned : ∀ c, (s.calls c).owns = true → o.file c ∈ s.files
  apart : ∀ c d, (s.calls c).owns = true → (s.calls d).owns = true → o.file c = o.file d → c = d
  one_live : ∀ c d, (s.calls c).live = true → (s.calls d).live = true → c = d

structure OpenersInv (o : OpenCalls κ φ) (s : Openers κ φ) : Prop extends
    OneSession s, CallsInv o s where
  bound : ∀ c, s.su_session = some c ↔ s.calls c = .returned 0

theorem openersInv_init (o : OpenCalls κ φ) (files : List φ) :
    OpenersInv o (Openers.init files) := by
  constructor
  case toOneSession => constructor <;> simp [Openers.init]
  case bound => simp [Openers.init]
  case toCallsInv =>
    constructor <;> simp [Openers.init, OpenCallPc.session, OpenCallPc.error, OpenCallPc.owns,
      OpenCallPc.live]

section Steps

variable [DecidableEq κ] [DecidableEq φ] {o : OpenCalls κ φ} {s s' : Openers κ φ} {c : κ}

/-- What a call's next position has to satisfy to keep the calls apart. -/
structure Places (o : OpenCalls κ φ) (s s' : Openers κ φ) (c : κ) (pc : OpenCallPc) : Prop where
  calls : s'.calls = Function.update s.calls c pc
  path : ∀ session, pc.session = some session → o.resolve session.sun_path = o.file c
  unconnected : ∀ session fd, pc = .bind session fd → session.afun_client_fd = 0
  error : ∀ last_err, pc.error = some last_err → last_err ≠ 0
  owned : pc.owns = true → o.file c ∈ s'.files
  files : ∀ d, d ≠ c → (s.calls d).owns = true → o.file d ∈ s'.files
  apart : pc.owns = true → (s.calls c).owns = true ∨
    ∀ d, d ≠ c → (s.calls d).owns = true → o.file d ≠ o.file c
  one_live : pc.live = true → (s.calls c).live = true ∨
    ∀ d, d ≠ c → (s.calls d).live = false

/-- A step of a call that neither publishes nor returns 0. -/
structure Fits (o : OpenCalls κ φ) (s s' : Openers κ φ) (c : κ) (pc : OpenCallPc) : Prop extends
    Places o s s' c pc where
  su_session : s'.su_session = s.su_session
  overwritten : s'.overwritten = s.overwritten
  served : s'.served = s.served
  before : ∀ n, s.calls c ≠ .returned n
  after : pc ≠ .returned 0

section

omit [DecidableEq φ]

theorem Places.calls_apply {pc : OpenCallPc} (h : Places o s s' c pc) (d : κ) :
    s'.calls d = if d = c then pc else s.calls d := by
  rw [h.calls, Function.update_apply]

theorem CallsInv.of_places {pc : OpenCallPc} (hs : CallsInv o s) (h : Places o s s' c pc) :
    CallsInv o s' := by
  have hcall := h.calls_apply
  constructor
  case path =>
    intro d session hd
    rw [hcall] at hd
    split at hd
    · rename_i hdc
      exact hdc ▸ h.path session hd
    · exact hs.path d session hd
  case unconnected =>
    intro d session fd hd
    rw [hcall] at hd
    split at hd
    · exact h.unconnected session fd hd
    · exact hs.unconnected d session fd hd
  case error =>
    intro d last_err hd
    rw [hcall] at hd
    split at hd
    · exact h.error last_err hd
    · exact hs.error d last_err hd
  case owned =>
    intro d hd
    rw [hcall] at hd
    split at hd
    · rename_i hdc
      exact hdc ▸ h.owned hd
    · exact h.files d ‹_› hd
  case apart =>
    -- two owners, of which at most one is the call that moved
    have hmoved : ∀ d, d ≠ c → pc.owns = true → (s.calls d).owns = true → o.file d ≠ o.file c := by
      intro d hdc hpc hd hfile
      rcases h.apart hpc with hbefore | hother
      · exact hdc (hs.apart d c hd hbefore hfile)
      · exact hother d hdc hd hfile
    intro d e hd he hfile
    rw [hcall] at hd he
    split at hd <;> split at he
    · rename_i hdc hec
      rw [hdc, hec]
    · rename_i hdc hec
      subst hdc
      exact absurd hfile.symm (hmoved e hec hd he)
    · rename_i hdc hec
      subst hec
      exact absurd hfile (hmoved d hdc he hd)
    · exact hs.apart d e hd he hfile
  case one_live =>
    have hmoved : ∀ d, d ≠ c → pc.live = true → (s.calls d).live = true → False := by
      intro d hdc hpc hd
      rcases h.one_live hpc with hbefore | hother
      · exact hdc (hs.one_live d c hd hbefore)
      · rw [hother d hdc] at hd
        cases hd
    intro d e hd he
    rw [hcall] at hd he
    split at hd <;> split at he
    · rename_i hdc hec
      rw [hdc, hec]
    · exact (hmoved e ‹_› hd he).elim
    · exact (hmoved d ‹_› he hd).elim
    · exact hs.one_live d e hd he

theorem OpenersInv.of_fits {pc : OpenCallPc} (hs : OpenersInv o s) (h : Fits o s s' c pc) :
    OpenersInv o s' := by
  have hsuccess : ∀ d, s'.calls d = .returned 0 ↔ s.calls d = .returned 0 := by
    intro d
    rw [h.calls_apply]
    split
    · rename_i hdc
      subst hdc
      exact ⟨fun hpc => absurd hpc h.after, fun hpc => absurd hpc (h.before 0)⟩
    · exact Iff.rfl
  refine ⟨⟨fun d e hd he => ?_, ?_, ?_⟩, hs.toCallsInv.of_places h.toPlaces, fun d => ?_⟩
  · exact hs.one_success d e ((hsuccess d).mp hd) ((hsuccess e).mp he)
  · rw [h.overwritten]
    exact hs.kept
  · rw [h.served]
    exact hs.own
  · rw [h.su_session, hsuccess]
    exact hs.bound d

end

/-- Fields that a call's own business leaves alone. -/
structure SameShared (s s₁ : Openers κ φ) : Prop where
  calls : s₁.calls = s.calls
  su_session : s₁.su_session = s.su_session
  files : s₁.files = s.files
  overwritten : s₁.overwritten = s.overwritten
  served : s₁.served = s.served

omit [DecidableEq φ] in
/-- A call that gains neither a file nor a chance of success. -/
theorem Fits.goto {s₁ : Openers κ φ} {pc : OpenCallPc} (hs : OpenersInv o s)
    (hsame : SameShared s s₁) (hbefore : ∀ n, s.calls c ≠ .returned n) (hafter : pc ≠ .returned 0)
    (hpath : ∀ session, pc.session = some session → o.resolve session.sun_path = o.file c)
    (hunconnected : ∀ session fd, pc = .bind session fd → session.afun_client_fd = 0)
    (herror : ∀ last_err, pc.error = some last_err → last_err ≠ 0)
    (howns : pc.owns = true → (s.calls c).owns = true)
    (hlive : pc.live = true → (s.calls c).live = true) : Fits o s (s₁.goto c pc) c pc where
  calls := by rw [Openers.goto, hsame.calls]
  su_session := hsame.su_session
  overwritten := hsame.overwritten
  served := hsame.served
  before := hbefore
  after := hafter
  path := hpath
  unconnected := hunconnected
  error := herror
  owned h := by
    show o.file c ∈ s₁.files
    rw [hsame.files]
    exact hs.owned c (howns h)
  files d _ hd := by
    show o.file d ∈ s₁.files
    rw [hsame.files]
    exact hs.owned d hd
  apart h := .inl (howns h)
  one_live h := .inl (hlive h)

omit [DecidableEq κ] [DecidableEq φ] in
theorem OpenersInv.crash (hs : OpenersInv o s) : OpenersInv o s.crash := by
  obtain ⟨⟨h₁, h₂, h₃⟩, ⟨h₄, h₅, h₆, h₇, h₈, h₉⟩, h₁₀⟩ := hs
  exact ⟨⟨h₁, h₂, h₃⟩, ⟨h₄, h₅, h₆, h₇, h₈, h₉⟩, h₁₀⟩

theorem afterBind_spec (env : OpenEnv) (session : SuShellSession) :
    (afterBind env session).2.sun_path = session.sun_path := by
  unfold afterBind
  split
  · rfl
  · dsimp only
    split <;> rfl

/-- Behind its rendez-vous a call starts the shell or gives up. -/
theorem afterRdv_cases (rdv : Int × SuShellSession) :
    afterRdv rdv = .startShell rdv.2 ∨ afterRdv rdv = .delete rdv.2 SU_SRV_SYSTEM_ERR := by
  unfold afterRdv
  split
  · exact .inl rfl
  · exact .inr rfl

theorem beforeBind_cases (env : OpenEnv) (pfs_root : Bytes) (owner_pid : Nat) :
    beforeBind env pfs_root owner_pid = .returned SU_SRV_SYSTEM_ERR ∨
      ∃ session, session.sun_path = rdvPath pfs_root owner_pid ∧ session.afun_client_fd = 0 ∧
        ((∃ fd, beforeBind env pfs_root owner_pid = .bind session fd) ∨
          beforeBind env pfs_root owner_pid = .delete session SU_SRV_SYSTEM_ERR) := by
  unfold beforeBind
  split
  · exact .inl rfl
  · split
    · exact .inl rfl
    · rename_i session hnew
      obtain ⟨-, hpath, hclient⟩ := new_eq_some hnew
      refine .inr ⟨session, hpath, hclient, ?_⟩
      dsimp only
      split
      · exact .inl ⟨_, rfl⟩
      · exact .inr rfl

theorem system_err_ne_zero : SU_SRV_SYSTEM_ERR ≠ 0 := by decide

omit [DecidableEq φ] in
/-- A call that gives up with a session whose file it owns no more than before. -/
theorem Fits.delete {session : SuShellSession} {last_err : Int} (hs : OpenersInv o s)
    (hbefore : ∀ n, s.calls c ≠ .returned n) (herr : last_err ≠ 0)
    (hpath : o.resolve session.sun_path = o.file c)
    (howns : 0 < session.afun_client_fd → (s.calls c).owns = true) :
    Fits o s (s.goto c (.delete session last_err)) c (.delete session last_err) := by
  refine .goto hs ⟨rfl, rfl, rfl, rfl, rfl⟩ hbefore (by simp) ?_ (by simp) ?_ ?_ ?_
  · rintro _ ⟨⟩
    exact hpath
  · rintro _ ⟨⟩
    exact herr
  · intro h
    exact howns (by simpa [OpenCallPc.owns] using h)
  · intro h
    cases h

theorem openersInv_test (hs : OpenersInv o s) (hpc : s.calls c = .test)
    (h : openCallStep o s c .test = some s') : OpenersInv o s' := by
  have hbefore : ∀ n, s.calls c ≠ .returned n := by simp [hpc]
  have hreturned : ∀ err : Int, err ≠ 0 → OpenersInv o (s.goto c (.returned err)) := by
    intro err herr
    refine hs.of_fits (.goto hs ⟨rfl, rfl, rfl, rfl, rfl⟩ hbefore (by simpa using herr) ?_ (by simp)
      ?_ ?_ ?_) <;>
      simp [OpenCallPc.session, OpenCallPc.error, OpenCallPc.owns, OpenCallPc.live, herr]
  simp only [openCallStep, Option.some.injEq] at h
  rw [← h]
  split
  · exact hreturned _ (by decide)
  · rcases beforeBind_cases (o.env c) (o.pfs_root c) o.owner_pid with
      heq | ⟨session, hpath, hclient, ⟨fd, heq⟩ | heq⟩ <;> rw [heq]
    · exact hreturned _ system_err_ne_zero
    · refine hs.of_fits (.goto hs ⟨rfl, rfl, rfl, rfl, rfl⟩ hbefore (by simp) ?_ ?_ ?_ ?_ ?_)
      · rintro _ ⟨⟩
        rw [hpath, OpenCalls.file]
      · rintro _ _ ⟨⟩
        exact hclient
      · simp [OpenCallPc.error]
      · simp [OpenCallPc.owns, OpenCallPc.live]
      · simp [OpenCallPc.live]
    · refine hs.of_fits (.delete hs hbefore system_err_ne_zero ?_ ?_)
      · rw [hpath, OpenCalls.file]
      · simp [hclient]

/-- A successful `bind` gives the call a file that nobody owns, and by the guard no other
call can still succeed. -/
theorem openersInv_bind {session : SuShellSession} {fd : Int} (hs : OpenersInv o s)
    (hok : OneRendezvous o s (.open c)) (hpc : s.calls c = .bind session fd)
    (h : openCallStep o s c (.bind session fd) = some s') : OpenersInv o s' := by
  have hbefore : ∀ n, s.calls c ≠ .returned n := by simp [hpc]
  have hfile : o.resolve session.sun_path = o.file c := hs.path c session (by rw [hpc]; rfl)
  have hclient := hs.unconnected c session fd hpc
  simp only [openCallStep] at h
  split at h
  · rename_i hbind
    obtain ⟨-, -, hnew⟩ := hbind
    rw [hfile] at hnew
    have hother : ∀ d, d ≠ c → (s.calls d).owns = true → o.file d ≠ o.file c := by
      intro d _ hd heq
      exact hnew (heq ▸ hs.owned d hd)
    have hnobody : ∀ d, d ≠ c → (s.calls d).live = false := by
      intro d hdc
      by_contra hlive
      have hlive' : (s.calls d).live = true := by simpa using hlive
      have hsame := hok (by rw [hpc]; rfl) d hdc hlive'
      exact hother d hdc (OpenCallPc.owns_of_live hlive') hsame
    have hpath : (afterBind (o.env c) session).2.sun_path = session.sun_path :=
      afterBind_spec (o.env c) session
    rw [← Option.some.inj h]
    let pc := afterRdv (afterBind (o.env c) session)
    let s₁ : Openers κ φ := { s with files := o.resolve session.sun_path :: s.files }
    suffices hplaces : Places o s (s₁.goto c pc) c pc by
      refine hs.of_fits ⟨hplaces, rfl, rfl, rfl, hbefore, ?_⟩
      rcases afterRdv_cases (afterBind (o.env c) session) with heq | heq <;> simp [pc, heq]
    constructor
    case calls => rfl
    case owned =>
      intro _
      show o.file c ∈ o.resolve session.sun_path :: s.files
      rw [hfile]
      exact List.mem_cons_self
    case files =>
      intro d _ hd
      exact List.mem_cons_of_mem _ (hs.owned d hd)
    case apart => exact fun _ => .inr hother
    case one_live => exact fun _ => .inr hnobody
    all_goals
      rcases afterRdv_cases (afterBind (o.env c) session) with heq | heq <;> simp only [pc, heq]
    case path.inl | path.inr =>
      rintro _ ⟨⟩
      rw [hpath, hfile]
    case unconnected.inl | unconnected.inr => simp
    case error.inl => simp [OpenCallPc.error]
    case error.inr =>
      rintro _ ⟨⟩
      exact system_err_ne_zero
  · rw [← Option.some.inj h]
    refine hs.of_fits (.delete hs hbefore system_err_ne_zero hfile ?_)
    simp [hclient]

/-- The file that is unlinked belongs to the call that unlinks it. -/
theorem openersInv_delete {session : SuShellSession} {last_err : Int} (hs : OpenersInv o s)
    (hpc : s.calls c = .delete session last_err)
    (h : openCallStep o s c (.delete session last_err) = some s') : OpenersInv o s' := by
  have hfile : o.resolve session.sun_path = o.file c := hs.path c session (by rw [hpc]; rfl)
  have herr : last_err ≠ 0 := hs.error c last_err (by rw [hpc]; rfl)
  simp only [openCallStep] at h
  split at h <;> rw [← Option.some.inj h]
  · let s₁ : Openers κ φ := { s with
      files := if 0 < session.afun_client_fd then s.files.erase (o.resolve session.sun_path)
        else s.files }
    suffices hplaces : Places o s (s₁.goto c (.returned last_err)) c (.returned last_err) from
      hs.of_fits ⟨hplaces, rfl, rfl, rfl, by simp [hpc], by simpa using herr⟩
    constructor
    case calls => rfl
    case path => simp [OpenCallPc.session]
    case unconnected => simp
    case error => simp [OpenCallPc.error]
    case owned => simp [OpenCallPc.owns, OpenCallPc.live, herr]
    case apart => simp [OpenCallPc.owns, OpenCallPc.live, herr]
    case one_live => simp [OpenCallPc.live, herr]
    case files =>
      intro d hdc hd
      have hkept := hs.owned d hd
      show o.file d ∈ if 0 < session.afun_client_fd then _ else _
      split
      · rename_i hclient
        have hown : (s.calls c).owns = true := by simp [hpc, OpenCallPc.owns, hclient]
        have hne : o.file d ≠ o.resolve session.sun_path := by
          rw [hfile]
          exact fun heq => hdc (hs.apart d c hd hown heq)
        rw [List.mem_erase_of_ne hne]
        exact hkept
      · exact hkept
  · exact hs.crash

/-- The call that publishes is the only one that can, so it finds no session. -/
theorem openersInv_publish {session : SuShellSession} (hs : OpenersInv o s)
    (hpc : s.calls c = .publish session)
    (h : openCallStep o s c (.publish session) = some s') : OpenersInv o s' := by
  have hlive : (s.calls c).live = true := by rw [hpc]; rfl
  have honly : ∀ d, (s.calls d).live = true → d = c := fun d hd => hs.one_live d c hd hlive
  have hnone : s.su_session = none := by
    cases hbound : s.su_session with
    | none => rfl
    | some d =>
        have hd := (hs.bound d).mp hbound
        have hdc : d = c := honly d (by rw [hd]; rfl)
        rw [hdc, hpc] at hd
        cases hd
  simp only [openCallStep, Option.some.injEq] at h
  subst h
  have hplaces : Places o s ({ s with
      su_session := some c
      overwritten := s.overwritten || s.su_session.isSome }.goto c (.returned 0)) c
      (.returned 0) := by
    constructor
    case calls => rfl
    case owned => exact fun _ => hs.owned c (OpenCallPc.owns_of_live hlive)
    case files => exact fun d _ hd => hs.owned d hd
    case apart => exact fun _ => .inl (OpenCallPc.owns_of_live hlive)
    case one_live => exact fun _ => .inl hlive
    all_goals simp [OpenCallPc.session, OpenCallPc.error]
  have hother : ∀ d, d ≠ c → s.calls d ≠ .returned 0 := by
    intro d hdc hd
    exact hdc (honly d (by rw [hd]; rfl))
  have hcalls : ∀ d,
      (if d = c then OpenCallPc.returned 0 else s.calls d) = .returned 0 ↔ d = c := by
    intro d
    split
    · simp_all
    · rename_i hdc
      simp [hdc, hother d hdc]
  refine ⟨⟨fun d e hd he => ?_, ?_, hs.own⟩, hs.toCallsInv.of_places hplaces, fun d => ?_⟩
  · rw [hplaces.calls_apply, hcalls] at hd he
    rw [hd, he]
  · show (s.overwritten || s.su_session.isSome) = false
    rw [hs.kept, hnone]
    rfl
  · rw [hplaces.calls_apply, hcalls]
    show some c = some d ↔ d = c
    rw [Option.some.injEq, eq_comm]

theorem openersInv_open (hs : OpenersInv o s) (hok : OneRendezvous o s (.open c))
    (h : openCallStep o s c (s.calls c) = some s') : OpenersInv o s' := by
  cases hpc : s.calls c with
  | test => exact openersInv_test hs hpc (hpc ▸ h)
  | bind session fd => exact openersInv_bind hs hok hpc (hpc ▸ h)
  | startShell session =>
      rw [hpc, openCallStep] at h
      have hbefore : ∀ n, s.calls c ≠ .returned n := by simp [hpc]
      have hfile : o.resolve session.sun_path = o.file c := hs.path c session (by rw [hpc]; rfl)
      split at h <;> rw [← Option.some.inj h]
      · split
        · refine hs.of_fits (.goto hs ⟨rfl, rfl, rfl, rfl, rfl⟩ hbefore (by simp) ?_ (by simp)
            (by simp [OpenCallPc.error]) ?_ ?_)
          · rintro _ ⟨⟩
            exact hfile
          · exact fun _ => by rw [hpc]; rfl
          · exact fun _ => by rw [hpc]; rfl
        · exact hs.of_fits (.delete hs hbefore system_err_ne_zero hfile fun _ => by rw [hpc]; rfl)
      · exact hs.crash
  | createThread session =>
      rw [hpc, openCallStep] at h
      have hbefore : ∀ n, s.calls c ≠ .returned n := by simp [hpc]
      have hfile : o.resolve session.sun_path = o.file c := hs.path c session (by rw [hpc]; rfl)
      split at h
      · rw [← Option.some.inj h]
        exact hs.crash
      · split at h <;> rw [← Option.some.inj h]
        · refine hs.of_fits (.goto hs ⟨rfl, rfl, rfl, rfl, rfl⟩ hbefore (by simp) ?_ (by simp)
            (by simp [OpenCallPc.error]) ?_ ?_)
          · rintro _ ⟨⟩
            exact hfile
          · exact fun _ => by rw [hpc]; rfl
          · exact fun _ => by rw [hpc]; rfl
        · rename_i herr
          refine hs.of_fits (.goto hs ⟨rfl, rfl, rfl, rfl, rfl⟩ hbefore (by simp) ?_ (by simp)
            ?_ ?_ (by simp [OpenCallPc.live]))
          · rintro _ ⟨⟩
            exact hfile
          · rintro _ ⟨⟩
            exact herr
          · exact fun _ => by rw [hpc]; rfl
  | stopShell session last_err =>
      rw [hpc, openCallStep] at h
      have hbefore : ∀ n, s.calls c ≠ .returned n := by simp [hpc]
      have hfile : o.resolve session.sun_path = o.file c := hs.path c session (by rw [hpc]; rfl)
      have herr : last_err ≠ 0 := hs.error c last_err (by rw [hpc]; rfl)
      split at h <;> rw [← Option.some.inj h]
      · exact hs.of_fits (.delete hs hbefore herr hfile fun _ => by rw [hpc]; rfl)
      · exact hs.crash
  | delete session last_err => exact openersInv_delete hs hpc (hpc ▸ h)
  | publish session => exact openersInv_publish hs hpc (hpc ▸ h)
  | returned last_err => simp [hpc, openCallStep] at h

/-- A handler that waits for its session to be published finds it. -/
theorem openersInv_handler (hs : OpenersInv o s) (hok : OneRendezvous o s (.handler c))
    (h : Openers.step o s (.handler c) = some s') : OpenersInv o s' := by
  have hbound : s.su_session = some c := (hs.bound c).mpr hok
  simp only [Openers.step] at h
  split at h
  · cases h
  · rw [← Option.some.inj h]
    refine { hs with own := ?_ }
    intro e he
    rcases List.mem_cons.mp he with heq | hold
    · rw [heq]
      exact hbound
    · exact hs.own e hold

theorem openersInv_step (hs : OpenersInv o s) (a : OpenersAction κ) (hok : OneRendezvous o s a)
    (h : Openers.step o s a = some s') : OpenersInv o s' := by
  cases a with
  | «open» c =>
      simp only [Openers.step] at h
      split at h
      · cases h
      · exact openersInv_open hs hok h
  | handler c => exact openersInv_handler hs hok h

/-- Calls that meet at one rendez-vous file open one session. -/
theorem oneSession_of_reach (o : OpenCalls κ φ) (files : List φ) {s : Openers κ φ}
    (h : Reach (Openers.step o) (OneRendezvous o) (Openers.init files) s) : OneSession s := by
  have hinv : OpenersInv o s := h.invariant (openersInv_init o files)
    fun _ a _ hs hok hstep => openersInv_step hs a hok hstep
  exact hinv.toOneSession

end Steps

/-! ## Two calls -/

instance [Fintype κ] [DecidableEq κ] [DecidableEq φ] (o : OpenCalls κ φ) (s : Openers κ φ) :
    DecidablePred (OneRendezvous o s)
  | .open c => inferInstanceAs (Decidable ((s.calls c).binds = true → ∀ d, d ≠ c →
      (s.calls d).live = true → o.file d = o.file c))
  | .handler c => inferInstanceAs (Decidable (s.calls c = .returned 0))

/-- Two calls without any failure of the system, each with its own `pfs_root`. -/
def twoCalls (pfs_root : Bool → Bytes) : OpenCalls Bool Bytes where
  pfs_root := pfs_root
  env _ := faultless
  owner_pid := 4711
  resolve := id

/-- Both calls find no session; the one that binds second fails and leaves the other's
socket alone. -/
theorem oneSession_one_rendezvous :
    ∃ s : Openers Bool Bytes, OneSession s ∧ s.calls true = .returned 0 ∧
      s.calls false = .returned SU_SRV_SYSTEM_ERR ∧ s.served = [(true, some true)] := by
  let o := twoCalls fun _ => ascii "/data/susrv"
  let as : List (OpenersAction Bool) :=
    [.open true, .open false, .open true, .open false, .open false, .open true, .open true,
      .open true, .handler true]
  have hrun : (runOk (Openers.step o) (OneRendezvous o) (Openers.init []) as).map
      (fun s => (s.calls true, s.calls false, s.served)) =
        some (.returned 0, .returned SU_SRV_SYSTEM_ERR, [(true, some true)]) := by
    decide +kernel
  obtain ⟨s, hs, hlast⟩ := Reach.exists_of_runOk hrun
  simp only [Prod.mk.injEq] at hlast
  exact ⟨s, oneSession_of_reach o [] hs, hlast⟩

/-- Two roots are two rendez-vous: both calls return 0, and the second session replaces
the first. -/
theorem not_oneSession_two_roots :
    ¬ ∀ (o : OpenCalls Bool Bytes) (files : List Bytes) (as : List (OpenersAction Bool))
      (s : Openers Bool Bytes), run (Openers.step o) (Openers.init files) as = some s →
        OneSession s := by
  intro h
  let o := twoCalls fun c => if c then ascii "/data/susrv" else ascii "/data/other"
  let as : List (OpenersAction Bool) :=
    [[.open true, .open false], List.replicate 4 (.open true),
      List.replicate 4 (.open false)].flatten
  have hrun : (run (Openers.step o) (Openers.init []) as).map
      (fun s => (s.calls true, s.calls false)) = some (.returned 0, .returned 0) := by
    decide +kernel
  obtain ⟨s, hs, hlast⟩ := Option.map_eq_some_iff.mp hrun
  obtain ⟨htrue, hfalse⟩ := Prod.mk.inj hlast
  have hone := (h o [] as s hs).one_success true false htrue hfalse
  cases hone

end Susrv.Native
