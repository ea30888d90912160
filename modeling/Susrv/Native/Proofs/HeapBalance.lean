import Susrv.Base.Simulation
import Susrv.Native.SessionHeap
import Susrv.Native.Proofs.Completeness

/-!
# The memory balance of sessions

Each function is specified by the blocks it owns.  `heap_account` adds them up over runs
of any length, in which sessions are created, read for and deleted one after the other.
-/

namespace Susrv.Native

open Base Base.CString Base.Transition

/-! ## What each function owns -/

/-- Which pointers of a session are not NULL. -/
def SessionBlocks.pointers (s : SessionBlocks) : Bool × Bool × Bool :=
  (s.handler_pth.isSome, s.shell_sync_mutex.isSome, s.shell_sync_ready.isSome)

namespace OnHeap

open Alloc

variable {env : OpenEnv} {pfs_root : Bytes} {owner_pid : Nat} {P : Multiset Nat} {E : Prop}
  {s : SessionBlocks}

theorem init_af_un_address_spec : Spec P (init_af_un_address env pfs_root)
    (fun r P' => r = (pathFits pfs_root && env.malloc_path) ∧ P' = P) E := by
  unfold init_af_un_address
  cases hfits : pathFits pfs_root with
  | false =>
      rw [if_neg Bool.false_ne_true]
      exact .pure ⟨rfl, rfl⟩
  | true =>
      rw [if_pos rfl]
      apply Spec.bind (malloc_spec _)
      rintro afun_path P' ⟨hpath, rfl⟩
      apply Spec.bind (free_spec rfl)
      rintro - P' rfl
      exact .pure ⟨hpath, rfl⟩

/-- The pointers of `Lifecycle`, and one block more where the condition fails. -/
theorem init_mutexes_spec : Spec P (init_mutexes env)
    (fun r P' => r.map (fun r => (r.1.isSome, r.2.isSome)) = Native.init_mutexes env ∧
      match r with
      | some (mutex, ready) => LosesMutex env = false ∧ P' = ready.block + (mutex.block + P)
      | none => ∃ lost : Multiset Nat, lost.card = (LosesMutex env).toNat ∧ P' = lost + P) E := by
  unfold init_mutexes
  apply Spec.bind (malloc_spec _)
  rintro mutex P₁ ⟨hmutex, rfl⟩
  by_cases hinit : (mutex.isSome && !env.mutex_init) = true
  · rw [if_pos hinit]
    apply Spec.bind (free_spec rfl)
    rintro - P₂ rfl
    refine .pure ⟨?_, 0, ?_, (zero_add P₂).symm⟩
    · rw [hmutex] at hinit
      rw [Native.init_mutexes, if_pos hinit]
      rfl
    · rw [Bool.and_eq_true_iff, Bool.not_eq_true'] at hinit
      simp [LosesMutex, hinit.2]
  · rw [if_neg hinit]
    rw [hmutex] at hinit
    apply Spec.bind (malloc_spec _)
    rintro ready P₂ ⟨hready, rfl⟩
    by_cases hcond : (ready.isSome && !env.cond_init) = true
    · rw [if_pos hcond]
      apply Spec.bind (free_spec rfl)
      rintro - P₃ rfl
      rw [hready] at hcond
      refine .pure ⟨?_, mutex.block, ?_, rfl⟩
      · rw [Native.init_mutexes, if_neg hinit, if_pos hcond]
        rfl
      · cases mutex <;> simp_all [LosesMutex]
    · rw [if_neg hcond]
      rw [hready] at hcond
      refine .pure ⟨?_, ?_, rfl⟩
      · rw [Native.init_mutexes, if_neg hinit, if_neg hcond, ← hmutex, ← hready]
        rfl
      · cases hm : env.malloc_cond <;> simp_all [LosesMutex]

theorem initSession_spec : Spec P (initSession env pfs_root)
    (fun r P' => r.map (fun r => (r.1.isSome, r.2.isSome)) =
        (if pathFits pfs_root && env.malloc_path then Native.init_mutexes env else none) ∧
      match r with
      | some (mutex, ready) =>
          (pathFits pfs_root && env.malloc_path && LosesMutex env) = false ∧
            P' = ready.block + (mutex.block + P)
      | none => ∃ lost : Multiset Nat,
          lost.card = (pathFits pfs_root && env.malloc_path && LosesMutex env).toNat ∧
            P' = lost + P) E := by
  unfold initSession
  apply Spec.bind init_af_un_address_spec
  rintro fits P₁ ⟨hfits, rfl⟩
  rw [← hfits]
  cases fits with
  | false =>
      rw [if_neg Bool.false_ne_true]
      exact .pure ⟨rfl, 0, rfl, (zero_add P₁).symm⟩
  | true =>
      rw [if_pos rfl]
      simp only [Bool.true_and]
      exact init_mutexes_spec

theorem map_new (hsession : env.malloc_session = true) :
    (Native.su_shell_session_new env pfs_root owner_pid).map (fun s =>
      (s.handler_pth, s.shell_sync_mutex, s.shell_sync_ready)) =
        (if pathFits pfs_root && env.malloc_path then Native.init_mutexes env else none).map
          fun r => (env.malloc_handler_pth, r) := by
  rw [Native.su_shell_session_new, if_pos hsession, Native.init_af_un_address]
  split
  · cases Native.init_mutexes env <;> rfl
  · rfl

/-- A created session owns its blocks, and its pointers are those of `Lifecycle`; a failed
call leaves a mutex if it loses one. -/
theorem new_spec (env : OpenEnv) (malloc_handler_buf : Bool) (pfs_root : Bytes) (owner_pid : Nat) :
    Spec 0 (su_shell_session_new env malloc_handler_buf pfs_root)
      (fun r P' => r.map SessionBlocks.pointers =
          (Native.su_shell_session_new env pfs_root owner_pid).map (fun s =>
            (s.handler_pth, s.shell_sync_mutex, s.shell_sync_ready)) ∧
        match r with
        | some s => s.handler_buf.isSome = malloc_handler_buf ∧ P' = s.blocks ∧
            (pathFits pfs_root && env.malloc_path && LosesMutex env) = false
        | none => P'.card = (env.malloc_session &&
            (pathFits pfs_root && env.malloc_path && LosesMutex env)).toNat) E := by
  unfold su_shell_session_new
  apply Spec.bind (malloc_spec _)
  rintro session P₁ ⟨hsession, rfl⟩
  cases session with
  | none =>
      have hfailed : env.malloc_session = false := hsession.symm
      refine .pure ⟨?_, ?_⟩
      · rw [Native.su_shell_session_new, hfailed]
        rfl
      · rw [hfailed]
        rfl
  | some session =>
      have hallocated : env.malloc_session = true := hsession.symm
      rw [map_new hallocated, hallocated, Bool.true_and]
      apply Spec.bind (malloc_spec _)
      rintro handler_pth P₂ ⟨hpth, rfl⟩
      apply Spec.bind (malloc_spec _)
      rintro handler_buf P₃ ⟨hbuf, rfl⟩
      apply Spec.bind initSession_spec
      rintro mutexes P₄ ⟨hagrees, hblocks⟩
      rw [← hagrees, ← hpth]
      cases mutexes with
      | none =>
          obtain ⟨lost, hlost, rfl⟩ := hblocks
          have hfirst : lost + (handler_buf.block + (handler_pth.block +
              (Pointer.block (some session) + 0))) =
            handler_pth.block + (handler_buf.block + (Pointer.block (some session) + lost)) := by
            ac_rfl
          apply Spec.bind (free_spec hfirst)
          rintro - P₅ rfl
          apply Spec.bind (free_spec rfl)
          rintro - P₅ rfl
          apply Spec.bind (free_spec rfl)
          rintro - P₅ rfl
          exact .pure ⟨rfl, hlost⟩
      | some mutexes =>
          obtain ⟨hkept, rfl⟩ := hblocks
          refine .pure ⟨rfl, hbuf, ?_, hkept⟩
          simp only [SessionBlocks.blocks, Pointer.block_none, zero_add, add_zero]
          ac_rfl

/-- Deleting a session frees all it has, unless the mutex or the condition is missing. -/
theorem delete_spec : Spec s.blocks (su_shell_session_delete s) (fun _ P' => P' = 0)
    (s.shell_sync_mutex = none ∨ s.shell_sync_ready = none) := by
  unfold su_shell_session_delete destroy_mutexes SessionBlocks.blocks
  simp only [bind_assoc]
  apply Spec.bind (use_spec (add_left_comm _ _ _) Or.inl)
  rintro - P' ⟨-, rfl⟩
  apply Spec.bind (use_spec rfl Or.inr)
  rintro - P' ⟨-, rfl⟩
  apply Spec.bind (free_spec rfl)
  rintro - P' rfl
  apply Spec.bind (use_spec rfl Or.inl)
  rintro - P' ⟨-, rfl⟩
  apply Spec.bind (free_spec rfl)
  rintro - P' rfl
  apply Spec.bind (free_spec rfl)
  rintro - P' rfl
  apply Spec.bind (free_spec rfl)
  rintro - P' rfl
  apply Spec.bind (free_spec rfl)
  rintro - P' rfl
  exact free_spec (add_zero _).symm

/-- The blocks that stay while the handler runs. -/
structure Keeps (s s' : SessionBlocks) : Prop where
  mutex : s'.shell_sync_mutex = s.shell_sync_mutex
  ready : s'.shell_sync_ready = s.shell_sync_ready
  buf : s.handler_buf.isSome = true → s'.handler_buf.isSome = true

theorem updateLastRead_spec {malloc_line : Bool} : Spec s.blocks (updateLastRead malloc_line s)
    (fun s' P' => P' = s'.blocks ∧ Keeps s s') E := by
  unfold updateLastRead
  apply Spec.bind (malloc_spec _)
  rintro last_tty_read P₁ ⟨-, rfl⟩
  have hold : last_tty_read.block + s.blocks =
      s.last_tty_read.block + { s with last_tty_read }.blocks := by
    simp only [SessionBlocks.blocks]
    ac_rfl
  have hfree : Spec (last_tty_read.block + s.blocks)
      (do Alloc.free s.last_tty_read; return { s with last_tty_read })
      (fun s' P' => P' = s'.blocks ∧ Keeps s s') E := by
    apply Spec.bind (free_spec hold)
    rintro - P' rfl
    exact .pure ⟨rfl, rfl, rfl, id⟩
  cases last_tty_read with
  | none => exact hfree
  | some a =>
      rw [Option.isSome_some, if_pos rfl]
      apply Spec.bind (use_spec rfl nofun)
      rintro - P' ⟨-, rfl⟩
      exact hfree

theorem Keeps.trans {s₁ s₂ s₃ : SessionBlocks} (h : Keeps s₁ s₂) (h' : Keeps s₂ s₃) :
    Keeps s₁ s₃ where
  mutex := h'.mutex.trans h.mutex
  ready := h'.ready.trans h.ready
  buf := h'.buf ∘ h.buf

theorem performEffects_spec {malloc_line : Bool} (effects : List Effect)
    (hE : s.shell_sync_ready = none → E) :
    Spec s.blocks (performEffects malloc_line effects s)
      (fun s' P' => P' = s'.blocks ∧ Keeps s s') E := by
  induction effects generalizing s with
  | nil => exact .pure ⟨rfl, rfl, rfl, id⟩
  | cons e rest ih =>
      cases e with
      | exitCode n => exact ih hE
      | signal =>
          apply Spec.bind (use_spec rfl hE)
          rintro - P' ⟨-, rfl⟩
          exact ih hE
      | line text =>
          apply Spec.bind updateLastRead_spec
          rintro s₁ P' ⟨rfl, hkeeps⟩
          apply Spec.mono (ih fun hnull => hE (hkeeps.ready ▸ hnull))
          rintro s' P' ⟨rfl, hkeeps'⟩
          exact ⟨rfl, hkeeps.trans hkeeps'⟩

/-- A buffer that cannot grow is NULL from then on. -/
theorem growBuffer_spec {abi : Abi} {realloc_buf : Bool} :
    Spec s.blocks (growBuffer abi realloc_buf s)
      (fun s' P' => (s'.handler_buf = none → s.handler_buf = none ∨ realloc_buf = false) ∧
        (s'.handler_buf.isSome = true → P' = s'.blocks) ∧
        s'.shell_sync_mutex = s.shell_sync_mutex ∧ s'.shell_sync_ready = s.shell_sync_ready) E := by
  unfold growBuffer
  split
  · have hbuf : s.blocks = s.handler_buf.block + { s with handler_buf := none }.blocks := by
      simp only [SessionBlocks.blocks, Pointer.block_none, zero_add]
      ac_rfl
    apply Spec.bind (realloc_spec hbuf)
    rintro handler_buf P' ⟨hsome, rfl⟩
    refine .pure ⟨fun hnull => .inr ?_, fun hgrown => ?_, rfl, rfl⟩
    · have hnone : handler_buf = none := hnull
      rw [← hsome, hnone]
      rfl
    · rw [← hsome, if_pos hgrown]
      simp only [SessionBlocks.blocks, Pointer.block_none, zero_add]
      ac_rfl
  · exact .pure ⟨.inl, fun _ => rfl, rfl, rfl⟩

/-- The handler faults where its buffer or the condition is missing, or cannot grow. -/
theorem handlerByte_spec {abi : Abi} {realloc_buf malloc_line : Bool} (b : UInt8)
    (hbuf : s.handler_buf = none ∨ realloc_buf = false → E)
    (hready : s.shell_sync_ready = none → E) :
    Spec s.blocks (handlerByte abi realloc_buf malloc_line b s)
      (fun s' P' => P' = s'.blocks ∧ s'.shell_sync_mutex = s.shell_sync_mutex ∧
        s'.shell_sync_ready = s.shell_sync_ready ∧ s'.handler_buf.isSome = true) E := by
  unfold handlerByte
  apply Spec.bind growBuffer_spec
  rintro s₁ P₁ ⟨hnull, hblocks, hmutex, hcond⟩
  have howned : s₁.handler_buf.isSome = true →
      P₁ = s₁.handler_buf.block + { s₁ with handler_buf := none }.blocks := by
    intro hsome
    rw [hblocks hsome]
    simp only [SessionBlocks.blocks, Pointer.block_none, zero_add]
    ac_rfl
  apply Spec.bind (use_spec_of_isSome howned fun h => hbuf (hnull h))
  rintro - P' ⟨hsome, rfl⟩
  obtain rfl := hblocks hsome
  split
  · have hcond' : s₁.shell_sync_ready = none → E := fun h => hready (hcond ▸ h)
    apply Spec.mono (performEffects_spec (s := { s₁ with line := [] }) _ hcond')
    rintro s' P' ⟨rfl, hkeeps⟩
    exact ⟨rfl, hkeeps.mutex.trans hmutex, hkeeps.ready.trans hcond, hkeeps.buf hsome⟩
  · exact .pure ⟨rfl, hmutex, hcond, hsome⟩

end OnHeap

/-! ## Whole runs -/

/-- What is allocated are the blocks of the session and the lost mutexes, and a missing
block has a cause. -/
structure Accounted (as : List HeapAction) (s : SessionHeap) : Prop where
  fault : s.fault ≠ some .dangling
  null : s.fault = some .null → ∃ a ∈ as, a.Starved
  missing : ∀ session, s.session = some session →
    session.shell_sync_mutex = none ∨ session.shell_sync_ready = none ∨
      session.handler_buf = none → ∃ a ∈ as, a.Starved
  live : s.fault = none → ∃ lost : Multiset Nat,
    lost.card = as.countP HeapAction.losesMutex ∧ s.heap.live = lost + s.blocks

section Runs

variable {abi : Abi} {as : List HeapAction} {a : HeapAction} {s s' : SessionHeap}
  {P lost : Multiset Nat} {E : Prop}

/-- A call that owns the blocks `P` leaves all others alone, or ends the process. -/
theorem after_spec {m : Alloc (Option SessionBlocks)}
    {Q : Option SessionBlocks → Multiset Nat → Prop} (hm : Alloc.Spec P m Q E)
    (hlive : s.heap.live = lost + P) :
    (s.after m).fault = none ∧
        (∃ P', Q (s.after m).session P' ∧ (s.after m).heap.live = lost + P') ∨
      (s.after m).fault = some .null ∧ (s.after m).session = s.session ∧ E := by
  have hend := hm s.heap lost hlive
  cases hrun : m s.heap with
  | error e =>
      rw [hrun] at hend
      obtain ⟨rfl, hE⟩ := hend
      rw [SessionHeap.after, hrun]
      exact .inr ⟨rfl, rfl, hE⟩
  | ok r =>
      rw [hrun] at hend
      obtain ⟨P', hQ, hlive'⟩ := hend
      rw [SessionHeap.after, hrun]
      exact .inl ⟨rfl, P', hQ, hlive'⟩

theorem countP_snoc (as : List HeapAction) (a : HeapAction) :
    (as ++ [a]).countP HeapAction.losesMutex =
      as.countP HeapAction.losesMutex + a.losesMutex.toNat := by
  rw [List.countP_append, List.countP_singleton]
  cases a.losesMutex <;> rfl

/-- A NULL dereference ends the run, and has a cause. -/
theorem Accounted.crash (hfault : s'.fault = some .null)
    (hstarved : ∃ b ∈ as ++ [a], b.Starved) : Accounted (as ++ [a]) s' where
  fault := by simp [hfault]
  null _ := hstarved
  missing _ _ _ := hstarved
  live hnone := by simp [hfault] at hnone

theorem starved_snoc (a : HeapAction) (h : ∃ b ∈ as, b.Starved) :
    ∃ b ∈ as ++ [a], b.Starved := by
  obtain ⟨b, hb, hstarved⟩ := h
  exact ⟨b, List.mem_append_left _ hb, hstarved⟩

theorem starved_last (as : List HeapAction) (h : a.Starved) : ∃ b ∈ as ++ [a], b.Starved :=
  ⟨a, List.mem_append_right as (List.mem_singleton_self a), h⟩

/-- A step that loses nothing. -/
theorem countP_snoc_of_kept (hlost : lost.card = as.countP HeapAction.losesMutex)
    (ha : a.losesMutex = false) : lost.card = (as ++ [a]).countP HeapAction.losesMutex := by
  rw [countP_snoc, ha, hlost]
  rfl

theorem accounted_create {env : OpenEnv} {malloc_handler_buf : Bool} {pfs_root : Bytes}
    (hs : Accounted as s) (hfault : s.fault = none) (hsession : s.session = none) :
    Accounted (as ++ [.create env malloc_handler_buf pfs_root])
      (s.after (OnHeap.su_shell_session_new env malloc_handler_buf pfs_root)) := by
  obtain ⟨lost, hlost, hlive⟩ := hs.live hfault
  rw [SessionHeap.blocks, hsession] at hlive
  have hnew := OnHeap.new_spec (E := False) env malloc_handler_buf pfs_root 0
  rcases after_spec hnew hlive with ⟨hnone, P', ⟨hagrees, hblocks⟩, hlive'⟩ | ⟨-, -, hE⟩
  · cases hcreated : (s.after (OnHeap.su_shell_session_new env malloc_handler_buf
        pfs_root)).session with
    | none =>
        rw [hcreated] at hblocks
        refine ⟨by simp [hnone], by simp [hnone], by simp [hcreated], fun _ => ?_⟩
        refine ⟨lost + P', ?_, ?_⟩
        · rw [Multiset.card_add, hlost, hblocks, countP_snoc]
          rfl
        · rw [hlive', SessionHeap.blocks, hcreated, Option.elim_none, add_zero]
    | some session =>
        rw [hcreated] at hblocks hagrees
        obtain ⟨hbuf, rfl, hkept⟩ := hblocks
        obtain ⟨created, hcreate, hpointers⟩ := Option.map_eq_some_iff.mp hagrees.symm
        obtain ⟨⟨hmutex, -⟩, hready, -⟩ := new_pointers hcreate
        simp only [SessionBlocks.pointers, Prod.mk.injEq, hmutex, hready] at hpointers
        refine ⟨by simp [hnone], by simp [hnone], fun other hother hmissing => ?_, fun _ => ?_⟩
        · obtain rfl := Option.some.inj (hcreated.symm.trans hother)
          apply starved_last
          rcases hmissing with h | h | h
          · exact .inl (by rw [hpointers.2.1, h]; rfl)
          · exact .inr (.inl (by rw [hpointers.2.2, h]; rfl))
          · exact .inr (.inr (by rw [← hbuf, h]; rfl))
        · refine ⟨lost, countP_snoc_of_kept hlost ?_, ?_⟩
          · rw [HeapAction.losesMutex, hkept, Bool.and_false]
          · rw [hlive', SessionHeap.blocks, hcreated]
            rfl
  · exact hE.elim

theorem accounted_byte {session : SessionBlocks} {b : UInt8} {realloc_buf malloc_line : Bool}
    (hs : Accounted as s) (hfault : s.fault = none) (hsession : s.session = some session) :
    Accounted (as ++ [.byte b realloc_buf malloc_line])
      (s.after (some <$> OnHeap.handlerByte abi realloc_buf malloc_line b session)) := by
  let a : HeapAction := .byte b realloc_buf malloc_line
  let m := OnHeap.handlerByte abi realloc_buf malloc_line b session
  show Accounted (as ++ [a]) (s.after (some <$> m))
  obtain ⟨lost, hlost, hlive⟩ := hs.live hfault
  rw [SessionHeap.blocks, hsession] at hlive
  have hbuf : session.handler_buf = none ∨ realloc_buf = false →
      ∃ b ∈ as ++ [a], b.Starved := by
    rintro (hnull | hno)
    · exact starved_snoc a (hs.missing session hsession (.inr (.inr hnull)))
    · exact starved_last as hno
  have hready : session.shell_sync_ready = none → ∃ b ∈ as ++ [a], b.Starved :=
    fun hnull => starved_snoc a (hs.missing session hsession (.inr (.inl hnull)))
  have hbyte : Alloc.Spec session.blocks (some <$> m) (fun r P' => ∃ s', r = some s' ∧
      P' = s'.blocks ∧ s'.shell_sync_mutex = session.shell_sync_mutex ∧
      s'.shell_sync_ready = session.shell_sync_ready ∧ s'.handler_buf.isSome = true)
      (∃ b ∈ as ++ [a], b.Starved) :=
    .map (.mono (OnHeap.handlerByte_spec b hbuf hready) fun s' P' h => ⟨s', rfl, h⟩)
  rcases after_spec hbyte hlive with ⟨hnone, P', ⟨s', hs', rfl, hm, hr, hb⟩, hlive'⟩ |
    ⟨hnull, -, hstarved⟩
  · refine ⟨by simp [hnone], by simp [hnone], fun other hother hmissing => ?_, fun _ => ?_⟩
    · obtain rfl := Option.some.inj (hs'.symm.trans hother)
      rcases hmissing with h | h | h
      · exact starved_snoc a (hs.missing session hsession (.inl (hm ▸ h)))
      · exact starved_snoc a (hs.missing session hsession (.inr (.inl (hr ▸ h))))
      · rw [h] at hb
        cases hb
    · refine ⟨lost, countP_snoc_of_kept hlost rfl, ?_⟩
      rw [hlive', SessionHeap.blocks, hs']
      rfl
  · exact .crash hnull hstarved

theorem accounted_delete {session : SessionBlocks} (hs : Accounted as s) (hfault : s.fault = none)
    (hsession : s.session = some session) :
    Accounted (as ++ [.delete])
      (s.after ((fun _ => none) <$> OnHeap.su_shell_session_delete session)) := by
  obtain ⟨lost, hlost, hlive⟩ := hs.live hfault
  rw [SessionHeap.blocks, hsession] at hlive
  have hdelete : Alloc.Spec session.blocks
      ((fun _ => (none : Option SessionBlocks)) <$> OnHeap.su_shell_session_delete session)
      (fun r P' => r = none ∧ P' = 0)
      (session.shell_sync_mutex = none ∨ session.shell_sync_ready = none) :=
    .map (.mono OnHeap.delete_spec fun _ _ h => ⟨rfl, h⟩)
  rcases after_spec hdelete hlive with ⟨hnone, P', ⟨hgone, rfl⟩, hlive'⟩ | ⟨hnull, -, hpointer⟩
  · refine ⟨by simp [hnone], by simp [hnone], by simp [hgone], fun _ => ?_⟩
    refine ⟨lost, countP_snoc_of_kept hlost rfl, ?_⟩
    rw [hlive', SessionHeap.blocks, hgone]
    rfl
  · refine .crash hnull (starved_snoc _ (hs.missing session hsession ?_))
    exact hpointer.imp_right .inl

theorem accounted_step (hs : Accounted as s) (h : s.step abi a = some s') :
    Accounted (as ++ [a]) s' := by
  unfold SessionHeap.step at h
  split at h
  · cases h
  · rename_i hfault
    have hfault' : s.fault = none := by simpa using hfault
    split at h
    · cases h
      exact accounted_create hs hfault' ‹_›
    · cases h
      exact accounted_byte hs hfault' ‹_›
    · cases h
      exact accounted_delete hs hfault' ‹_›
    · cases h

/-- In every run of sessions one after the other, whatever `malloc` and `realloc` give: nothing
is used or freed that is not allocated; NULL is dereferenced only if a result of the allocations
that the code does not check is NULL; and otherwise what is allocated are the blocks of the
session, if there is one, and one mutex for every call that has failed behind it. -/
theorem heap_account (hrun : run (SessionHeap.step abi) .init as = some s) :
    s.fault ≠ some .dangling ∧ (s.fault = some .null → ∃ a ∈ as, a.Starved) ∧
      (s.fault = none → ∃ lost : Multiset Nat,
        lost.card = as.countP HeapAction.losesMutex ∧ s.heap.live = lost + s.blocks) := by
  have hinit : Accounted [] .init :=
    ⟨nofun, nofun, nofun, fun _ => ⟨0, rfl, rfl⟩⟩
  have hstep : ∀ input s a s', Accounted input s → True → SessionHeap.step abi s a = some s' →
      Accounted (input ++ [a]) s' := fun _ _ _ _ hs _ h => accounted_step hs h
  rw [← runOk_true] at hrun
  have hs : Accounted (as.flatMap fun a => [a]) s := runOk_invariant hstep hinit hrun
  rw [List.flatMap_singleton'] at hs
  exact ⟨hs.fault, hs.null, hs.live⟩

end Runs

/-- A session that prints two lines and is deleted, then one whose condition fails. -/
def twoOpens : List HeapAction :=
  [.create faultless true (ascii "/data")] ++
    (ascii "total 0\n" ++ eocLine 0).map (fun b => .byte b true true) ++
    [.delete, .create { faultless with cond_init := false } true (ascii "/data")]

theorem heap_account_twoOpens :
    ∃ s, run (SessionHeap.step .lp64) .init twoOpens = some s ∧ s.session = none ∧
      s.heap.live.card = 1 := by
  have hend : (run (SessionHeap.step .lp64) .init twoOpens).map
      (fun s => (s.session.isNone, s.fault)) = some (true, none) := by decide +kernel
  obtain ⟨s, hrun, hs⟩ := Option.map_eq_some_iff.mp hend
  obtain ⟨hnone, hfault⟩ := Prod.mk.inj hs
  have hsession : s.session = none := Option.isNone_iff_eq_none.mp hnone
  obtain ⟨-, -, hlive⟩ := heap_account hrun
  obtain ⟨lost, hlost, heq⟩ := hlive hfault
  refine ⟨s, hrun, hsession, ?_⟩
  have hcount : twoOpens.countP HeapAction.losesMutex = 1 := by decide +kernel
  rw [heq, SessionHeap.blocks, hsession, Option.elim_none, add_zero, hlost, hcount]

end Susrv.Native
