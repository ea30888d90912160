import Susrv.Native.Lifecycle

/-!
# The paths of a session

The socket path and the log path are printed into buffers whose sizes allow for
five digits of the PID.  `paths_identify_iff` says for which PIDs the paths come out
whole, and so tell two processes apart.
-/

namespace Susrv.Native

open Base.CString

/-- A PID of the kernel. -/
structure Pid where
  val : Nat
  pos : 1 ≤ val
  le : val ≤ 4194304

/-- `SESSION_AFUN_FMT`, fully expanded. -/
def socketText (pfs_root : Bytes) (owner_pid : Nat) : Bytes :=
  pfs_root ++ ascii "/var/run/su-" ++ zeroPadded 5 owner_pid

def SU_SRV_LOG_WLEN : Nat := 16 + 5

/-- `SU_SRV_LOG_FMT`, fully expanded. -/
def logText (pfs_root : Bytes) (pid : Nat) : Bytes :=
  pfs_root ++ ascii "/var/log/su-" ++ zeroPadded 5 pid ++ ascii ".log"

/-- What becomes of a path that is printed into a buffer. -/
inductive Printed
  /-- The call returns an error. -/
  | failed
  /-- A buffer without a string is read. -/
  | undefined
  | path (path : Bytes)
  deriving DecidableEq

/-- `malloc(len)` and `snprintf`.  As a `size_t` a negative `len` is more than any
`malloc` gives. -/
def printPath (malloc : Bool) (len : Int) (text : Bytes) : Printed :=
  if len < 0 ∨ malloc = false then .failed
  else
    match snprintf len.toNat text with
    | none => .undefined
    | some path => .path path

def afun_path_len (pfs_root : Bytes) : Int :=
  toInt32 (pfs_root.length + SESSION_AFUN_FMT_WLEN + 1 : Nat)

/-- `init_af_un_address` with its `int` length, up to what `strcpy` copies to `sun_path`. -/
def sunPath (malloc : Bool) (pfs_root : Bytes) (owner_pid : Nat) : Printed :=
  if (AF_UNIX_PATH_MAX : Int) < afun_path_len pfs_root then .failed
  else printPath malloc (afun_path_len pfs_root) (socketText pfs_root owner_pid)

def logpath_len (pfs_root : Bytes) : Int := toInt32 (pfs_root.length + SU_SRV_LOG_WLEN + 1 : Nat)

/-- `su_srv_log_init`, up to what it passes to `fopen`. -/
def logPath (malloc : Bool) (pfs_root : Bytes) (pid : Nat) : Printed :=
  printPath malloc (logpath_len pfs_root) (logText pfs_root pid)

/-- The paths of a process are whole, whatever `malloc` does. -/
structure WholePaths (pfs_root : Bytes) (pid : Nat) : Prop where
  socket : ∀ malloc, sunPath malloc pfs_root pid ≠ .failed →
    sunPath malloc pfs_root pid = .path (socketText pfs_root pid) ∧
      (socketText pfs_root pid).length + 1 ≤ AF_UNIX_PATH_MAX
  log : ∀ malloc, logPath malloc pfs_root pid ≠ .failed →
    logPath malloc pfs_root pid = .path (logText pfs_root pid)

/-- Both processes have whole paths, and no path in common. -/
structure PathsIdentify (pfs_root : Bytes) (p q : Pid) : Prop where
  left : WholePaths pfs_root p.val
  right : WholePaths pfs_root q.val
  socket_ne : p.val ≠ q.val → ∀ malloc malloc' path,
    sunPath malloc pfs_root p.val = .path path → sunPath malloc' pfs_root q.val ≠ .path path
  log_ne : p.val ≠ q.val → ∀ malloc malloc' path,
    logPath malloc pfs_root p.val = .path path → logPath malloc' pfs_root q.val ≠ .path path

variable {pfs_root text path : Bytes} {pid : Nat} {len : Int} {malloc : Bool}

/-! ## Printing -/

theorem printPath_eq_text_iff :
    printPath malloc len text = .path text ↔ malloc = true ∧ (text.length : Int) < len := by
  unfold printPath
  split
  · rename_i hfail
    refine iff_of_false (by simp) ?_
    rintro ⟨hmalloc, hlen⟩
    rcases hfail with hneg | hno
    · omega
    · simp [hno] at hmalloc
  · rename_i hok
    rw [not_or, Bool.not_eq_false, not_lt] at hok
    obtain ⟨hlen, hmalloc⟩ := hok
    have hfits : snprintf len.toNat text = some text ↔ text.length < len.toNat :=
      snprintf_eq_self_iff
    have hnat : text.length < len.toNat ↔ (text.length : Int) < len := by omega
    rw [and_iff_right hmalloc, ← hnat, ← hfits]
    cases snprintf len.toNat text with
    | none => simp
    | some printed => simp

theorem printPath_ne_failed_iff :
    printPath malloc len text ≠ .failed ↔ malloc = true ∧ 0 ≤ len := by
  unfold printPath
  split
  · rename_i hfail
    refine iff_of_false (by simp) ?_
    rintro ⟨hmalloc, hlen⟩
    rcases hfail with hneg | hno
    · omega
    · simp [hno] at hmalloc
  · rename_i hok
    rw [not_or, Bool.not_eq_false, not_lt] at hok
    refine iff_of_true ?_ ⟨hok.2, hok.1⟩
    cases snprintf len.toNat text <;> simp

theorem length_socketText (pfs_root : Bytes) (pid : Nat) :
    (socketText pfs_root pid).length = pfs_root.length + 12 + (zeroPadded 5 pid).length := by
  have hdir : (ascii "/var/run/su-").length = 12 := by decide
  rw [socketText, List.length_append, List.length_append, hdir]

theorem length_logText (pfs_root : Bytes) (pid : Nat) :
    (logText pfs_root pid).length = pfs_root.length + 16 + (zeroPadded 5 pid).length := by
  have hdir : (ascii "/var/log/su-").length = 12 := by decide
  have hext : (ascii ".log").length = 4 := by decide
  rw [logText, List.length_append, List.length_append, List.length_append, hdir, hext]
  omega

theorem socketText_injective (pfs_root : Bytes) : Function.Injective (socketText pfs_root) := by
  intro p q heq
  exact zeroPadded_injective 5 (List.append_cancel_left heq)

theorem logText_injective (pfs_root : Bytes) : Function.Injective (logText pfs_root) := by
  intro p q heq
  apply zeroPadded_injective 5
  exact List.append_cancel_left (List.append_cancel_right heq)

/-! ## Lengths as `int` -/

/-- A length that is kept as an `int` is the length or less. -/
theorem toInt32_natCast_le (n : Nat) : toInt32 n ≤ n := by
  rw [toInt32, Int.bmod_def]
  split <;> omega

/-- Nothing is allocated for a log path whose length is negative as an `int`. -/
def NeverAllocates (pfs_root : Bytes) : Prop := logpath_len pfs_root < 0

/-- Five digits, and a root that leaves the length of the log path an `int`. -/
def FitsWidth (pfs_root : Bytes) (pid : Nat) : Prop :=
  pfs_root.length + SU_SRV_LOG_WLEN + 1 < 2 ^ 31 ∧ pid ≤ 99999

/-- When the length of the log path is negative, the socket path has no buffer either. -/
theorem afun_path_len_of_neverAllocates (h : NeverAllocates pfs_root) :
    afun_path_len pfs_root < 0 ∨ (AF_UNIX_PATH_MAX : Int) < afun_path_len pfs_root := by
  simp only [NeverAllocates, logpath_len, SU_SRV_LOG_WLEN, toInt32, Int.bmod_def] at h
  simp only [afun_path_len, SESSION_AFUN_FMT_WLEN, AF_UNIX_PATH_MAX, toInt32, Int.bmod_def]
  push_cast at h ⊢
  split at h <;> split <;> omega

theorem afun_path_len_of_fitsWidth (h : FitsWidth pfs_root pid) :
    afun_path_len pfs_root = pfs_root.length + 18 := by
  have hroot := h.1
  simp only [SU_SRV_LOG_WLEN] at hroot
  simp only [afun_path_len, SESSION_AFUN_FMT_WLEN]
  rw [toInt32_of_inIntRange (by constructor <;> push_cast <;> omega)]
  push_cast
  omega

theorem logpath_len_of_fitsWidth (h : FitsWidth pfs_root pid) :
    logpath_len pfs_root = pfs_root.length + 22 := by
  have hroot := h.1
  simp only [SU_SRV_LOG_WLEN] at hroot
  simp only [logpath_len, SU_SRV_LOG_WLEN]
  rw [toInt32_of_inIntRange (by constructor <;> push_cast <;> omega)]
  push_cast
  omega

theorem sunPath_of_neverAllocates (h : NeverAllocates pfs_root) :
    sunPath malloc pfs_root pid = .failed := by
  unfold sunPath
  split
  · rfl
  · rename_i hle
    have hneg := (afun_path_len_of_neverAllocates h).resolve_right hle
    exact if_pos (Or.inl hneg)

theorem logPath_of_neverAllocates (h : NeverAllocates pfs_root) :
    logPath malloc pfs_root pid = .failed := by
  unfold logPath printPath
  exact if_pos (Or.inl h)

theorem wholePaths_of_neverAllocates (h : NeverAllocates pfs_root) : WholePaths pfs_root pid where
  socket _ hne := absurd (sunPath_of_neverAllocates h) hne
  log _ hne := absurd (logPath_of_neverAllocates h) hne

/-- With five digits both buffers are large enough. -/
theorem wholePaths_of_fitsWidth (h : FitsWidth pfs_root pid) : WholePaths pfs_root pid := by
  have hpid := h.2
  have hwidth : (zeroPadded 5 pid).length ≤ 5 :=
    (length_zeroPadded_le_iff (by omega)).mpr (by omega)
  constructor
  · intro malloc hne
    have hlen := afun_path_len_of_fitsWidth h
    have hsize := length_socketText pfs_root pid
    unfold sunPath at hne ⊢
    split at hne
    · exact absurd rfl hne
    · rename_i hmax
      rw [if_neg hmax, printPath_eq_text_iff]
      exact ⟨⟨(printPath_ne_failed_iff.mp hne).1, by omega⟩, by omega⟩
  · intro malloc hne
    have hlen := logpath_len_of_fitsWidth h
    have hsize := length_logText pfs_root pid
    unfold logPath at hne ⊢
    exact printPath_eq_text_iff.mpr ⟨(printPath_ne_failed_iff.mp hne).1, by omega⟩

/-- A log path that is whole has room for its PID, or is never printed. -/
theorem neverAllocates_or_fitsWidth (h : WholePaths pfs_root pid) :
    NeverAllocates pfs_root ∨ FitsWidth pfs_root pid := by
  by_cases hneg : NeverAllocates pfs_root
  · exact .inl hneg
  · have hlen : 0 ≤ logpath_len pfs_root := not_lt.mp hneg
    have hwhole := h.log true (printPath_ne_failed_iff.mpr ⟨rfl, hlen⟩)
    have hfits := (printPath_eq_text_iff.mp hwhole).2
    have hsize := length_logText pfs_root pid
    have hmin : 5 ≤ (zeroPadded 5 pid).length := by
      rw [length_zeroPadded]
      exact Nat.le_max_left 5 _
    have hle : logpath_len pfs_root ≤ (pfs_root.length + SU_SRV_LOG_WLEN + 1 : Nat) :=
      toInt32_natCast_le _
    have hlt : logpath_len pfs_root < 2 ^ 31 := (inIntRange_toInt32 _).2
    simp only [SU_SRV_LOG_WLEN] at hle
    have hdigits : pid < 10 ^ 5 := by
      rw [← length_zeroPadded_le_iff (by omega)]
      omega
    refine .inr ⟨?_, by omega⟩
    simp only [SU_SRV_LOG_WLEN]
    omega

/-- For a root whose length is an `int` this is the path of the open call. -/
theorem init_af_un_address_eq (env : OpenEnv)
    (hroot : pfs_root.length + SESSION_AFUN_FMT_WLEN + 1 < 2 ^ 31) (pid : Nat) :
    init_af_un_address env pfs_root pid =
      match sunPath env.malloc_path pfs_root pid with
      | .path path => some path
      | _ => none := by
  have hlen : afun_path_len pfs_root = (pfs_root.length + SESSION_AFUN_FMT_WLEN + 1 : Nat) := by
    apply toInt32_of_inIntRange
    constructor <;> omega
  by_cases hfits : pfs_root.length + SESSION_AFUN_FMT_WLEN + 1 ≤ AF_UNIX_PATH_MAX
  · have hmax : ¬ (AF_UNIX_PATH_MAX : Int) < afun_path_len pfs_root := by omega
    have hcheck : pathFits pfs_root = true := by simpa [pathFits] using hfits
    rw [sunPath, if_neg hmax, init_af_un_address, hcheck, Bool.true_and, printPath, hlen,
      Int.toNat_natCast]
    cases env.malloc_path with
    | false => simp
    | true =>
        have hneg : ¬ (((pfs_root.length + SESSION_AFUN_FMT_WLEN + 1 : Nat) : Int) < 0 ∨
            true = false) := by
          rw [or_iff_left (by decide)]
          omega
        rw [if_neg hneg]
        rfl
  · have hmax : (AF_UNIX_PATH_MAX : Int) < afun_path_len pfs_root := by omega
    have hcheck : pathFits pfs_root = false := by simpa [pathFits] using hfits
    rw [sunPath, if_pos hmax, init_af_un_address, hcheck]
    rfl

/-- The paths identify the processes exactly when both PIDs have five digits at most
(and the length of the log path is an `int`), or no path is ever printed. -/
theorem paths_identify_iff (pfs_root : Bytes) (p q : Pid) :
    PathsIdentify pfs_root p q ↔
      NeverAllocates pfs_root ∨ (FitsWidth pfs_root p.val ∧ FitsWidth pfs_root q.val) := by
  constructor
  · intro h
    rcases neverAllocates_or_fitsWidth h.left with hnever | hp
    · exact .inl hnever
    · rcases neverAllocates_or_fitsWidth h.right with hnever | hq
      · exact .inl hnever
      · exact .inr ⟨hp, hq⟩
  · intro h
    have hwhole : WholePaths pfs_root p.val ∧ WholePaths pfs_root q.val := by
      rcases h with hnever | ⟨hp, hq⟩
      · exact ⟨wholePaths_of_neverAllocates hnever, wholePaths_of_neverAllocates hnever⟩
      · exact ⟨wholePaths_of_fitsWidth hp, wholePaths_of_fitsWidth hq⟩
    obtain ⟨hp, hq⟩ := hwhole
    refine ⟨hp, hq, ?_, ?_⟩
    · intro hne malloc malloc' path hpath hpath'
      have htext := (hp.socket malloc (by rw [hpath]; simp)).1
      have htext' := (hq.socket malloc' (by rw [hpath']; simp)).1
      rw [hpath, Printed.path.injEq] at htext
      rw [hpath', Printed.path.injEq] at htext'
      exact hne (socketText_injective pfs_root (htext.symm.trans htext'))
    · intro hne malloc malloc' path hpath hpath'
      have htext := hp.log malloc (by rw [hpath]; simp)
      have htext' := hq.log malloc' (by rw [hpath']; simp)
      rw [hpath, Printed.path.injEq] at htext
      rw [hpath', Printed.path.injEq] at htext'
      exact hne (logText_injective pfs_root (htext.symm.trans htext'))

/-- The six-digit PIDs 100000 and 100001 share a socket path. -/
theorem not_paths_identify_six_digits :
    ¬ ∀ (pfs_root : Bytes) (p q : Pid), PathsIdentify pfs_root p q := by
  intro h
  have hsix := h (ascii "/data") ⟨100000, by decide, by decide⟩ ⟨100001, by decide, by decide⟩
  exact hsix.socket_ne (by decide) true true (ascii "/data/var/run/su-10000") (by decide)
    (by decide)

end Susrv.Native
