import Susrv.Native.Proofs.OpenOutcome

/-!
# Looking for `su`

`find_su_binary` over any array of candidates, together with what it reads and
what it asks `stat` for.  Its bound is the size of the array in bytes, so it
finds its way only to a candidate that exists; `lookup_correct_iff`.
-/

namespace Susrv.Native

open Base Base.CString

/-- The loop of `find_su_binary`: the elements it reads, the arguments of `stat`,
and `c` afterwards, which is absent when an element behind the array is read. -/
structure Lookup where
  reads : List Nat
  stats : List (Option Bytes)
  c : Option Nat
  deriving DecidableEq

/-- One round: element `c` is read and handed to `stat`. -/
def Lookup.round (c : Nat) (candidate : Option Bytes) (rest : Lookup) : Lookup :=
  ⟨c :: rest.reads, candidate :: rest.stats, rest.c⟩

/-- `while ((c < size) && (stat(candidates[c++], ...) != 0))`, `left` rounds before
`c` is `size`.  `stat(NULL)` fails. -/
def lookupFrom (stat : Bytes → Bool) (candidates : List (Option Bytes)) :
    (left c : Nat) → Lookup
  | 0, c => ⟨[], [], some c⟩
  | left + 1, c =>
      match candidates[c]? with
      | none => ⟨[c], [], none⟩
      | some candidate =>
          if candidate.any stat then ⟨[c], [candidate], some (c + 1)⟩
          else (lookupFrom stat candidates left (c + 1)).round c candidate

/-- `sizeof` an array of pointers. -/
def sizeofCandidates (abi : Abi) (candidates : List (Option Bytes)) : Nat :=
  abi.sizeofPtr * candidates.length

def lookup (abi : Abi) (stat : Bytes → Bool) (candidates : List (Option Bytes)) : Lookup :=
  lookupFrom stat candidates (sizeofCandidates abi candidates) 0

/-- `find_su_binary` with `candidates` for `SU_SHELL_BINARY_CANDIDATES`. -/
def find_su_binaryIn (abi : Abi) (stat : Bytes → Bool) (candidates : List (Option Bytes)) :
    InProcess (Option Bytes) :=
  match (lookup abi stat candidates).c with
  | none => Proc.stop .outOfBounds
  | some c =>
      if c = sizeofCandidates abi candidates then return none
      else
        match candidates[c - 1]? with
        | none => Proc.stop .outOfBounds
        | some candidate => return candidate

/-- `shell_start_process` with these candidates. -/
def shell_start_processIn (abi : Abi) (env : OpenEnv) (candidates : List (Option Bytes)) :
    InProcess Int := do
  let some _su_binary ← find_su_binaryIn abi env.stat candidates | return SU_SRV_SYSTEM_ERR
  if !env.fork then return SU_SRV_SYSTEM_ERR
  else if ← Proc.fork forkedChild then
    Proc.modify fun w => { w with shell := .unreaped }
    return 0
  else if env.execve then Proc.stop .becameSu
  else return 0

/-- An array laid out as `SU_SHELL_BINARY_CANDIDATES` is. -/
def nullTerminated (paths : List Bytes) : List (Option Bytes) := paths.map some ++ [none]

/-- The lookup does what it is for, in every process that makes it. -/
structure LookupCorrect (abi : Abi) (env : OpenEnv) (paths : List Bytes) : Prop where
  inside : ∀ i ∈ (lookup abi env.stat (nullTerminated paths)).reads,
    i < (nullTerminated paths).length
  sentinel : none ∉ (lookup abi env.stat (nullTerminated paths)).stats
  result : ∀ w, find_su_binaryIn abi env.stat (nullTerminated paths) w =
    [.returned (paths.find? env.stat) w]
  noSu : paths.find? env.stat = none → ∀ w,
    shell_start_processIn abi env (nullTerminated paths) w = [.returned SU_SRV_SYSTEM_ERR w]

variable {stat : Bytes → Bool} {paths : List Bytes}

/-! ## The loop -/

theorem getElem?_nullTerminated (before : List (Option Bytes)) (path : Bytes)
    (paths : List Bytes) :
    (before ++ nullTerminated (path :: paths))[before.length]? = some (some path) := by
  simp [nullTerminated]

theorem append_nullTerminated (before : List (Option Bytes)) (path : Bytes) (paths : List Bytes) :
    before ++ [some path] ++ nullTerminated paths = before ++ nullTerminated (path :: paths) := by
  simp [nullTerminated]

/-- A path that exists is the last one the loop looks at. -/
theorem lookupFrom_found (before : List (Option Bytes)) {left : Nat} (hleft : paths.length < left)
    (hfound : ∃ path ∈ paths, stat path = true) :
    ∃ k, k < paths.length ∧ paths[k]? = paths.find? stat ∧
      lookupFrom stat (before ++ nullTerminated paths) left before.length =
        ⟨List.range' before.length (k + 1), (paths.take (k + 1)).map some,
          some (before.length + k + 1)⟩ := by
  induction paths generalizing before left with
  | nil => simp at hfound
  | cons path paths ih =>
      obtain ⟨rest, rfl⟩ : ∃ rest, left = rest + 1 := ⟨left - 1, by omega⟩
      rw [lookupFrom, getElem?_nullTerminated]
      by_cases hpath : stat path = true
      · refine ⟨0, by simp, by simp [hpath], ?_⟩
        simp [hpath]
      · have hlater : ∃ p ∈ paths, stat p = true := by
          obtain ⟨p, hp, hstat⟩ := hfound
          rcases List.mem_cons.mp hp with rfl | hp
          · exact absurd hstat hpath
          · exact ⟨p, hp, hstat⟩
        have hlen : paths.length < rest := by
          rw [List.length_cons] at hleft
          omega
        obtain ⟨k, hk, hget, hloop⟩ := ih (before ++ [some path]) hlen hlater
        refine ⟨k + 1, by simpa using hk, ?_, ?_⟩
        · rw [List.getElem?_cons_succ, hget, List.find?_cons_of_neg hpath]
        · rw [append_nullTerminated, List.length_append, List.length_singleton] at hloop
          simp only [Option.any_some, hpath, Bool.false_eq_true, if_false, hloop, Lookup.round]
          rw [List.range'_succ, List.take_succ_cons, List.map_cons]
          congr 2
          omega

/-- Without such a path the loop passes NULL to `stat` and reads on. -/
theorem lookupFrom_not_found (before : List (Option Bytes)) {left : Nat}
    (hleft : paths.length + 1 < left) (hnone : ∀ path ∈ paths, stat path = false) :
    none ∈ (lookupFrom stat (before ++ nullTerminated paths) left before.length).stats ∧
      (lookupFrom stat (before ++ nullTerminated paths) left before.length).c = none := by
  induction paths generalizing before left with
  | nil =>
      obtain ⟨rest, rfl⟩ : ∃ rest, left = rest + 2 := ⟨left - 2, by simp at hleft; omega⟩
      have hread : (before ++ nullTerminated [])[before.length]? = some none := by
        simp [nullTerminated]
      have hbehind : (before ++ nullTerminated [])[before.length + 1]? = none := by
        simp [nullTerminated]
      rw [lookupFrom, hread]
      simp only [Option.any_none, Bool.false_eq_true, if_false]
      rw [lookupFrom, hbehind]
      simp [Lookup.round]
  | cons path paths ih =>
      obtain ⟨rest, rfl⟩ : ∃ rest, left = rest + 1 := ⟨left - 1, by omega⟩
      have hpath : stat path = false := hnone path (by simp)
      have hlen : paths.length + 1 < rest := by
        rw [List.length_cons] at hleft
        omega
      have hrest := ih (before ++ [some path]) hlen fun p hp => hnone p (by simp [hp])
      rw [append_nullTerminated, List.length_append, List.length_singleton] at hrest
      rw [lookupFrom, getElem?_nullTerminated]
      simpa [hpath, Lookup.round] using hrest

/-! ## The function -/

theorem length_lt_sizeofCandidates (abi : Abi) (paths : List Bytes) :
    paths.length + 2 < sizeofCandidates abi (nullTerminated paths) := by
  have hptr : 4 ≤ abi.sizeofPtr := by cases abi <;> decide
  have hlen : (nullTerminated paths).length = paths.length + 1 := by simp [nullTerminated]
  calc paths.length + 2 < 4 * (paths.length + 1) := by omega
    _ ≤ abi.sizeofPtr * (paths.length + 1) := Nat.mul_le_mul_right _ hptr
    _ = sizeofCandidates abi (nullTerminated paths) := by rw [sizeofCandidates, hlen]

theorem lookup_found (abi : Abi) (hfound : ∃ path ∈ paths, stat path = true) :
    ∃ k, k < paths.length ∧ paths[k]? = paths.find? stat ∧
      lookup abi stat (nullTerminated paths) =
        ⟨List.range (k + 1), (paths.take (k + 1)).map some, some (k + 1)⟩ := by
  have hsize := length_lt_sizeofCandidates abi paths
  have hleft : paths.length < sizeofCandidates abi (nullTerminated paths) := by omega
  obtain ⟨k, hk, hget, hloop⟩ := lookupFrom_found [] hleft hfound
  refine ⟨k, hk, hget, ?_⟩
  rw [List.range_eq_range']
  simpa [lookup] using hloop

theorem lookup_not_found (abi : Abi) (hnone : ∀ path ∈ paths, stat path = false) :
    none ∈ (lookup abi stat (nullTerminated paths)).stats ∧
      (lookup abi stat (nullTerminated paths)).c = none := by
  have hsize := length_lt_sizeofCandidates abi paths
  exact lookupFrom_not_found [] (by omega) hnone

theorem find_su_binaryIn_found (abi : Abi) (hfound : ∃ path ∈ paths, stat path = true)
    (w : Process) :
    find_su_binaryIn abi stat (nullTerminated paths) w = [.returned (paths.find? stat) w] := by
  obtain ⟨k, hk, hget, hlookup⟩ := lookup_found abi hfound
  have hsize := length_lt_sizeofCandidates abi paths
  have hne : k + 1 ≠ sizeofCandidates abi (nullTerminated paths) := by omega
  have hlast : (nullTerminated paths)[k]? = some (paths.find? stat) := by
    have hin : k < (paths.map some).length := by simpa using hk
    rw [nullTerminated, List.getElem?_append_left hin, List.getElem?_map, ← hget,
      List.getElem?_eq_getElem hk]
    rfl
  simp only [find_su_binaryIn, hlookup, hne, if_false, Nat.add_sub_cancel, hlast]
  rfl

theorem find_su_binaryIn_not_found (abi : Abi) (hnone : ∀ path ∈ paths, stat path = false)
    (w : Process) :
    find_su_binaryIn abi stat (nullTerminated paths) w = [.ended .outOfBounds w] := by
  have hc := (lookup_not_found abi hnone).2
  simp only [find_su_binaryIn, hc]
  rfl

theorem find?_nullTerminated (stat : Bytes → Bool) (paths : List Bytes) :
    (nullTerminated paths).find? (fun candidate => candidate.any stat) =
      (paths.find? stat).map some := by
  have hcomp : (fun candidate : Option Bytes => candidate.any stat) ∘ some = stat := rfl
  rw [nullTerminated, List.find?_append, List.find?_map, hcomp]
  simp

/-- The loop over the list that the open call uses is the one with the index. -/
theorem find_su_binaryIn_eq_firstCandidate (abi : Abi) (stat : Bytes → Bool)
    (paths : List Bytes) (w : Process) :
    find_su_binaryIn abi stat (nullTerminated paths) w =
      firstCandidate stat (nullTerminated paths) w := by
  rw [firstCandidate_eq, find?_nullTerminated]
  cases hfind : paths.find? stat with
  | none =>
      have hnone : ∀ path ∈ paths, stat path = false := by
        simpa using List.find?_eq_none.mp hfind
      rw [find_su_binaryIn_not_found abi hnone]
      rfl
  | some path =>
      have hfound : ∃ path ∈ paths, stat path = true :=
        ⟨path, List.mem_of_find?_eq_some hfind, List.find?_some hfind⟩
      rw [find_su_binaryIn_found abi hfound, hfind]
      rfl

theorem shell_start_processIn_candidates (abi : Abi) (env : OpenEnv) :
    shell_start_processIn abi env SU_SHELL_BINARY_CANDIDATES = shell_start_process env := by
  have hfind : find_su_binaryIn abi env.stat SU_SHELL_BINARY_CANDIDATES = find_su_binary env := by
    funext w
    exact find_su_binaryIn_eq_firstCandidate abi env.stat [ascii "/sbin/su",
      ascii "/system/sbin/su", ascii "/system/bin/su", ascii "/system/xbin/su"] w
  rw [shell_start_processIn, hfind]
  rfl

/-- The lookup is correct exactly when some candidate exists. -/
theorem lookup_correct_iff (abi : Abi) (env : OpenEnv) (paths : List Bytes) :
    LookupCorrect abi env paths ↔ ∃ path ∈ paths, env.stat path = true := by
  constructor
  · intro h
    by_contra hno
    have hnone : ∀ path ∈ paths, env.stat path = false := by
      intro path hpath
      by_contra hstat
      exact hno ⟨path, hpath, by simpa using hstat⟩
    exact h.sentinel (lookup_not_found abi hnone).1
  · intro hfound
    obtain ⟨k, hk, hget, hlookup⟩ := lookup_found abi hfound
    constructor
    · intro i hi
      rw [hlookup] at hi
      have hle : i < k + 1 := List.mem_range.mp hi
      simp only [nullTerminated, List.length_append, List.length_map, List.length_singleton]
      omega
    · rw [hlookup]
      intro hnull
      obtain ⟨path, -, hpath⟩ := List.mem_map.mp hnull
      cases hpath
    · exact find_su_binaryIn_found abi hfound
    · intro hnone
      rw [← hget, List.getElem?_eq_none_iff] at hnone
      omega

/-- On a device without `su` the lookup hands NULL to `stat`. -/
theorem not_lookup_correct_unrooted :
    ¬ ∀ (abi : Abi) (env : OpenEnv) (paths : List Bytes), LookupCorrect abi env paths := by
  intro h
  have hunrooted := h .ilp32 { faultless with stat := fun _ => false }
    [ascii "/sbin/su", ascii "/system/sbin/su", ascii "/system/bin/su", ascii "/system/xbin/su"]
  exact absurd hunrooted.sentinel (by decide)

end Susrv.Native
