import Susrv.Base.Allocator
import Susrv.Native.ProcScan

/-!
# The memory of a scan

`LibSusrv.getproclist` with what it allocates and opens: the table, the text of every
record, the directory and a stream for each process.  What a scan finds is in `ProcScan`;
here every `malloc` may fail, and `getproclist_gives_back` says what is left behind.
The accesses to `proc_entry_str`, which is on the stack, are left to `ProcScan`.
-/

namespace Susrv.Native

open Base Base.CString

/-- The results of the allocations, the last two for the record of that number. -/
structure ScanEnv where
  calloc : Bool
  realloc : Nat → Bool
  malloc_comm : Nat → Bool

/-- A result that the code uses unseen is NULL. -/
def ScanEnv.Starved (env : ScanEnv) : Prop :=
  env.calloc = false ∨ ∃ nproc, env.realloc nproc = false ∨ env.malloc_comm nproc = false

/-- `comms` are the texts of the records in use, so that `nproc` is their number. -/
structure TableBlocks where
  proc_table : Pointer
  proc_table_n : Nat
  comms : List Pointer

namespace OnHeap

/-- `if (! (nproc < proc_table_n)) realloc(...)` -/
def growTable (env : ScanEnv) (t : TableBlocks) : Alloc TableBlocks := do
  if ¬ t.comms.length < t.proc_table_n then
    let proc_table ← Alloc.realloc (env.realloc t.comms.length) t.proc_table
    return { t with proc_table, proc_table_n := t.proc_table_n + PROC_TABLE_INC }
  else return t

/-- A record with a copy of `proc_entry_str`. -/
def pushRecord (env : ScanEnv) (t : TableBlocks) : Alloc TableBlocks := do
  let t ← growTable env t
  Alloc.use t.proc_table
  let comm ← Alloc.malloc (env.malloc_comm t.comms.length)
  Alloc.use comm
  return { t with comms := t.comms ++ [comm] }

/-- `if (fgets(...))`; it reads a line unless the file is empty. -/
def readLine (env : ScanEnv) (cmdline : Bytes) (t : TableBlocks) : Alloc TableBlocks :=
  if cmdline = [] then return t else pushRecord env t

/-- The body of the loop. -/
def scanEntry (env : ScanEnv) (abi : Abi) (proc : ProcFs) (entry : DirName) (t : TableBlocks) :
    Alloc TableBlocks :=
  match (abi.number entry).bind fun lpid => proc.file (proc_entry_path lpid) with
  | none => return t
  | some cmdline => do
      let proc_entry_file ← Alloc.malloc true
      let t ← readLine env cmdline t
      Alloc.free proc_entry_file
      return t

def scanLoop (env : ScanEnv) (abi : Abi) (proc : ProcFs) :
    List DirName → TableBlocks → Alloc TableBlocks
  | [], t => return t
  | entry :: entries, t => do
      let t ← scanEntry env abi proc entry t
      scanLoop env abi proc entries t

def su_srv_getproclist (env : ScanEnv) (abi : Abi) (proc : ProcFs) : Alloc TableBlocks := do
  let proc_table ← Alloc.malloc env.calloc
  match proc.dir with
  | none => return ⟨proc_table, PROC_TABLE_SIZE, []⟩
  | some entries =>
      let dir_ptr ← Alloc.malloc true
      let t ← scanLoop env abi proc entries ⟨proc_table, PROC_TABLE_SIZE, []⟩
      Alloc.free dir_ptr
      return t

/-- The wrapper's first loop hands every text to the virtual machine. -/
def copyComms (proc_table : Pointer) : List Pointer → Alloc Nat
  | [] => return 0
  | comm :: comms => do
      Alloc.use proc_table
      Alloc.use comm
      let n ← copyComms proc_table comms
      return n + 1

def freeComms (proc_table : Pointer) : List Pointer → Alloc Unit
  | [] => return ()
  | comm :: comms => do
      Alloc.use proc_table
      Alloc.free comm
      freeComms proc_table comms

/-- The number of texts that Java gets. -/
def LibSusrv_getproclist (env : ScanEnv) (abi : Abi) (proc : ProcFs) : Alloc Nat := do
  let t ← su_srv_getproclist env abi proc
  let n ← copyComms t.proc_table t.comms
  freeComms t.proc_table t.comms
  Alloc.free t.proc_table
  return n

end OnHeap

/-! ## What a scan owns -/

def TableBlocks.blocks (t : TableBlocks) : Multiset Nat :=
  t.proc_table.block + (t.comms.map Pointer.block).sum

namespace OnHeap

open Alloc

variable {env : ScanEnv} {abi : Abi} {proc : ProcFs} {t : TableBlocks} {P : Multiset Nat}
  {E : Prop} {proc_table : Pointer} {comms : List Pointer} {entry : DirName}

/-- A table that cannot grow is NULL from then on. -/
theorem growTable_spec : Spec (t.blocks + P) (growTable env t)
    (fun t' P' => t'.comms = t.comms ∧
      (t'.proc_table = none → t.proc_table = none ∨ env.realloc t.comms.length = false) ∧
        (t'.proc_table.isSome = true → P' = t'.blocks + P)) E := by
  unfold growTable
  split
  · apply Spec.bind (realloc_spec (add_assoc _ _ _))
    rintro grown P' ⟨hsome, rfl⟩
    refine .pure ⟨rfl, fun hnull => .inr ?_, fun hgrown => ?_⟩
    · have hnone : grown = none := hnull
      rw [← hsome, hnone]
      rfl
    · rw [← hsome, if_pos hgrown, TableBlocks.blocks, add_assoc]
  · exact .pure ⟨rfl, .inl, fun _ => rfl⟩

/-- Whatever is missing has a cause. -/
structure TableOk (env : ScanEnv) (t : TableBlocks) : Prop where
  table : t.proc_table = none → env.Starved
  comms : ∀ comm ∈ t.comms, comm.isSome = true

theorem pushRecord_spec (ht : TableOk env t) : Spec (t.blocks + P) (pushRecord env t)
    (fun t' P' => P' = t'.blocks + P ∧ TableOk env t' ∧ t'.comms.length = t.comms.length + 1)
    env.Starved := by
  unfold pushRecord
  apply Spec.bind growTable_spec
  rintro grown P₁ ⟨hcomms, hnull, hblocks⟩
  have hcause : grown.proc_table = none → env.Starved := by
    intro hnone
    rcases hnull hnone with h | h
    · exact ht.table h
    · exact .inr ⟨_, .inl h⟩
  have howned : grown.proc_table.isSome = true →
      P₁ = grown.proc_table.block + ((grown.comms.map Pointer.block).sum + P) := by
    intro hsome
    rw [hblocks hsome, TableBlocks.blocks, add_assoc]
  apply Spec.bind (use_spec_of_isSome howned hcause)
  rintro - P' ⟨hsome, rfl⟩
  obtain rfl := hblocks hsome
  apply Spec.bind (malloc_spec _)
  rintro comm P' ⟨hcomm, rfl⟩
  have hfailed : comm = none → env.Starved := by
    rintro rfl
    exact .inr ⟨_, .inr hcomm.symm⟩
  apply Spec.bind (use_spec rfl hfailed)
  rintro - P' ⟨hcopied, rfl⟩
  refine .pure ⟨?_, ⟨fun h => ?_, fun c hc => ?_⟩, ?_⟩
  · simp only [TableBlocks.blocks, List.map_append, List.sum_append, List.map_singleton,
      List.sum_singleton]
    ac_rfl
  · exact hcause h
  · rcases List.mem_append.mp hc with hc | hc
    · exact ht.comms c (hcomms ▸ hc)
    · rw [List.mem_singleton.mp hc]
      exact hcopied
  · rw [List.length_append, List.length_singleton, hcomms]

/-- The record of a directory entry. -/
def recordOf (abi : Abi) (proc : ProcFs) (entry : DirName) : Option ProcDef :=
  (abi.number entry).bind proc.record

theorem recordOf_none
    (h : ((abi.number entry).bind fun lpid => proc.file (proc_entry_path lpid)) = none) :
    recordOf abi proc entry = none := by
  unfold recordOf
  cases hnumber : abi.number entry with
  | none => rfl
  | some lpid =>
      rw [hnumber, Option.bind_some] at h
      rw [Option.bind_some, ProcFs.record, ProcFs.cmdline, h]

theorem isSome_recordOf {cmdline : Bytes}
    (h : ((abi.number entry).bind fun lpid => proc.file (proc_entry_path lpid)) = some cmdline) :
    (recordOf abi proc entry).isSome = decide (cmdline ≠ []) := by
  unfold recordOf
  obtain ⟨lpid, hnumber, hfile⟩ := Option.bind_eq_some_iff.mp h
  rw [hnumber, Option.bind_some, ProcFs.record, ProcFs.cmdline, hfile]
  by_cases hempty : cmdline = [] <;> simp [hempty]

theorem scanEntry_spec (ht : TableOk env t) : Spec (t.blocks + P) (scanEntry env abi proc entry t)
    (fun t' P' => P' = t'.blocks + P ∧ TableOk env t' ∧
      t'.comms.length = t.comms.length + (recordOf abi proc entry).toList.length) env.Starved := by
  unfold scanEntry
  split
  · rename_i hfile
    rw [recordOf_none hfile]
    exact .pure ⟨rfl, ht, rfl⟩
  · rename_i cmdline hfile
    have hrecord := isSome_recordOf hfile
    apply Spec.bind (malloc_spec true)
    rintro proc_entry_file P' ⟨-, rfl⟩
    have hlines : Spec (proc_entry_file.block + (t.blocks + P))
        (readLine env cmdline t)
        (fun t' P' => P' = proc_entry_file.block + (t'.blocks + P) ∧ TableOk env t' ∧
          t'.comms.length = t.comms.length + (recordOf abi proc entry).toList.length)
        env.Starved := by
      rw [add_left_comm, readLine]
      by_cases hempty : cmdline = []
      · rw [if_pos hempty]
        have hnone : recordOf abi proc entry = none := by simpa [hempty] using hrecord
        rw [hnone]
        exact .pure ⟨add_left_comm _ _ _, ht, rfl⟩
      · rw [if_neg hempty]
        have hsome : (recordOf abi proc entry).isSome = true := by simpa [hempty] using hrecord
        obtain ⟨procdef, hrecorded⟩ := Option.isSome_iff_exists.mp hsome
        rw [hrecorded]
        apply Spec.mono (pushRecord_spec ht)
        rintro t' P' ⟨rfl, ht', hlength⟩
        exact ⟨add_left_comm _ _ _, ht', hlength⟩
    apply Spec.bind hlines
    rintro t' P' ⟨rfl, ht', hlength⟩
    apply Spec.bind (free_spec rfl)
    rintro - P' rfl
    exact .pure ⟨rfl, ht', hlength⟩

/-- The records of a part of the directory. -/
def recordsOf (abi : Abi) (proc : ProcFs) (entries : List DirName) : List ProcDef :=
  (entries.filterMap abi.number).filterMap proc.record

theorem length_recordsOf_cons (entries : List DirName) :
    (recordsOf abi proc (entry :: entries)).length =
      (recordOf abi proc entry).toList.length + (recordsOf abi proc entries).length := by
  unfold recordsOf recordOf
  rw [List.filterMap_filterMap, List.filterMap_filterMap, List.filterMap_cons]
  cases (abi.number entry).bind proc.record with
  | none => exact (Nat.zero_add _).symm
  | some procdef => rw [List.length_cons]; exact Nat.add_comm _ _

theorem scanLoop_spec (ht : TableOk env t) (entries : List DirName) :
    Spec (t.blocks + P) (scanLoop env abi proc entries t)
      (fun t' P' => P' = t'.blocks + P ∧ TableOk env t' ∧
        t'.comms.length = t.comms.length + (recordsOf abi proc entries).length) env.Starved := by
  induction entries generalizing t with
  | nil => exact .pure ⟨rfl, ht, rfl⟩
  | cons entry entries ih =>
      apply Spec.bind (scanEntry_spec ht)
      rintro t₁ P' ⟨rfl, ht₁, hlength⟩
      apply Spec.mono (ih ht₁)
      rintro t' P' ⟨rfl, ht', hlength'⟩
      refine ⟨rfl, ht', ?_⟩
      rw [hlength', hlength, length_recordsOf_cons, Nat.add_assoc]

theorem su_srv_getproclist_spec : Spec 0 (su_srv_getproclist env abi proc)
    (fun t' P' => P' = t'.blocks ∧ TableOk env t' ∧
      t'.comms.length = (proc.records abi).length) env.Starved := by
  unfold su_srv_getproclist
  apply Spec.bind (malloc_spec _)
  rintro proc_table P' ⟨hcalloc, rfl⟩
  have hinit : TableOk env ⟨proc_table, PROC_TABLE_SIZE, []⟩ := by
    refine ⟨fun hnone => .inl ?_, fun c hc => by cases hc⟩
    have hnull : proc_table = none := hnone
    rw [← hcalloc, hnull]
    rfl
  cases hdir : proc.dir with
  | none =>
      refine .pure ⟨rfl, hinit, ?_⟩
      rw [ProcFs.records, ProcFs.numbers, hdir]
      rfl
  | some entries =>
      apply Spec.bind (malloc_spec true)
      rintro dir_ptr P' ⟨-, rfl⟩
      rw [add_comm]
      apply Spec.bind (scanLoop_spec hinit entries)
      rintro t' P' ⟨rfl, ht', hlength⟩
      apply Spec.bind (free_spec (add_comm _ _))
      rintro - P' rfl
      refine .pure ⟨rfl, ht', ?_⟩
      rw [hlength, ProcFs.records, ProcFs.numbers, hdir]
      exact Nat.zero_add _

theorem copyComms_spec (hnull : proc_table = none → E)
    (hcomms : ∀ comm ∈ comms, comm.isSome = true) :
    Spec (proc_table.block + ((comms.map Pointer.block).sum + P)) (copyComms proc_table comms)
      (fun n P' => n = comms.length ∧
        P' = proc_table.block + ((comms.map Pointer.block).sum + P)) E := by
  induction comms generalizing P with
  | nil => exact .pure ⟨rfl, rfl⟩
  | cons comm comms ih =>
      obtain ⟨hcomm, hrest⟩ := List.forall_mem_cons.mp hcomms
      have hmoved : proc_table.block + (((comm :: comms).map Pointer.block).sum + P) =
          proc_table.block + ((comms.map Pointer.block).sum + (comm.block + P)) := by
        rw [List.map_cons, List.sum_cons]
        ac_rfl
      rw [hmoved]
      apply Spec.bind (use_spec rfl hnull)
      rintro - P' ⟨-, rfl⟩
      have howned : proc_table.block + ((comms.map Pointer.block).sum + (comm.block + P)) =
          comm.block + (proc_table.block + ((comms.map Pointer.block).sum + P)) := by
        ac_rfl
      apply Spec.bind (use_spec howned fun h => by simp [h] at hcomm)
      rintro - P' ⟨-, rfl⟩
      apply Spec.bind (ih hrest)
      rintro n P' ⟨rfl, rfl⟩
      exact .pure ⟨rfl, rfl⟩

theorem freeComms_spec (hnull : proc_table = none → E) :
    Spec (proc_table.block + ((comms.map Pointer.block).sum + P)) (freeComms proc_table comms)
      (fun _ P' => P' = proc_table.block + P) E := by
  induction comms with
  | nil => exact .pure (by rw [List.map_nil, List.sum_nil, zero_add])
  | cons comm comms ih =>
      apply Spec.bind (use_spec rfl hnull)
      rintro - P' ⟨-, rfl⟩
      have howned : proc_table.block + (((comm :: comms).map Pointer.block).sum + P) =
          comm.block + (proc_table.block + ((comms.map Pointer.block).sum + P)) := by
        rw [List.map_cons, List.sum_cons]
        ac_rfl
      apply Spec.bind (free_spec howned)
      rintro - P' rfl
      exact ih

theorem libSusrv_getproclist_spec (env : ScanEnv) (abi : Abi) (proc : ProcFs) :
    Spec 0 (LibSusrv_getproclist env abi proc)
      (fun n P' => n = (proc.records abi).length ∧ P' = 0) env.Starved := by
  unfold LibSusrv_getproclist
  apply Spec.bind su_srv_getproclist_spec
  rintro t P' ⟨rfl, ht, hlength⟩
  rw [TableBlocks.blocks, ← add_zero (t.comms.map Pointer.block).sum]
  apply Spec.bind (copyComms_spec ht.table ht.comms)
  rintro n P' ⟨rfl, rfl⟩
  apply Spec.bind (freeComms_spec ht.table)
  rintro - P' rfl
  apply Spec.bind (free_spec rfl)
  rintro - P' rfl
  exact .pure ⟨hlength, rfl⟩

end OnHeap

end Susrv.Native
