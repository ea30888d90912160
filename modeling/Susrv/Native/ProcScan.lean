import Susrv.Native.Handler

/-!
# The scans of `/proc`

`su_srv_getpid` and `su_srv_getproclist` over a snapshot of `/proc`.  Both read the
first line of the command line of a process into `proc_entry_str`, with the same
code; one stops at the first name it looks for, the other fills a table that grows.

`none` is an access outside `proc_entry_str` or `proc_table`.  Allocation is
assumed to succeed.  `nproc` and `proc_table_n` count processes, of which no
kernel has as many as an `int`, so they are natural numbers here.
-/

namespace Susrv.Native

open Base.CString

/-- The name of a directory entry. -/
structure DirName where
  d_name : Bytes
  nonempty : d_name ≠ []
  noNul : 0 ∉ d_name

/-- A snapshot of `/proc`. -/
structure ProcFs where
  /-- What `readdir` delivers, in this order, if `/proc` can be opened. -/
  dir : Option (List DirName)
  /-- The content of a file, if it can be opened and read. -/
  file : Bytes → Option Bytes

def Abi.LONG_MAX : Abi → Nat
  | .ilp32 => 2147483647
  | .lp64 => 9223372036854775807

/-- The conversion to `size_t`. -/
def Abi.size_t (abi : Abi) (n : Int) : Nat := (n % 2 ^ (8 * abi.sizeofPtr)).toNat

def PROC_ENTRY_SIZE : Nat := 255

/-- `%ld` -/
def printLong (n : Int) : Bytes := if n < 0 then 45 :: decimal n.natAbs else decimal n.natAbs

/-- `snprintf(proc_entry_path, sizeof(proc_entry_path), "/proc/%ld/cmdline", lpid)` -/
def proc_entry_path (lpid : Int) : Bytes :=
  (ascii "/proc/" ++ printLong lpid ++ ascii "/cmdline").take (PROC_ENTRY_SIZE - 1)

/-- `strtol(d_name, &endptr, 10)`, if `*endptr == 0`. -/
def Abi.number (abi : Abi) (entry : DirName) : Option Int :=
  if (strtol abi.LONG_MAX entry.d_name).2 = [] then some (strtol abi.LONG_MAX entry.d_name).1
  else none

/-- `if (str[strlen(str) - 1] == 10) str[strlen(str) - 1] = 0` -/
def trimLine (abi : Abi) (str : Block) : Option Block := do
  let last := abi.size_t ((← loadString str).length - 1)
  if (← load str last) = LF then store str last 0 else return str

structure ProcDef where
  pid : Int
  comm : Bytes
  deriving DecidableEq, Repr

/-- The part of the loop body that the scans share: `proc_entry_str` behind it, and the
number of the entry with the string in `proc_entry_str`, if a line was read. -/
def readEntry (abi : Abi) (proc : ProcFs) (str : Block) (entry : DirName) :
    Option (Block × Option ProcDef) :=
  match abi.number entry with
  | none => some (str, none)
  | some lpid =>
      match (proc.file (proc_entry_path lpid)).bind (fgets str) with
      | none => some (str, none)
      | some str => do
          let str ← trimLine abi str
          return (str, some ⟨lpid, ← loadString str⟩)

/-! ## `su_srv_getpid` -/

/-- The loop, which ends when `procpid` is not negative. -/
def getpidLoop (abi : Abi) (proc : ProcFs) (procname : Bytes) :
    (procpid : Int) → (str : Block) → List DirName → Option Int
  | procpid, _, [] => some procpid
  | procpid, str, entry :: entries =>
      if procpid < 0 then do
        let (str, found) ← readEntry abi proc str entry
        match found with
        | some ⟨lpid, comm⟩ =>
            getpidLoop abi proc procname (if procname = comm then lpid else procpid) str entries
        | none => getpidLoop abi proc procname procpid str entries
      else some procpid

/-- `procname` is the string that is pointed to. -/
def su_srv_getpid (abi : Abi) (proc : ProcFs) (procname : Bytes) : Option Int :=
  match proc.dir with
  | some entries => getpidLoop abi proc procname (-1) (malloc PROC_ENTRY_SIZE) entries
  | none => some (-1)

/-! ## `su_srv_getproclist` -/

def PROC_TABLE_SIZE : Nat := 32

def PROC_TABLE_INC : Nat := 16

/-- The allocated records are those of the list; the first `nproc` are in use. -/
structure ProcTable where
  proc_table : List (Option ProcDef)
  proc_table_n : Nat
  nproc : Nat

def ProcTable.init : ProcTable := ⟨List.replicate PROC_TABLE_SIZE none, PROC_TABLE_SIZE, 0⟩

def ProcTable.grow (t : ProcTable) : ProcTable :=
  if ¬ t.nproc < t.proc_table_n then
    let n := t.proc_table_n + PROC_TABLE_INC
    { t with
      proc_table_n := n
      proc_table := t.proc_table.take n ++ List.replicate (n - t.proc_table.length) none }
  else t

/-- `proc_table[nproc++] = procdef` -/
def ProcTable.push (t : ProcTable) (procdef : ProcDef) : Option ProcTable :=
  if t.nproc < t.proc_table.length then
    some { t with proc_table := t.proc_table.set t.nproc (some procdef), nproc := t.nproc + 1 }
  else none

def getproclistLoop (abi : Abi) (proc : ProcFs) :
    ProcTable → (str : Block) → List DirName → Option ProcTable
  | t, _, [] => some t
  | t, str, entry :: entries => do
      let (str, found) ← readEntry abi proc str entry
      match found with
      | some procdef => getproclistLoop abi proc (← t.grow.push procdef) str entries
      | none => getproclistLoop abi proc t str entries

/-- The result is `nproc`, and `*proc_table_ptr` is `proc_table`. -/
def su_srv_getproclist (abi : Abi) (proc : ProcFs) : Option ProcTable :=
  match proc.dir with
  | some entries => getproclistLoop abi proc .init (malloc PROC_ENTRY_SIZE) entries
  | none => some .init

/-! ## What the scans are for -/

/-- The numbers of the numeric entries, in directory order. -/
def ProcFs.numbers (abi : Abi) (proc : ProcFs) : List Int :=
  (proc.dir.getD []).filterMap abi.number

def ProcFs.cmdline (proc : ProcFs) (pid : Int) : Option Bytes := proc.file (proc_entry_path pid)

/-- The command line begins with a NUL: its first string is empty. -/
def ProcFs.Unnamed (proc : ProcFs) (pid : Int) : Prop := (proc.cmdline pid).bind List.head? = some 0

instance (proc : ProcFs) (pid : Int) : Decidable (proc.Unnamed pid) :=
  inferInstanceAs (Decidable (_ = _))

/-- A string without its final line feed. -/
def trimmed (s : Bytes) : Bytes := if s.getLast? = some LF then s.dropLast else s

/-- The first line of a command line, or what fits of it, cut at the first NUL. -/
def commOf (cmdline : Bytes) : Bytes :=
  trimmed (cstr ((firstLine cmdline).take (PROC_ENTRY_SIZE - 1)))

/-- The record of a process; a command line that is empty or not readable has none. -/
def ProcFs.record (proc : ProcFs) (pid : Int) : Option ProcDef :=
  match proc.cmdline pid with
  | some cmdline => if cmdline = [] then none else some ⟨pid, commOf cmdline⟩
  | none => none

/-- The records of `/proc`, in directory order. -/
def ProcFs.records (abi : Abi) (proc : ProcFs) : List ProcDef :=
  (proc.numbers abi).filterMap proc.record

end Susrv.Native
