import Susrv.Base.ModifiedUtf8
import Susrv.Native.ProcScan
import Susrv.Native.Session

/-!
# Texts at the JNI boundary

The native methods of `LibSusrv` that take or return texts.  The virtual machine
hands out and takes modified UTF-8; what is between the boundary and the shell is
passed on as it is.  `none` is a call with ill-formed input, on which the virtual
machine may abort, or an access outside an array.
-/

namespace Susrv.Native

open Base.CString Base.ModifiedUtf8

/-- The code units of a `java.lang.String`. -/
abbrev JavaString := List UInt16

/-- The C string that `GetStringUTFChars` returns. -/
def GetStringUTFChars (string : JavaString) : Bytes := cstr (encode string)

def NewStringUTF (chars : Bytes) : Option JavaString := decode (cstr chars)

/-- What `LibSusrv.exec` writes before the framing. -/
def LibSusrv_exec (jCommand : JavaString) : Chunk := .cmd (GetStringUTFChars jCommand)

/-- `LibSusrv.getLastTtyRead`, for the string of the session, if it has one. -/
def LibSusrv_getLastTtyRead (last_tty_read : Option Bytes) : Option JavaString :=
  match last_tty_read with
  | some line => NewStringUTF line
  | none => NewStringUTF []

/-- `LibSusrv.getpid`, up to the conversion of the result to `jint`. -/
def LibSusrv_getpid (abi : Abi) (proc : ProcFs) (jProcname : JavaString) : Option Int :=
  su_srv_getpid abi proc (GetStringUTFChars jProcname)

/-- `LibSusrv.getproclist`. -/
def LibSusrv_getproclist (abi : Abi) (proc : ProcFs) : Option (List JavaString) := do
  let table ← su_srv_getproclist abi proc
  (table.proc_table.take table.nproc).mapM fun procdef => procdef.bind (NewStringUTF ·.comm)

end Susrv.Native
