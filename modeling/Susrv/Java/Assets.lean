import Susrv.Base.CString
import Susrv.Java.SuShell

/-!
# Importing raw assets

`importAsset` and `cpa`, as functions of what reflection, the resources and the
file streams answer.  Files are known by their paths; log output is left out.
-/

namespace Susrv.Java

open Base.CString

/-! ## The asset -/

/-- A member class of `R`.  `getField` is absent when it throws `NoSuchFieldException`,
its value when `getInt` throws `IllegalAccessException`. -/
structure MemberClass where
  simpleName : String
  getField : String → Option (Option Int)

/-- The classes are absent when `Class.forName` throws.  The last class named `raw` counts. -/
def getRawAssetId (classes : Option (List MemberClass)) (rawAsset : String) : Int :=
  match classes with
  | none => -1
  | some classes =>
      let R_raw_class : Option MemberClass :=
        classes.foldl
          (fun found clazz => if clazz.simpleName = "raw" then some clazz else found) none
      match R_raw_class with
      | none => -1
      | some R_raw_class =>
          match R_raw_class.getField rawAsset with
          | none => -1
          | some none => -1
          | some (some assetId) => assetId

/-- `byte buf[] = new byte[64]` -/
def BUF_SIZE : Nat := 64

/-- What one `read(buf)` delivers before the end of the stream. -/
structure Chunk where
  bytes : Bytes
  pos : 0 < bytes.length
  fits : bytes.length ≤ BUF_SIZE

def delivered (chunks : List Chunk) : Bytes := chunks.flatMap Chunk.bytes

/-- A raw resource that has been opened: after the chunks `read` returns -1, or
throws when `fails`. -/
structure InputStream where
  content : Bytes
  chunks : List Chunk
  fails : Bool
  exact : if fails then delivered chunks <+: content else delivered chunks = content

/-- `openRawResource` is absent when it throws `NotFoundException`.  The `Bool`s tell
that no `IOException` is thrown; `write i` tells how much has been written when write
number `i` throws. -/
structure ImportEnv where
  classes : Option (List MemberClass)
  openRawResource : Int → Option InputStream
  newFileOutputStream : Bool
  write : Nat → Option Nat
  close_is : Bool
  close_os : Bool
  setExecutable : Bool

/-! ## The copy -/

structure File where
  content : Bytes
  executable : Bool
  deriving DecidableEq

abbrev Files := String → Option File

/-- `read(buf)` overwrites the start of the buffer. -/
def readInto (buf : Bytes) (chunk : Chunk) : Bytes :=
  chunk.bytes ++ buf.drop chunk.bytes.length

/-- What has been written, and `iBytes` unless a write has thrown. -/
structure Copied where
  content : Bytes
  iBytes : Option Int
  deriving DecidableEq

/-- `while((red = is.read(buf)) > 0)`, `n` writes having been made. -/
def copyLoop (write : Nat → Option Nat) :
    (n : Nat) → List Chunk → (buf content : Bytes) → (iBytes : Int) → Copied
  | _, [], _, content, iBytes => ⟨content, some iBytes⟩
  | n, chunk :: chunks, buf, content, iBytes =>
      let red := chunk.bytes.length
      let buf := readInto buf chunk
      match write n with
      | none =>
          copyLoop write (n + 1) chunks buf (content ++ buf.take red) (toInt32 (iBytes + red))
      | some written => ⟨content ++ (buf.take red).take written, none⟩

/-- `(iBytes > 0) ? iBytes + 1 : -1` -/
def importResult (iBytes : Int) : Int := if 0 < iBytes then toInt32 (iBytes + 1) else -1

/-- The `try` block once the asset is open: `new FileOutputStream` truncates the file. -/
def copyAsset (env : ImportEnv) (files : Files) (privateFile : String) (is : InputStream)
    (isExec : Bool) : Files × Int :=
  if !env.newFileOutputStream then (files, importResult (-1))
  else
    let executable := ((files privateFile).map File.executable).getD false
    let copied := copyLoop env.write 0 is.chunks (List.replicate BUF_SIZE 0) [] (-1)
    match copied.iBytes with
    | some iBytes =>
        if !is.fails && env.close_is && env.close_os then
          (Function.update files privateFile
              (some ⟨copied.content, executable || (isExec && env.setExecutable)⟩),
            importResult iBytes)
        else (Function.update files privateFile (some ⟨copied.content, executable⟩),
          importResult (-1))
    | none => (Function.update files privateFile (some ⟨copied.content, executable⟩),
        importResult (-1))

namespace SuShell

/-- `mPfsRoot/dirPath/filename` -/
def privatePath (this : SuShell) (dirPath filename : String) : String :=
  this.mPfsRoot ++ "/" ++ dirPath ++ "/" ++ filename

def importAsset (this : SuShell) (env : ImportEnv) (files : Files)
    (rawAsset dirPath filename : String) (isExec : Bool) : Files × Int :=
  let assetId := getRawAssetId env.classes rawAsset
  if assetId < 0 then (files, 0)
  else
    match env.openRawResource assetId with
    | none => (files, importResult (-1))
    | some is => copyAsset env files (this.privatePath dirPath filename) is isExec

def importTmp (this : SuShell) (env : ImportEnv) (files : Files) (rawAsset filename : String) :
    Files × Int :=
  this.importAsset env files rawAsset "tmp" filename false

def getTmp (this : SuShell) : String := this.mPfsRoot ++ "/tmp"

/-- The files after the import, and what is left to do. -/
def cpa (this : SuShell) (env : ImportEnv) (files : Files) (rawAsset destinationPath : String)
    (mode : Int) : Files × Method Int :=
  let tmpFileName := rawAsset ++ ".tmp"
  let imported := this.importTmp env files rawAsset tmpFileName
  (imported.1,
    if 0 < imported.2 then this.cp (this.getTmp ++ "/" ++ tmpFileName) destinationPath mode
    else return imported.2)

end SuShell

end Susrv.Java
