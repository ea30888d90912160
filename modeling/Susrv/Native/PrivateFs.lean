import Susrv.Base.FileSystem

/-!
# The private file system

`su_srv_pfs.c`.  The modes of the directories are left out.
-/

namespace Susrv.Native

open Base.CString Base.FileSystem

/-- The directories of the private file system. -/
inductive PfsDir
  | var
  | run
  | log
  | bin
  | lib
  | tmp
  deriving DecidableEq

namespace PfsDir

/-- What follows `%s` in `SESSION_VAR_DIR_FMT` and the other formats. -/
def dir_fmt : PfsDir → Bytes
  | var => ascii "/var"
  | run => ascii "/var/run"
  | log => ascii "/var/log"
  | bin => ascii "/bin"
  | lib => ascii "/lib"
  | tmp => ascii "/tmp"

/-- `SESSION_VAR_DIR_WLEN` and the other lengths. -/
def dir_wlen : PfsDir → Nat
  | var => 4
  | run => 8
  | log => 8
  | bin => 4
  | lib => 4
  | tmp => 4

def clr : PfsDir → Bool
  | tmp => true
  | _ => false

/-- The directories in the order of the calls. -/
def order : List PfsDir := [var, run, log, bin, lib, tmp]

end PfsDir

/-- What the system does in one call of `pfs_init_dir`: where a flag is false, the function
of that name fails although it could succeed. -/
structure DirEnv where
  malloc : Bool
  rmdir : Bool
  stat : Bool
  mkdir : Bool
  /-- The second `stat`. -/
  stat' : Bool
  /-- `errno` after the second `stat` has failed. -/
  errno : Int
  errno_ne : errno ≠ 0

variable {γ : Type*} [DecidableEq γ]

/-- `if (clr) rmdir(dirpath);` -/
def clearDir (env : DirEnv) (ctx : Context Bytes) (path : Path Bytes) (clr : Bool)
    (tree : Tree Bytes γ) : Tree Bytes γ :=
  if clr && env.rmdir then tree.rmdir ctx path else tree

/-- `if (stat(dirpath, &dirstat)) mkdir(dirpath, 0700);` -/
def makeDir (env : DirEnv) (ctx : Context Bytes) (path : Path Bytes) (tree : Tree Bytes γ) :
    Tree Bytes γ :=
  if env.stat && (tree.stat ctx path).isSome then tree
  else if env.mkdir then tree.mkdir ctx path
  else tree

/-- The result of the second `stat`. -/
def checkDir (env : DirEnv) (ctx : Context Bytes) (path : Path Bytes) (tree : Tree Bytes γ) :
    Int :=
  if env.stat' && (tree.stat ctx path).isSome then 0 else env.errno

/-- `last_err` and the tree after the call; `none` is the use of an unwritten buffer. -/
def pfs_init_dir (env : DirEnv) (ctx : Context Bytes) (pfs_root dir_fmt : Bytes)
    (dir_wlen : Nat) (clr : Bool) (tree : Tree Bytes γ) : Option (Int × Tree Bytes γ) :=
  let dir_sz := pfs_root.length + dir_wlen + 1
  if env.malloc then
    match snprintf dir_sz (pfs_root ++ dir_fmt) with
    | none => none
    | some dirpath =>
        let path := Path.ofBytes dirpath
        let made := makeDir env ctx path (clearDir env ctx path clr tree)
        some (checkDir env ctx path made, made)
  else some (-1, tree)

/-- `a || b || …`: the calls up to the first that does not return 0. -/
def orChain : List (Tree Bytes γ → Option (Int × Tree Bytes γ)) → Tree Bytes γ →
    Option (Int × Tree Bytes γ)
  | [], tree => some (0, tree)
  | call :: calls, tree =>
      match call tree with
      | none => none
      | some (last_err, tree) => if last_err = 0 then orChain calls tree else some (1, tree)

def initDir (env : PfsDir → DirEnv) (ctx : Context Bytes) (pfs_root : Bytes) (dir : PfsDir) :
    Tree Bytes γ → Option (Int × Tree Bytes γ) :=
  pfs_init_dir (env dir) ctx pfs_root dir.dir_fmt dir.dir_wlen dir.clr

def su_srv_pfs_init (env : PfsDir → DirEnv) (ctx : Context Bytes) (pfs_root : Bytes)
    (tree : Tree Bytes γ) : Option (Int × Tree Bytes γ) :=
  orChain (PfsDir.order.map (initDir env ctx pfs_root)) tree

/-! ## The directories that the calls provide -/

def dirPath (pfs_root : Bytes) (dir : PfsDir) : Path Bytes :=
  Path.ofBytes (pfs_root ++ dir.dir_fmt)

/-- The tree with the missing ones of these directories made, one after the other. -/
def ensureDirs (ctx : Context Bytes) (pfs_root : Bytes) (dirs : List PfsDir)
    (tree : Tree Bytes γ) : Tree Bytes γ :=
  dirs.foldl (fun tree dir => tree.ensureDir ctx (dirPath pfs_root dir)) tree

/-- The directories exist, and the temporary one is empty. -/
structure Prepared (ctx : Context Bytes) (pfs_root : Bytes) (tree : Tree Bytes γ) : Prop where
  dirs : ∀ dir, tree.stat ctx (dirPath pfs_root dir) = some .dir
  tmp : ∀ loc, tree.resolve ctx (dirPath pfs_root .tmp) = some loc → tree.Empty loc

/-- A directory can be provided: its path leads nowhere or to a directory, and to an empty
one if it is to be cleared. -/
structure Providable (ctx : Context Bytes) (pfs_root : Bytes) (tree : Tree Bytes γ)
    (dir : PfsDir) : Prop where
  kind : ∀ object, tree.stat ctx (dirPath pfs_root dir) = some object → object = .dir
  empty : dir.clr = true → ∀ loc,
    tree.resolve ctx (dirPath pfs_root dir) = some loc → tree.Empty loc

/-- Each of the directories is providable when those before it have been made. -/
def AllProvidable (ctx : Context Bytes) (pfs_root : Bytes) : List PfsDir → Tree Bytes γ → Prop
  | [], _ => True
  | dir :: dirs, tree => Providable ctx pfs_root tree dir ∧
      AllProvidable ctx pfs_root dirs (tree.ensureDir ctx (dirPath pfs_root dir))

/-- Where a directory belongs, once those before it have been made. -/
def dirPlace (ctx : Context Bytes) (pfs_root : Bytes) (tree : Tree Bytes γ) (dir : PfsDir) :
    Option (Loc Bytes) :=
  (ensureDirs ctx pfs_root (PfsDir.order.takeWhile (· ≠ dir)) tree).place ctx
    (dirPath pfs_root dir)

/-- What may become of a tree: nothing is lost but an empty directory that lay in the place
of `tmp`, and only the directories are added. -/
structure Harmless (ctx : Context Bytes) (pfs_root : Bytes) (tree tree' : Tree Bytes γ) :
    Prop where
  kept : ∀ loc object, tree.node loc = some object → tree'.node loc = some object ∨
    dirPlace ctx pfs_root tree .tmp = some loc ∧ object = .dir ∧ tree.Empty loc ∧
      tree'.node loc = none
  added : ∀ loc, tree.node loc = none → tree'.node loc = none ∨
    tree'.node loc = some .dir ∧ ∃ dir, dirPlace ctx pfs_root tree dir = some loc

end Susrv.Native
