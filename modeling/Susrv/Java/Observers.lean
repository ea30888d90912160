import Susrv.Base.ArrayList
import Susrv.Java.SuShell

/-!
# Observers of a dead session

`invalidatedSessionError` calls the observers while it iterates over their list, and
before `_instance` is cleared.  A callback is a tree of the calls it makes on the same
`SuShell`, with a continuation for each result; what the n-th notification of the
process does is given by `behaviour n`, so that callbacks may depend on all that
happened before.  No native session is bound.

`fuel` bounds the depth of nested detections and the length of each loop.
-/

namespace Susrv.Java

open Base

/-- Exceptions that a callback may raise; `other` is one of its own. -/
inductive Unchecked
  | ConcurrentModificationException
  | NoSuchElementException
  | other
  deriving DecidableEq

inductive Raised
  | SuShellInvalidatedException
  | unchecked (e : Unchecked)
  deriving DecidableEq

/-- `onSuShellInvalidated` -/
inductive Callback (ω : Type)
  | returns
  | throws (e : Unchecked)
  | ping (next : Except Unchecked Bool → Callback ω)
  | exec (next : Raised → Callback ω)
  | addObserver (observer : ω) (next : Nat → Callback ω)
  | removeObserver (observer : ω) (next : Nat → Callback ω)

/-- `told` lists the observers notified so far. -/
structure Watched (ω : Type) where
  _instance : Option SuShell
  mObservers : ArrayList ω
  told : List ω
  deriving DecidableEq

abbrev Behaviour (ω : Type) := Nat → ω → Callback ω

/-- A call of `invalidatedSessionError`, which never returns. -/
abbrev Detection (ω : Type) := Watched ω → Option (Raised × Watched ω)

variable {ω : Type} [DecidableEq ω]

namespace Watched

def addObserver (s : Watched ω) (observer : ω) : Watched ω :=
  { s with mObservers := s.mObservers.add observer }

def removeObserver (s : Watched ω) (observer : ω) : Watched ω :=
  { s with mObservers := s.mObservers.remove observer }

/-- Without a session: the checked exception is caught. -/
def ping (detect : Detection ω) (s : Watched ω) : Option (Except Unchecked Bool × Watched ω) :=
  (detect s).map fun
    | (.SuShellInvalidatedException, s') => (.ok false, s')
    | (.unchecked e, s') => (.error e, s')

/-- Without a session, where `LibSusrv.exec` returns `NO_SESSION_ERR`. -/
def exec (detect : Detection ω) (s : Watched ω) : Option (Raised × Watched ω) := detect s

end Watched

def Callback.run (detect : Detection ω) :
    Callback ω → Watched ω → Option (Except Unchecked Unit × Watched ω)
  | .returns, s => some (.ok (), s)
  | .throws e, s => some (.error e, s)
  | .ping next, s => (s.ping detect).bind fun r => (next r.1).run detect r.2
  | .exec next, s => (s.exec detect).bind fun r => (next r.1).run detect r.2
  | .addObserver o next, s => (next (s.addObserver o).mObservers.size).run detect (s.addObserver o)
  | .removeObserver o next, s =>
      (next (s.removeObserver o).mObservers.size).run detect (s.removeObserver o)

/-- `for (SuShellLifecycleObserver observer : mObservers)` -/
def observerLoop (behaviour : Behaviour ω) (detect : Detection ω) :
    ArrayList.Loop ω Unchecked (Watched ω) where
  list := Watched.mObservers
  body o s := (behaviour s.told.length o).run detect { s with told := s.told ++ [o] }
  comodified := .ConcurrentModificationException
  missing := .NoSuchElementException

/-- The end of `invalidatedSessionError` behind its loop. -/
def afterLoop : Except Unchecked Unit × Watched ω → Raised × Watched ω
  | (.ok (), s) =>
      (.SuShellInvalidatedException, { s with _instance := none, mObservers := s.mObservers.clear })
  | (.error e, s) => (.unchecked e, s)

def Watched.invalidatedSessionError (behaviour : Behaviour ω) : (fuel : Nat) → Detection ω
  | 0 => fun _ => none
  | fuel + 1 => fun s =>
      ((observerLoop behaviour (invalidatedSessionError behaviour fuel)).forEach
        s.mObservers.modCount fuel 0 s).map afterLoop

end Susrv.Java
