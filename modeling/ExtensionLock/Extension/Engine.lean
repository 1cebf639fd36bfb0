import ExtensionLock.Extension.Implementation
import ExtensionLock.Lockfile.Basic

/-! The build engine, which has the inputs of evaluations. Its answers may change while it goes on
working, so they depend on all that it was asked before. -/

namespace ExtensionLock

/-- An answer, or the news that there is none yet. -/
inductive Step (α : Type u) where
  | ready (a : α)
  | notReady
  deriving DecidableEq, Repr

namespace Step

def map (f : α → β) : Step α → Step β
  | .ready a => .ready (f a)
  | .notReady => .notReady

end Step

structure Engine where
  usages : List Query → ExtensionId → Step ExtensionUsages
  script : List Query → Label → Except ScriptError (Step LoadedScript)
  lockfile : List Query → Step Lockfile
  input : List Query → Label → Except ScriptError (Step Bytes)

def Engine.withLockfile (e : Engine) (l : Lockfile) : Engine :=
  { e with lockfile := fun _ => .ready l }

end ExtensionLock
