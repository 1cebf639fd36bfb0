import ExtensionLock.Diagnostic
import ExtensionLock.ExtensionId
import ExtensionLock.WorkingDirectory

/-! All that evaluations share and change: files, messages, and a record of what has happened. -/

namespace ExtensionLock

inductive Query where
  | usages (id : ExtensionId)
  | script (label : Label)
  | lockfile
  | input (label : Label)
  deriving DecidableEq, Repr

inductive Event where
  | called (id : ExtensionId)
  | noted (value : Json)

structure World where
  files : FileTree
  diagnostics : List Diagnostic
  asked : List Query
  events : List Event
  tracked : TrackedDirectories
  /-- the session was cancelled -/
  cancelled : Bool

namespace World

def ofFiles (files : FileTree) : World := ⟨files, [], [], [], .empty, false⟩

def report (w : World) (d : Diagnostic) : World := { w with diagnostics := w.diagnostics ++ [d] }

def ask (w : World) (q : Query) : World := { w with asked := w.asked ++ [q] }

def happen (w : World) (e : Event) : World := { w with events := w.events ++ [e] }

def cancel (w : World) : World × Nat :=
  let (files, n) := w.tracked.removeAll w.files
  ({ w with files, cancelled := true }, n)

end World

end ExtensionLock
