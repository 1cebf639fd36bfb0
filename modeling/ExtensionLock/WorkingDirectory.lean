import ExtensionLock.FileTree

/-! Working directories of extensions. Each evaluation has one of its own below the output base; it
is made only when something is put into it. -/

namespace ExtensionLock

structure WorkingDirectory where
  path : Path
  deriving DecidableEq, Repr

namespace WorkingDirectory

def folder : String := "modextwd"

def named (outputBase : Path) (uniqueName : String) : WorkingDirectory :=
  ⟨(outputBase.join ⟨folder⟩).join ⟨uniqueName⟩⟩

def exists? (d : WorkingDirectory) (t : FileTree) : Bool := t.exists? d.path

def ensure (d : WorkingDirectory) (t : FileTree) : FileTree × Except IoError Unit :=
  t.createDirectories d.path

def remove (d : WorkingDirectory) (t : FileTree) : FileTree × Except IoError Bool :=
  match t.removeDirectory d.path with
  | (t, .ok ()) => (t, .ok true)
  | (t, .error .notFound) => (t, .ok false)
  | (t, .error e) => (t, .error e)

def clear (d : WorkingDirectory) (t : FileTree) : FileTree × Except IoError Unit :=
  let (t, r) := d.remove t
  (t, r.map (fun _ => ()))

end WorkingDirectory

/-- The working directories of evaluations that are under way; every place is listed once. -/
structure TrackedDirectories where
  paths : List Path
  deriving DecidableEq, Repr

namespace TrackedDirectories

def empty : TrackedDirectories := ⟨[]⟩

def samePlace (p q : Path) : Bool := p.components == q.components

def release (d : TrackedDirectories) (p : Path) : TrackedDirectories :=
  ⟨d.paths.filter (fun q => !samePlace p q)⟩

def track (d : TrackedDirectories) (p : Path) : TrackedDirectories :=
  if d.paths.any (samePlace p) then d else ⟨d.paths ++ [p]⟩

def size (d : TrackedDirectories) : Nat := d.paths.length

def isEmpty (d : TrackedDirectories) : Bool := d.paths.isEmpty

/-- Removes directories as far as that is possible, and counts those that were removed. The count
depends on the order where one is in another. -/
def removeEach (t : FileTree) : List Path → FileTree × Nat
  | [] => (t, 0)
  | p :: rest =>
    match t.removeDirectory p with
    | (t, .ok ()) => let (last, n) := removeEach t rest; (last, n + 1)
    | (t, .error _) => removeEach t rest

/-- Removes all directories that are tracked; they stay tracked. They are taken in the order of
their registration, which stands for the order of a hash set. -/
def removeAll (d : TrackedDirectories) (t : FileTree) : FileTree × Nat := removeEach t d.paths

end TrackedDirectories

end ExtensionLock
