import ExtensionLock.FileSystem
import ExtensionLock.Lockfile.Format

/-! Where a lockfile is kept. Saving writes a temporary file beside it and moves that into place, so
the old lockfile stays until the new one is complete. -/

namespace ExtensionLock

structure LockfileStore where
  path : Path
  deriving DecidableEq, Repr

namespace LockfileStore

def inWorkspace (root : Path) : LockfileStore := ⟨root.join ⟨Lockfile.fileName⟩⟩

def exists? (s : LockfileStore) (t : FileTree) : Bool := t.isFile s.path

def load (s : LockfileStore) (t : FileTree) : Except LockfileError (Option Lockfile) :=
  if s.exists? t then do
    let text ← (t.readText s.path).mapError (.io s.path)
    let l ← Lockfile.parse s.path text
    l.validate
    pure (some l)
  else .ok none

def loadOrEmpty (s : LockfileStore) (t : FileTree) : Except LockfileError Lockfile :=
  (s.load t).map (fun l => l.getD Lockfile.empty)

def temporaryPath (s : LockfileStore) : Path :=
  s.path.withFileName ("." ++ (s.path.fileName?.getD Lockfile.fileName) ++ ".tmp")

section Save

variable {σ : Type} [FileSystem σ]

def prepare (s : LockfileStore) (t : σ) : σ × Except IoError Unit :=
  match s.path.parent? with
  | some dir => if dir.text = "" then (t, .ok ()) else FileSystem.createDirectories t dir
  | none => (t, .ok ())

/-- Writes the lockfile in place of an existing one. A temporary file that cannot be moved into
place is removed, if that is possible. -/
def save (s : LockfileStore) (t : σ) (l : Lockfile) : σ × Except LockfileError Unit :=
  let fail (t : σ) (e : IoError) := (t, Except.error (LockfileError.io s.path e))
  match s.prepare t with
  | (t, .error e) => fail t e
  | (t, .ok ()) =>
    match FileSystem.write t s.temporaryPath (Text.bytes l.print) with
    | (t, .error e) => fail t e
    | (t, .ok ()) =>
      match FileSystem.rename t s.temporaryPath s.path with
      | (t, .error e) => fail (FileSystem.removeFile t s.temporaryPath).1 e
      | (t, .ok ()) => (t, .ok ())

end Save

end LockfileStore

end ExtensionLock
