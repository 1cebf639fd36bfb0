import ExtensionLock.Lockfile.Change
import ExtensionLock.LockfileMode

/-! Whether the locked result of an extension can be used again. -/

namespace ExtensionLock

inductive CacheDecision where
  | reuse (entry : LockedExtension)
  /-- run the extension; `record` says whether the result belongs in the lockfile -/
  | evaluate (record : Bool)
  deriving BEq

inductive PolicyError where
  | lockfile (source : LockfileError)
  | stale (changes : List ExtensionChange)

def Lockfile.recorded (l : Lockfile) (id : ExtensionId) :
    Except LockfileError (Option LockedExtension × ModuleUsages) := do
  let usages ← l.usagesById
  pure (l.extensions.get? id, usages.getD id .empty)

def LockedExtension.matches? (entry : LockedExtension) (lockedUsages : ModuleUsages)
    (digest : Digest) (usages : ModuleUsages) : Bool :=
  entry.digest == digest && lockedUsages == usages

namespace LockfileMode

/-- Decides by the digest and the usages. An entry is used again only if neither has changed. -/
def decide (mode : LockfileMode) (id : ExtensionId) (digest : Digest) (usages : ModuleUsages)
    (lockfile : Option Lockfile) : Except PolicyError CacheDecision :=
  if mode = .off then .ok (.evaluate false)
  else do
    let (locked, lockedUsages) ← match lockfile with
      | some l => (l.recorded id).mapError .lockfile
      | none => pure (none, .empty)
    let evaluate : Except PolicyError CacheDecision :=
      if mode = .error then .error (.stale (extensionChanges locked lockedUsages digest usages))
      else .ok (.evaluate true)
    match locked with
    | some entry =>
      if entry.matches? lockedUsages digest usages then .ok (.reuse entry) else evaluate
    | none => evaluate

end LockfileMode

end ExtensionLock
