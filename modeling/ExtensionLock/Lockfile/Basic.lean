import ExtensionLock.Digest
import ExtensionLock.Imports
import ExtensionLock.Lockfile.Flags
import ExtensionLock.Path

/-! Lockfiles: the inputs of a resolution, and the results of the extensions that it evaluated. -/

namespace ExtensionLock

structure LockedExtension where
  digest : Digest
  specs : RepoSpecs
  deriving BEq

namespace LockedExtension

def record : Record [Digest, RepoSpecs] :=
  .required "transitiveDigest" Digest.decoder <|
  .optional "generatedRepoSpecs" RepoSpecs.decoder .empty .nil

def decoder : Decoder LockedExtension := fun o v => do
  let (digest, specs, ()) ← record.decode o v
  .ok ⟨digest, specs⟩

def toJson (e : LockedExtension) : Json :=
  .object [("transitiveDigest", e.digest.toJson), ("generatedRepoSpecs", e.specs.toJson)]

end LockedExtension

abbrev LockedExtensions := SortedMap ExtensionId LockedExtension

def LockedExtensions.toJson (m : LockedExtensions) : Json :=
  .object (m.entries.map (fun e => (e.1.text, e.2.toJson)))

structure ResolutionInputs where
  moduleFileHash : String
  flags : Flags
  overrideHashes : SortedMap String String
  depGraph : DepGraph
  deriving BEq

namespace ResolutionInputs

def default : ResolutionInputs := ⟨"", Flags.default, .empty, .empty⟩

def record (depGraph : DepGraph) : Record [String, Flags, SortedMap String String, DepGraph] :=
  .optional "moduleFileHash" .string "" <| .optional "flags" Flags.decoder Flags.default <|
  .optional "localOverrideHashes" (.map .string .string) .empty <|
  .optional "moduleDepGraph" DepGraph.decoder depGraph .nil

def decoder (depGraph : DepGraph) : Decoder ResolutionInputs := fun o v => do
  let (moduleFileHash, flags, overrideHashes, depGraph, ()) ← (record depGraph).decode o v
  .ok ⟨moduleFileHash, flags, overrideHashes, depGraph⟩

end ResolutionInputs

structure Lockfile where
  version : Nat
  moduleFileHash : String
  flags : Flags
  /-- hashes of the module files of locally overridden modules -/
  overrideHashes : SortedMap String String
  depGraph : DepGraph
  extensions : LockedExtensions
  deriving BEq

inductive LockfileError where
  | io (path : Path) (source : IoError)
  | corrupted (path : Path) (source : DecodeError)
  | noVersion (path : Path)
  | versionMismatch (path : Path) (found : Nat)
  | depGraph (source : DuplicateUsage)
  | unresolvedImports (id : ExtensionId) (source : List UnresolvedImport)

namespace Lockfile

def currentVersion : Nat := 1

def fileName : String := "MODULE.lock"

def ofInputs (inputs : ResolutionInputs) : Lockfile :=
  { version := currentVersion
    moduleFileHash := inputs.moduleFileHash
    flags := inputs.flags
    overrideHashes := inputs.overrideHashes
    depGraph := inputs.depGraph
    extensions := .empty }

def empty : Lockfile := ofInputs .default

def inputs (l : Lockfile) : ResolutionInputs :=
  ⟨l.moduleFileHash, l.flags, l.overrideHashes, l.depGraph⟩

def usagesById (l : Lockfile) : Except LockfileError UsagesById :=
  l.depGraph.usagesById.mapError .depGraph

def usedExtensions (l : Lockfile) : Except LockfileError (List ExtensionId) :=
  l.usagesById.map SortedMap.keys

def checkEntries (usages : UsagesById) :
    List (ExtensionId × LockedExtension) → Except LockfileError Unit
  | [] => .ok ()
  | (id, entry) :: rest => do
    match usages.get? id with
    | none => pure ()
    | some perModule =>
      (checkImports id entry.specs perModule.values).mapError (.unresolvedImports id)
    checkEntries usages rest

def validate (l : Lockfile) : Except LockfileError Unit := do
  checkEntries (← l.usagesById) l.extensions.entries

def unusedExtensions (l : Lockfile) (used : UsagesById) : List ExtensionId :=
  l.extensions.keys.filter (fun id => !used.contains id)

/-- Drops the entries of extensions that no module uses, and names them. -/
def prune (l : Lockfile) : Except LockfileError (Lockfile × List ExtensionId) := do
  let used ← l.usagesById
  pure ({ l with extensions := l.extensions.filter (fun id _ => used.contains id) },
    l.unusedExtensions used)

end Lockfile

def LockfileError.message : LockfileError → String
  | .io path source => "IO error on " ++ path.text ++ ": " ++ source.message
  | .corrupted path source => "Corrupted lockfile " ++ path.text ++ ": " ++ source.message
  | .noVersion path =>
    "Corrupted lockfile " ++ path.text ++ ": missing or non-numeric lockFileVersion"
  | .versionMismatch path found =>
    "Lockfile version mismatch in " ++ path.text ++ ": expected " ++
      toString Lockfile.currentVersion ++ ", found " ++ toString found ++
      "; delete the file and resolve again to regenerate it"
  | .depGraph source => "Invalid module dependency graph in lockfile: " ++ source.message
  | .unresolvedImports id source =>
    "Lockfile entry for module extension '" ++ id.text ++ "' is invalid: " ++
      unresolvedMessage source

def LockfileError.kind : LockfileError → String
  | .io .. => "Io"
  | .corrupted .. => "Corrupted"
  | .noVersion _ => "Corrupted"
  | .versionMismatch .. => "VersionMismatch"
  | .depGraph _ => "DependencyGraph"
  | .unresolvedImports .. => "UnresolvedImports"

def LockfileError.report (e : LockfileError) : Json :=
  .failure e.kind (match e with
    | .io path _ => [("path", .string path.text)]
    | .unresolvedImports _ l => [("message", .string e.message), ("count", .nat l.length)]
    | _ => [("message", .string e.message)])

def LockfileError.cause : LockfileError → Option String
  | .io _ source => some source.message
  | .depGraph source => some source.message
  | .unresolvedImports _ source => some (unresolvedMessage source)
  | _ => none

end ExtensionLock
