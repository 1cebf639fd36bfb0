import ExtensionLock.Json.Printer
import ExtensionLock.Lockfile.Basic

/-! The form of lockfiles on disk. -/

namespace ExtensionLock.Lockfile

def record : Record [Nat, String, Flags, SortedMap String String, DepGraph, LockedExtensions] :=
  .required "lockFileVersion" (.natBelow UInt32.size) <| .optional "moduleFileHash" .string "" <|
  .optional "flags" Flags.decoder Flags.default <|
  .optional "localOverrideHashes" (.map .string .string) .empty <|
  .optional "moduleDepGraph" DepGraph.decoder .empty <|
  .optional "moduleExtensions" (.map ExtensionId.decoder LockedExtension.decoder) .empty .nil

def decoder : Decoder Lockfile := fun o v => do
  let (version, moduleFileHash, flags, overrideHashes, depGraph, extensions, ()) ← record.decode o v
  .ok ⟨version, moduleFileHash, flags, overrideHashes, depGraph, extensions⟩

def toJson (l : Lockfile) : Json :=
  .object [("lockFileVersion", .nat l.version), ("moduleFileHash", .string l.moduleFileHash),
    ("flags", l.flags.toJson), ("localOverrideHashes", stringsToJson l.overrideHashes),
    ("moduleDepGraph", l.depGraph.toJson), ("moduleExtensions", l.extensions.toJson)]

def print (l : Lockfile) : String := l.toJson.pretty ++ "\n"

def versionOf (document : Json) : Option Nat := do
  match ← document.field? "lockFileVersion" with
  | .number n => n.natural?
  | _ => none

/-- Reads the text of a lockfile. The version comes before everything else, so that a file of
another version is reported as such. -/
def parse (path : Path) (text : String) : Except LockfileError Lockfile :=
  match Json.parse? text with
  | none => .error (.corrupted path .malformed)
  | some document =>
    match versionOf document with
    | none => .error (.noVersion path)
    | some found =>
      if found = currentVersion then
        (decoder.fromJson document).mapError (.corrupted path)
      else .error (.versionMismatch path found)

end ExtensionLock.Lockfile
