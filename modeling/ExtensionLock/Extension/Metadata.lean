import ExtensionLock.Diagnostic
import ExtensionLock.Imports
import ExtensionLock.UsageIndex

/-! What an extension says about the repositories that the root module should import, and the
comparison with what it does import. -/

namespace ExtensionLock

inductive DirectDeps where
  | unspecified
  /-- all that are generated and not named on the other side -/
  | all
  | names (s : SortedSet String)
  deriving DecidableEq

inductive MetadataFault where
  | halfSpecified
  | allTwice
  | overlap (names : List String)
  deriving DecidableEq, Repr

def MetadataFault.message : MetadataFault → String
  | .halfSpecified =>
    "root_module_direct_deps and root_module_direct_dev_deps must both be specified or both be " ++
      "unspecified"
  | .allTwice =>
    "at most one of root_module_direct_deps and root_module_direct_dev_deps can be set to \"all\""
  | .overlap names =>
    "root_module_direct_deps and root_module_direct_dev_deps must be disjoint, but both " ++
      "contain: " ++ joined ", " names

namespace DirectDeps

def decoder : Decoder DirectDeps
  | _, .null => .ok .unspecified
  | _, .string (some "all") => .ok .all
  | o, v => (Decoder.set .string o v).map .names

/-- Both sides are given or neither is, they do not both mean all, and share no name. -/
def check : DirectDeps → DirectDeps → Except MetadataFault Unit
  | .unspecified, .unspecified => .ok ()
  | .unspecified, _ => .error .halfSpecified
  | _, .unspecified => .error .halfSpecified
  | .all, .all => .error .allTwice
  | .names a, .names b =>
    match (SortedSet.inter a b).toList with
    | [] => .ok ()
    | common => .error (.overlap common)
  | _, _ => .ok ()

def resolve {ν : Type} (generated : SortedMap String ν) : DirectDeps → DirectDeps → SortedSet String
  | .unspecified, _ => SortedSet.empty
  | .names s, _ => s
  | .all, .names claimed => SortedSet.diff (generated.mapValues (fun _ _ => ())) claimed
  | .all, _ => generated.mapValues (fun _ _ => ())

end DirectDeps

structure Metadata where
  direct : DirectDeps
  dev : DirectDeps
  compatible : DirectDeps.check direct dev = .ok ()

namespace Metadata

def ofSides (direct dev : DirectDeps) : Except MetadataFault Metadata :=
  match h : DirectDeps.check direct dev with
  | .ok () => .ok ⟨direct, dev, h⟩
  | .error fault => .error fault

def isSpecified (m : Metadata) : Bool := m.direct != .unspecified

/-- What is said to be a dependency but is not imported, and the other mismatches. -/
inductive Mismatch where
  | directNotImported
  | devNotImported
  | regularSaidDev
  | devSaidRegular
  | saidIndirect
  deriving DecidableEq, Repr

def Mismatch.heading : Mismatch → String
  | .directNotImported =>
    "Not imported, but reported as direct dependencies by the extension (may cause the build " ++
      "to fail)"
  | .devNotImported =>
    "Not imported, but reported as direct dev dependencies by the extension (may cause the " ++
      "build to fail)"
  | .regularSaidDev =>
    "Imported as a regular dependency, but reported as a dev dependency by the extension"
  | .devSaidRegular =>
    "Imported as a dev dependency, but reported as a regular dependency by the extension"
  | .saidIndirect => "Imported, but reported as indirect dependencies by the extension"

def mismatches (direct dev imported importedDev : SortedSet String) :
    List (Mismatch × SortedSet String) :=
  [(.directNotImported, direct.diff imported), (.devNotImported, dev.diff importedDev),
    (.regularSaidDev, imported.inter dev), (.devSaidRegular, importedDev.inter direct),
    (.saidIndirect, (imported.union importedDev).diff (direct.union dev))].filter
      (fun m => !SortedMap.isEmpty m.2)

def describe (m : Mismatch × SortedSet String) : String :=
  m.1.heading ++ ":\n    " ++ joined ", " m.2.toList

def warning (id : ExtensionId) (location : Location) (found : List (Mismatch × SortedSet String)) :
    Diagnostic :=
  .warning (some location)
    ("The module extension " ++ id.name ++ " defined in " ++ id.label.text ++
      " reported incorrect imports of repositories via use_repo():\n\n" ++
      joined "\n\n" (found.map describe))

/-- Compares the metadata with the imports of the root module. The error names dependencies that
were not generated; the result is the warning that is due, if one is. -/
def assess {ν : Type} (m : Metadata) (usages : ExtensionUsages) (generated : SortedMap String ν) :
    Except (List String) (Option Diagnostic) :=
  if m.isSpecified then
    let direct := m.direct.resolve generated m.dev
    let dev := m.dev.resolve generated m.direct
    match (direct.union dev).toList.filter (fun name => !generated.contains name) with
    | [] =>
      match usages.usage? ModuleKey.root with
      | none => .ok none
      | some u =>
        match mismatches direct dev u.regularExports u.devExports with
        | [] => .ok none
        | found => .ok (some (warning usages.extensionId u.location found))
    | unknown => .error unknown
  else .ok none

end Metadata

end ExtensionLock
