import ExtensionLock.Lockfile.Basic

/-! What has changed since a lockfile was written. Every change is a fact about the two sides, and
its text says it to the user. -/

namespace ExtensionLock

inductive InputChange where
  | rootModule
  | flag (name : Flags.Name)
  | overrideChanged (name : String)
  | overrideGone (name : String)
  | overrideNew (name : String)
  deriving DecidableEq, Repr

def InputChange.text : InputChange → String
  | .rootModule => "the root module file has been modified"
  | .flag name => "the value of " ++ name.text ++ " has been modified"
  | .overrideChanged name => "the module file has changed for the overridden module: " ++ name
  | .overrideGone name => "the module '" ++ name ++ "' is no longer locally overridden"
  | .overrideNew name => "the module '" ++ name ++ "' is now locally overridden"

inductive UsageChange where
  | importAdded (name exported : String)
  | importRemoved (name exported : String)
  | importChanged (name was now : String)
  | devAdded (name : String)
  | devRemoved (name : String)
  | tagAdded (name : String) (location : Location)
  | tagRemoved (name : String) (location : Location)
  | tagReplaced (was now : String) (location : Location)
  | tagModified (name : String) (location : Location)
  | moved (was now : Location)
  | other
  deriving DecidableEq, Repr

def UsageChange.text (module : ModuleKey) : UsageChange → String
  | .importAdded name exported =>
    "module " ++ module.text ++ " now imports the repository '" ++ exported ++ "' as '" ++
      name ++ "'"
  | .importRemoved name exported =>
    "module " ++ module.text ++ " no longer imports the repository '" ++ exported ++ "' as '" ++
      name ++ "'"
  | .importChanged name was now =>
    "module " ++ module.text ++ " imports the repository '" ++ now ++ "' as '" ++ name ++
      "' instead of '" ++ was ++ "'"
  | .devAdded name =>
    "module " ++ module.text ++ " now imports '" ++ name ++ "' as a dev dependency"
  | .devRemoved name =>
    "module " ++ module.text ++ " no longer imports '" ++ name ++ "' as a dev dependency"
  | .tagAdded name location =>
    "module " ++ module.text ++ " added the tag '" ++ name ++ "' at " ++ location.text
  | .tagRemoved name location =>
    "module " ++ module.text ++ " removed the tag '" ++ name ++ "' (was at " ++ location.text ++ ")"
  | .tagReplaced was now location =>
    "module " ++ module.text ++ " replaced the tag '" ++ was ++ "' with '" ++ now ++ "' at " ++
      location.text
  | .tagModified name location =>
    "the tag '" ++ name ++ "' at " ++ location.text ++ " in module " ++ module.text ++
      " has been modified"
  | .moved was now =>
    "the usage in module " ++ module.text ++ " moved from " ++ was.text ++ " to " ++ now.text
  | .other => "the usage in module " ++ module.text ++ " has changed"

inductive ExtensionChange where
  | notLocked
  | implementation (was now : Digest)
  | started (module : ModuleKey)
  | stopped (module : ModuleKey)
  | usage (module : ModuleKey) (change : UsageChange)
  deriving DecidableEq, Repr

def ExtensionChange.text (id : ExtensionId) : ExtensionChange → String
  | .notLocked => "the module extension '" ++ id.text ++ "' does not exist in the lockfile"
  | .implementation was now =>
    "the implementation of the extension '" ++ id.text ++
      "' or one of its transitive .bzl files has changed (" ++ was.short ++ " -> " ++
      now.short ++ ")"
  | .started module =>
    "module " ++ module.text ++ " started using the extension '" ++ id.text ++ "'"
  | .stopped module =>
    "module " ++ module.text ++ " no longer uses the extension '" ++ id.text ++ "'"
  | .usage module change => change.text module

inductive LockfileChange where
  | input (change : InputChange)
  | extensionGone (id : ExtensionId)
  | extension (id : ExtensionId) (change : ExtensionChange)
  deriving DecidableEq, Repr

def LockfileChange.text : LockfileChange → String
  | .input change => change.text
  | .extensionGone id => "the module extension '" ++ id.text ++ "' is no longer in the lockfile"
  | .extension id change => change.text id

def overrideChange (name : String) : Option String → Option String → List InputChange
  | some was, some now => if was = now then [] else [.overrideChanged name]
  | some _, none => [.overrideGone name]
  | none, some _ => [.overrideNew name]
  | none, none => []

def inputChanges (locked current : ResolutionInputs) : List InputChange :=
  (if locked.moduleFileHash = current.moduleFileHash then [] else [.rootModule]) ++
  (Flags.changes locked.flags current.flags).map .flag ++
  (SortedMap.unionKeys locked.overrideHashes current.overrideHashes).flatMap (fun name =>
    overrideChange name (locked.overrideHashes.get? name) (current.overrideHashes.get? name))

def importChange (name : String) : Option String → Option String → List UsageChange
  | none, some exported => [.importAdded name exported]
  | some exported, none => [.importRemoved name exported]
  | some was, some now => if was = now then [] else [.importChanged name was now]
  | none, none => []

def tagChanges : List Tag → List Tag → List UsageChange
  | [], [] => []
  | [], now :: rest => .tagAdded now.tagName now.location :: tagChanges [] rest
  | was :: rest, [] => .tagRemoved was.tagName was.location :: tagChanges rest []
  | was :: before, now :: after =>
    (if was.tagName ≠ now.tagName then [.tagReplaced was.tagName now.tagName now.location]
      else if was == now then []
      else [.tagModified now.tagName now.location]) ++ tagChanges before after

def detailedUsageChanges (was now : Usage) : List UsageChange :=
  (SortedMap.unionKeys was.imports now.imports).flatMap (fun name =>
    importChange name (was.imports.get? name) (now.imports.get? name)) ++
  (now.devImports.diff was.devImports).toList.map .devAdded ++
  (was.devImports.diff now.devImports).toList.map .devRemoved ++
  tagChanges was.tags now.tags

/-- The changes between two usages that differ; where no detail differs, the place or the rest. -/
def usageChanges (was now : Usage) : List UsageChange :=
  match detailedUsageChanges was now with
  | [] => if was.location ≠ now.location then [.moved was.location now.location] else [.other]
  | changes => changes

def moduleChanges (module : ModuleKey) : Option Usage → Option Usage → List ExtensionChange
  | none, some _ => [.started module]
  | some _, none => [.stopped module]
  | some was, some now => if was == now then [] else (usageChanges was now).map (.usage module)
  | none, none => []

/-- How an extension differs from its locked entry: first the entry and the implementation, then
the usages by module. -/
def extensionChanges (locked : Option LockedExtension) (lockedUsages : ModuleUsages)
    (digest : Digest) (usages : ModuleUsages) : List ExtensionChange :=
  (match locked with
    | none => [.notLocked]
    | some entry =>
      if entry.digest = digest then [] else [.implementation entry.digest digest]) ++
  (SortedMap.unionKeys lockedUsages usages).flatMap (fun module =>
    moduleChanges module (lockedUsages.get? module) (usages.get? module))

namespace Lockfile

def inputChanges (l : Lockfile) (current : ResolutionInputs) : List InputChange :=
  ExtensionLock.inputChanges l.inputs current

def changes (old new : Lockfile) : Except LockfileError (List LockfileChange) := do
  let oldUsages ← old.usagesById
  let newUsages ← new.usagesById
  let perExtension (id : ExtensionId) : List LockfileChange :=
    match new.extensions.get? id with
    | none => [.extensionGone id]
    | some entry =>
      (extensionChanges (old.extensions.get? id) (oldUsages.getD id .empty) entry.digest
        (newUsages.getD id .empty)).map (.extension id)
  pure ((old.inputChanges new.inputs).map .input ++
    (SortedMap.unionKeys old.extensions new.extensions).flatMap perExtension)

end Lockfile

end ExtensionLock
