import ExtensionLock.ModuleKey
import ExtensionLock.Usage

/-! Modules of a resolved dependency graph. -/

namespace ExtensionLock

abbrev RepoMapping := SortedMap String String

structure Module where
  name : String
  version : Version
  key : ModuleKey
  /-- the name that the module gives to its own repository -/
  repoName : String
  /-- names of repositories and the modules that they belong to -/
  deps : SortedMap String ModuleKey
  usages : List Usage
  deriving BEq

structure AbridgedModule where
  name : String
  version : Version
  key : ModuleKey
  deriving DecidableEq, Repr

namespace AbridgedModule

def record : Record [String, Version, ModuleKey] :=
  .required "name" .string <| .required "version" Version.decoder <|
  .required "key" ModuleKey.decoder .nil

def decoder : Decoder AbridgedModule := fun o v => do
  let (name, version, key, ()) ← record.decode o v
  .ok ⟨name, version, key⟩

end AbridgedModule

namespace Module

def record : Record [String, Version, ModuleKey, String, SortedMap String ModuleKey, List Usage] :=
  .required "name" .string <| .required "version" Version.decoder <|
  .required "key" ModuleKey.decoder <| .required "repoName" .string <|
  .optional "deps" (.map .string ModuleKey.decoder) .empty <|
  .optional "extensionUsages" (.list Usage.decoder) [] .nil

def decoder : Decoder Module := fun o v => do
  let (name, version, key, repoName, deps, usages, ()) ← record.decode o v
  .ok ⟨name, version, key, repoName, deps, usages⟩

def toJson (m : Module) : Json :=
  .object [("name", .string m.name), ("version", m.version.toJson), ("key", m.key.toJson),
    ("repoName", .string m.repoName),
    ("deps", .object (m.deps.entries.map (fun e => (e.1, e.2.toJson)))),
    ("extensionUsages", .array (m.usages.map Usage.toJson))]

def ofName (name : String) (version : Version) : Module :=
  ⟨name, version, ⟨name, version⟩, name, .empty, []⟩

def root (name : String) (version : Version) : Module :=
  { ofName name version with key := ModuleKey.root }

def withRepoName (m : Module) (repoName : String) : Module := { m with repoName }

def withDep (m : Module) (name : String) (key : ModuleKey) : Module :=
  { m with deps := m.deps.insert name key }

def withUsage (m : Module) (u : Usage) : Module := { m with usages := m.usages ++ [u] }

def canonicalRepoName (m : Module) : String := m.key.canonicalRepoName

def abridged (m : Module) : AbridgedModule := ⟨m.name, m.version, m.key⟩

/-- The repositories that the module sees; its own comes on top of a dependency of that name. -/
def repoMapping (m : Module) : RepoMapping :=
  (m.deps.mapValues (fun _ key => key.canonicalRepoName)).insert m.repoName m.canonicalRepoName

end Module

abbrev DepGraph := SortedMap ModuleKey Module

namespace DepGraph

def decoder : Decoder DepGraph := .map ModuleKey.decoder Module.decoder

def toJson (g : DepGraph) : Json :=
  .object (g.entries.map (fun e => (e.1.text, e.2.toJson)))

end DepGraph

end ExtensionLock
