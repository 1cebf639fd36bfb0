import ExtensionLock.RepoSpec

/-! The repositories of an evaluated extension, under the names that the extension gives and the
canonical names that they have everywhere. -/

namespace ExtensionLock

def canonicalRepoName (uniqueName exported : String) : String := uniqueName ++ "~" ++ exported

structure ExtensionValue where
  specs : RepoSpecs
  /-- canonical names and the names in the extension -/
  canonical : SortedMap String String
  deriving BEq

namespace ExtensionValue

def ofSpecs (uniqueName : String) (specs : RepoSpecs) : ExtensionValue :=
  ⟨specs, .ofList (specs.keys.map (fun name => (canonicalRepoName uniqueName name, name)))⟩

def toJson (v : ExtensionValue) : Json :=
  .object [("specs", v.specs.toJson),
    ("canonical", .array (v.canonical.entries.map (fun e => .array [.string e.1, .string e.2])))]

def exportedName? (v : ExtensionValue) (canonical : String) : Option String :=
  v.canonical.get? canonical

def canonicalName? (v : ExtensionValue) (exported : String) : Option String :=
  (v.canonical.entries.find? (fun e => e.2 == exported)).map Prod.fst

end ExtensionValue

end ExtensionLock
