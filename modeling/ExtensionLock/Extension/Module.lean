import ExtensionLock.UsageIndex

/-! Modules as the implementation of an extension sees them: their tags by class. -/

namespace ExtensionLock

structure ExtensionModule where
  name : String
  version : Version
  key : ModuleKey
  /-- the tags of every declared class, in the order in which the module lists them -/
  tags : SortedMap String (List Tag)
  repoMapping : RepoMapping
  deriving BEq

namespace ExtensionModule

def isRoot (m : ExtensionModule) : Bool := m.key.isRoot

def tagsOf (m : ExtensionModule) (tagClass : String) : List Tag := m.tags.getD tagClass []

def tagClasses (m : ExtensionModule) : List String := m.tags.keys

def resolveRepo (m : ExtensionModule) (name : String) : Option String := m.repoMapping.get? name

def toJson (names : List String) (m : ExtensionModule) : Json :=
  .object [("name", .string m.name), ("version", m.version.toJson), ("key", m.key.toJson),
    ("isRoot", .bool m.isRoot),
    ("tags", .array (m.tags.entries.map (fun e =>
      .array [.string e.1, .array (e.2.map Tag.toJson)]))),
    ("resolve", .array (names.map (fun n => .optionalString (m.resolveRepo n))))]

/-- Puts a tag behind the others of its class; the error is a tag of no declared class. -/
def addTag (byClass : SortedMap String (List Tag)) (t : Tag) :
    Except Tag (SortedMap String (List Tag)) :=
  match byClass.get? t.tagName with
  | some l => .ok (byClass.insert t.tagName (l ++ [t]))
  | none => .error t

/-- Groups tags by class; a class without tags has an empty list. -/
def groupTags (classes : SortedSet String) (tags : List Tag) :
    Except Tag (SortedMap String (List Tag)) :=
  tags.foldlM addTag (SortedMap.mapValues classes (fun _ _ => []))

def ofUsage (classes : SortedSet String) (m : AbridgedModule) (u : Usage) (mapping : RepoMapping) :
    Except Tag ExtensionModule :=
  (groupTags classes u.tags).map (fun tags => ⟨m.name, m.version, m.key, tags, mapping⟩)

end ExtensionModule

def ExtensionUsages.modules (u : ExtensionUsages) (classes : SortedSet String) :
    Except Tag (List ExtensionModule) :=
  (u.abridgedModules.filterMap (fun m => (u.usage? m.key).map (fun usage => (m, usage)))).mapM
    (fun p => ExtensionModule.ofUsage classes p.1 p.2 (u.repoMappings.getD p.1.key .empty))

end ExtensionLock
