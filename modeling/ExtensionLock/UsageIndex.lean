import ExtensionLock.Module

/-! The usages of a dependency graph, grouped by extension, and the names that extensions get. -/

namespace ExtensionLock

abbrev ModuleUsages := SortedMap ModuleKey Usage

def ModuleUsages.decoder : Decoder ModuleUsages := .map ModuleKey.decoder Usage.decoder

abbrev UsagesById := SortedMap ExtensionId ModuleUsages

structure DuplicateUsage where
  module : ModuleKey
  extensionId : ExtensionId
  first : Location
  second : Location
  deriving DecidableEq, Repr

def DuplicateUsage.message (e : DuplicateUsage) : String :=
  "module " ++ e.module.text ++ " uses the module extension '" ++ e.extensionId.text ++
    "' more than once: at " ++ e.first.text ++ " and at " ++ e.second.text

namespace DepGraph

def addUsage (key : ModuleKey) (byId : UsagesById) (u : Usage) : Except DuplicateUsage UsagesById :=
  let perModule := byId.getD u.extensionId .empty
  match perModule.get? key with
  | some earlier => .error ⟨key, u.extensionId, earlier.location, u.location⟩
  | none => .ok (byId.insert u.extensionId (perModule.insert key u))

def usagesById (g : DepGraph) : Except DuplicateUsage UsagesById :=
  g.entries.foldlM (fun byId e => e.2.usages.foldlM (addUsage e.1) byId) .empty

end DepGraph

namespace ExtensionId

def baseName (id : ExtensionId) : String :=
  id.label.repoDisplayName ++ "~" ++ id.name ++ (match id.isolation with
    | some key => "~" ++ key
    | none => "")

/-- The first of `base2`, `base3`, … from a number on that is free. Among as many candidates as
there are taken names and one more, one is free. -/
def freeName (taken : List String) (base : String) : Nat → Nat → String
  | 0, n => base ++ toString n
  | fuel + 1, n =>
    let candidate := base ++ toString n
    if taken.contains candidate then freeName taken base fuel (n + 1) else candidate

def pickName (taken : List String) (base : String) : String :=
  if taken.contains base then freeName taken base taken.length 2 else base

def assignNames (taken : List String) : List ExtensionId → List (ExtensionId × String)
  | [] => []
  | id :: rest =>
    let name := pickName taken id.baseName
    (id, name) :: assignNames (name :: taken) rest

/-- A name for every extension, no two the same, given out in the order of the ids. -/
def uniqueNames (ids : List ExtensionId) : SortedMap ExtensionId String :=
  .ofList (assignNames [] (SortedSet.ofList ids).keys)

end ExtensionId

/-- All usages of one extension, with what an implementation may know of the using modules. -/
structure ExtensionUsages where
  extensionId : ExtensionId
  uniqueName : String
  usages : ModuleUsages
  abridgedModules : List AbridgedModule
  repoMappings : SortedMap ModuleKey RepoMapping
  deriving BEq

namespace ExtensionUsages

def record : Record [String, ModuleUsages, List AbridgedModule, SortedMap ModuleKey RepoMapping] :=
  .required "uniqueName" .string <| .optional "usages" ModuleUsages.decoder .empty <|
  .optional "abridged" (.list AbridgedModule.decoder) [] <|
  .optional "mappings" (.map ModuleKey.decoder (.map .string .string)) .empty .nil

def decoder (id : ExtensionId) : Decoder ExtensionUsages := fun o v => do
  let (uniqueName, usages, abridged, mappings, ()) ← record.decode o v
  .ok ⟨id, uniqueName, usages, abridged, mappings⟩

/-- Where the extension is first used; errors about it as a whole name this place. -/
def sampleLocation (u : ExtensionUsages) : Option Location :=
  u.usages.values.head?.map Usage.location

def describe (u : ExtensionUsages) : Json :=
  .object [("id", u.extensionId.toJson), ("uniqueName", .string u.uniqueName),
    ("modules", .array (u.usages.keys.map ModuleKey.toJson)),
    ("usageLocations", .array (u.usages.values.map (fun s => .string s.location.text))),
    ("sampleLocation", .optionalString (u.sampleLocation.map Location.text)),
    ("abridged", .array (u.abridgedModules.map (fun m =>
      .array [.string m.name, m.version.toJson, m.key.toJson]))),
    ("repoMappings", .array (u.repoMappings.entries.map (fun e =>
      .array [e.1.toJson, stringsToJson e.2])))]

def usage? (u : ExtensionUsages) (key : ModuleKey) : Option Usage := u.usages.get? key

end ExtensionUsages

structure UsageIndex where
  usagesById : UsagesById
  uniqueNames : SortedMap ExtensionId String
  modules : SortedMap ModuleKey (AbridgedModule × RepoMapping)

namespace UsageIndex

def ofGraph (g : DepGraph) : Except DuplicateUsage UsageIndex := do
  let byId ← g.usagesById
  pure ⟨byId, ExtensionId.uniqueNames byId.keys,
    g.mapValues (fun _ m => (m.abridged, m.repoMapping))⟩

def extensionIds (x : UsageIndex) : List ExtensionId := x.usagesById.keys

def size (x : UsageIndex) : Nat := x.usagesById.size

def isEmpty (x : UsageIndex) : Bool := x.usagesById.isEmpty

def usages? (x : UsageIndex) (id : ExtensionId) : Option ModuleUsages := x.usagesById.get? id

def uniqueName? (x : UsageIndex) (id : ExtensionId) : Option String := x.uniqueNames.get? id

def single? (x : UsageIndex) (id : ExtensionId) : Option ExtensionUsages := do
  let usages ← x.usages? id
  let uniqueName ← x.uniqueName? id
  let known := usages.keys.filterMap (fun key => (x.modules.get? key).map (fun m => (key, m)))
  pure ⟨id, uniqueName, usages, known.map (fun m => m.2.1),
    .ofList (known.map (fun m => (m.1, m.2.2)))⟩

end UsageIndex

end ExtensionLock
