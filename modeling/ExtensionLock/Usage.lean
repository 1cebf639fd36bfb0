import ExtensionLock.ExtensionId
import ExtensionLock.Location
import ExtensionLock.RepoSpec

/-! What a module declares about an extension: the repositories it imports and its tags. -/

namespace ExtensionLock

structure Tag where
  tagName : String
  attributes : Attributes
  devDependency : Bool
  location : Location
  deriving BEq

namespace Tag

def record : Record [String, Attributes, Bool, Location] :=
  .required "tagName" .string <| .optional "attributeValues" Attributes.decoder .empty <|
  .optional "devDependency" .bool false <| .required "location" Location.decoder .nil

def decoder : Decoder Tag := fun o v => do
  let (tagName, attributes, devDependency, location, ()) ← record.decode o v
  .ok ⟨tagName, attributes, devDependency, location⟩

def toJson (t : Tag) : Json :=
  .object [("tagName", .string t.tagName), ("attributeValues", t.attributes.toJson),
    ("devDependency", .bool t.devDependency), ("location", t.location.toJson)]

end Tag

def stringsToJson (m : SortedMap String String) : Json :=
  .object (m.entries.map (fun e => (e.1, .string e.2)))

structure Usage where
  extensionId : ExtensionId
  location : Location
  /-- names that the module gives to repositories, and their names in the extension -/
  imports : SortedMap String String
  /-- names imported for development only -/
  devImports : SortedSet String
  tags : List Tag
  deriving BEq

namespace Usage

def record : Record [ExtensionId, Location, SortedMap String String, SortedSet String, List Tag] :=
  .required "extensionId" ExtensionId.decoder <| .required "location" Location.decoder <|
  .optional "imports" (.map .string .string) .empty <|
  .optional "devImports" (.set .string) SortedMap.empty <|
  .optional "tags" (.list Tag.decoder) [] .nil

def decoder : Decoder Usage := fun o v => do
  let (extensionId, location, imports, devImports, tags, ()) ← record.decode o v
  .ok ⟨extensionId, location, imports, devImports, tags⟩

def toJson (u : Usage) : Json :=
  .object [("extensionId", u.extensionId.toJson), ("location", u.location.toJson),
    ("imports", stringsToJson u.imports),
    ("devImports", .array (u.devImports.keys.map .string)),
    ("tags", .array (u.tags.map Tag.toJson))]

def bare (extensionId : ExtensionId) (location : Location) : Usage :=
  ⟨extensionId, location, .empty, SortedMap.empty, []⟩

def withImport (u : Usage) (name exported : String) : Usage :=
  { u with imports := u.imports.insert name exported }

def withDevImport (u : Usage) (name exported : String) : Usage :=
  { u with imports := u.imports.insert name exported, devImports := u.devImports.insert name }

def withTag (u : Usage) (t : Tag) : Usage := { u with tags := u.tags ++ [t] }

def exportsWhere (u : Usage) (keep : String → Bool) : SortedSet String :=
  SortedSet.ofList ((u.imports.entries.filter (fun e => keep e.1)).map Prod.snd)

def regularExports (u : Usage) : SortedSet String :=
  u.exportsWhere (fun name => !u.devImports.contains name)

def devExports (u : Usage) : SortedSet String :=
  u.exportsWhere (fun name => u.devImports.contains name)

end Usage

end ExtensionLock
