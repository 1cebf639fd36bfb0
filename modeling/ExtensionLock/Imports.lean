import ExtensionLock.Spelling
import ExtensionLock.UsageIndex

/-! The check that every repository imported from an extension is generated by it. -/

namespace ExtensionLock

structure UnresolvedImport where
  extensionName : String
  bzlFile : String
  exported : String
  name : String
  location : Location
  suggestion : String
  deriving DecidableEq, Repr

def UnresolvedImport.message (i : UnresolvedImport) : String :=
  "module extension \"" ++ i.extensionName ++ "\" from \"" ++ i.bzlFile ++
    "\" does not generate repository \"" ++ i.exported ++ "\", yet it is imported as \"" ++
    i.name ++ "\" in the usage at " ++ i.location.text ++ i.suggestion

def UnresolvedImport.toJson (i : UnresolvedImport) : Json :=
  .object [("extension", .string i.extensionName), ("bzlFile", .string i.bzlFile),
    ("exported", .string i.exported), ("local", .string i.name),
    ("location", .string i.location.text), ("suggestion", .string i.suggestion)]

def joined (sep : String) (l : List String) : String := sep.intercalate l

def unresolvedMessage (l : List UnresolvedImport) : String :=
  joined "\n" (l.map UnresolvedImport.message)

def unresolvedOf {ν : Type} (id : ExtensionId) (generated : SortedMap String ν) (u : Usage) :
    List UnresolvedImport :=
  (u.imports.entries.filter (fun e => !generated.contains e.2)).map (fun e =>
    { extensionName := id.name
      bzlFile := id.label.text
      exported := e.2
      name := e.1
      location := u.location
      suggestion := Spelling.didYouMean e.2 generated.keys })

def unresolvedImports {ν : Type} (id : ExtensionId) (generated : SortedMap String ν)
    (usages : List Usage) : List UnresolvedImport :=
  usages.flatMap (unresolvedOf id generated)

/-- Every import is generated; otherwise the error names all that are not. -/
def checkImports {ν : Type} (id : ExtensionId) (generated : SortedMap String ν)
    (usages : List Usage) : Except (List UnresolvedImport) Unit :=
  match unresolvedImports id generated usages with
  | [] => .ok ()
  | failures => .error failures

end ExtensionLock
