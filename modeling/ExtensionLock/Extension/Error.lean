import ExtensionLock.Extension.ScriptError
import ExtensionLock.Lockfile.Change

/-! Why an extension has no result. -/

namespace ExtensionLock

def staleMessage (reasons : List String) : String :=
  "Lock file is no longer up-to-date because: " ++ joined ", " reasons

inductive ExtensionError where
  | invalidLabel (source : Label.ParseError)
  | noUsages (id : ExtensionId)
  | loadFailed (label : Label) (location : Location) (message : String)
  | missingExport (id : ExtensionId) (location : Location) (suggestion : String)
  | unknownTagClass (id : ExtensionId) (tagName : String) (location : Location)
    (suggestion : String)
  /-- the lockfile may not change, but its entry does not fit -/
  | staleLockfile (id : ExtensionId) (changes : List ExtensionChange)
  | evaluationFailed (id : ExtensionId) (source : ScriptError)
  /-- the implementation has panicked; nothing is returned, and the session is lost with it -/
  | panicked (id : ExtensionId)
  | invalidReturn (id : ExtensionId) (typeName : String)
  /-- metadata names repositories that were not generated -/
  | invalidMetadata (id : ExtensionId) (unknown : List String)
  | unresolvedImports (source : List UnresolvedImport)
  | lockfile (source : LockfileError)
  | cleanup (path : Path) (source : IoError)

namespace ExtensionError

def message : ExtensionError → String
  | .invalidLabel source => "invalid module extension label: " ++ source.message
  | .noUsages id => "no usages found for module extension '" ++ id.text ++ "'"
  | .loadFailed label location message =>
    "Error loading '" ++ label.text ++ "' for module extensions, requested by " ++ location.text ++
      ": " ++ message
  | .missingExport id location suggestion =>
    id.label.text ++ " does not export a module extension called " ++ id.name ++
      ", yet its use is requested at " ++ location.text ++ suggestion
  | .unknownTagClass id tagName location suggestion =>
    "The module extension defined at " ++ id.label.text ++ "%" ++ id.name ++
      " does not have a tag class named " ++ tagName ++ ", but its use is attempted at " ++
      location.text ++ suggestion
  | .staleLockfile id changes => staleMessage (changes.map (ExtensionChange.text id))
  | .evaluationFailed id source =>
    "error evaluating module extension " ++ id.name ++ " in " ++ id.label.text ++ ": " ++
      source.message
  | .panicked id => "module extension " ++ id.name ++ " in " ++ id.label.text ++ " panicked"
  | .invalidReturn id typeName =>
    "expected module extension " ++ id.name ++ " in " ++ id.label.text ++
      " to return None or extension_metadata, got " ++ typeName
  | .invalidMetadata id unknown =>
    "invalid extension_metadata returned by module extension " ++ id.name ++ " in " ++
      id.label.text ++ ": root_module_direct_deps and root_module_direct_dev_deps contain " ++
      "repositories not generated by the extension: " ++ joined ", " unknown
  | .unresolvedImports source => unresolvedMessage source
  | .lockfile source => source.message
  | .cleanup path source =>
    "Failed to clean up module context directory " ++ path.text ++ ": " ++ source.message

def kind : ExtensionError → String
  | .invalidLabel _ => "InvalidLabel"
  | .noUsages _ => "NoUsages"
  | .loadFailed .. => "LoadFailed"
  | .missingExport .. => "MissingExport"
  | .unknownTagClass .. => "UnknownTagClass"
  | .staleLockfile .. => "StaleLockfile"
  | .evaluationFailed .. => "EvaluationFailed"
  | .panicked _ => "Panic"
  | .invalidReturn .. => "InvalidReturn"
  | .invalidMetadata .. => "InvalidMetadata"
  | .unresolvedImports _ => "UnresolvedImports"
  | .lockfile _ => "Lockfile"
  | .cleanup .. => "Cleanup"

def isTransient : ExtensionError → Bool
  | .evaluationFailed .. => true
  | .cleanup .. => true
  | _ => false

def report (e : ExtensionError) (extra : List (String × Json)) : Json :=
  .failure e.kind (("message", .string e.message) :: ("transient", .bool e.isTransient) :: extra)

end ExtensionError

end ExtensionLock
