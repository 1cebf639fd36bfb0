import ExtensionLock.Json.Decode

/-! Specifications of repositories: which rule makes a repository, with which attributes. -/

namespace ExtensionLock

abbrev Attributes := SortedMap String Json

namespace Attributes

def decoder : Decoder Attributes := .map .string .json

def toJson (a : Attributes) : Json := .object a.entries

end Attributes

/-- How one repository is made. Rules built into the tool come from no file. -/
structure RepoSpec where
  bzlFile : Option String
  ruleClassName : String
  attributes : Attributes
  deriving BEq

namespace RepoSpec

def native (rule : String) (attributes : List (String × Json)) : RepoSpec :=
  ⟨none, rule, .ofList attributes⟩

def record : Record [Option String, String, Attributes] :=
  .optional "bzlFile" (.option .string) none <| .required "ruleClassName" .string <|
  .optional "attributes" Attributes.decoder .empty .nil

def decoder : Decoder RepoSpec := fun o v => do
  let (bzlFile, ruleClassName, attributes, ()) ← record.decode o v
  .ok ⟨bzlFile, ruleClassName, attributes⟩

def toJson (s : RepoSpec) : Json :=
  .object ((s.bzlFile.map (fun f => ("bzlFile", Json.string f))).toList ++
    [("ruleClassName", .string s.ruleClassName), ("attributes", s.attributes.toJson)])

end RepoSpec

abbrev RepoSpecs := SortedMap String RepoSpec

namespace RepoSpecs

def decoder : Decoder RepoSpecs := .map .string RepoSpec.decoder

def toJson (specs : RepoSpecs) : Json :=
  .object (specs.entries.map (fun e => (e.1, e.2.toJson)))

end RepoSpecs

def isRepoName (name : String) : Bool :=
  match name.toList with
  | [] => false
  | c :: rest =>
    c.isAlpha && rest.all (fun c => c.isAlphanum || c == '_' || c == '-' || c == '.')

structure RepoNameError where
  name : String
  deriving DecidableEq, Repr

def RepoNameError.message (e : RepoNameError) : String :=
  "invalid user-provided repo name '" ++ e.name ++
    "': valid names may contain only A-Z, a-z, 0-9, '-', '_' and '.', and must start with a letter"

def checkRepoName (name : String) : Except RepoNameError Unit :=
  if isRepoName name then .ok () else .error ⟨name⟩

end ExtensionLock
