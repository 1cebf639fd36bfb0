import ExtensionLock.Label
import ExtensionLock.Version

/-! Keys of modules in the dependency graph, `name@version`. The root module has a key of its own,
and an empty version is written as an underscore. -/

namespace ExtensionLock

structure ModuleKey where
  name : String
  version : Version
  deriving DecidableEq, Repr

namespace ModuleKey

inductive ParseError where
  | malformed (input : String)
  | emptyName (input : String)
  | version (input : String) (source : Version.ParseError)
  deriving DecidableEq, Repr

def ParseError.message : ParseError → String
  | .malformed input => "invalid module key '" ++ input ++ "': expected 'name@version' or '<root>'"
  | .emptyName input => "invalid module key '" ++ input ++ "': module name is empty"
  | .version input source => "invalid module key '" ++ input ++ "': " ++ source.message

def ParseError.kind : ParseError → String
  | .malformed _ => "Malformed"
  | .emptyName _ => "EmptyName"
  | .version .. => "Version"

def root : ModuleKey := ⟨"", Version.empty⟩

def isRoot (k : ModuleKey) : Bool := k.name == "" && k.version.isEmpty

def rootText : String := "<root>"

def emptyVersionText : String := "_"

def text (k : ModuleKey) : String :=
  if k.isRoot then rootText
  else k.name ++ "@" ++ (if k.version.isEmpty then emptyVersionText else k.version.text)

instance : ToString ModuleKey := ⟨text⟩

/-- Reads a key; the name ends at the first `@`. -/
def parse (input : String) : Except ParseError ModuleKey :=
  if input = rootText then .ok root
  else match Text.cutAt '@' input.toList with
    | none => .error (.malformed input)
    | some (name, version) =>
      if name.isEmpty then .error (.emptyName input)
      else
        let version := String.ofList version
        if version = emptyVersionText then .ok ⟨String.ofList name, Version.empty⟩
        else match Version.parse version with
          | .ok v => .ok ⟨String.ofList name, v⟩
          | .error e => .error (.version input e)

def canonicalRepoName (k : ModuleKey) : String :=
  if k.isRoot then mainRepoName else k.name ++ "~" ++ k.version.text

def order : ModuleKey → ModuleKey → Ordering := compareLex (compareOn name) (compareOn version)

instance : Ord ModuleKey := ⟨order⟩

instance : Std.TransOrd ModuleKey :=
  inferInstanceAs (Std.TransCmp (compareLex (compareOn name) (compareOn version)))

instance : Std.LawfulEqOrd ModuleKey where
  eq_of_compare {a b} h := by
    have h : order a b = .eq := h
    simp only [order, compareLex_eq_eq, compareOn] at h
    obtain ⟨h1, h2⟩ := h
    have h1 := Std.LawfulEqOrd.eq_of_compare h1
    have h2 := Std.LawfulEqOrd.eq_of_compare h2
    cases a; cases b; simp_all

def decoder : Decoder ModuleKey :=
  Decoder.parsed (fun s => (parse s).mapError ParseError.message)

def toJson (k : ModuleKey) : Json := .string k.text

def describe (k : ModuleKey) : Json :=
  .object [("text", k.toJson), ("name", .string k.name), ("version", k.version.toJson),
    ("isRoot", .bool k.isRoot), ("canonicalRepoName", .string k.canonicalRepoName)]

end ModuleKey

end ExtensionLock
