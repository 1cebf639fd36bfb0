import ExtensionLock.Json.Decode
import ExtensionLock.Text.Blank
import ExtensionLock.Text.Split

/-! Labels of files, `@repo//package:name`. The main repository has no name and writes no `@`. -/

namespace ExtensionLock

structure Label where
  repo : String
  package : String
  name : String
  deriving DecidableEq, Repr

def mainRepoName : String := "_main"

def scriptExtension : String := ".bzl"

namespace Label

inductive PathFault where
  | slashAtEnd
  | emptySegment
  | dots
  | character
  deriving DecidableEq, Repr

def PathFault.reason : PathFault → String
  | .slashAtEnd => "may not start or end with '/'"
  | .emptySegment => "contains '//'"
  | .dots => "contains an up-level or current-directory reference"
  | .character => "contains an invalid character"

inductive Fault where
  | noSlashesAfterRepo
  | noStart
  | repoCharacter (c : Char)
  | package (fault : PathFault)
  | emptyName
  | name (fault : PathFault)
  | notScript
  deriving DecidableEq, Repr

def Fault.reason : Fault → String
  | .noSlashesAfterRepo => "expected '//' after the repository name"
  | .noStart => "label must start with '//' or '@'"
  | .repoCharacter c => "invalid character '" ++ String.singleton c ++ "' in repository name"
  | .package fault => "package name " ++ fault.reason
  | .emptyName => "empty target name"
  | .name fault => "target name " ++ fault.reason
  | .notScript => "the label must reference a file with extension '" ++ scriptExtension ++ "'"

structure ParseError where
  input : String
  fault : Fault
  deriving DecidableEq, Repr

def ParseError.message (e : ParseError) : String :=
  "invalid label '" ++ e.input ++ "': " ++ e.fault.reason

def isRepoChar (c : Char) : Bool :=
  c.isAlphanum || c == '_' || c == '-' || c == '.' || c == '~' || c == '+'

def isSegmentChar (c : Char) : Bool := !(Text.isBlank c || c == ':' || c == '@')

def checkRepo (cs : List Char) : Except Fault Unit :=
  match cs.find? (fun c => !isRepoChar c) with
  | some c => .error (.repoCharacter c)
  | none => .ok ()

def checkSegment (cs : List Char) : Except PathFault Unit :=
  if cs = [] then .error .emptySegment
  else if cs = ['.'] ∨ cs = ['.', '.'] then .error .dots
  else if cs.all isSegmentChar then .ok ()
  else .error .character

def checkSegments : List (List Char) → Except PathFault Unit
  | [] => .ok ()
  | segment :: rest => do
    checkSegment segment
    checkSegments rest

def checkPath (cs : List Char) : Except PathFault Unit :=
  if cs.head? = some '/' ∨ cs.getLast? = some '/' then .error .slashAtEnd
  else checkSegments (Text.splitAt '/' cs)

def checkPackage (cs : List Char) : Except Fault Unit :=
  if cs = [] then .ok () else (checkPath cs).mapError .package

def checkName (cs : List Char) : Except Fault Unit :=
  if cs = [] then .error .emptyName else (checkPath cs).mapError .name

def lastSegment (cs : List Char) : List Char := ((Text.splitAt '/' cs).getLast?).getD cs

/-- Cuts a label into repository name, and the rest from its slashes on. One or two `@` before the
repository name mean the same. -/
def cutRepo : List Char → Except Fault (List Char × List Char)
  | '@' :: '@' :: rest => after rest
  | '@' :: rest => after rest
  | cs => .ok ([], cs)
where
  after (cs : List Char) : Except Fault (List Char × List Char) :=
    match Text.cutBeforeSlashes cs with
    | some parts => .ok parts
    | none => .error .noSlashesAfterRepo

/-- Reads the characters of a label. Without a colon the name is the last segment of the package. -/
def ofChars (cs : List Char) : Except Fault Label := do
  let (repo, rest) ← cutRepo cs
  let body ← match rest with
    | '/' :: '/' :: body => pure body
    | _ => throw .noStart
  let (package, name) := match Text.cutAt ':' body with
    | some parts => parts
    | none => (body, lastSegment body)
  checkRepo repo
  checkPackage package
  checkName name
  pure ⟨String.ofList repo, String.ofList package, String.ofList name⟩

def parse (input : String) : Except ParseError Label :=
  (ofChars input.toList).mapError (fun fault => ⟨input, fault⟩)

def isMainRepo (l : Label) : Bool := l.repo == ""

def text (l : Label) : String :=
  (if l.isMainRepo then "" else "@" ++ l.repo) ++ "//" ++ l.package ++ ":" ++ l.name

instance : ToString Label := ⟨text⟩

def repoDisplayName (l : Label) : String := if l.isMainRepo then mainRepoName else l.repo

def checkLoadable (l : Label) : Except ParseError Unit :=
  if scriptExtension.toList.isSuffixOf l.name.toList then .ok () else .error ⟨l.text, .notScript⟩

def order : Label → Label → Ordering :=
  compareLex (compareOn repo) (compareLex (compareOn package) (compareOn name))

instance : Ord Label := ⟨order⟩

instance : Std.TransOrd Label := inferInstanceAs (Std.TransCmp
  (compareLex (compareOn repo) (compareLex (compareOn package) (compareOn name))))

instance : Std.LawfulEqOrd Label where
  eq_of_compare {a b} h := by
    have h : order a b = .eq := h
    simp only [order, compareLex_eq_eq, compareOn] at h
    obtain ⟨h1, h2, h3⟩ := h
    have h1 := Std.LawfulEqOrd.eq_of_compare h1
    have h2 := Std.LawfulEqOrd.eq_of_compare h2
    have h3 := Std.LawfulEqOrd.eq_of_compare h3
    cases a; cases b; simp_all

def decoder : Decoder Label :=
  Decoder.parsed (fun s => (parse s).mapError ParseError.message)

def toJson (l : Label) : Json := .string l.text

def describe (l : Label) : Json :=
  .object [("text", l.toJson), ("repo", .string l.repo), ("package", .string l.package),
    ("name", .string l.name), ("isMainRepo", .bool l.isMainRepo),
    ("repoDisplayName", .string l.repoDisplayName),
    ("notLoadable", match l.checkLoadable with
      | .ok () => .null
      | .error e => .string e.message)]

end Label

end ExtensionLock
