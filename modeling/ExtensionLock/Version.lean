import ExtensionLock.Json.Decode
import ExtensionLock.Text.Split

/-! Versions of modules. A version is kept as it was written; only its shape is checked. The empty
version belongs to modules whose version an override has dropped. -/

namespace ExtensionLock

structure Version where
  text : String
  deriving DecidableEq, Repr

namespace Version

inductive Fault where
  | emptyRelease
  | emptyIdentifier
  | releaseCharacter
  | prereleaseIdentifier
  | buildIdentifier
  deriving DecidableEq, Repr

def Fault.reason : Fault → String
  | .emptyRelease => "release segment is empty"
  | .emptyIdentifier => "empty release identifier"
  | .releaseCharacter => "release identifiers may only contain letters and digits"
  | .prereleaseIdentifier => "malformed prerelease identifier"
  | .buildIdentifier => "malformed build identifier"

structure ParseError where
  input : String
  fault : Fault
  deriving DecidableEq, Repr

def ParseError.message (e : ParseError) : String :=
  "invalid version '" ++ e.input ++ "': " ++ e.fault.reason

def empty : Version := ⟨""⟩

def isEmpty (v : Version) : Bool := v.text == ""

def isWord (c : Char) : Bool := c.isAlphanum

def checkRelease : List (List Char) → Except Fault Unit
  | [] => .ok ()
  | segment :: rest =>
    if segment.isEmpty then .error .emptyIdentifier
    else if segment.all isWord then checkRelease rest
    else .error .releaseCharacter

def isSuffix (cs : List Char) : Bool :=
  (Text.splitAt '.' cs).all (fun segment =>
    !segment.isEmpty && segment.all (fun c => isWord c || c == '-'))

def check (cs : List Char) : Except Fault Unit := do
  let (rest, build) := match Text.cutAt '+' cs with
    | some (rest, build) => (rest, some build)
    | none => (cs, none)
  let (release, prerelease) := match Text.cutAt '-' rest with
    | some (release, prerelease) => (release, some prerelease)
    | none => (rest, none)
  if release.isEmpty then throw .emptyRelease
  checkRelease (Text.splitAt '.' release)
  if (prerelease.map isSuffix).getD true then pure () else throw .prereleaseIdentifier
  if (build.map isSuffix).getD true then pure () else throw .buildIdentifier

/-- Reads a version; the empty text is the empty version. -/
def parse (input : String) : Except ParseError Version :=
  if input = "" then .ok empty
  else match check input.toList with
    | .ok () => .ok ⟨input⟩
    | .error fault => .error ⟨input, fault⟩

instance : ToString Version := ⟨text⟩

instance : Ord Version := ⟨compareOn text⟩

instance : Std.TransOrd Version := inferInstanceAs (Std.TransCmp (compareOn text))

instance : Std.LawfulEqOrd Version where
  eq_of_compare {a b} h := by
    have : a.text = b.text := Std.LawfulEqOrd.eq_of_compare h
    cases a; cases b; simp_all

def decoder : Decoder Version :=
  Decoder.parsed (fun s => (parse s).mapError ParseError.message)

def toJson (v : Version) : Json := .string v.text

end Version

end ExtensionLock
