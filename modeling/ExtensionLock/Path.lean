import ExtensionLock.Text.Split
import ExtensionLock.Text.Utf8

/-! Paths as they are written, and errors of the file system. Joining keeps both texts as they
are; only the components of a path look through repeated slashes and single dots. -/

namespace ExtensionLock

structure Path where
  text : String
  deriving DecidableEq, Repr

inductive IoError where
  | notFound
  | fileExists
  | notADirectory
  | isADirectory
  | notEmpty
  | invalidArgument
  | busy
  | permissionDenied
  | nameTooLong
  | tooManyLinks
  | nulInName
  | notText
  deriving DecidableEq, Repr

def IoError.message : IoError → String
  | .notFound => "No such file or directory (os error 2)"
  | .fileExists => "File exists (os error 17)"
  | .notADirectory => "Not a directory (os error 20)"
  | .isADirectory => "Is a directory (os error 21)"
  | .notEmpty => "Directory not empty (os error 39)"
  | .invalidArgument => "Invalid argument (os error 22)"
  | .busy => "Device or resource busy (os error 16)"
  | .permissionDenied => "Permission denied (os error 13)"
  | .nameTooLong => "File name too long (os error 36)"
  | .tooManyLinks => "Too many levels of symbolic links (os error 40)"
  | .nulInName => "file name contained an unexpected NUL byte"
  | .notText => "stream did not contain valid UTF-8"

namespace Path

inductive Component where
  | root
  | current
  | parent
  | normal (name : String)
  deriving DecidableEq, Repr

def isAbsolute (p : Path) : Bool := p.text.toList.head? == some '/'

def segments (p : Path) : List String :=
  let cs := p.text.toList
  (Text.splitAt '/' (if p.isAbsolute then cs.drop 1 else cs)).map String.ofList

def innerComponents (l : List String) : List Component :=
  l.filterMap (fun s =>
    if s = "" ∨ s = "." then none else if s = ".." then some .parent else some (.normal s))

/-- The components of a path. A dot counts only where a path begins with it. -/
def components (p : Path) : List Component :=
  if p.isAbsolute then .root :: innerComponents p.segments
  else match p.segments with
    | "." :: rest => .current :: innerComponents rest
    | l => innerComponents l

def join (a b : Path) : Path :=
  if b.isAbsolute ∨ a.text = "" then b
  else if a.text.toList.getLast? = some '/' then ⟨a.text ++ b.text⟩
  else ⟨a.text ++ "/" ++ b.text⟩

/-- Takes segments off the end that name no component; the segments come last first, and the very
first one of a relative path may be a dot of its own. -/
def dropSilent (absolute : Bool) : List String → List String
  | [] => []
  | s :: rest =>
    if s = "" ∨ (s = "." ∧ (absolute ∨ rest ≠ [])) then dropSilent absolute rest else s :: rest

def parent? (p : Path) : Option Path :=
  match dropSilent p.isAbsolute p.segments.reverse with
  | [] => none
  | _ :: rest =>
    let kept := (dropSilent p.isAbsolute rest).reverse
    some ⟨(if p.isAbsolute then "/" else "") ++ "/".intercalate kept⟩

def fileName? (p : Path) : Option String :=
  match p.components.getLast? with
  | some (.normal name) => some name
  | _ => none

/-- The part of the file name behind its last dot, unless the name begins with that dot. -/
def extension? (p : Path) : Option String := do
  let name ← p.fileName?
  match (Text.splitAt '.' name.toList).reverse with
  | _ :: [] => none
  | [_, []] => none
  | last :: _ => some (String.ofList last)
  | [] => none

/-- The path with another file name, or with one more component where it has none. -/
def withFileName (p : Path) (name : String) : Path :=
  match p.fileName?, p.parent? with
  | some _, some dir => dir.join ⟨name⟩
  | _, _ => p.join ⟨name⟩

def lastSegment? (p : Path) : Option String := p.segments.reverse.find? (fun s => s != "")

def endsInDirectory (p : Path) : Bool :=
  match p.segments.getLast? with
  | some s => s == "" || s == "." || s == ".."
  | none => false

/-- The path goes from where it starts to a place inside: it is relative and takes no step up. -/
def staysInside (p : Path) : Bool :=
  p.components.all (fun c => match c with
    | .normal _ => true
    | .current => true
    | _ => false)

end Path

end ExtensionLock
