import ExtensionLock.Path
import ExtensionLock.Place
import ExtensionLock.SortedMap

/-! A file system without links, in which nothing is refused: files and directories at their
places. -/

namespace ExtensionLock

inductive Entry where
  | file (content : Bytes)
  | directory
  deriving DecidableEq

/-- All files and directories, but for the current directory, those above it and the root, which
always exist. -/
structure FileTree where
  entries : SortedMap Place Entry
  deriving DecidableEq

namespace FileTree

def empty : FileTree := ⟨.empty⟩

def entry? (t : FileTree) (place : Place) : Option Entry :=
  if place.isFixed then some .directory else t.entries.get? place

def longestName : Nat := 255

def longestPath : Nat := 4095

/-- Follows components from a place. Every place that is left must be a directory. -/
def walk (t : FileTree) : Place → List Path.Component → Except IoError Place
  | place, [] => .ok place
  | _, .root :: rest => walk t .root rest
  | place, .current :: rest => walk t place rest
  | place, step :: rest =>
    match t.entry? place with
    | none => .error .notFound
    | some (.file _) => .error .notADirectory
    | some .directory =>
      match step with
      | .normal name =>
        if longestName < (Text.bytes name).length then .error .nameTooLong
        else walk t (place.enter name) rest
      | _ => walk t place.above rest

def refusal? (p : Path) : Option IoError :=
  if '\x00' ∈ p.text.toList then some .nulInName
  else if longestPath < p.text.utf8ByteSize then some .nameTooLong
  else none

/-- The place that a path names; whether anything is there is another question. -/
def resolve (t : FileTree) (p : Path) : Except IoError Place :=
  match refusal? p with
  | some e => .error e
  | none => if p.text = "" then .error .notFound else t.walk .here p.components

def stat (t : FileTree) (p : Path) : Except IoError Entry := do
  match t.entry? (← t.resolve p) with
  | none => .error .notFound
  | some .directory => .ok .directory
  | some (.file content) =>
    if p.endsInDirectory then .error .notADirectory else .ok (.file content)

def exists? (t : FileTree) (p : Path) : Bool := (t.stat p).isOk

def isFile (t : FileTree) (p : Path) : Bool :=
  match t.stat p with
  | .ok (.file _) => true
  | _ => false

def isDirectory (t : FileTree) (p : Path) : Bool :=
  match t.stat p with
  | .ok .directory => true
  | _ => false

def read (t : FileTree) (p : Path) : Except IoError Bytes := do
  match ← t.stat p with
  | .file content => .ok content
  | .directory => .error .isADirectory

def readText (t : FileTree) (p : Path) : Except IoError String := do
  match Text.ofBytes? (← t.read p) with
  | some s => .ok s
  | none => .error .notText

def write (t : FileTree) (p : Path) (content : Bytes) : Except IoError FileTree := do
  let place ← t.resolve p
  if p.endsInDirectory then .error .isADirectory
  else match t.entry? place with
    | some .directory => .error .isADirectory
    | _ => .ok ⟨t.entries.insert place (.file content)⟩

/-- Makes the directories on a way, as far as they are missing. What was made before a failure
stays. -/
def makeDirectories (t : FileTree) : Place → List Path.Component → FileTree × Except IoError Unit
  | _, [] => (t, .ok ())
  | _, .root :: rest => makeDirectories t .root rest
  | place, .current :: rest => makeDirectories t place rest
  | place, .parent :: rest => makeDirectories t place.above rest
  | place, .normal name :: rest =>
    let next := place.enter name
    if longestName < (Text.bytes name).length then (t, .error .nameTooLong)
    else match t.entry? next with
      | some .directory => makeDirectories t next rest
      | some (.file _) => (t, .error (if rest.isEmpty then .fileExists else .notADirectory))
      | none => makeDirectories ⟨t.entries.insert next .directory⟩ next rest

/-- Makes a directory and all that are missing above it. A dot at the end of a path stands for a
directory that is there already: what is missing above that one is made, but not the directory. -/
def createDirectories (t : FileTree) (p : Path) : FileTree × Except IoError Unit :=
  match refusal? p with
  | some e => (t, .error e)
  | none =>
    if p.lastSegment? = some "." ∧ !t.isDirectory p then
      match t.makeDirectories .here (p.parent?.getD ⟨""⟩).components with
      | (t, .ok ()) => (t, (t.stat p).map (fun _ => ()))
      | (t, .error e) => (t, .error e)
    else t.makeDirectories .here p.components

def cutOff (t : FileTree) (place : Place) : FileTree :=
  ⟨t.entries.filter (fun k _ => !place.leadsTo k)⟩

def emptied (t : FileTree) (place : Place) : FileTree :=
  ⟨t.entries.filter (fun k _ => k == place || !place.leadsTo k)⟩

def removeEmptied (t : FileTree) (p : Path) : Except IoError FileTree := do
  let place ← t.resolve p
  match ← t.stat p with
  | .file _ => .error .notADirectory
  | .directory =>
    if p.lastSegment? = some "." then .error .invalidArgument
    else if p.lastSegment? = some ".." then .error .notEmpty
    else if place.isFixed then .error .busy
    else .ok (t.cutOff place)

/-- Removes a directory with all that is in it, from the inside out. The directory itself stays
where its path does not end in its name, and that is a fault unless the path has lost its way with
the removal of what was inside. -/
def removeDirectory (t : FileTree) (p : Path) : FileTree × Except IoError Unit :=
  match t.stat p, t.resolve p with
  | .ok .directory, .ok place =>
    let t := t.emptied place
    match t.removeEmptied p with
    | .ok t => (t, .ok ())
    | .error .notFound => (t, .ok ())
    | .error e => (t, .error e)
  | .ok (.file _), _ => (t, .error .notADirectory)
  | .error e, _ => (t, .error e)
  | _, .error e => (t, .error e)

def removeFile (t : FileTree) (p : Path) : Except IoError FileTree := do
  let place ← t.resolve p
  match t.entry? place with
  | none => .error .notFound
  | some .directory => .error .isADirectory
  | some (.file _) =>
    if p.endsInDirectory then .error .notADirectory else .ok (t.cutOff place)

def rename (t : FileTree) (source target : Path) : Except IoError FileTree := do
  let content ← t.read source
  let origin ← t.resolve source
  let place ← t.resolve target
  match t.entry? place with
  | some .directory => .error .isADirectory
  | _ =>
    if target.endsInDirectory then .error .notADirectory
    else .ok ⟨(t.cutOff origin).entries.insert place (.file content)⟩

/-- The paths below a directory in the order of their texts: files with their content, and
directories with a slash at the end. -/
def listing (t : FileTree) (p : Path) : List (String × Option Bytes) :=
  match t.resolve p with
  | .error _ => []
  | .ok place =>
    let inside (q : Place) : Bool :=
      place.leadsTo q && (place.namesTo q).head?.any (fun n => n != ".." && n != "/")
    let below := t.entries.entries.filter (fun e => inside e.1)
    let named := below.map (fun e =>
      let name := "/".intercalate (place.namesTo e.1)
      match e.2 with
      | .file content => (name, some content)
      | .directory => (name ++ "/", none))
    (SortedMap.ofList named).entries

end FileTree

end ExtensionLock
