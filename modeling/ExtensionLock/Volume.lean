import ExtensionLock.FileSystem

/-! A file system as machines have it. Names may be links, a file may have more than one name, and
calls may be refused for reasons of their own, such as a want of permission or of space. Without
links and refusals it is a file tree. -/

namespace ExtensionLock

inductive Item where
  | file (content : Bytes)
  /-- one name of a file among others, and the number of the file -/
  | shared (number : Nat)
  | directory
  | link (target : Path)
  deriving DecidableEq

def Item.ofEntry : Entry → Item
  | .file content => .file content
  | .directory => .directory

inductive Access where
  | search (directory : Place)
  | create (directory : Place)
  | write (file : Place)
  | move (source target : Place)
  | remove (file : Place)
  deriving DecidableEq

structure Volume where
  items : SortedMap Place Item
  /-- the current directory -/
  start : Place
  /-- the contents of the files that have several names -/
  contents : SortedMap Nat Bytes
  refuses : Access → Option IoError
  /-- how much can be written to a file, and what is in the way of more -/
  room : Place → Option (Nat × IoError)

namespace Volume

def item? (v : Volume) (place : Place) : Option Item :=
  if place.isFixed then some .directory else v.items.get? place

def search (v : Volume) (place : Place) : Except IoError Unit :=
  match v.item? place with
  | none => .error .notFound
  | some .directory =>
    match v.refuses (.search place) with
    | some e => .error e
    | none => .ok ()
  | some _ => .error .notADirectory

def enter (v : Volume) (place : Place) (name : String) : Except IoError Place :=
  match v.search place with
  | .error e => .error e
  | .ok () =>
    if FileTree.longestName < (Text.bytes name).length then .error .nameTooLong
    else .ok (place.enter name)

/-- Follows components up to a link, and goes on with what that stands for. -/
def walkUpTo (v : Volume) (through : Place → List Path.Component → Except IoError (Place × Nat))
    (left : Nat) : Place → List Path.Component → Except IoError (Place × Nat)
  | place, [] => .ok (place, left)
  | _, .root :: rest => walkUpTo v through left .root rest
  | place, .current :: rest => walkUpTo v through left place rest
  | place, .parent :: rest =>
    match v.search place with
    | .error e => .error e
    | .ok () => walkUpTo v through left place.above rest
  | place, .normal name :: rest =>
    match v.enter place name with
    | .error e => .error e
    | .ok next =>
      match v.item? next with
      | some (.link target) => through place (target.components ++ rest)
      | _ => walkUpTo v through left next rest

/-- Follows components through at most so many links, and says how many are left then. -/
def walk (v : Volume) : Nat → Place → List Path.Component → Except IoError (Place × Nat)
  | 0 => v.walkUpTo (fun _ _ => .error .tooManyLinks) 0
  | n + 1 => v.walkUpTo (v.walk n) (n + 1)

def linkLimit : Nat := 40

def taking (p : Path) (r : Except IoError α) : Except IoError α :=
  match FileTree.refusal? p with
  | some e => .error e
  | none => if p.text = "" then .error .notFound else r

/-- The place that a path leads to, through a link at its end as well. -/
def resolve (v : Volume) (p : Path) : Except IoError Place :=
  taking p ((v.walk linkLimit v.start p.components).map Prod.fst)

/-- The place of the name that a path ends in. -/
def locate (v : Volume) (p : Path) : Except IoError Place :=
  taking p (match p.components.getLast? with
    | some (.normal name) =>
      match v.walk linkLimit v.start p.components.dropLast with
      | .error e => .error e
      | .ok (place, _) => v.enter place name
    | _ => (v.walk linkLimit v.start p.components).map Prod.fst)

def show? (v : Volume) (p : Path) : Item → Except IoError Entry
  | .directory => .ok .directory
  | .link _ => .error .tooManyLinks
  | .file content => if p.endsInDirectory then .error .notADirectory else .ok (.file content)
  | .shared number => if p.endsInDirectory then .error .notADirectory
    else .ok (.file (v.contents.getD number []))

def stat (v : Volume) (p : Path) : Except IoError Entry :=
  match v.resolve p with
  | .error e => .error e
  | .ok place =>
    match v.item? place with
    | none => .error .notFound
    | some item => v.show? p item

def isDirectory (v : Volume) (p : Path) : Bool :=
  match v.stat p with
  | .ok .directory => true
  | _ => false

def put (v : Volume) (place : Place) (item : Item) : Volume :=
  { v with items := v.items.insert place item }

def holding (items : List (Place × Item)) (refuses : Access → Option IoError) : Volume :=
  items.foldl (fun v e => v.put e.1 e.2) ⟨.empty, .here, .empty, refuses, fun _ => none⟩

def without (v : Volume) (place : Place) : Volume :=
  { v with items := v.items.filter (fun k _ => k != place) }

/-- Gives a file its content, under all of its names. -/
def fill (v : Volume) (place : Place) (content : Bytes) : Volume :=
  match v.item? place with
  | some (.shared number) => { v with contents := v.contents.insert number content }
  | _ => v.put place (.file content)

def write (v : Volume) (p : Path) (content : Bytes) : Volume × Except IoError Unit :=
  match v.resolve p with
  | .error e => (v, .error e)
  | .ok place =>
    if p.endsInDirectory then (v, .error .isADirectory)
    else if v.item? place = some .directory then (v, .error .isADirectory)
    else match v.refuses (.write place) with
      | some e => (v, .error e)
      | none => match v.room place with
        | none => (v.fill place content, .ok ())
        | some (room, e) =>
          if content.length ≤ room then (v.fill place content, .ok ())
          else (v.fill place (content.take room), .error e)

def makeDirectories (v : Volume) (left : Nat) : Place → List Path.Component →
    Volume × Except IoError Unit
  | _, [] => (v, .ok ())
  | _, .root :: rest => makeDirectories v left .root rest
  | place, .current :: rest => makeDirectories v left place rest
  | place, .parent :: rest =>
    match v.search place with
    | .error e => (v, .error e)
    | .ok () => makeDirectories v left place.above rest
  | place, .normal name :: rest =>
    match v.enter place name with
    | .error e => (v, .error e)
    | .ok next =>
      match v.item? next with
      | none =>
        match v.refuses (.create next) with
        | some e => (v, .error e)
        | none => makeDirectories (v.put next .directory) left next rest
      | some _ =>
        match v.walk left place [.normal name] with
        | .error e => (v, .error (if e = .notFound ∨ rest.isEmpty then .fileExists else e))
        | .ok (there, left) =>
          match v.item? there with
          | some .directory => makeDirectories v left there rest
          | some _ => (v, .error (if rest.isEmpty then .fileExists else .notADirectory))
          | none => (v, .error .fileExists)

def createDirectories (v : Volume) (p : Path) : Volume × Except IoError Unit :=
  match FileTree.refusal? p with
  | some e => (v, .error e)
  | none =>
    if p.lastSegment? = some "." ∧ !v.isDirectory p then
      match v.makeDirectories linkLimit v.start (p.parent?.getD ⟨""⟩).components with
      | (v, .ok ()) => (v, (v.stat p).map (fun _ => ()))
      | (v, .error e) => (v, .error e)
    else v.makeDirectories linkLimit v.start p.components

/-- Gives a file or a link another name, in place of a file or link of that name. Two names of one
file stay as they are. -/
def rename (v : Volume) (source target : Path) : Volume × Except IoError Unit :=
  match v.locate source, v.locate target with
  | .error e, _ => (v, .error e)
  | _, .error e => (v, .error e)
  | .ok origin, .ok place =>
    match v.item? origin with
    | none => (v, .error .notFound)
    | some .directory => (v, .error .isADirectory)
    | some item =>
      if v.item? place = some .directory then (v, .error .isADirectory)
      else if source.endsInDirectory || target.endsInDirectory then (v, .error .notADirectory)
      else match v.refuses (.move origin place) with
        | some e => (v, .error e)
        | none => match item with
          | .shared number =>
            if v.item? place = some (.shared number) then (v, .ok ())
            else ((v.without origin).put place item, .ok ())
          | item => ((v.without origin).put place item, .ok ())

def removeFile (v : Volume) (p : Path) : Volume × Except IoError Unit :=
  match v.locate p with
  | .error e => (v, .error e)
  | .ok place =>
    match v.item? place with
    | none => (v, .error .notFound)
    | some .directory => (v, .error .isADirectory)
    | some _ =>
      if p.endsInDirectory then (v, .error .notADirectory)
      else match v.refuses (.remove place) with
        | some e => (v, .error e)
        | none => (v.without place, .ok ())

instance : FileSystem Volume := ⟨createDirectories, write, rename, removeFile⟩

def ofTree (t : FileTree) : Volume where
  items := t.entries.mapValues (fun _ => Item.ofEntry)
  start := .here
  contents := .empty
  refuses _ := none
  room _ := none

end Volume

end ExtensionLock
