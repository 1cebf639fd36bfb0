import ExtensionLock.Digest
import ExtensionLock.Duration
import ExtensionLock.Extension.Metadata
import ExtensionLock.Extension.Module
import ExtensionLock.Extension.ScriptError
import ExtensionLock.World

/-! Implementations of extensions, as the operations that they ask their context for and what they
make of the answers. -/

namespace ExtensionLock

inductive Operation where
  | createRepo (name : String) (spec : RepoSpec)
  | generated
  | modules
  | rootModule
  | extensionId
  | environment (name : String)
  | timeout (requested : Duration)
  | workingDirectory
  /-- whether there is a working directory at the moment -/
  | workingDirectoryExists
  | path (relative : Path)
  | write (relative : Path) (content : Bytes)
  | read (relative : Path)
  | download (urls : List String) (output : Path)
  | readInput (label : Label)
  | print (message : String)
  | note (value : Json)
  /-- something that others do while the implementation runs; it may be counted -/
  | meanwhile (change : World → World × Nat)

abbrev Operation.Answer : Operation → Type
  | .createRepo .. => Except ScriptError Unit
  | .generated => List String
  | .modules => List ExtensionModule
  | .rootModule => Option ExtensionModule
  | .extensionId => ExtensionId
  | .environment _ => Option String
  | .timeout _ => Option Duration
  | .workingDirectory => Path
  | .workingDirectoryExists => Bool
  | .path _ => Except ScriptError Path
  | .write .. => Except ScriptError Path
  | .read _ => Except ScriptError Bytes
  | .download .. => Except ScriptError Path
  | .readInput _ => Except Interrupt Bytes
  | .print _ => Unit
  | .note _ => Unit
  | .meanwhile _ => Nat

/-- The program panics where there is no answer, as for a time too long to be scaled. -/
def Operation.panics : (op : Operation) → op.Answer → Bool
  | .timeout _, answer => answer.isNone
  | _, _ => false

inductive Return where
  | none
  | metadata (m : Metadata)
  /-- anything else, by the name of its type -/
  | invalid (typeName : String)

/-- An implementation: its end, or an operation and how it goes on for every answer. -/
inductive Implementation where
  | done (result : Except Interrupt Return)
  | step (op : Operation) (next : op.Answer → Implementation)

def Implementation.createRepos (next : Except ScriptError Unit → Implementation) :
    List (String × RepoSpec) → Implementation
  | [] => next (.ok ())
  | (name, spec) :: rest => .step (.createRepo name spec) (fun r => match r with
      | .ok () => createRepos next rest
      | .error e => next (.error e))

structure Extension where
  implementation : Implementation
  tagClasses : SortedSet String

inductive Export where
  | extension (e : Extension)
  | value (typeName : String)

structure LoadedScript where
  label : Label
  exports : SortedMap String Export
  digest : Digest

namespace LoadedScript

def extension? (s : LoadedScript) (name : String) : Option Extension :=
  match s.exports.get? name with
  | some (.extension e) => some e
  | _ => none

def extensionNames (s : LoadedScript) : List String :=
  s.exports.entries.filterMap (fun e => match e.2 with
    | .extension _ => some e.1
    | .value _ => none)

end LoadedScript

end ExtensionLock
