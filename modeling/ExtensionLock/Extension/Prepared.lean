import ExtensionLock.Extension.Context

/-! Engines and downloaders whose answers are laid down in advance. -/

namespace ExtensionLock

/-- An answer that is held back for the first few times that it is asked for. -/
structure Delayed (α : Type) where
  misses : Nat
  answer : α

structure PreparedAnswers where
  usages : ExtensionId → Option (Delayed ExtensionUsages)
  scripts : SortedMap Label (Delayed (Except ScriptError LoadedScript))
  inputs : SortedMap Label (Delayed (Except ScriptError Bytes))
  lockfile : Option Lockfile

namespace PreparedAnswers

def empty : PreparedAnswers := ⟨fun _ => none, .empty, .empty, none⟩

def reveal (asked : List Query) (q : Query) (d : Delayed α) : Step α :=
  if asked.count q < d.misses then .notReady else .ready d.answer

def revealAttempt (asked : List Query) (q : Query) (d : Delayed (Except ScriptError α)) :
    Except ScriptError (Step α) :=
  match reveal asked q d with
  | .notReady => .ok .notReady
  | .ready answer => answer.map .ready

/-- The engine with these answers. Unknown scripts do not exist; everything else that is unknown
is never ready. -/
def engine (p : PreparedAnswers) : Engine where
  usages asked id :=
    match p.usages id with
    | some d => reveal asked (.usages id) d
    | none => .notReady
  script asked label :=
    match p.scripts.get? label with
    | some d => revealAttempt asked (.script label) d
    | none => .error (.ofMessage ("cannot load '" ++ label.text ++ "': no such file"))
  lockfile _ :=
    match p.lockfile with
    | some l => .ready l
    | none => .notReady
  input asked label :=
    match p.inputs.get? label with
    | some d => revealAttempt asked (.input label) d
    | none => .ok .notReady

end PreparedAnswers

inductive Remote where
  | content (b : Bytes)
  | failing (message : String)
  | broken (source : IoError)

namespace Remote

def record : Record [Option String, Bool] :=
  .optional "fail" (.option .string) none <| .optional "io" .bool false .nil

def decoder : Decoder Remote
  | _, .string (some s) => .ok (.content (Text.bytes s))
  | o, v => do
    let (failure, _, ()) ← record.decode o v
    match failure with
    | some message => .ok (.failing message)
    | none => .ok (.broken .notFound)

end Remote

namespace Downloader

def tryEach (remotes : SortedMap String Remote) (urls : List String) :
    Option DownloadError → List String → Except DownloadError Bytes
  | last, [] => .error (last.getD (.offline urls))
  | _, url :: rest =>
    match remotes.get? url with
    | some (.content b) => .ok b
    | some (.broken source) => .error (.io source)
    | some (.failing message) => tryEach remotes urls (some (.failed url message)) rest
    | none => tryEach remotes urls (some (.failed url "unknown url")) rest

def ofRemotes (remotes : SortedMap String Remote) : Downloader := fun urls =>
  tryEach remotes urls none urls

end Downloader

end ExtensionLock
