import ExtensionLock.CommandLine.Arguments
import ExtensionLock.Diagnostic
import ExtensionLock.Lockfile.Change
import ExtensionLock.Session

/-! What the commands of the program do to files and print. -/

namespace ExtensionLock.CommandLine

structure Failure where
  message : String
  causes : List String
  deriving DecidableEq, Repr

namespace Failure

def indented (first blanks s : String) : String :=
  first ++ ("\n" ++ blanks).intercalate ((Text.splitAt '\n' s.toList).map String.ofList)

def spaces (n : Nat) : String := String.ofList (List.replicate n ' ')

def causeLines : List String → List String
  | [cause] => [indented (spaces 4) (spaces 4) cause]
  | causes => causes.zipIdx.map (fun (cause, i) =>
      let number := toString i
      indented (spaces (5 - number.length) ++ number ++ ": ") (spaces 7) cause)

def report (f : Failure) : String :=
  "Error: " ++ f.message ++
    (if f.causes.isEmpty then ""
      else "\n\nCaused by:\n" ++ joined "\n" (causeLines f.causes)) ++ "\n"

def ofMessage (message : String) : Failure := ⟨message, []⟩

def ofLockfile (e : LockfileError) : Failure := ⟨e.message, e.cause.toList⟩

def ofConfig (e : ConfigError) : Failure := ⟨e.message, e.cause.toList⟩

end Failure

structure Console where
  files : FileTree
  output : String
  errors : String

/-- A run of a command; what it has done before a failure stays done. -/
abbrev Run := ExceptT Failure (StateM Console)

namespace Run

def fail (message : String) : Run α := throw (.ofMessage message)

def print (line : String) : Run Unit :=
  modify (fun c => { c with output := c.output ++ line ++ "\n" })

def printAll (lines : List String) : Run Unit := lines.forM print

def tell (pretty : Bool) (d : Diagnostic) : Run Unit :=
  modify (fun c => { c with errors := c.errors ++ d.line pretty ++ "\n" })

def ofExcept (wrap : ε → Failure) : Except ε α → Run α
  | .ok a => pure a
  | .error e => throw (wrap e)

def files : Run FileTree := do pure (← get).files

def onFiles (wrap : ε → Failure) (r : FileTree × Except ε α) : Run α := do
  modify (fun c => { c with files := r.1 })
  ofExcept wrap r.2

end Run

def runInit (workspace : Path) : Run Unit := do
  let path := workspace.join ⟨ResolverConfig.fileName⟩
  let files ← Run.files
  if files.exists? path then Run.fail (path.text ++ " already exists")
  else
    let wrap (e : ConfigError) : Failure :=
      ⟨"Failed to write " ++ path.text, e.message :: e.cause.toList⟩
    let files ← Run.ofExcept wrap (ResolverConfig.init files path)
    modify (fun c => { c with files })
    Run.print ("Created " ++ ResolverConfig.fileName)

/-- The configuration file that is read: the one that was named, or that of the workspace if there
is one. -/
def configFile (o : Options) (t : FileTree) : Option (String × Path) :=
  match o.config with
  | some path => some ("config file", ⟨path⟩)
  | none =>
    let path := o.workspacePath.join ⟨ResolverConfig.fileName⟩
    if t.exists? path then some (ResolverConfig.fileName, path) else none

def loadConfig (o : Options) (t : FileTree) : Except Failure ResolverConfig := do
  let config ← match configFile o t with
    | some (what, path) => (ResolverConfig.load t path).mapError (fun e =>
        Failure.ofMessage ("Failed to load " ++ what ++ ": " ++ e.message))
    | none => pure .default
  let mode ← match o.lockfileMode with
    | some text => ((LockfileMode.ofInput text).map some).mapError Failure.ofConfig
    | none => pure none
  let (config, valid) := config.merge ⟨mode, o.lockfile, none, none, none⟩
  valid.mapError Failure.ofConfig
  pure config

def loadLockfile (s : LockfileStore) : Run Lockfile := do
  match ← Run.ofExcept Failure.ofLockfile (s.load (← Run.files)) with
  | some l => pure l
  | none => Run.fail ("No lockfile found at " ++ s.path.text)

def entryLines (id : ExtensionId) (entry : LockedExtension) : List String :=
  (id.text ++ " (digest " ++ entry.digest.short ++ ", " ++ toString entry.specs.size ++
    " repositories)") ::
  entry.specs.entries.map (fun (name, spec) => "    " ++ name ++ " -> " ++ spec.ruleClassName)

def runList (store : LockfileStore) (json : Bool) : Run Unit := do
  let l ← loadLockfile store
  if json then Run.print l.extensions.toJson.pretty
  else if l.extensions.isEmpty then Run.print "No module extensions recorded"
  else Run.printAll (l.extensions.entries.flatMap (fun (id, entry) => entryLines id entry))

def runCheck (config : ResolverConfig) (store : LockfileStore) : Run Unit := do
  if config.options.lockfileMode = .off then Run.print "Lockfile is disabled; nothing to check"
  else
    let l ← loadLockfile store
    let used ← Run.ofExcept Failure.ofLockfile l.usagesById
    let unused := l.unusedExtensions used
    unused.forM (fun id => Run.tell config.options.pretty
      (.warning none ("entry for module extension '" ++ id.text ++ "' is not used by any module")))
    Run.print (store.path.text ++ " is valid: " ++ toString l.extensions.size ++
      " module extensions, " ++ toString unused.length ++ " warnings")

def runDiff (old new : Path) : Run Unit := do
  let old ← loadLockfile ⟨old⟩
  let new ← loadLockfile ⟨new⟩
  let changes ← Run.ofExcept Failure.ofLockfile (old.changes new)
  if changes.isEmpty then Run.print "Lockfiles are equivalent"
  else Run.printAll (changes.map (fun c => "- " ++ c.text))

def runPrune (config : ResolverConfig) (store : LockfileStore) (dryRun : Bool) : Run Unit := do
  if config.options.lockfileMode = .update then
    let l ← loadLockfile store
    let (kept, removed) ← Run.ofExcept Failure.ofLockfile l.prune
    if removed.isEmpty then Run.print "Nothing to prune"
    else
      Run.printAll (removed.map (fun id => "Removed " ++ id.text))
      if dryRun then Run.print ("Dry run: " ++ store.path.text ++ " not modified")
      else Run.onFiles Failure.ofLockfile (store.save (← Run.files) kept)
  else
    Run.fail ("Lockfile mode '" ++ config.options.lockfileMode.text ++
      "' does not allow writing the lockfile")

def runCommand (o : Options) (command : Command) : Run Unit :=
  match command with
  | .init => runInit o.workspacePath
  | command => do
    let config ← Run.ofExcept (fun f => f) (loadConfig o (← Run.files))
    let store := config.store o.workspacePath
    match command with
    | .list json => runList store json
    | .check => runCheck config store
    | .diff old new => runDiff old new
    | .prune dryRun => runPrune config store dryRun
    | .init => pure ()

def configPath (o : Options) : Path :=
  match o.config with
  | some path => ⟨path⟩
  | none => o.workspacePath.join ⟨ResolverConfig.fileName⟩

def lockfilePaths (o : Options) (config : ResolverConfig) : Command → List Path
  | .init => []
  | .diff old new => [old, new]
  | _ => [(config.store o.workspacePath).path]

structure Outcome where
  files : FileTree
  exitCode : Nat
  output : String
  errors : String

def versionText : String := "modlock 0.1.0\n"

def usageText : String :=
  "Usage: modlock [OPTIONS] <COMMAND>\n\n" ++
  "Commands:\n" ++
  "  show [--json]      List the module extensions recorded in the lockfile\n" ++
  "  check              Check the lockfile and the imports of every entry\n" ++
  "  diff <OLD> <NEW>   Explain how NEW differs from OLD\n" ++
  "  prune [--dry-run]  Drop entries for extensions that no module uses\n" ++
  "  init               Write a default configuration file\n\n" ++
  "Options:\n" ++
  "  -c, --config <FILE>         Configuration file\n" ++
  "      --lockfile <FILE>       Lockfile to operate on\n" ++
  "      --lockfile-mode <MODE>  update, error or off\n" ++
  "  -w, --workspace <DIR>       Workspace root\n" ++
  "  -h, --help                  Print help\n" ++
  "  -V, --version               Print version\n"

def UsageError.message : UsageError → String
  | .unknownArgument text => "error: unexpected argument '" ++ text ++ "' found\n"
  | .unexpectedValue name => "error: unexpected value for '--" ++ name ++ "' found\n"
  | .missingValue name =>
    "error: a value is required for '--" ++ name ++ "' but none was supplied\n"
  | .repeated name => "error: the argument '--" ++ name ++ "' cannot be used multiple times\n"
  | .emptyPath name => "error: a value is required for '" ++ name ++ "' but none was supplied\n"
  | .unknownCommand name => "error: unrecognized subcommand '" ++ name ++ "'\n"
  | .missingCommand => usageText
  | .missingPath => "error: the following required arguments were not provided: <OLD> <NEW>\n"

/-- Runs the program: exit code 1 stands for a failure, 2 for arguments that make no sense. -/
def run (args : List String) (t : FileTree) : Outcome :=
  match parse args with
  | .error e => ⟨t, 2, "", e.message⟩
  | .ok .help => ⟨t, 0, usageText, ""⟩
  | .ok .version => ⟨t, 0, versionText, ""⟩
  | .ok (.run o command) =>
    match (runCommand o command).run ⟨t, "", ""⟩ with
    | (.ok (), c) => ⟨c.files, 0, c.output, c.errors⟩
    | (.error f, c) => ⟨c.files, 1, c.output, c.errors ++ f.report⟩

end ExtensionLock.CommandLine
