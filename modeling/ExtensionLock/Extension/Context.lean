import ExtensionLock.Extension.Engine

/-! What implementations work with: the operations are carried out here. -/

namespace ExtensionLock

inductive DownloadError where
  | offline (urls : List String)
  | failed (url message : String)
  | io (source : IoError)
  deriving DecidableEq, Repr

def DownloadError.message : DownloadError → String
  | .offline urls => "downloads are disabled; cannot fetch " ++ joined ", " urls
  | .failed url message => "failed to download " ++ url ++ ": " ++ message
  | .io source => "IO error: " ++ source.message

/-- A way to fetch the content behind the first of some addresses that can be reached. -/
abbrev Downloader := List String → Except DownloadError Bytes

def Downloader.offline : Downloader := fun urls => .error (.offline urls)

structure Capabilities where
  environment : SortedMap String String
  download : Downloader
  timeoutScaling : Extended

structure Context where
  id : ExtensionId
  modules : List ExtensionModule
  directory : WorkingDirectory
  capabilities : Capabilities
  engine : Engine

namespace Context

def fail (message : String) : Except ScriptError α := .error (.ofMessage message)

def locate (c : Context) (relative : Path) : Except ScriptError Path :=
  if relative.staysInside then .ok (c.directory.path.join relative)
  else fail ("path '" ++ relative.text ++
    "' must be relative and stay inside the working directory")

def ioFailure (action : String) (p : Path) (e : IoError) : ScriptError :=
  .ofMessage ("failed to " ++ action ++ " " ++ p.text ++ ": " ++ e.message)

def prepareOutput (c : Context) (relative : Path) (t : FileTree) :
    FileTree × Except ScriptError Path :=
  match c.locate relative with
  | .error e => (t, .error e)
  | .ok p =>
    let dir := p.parent?.getD c.directory.path
    match t.createDirectories dir with
    | (t, .ok ()) => (t, .ok p)
    | (t, .error e) => (t, .error (ioFailure "create" dir e))

def put (t : FileTree) (p : Path) (content : Bytes) (failure : IoError → ScriptError) :
    FileTree × Except ScriptError Path :=
  match t.write p content with
  | .ok t => (t, .ok p)
  | .error e => (t, .error (failure e))

def write (c : Context) (relative : Path) (content : Bytes) (t : FileTree) :
    FileTree × Except ScriptError Path :=
  match c.prepareOutput relative t with
  | (t, .error e) => (t, .error e)
  | (t, .ok p) => put t p content (ioFailure "write" p)

def read (c : Context) (relative : Path) (t : FileTree) : Except ScriptError Bytes := do
  let p ← c.locate relative
  (t.read p).mapError (ioFailure "read" p)

/-- Fetches a file; a fault in writing it counts as a fault of the download. -/
def download (c : Context) (urls : List String) (output : Path) (t : FileTree) :
    FileTree × Except ScriptError Path :=
  match c.prepareOutput output t with
  | (t, .error e) => (t, .error e)
  | (t, .ok p) =>
    match c.capabilities.download urls with
    | .error e => (t, .error (.ofMessage e.message))
    | .ok content => put t p content (fun e => .ofMessage (DownloadError.io e).message)

def createRepo (generated : RepoSpecs) (name : String) (spec : RepoSpec) :
    Except ScriptError RepoSpecs :=
  match checkRepoName name with
  | .error e => fail e.message
  | .ok () =>
    if generated.contains name then
      fail ("A repo named " ++ name ++ " is already generated by this module extension")
    else .ok (generated.insert name spec)

/-- Asks the engine for an input; one that is not there yet calls for a restart. -/
def readInput (c : Context) (label : Label) (w : World) : World × Except Interrupt Bytes :=
  (w.ask (.input label), match c.engine.input w.asked label with
    | .ok (.ready content) => .ok content
    | .ok .notReady => .error .restart
    | .error e => .error (.error e))

structure Progress where
  world : World
  generated : RepoSpecs

def onFiles (s : Progress) (r : FileTree × α) : α × Progress :=
  (r.2, { s with world := { s.world with files := r.1 } })

def perform (c : Context) (s : Progress) : (op : Operation) → op.Answer × Progress
  | .createRepo name spec =>
    match createRepo s.generated name spec with
    | .ok generated => (.ok (), { s with generated })
    | .error e => (.error e, s)
  | .generated => (s.generated.keys, s)
  | .modules => (c.modules, s)
  | .rootModule => (c.modules.find? ExtensionModule.isRoot, s)
  | .extensionId => (c.id, s)
  | .environment name => (c.capabilities.environment.get? name, s)
  | .timeout requested => (requested.scaled c.capabilities.timeoutScaling, s)
  | .workingDirectory => (c.directory.path, s)
  | .workingDirectoryExists => (c.directory.exists? s.world.files, s)
  | .path relative => (c.locate relative, s)
  | .write relative content => onFiles s (c.write relative content s.world.files)
  | .read relative => (c.read relative s.world.files, s)
  | .download urls output => onFiles s (c.download urls output s.world.files)
  | .readInput label =>
    let (world, answer) := c.readInput label s.world
    (answer, { s with world })
  | .print message =>
    ((), { s with world := s.world.report (.info none (c.id.name ++ ": " ++ message)) })
  | .note value => ((), { s with world := s.world.happen (.noted value) })
  | .meanwhile change =>
    let (world, n) := change s.world
    (n, { s with world })

/-- Carries an implementation out to its end, or up to a panic, which nothing can catch. -/
def call (c : Context) : Implementation → Progress → Except Interrupt Return × Progress
  | .done result, s => (result, s)
  | .step op next, s =>
    let (answer, s) := c.perform s op
    if op.panics answer then (.error .panic, s) else call c (next answer) s

theorem call_step {c : Context} {s : Progress} (op : Operation)
    (next : op.Answer → Implementation) :
    c.call (.step op next) s = if op.panics (c.perform s op).1 then
      (.error .panic, (c.perform s op).2) else
        c.call (next (c.perform s op).1) (c.perform s op).2 := rfl

end Context

end ExtensionLock
