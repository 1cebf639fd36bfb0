import ExtensionLock.Extension.Context
import ExtensionLock.Extension.Error
import ExtensionLock.Extension.Value
import ExtensionLock.Lockfile.Update
import ExtensionLock.Policy

/-! The evaluation of one extension. The lockfile is asked first; only where its entry does not fit
is the implementation run, in a clean working directory. -/

namespace ExtensionLock

inductive Halt where
  | notReady
  | failed (e : ExtensionError)

/-- An attempt at something. What it has done to the world stays done when it halts. -/
abbrev Attempt := ExceptT Halt (StateM World)

namespace Attempt

def fail (e : ExtensionError) : Attempt α := throw (.failed e)

def ofStep : Step α → Attempt α
  | .ready a => pure a
  | .notReady => throw .notReady

def ofExcept (wrap : ε → ExtensionError) : Except ε α → Attempt α
  | .ok a => pure a
  | .error e => fail (wrap e)

def ask (q : Query) (answer : List Query → α) : Attempt α := do
  let w ← get
  set (w.ask q)
  pure (answer w.asked)

def tracking (p : Path) (body : Attempt α) : Attempt α := ExceptT.mk do
  modify (fun w => { w with tracked := w.tracked.track p })
  let result ← body.run
  modify (fun w => { w with tracked := w.tracked.release p })
  pure result

end Attempt

structure Evaluation where
  value : ExtensionValue
  /-- the fresh result, if it belongs in the lockfile -/
  resolution : Option Resolution
  fromLockfile : Bool
  deriving BEq

def Resolution.toJson (r : Resolution) : Json := .array [.string r.id.text, r.entry.toJson]

def Evaluation.toJson (e : Evaluation) : Json :=
  .object [("value", e.value.toJson), ("fromLockfile", .bool e.fromLockfile),
    ("resolution", match e.resolution with
      | some r => r.toJson
      | none => .null)]

structure Evaluator where
  outputBase : Path
  mode : LockfileMode
  capabilities : Capabilities

namespace Evaluator

def workingDirectory (v : Evaluator) (usages : ExtensionUsages) : WorkingDirectory :=
  .named v.outputBase usages.uniqueName

def askUsages (engine : Engine) (id : ExtensionId) : Attempt ExtensionUsages := do
  Attempt.ofStep (← Attempt.ask (.usages id) (fun asked => engine.usages asked id))

def askScript (engine : Engine) (label : Label) (location : Location) : Attempt LoadedScript := do
  let answer ← Attempt.ask (.script label) (fun asked => engine.script asked label)
  Attempt.ofStep (← Attempt.ofExcept (fun e => .loadFailed label location e.message) answer)

def askLockfile (engine : Engine) : Attempt Lockfile := do
  Attempt.ofStep (← Attempt.ask .lockfile engine.lockfile)

def findExtension (script : LoadedScript) (id : ExtensionId) (location : Location) :
    Except ExtensionError Extension :=
  match script.extension? id.name with
  | some extension => .ok extension
  | none => .error (.missingExport id location (Spelling.didYouMean id.name script.extensionNames))

def policyFailure (id : ExtensionId) : PolicyError → ExtensionError
  | .lockfile source => .lockfile source
  | .stale changes => .staleLockfile id changes

/-- Decides about an extension. Where the lockfile plays no part the engine is not asked for it. -/
def decide (v : Evaluator) (engine : Engine) (id : ExtensionId) (digest : Digest)
    (usages : ModuleUsages) : Attempt CacheDecision :=
  if v.mode = .off then pure (.evaluate false)
  else do
    let lockfile ← askLockfile engine
    Attempt.ofExcept (policyFailure id) (v.mode.decide id digest usages (some lockfile))

def unknownTag (id : ExtensionId) (classes : SortedSet String) (t : Tag) : ExtensionError :=
  .unknownTagClass id t.tagName t.location (Spelling.didYouMean t.tagName classes.toList)

def clear (d : WorkingDirectory) : Attempt Unit := do
  let w ← get
  let (files, result) := d.clear w.files
  set { w with files }
  Attempt.ofExcept (.cleanup d.path) result

def call (context : Context) (implementation : Implementation) :
    Attempt (Except Interrupt Return × RepoSpecs) := do
  let w ← get
  let (result, progress) := context.call implementation ⟨w.happen (.called context.id), .empty⟩
  set progress.world
  pure (result, progress.generated)

/-- What becomes of a call: the repositories stand if it returned nothing or proper metadata. A
call that is to be restarted leaves no working directory. -/
def settle (context : Context) (usages : ExtensionUsages) (location : Location)
    (generated : RepoSpecs) : Except Interrupt Return → Attempt RepoSpecs
  | .ok .none => pure generated
  | .ok (.metadata m) => do
    match ← Attempt.ofExcept (.invalidMetadata usages.extensionId) (m.assess usages generated) with
    | some warning => modify (fun w => w.report warning)
    | none => pure ()
    pure generated
  | .ok (.invalid typeName) => Attempt.fail (.invalidReturn context.id typeName)
  | .error .restart => do
    clear context.directory
    throw .notReady
  | .error (.error e) => do
    modify (fun w => w.report (.error (some location) e.traceback))
    Attempt.fail (.evaluationFailed context.id e)
  | .error .panic => Attempt.fail (.panicked context.id)

def run (v : Evaluator) (engine : Engine) (id : ExtensionId) (extension : Extension)
    (usages : ExtensionUsages) (location : Location) : Attempt RepoSpecs := do
  let modules ← Attempt.ofExcept (unknownTag id extension.tagClasses)
    (usages.modules extension.tagClasses)
  let directory := v.workingDirectory usages
  let context : Context := ⟨id, modules, directory, v.capabilities, engine⟩
  clear directory
  Attempt.tracking directory.path do
    let (result, generated) ← call context extension.implementation
    settle context usages location generated result

def checkUsages (id : ExtensionId) (usages : ExtensionUsages) (specs : RepoSpecs) : Attempt Unit :=
  Attempt.ofExcept .unresolvedImports (checkImports id specs usages.usages.values)

def attempt (v : Evaluator) (engine : Engine) (id : ExtensionId) : Attempt Evaluation := do
  let usages ← askUsages engine id
  let location ← match usages.sampleLocation with
    | some location => pure location
    | none => Attempt.fail (.noUsages id)
  Attempt.ofExcept .invalidLabel id.label.checkLoadable
  let script ← askScript engine id.label location
  let extension ← Attempt.ofExcept (fun e => e) (findExtension script id location)
  match ← v.decide engine id script.digest usages.usages with
  | .reuse entry =>
    checkUsages id usages entry.specs
    pure ⟨.ofSpecs usages.uniqueName entry.specs, none, true⟩
  | .evaluate record =>
    let generated ← v.run engine id extension usages location
    checkUsages id usages generated
    let resolution := if record then some ⟨id, ⟨script.digest, generated⟩⟩ else none
    pure ⟨.ofSpecs usages.uniqueName generated, resolution, false⟩

/-- Evaluates an extension. If something is missing the evaluation can be repeated later. -/
def evaluate (v : Evaluator) (engine : Engine) (id : ExtensionId) (w : World) :
    Except ExtensionError (Step Evaluation) × World :=
  match (v.attempt engine id).run w with
  | (.ok evaluation, w) => (.ok (.ready evaluation), w)
  | (.error .notReady, w) => (.ok .notReady, w)
  | (.error (.failed e), w) => (.error e, w)

end Evaluator

end ExtensionLock
