import ExtensionLock.Config
import ExtensionLock.Extension.Evaluator
import ExtensionLock.Lockfile.Store

/-! A session resolves the extensions of one build: it loads the lockfile once, evaluates any number
of extensions, and writes the lockfile at most once in the end. -/

namespace ExtensionLock

inductive SessionError where
  | extension (id : ExtensionId) (source : ExtensionError)
  | lockfile (source : LockfileError)
  | staleInputs (changes : List InputChange)
  | noProgress (rounds : Nat) (pending : List ExtensionId)
  | cancelled

def SessionError.message : SessionError → String
  | .extension _ source => source.message
  | .lockfile source => source.message
  | .staleInputs changes => staleMessage (changes.map InputChange.text)
  | .noProgress rounds pending =>
    "module extensions still waiting for inputs after " ++ toString rounds ++ " rounds: " ++
      joined ", " (pending.map ExtensionId.text)
  | .cancelled => "resolution was cancelled"

def SessionError.kind : SessionError → String
  | .extension _ source => source.kind
  | .lockfile source => source.kind
  | .staleInputs _ => "StaleModuleInputs"
  | .noProgress .. => "NoProgress"
  | .cancelled => "Cancelled"

def SessionError.report : SessionError → Json
  | .extension id source => source.report [("extension", id.toJson)]
  | .lockfile source => source.report
  | e => .failure e.kind [("message", .string e.message)]

structure Session where
  store : LockfileStore
  /-- the lockfile as it was at the beginning -/
  lockfile : Lockfile
  evaluator : Evaluator
  /-- how many rounds of evaluations there may be; at least one -/
  maxRounds : Nat
  fresh : FreshResults

namespace Session

def withLockfile (store : LockfileStore) (lockfile : Lockfile) (evaluator : Evaluator)
    (maxRestarts : Nat) : Session :=
  ⟨store, lockfile, evaluator, max maxRestarts 1, .empty⟩

def start (store : LockfileStore) (evaluator : Evaluator) (maxRestarts : Nat) (t : FileTree) :
    Except LockfileError Session := do
  let lockfile ← if evaluator.mode = .off then pure Lockfile.empty else store.loadOrEmpty t
  pure (withLockfile store lockfile evaluator maxRestarts)

def mode (s : Session) : LockfileMode := s.evaluator.mode

def checkInputs (s : Session) (current : ResolutionInputs) :
    Except SessionError (List InputChange) :=
  if s.mode = .off then .ok []
  else
    let changes := s.lockfile.inputChanges current
    if s.mode = .error ∧ changes ≠ [] then .error (.staleInputs changes) else .ok changes

def engine (s : Session) (e : Engine) : Engine := e.withLockfile s.lockfile

def accept (s : Session) (e : Evaluation) : Session :=
  match e.resolution with
  | some r => { s with fresh := s.fresh.record r }
  | none => s

def evaluate (s : Session) (e : Engine) (id : ExtensionId) (w : World) :
    Except SessionError (Step ExtensionValue) × Session × World :=
  if w.cancelled then (.error .cancelled, s, w)
  else
    match s.evaluator.evaluate (s.engine e) id w with
    | (.ok (.ready evaluation), w) => (.ok (.ready evaluation.value), s.accept evaluation, w)
    | (.ok .notReady, w) => (.ok .notReady, s, w)
    | (.error source, w) => (.error (.extension id source), s, w)

abbrev Outcomes := List (ExtensionId × Except ExtensionError (Step Evaluation))

/-- Evaluates each of some extensions, also after one has failed. A round may evaluate them at the
same time; one after the other, in the order of their ids, is one such schedule and stands for all
of them. A panic counts as the failure of its extension, though it ends the whole round. -/
def round (s : Session) (e : Engine) : List ExtensionId → World → Outcomes × World
  | [], w => ([], w)
  | id :: rest, w =>
    let (outcome, w) := s.evaluator.evaluate (s.engine e) id w
    let (outcomes, w) := round s e rest w
    ((id, outcome) :: outcomes, w)

def sift : Outcomes → Except SessionError (List (ExtensionId × Evaluation) × List ExtensionId)
  | [] => .ok ([], [])
  | (id, .error source) :: _ => .error (.extension id source)
  | (id, .ok (.ready evaluation)) :: rest =>
    (sift rest).map (fun (ready, waiting) => ((id, evaluation) :: ready, waiting))
  | (id, .ok .notReady) :: rest =>
    (sift rest).map (fun (ready, waiting) => (ready, id :: waiting))

abbrev Values := SortedMap ExtensionId ExtensionValue

/-- Evaluates extensions round after round until none is waiting. A round with an error records
nothing. -/
def rounds (e : Engine) : Nat → Nat → Session → List ExtensionId → Values → World →
    Except SessionError Values × Session × World
  | _, _, s, [], values, w => (.ok values, s, w)
  | left, done, s, pending, values, w =>
    if w.cancelled then (.error .cancelled, s, w)
    else
      match left with
      | 0 => (.error (.noProgress done pending), s, w)
      | left + 1 =>
        let (outcomes, w) := s.round e pending w
        match sift outcomes with
        | .error failure => (.error failure, s, w)
        | .ok (ready, waiting) =>
          let s := ready.foldl (fun s r => s.accept r.2) s
          let values := values.insertAll (ready.map (fun r => (r.1, r.2.value)))
          rounds e left (done + 1) s waiting values w

/-- Evaluates all extensions of a list, in the order of their ids; those that are not ready are
tried again in the next round. -/
def evaluateAll (s : Session) (e : Engine) (ids : List ExtensionId) (w : World) :
    Except SessionError Values × Session × World :=
  rounds e s.maxRounds 0 s (SortedSet.ofList ids).toList .empty w

/-- Writes the lockfile of a finished build, unless the session was cancelled, is not to write, or
has nothing new to write. Gives the lockfile that was written. -/
def finish (s : Session) (inputs : ResolutionInputs) (w : World) :
    Except LockfileError (Option Lockfile) × World :=
  if w.cancelled ∨ s.mode ≠ .update then (.ok none, w)
  else
    match s.fresh.build s.lockfile inputs with
    | .error e => (.error e, w)
    | .ok next =>
      if s.lockfile == next && s.store.exists? w.files then (.ok none, w)
      else
        match s.store.save w.files next with
        | (files, .ok ()) => (.ok (some next), { w with files })
        | (files, .error e) => (.error e, { w with files })

end Session

namespace ResolverConfig

def store (c : ResolverConfig) (root : Path) : LockfileStore := ⟨c.options.lockfilePath root⟩

def evaluator (c : ResolverConfig) (root : Path) (environment : SortedMap String String)
    (download : Downloader) : Evaluator :=
  ⟨c.options.outputBasePath root, c.options.lockfileMode,
    ⟨environment, download, c.options.timeoutScaling⟩⟩

end ResolverConfig

end ExtensionLock
