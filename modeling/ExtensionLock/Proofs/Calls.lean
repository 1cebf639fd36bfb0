import ExtensionLock.Proofs.Evaluation

/-! The call of an implementation in the course of an evaluation. A run groups the tags, clears the
working directory and then calls the implementation, and how that call ends settles the run. So a
run that gives repositories has them from a call that has returned. -/

namespace ExtensionLock

theorem Attempt.tracking_eq {p : Path} {body : Attempt α} {w w' : World} {r : Except Halt α} :
    (tracking p body).run w = (r, w') ↔
      ∃ w₁, body.run { w with tracked := w.tracked.track p } = (r, w₁) ∧
        w' = { w₁ with tracked := w₁.tracked.release p } := by
  constructor
  · intro ran
    cases ran
    exact ⟨_, rfl, rfl⟩
  · rintro ⟨w₁, ran, rfl⟩
    have whole : (tracking p body).run w = (fun after : Except Halt α × World =>
        (after.1, { after.2 with tracked := after.2.tracked.release p }))
        (body.run { w with tracked := w.tracked.track p }) := rfl
    rw [whole, ran]

namespace Evaluator

variable {v : Evaluator} {engine : Engine} {id : ExtensionId} {a : Approach}
  {extension : Extension} {usages : ExtensionUsages} {location : Location} {c : Context}
  {modules : List ExtensionModule} {files : FileTree} {result : Except Interrupt Return}
  {generated specs : RepoSpecs} {ended : Context.Progress} {w w' start : World}

theorem clear_run (d : WorkingDirectory) (w : World) :
    (clear d).run w = (Attempt.ofExcept (.cleanup d.path) (d.clear w.files).2).run
      { w with files := (d.clear w.files).1 } := rfl

theorem clear_eq_ok {d : WorkingDirectory} :
    (clear d).run w = (.ok (), w') ↔
      ∃ files, d.clear w.files = (files, .ok ()) ∧ w' = { w with files } := by
  rw [clear_run, Attempt.ofExcept_eq_ok]
  constructor
  · rintro ⟨fine, rfl⟩
    exact ⟨_, Prod.ext rfl fine, rfl⟩
  · rintro ⟨files, cleared, rfl⟩
    rw [cleared]
    exact ⟨rfl, rfl⟩

theorem call_run (c : Context) (i : Implementation) (w : World) :
    (call c i).run w = (.ok ((c.call i ⟨w.happen (.called c.id), .empty⟩).1,
      (c.call i ⟨w.happen (.called c.id), .empty⟩).2.generated),
        (c.call i ⟨w.happen (.called c.id), .empty⟩).2.world) := rfl

def context (v : Evaluator) (engine : Engine) (id : ExtensionId) (usages : ExtensionUsages)
    (modules : List ExtensionModule) : Context :=
  ⟨id, modules, v.workingDirectory usages, v.capabilities, engine⟩

def entered (v : Evaluator) (id : ExtensionId) (usages : ExtensionUsages) (files : FileTree)
    (w : World) : World :=
  { w with
    files
    tracked := w.tracked.track (v.workingDirectory usages).path
    events := w.events ++ [.called id] }

def released (v : Evaluator) (usages : ExtensionUsages) (w : World) : World :=
  { w with tracked := w.tracked.release (v.workingDirectory usages).path }

theorem run_of_called {settled : Except Halt RepoSpecs}
    (tagged : usages.modules extension.tagClasses = .ok modules)
    (cleared : (v.workingDirectory usages).clear w.files = (files, .ok ()))
    (called : (v.context engine id usages modules).call extension.implementation
      ⟨v.entered id usages files w, .empty⟩ = (result, ended))
    (judged : (settle (v.context engine id usages modules) usages location ended.generated
      result).run ended.world = (settled, w')) :
    (v.run engine id extension usages location).run w = (settled, v.released usages w') := by
  rw [run, run_bind, Attempt.ofExcept_eq_ok.mpr ⟨tagged, rfl⟩]
  dsimp only
  rw [run_bind, clear_eq_ok.mpr ⟨files, cleared, rfl⟩]
  dsimp only
  refine Attempt.tracking_eq.mpr ⟨w', ?_, rfl⟩
  rw [run_bind, call_run]
  exact (congrArg (fun outcome : Except Interrupt Return × Context.Progress =>
    (settle (v.context engine id usages modules) usages location outcome.2.generated
      outcome.1).run outcome.2.world) called).trans judged

theorem run_of_uncleared {e : IoError}
    (tagged : usages.modules extension.tagClasses = .ok modules)
    (uncleared : (v.workingDirectory usages).clear w.files = (files, .error e)) :
    (v.run engine id extension usages location).run w =
      (.error (.failed (.cleanup (v.workingDirectory usages).path e)), { w with files }) := by
  rw [run, run_bind, Attempt.ofExcept_eq_ok.mpr ⟨tagged, rfl⟩]
  dsimp only
  rw [run_bind, clear_run, uncleared]
  rfl

theorem run_of_unknown {t : Tag} (unknown : usages.modules extension.tagClasses = .error t) :
    (v.run engine id extension usages location).run w =
      (.error (.failed (unknownTag id extension.tagClasses t)), w) := by
  rw [run, unknown]
  rfl

theorem settle_eq_ok (settled : ((settle c usages location generated result).run w).1 =
    .ok specs) : specs = generated ∧ ∃ returned, result = .ok returned := by
  obtain ⟨w', settled⟩ : ∃ w', (settle c usages location generated result).run w =
    (.ok specs, w') := ⟨_, Prod.ext settled rfl⟩
  cases result with
  | ok returned =>
    refine ⟨?_, returned, rfl⟩
    cases returned with
    | none =>
      cases settled
      rfl
    | invalid typeName => cases settled
    | metadata m =>
      rw [settle] at settled
      obtain ⟨found, w₁, -, rest⟩ := bind_eq_ok.mp settled
      cases found <;> cases rest <;> rfl
  | error interrupt => cases interrupt with
    | error e => cases settled
    | panic => cases settled
    | restart =>
      obtain ⟨_, w₁, -, halted⟩ := bind_eq_ok.mp settled
      cases halted

theorem called_of_run
    (ran : (v.run engine id extension usages location).run w = (.ok specs, w')) :
    ∃ modules files returned ended, usages.modules extension.tagClasses = .ok modules ∧
      (v.workingDirectory usages).clear w.files = (files, .ok ()) ∧
      (v.context engine id usages modules).call extension.implementation
        ⟨v.entered id usages files w, .empty⟩ = (.ok returned, ended) ∧
      ended.generated = specs := by
  cases tagged : usages.modules extension.tagClasses with
  | error t =>
    rw [run_of_unknown tagged] at ran
    cases ran
  | ok modules =>
    obtain ⟨files, outcome, cleared⟩ : ∃ files outcome,
      (v.workingDirectory usages).clear w.files = (files, outcome) := ⟨_, _, rfl⟩
    cases outcome with
    | error e =>
      rw [run_of_uncleared tagged cleared] at ran
      cases ran
    | ok _ =>
      rw [run_of_called tagged cleared rfl rfl] at ran
      obtain ⟨same, returned, eq⟩ := settle_eq_ok (Prod.ext_iff.mp ran).1
      exact ⟨modules, files, returned, _, rfl, cleared, Prod.ext eq rfl, same.symm⟩

/-- An evaluation comes to call an implementation, in a context and from a world in which its
working directory has been cleared. -/
inductive Calls (v : Evaluator) (engine : Engine) (id : ExtensionId) (w : World) (a : Approach) :
    Context → World → Prop
  | called (w₁ : World) (record : Bool) (modules : List ExtensionModule) (files : FileTree)
      (approached : (v.approach engine id).run w = (.ok a, w₁))
      (evaluate : a.decision = .evaluate record)
      (tagged : a.usages.modules a.extension.tagClasses = .ok modules)
      (cleared : (v.workingDirectory a.usages).clear w₁.files = (files, .ok ())) :
      Calls v engine id w a ⟨id, modules, v.workingDirectory a.usages, v.capabilities, engine⟩
        (World.happen
          { w₁ with files, tracked := w₁.tracked.track (v.workingDirectory a.usages).path }
          (.called id))

end Evaluator

/-- A call of an implementation that has returned, and what it was made for. -/
structure CompletedRun where
  id : ExtensionId
  script : LoadedScript
  extension : Extension
  usages : ModuleUsages
  context : Context
  start : World
  returned : Return
  ended : Context.Progress
  exported : script.extension? id.name = some extension
  concerns : context.id = id
  announced : start.events.getLast? = some (.called id)
  returns : context.call extension.implementation ⟨start, .empty⟩ = (.ok returned, ended)

namespace CompletedRun

def digest (r : CompletedRun) : Digest := r.script.digest

def specs (r : CompletedRun) : RepoSpecs := r.ended.generated

/-- A run has made an entry, for usages that agree with some others. -/
structure Made (r : CompletedRun) (id : ExtensionId) (entry : LockedExtension)
    (usages : ModuleUsages) : Prop where
  id : r.id = id
  digest : r.digest = entry.digest
  specs : r.specs = entry.specs
  usages : (r.usages == usages) = true

end CompletedRun

namespace Evaluator

variable {v : Evaluator} {e engine : Engine} {l : Lockfile} {id : ExtensionId} {a : Approach}
  {w w₁ w' : World} {evaluation : Evaluation}

/-- An evaluation from some world makes a call that returns, and keeps what it has created. -/
structure Completes (v : Evaluator) (engine : Engine) (id : ExtensionId) (w : World)
    (r : CompletedRun) : Prop where
  extension : r.id = id
  called : ∃ a record files w₁ w₂, (v.approach engine id).run w = (.ok a, w₁) ∧
    a.decision = .evaluate record ∧
    (v.run engine id a.extension a.usages a.location).run w₁ = (.ok r.specs, w₂) ∧
    r.script = a.script ∧ r.extension = a.extension ∧ r.usages = a.usages.usages ∧
    a.usages.modules a.extension.tagClasses = .ok r.context.modules ∧
    r.context = v.context engine id a.usages r.context.modules ∧
    (v.workingDirectory a.usages).clear w₁.files = (files, .ok ()) ∧
    r.start = v.entered id a.usages files w₁

theorem exists_completes {record : Bool} {specs : RepoSpecs}
    (approached : (v.approach engine id).run w = (.ok a, w₁))
    (evaluate : a.decision = .evaluate record)
    (loaded : a.script.extension? id.name = some a.extension)
    (ran : (v.run engine id a.extension a.usages a.location).run w₁ = (.ok specs, w')) :
    ∃ r, v.Completes engine id w r ∧ r.script = a.script ∧ r.usages = a.usages.usages ∧
      r.specs = specs := by
  obtain ⟨modules, files, returned, ended, tagged, cleared, returns, rfl⟩ := called_of_run ran
  have announced : (v.entered id a.usages files w₁).events.getLast? = some (.called id) :=
    List.getLast?_concat
  exact ⟨⟨id, a.script, a.extension, a.usages.usages, _, _, returned, ended, loaded, rfl, announced,
    returns⟩, ⟨rfl, a, record, files, w₁, w', approached, evaluate, ran, rfl, rfl, rfl, tagged, rfl,
    cleared, rfl⟩, rfl, rfl, rfl⟩

/-- How an evaluation settles: its lockfile answers, or a run of the implementation does. -/
inductive Settles (v : Evaluator) (e : Engine) (l : Lockfile) (id : ExtensionId) (w : World) :
    Evaluation → Prop
  | reused (a : Approach) (entry : LockedExtension) (decides : v.Decides e l id w.asked a)
      (reuse : a.decision = .reuse entry) (generates : entry.specs.Generates a.usages.usages) :
      Settles v e l id w ⟨a.value entry.specs, none, true⟩
  | ran (a : Approach) (record : Bool) (r : CompletedRun) (decides : v.Decides e l id w.asked a)
      (evaluate : a.decision = .evaluate record) (generates : r.specs.Generates a.usages.usages)
      (completes : v.Completes (e.withLockfile l) id w r) (script : r.script = a.script)
      (usages : r.usages = a.usages.usages) :
      Settles v e l id w ⟨a.value r.specs,
        if record then some ⟨id, ⟨a.script.digest, r.specs⟩⟩ else none, false⟩

theorem settles (ready : v.evaluate (e.withLockfile l) id w = (.ok (.ready evaluation), w')) :
    v.Settles e l id w evaluation := by
  obtain ⟨a, w₁, approached, concluded⟩ := evaluate_eq_ready.mp ready
  have decides := (approach_eq_ok.mp approached).1
  cases decided : a.decision with
  | reuse entry =>
    obtain ⟨generates, rfl, -⟩ := (conclude_reuse decided).mp concluded
    exact .reused a entry decides decided generates
  | evaluate record =>
    obtain ⟨specs, ran, generates, rfl⟩ := (conclude_evaluate decided).mp concluded
    obtain ⟨r, completes, script, usages, rfl⟩ :=
      exists_completes approached decided decides.extension ran
    exact .ran a record r decides decided generates completes script usages

theorem Decides.answers {asked : List Query} {entry : LockedExtension}
    (decides : v.Decides e l id asked a) (reuse : a.decision = .reuse entry) :
    l.Answers id a.script.digest a.usages.usages entry := by
  have decided := decides.decision
  rw [reuse] at decided
  exact (LockfileMode.decide_eq_reuse_iff.mp decided).2

theorem Decides.records {asked : List Query} {record : Bool} (decides : v.Decides e l id asked a)
    (update : v.mode = .update) (evaluate : a.decision = .evaluate record) : record = true := by
  have decided := decides.decision
  rw [evaluate] at decided
  have on : v.mode ≠ .off := by
    rw [update]
    exact fun h => (by cases h)
  exact (LockfileMode.decide_eq_evaluate on decided).2.1

theorem Settles.specs (settled : v.Settles e l id w evaluation) :
    (evaluation.fromLockfile = true ∧ ∃ entry, l.extensions.get? id = some entry ∧
        evaluation.value.specs = entry.specs) ∨
      (evaluation.fromLockfile = false ∧ ∃ r, v.Completes (e.withLockfile l) id w r ∧
        evaluation.value.specs = r.specs) := by
  cases settled with
  | reused a entry decides reuse generates =>
    exact .inl ⟨rfl, entry, (decides.answers reuse).entry, rfl⟩
  | ran a record r decides evaluate generates completes =>
    exact .inr ⟨rfl, _, completes, rfl⟩

theorem evaluate_of_reuse {entry : LockedExtension} (decides : v.Decides e l id w.asked a)
    (reuse : a.decision = .reuse entry) (generates : entry.specs.Generates a.usages.usages) :
    v.evaluate (e.withLockfile l) id w = (.ok (.ready ⟨a.value entry.specs, none, true⟩),
      { w with asked := w.asked ++ v.questions id }) :=
  evaluate_eq_ready.mpr ⟨a, _, approach_eq_ok.mpr ⟨decides, rfl⟩,
    (conclude_reuse reuse).mpr ⟨generates, rfl, rfl⟩⟩

theorem Settles.resolution {r : Resolution} (settled : v.Settles e l id w evaluation)
    (recorded : evaluation.resolution = some r) : v.mode = .update ∧ r.id = id ∧
      ∃ a, v.Decides e l id w.asked a ∧ evaluation.value = a.value r.entry.specs ∧
        r.entry.digest = a.script.digest ∧ r.entry.specs.Generates a.usages.usages ∧
        (∀ entry, ¬ l.Answers id a.script.digest a.usages.usages entry) ∧
        ∃ run, v.Completes (e.withLockfile l) id w run ∧ run.Made id r.entry a.usages.usages := by
  cases settled with
  | reused => cases recorded
  | ran a record run decides evaluate generates completes script usages =>
    cases record with
    | false => cases recorded
    | true =>
      cases recorded
      have decided := decides.decision
      rw [evaluate] at decided
      have on : v.mode ≠ .off := by
        intro off
        rw [off, LockfileMode.decide_off] at decided
        cases decided
      obtain ⟨update, -, unanswered⟩ := LockfileMode.decide_eq_evaluate on decided
      refine ⟨update, rfl, a, decides, rfl, rfl, generates, unanswered, run, completes, ?_⟩
      exact ⟨completes.extension, congrArg LoadedScript.digest script, rfl, usages ▸ BEq.rfl⟩

theorem Settles.recorded (settled : v.Settles e l id w evaluation) (update : v.mode = .update) :
    (evaluation.fromLockfile = true ∧ evaluation.resolution = none) ∨
      (evaluation.fromLockfile = false ∧ ∃ digest,
        evaluation.resolution = some ⟨id, ⟨digest, evaluation.value.specs⟩⟩) := by
  cases settled with
  | reused => exact .inl ⟨rfl, rfl⟩
  | ran a record r decides evaluate generates completes =>
    cases decides.records update evaluate
    exact .inr ⟨rfl, a.script.digest, rfl⟩

theorem Settles.locked (settled : v.Settles e l id w evaluation) (update : v.mode = .update)
    (unrecorded : evaluation.resolution = none) : ∃ a entry, v.Decides e l id w.asked a ∧
      evaluation.value = a.value entry.specs ∧
      l.Answers id a.script.digest a.usages.usages entry := by
  cases settled with
  | reused a entry decides reuse generates =>
    exact ⟨a, entry, decides, rfl, decides.answers reuse⟩
  | ran a record r decides evaluate generates completes =>
    cases decides.records update evaluate
    cases unrecorded

end Evaluator

end ExtensionLock
