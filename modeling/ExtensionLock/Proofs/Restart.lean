import ExtensionLock.Proofs.Files
import ExtensionLock.Proofs.Finish
import ExtensionLock.Proofs.Reuse

/-! Evaluations that have to be repeated. An implementation that misses an input has acted already:
its working directory is removed again and what it has created is forgotten, but messages are out as
soon as they are printed, and nothing takes them back. -/

namespace ExtensionLock

/-- An operation that goes through the context; others may cancel the session meanwhile. -/
def Operation.Confined : Operation → Prop
  | .meanwhile change => change = World.cancel
  | _ => True

def Implementation.Confined : Implementation → Prop
  | .done _ => True
  | .step op next => op.Confined ∧ ∀ answer, (next answer).Confined

def Engine.Confined (e : Engine) : Prop :=
  ∀ asked label script name extension, e.script asked label = .ok (.ready script) →
    script.extension? name = some extension → extension.implementation.Confined

namespace Context

variable {c : Context} {s : Progress}

def messages (c : Context) : Operation → List Diagnostic
  | .print message => [.info none (c.id.name ++ ": " ++ message)]
  | _ => []

def printed (c : Context) : Implementation → Progress → List Diagnostic
  | .done _, _ => []
  | .step op next, s => c.messages op ++
    if op.panics (c.perform s op).1 then [] else printed c (next (c.perform s op).1)
      (c.perform s op).2

theorem perform_diagnostics {op : Operation} (confined : op.Confined) :
    (c.perform s op).2.world.diagnostics = s.world.diagnostics ++ c.messages op := by
  cases op with
  | print message => rfl
  | createRepo name spec =>
    simp only [perform, messages, List.append_nil]
    split <;> rfl
  | meanwhile change =>
    cases confined
    exact (List.append_nil _).symm
  | _ => exact (List.append_nil _).symm

theorem call_diagnostics {i : Implementation} (confined : i.Confined) :
    (c.call i s).2.world.diagnostics = s.world.diagnostics ++ c.printed i s := by
  induction i generalizing s with
  | done result => exact (List.append_nil _).symm
  | step op next ih =>
    rw [call_step, printed]
    split
    · rw [List.append_nil]
      exact perform_diagnostics confined.1
    · rw [ih _ (confined.2 _), perform_diagnostics confined.1, List.append_assoc]

end Context

theorem Attempt.ofExcept_ne_notReady {wrap : ε → ExtensionError} {r : Except ε α} {w w' : World} :
    (ofExcept wrap r).run w ≠ (.error .notReady, w') := by
  cases r with
  | ok x => exact fun h => (by cases h)
  | error e => exact fun h => (by cases h)

theorem TrackedDirectories.release_apart {d : TrackedDirectories} {p q : Path}
    (member : q ∈ (d.release p).paths) : samePlace p q = false := by
  have apart := (List.mem_filter.mp member).2
  rwa [Bool.not_eq_true'] at apart

namespace Evaluator

variable {v : Evaluator} {engine : Engine} {id : ExtensionId} {a : Approach} {w w' : World}

theorem clear_ne_notReady {d : WorkingDirectory} : (clear d).run w ≠ (.error .notReady, w') :=
  Attempt.ofExcept_ne_notReady

theorem settle_eq_notReady {c : Context} {usages : ExtensionUsages} {location : Location}
    {generated : RepoSpecs} {result : Except Interrupt Return}
    (waiting : (settle c usages location generated result).run w = (.error .notReady, w')) :
    result = .error .restart ∧ (clear c.directory).run w = (.ok (), w') := by
  cases result with
  | ok returned => cases returned with
    | none => cases waiting
    | invalid typeName => cases waiting
    | metadata m =>
      rw [settle] at waiting
      rcases bind_eq_error.mp waiting with failed | ⟨found, w₁, -, rest⟩
      · exact absurd failed Attempt.ofExcept_ne_notReady
      · cases found <;> cases rest
  | error interrupt => cases interrupt with
    | error e => cases waiting
    | panic => cases waiting
    | restart =>
      rw [settle] at waiting
      rcases bind_eq_error.mp waiting with failed | ⟨_, w₁, cleared, halted⟩
      · exact absurd failed clear_ne_notReady
      · cases halted
        exact ⟨rfl, cleared⟩

/-- A call of an implementation in the course of an evaluation, which is to be restarted. -/
structure Interrupted (v : Evaluator) (engine : Engine) (id : ExtensionId) (w w' : World)
    (c : Context) (i : Implementation) (start : World) : Prop where
  implementation : ∃ asked script extension, engine.script asked id.label = .ok (.ready script) ∧
    script.extension? id.name = some extension ∧ extension.implementation = i
  directory : ∃ asked usages, engine.usages asked id = .ready usages ∧
    c.directory = v.workingDirectory usages
  called : start.events = w.events ++ [.called id]
  interrupted : (c.call i ⟨start, .empty⟩).1 = .error .restart
  diagnostics : w'.diagnostics = w.diagnostics ++ c.printed i ⟨start, .empty⟩
  removed : c.directory.exists? w'.files = false
  untracked : ∀ p ∈ w'.tracked.paths, TrackedDirectories.samePlace c.directory.path p = false

theorem run_interrupted {asked : List Query} (finds : Finds engine id asked a)
    (confined : engine.Confined)
    (waiting : (v.run engine id a.extension a.usages a.location).run w = (.error .notReady, w')) :
    ∃ c i start, v.Interrupted engine id w w' c i start := by
  rw [run] at waiting
  rcases bind_eq_error.mp waiting with failed | ⟨modules, w₁, tagged, working⟩
  · exact absurd failed Attempt.ofExcept_ne_notReady
  clear waiting
  obtain ⟨-, rfl⟩ := Attempt.ofExcept_eq_ok.mp tagged
  rcases bind_eq_error.mp working with failed | ⟨_, w₂, cleared, tracked⟩
  · exact absurd failed clear_ne_notReady
  clear working
  obtain ⟨files, -, rfl⟩ := clear_eq_ok.mp cleared
  obtain ⟨w₃, called, rfl⟩ := Attempt.tracking_eq.mp tracked
  clear tracked
  rw [run_bind, call_run] at called
  obtain ⟨interrupted, removed⟩ := settle_eq_notReady called
  obtain ⟨files', gone, rfl⟩ := clear_eq_ok.mp removed
  have through := confined _ _ _ _ _ finds.script finds.extension
  refine ⟨_, a.extension.implementation, _,
    ⟨_, _, _, finds.script, finds.extension, rfl⟩, ⟨_, _, finds.usages, rfl⟩, rfl, interrupted,
    Context.call_diagnostics through, WorkingDirectory.exists?_of_clear gone,
    fun p member => TrackedDirectories.release_apart member⟩

/-- An implementation is called last, after all that an evaluation asks for. -/
theorem interrupted_of_notReady (confined : engine.Confined)
    (waiting : v.evaluate engine id w = (.ok .notReady, w')) :
    (∃ asked, w' = { w with asked }) ∨ ∃ c i start, v.Interrupted engine id w w' c i start := by
  rw [evaluate_eq_notReady, attempt_eq] at waiting
  have quiet := (asks_approach v engine id).quiet w
  rcases bind_eq_error.mp waiting with halted | ⟨a, w₁, approached, halted⟩
  · rw [halted] at quiet
    exact .inl quiet
  · rw [approached] at quiet
    obtain ⟨asked, rfl⟩ := quiet
    obtain ⟨finds, -⟩ := approach_eq_decide.mp approached
    cases decided : a.decision with
    | reuse entry =>
      simp only [conclude, decided] at halted
      rcases bind_eq_error.mp halted with failed | ⟨_, w₂, -, done⟩
      · exact absurd failed Attempt.ofExcept_ne_notReady
      · cases done
    | evaluate record =>
      simp only [conclude, decided] at halted
      rcases bind_eq_error.mp halted with waits | ⟨specs, w₂, -, checked⟩
      · obtain ⟨c, i, start, call⟩ := run_interrupted finds confined waits
        exact .inr ⟨c, i, start, call.implementation, call.directory, call.called,
          call.interrupted, call.diagnostics, call.removed, call.untracked⟩
      · rcases bind_eq_error.mp checked with failed | ⟨_, w₃, -, done⟩
        · exact absurd failed Attempt.ofExcept_ne_notReady
        · cases done

/-- An evaluation that is not ready records nothing. If it got as far as calling the implementation
the working directory is gone, and what shows of the call is what it has printed. -/
theorem evaluate_notReady (confined : engine.Confined)
    (waiting : v.evaluate engine id w = (.ok .notReady, w')) :
    (∀ (s : Session) (e : Engine), s.evaluator = v → s.engine e = engine → w.cancelled = false →
      s.evaluate e id w = (.ok .notReady, s, w')) ∧
    ((∃ asked, w' = { w with asked }) ∨
      ∃ c i start, v.Interrupted engine id w w' c i start ∧
        (w'.diagnostics = w.diagnostics ↔ c.printed i ⟨start, .empty⟩ = [])) := by
  constructor
  · rintro s e rfl rfl going
    rw [Session.evaluate, if_neg (Bool.eq_false_iff.mp going), waiting]
  · rcases interrupted_of_notReady confined waiting with quiet | ⟨c, i, start, call⟩
    · exact .inl quiet
    · refine .inr ⟨c, i, start, call, ?_⟩
      rw [call.diagnostics, List.append_right_eq_self]

end Evaluator

section PrintedBefore

theorem soleEngine_confined {g : DepGraph} {implementation : Implementation}
    (confined : implementation.Confined) : (soleEngine g implementation).Confined := by
  intro asked label script name extension loaded found
  cases loaded
  rw [LoadedScript.extension?] at found
  split at found
  · rename_i here
    cases found
    cases List.mem_singleton.mp (SortedMap.get?_eq_some_iff.mp here)
    exact confined
  · cases found

def announcing : Implementation :=
  .step (.print "started") (fun _ => .step (.write ⟨"partial.txt"⟩ [1]) (fun _ =>
    .step (.readInput ⟨"", "", "versions.txt"⟩) (fun r => .done (r.map (fun _ => .none)))))

/-- The message of an implementation that has to be run again is out, though its files are gone. -/
theorem restart_announced : ∃ (w' : World) (c : Context), freshSession.evaluator.evaluate
      (soleEngine bareLockfile.depGraph announcing) depsId (.ofFiles .empty) =
        (.ok .notReady, w') ∧
    w'.diagnostics = [.info none "deps: started"] ∧
    c.directory.path = ⟨"out/modextwd/_main~deps"⟩ ∧ c.directory.exists? w'.files = false := by
  have through : (soleEngine bareLockfile.depGraph announcing).Confined :=
    soleEngine_confined ⟨trivial, fun _ => ⟨trivial, fun _ => ⟨trivial, fun _ => trivial⟩⟩⟩
  obtain ⟨-, ⟨asked, quiet⟩ | ⟨c, i, start, call, -⟩⟩ :=
    @Evaluator.evaluate_notReady freshSession.evaluator _ depsId (.ofFiles .empty) _ through rfl
  · have idle := congrArg (fun w => w.events.length) quiet
    cases idle
  · obtain ⟨asked, usages, used, directory⟩ := call.directory
    cases used
    exact ⟨_, c, rfl, rfl, congrArg WorkingDirectory.path directory, call.removed⟩

end PrintedBefore

end ExtensionLock
