import ExtensionLock.Proofs.Restart

/-! The check of imports at the end of an evaluation. It comes last, after all that may halt for
another reason, and what passes it is handed out. -/

namespace ExtensionLock

namespace Attempt

/-- Wherever it starts, it halts in certain ways only. -/
def HaltsOnly (p : Halt → Prop) (a : Attempt α) : Prop :=
  ∀ w h w', a.run w = (.error h, w') → p h

variable {p : Halt → Prop} {a : Attempt α} {f : α → Attempt β}

theorem HaltsOnly.bind (first : a.HaltsOnly p) (rest : ∀ x, (f x).HaltsOnly p) :
    (a >>= f).HaltsOnly p := by
  intro w h w' halted
  rcases bind_eq_error.mp halted with early | ⟨x, w₁, -, late⟩
  · exact first w h w' early
  · exact rest x w₁ h w' late

theorem HaltsOnly.pure (x : α) : (Pure.pure x : Attempt α).HaltsOnly p :=
  fun _ _ _ halted => (by cases halted)

theorem HaltsOnly.halt {h : Halt} (allowed : p h) : (throw h : Attempt α).HaltsOnly p := by
  intro w h' w' halted
  cases halted
  exact allowed

theorem HaltsOnly.ask (q : Query) (answer : List Query → α) : (ask q answer).HaltsOnly p :=
  fun _ _ _ halted => (by cases halted)

theorem HaltsOnly.modify (change : World → World) :
    (modify change : Attempt PUnit).HaltsOnly p := fun _ _ _ halted => (by cases halted)

theorem HaltsOnly.ofStep (waits : p .notReady) (r : Step α) : (ofStep r).HaltsOnly p := by
  cases r with
  | ready x => exact .pure x
  | notReady => exact .halt waits

theorem HaltsOnly.ofExcept {wrap : ε → ExtensionError} (allowed : ∀ e, p (.failed (wrap e)))
    (r : Except ε α) : (ofExcept wrap r).HaltsOnly p := by
  cases r with
  | ok x => exact .pure x
  | error e => exact .halt (allowed e)

theorem HaltsOnly.tracking {q : Path} (body : a.HaltsOnly p) : (tracking q a).HaltsOnly p := by
  intro w h w' halted
  obtain ⟨w₁, inside, -⟩ := tracking_eq.mp halted
  exact body _ h w₁ inside

theorem ofExcept_eq_error {wrap : ε → ExtensionError} {r : Except ε α} {h : Halt} {w w' : World} :
    (ofExcept wrap r).run w = (.error h, w') ↔
      ∃ e, r = .error e ∧ h = .failed (wrap e) ∧ w' = w := by
  cases r with
  | ok x => exact ⟨fun h => (by cases h), fun ⟨_, h, _⟩ => (by cases h)⟩
  | error e =>
    constructor
    · intro halted
      cases halted
      exact ⟨e, rfl, rfl, rfl⟩
    · rintro ⟨_, same, rfl, rfl⟩
      cases same
      rfl

end Attempt

def Halt.Unrelated (h : Halt) : Prop := ∀ failures, h ≠ .failed (.unresolvedImports failures)

/-- It comes from the call of an implementation: a restart, or a fault in what the implementation
does, in what it returns or in its working directory. -/
def Halt.OfCall : Halt → Prop
  | .notReady => True
  | .failed (.cleanup ..) => True
  | .failed (.evaluationFailed ..) => True
  | .failed (.panicked _) => True
  | .failed (.invalidReturn ..) => True
  | .failed (.invalidMetadata ..) => True
  | .failed _ => False

theorem Halt.notReady_unrelated : Halt.notReady.Unrelated := fun _ same => (by cases same)

theorem Halt.OfCall.unrelated {h : Halt} (called : h.OfCall) : h.Unrelated := by
  rintro failures rfl
  exact called

namespace Evaluator

open Attempt

variable {v : Evaluator} {engine : Engine} {id : ExtensionId} {w w' : World} {a : Approach}

theorem decide_unrelated (digest : Digest) (usages : ModuleUsages) :
    (v.decide engine id digest usages).HaltsOnly Halt.Unrelated := by
  rw [decide]
  split
  · exact .pure _
  · refine .bind (.bind (.ask _ _) (fun _ => .ofStep Halt.notReady_unrelated _))
      (fun _ => .ofExcept ?_ _)
    intro failure failures same
    cases failure <;> cases same

theorem findExtension_unrelated (script : LoadedScript) (location : Location) :
    (ofExcept (fun e => e) (findExtension script id location)).HaltsOnly Halt.Unrelated := by
  rw [findExtension]
  cases script.extension? id.name with
  | none =>
    refine .halt (fun failures same => ?_)
    cases same
  | some extension => exact .pure extension

theorem firstLocation_unrelated (usages : ExtensionUsages) :
    (firstLocation id usages).HaltsOnly Halt.Unrelated := by
  rw [firstLocation]
  cases usages.sampleLocation with
  | none =>
    refine .halt (fun failures same => ?_)
    cases same
  | some location => exact .pure location

theorem approach_unrelated : (v.approach engine id).HaltsOnly Halt.Unrelated := by
  rw [approach_eq]
  refine .bind (.bind (.ask _ _) (fun _ => .ofStep Halt.notReady_unrelated _)) (fun usages =>
    .bind (firstLocation_unrelated usages) (fun location => .bind (.ofExcept (by nofun) _)
      (fun _ => .bind ?_ (fun script => .bind (findExtension_unrelated _ _) (fun extension =>
        .bind (decide_unrelated _ _) (fun _ => .pure _))))))
  exact .bind (.ask _ _) (fun _ => .bind (.ofExcept (by nofun) _)
    (fun _ => .ofStep Halt.notReady_unrelated _))

theorem clear_ofCall (d : WorkingDirectory) : (clear d).HaltsOnly Halt.OfCall :=
  fun w => HaltsOnly.ofExcept (fun _ => trivial) (d.clear w.files).2 _

theorem settle_ofCall (c : Context) (usages : ExtensionUsages) (location : Location)
    (generated : RepoSpecs) (result : Except Interrupt Return) :
    (settle c usages location generated result).HaltsOnly Halt.OfCall := by
  cases result with
  | ok returned => cases returned with
    | none => exact .pure _
    | invalid typeName => exact .halt trivial
    | metadata m =>
      refine .bind (.ofExcept (fun _ => trivial) _) (fun found => ?_)
      cases found with
      | none => exact .pure _
      | some warning => exact .bind (.modify _) (fun _ => .pure _)
  | error interrupt => cases interrupt with
    | error e => exact .bind (.modify _) (fun _ => .halt trivial)
    | panic => exact .halt trivial
    | restart => exact .bind (clear_ofCall _) (fun _ => .halt trivial)

theorem run_ofCall {extension : Extension} {usages : ExtensionUsages}
    {modules : List ExtensionModule} (tagged : usages.modules extension.tagClasses = .ok modules)
    (location : Location) :
    (v.run engine id extension usages location).HaltsOnly Halt.OfCall := by
  rw [run, tagged]
  refine .bind (.pure modules) (fun _ => .bind (clear_ofCall _) (fun _ => .tracking (.bind ?_
    (fun called => settle_ofCall _ _ _ _ _))))
  intro w h w' halted
  cases halted

theorem run_unrelated (extension : Extension) (usages : ExtensionUsages) (location : Location) :
    (v.run engine id extension usages location).HaltsOnly Halt.Unrelated := by
  intro w h w' halted
  cases tagged : usages.modules extension.tagClasses with
  | error t =>
    rw [run_of_unknown tagged] at halted
    cases halted
    exact fun failures same => (by cases same)
  | ok modules => exact (run_ofCall tagged location w h w' halted).unrelated

/-- What an evaluation comes to before imports are checked: the usages that it asked for, and the
repositories of a locked entry that is to be reused or those that a run has created. -/
inductive Offers (v : Evaluator) (engine : Engine) (id : ExtensionId) (w : World) :
    ExtensionUsages → RepoSpecs → Prop
  | reused (a : Approach) (w₁ : World) (entry : LockedExtension)
      (approached : (v.approach engine id).run w = (.ok a, w₁))
      (reuse : a.decision = .reuse entry) : Offers v engine id w a.usages entry.specs
  | ran (a : Approach) (w₁ w₂ : World) (record : Bool) (specs : RepoSpecs)
      (approached : (v.approach engine id).run w = (.ok a, w₁))
      (evaluate : a.decision = .evaluate record)
      (ran : (v.run engine id a.extension a.usages a.location).run w₁ = (.ok specs, w₂)) :
      Offers v engine id w a.usages specs

variable {usages : ExtensionUsages} {specs : RepoSpecs}

theorem Offers.asked (offers : v.Offers engine id w usages specs) :
    engine.usages w.asked id = .ready usages := by
  cases offers with
  | reused a w₁ entry approached => exact (approach_eq_decide.mp approached).1.usages
  | ran a w₁ w₂ record specs approached => exact (approach_eq_decide.mp approached).1.usages

theorem checkUsages_eq_error {halt : Halt} :
    (checkUsages id usages specs).run w = (.error halt, w') ↔
      ∃ failures, halt = .failed (.unresolvedImports failures) ∧ failures ≠ [] ∧
        specs.Reports id usages.usages.get? failures ∧ w' = w := by
  rw [checkUsages, ofExcept_eq_error]
  simp only [ModuleUsages.checkImports_eq_error_iff]
  exact exists_congr (fun failures => by tauto)

theorem covers_of_ready {evaluation : Evaluation}
    (ready : v.evaluate engine id w = (.ok (.ready evaluation), w')) :
    ∃ usages, v.Offers engine id w usages evaluation.value.specs ∧
      evaluation.value.specs.Covers usages.usages.get? := by
  obtain ⟨a, w₁, approached, concluded⟩ := evaluate_eq_ready.mp ready
  cases decided : a.decision with
  | reuse entry =>
    obtain ⟨generates, rfl, -⟩ := (conclude_reuse decided).mp concluded
    exact ⟨a.usages, .reused a w₁ entry approached decided,
      RepoSpecs.generates_iff_covers.mp generates⟩
  | evaluate record =>
    obtain ⟨specs, ran, generates, rfl⟩ := (conclude_evaluate decided).mp concluded
    exact ⟨a.usages, .ran a w₁ w' record specs approached decided ran,
      RepoSpecs.generates_iff_covers.mp generates⟩

theorem reports_of_unresolved {failures : List UnresolvedImport}
    (failed : v.evaluate engine id w = (.error (.unresolvedImports failures), w')) :
    ∃ usages specs, v.Offers engine id w usages specs ∧ failures ≠ [] ∧
      specs.Reports id usages.usages.get? failures := by
  rw [evaluate_eq_error, attempt_eq] at failed
  rcases bind_eq_error.mp failed with early | ⟨a, w₁, approached, late⟩
  · exact absurd rfl (approach_unrelated _ _ _ early failures)
  · cases decided : a.decision with
    | reuse entry =>
      simp only [conclude, decided] at late
      rcases bind_eq_error.mp late with checked | ⟨_, w₂, -, done⟩
      · obtain ⟨_, same, fails, reports, -⟩ := checkUsages_eq_error.mp checked
        cases same
        exact ⟨a.usages, entry.specs, .reused a w₁ entry approached decided, fails, reports⟩
      · cases done
    | evaluate record =>
      simp only [conclude, decided] at late
      rcases bind_eq_error.mp late with halted | ⟨specs, w₂, ran, rest⟩
      · exact absurd rfl (run_unrelated _ _ _ _ _ _ halted failures)
      · rcases bind_eq_error.mp rest with checked | ⟨_, w₃, -, done⟩
        · obtain ⟨_, same, fails, reports, -⟩ := checkUsages_eq_error.mp checked
          cases same
          exact ⟨a.usages, specs, .ran a w₁ w₂ record specs approached decided ran, fails, reports⟩
        · cases done

end Evaluator

/-- Every result that is handed out has the repositories that are imported from its extension, and a
result that has not is refused with all that is missing. Lockfiles are held to the same. -/
theorem imports_covered (v : Evaluator) (engine : Engine) (id : ExtensionId) (w : World)
    (l : Lockfile) :
    (∀ evaluation w', v.evaluate engine id w = (.ok (.ready evaluation), w') →
      ∃ usages, engine.usages w.asked id = .ready usages ∧
        v.Offers engine id w usages evaluation.value.specs ∧
        evaluation.value.specs.Covers usages.usages.get?) ∧
    (∀ failures w', v.evaluate engine id w = (.error (.unresolvedImports failures), w') →
      ∃ usages specs, engine.usages w.asked id = .ready usages ∧
        v.Offers engine id w usages specs ∧ failures ≠ [] ∧
        specs.Reports id usages.usages.get? failures) ∧
    (l.validate = .ok () ↔ l.depGraph.Distinct ∧ l.Covered) ∧
    (∀ first failures, l.validate = .error (.unresolvedImports first failures) ↔
      l.depGraph.Distinct ∧ l.FirstUncovered first failures) ∧
    ∀ failure, l.validate = .error failure →
      (∃ duplicate, failure = .depGraph duplicate ∧ ¬ l.depGraph.Distinct) ∨
        ∃ first failures, failure = .unresolvedImports first failures := by
  refine ⟨fun evaluation w' ready => ?_, fun failures w' failed => ?_, Lockfile.validate_eq_ok_iff,
    fun first failures => Lockfile.validate_eq_unresolved_iff, fun failure failed => ?_⟩
  · obtain ⟨usages, offers, covers⟩ := Evaluator.covers_of_ready ready
    exact ⟨usages, offers.asked, offers, covers⟩
  · obtain ⟨usages, specs, offers, reported⟩ := Evaluator.reports_of_unresolved failed
    exact ⟨usages, specs, offers.asked, offers, reported⟩
  · by_cases distinct : l.depGraph.Distinct
    · obtain ⟨x, grouped⟩ := Lockfile.distinct_iff.mp distinct
      exact .inr (Lockfile.validate_error grouped failed)
    · obtain ⟨duplicate, invalid⟩ := Lockfile.validate_of_twice distinct
      rw [invalid] at failed
      cases failed
      exact .inl ⟨duplicate, rfl, distinct⟩

/-- An implementation that creates nothing, of an extension from which a module imports. -/
theorem missing_import_reported : ∃ (usages : ExtensionUsages) (specs : RepoSpecs)
    (failures : List UnresolvedImport) (w' : World),
    freshSession.evaluator.evaluate (soleEngine importingInputs.depGraph (.done (.ok .none))) depsId
      (.ofFiles .empty) = (.error (.unresolvedImports failures), w') ∧
    failures = [⟨"deps", "//:deps.bzl", "c", "c", ⟨"MODULE.bazel", 1, 1⟩, ""⟩] ∧
    (soleEngine importingInputs.depGraph (.done (.ok .none))).usages [] depsId = .ready usages ∧
    specs.Reports depsId usages.usages.get? failures := by
  obtain ⟨-, refused, -⟩ := imports_covered freshSession.evaluator
    (soleEngine importingInputs.depGraph (.done (.ok .none))) depsId (.ofFiles .empty) .empty
  obtain ⟨usages, specs, used, -, -, reports⟩ := refused _ _ rfl
  exact ⟨usages, specs, _, _, rfl, rfl, used, reports⟩

end ExtensionLock
