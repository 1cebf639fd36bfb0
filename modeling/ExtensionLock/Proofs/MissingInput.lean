import ExtensionLock.Proofs.Restart

/-! Inputs that are missing while an implementation runs. The interrupt is an answer like any other,
and nothing but what the implementation returns in the end settles the evaluation. So it is repeated
if the implementation passes the interrupt on, and settled without the input if it does not. -/

namespace ExtensionLock

namespace Implementation

def Restarts : Implementation → Prop
  | .done result => result = .error .restart
  | .step _ next => ∀ answer, (next answer).Restarts

/-- A missing input makes it end with a restart; it may still do something before. -/
def Honours : Implementation → Prop
  | .done _ => True
  | .step op next => (∀ answer, (next answer).Honours) ∧ match op, next with
    | .readInput _, next => (next (.error .restart)).Restarts
    | _, _ => True

end Implementation

/-- What is returned lets the repositories stand that were created. -/
def Return.Stands (usages : ExtensionUsages) (generated : RepoSpecs) : Return → Prop
  | .none => True
  | .metadata m => ∃ warning, m.assess usages generated = .ok warning
  | .invalid _ => False

namespace Context

variable {c : Context} {i : Implementation} {s : Progress}

/-- An input that is asked for in the course of a call is not there. -/
def Misses (c : Context) : Implementation → Progress → Prop
  | .done _, _ => False
  | .step op next, s =>
    (∃ label, op = .readInput label ∧ c.engine.input s.world.asked label = .ok .notReady) ∨
      (op.panics (c.perform s op).1 = false ∧ Misses c (next (c.perform s op).1) (c.perform s op).2)

def GivesUp (result : Except Interrupt Return) : Prop :=
  result = .error .restart ∨ result = .error .panic

theorem call_of_restarts (restarts : i.Restarts) : GivesUp (c.call i s).1 := by
  induction i generalizing s with
  | done result => exact .inl restarts
  | step op next ih =>
    rw [call_step]
    split
    · exact .inr rfl
    · exact ih _ (restarts _)

theorem call_of_misses (honours : i.Honours) (misses : c.Misses i s) :
    GivesUp (c.call i s).1 := by
  induction i generalizing s with
  | done result => exact misses.elim
  | step op next ih =>
    rw [call_step]
    rcases misses with ⟨label, rfl, absent⟩ | ⟨going, later⟩
    · have answer : (c.perform s (.readInput label)).1 = .error .restart := by
        simp only [perform, readInput, absent]
      rw [answer]
      exact call_of_restarts honours.2
    · rw [if_neg (Bool.eq_false_iff.mp going)]
      exact ih _ (honours.1 _) later

end Context

namespace Evaluator

variable {v : Evaluator} {engine : Engine} {id : ExtensionId} {a : Approach} {c : Context}
  {ended : Context.Progress} {result : Except Interrupt Return} {w w' start : World}

theorem settle_restart (c : Context) (usages : ExtensionUsages) (location : Location)
    (specs : RepoSpecs) (w : World) : (settle c usages location specs (.error .restart)).run w =
      (match (c.directory.clear w.files).2 with
        | .ok () => .error .notReady
        | .error source => .error (.failed (.cleanup c.directory.path source)),
        { w with files := (c.directory.clear w.files).1 }) := by
  rw [settle, run_bind, clear_run]
  cases (c.directory.clear w.files).2 <;> rfl

theorem settle_stands {usages : ExtensionUsages} {location : Location}
    {generated specs : RepoSpecs} :
    (∃ w', (settle c usages location generated result).run w = (.ok specs, w')) ↔
      specs = generated ∧ ∃ returned, result = .ok returned ∧ returned.Stands usages generated := by
  constructor
  · rintro ⟨w', settled⟩
    obtain ⟨same, returned, rfl⟩ := settle_eq_ok (congrArg Prod.fst settled)
    refine ⟨same, returned, rfl, ?_⟩
    cases returned with
    | none => trivial
    | invalid typeName => cases settled
    | metadata m =>
      rw [settle] at settled
      obtain ⟨found, w₁, assessed, -⟩ := bind_eq_ok.mp settled
      exact ⟨found, (Attempt.ofExcept_eq_ok.mp assessed).1⟩
  · rintro ⟨rfl, returned, rfl, stands⟩
    cases returned with
    | none => exact ⟨w, rfl⟩
    | invalid typeName => exact stands.elim
    | metadata m =>
      obtain ⟨found, assessed⟩ := stands
      have known : (Attempt.ofExcept (.invalidMetadata usages.extensionId)
          (m.assess usages specs)).run w = (.ok found, w) :=
        Attempt.ofExcept_eq_ok.mpr ⟨assessed, rfl⟩
      rw [settle]
      cases found with
      | none => exact ⟨w, bind_eq_ok.mpr ⟨_, _, known, rfl⟩⟩
      | some warning => exact ⟨w.report warning, bind_eq_ok.mpr ⟨_, _, known, rfl⟩⟩

theorem Calls.attempt_of_halt (calls : v.Calls engine id w a c start) {halt : Halt}
    (called : c.call a.extension.implementation ⟨start, .empty⟩ = (result, ended))
    (judged : (settle c a.usages a.location ended.generated result).run ended.world =
      (.error halt, w')) :
    (v.attempt engine id).run w = (.error halt, v.released a.usages w') := by
  obtain ⟨w₁, record, modules, files, approached, decided, tagged, cleared⟩ := calls
  rw [attempt_eq]
  refine bind_eq_error.mpr (.inr ⟨a, w₁, approached, ?_⟩)
  simp only [conclude, decided]
  exact bind_eq_error.mpr (.inl (run_of_called tagged cleared called judged))

theorem Calls.evaluate_eq_ready (calls : v.Calls engine id w a c start) {evaluation : Evaluation}
    (called : c.call a.extension.implementation ⟨start, .empty⟩ = (result, ended)) :
    (∃ w', v.evaluate engine id w = (.ok (.ready evaluation), w')) ↔
      ∃ returned, result = .ok returned ∧ returned.Stands a.usages ended.generated ∧
        ended.generated.Generates a.usages.usages ∧
        ∃ record, a.decision = .evaluate record ∧ evaluation = ⟨a.value ended.generated,
          if record then some ⟨id, ⟨a.script.digest, ended.generated⟩⟩ else none, false⟩ := by
  obtain ⟨w₁, record, modules, files, approached, decided, tagged, cleared⟩ := calls
  obtain ⟨settled, w₂, judged⟩ : ∃ settled w₂, (settle (v.context engine id a.usages modules)
    a.usages a.location ended.generated result).run ended.world = (settled, w₂) := ⟨_, _, rfl⟩
  have ran := run_of_called tagged cleared called judged
  constructor
  · rintro ⟨w', ready⟩
    obtain ⟨a', w₁', approached', concluded⟩ := Evaluator.evaluate_eq_ready.mp ready
    cases approached.symm.trans approached'
    obtain ⟨specs, ran', generates, rfl⟩ := (conclude_evaluate decided).mp concluded
    cases ran.symm.trans ran'
    obtain ⟨rfl, returned, rfl, stands⟩ := settle_stands.mp ⟨_, judged⟩
    exact ⟨returned, rfl, stands, generates, record, decided, rfl⟩
  · rintro ⟨returned, rfl, stands, generates, record', decided', rfl⟩
    cases decided.symm.trans decided'
    obtain ⟨w₃, stood⟩ := settle_stands.mpr ⟨rfl, returned, rfl, stands⟩
    cases judged.symm.trans stood
    exact ⟨_, Evaluator.evaluate_eq_ready.mpr ⟨a, w₁, approached,
      (conclude_evaluate decided).mpr ⟨_, ran, generates, rfl⟩⟩⟩

structure Withdrawn (v : Evaluator) (engine : Engine) (id : ExtensionId) (d : WorkingDirectory)
    (w w' : World) : Prop where
  waits : v.evaluate engine id w = (.ok .notReady, w')
  removed : d.exists? w'.files = false
  untracked : ∀ p ∈ w'.tracked.paths, TrackedDirectories.samePlace d.path p = false
  unrecorded : ∀ (s : Session) (e : Engine), s.evaluator = v → s.engine e = engine →
    (s.evaluate e id w).2.1 = s

theorem Calls.withdrawn_iff (calls : v.Calls engine id w a c start)
    (called : c.call a.extension.implementation ⟨start, .empty⟩ = (result, ended)) :
    (∃ w', v.Withdrawn engine id c.directory w w') ↔
      result = .error .restart ∧ (c.directory.clear ended.world.files).2 = .ok () := by
  constructor
  · rintro ⟨w', withdrawn⟩
    obtain ⟨w₁, record, modules, files, approached, decided, tagged, cleared⟩ := calls
    obtain ⟨settled, w₂, judged⟩ : ∃ settled w₂, (settle (v.context engine id a.usages modules)
      a.usages a.location ended.generated result).run ended.world = (settled, w₂) := ⟨_, _, rfl⟩
    have waits := evaluate_eq_notReady.mp withdrawn.waits
    rw [attempt_eq] at waits
    rcases bind_eq_error.mp waits with early | ⟨a', w₁', approached', concluded⟩
    · cases approached.symm.trans early
    cases approached.symm.trans approached'
    simp only [conclude, decided] at concluded
    rcases bind_eq_error.mp concluded with ran | ⟨specs, w₃, -, rest⟩
    · cases (run_of_called tagged cleared called judged).symm.trans ran
      obtain ⟨restarted, gone⟩ := settle_eq_notReady judged
      obtain ⟨files', gone, -⟩ := clear_eq_ok.mp gone
      exact ⟨restarted, congrArg Prod.snd gone⟩
    · rcases bind_eq_error.mp rest with failed | ⟨_, w₄, -, done⟩
      · exact absurd failed Attempt.ofExcept_ne_notReady
      · cases done
  · rintro ⟨rfl, gone⟩
    have judged := settle_restart c a.usages a.location ended.generated ended.world
    rw [gone] at judged
    have waits := evaluate_eq_notReady.mpr (calls.attempt_of_halt called judged)
    have directory : c.directory = v.workingDirectory a.usages := by
      cases calls
      rfl
    refine ⟨_, waits, WorkingDirectory.exists?_of_clear (Prod.ext rfl gone), ?_, ?_⟩
    · rw [directory]
      exact fun p member => TrackedDirectories.release_apart member
    · rintro s e rfl rfl
      rw [Session.evaluate, waits]
      split <;> rfl

/-- What an evaluation comes to after a call in which an input was missing. It is withdrawn exactly
if the call has ended with a restart and the working directory could be removed, and an
implementation that passes the interrupt on sees to the former, unless it panics. Any other call
settles the evaluation by what it returns, as if all its inputs had been there. -/
theorem evaluate_of_missed (calls : v.Calls engine id w a c start)
    (missed : c.Misses a.extension.implementation ⟨start, .empty⟩)
    (called : c.call a.extension.implementation ⟨start, .empty⟩ = (result, ended)) :
    ((∃ w', v.Withdrawn engine id c.directory w w') ↔
      result = .error .restart ∧ (c.directory.clear ended.world.files).2 = .ok ()) ∧
    (a.extension.implementation.Honours → result = .error .restart ∨ result = .error .panic) ∧
    (∀ source, result = .error .restart →
      (c.directory.clear ended.world.files).2 = .error source →
      (ExtensionError.cleanup c.directory.path source).isTransient = true ∧
        ∃ w', v.evaluate engine id w = (.error (.cleanup c.directory.path source), w')) ∧
    ∀ evaluation, (∃ w', v.evaluate engine id w = (.ok (.ready evaluation), w')) ↔
      ∃ returned, result = .ok returned ∧ returned.Stands a.usages ended.generated ∧
        ended.generated.Generates a.usages.usages ∧
        ∃ record, a.decision = .evaluate record ∧ evaluation = ⟨a.value ended.generated,
          if record then some ⟨id, ⟨a.script.digest, ended.generated⟩⟩ else none, false⟩ := by
  refine ⟨calls.withdrawn_iff called, fun honours => ?_, ?_,
    fun _ => calls.evaluate_eq_ready called⟩
  · have gives := Context.call_of_misses honours missed
    rwa [called] at gives
  · rintro source rfl stuck
    have judged := settle_restart c a.usages a.location ended.generated ended.world
    rw [stuck] at judged
    exact ⟨rfl, _, evaluate_eq_error.mpr (calls.attempt_of_halt called judged)⟩

end Evaluator

section Unheeded

def careless : Implementation :=
  .step (.readInput ⟨"", "", "versions.txt"⟩) (fun _ => .done (.ok .none))

def obstructed (p : Path) : Implementation :=
  .step (.meanwhile (fun w => match w.files.createDirectories (p.parent?.getD p) with
    | (files, .ok ()) => match files.write p [] with
      | .ok files => ({ w with files }, 1)
      | .error _ => (w, 0)
    | (_, .error _) => (w, 0)))
    (fun _ => .step (.readInput ⟨"", "", "versions.txt"⟩) (fun r => .done (r.map (fun _ => .none))))

def missingEngine (i : Implementation) : Engine := soleEngine bareLockfile.depGraph i

/-- All three miss the same input. The message and the file of the first do not keep its evaluation
from being withdrawn. The second goes on without its input, and what it comes to is to be locked.
The third cannot be withdrawn, as its working directory is not one. -/
theorem careless_settled :
    (∃ a c start w', freshSession.evaluator.Calls (missingEngine announcing) depsId
        (.ofFiles .empty) a c start ∧
      c.Misses a.extension.implementation ⟨start, .empty⟩ ∧
      freshSession.evaluator.Withdrawn (missingEngine announcing) depsId c.directory
        (.ofFiles .empty) w') ∧
    (∃ a c start evaluation w', freshSession.evaluator.Calls (missingEngine careless) depsId
        (.ofFiles .empty) a c start ∧
      c.Misses a.extension.implementation ⟨start, .empty⟩ ∧
      (¬ ∃ u, freshSession.evaluator.Withdrawn (missingEngine careless) depsId c.directory
        (.ofFiles .empty) u) ∧
      freshSession.evaluator.evaluate (missingEngine careless) depsId (.ofFiles .empty) =
        (.ok (.ready evaluation), w') ∧
      evaluation.resolution = some ⟨depsId, ⟨⟨[]⟩, .empty⟩⟩) ∧
    (∃ a c start w', freshSession.evaluator.Calls
        (missingEngine (obstructed ⟨"out/modextwd/_main~deps"⟩)) depsId (.ofFiles .empty)
        a c start ∧
      c.Misses a.extension.implementation ⟨start, .empty⟩ ∧
      freshSession.evaluator.evaluate (missingEngine (obstructed ⟨"out/modextwd/_main~deps"⟩))
        depsId (.ofFiles .empty) = (.error (.cleanup c.directory.path .notADirectory), w')) := by
  refine ⟨?_, ?_, ?_⟩
  · have calls := (.called _ true _ _ rfl rfl rfl rfl :
      freshSession.evaluator.Calls (missingEngine announcing) depsId (.ofFiles .empty) _ _ _)
    obtain ⟨withdrawn, -⟩ := Evaluator.evaluate_of_missed calls
      (.inr ⟨rfl, .inr ⟨rfl, .inl ⟨⟨"", "", "versions.txt"⟩, rfl, rfl⟩⟩⟩) rfl
    obtain ⟨w', withdrawn⟩ := withdrawn.mpr ⟨rfl, rfl⟩
    exact ⟨_, _, _, w', calls, .inr ⟨rfl, .inr ⟨rfl, .inl ⟨_, rfl, rfl⟩⟩⟩, withdrawn⟩
  · have calls := (.called _ true _ _ rfl rfl rfl rfl :
      freshSession.evaluator.Calls (missingEngine careless) depsId (.ofFiles .empty) _ _ _)
    obtain ⟨withdrawn, -⟩ := Evaluator.evaluate_of_missed calls
      (.inl ⟨⟨"", "", "versions.txt"⟩, rfl, rfl⟩) rfl
    refine ⟨_, _, _, _, _, calls, .inl ⟨_, rfl, rfl⟩, fun given => ?_, rfl, rfl⟩
    cases (withdrawn.mp given).1
  · have calls := (.called _ true _ _ rfl rfl rfl rfl :
      freshSession.evaluator.Calls (missingEngine (obstructed ⟨"out/modextwd/_main~deps"⟩)) depsId
        (.ofFiles .empty) _ _ _)
    obtain ⟨-, -, stuck, -⟩ := Evaluator.evaluate_of_missed calls
      (.inr ⟨rfl, .inl ⟨⟨"", "", "versions.txt"⟩, rfl, rfl⟩⟩) rfl
    obtain ⟨-, w', failed⟩ := stuck .notADirectory rfl rfl
    exact ⟨_, _, _, w', calls, .inr ⟨rfl, .inl ⟨_, rfl, rfl⟩⟩, failed⟩

end Unheeded

end ExtensionLock
