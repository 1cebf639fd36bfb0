import ExtensionLock.Proofs.ContextFiles
import ExtensionLock.Proofs.Restart
import ExtensionLock.Proofs.Twins

/-! Evaluations side by side, in worlds that differ in the content of one file. While that file is
in no working directory, and implementations go through their contexts, nobody can tell: they come
to the same, and leave such worlds again. -/

namespace ExtensionLock

variable {place : Place} {b b' : Option Bytes}

def TrackedDirectories.Avoid (d : TrackedDirectories) (place : Place) : Prop :=
  ∀ p ∈ d.paths, p.place.leadsTo place = false

namespace TrackedDirectories

variable {d : TrackedDirectories}

theorem Avoid.track (avoid : d.Avoid place) {p : Path} (outside : p.place.leadsTo place = false) :
    (d.track p).Avoid place := by
  rw [TrackedDirectories.track]
  split
  · exact avoid
  · intro q member
    rcases List.mem_append.mp member with before | new
    · exact avoid q before
    · rw [List.mem_singleton.mp new]
      exact outside

theorem Avoid.release (avoid : d.Avoid place) (p : Path) : (d.release p).Avoid place :=
  fun q member => avoid q (List.mem_filter.mp member).1

theorem removeEach_paired {t t' : FileTree} (twins : FileTree.Twins place b b' t t')
    {paths : List Path} (avoid : ∀ p ∈ paths, p.place.leadsTo place = false) :
    FileTree.Paired place b b' (removeEach t paths) (removeEach t' paths) := by
  induction paths generalizing t t' with
  | nil => exact twins.paired 0
  | cons p rest ih =>
    obtain ⟨here, later⟩ := List.forall_mem_cons.mp avoid
    obtain ⟨u, u', result, first, second, removed⟩ := twins.removeDirectory here
    obtain ⟨last, last', n, others, others', left⟩ := ih removed later
    cases result with
    | ok x =>
      simp only [removeEach, first, second, others, others']
      exact left.paired (n + 1)
    | error e =>
      simp only [removeEach, first, second, others, others']
      exact left.paired n

theorem Avoid.removeAll_paired {t t' : FileTree} (avoid : d.Avoid place)
    (twins : FileTree.Twins place b b' t t') :
    FileTree.Paired place b b' (d.removeAll t) (d.removeAll t') := removeEach_paired twins avoid

end TrackedDirectories

/-- Worlds that are alike but for the content of one file, which no evaluation under way works
on. -/
def World.Twins (place : Place) (b b' : Option Bytes) (w w' : World) : Prop :=
  ∃ files, w' = { w with files } ∧ FileTree.Twins place b b' w.files files ∧ w.tracked.Avoid place

theorem World.Twins.cancelled {w w' : World} (twins : World.Twins place b b' w w') :
    w'.cancelled = w.cancelled := by
  obtain ⟨files, rfl, -⟩ := twins
  rfl

theorem World.cancel_twins {w w' : World} (twins : World.Twins place b b' w w') :
    w.cancel.2 = w'.cancel.2 ∧ World.Twins place b b' w.cancel.1 w'.cancel.1 := by
  obtain ⟨files, rfl, twins, avoid⟩ := twins
  obtain ⟨u, u', n, first, second, removed⟩ := avoid.removeAll_paired twins
  simp only [cancel, first, second]
  exact ⟨trivial, u', rfl, removed, avoid⟩

theorem WorkingDirectory.clear_paired {d : WorkingDirectory} {t t' : FileTree}
    (twins : FileTree.Twins place b b' t t') (outside : d.path.place.leadsTo place = false) :
    FileTree.Paired place b b' (d.clear t) (d.clear t') := by
  obtain ⟨u, u', result, first, second, removed⟩ := twins.removeDirectory outside
  simp only [clear, remove, first, second]
  cases result with
  | ok x => exact removed.paired _
  | error e => cases e <;> exact removed.paired _

structure Context.Apart (c : Context) (place : Place) : Prop where
  named : c.directory.path.text ≠ ""
  outside : c.directory.path.place.leadsTo place = false

namespace Context

variable {c : Context}

theorem Apart.blind (apart : c.Apart place) (b b' : Option Bytes) :
    c.Blind (FileTree.Twins place b b') := by
  have elsewhere (q : Place) (held : c.directory.path.place.Holds q) : q ≠ place := by
    rintro rfl
    exact Bool.eq_false_iff.mp apart.outside held.leadsTo
  exact ⟨FileTree.Twins.showsKinds place b b' _,
    fun t t' q twins held => twins.others q (elsewhere q held),
    fun t t' q e twins held => twins.insert (elsewhere q held) e⟩

def Progress.Twins (place : Place) (b b' : Option Bytes) (s s' : Progress) : Prop :=
  World.Twins place b b' s.world s'.world ∧ s.generated = s'.generated

theorem Progress.twins_iff {s s' : Progress} : Progress.Twins place b b' s s' ↔
    Progress.Related (FileTree.Twins place b b') s s' ∧ s.world.tracked.Avoid place := by
  obtain ⟨w, generated⟩ := s
  obtain ⟨w', generated'⟩ := s'
  constructor
  · rintro ⟨⟨files, rfl, twins, avoid⟩, rfl⟩
    exact ⟨⟨files, rfl, twins⟩, avoid⟩
  · rintro ⟨⟨files, same, twins⟩, avoid⟩
    cases same
    exact ⟨⟨files, rfl, twins, avoid⟩, rfl⟩

theorem perform_tracked {s : Progress} {op : Operation} (own : op.Own) :
    (c.perform s op).2.world.tracked = s.world.tracked := by
  cases op with
  | createRepo name spec =>
    simp only [perform]
    split <;> rfl
  | meanwhile change => cases own
  | _ => rfl

theorem perform_twins (apart : c.Apart place) {s s' : Progress} {op : Operation}
    (confined : op.Confined) (twins : Progress.Twins place b b' s s') :
    (c.perform s op).1 = (c.perform s' op).1 ∧
      Progress.Twins place b b' (c.perform s op).2 (c.perform s' op).2 := by
  by_cases own : op.Own
  · obtain ⟨pair, avoid⟩ := Progress.twins_iff.mp twins
    obtain ⟨answer, left⟩ := (apart.blind b b').perform own pair
    exact ⟨answer, Progress.twins_iff.mpr ⟨left, (perform_tracked own).symm ▸ avoid⟩⟩
  · cases op with
    | meanwhile change =>
      cases confined
      obtain ⟨count, left⟩ := World.cancel_twins twins.1
      exact ⟨count, left, twins.2⟩
    | _ => exact absurd trivial own

theorem call_twins (apart : c.Apart place) {i : Implementation} (confined : i.Confined)
    {s s' : Progress} (twins : Progress.Twins place b b' s s') :
    (c.call i s).1 = (c.call i s').1 ∧
      Progress.Twins place b b' (c.call i s).2 (c.call i s').2 := by
  induction i generalizing s s' with
  | done result => exact ⟨rfl, twins⟩
  | step op next ih =>
    obtain ⟨answer, later⟩ := perform_twins apart confined.1 twins
    rw [call_step, call_step, ← answer]
    split
    · exact ⟨rfl, later⟩
    · exact ih _ (confined.2 _) later

end Context

/-- An attempt that cannot tell twins apart. -/
def Attempt.Parallel (place : Place) (b b' : Option Bytes) (a : Attempt α) : Prop :=
  ∀ w w', World.Twins place b b' w w' → ∃ result v v', a.run w = (result, v) ∧
    a.run w' = (result, v') ∧ World.Twins place b b' v v'

namespace Attempt

theorem parallel_bind {α β : Type} {a : Attempt α} {f : α → Attempt β}
    (first : a.Parallel place b b')
    (rest : ∀ w x v, a.run w = (.ok x, v) → (f x).Parallel place b b') :
    (a >>= f).Parallel place b b' := by
  intro w w' twins
  obtain ⟨result, v, v', ran, ran', left⟩ := first w w' twins
  rw [run_bind, run_bind, ran, ran']
  cases result with
  | error h => exact ⟨_, v, v', rfl, rfl, left⟩
  | ok x => exact rest w x v ran v v' left

theorem Asks.parallel {α : Type} {a : Attempt α} (asks : a.Asks) : a.Parallel place b b' := by
  induction asks with
  | pure x => exact fun w w' twins => ⟨_, w, w', rfl, rfl, twins⟩
  | halt h => exact fun w w' twins => ⟨_, w, w', rfl, rfl, twins⟩
  | ask q answer =>
    rintro w _ ⟨files, rfl, twins, avoid⟩
    exact ⟨_, _, _, rfl, rfl, files, rfl, twins, avoid⟩
  | bind first rest ihFirst ihRest => exact parallel_bind ihFirst (fun _ x _ _ => ihRest x)

theorem parallel_report (d : Diagnostic) :
    Parallel place b b' (modify (fun w => w.report d) : Attempt PUnit) := by
  rintro w _ ⟨files, rfl, twins, avoid⟩
  exact ⟨_, _, _, rfl, rfl, files, rfl, twins, avoid⟩

theorem parallel_tracking {α : Type} {p : Path} {body : Attempt α}
    (outside : p.place.leadsTo place = false) (inner : body.Parallel place b b') :
    (tracking p body).Parallel place b b' := by
  rintro w _ ⟨files, rfl, twins, avoid⟩
  obtain ⟨result, v, _, ran, ran', files', rfl, left, avoid'⟩ :=
    inner { w with tracked := w.tracked.track p } _ ⟨files, rfl, twins, avoid.track outside⟩
  exact ⟨result, _, _, tracking_eq.mpr ⟨_, ran, rfl⟩, tracking_eq.mpr ⟨_, ran', rfl⟩, files', rfl,
    left, avoid'.release p⟩

end Attempt

/-- Implementations go through their contexts, and no working directory is on the way to a place. -/
structure Engine.Avoids (e : Engine) (v : Evaluator) (place : Place) : Prop where
  confined : e.Confined
  outside : ∀ asked id usages, e.usages asked id = .ready usages →
    (v.workingDirectory usages).path.place.leadsTo place = false

theorem Engine.Avoids.withLockfile {e : Engine} {v : Evaluator} (avoids : e.Avoids v place)
    (l : Lockfile) : (e.withLockfile l).Avoids v place := ⟨avoids.confined, avoids.outside⟩

namespace Evaluator

open Attempt

variable {v : Evaluator} {engine : Engine} {id : ExtensionId} {c : Context}

theorem parallel_clear {d : WorkingDirectory} (outside : d.path.place.leadsTo place = false) :
    (clear d).Parallel place b b' := by
  rintro w _ ⟨files, rfl, twins, avoid⟩
  obtain ⟨u, u', result, first, second, left⟩ := d.clear_paired twins outside
  have ran (t : FileTree) : (clear d).run { w with files := t } =
      (Attempt.ofExcept (.cleanup d.path) (d.clear t).2).run
        { w with files := (d.clear t).1 } := rfl
  have here := ran w.files
  have there := ran files
  rw [first] at here
  rw [second] at there
  obtain ⟨answer, v, v', finished, finished', after⟩ :=
    (Attempt.asks_ofExcept (ExtensionError.cleanup d.path) result).parallel
      { w with files := u } { w with files := u' } ⟨u', rfl, left, avoid⟩
  exact ⟨answer, v, v', here.trans finished, there.trans finished', after⟩

theorem parallel_call (apart : c.Apart place) {i : Implementation} (confined : i.Confined) :
    (call c i).Parallel place b b' := by
  rintro w _ ⟨files, rfl, twins, avoid⟩
  have start : Context.Progress.Twins place b b' ⟨w.happen (.called c.id), .empty⟩
    ⟨{ w.happen (.called c.id) with files }, .empty⟩ := ⟨⟨files, rfl, twins, avoid⟩, rfl⟩
  obtain ⟨result, left, generated⟩ := Context.call_twins apart confined start
  refine ⟨_, _, _, call_run c i w, ?_, left⟩
  rw [result, generated]
  exact call_run c i { w with files }

theorem parallel_settle (outside : c.directory.path.place.leadsTo place = false)
    (usages : ExtensionUsages) (location : Location) (generated : RepoSpecs)
    (result : Except Interrupt Return) :
    (settle c usages location generated result).Parallel place b b' := by
  cases result with
  | ok returned => cases returned with
    | none => exact (Asks.pure generated).parallel
    | invalid typeName => exact (Asks.halt _).parallel
    | metadata m =>
      refine parallel_bind (asks_ofExcept _ _).parallel (fun _ found _ _ => ?_)
      cases found with
      | none => exact (Asks.pure generated).parallel
      | some warning =>
        exact parallel_bind (parallel_report warning)
          (fun _ _ _ _ => (Asks.pure generated).parallel)
  | error interrupt => cases interrupt with
    | restart =>
      exact parallel_bind (parallel_clear outside) (fun _ _ _ _ => (Asks.halt .notReady).parallel)
    | error e => exact parallel_bind (parallel_report _) (fun _ _ _ _ => (Asks.halt _).parallel)
    | panic => exact (Asks.halt _).parallel

theorem parallel_run {extension : Extension} {usages : ExtensionUsages}
    (confined : extension.implementation.Confined)
    (outside : (v.workingDirectory usages).path.place.leadsTo place = false)
    (location : Location) :
    (v.run engine id extension usages location).Parallel place b b' := by
  refine parallel_bind (asks_ofExcept _ _).parallel (fun _ modules _ _ => ?_)
  have apart : Context.Apart ⟨id, modules, v.workingDirectory usages, v.capabilities, engine⟩
    place := ⟨WorkingDirectory.named_text v.outputBase usages.uniqueName, outside⟩
  refine parallel_bind (parallel_clear outside) (fun _ _ _ _ => parallel_tracking outside ?_)
  refine parallel_bind (parallel_call apart confined) (fun _ done _ _ => ?_)
  exact parallel_settle apart.outside usages location done.2 done.1

theorem parallel_attempt (avoids : engine.Avoids v place) (id : ExtensionId) :
    (v.attempt engine id).Parallel place b b' := by
  rw [attempt_eq]
  refine parallel_bind (asks_approach v engine id).parallel (fun w a w₁ approached => ?_)
  cases decided : a.decision with
  | reuse entry => exact (asks_conclude v engine id decided).parallel
  | evaluate record =>
    obtain ⟨finds, -⟩ := approach_eq_decide.mp approached
    simp only [conclude, decided]
    refine parallel_bind (parallel_run (avoids.confined _ _ _ _ _ finds.script finds.extension)
      (avoids.outside _ _ _ finds.usages) a.location) (fun _ generated _ _ => ?_)
    exact (Asks.bind (asks_ofExcept _ _) (fun _ => .pure _)).parallel

theorem evaluate_twins (avoids : engine.Avoids v place) (id : ExtensionId) {w w' : World}
    (twins : World.Twins place b b' w w') : ∃ result u u', v.evaluate engine id w = (result, u) ∧
      v.evaluate engine id w' = (result, u') ∧ World.Twins place b b' u u' := by
  obtain ⟨result, u, u', ran, ran', left⟩ := parallel_attempt avoids id w w' twins
  rw [evaluate_eq, evaluate_eq, ran, ran']
  exact ⟨outcome result, u, u', rfl, rfl, left⟩

end Evaluator

end ExtensionLock
