import ExtensionLock.Proofs.Confinement
import ExtensionLock.Proofs.ImportChecks
import ExtensionLock.Proofs.MissingInput
import ExtensionLock.Proofs.Parallel

/-! What earlier evaluations have left behind. A working directory is cleared before its extension
is called, and where its path goes straight to it all that is there is gone then: no evaluation
depends on it. A path that goes up again behind a name may be lost on its way, though; then nothing
is cleared, and what the directory holds comes back into sight with the rest of the way. -/

namespace ExtensionLock

namespace Place

variable {p : Place}

theorem isFixed_follow {c : Path.Component} (fixed : p.isFixed = true)
    (other : ∀ name, c ≠ .normal name) : (p.follow c).isFixed = true := by
  cases c with
  | root => rfl
  | current => exact fixed
  | normal name => exact absurd rfl (other name)
  | parent =>
    rw [follow, above]
    split
    · rename_i upward
      rw [isFixed, isUpward, enter, List.all_append, Bool.or_eq_true]
      exact .inl (Bool.and_eq_true_iff.mpr ⟨upward, rfl⟩)
    · split
      · exact fixed
      · rename_i below other
        rw [isFixed, Bool.or_eq_true, beq_iff_eq] at fixed
        exact absurd fixed (not_or.mpr ⟨below, other⟩)

theorem isFixed_foldl {steps : List Path.Component} (fixed : p.isFixed = true)
    (others : ∀ c ∈ steps, ∀ name, c ≠ .normal name) : (steps.foldl follow p).isFixed = true := by
  induction steps generalizing p with
  | nil => exact fixed
  | cons c steps ih =>
    obtain ⟨first, rest⟩ := List.forall_mem_cons.mp others
    exact ih (isFixed_follow fixed first) rest

end Place

namespace Path

variable {p : Path} {q : Place}

/-- Once a path takes a name it goes on by names. -/
def Direct (p : Path) : Prop :=
  ∃ up down, p.components = up ++ down ∧ (∀ c ∈ up, ∀ name, c ≠ .normal name) ∧
    ∀ c ∈ down, ∃ name, c = .normal name

theorem Direct.passes (direct : p.Direct) (passes : p.Passes q) :
    q.isFixed = true ∨ q.leadsTo p.place = true := by
  obtain ⟨up, down, whole, others, names⟩ := direct
  obtain ⟨steps, begun, rfl⟩ := passes
  rcases List.prefix_or_prefix_of_prefix begun (whole ▸ List.prefix_append up down) with
    short | ⟨part, rfl⟩
  · exact .inl (Place.isFixed_foldl rfl (fun c member => others c (short.subset member)))
  · obtain ⟨rest, ends⟩ := begun
    rw [whole, List.append_assoc] at ends
    have named := List.append_cancel_left ends
    have further : p.place = rest.foldl Place.follow ((up ++ part).foldl Place.follow .here) := by
      rw [place, whole, ← named, ← List.append_assoc, List.foldl_append]
    rw [further]
    exact .inr (leadsTo_follow
      (fun c member => .inl (names c (named ▸ List.mem_append_right _ member))) _)

end Path

theorem ExtensionId.Parsed.direct_of_flat {id : ExtensionId} {name : String}
    {taken : String → Prop} (parsed : id.Parsed) (first : FirstFree taken id.baseName name)
    (flat : id.Flat) {base : Path} (direct : (base.join ⟨WorkingDirectory.folder⟩).Direct) :
    (WorkingDirectory.named base name).path.Direct := by
  obtain ⟨up, down, whole, others, names⟩ := direct
  refine ⟨up, down ++ [.normal name], ?_, others, ?_⟩
  · rw [parsed.components_of_flat first flat, whole, List.append_assoc]
  · intro c member
    rcases List.mem_append.mp member with inside | last
    · exact names c inside
    · exact ⟨name, List.mem_singleton.mp last⟩

namespace FileTree

variable {t t' u : FileTree} {path : Path} {place q : Place}

def SameOutside (place : Place) (t t' : FileTree) : Prop :=
  ∀ q, place.leadsTo q = false → t.entries.get? q = t'.entries.get? q

/-- Where a path strays from the way to its end it stays outside, on directories that are there. -/
def Unhindered (t : FileTree) (path : Path) : Prop :=
  ∀ q, path.Passes q → q.isFixed = true ∨ q.leadsTo path.place = true ∨
    (path.place.leadsTo q = false ∧ t.entry? q = some .directory)

theorem unhindered_of_direct (direct : path.Direct) (t : FileTree) : t.Unhindered path :=
  fun _ passed => (direct.passes passed).imp_right .inl

theorem SameOutside.unhindered (same : SameOutside path.place t t')
    (unhindered : t.Unhindered path) : t'.Unhindered path := by
  intro q passed
  refine (unhindered q passed).imp_right (Or.imp_right (fun ⟨away, found⟩ => ⟨away, ?_⟩))
  rw [← found]
  unfold entry?
  rw [same q away]

theorem cutOff_eq_iff : t.cutOff place = t'.cutOff place ↔ SameOutside place t t' := by
  have kept (u : FileTree) (q : Place) : SortedMap.get? (FileTree.entries (u.cutOff place)) q =
      if place.leadsTo q then none else u.entries.get? q := by
    rw [cutOff, SortedMap.get?_filter]
    cases place.leadsTo q <;> cases u.entries.get? q <;> rfl
  constructor
  · intro same q away
    have here := kept t q
    rw [same, kept, away] at here
    exact here.symm
  · intro same
    refine congrArg FileTree.mk (SortedMap.ext_get? (fun q => ?_))
    have here := kept t q
    have there := kept t' q
    cases away : place.leadsTo q <;> rw [away] at here there
    · exact (here.trans (same q away)).trans there.symm
    · exact here.trans there.symm

theorem get?_of_free (free : q.isFixed = false) : t.entries.get? q = t.entry? q := by
  unfold entry?
  rw [if_neg (Bool.eq_false_iff.mp free)]

theorem cutOff_of_nothing (rooted : t.Rooted) (nothing : t.entry? place = none) :
    t.cutOff place = t := by
  refine congrArg FileTree.mk (SortedMap.ext_get? (fun q => ?_))
  rw [SortedMap.get?_filter]
  cases below : place.leadsTo q with
  | false => cases t.entries.get? q <;> rfl
  | true =>
    have free : q.isFixed = false := by
      refine Bool.eq_false_iff.mpr (fun fixed => ?_)
      rw [isFixed_directory t (Place.isFixed_of_leadsTo below fixed)] at nothing
      cases nothing
    have none : t.entry? q = none := by
      by_cases same : q = place
      · rw [same, nothing]
      · refine rooted.nothing_below (fun directory => ?_) below same
        rw [nothing] at directory
        cases directory
    rw [get?_of_free free, none]
    rfl

theorem missing_of_walk {p : Place} {steps : List Path.Component}
    (lost : t.walk p steps = .error .notFound) :
    ∃ first, first <+: steps ∧ t.entry? (first.foldl Place.follow p) = none := by
  induction steps generalizing p with
  | nil => cases lost
  | cons step rest ih =>
    have further {next : Place} (same : p.follow step = next)
        (lost : t.walk next rest = .error .notFound) :
        ∃ first, first <+: step :: rest ∧ t.entry? (first.foldl Place.follow p) = none := by
      obtain ⟨first, before, missing⟩ := ih lost
      refine ⟨step :: first, List.cons_prefix_cons.mpr ⟨rfl, before⟩, ?_⟩
      rw [List.foldl_cons, same]
      exact missing
    cases here : t.entry? p with
    | none => exact ⟨[], List.nil_prefix, here⟩
    | some e =>
      cases e with
      | file content => cases step <;> simp only [walk, here] at lost <;> first
        | exact further rfl lost
        | cases lost
      | directory =>
        rw [walk_directory here] at lost
        cases step with
        | root => exact further rfl lost
        | current => exact further rfl lost
        | parent => exact further rfl lost
        | normal name =>
          dsimp only at lost
          split at lost
          · cases lost
          · exact further rfl lost

theorem nothing_of_stat (unhindered : t.Unhindered path) (named : path.text ≠ "")
    (rooted : t.Rooted) (missing : t.stat path = .error .notFound) :
    t.entry? path.place = none := by
  rw [stat] at missing
  cases resolved : t.resolve path with
  | ok q =>
    cases resolve_eq_place resolved
    simp only [resolved, bind, Except.bind] at missing
    split at missing
    · assumption
    · cases missing
    · split at missing <;> cases missing
  | error e =>
    rw [resolved] at missing
    cases missing
    rw [resolve] at resolved
    split at resolved
    · rename_i refused
      rw [refusal?] at refused
      split at refused
      · cases resolved
        cases refused
      · split at refused <;> cases resolved <;> cases refused
    · rw [if_neg named] at resolved
      obtain ⟨first, before, none⟩ := missing_of_walk resolved
      rcases unhindered _ ⟨first, before, rfl⟩ with fixed | leads | ⟨-, found⟩
      · rw [isFixed_directory t fixed] at none
        cases none
      · by_cases same : path.place = first.foldl Place.follow .here
        · rw [same, none]
        · refine rooted.nothing_below (fun directory => ?_) leads same
          rw [none] at directory
          cases directory
      · rw [found] at none
        cases none

theorem stat_emptied (unhindered : t.Unhindered path) :
    FileTree.stat (t.emptied path.place) path = t.stat path := by
  have seen (q : Place) (passed : path.Passes q) :
      FileTree.entry? (t.emptied path.place) q = t.entry? q := by
    rw [emptied, entry?_filter]
    split
    · exact (isFixed_directory t ‹_›).symm
    · rename_i free
      refine if_pos ?_
      rw [Bool.or_eq_true, beq_iff_eq, Bool.not_eq_true']
      refine or_iff_not_imp_left.mpr (fun other => Bool.eq_false_iff.mpr (fun below => ?_))
      rcases unhindered q passed with fixed | leads | ⟨away, -⟩
      · exact free fixed
      · exact other (Place.leadsTo_antisymm leads below)
      · rw [below] at away
        cases away
  refine stat_congr (fun q passed => ?_) (seen _ path.passes_place)
  rw [kind?, kind?, seen q passed]

theorem removeDirectory_cutOff (unhindered : t.Unhindered path) (named : path.text ≠ "")
    (rooted : t.Rooted) {r : Except IoError Unit} (removed : t.removeDirectory path = (u, r))
    (fine : r = .ok () ∨ r = .error .notFound) :
    path.place.isFixed = false ∧ u = t.cutOff path.place := by
  rw [removeDirectory] at removed
  split at removed
  · rename_i place found resolved
    cases resolve_eq_place resolved
    dsimp only at removed
    split at removed <;> rename_i result <;> cases removed
    · obtain ⟨-, free, rfl⟩ := removeEmptied_eq_ok result
      refine ⟨free, cutOff_eq_iff.mpr (fun q away => ?_)⟩
      rw [emptied, SortedMap.get?_filter, away, Bool.not_false, Bool.or_true]
      cases t.entries.get? q <;> rfl
    · have there := exists?_of_removeEmptied result
      rw [FileTree.exists?, stat_emptied unhindered, found] at there
      cases there
    · rename_i other
      rcases fine with same | same <;> cases same
      exact absurd rfl other
  · cases removed
    rcases fine with same | same <;> cases same
  · rename_i missing
    cases removed
    rcases fine with same | same <;> cases same
    have nothing := nothing_of_stat unhindered named rooted missing
    refine ⟨Bool.eq_false_iff.mpr (fun fixed => ?_), (cutOff_of_nothing rooted nothing).symm⟩
    rw [isFixed_directory t fixed] at nothing
    cases nothing
  · rename_i lost _ found
    exact (found _ (by rw [stat, lost]; rfl)).elim

end FileTree

namespace WorkingDirectory

variable {d : WorkingDirectory} {t t' u : FileTree}

theorem clear_cutOff (unhindered : t.Unhindered d.path) (named : d.path.text ≠ "")
    (rooted : t.Rooted) (cleared : d.clear t = (u, .ok ())) :
    d.path.place.isFixed = false ∧ u = t.cutOff d.path.place := by
  simp only [clear, remove] at cleared
  split at cleared <;> rename_i removed <;> cases cleared
  · exact FileTree.removeDirectory_cutOff unhindered named rooted removed (.inl rfl)
  · exact FileTree.removeDirectory_cutOff unhindered named rooted removed (.inr rfl)

theorem clear_congr (unhindered : t.Unhindered d.path) (named : d.path.text ≠ "")
    (rooted : t.Rooted) (rooted' : t'.Rooted) (same : FileTree.SameOutside d.path.place t t')
    (cleared : (d.clear t).2 = .ok ()) (cleared' : (d.clear t').2 = .ok ()) :
    d.clear t = d.clear t' := by
  cases ended : d.clear t with
  | mk u r =>
    cases ended' : d.clear t' with
    | mk u' r' =>
      rw [ended] at cleared
      rw [ended'] at cleared'
      cases cleared
      cases cleared'
      obtain ⟨-, rfl⟩ := clear_cutOff unhindered named rooted ended
      obtain ⟨-, rfl⟩ := clear_cutOff (same.unhindered unhindered) named rooted' ended'
      rw [FileTree.cutOff_eq_iff.mpr same]

end WorkingDirectory

theorem TrackedDirectories.release_track {d : TrackedDirectories} {p : Path}
    (fresh : ∀ q ∈ d.paths, samePlace p q = false) : (d.track p).release p = d := by
  have unknown : ¬ d.paths.any (samePlace p) = true := by
    intro known
    obtain ⟨q, member, same⟩ := List.any_eq_true.mp known
    rw [fresh q member] at same
    cases same
  have others : d.paths.filter (fun q => !samePlace p q) = d.paths :=
    List.filter_eq_self.mpr (fun q member => by rw [fresh q member]; rfl)
  rw [track, if_neg unknown, release, List.filter_append, others]
  have own : samePlace p p = true := beq_self_eq_true _
  simp [own]

namespace Attempt

variable {t t' : FileTree} {d : TrackedDirectories}

/-- From one tree or the other, an attempt comes to the same; as long as it has not gone near the
files each run has its own, and then they have the same. -/
def Settles (t t' : FileTree) (a : Attempt α) : Prop :=
  ∀ w, w.files = t → a.run { w with files := t' } = a.run w ∨
    ((a.run w).2.files = t ∧
      a.run { w with files := t' } = ((a.run w).1, { (a.run w).2 with files := t' }))

theorem Asks.settles {α : Type} {a : Attempt α} (asks : a.Asks) : a.Settles t t' := by
  have apart (w : World) (own : w.files = t) : (a.run w).2.files = t ∧
      a.run { w with files := t' } = ((a.run w).1, { (a.run w).2 with files := t' }) := by
    induction asks generalizing w with
    | pure x => exact ⟨own, rfl⟩
    | halt h => exact ⟨own, rfl⟩
    | ask q answer => exact ⟨own, rfl⟩
    | bind first rest ihFirst ihRest =>
      obtain ⟨kept, other⟩ := ihFirst w own
      rw [run_bind, run_bind, other]
      split
      · rename_i x w₁ ran
        rw [ran] at kept ⊢
        exact ihRest x w₁ kept
      · rename_i h w₁ ran
        rw [ran] at kept ⊢
        exact ⟨kept, rfl⟩
  exact fun w own => .inr (apart w own)

theorem settles_bind {α β : Type} {a : Attempt α} {f : α → Attempt β} (first : a.Settles t t')
    (rest : ∀ w x v, a.run w = (.ok x, v) → (f x).Settles t t') : (a >>= f).Settles t t' := by
  intro w own
  rw [run_bind, run_bind]
  rcases first w own with same | ⟨kept, other⟩
  · rw [same]
    exact .inl rfl
  · rw [other]
    cases ran : a.run w with
    | mk result v =>
      rw [ran] at kept
      cases result with
      | error h => exact .inr ⟨kept, rfl⟩
      | ok x => exact rest w x v ran v kept

def Keeps (d : TrackedDirectories) (a : Attempt α) : Prop :=
  ∀ w, w.tracked = d → (a.run w).2.tracked = d

theorem Asks.keeps {α : Type} {a : Attempt α} (asks : a.Asks) : a.Keeps d := by
  intro w own
  obtain ⟨asked, quiet⟩ := asks.quiet w
  rw [quiet]
  exact own

theorem keeps_bind {α β : Type} {a : Attempt α} {f : α → Attempt β} (first : a.Keeps d)
    (rest : ∀ w x v, a.run w = (.ok x, v) → (f x).Keeps d) : (a >>= f).Keeps d := by
  intro w own
  have kept := first w own
  rw [run_bind]
  cases ran : a.run w with
  | mk result v =>
    rw [ran] at kept
    cases result with
    | error h => exact kept
    | ok x => exact rest w x v ran v kept

theorem keeps_tracking {α : Type} {p : Path} {body : Attempt α}
    (fresh : ∀ q ∈ d.paths, TrackedDirectories.samePlace p q = false)
    (inner : body.Keeps (d.track p)) : (tracking p body).Keeps d := by
  intro w own
  cases ended : (tracking p body).run w with
  | mk result w' =>
    obtain ⟨w₁, inside, rfl⟩ := tracking_eq.mp ended
    have kept := inner { w with tracked := w.tracked.track p } (by rw [own])
    rw [inside] at kept
    show w₁.tracked.release p = d
    rw [kept, TrackedDirectories.release_track fresh]

end Attempt

theorem Context.call_tracked {c : Context} {i : Implementation} (confined : i.Confined)
    (s : Progress) : (c.call i s).2.world.tracked = s.world.tracked := by
  induction i generalizing s with
  | done result => rfl
  | step op next ih =>
    have first : (c.perform s op).2.world.tracked = s.world.tracked := by
      by_cases own : op.Own
      · exact perform_tracked own
      · cases op with
        | meanwhile change =>
          cases confined.1
          rfl
        | _ => exact absurd trivial own
    rw [call_step]
    split
    · exact first
    · exact (ih _ (confined.2 _) _).trans first

namespace Evaluator

open Attempt

variable {v : Evaluator} {engine : Engine} {id : ExtensionId} {a : Approach} {c : Context}
  {w start : World} {t t' : FileTree} {d : TrackedDirectories} {extension : Extension}
  {usages : ExtensionUsages}

theorem settles_run
    (cleared : (v.workingDirectory usages).clear t = (v.workingDirectory usages).clear t')
    (location : Location) : (v.run engine id extension usages location).Settles t t' := by
  rw [run]
  refine settles_bind (asks_ofExcept _ _).settles (fun _ modules _ _ w own => ?_)
  have same : (clear (v.workingDirectory usages)).run { w with files := t' } =
      (clear (v.workingDirectory usages)).run w := by
    rw [clear_run, clear_run, own, cleared]
  refine .inl ?_
  rw [run_bind, run_bind, same]

theorem settles_attempt (cleared : ∀ usages, engine.usages w.asked id = .ready usages →
      (v.workingDirectory usages).clear w.files = (v.workingDirectory usages).clear t') :
    (v.attempt engine id).run { w with files := t' } = (v.attempt engine id).run w ∨
      (((v.attempt engine id).run w).2.files = w.files ∧
        (v.attempt engine id).run { w with files := t' } = (((v.attempt engine id).run w).1,
          { ((v.attempt engine id).run w).2 with files := t' })) := by
  rw [attempt_eq, run_bind, run_bind]
  rcases (asks_approach v engine id).settles w rfl with same | ⟨kept, other⟩
  · rw [same]
    exact .inl rfl
  · rw [other]
    cases approached : (v.approach engine id).run w with
    | mk result w₁ =>
      rw [approached] at kept
      cases result with
      | error h => exact .inr ⟨kept, rfl⟩
      | ok a =>
        have concludes : (v.conclude engine id a).Settles w.files t' := by
          cases decided : a.decision with
          | reuse entry => exact (asks_conclude v engine id decided).settles
          | evaluate record =>
            obtain ⟨finds, -⟩ := approach_eq_decide.mp approached
            simp only [conclude, decided]
            exact settles_bind (settles_run (cleared _ finds.usages) a.location)
              (fun _ _ _ _ => (Asks.bind (asks_ofExcept _ _) (fun _ => .pure _)).settles)
        exact concludes w₁ kept

theorem keeps_clear (directory : WorkingDirectory) : (clear directory).Keeps d := by
  intro w own
  rw [clear_run]
  exact (asks_ofExcept _ _).keeps _ own

theorem keeps_call {i : Implementation} (confined : i.Confined) : (call c i).Keeps d := by
  intro w own
  rw [call_run]
  exact (Context.call_tracked confined _).trans own

theorem keeps_report (diagnostic : Diagnostic) :
    (modify (fun w => w.report diagnostic) : Attempt PUnit).Keeps d := fun _ own => own

theorem keeps_settle (location : Location) (generated : RepoSpecs)
    (result : Except Interrupt Return) : (settle c usages location generated result).Keeps d := by
  cases result with
  | ok returned => cases returned with
    | none => exact (Asks.pure generated).keeps
    | invalid typeName => exact (Asks.halt _).keeps
    | metadata m =>
      refine keeps_bind (asks_ofExcept _ _).keeps (fun _ found _ _ => ?_)
      cases found with
      | none => exact (Asks.pure generated).keeps
      | some warning =>
        exact keeps_bind (keeps_report warning) (fun _ _ _ _ => (Asks.pure generated).keeps)
  | error interrupt => cases interrupt with
    | restart => exact keeps_bind (keeps_clear _) (fun _ _ _ _ => (Asks.halt .notReady).keeps)
    | error e => exact keeps_bind (keeps_report _) (fun _ _ _ _ => (Asks.halt _).keeps)
    | panic => exact (Asks.halt _).keeps

theorem keeps_run (confined : extension.implementation.Confined)
    (fresh : ∀ p ∈ d.paths, TrackedDirectories.samePlace (v.workingDirectory usages).path p = false)
    (location : Location) : (v.run engine id extension usages location).Keeps d := by
  rw [run]
  refine keeps_bind (asks_ofExcept _ _).keeps (fun _ modules _ _ => ?_)
  refine keeps_bind (keeps_clear _) (fun _ _ _ _ => keeps_tracking fresh ?_)
  exact keeps_bind (keeps_call confined)
    (fun _ called _ _ => keeps_settle location called.2 called.1)

theorem evaluate_tracked (confined : engine.Confined)
    (fresh : ∀ usages, engine.usages w.asked id = .ready usages → ∀ p ∈ w.tracked.paths,
      TrackedDirectories.samePlace (v.workingDirectory usages).path p = false) :
    (v.evaluate engine id w).2.tracked = w.tracked := by
  rw [evaluate_eq, attempt_eq]
  have kept := (asks_approach v engine id).keeps w rfl
  rw [run_bind]
  cases approached : (v.approach engine id).run w with
  | mk result w₁ =>
    rw [approached] at kept
    cases result with
    | error h => exact kept
    | ok a =>
      have concludes : (v.conclude engine id a).Keeps w.tracked := by
        cases decided : a.decision with
        | reuse entry => exact (asks_conclude v engine id decided).keeps
        | evaluate record =>
          obtain ⟨finds, -⟩ := approach_eq_decide.mp approached
          simp only [conclude, decided]
          exact keeps_bind (keeps_run (confined _ _ _ _ _ finds.script finds.extension)
            (fresh _ finds.usages) a.location)
            (fun _ _ _ _ => (Asks.bind (asks_ofExcept _ _) (fun _ => .pure _)).keeps)
      exact concludes w₁ kept

theorem Calls.nothing_left (calls : v.Calls engine id w a c start)
    (unhindered : w.files.Unhindered c.directory.path) (rooted : w.files.Rooted) {q : Place}
    (inside : c.directory.path.place.leadsTo q = true) :
    start.files.entry? q = none := by
  cases calls with
  | called w₁ record modules files approached decided tagged cleared =>
    obtain ⟨asked, quiet⟩ := (asks_approach v engine id).quiet w
    rw [approached] at quiet
    dsimp only at quiet
    subst quiet
    obtain ⟨free, rfl⟩ := WorkingDirectory.clear_cutOff unhindered
      (WorkingDirectory.named_text _ _) rooted cleared
    show FileTree.entry? (FileTree.cutOff _ _) q = none
    rw [FileTree.entry?_cutOff, if_neg, if_pos inside]
    intro fixed
    rw [Place.isFixed_of_leadsTo inside fixed] at free
    cases free

theorem Calls.directory_eq (calls : v.Calls engine id w a c start)
    (ready : engine.usages w.asked id = .ready usages) :
    c.directory = v.workingDirectory usages := by
  cases calls with
  | called w₁ record modules files approached decided tagged cleared =>
    obtain ⟨finds, -⟩ := approach_eq_decide.mp approached
    cases finds.usages.symm.trans ready
    rfl

end Evaluator

/-- No working directory is found when its extension is called. Unless something else hinders its
path nothing is left there at all, and what was there has no part in what the evaluation comes to:
the files are the same afterwards, unless the lockfile or a failure kept the evaluation from its
call. No evaluation leaves a directory tracked, or untracked, that was not so before. -/
theorem evaluate_forgets_leftovers (v : Evaluator) (engine : Engine) (id : ExtensionId)
    (w : World) :
    (∀ a c start, v.Calls engine id w a c start → c.directory.exists? start.files = false) ∧
    (∀ usages, engine.usages w.asked id = .ready usages →
      w.files.Unhindered (v.workingDirectory usages).path → w.files.Rooted →
      ((v.workingDirectory usages).clear w.files).2 = .ok () →
      (∀ a c start, v.Calls engine id w a c start → c.directory = v.workingDirectory usages ∧
        ∀ q, c.directory.path.place.leadsTo q = true → start.files.entry? q = none) ∧
      ∀ t : FileTree, t.Rooted →
        FileTree.SameOutside (v.workingDirectory usages).path.place w.files t →
        ((v.workingDirectory usages).clear t).2 = .ok () →
        ∃ result u files, v.evaluate engine id w = (result, u) ∧
          v.evaluate engine id { w with files := t } = (result, { u with files }) ∧
          (files = u.files ∨ (u.files = w.files ∧ files = t))) ∧
    (engine.Confined →
      (∀ usages, engine.usages w.asked id = .ready usages → ∀ p ∈ w.tracked.paths,
        TrackedDirectories.samePlace (v.workingDirectory usages).path p = false) →
      (v.evaluate engine id w).2.tracked = w.tracked) := by
  refine ⟨?_, fun usages ready unhindered rooted cleared => ⟨?_, ?_⟩, Evaluator.evaluate_tracked⟩
  · rintro a c start ⟨w₁, record, modules, files, approached, decided, tagged, cleared⟩
    exact WorkingDirectory.exists?_of_clear cleared
  · intro a c start calls
    have same := calls.directory_eq ready
    exact ⟨same, fun q inside => calls.nothing_left (same ▸ unhindered) rooted inside⟩
  · intro t rooted' same cleared'
    have alike (others : ExtensionUsages) (found : engine.usages w.asked id = .ready others) :
        (v.workingDirectory others).clear w.files = (v.workingDirectory others).clear t := by
      cases ready.symm.trans found
      exact WorkingDirectory.clear_congr unhindered (WorkingDirectory.named_text _ _) rooted rooted'
        same cleared cleared'
    rw [Evaluator.evaluate_eq, Evaluator.evaluate_eq]
    rcases Evaluator.settles_attempt alike with equal | ⟨kept, other⟩
    · rw [equal]
      exact ⟨_, _, _, rfl, rfl, .inl rfl⟩
    · rw [other]
      exact ⟨_, _, t, rfl, rfl, .inr ⟨kept, rfl⟩⟩

section Scavenging

def scavenging : Implementation :=
  .step (.write ⟨"mark"⟩ []) (fun _ => .step (.read ⟨"leftover"⟩) (fun r =>
    .done ((r.mapError .error).map (fun _ => .none))))

def leftoverTree : FileTree := ⟨.ofList [(.ofNames ["out"], .directory),
  (.ofNames ["out", "modextwd"], .directory),
  (.ofNames ["out", "modextwd", "_main~deps"], .directory),
  (.ofNames ["out", "modextwd", "_main~deps", "leftover"], .file [])]⟩

def cleanTree : FileTree := ⟨.ofList [(.ofNames ["out"], .directory),
  (.ofNames ["out", "modextwd"], .directory)]⟩

def climbingGraph : DepGraph := .ofList [(.root,
  (Module.root "app" .empty).withUsage (.bare ExtensionId.climbing ⟨"MODULE.bazel", 1, 1⟩))]

/-- The directory that the climbing key leads to, while the way there is missing. -/
def hiddenTree : FileTree := ⟨.ofList [(.ofNames ["victim"], .directory),
  (.ofNames ["victim", "leftover"], .file [])]⟩

/-- What an earlier evaluation has left makes no difference to a plain extension. To one with a
climbing key it does, though its directory is cleared without a fault each time. -/
theorem leftovers_forgotten_unless_hidden :
    (∃ result u files,
      freshSession.evaluator.evaluate (soleEngine bareLockfile.depGraph scavenging) depsId
        (.ofFiles leftoverTree) = (result, u) ∧
      freshSession.evaluator.evaluate (soleEngine bareLockfile.depGraph scavenging) depsId
        (.ofFiles cleanTree) = (result, { u with files }) ∧ result.isOk = false ∧
      u.tracked = .empty) ∧
    (∃ usages, (soleEngine climbingGraph scavenging).usages [] ExtensionId.climbing =
        .ready usages ∧
      (freshSession.evaluator.workingDirectory usages).path.place = .ofNames ["victim"] ∧
      ((freshSession.evaluator.workingDirectory usages).clear hiddenTree).2 = .ok () ∧
      ((freshSession.evaluator.workingDirectory usages).clear .empty).2 = .ok ()) ∧
    (freshSession.evaluator.evaluate (soleEngine climbingGraph scavenging) .climbing
      (.ofFiles hiddenTree)).1.isOk = true ∧
    (freshSession.evaluator.evaluate (soleEngine climbingGraph scavenging) .climbing
      (.ofFiles .empty)).1.isOk = false := by
  refine ⟨?_, ⟨_, rfl, by decide, by decide, by decide⟩, by rfl, by rfl⟩
  have clean : (FileTree.empty.createDirectories ⟨"out/modextwd"⟩).1 = cleanTree := by decide
  have made : FileTree.write (FileTree.empty.createDirectories ⟨"out/modextwd/_main~deps"⟩).1
      ⟨"out/modextwd/_main~deps/leftover"⟩ [] = .ok leftoverTree := by rfl
  have rooted : leftoverTree.Rooted :=
    (FileTree.Rooted.empty.createDirectories _).write made
  have rooted' : cleanTree.Rooted := clean ▸ FileTree.Rooted.empty.createDirectories _
  obtain ⟨-, forgets, kept⟩ := evaluate_forgets_leftovers freshSession.evaluator
    (soleEngine bareLockfile.depGraph scavenging) depsId (.ofFiles leftoverTree)
  have direct : Path.Direct ⟨"out/modextwd/_main~deps"⟩ := by
    refine ⟨[], ["out", "modextwd", "_main~deps"].map .normal, rfl,
      fun _ none => absurd none List.not_mem_nil, fun c member => ?_⟩
    obtain ⟨name, -, same⟩ := List.mem_map.mp member
    exact ⟨name, same.symm⟩
  obtain ⟨-, same⟩ := forgets _ rfl (FileTree.unhindered_of_direct direct _) rooted (by decide)
  obtain ⟨result, u, files, one, other, -⟩ := same cleanTree rooted'
    (FileTree.cutOff_eq_iff.mp (by decide)) (by decide)
  have confined : (soleEngine bareLockfile.depGraph scavenging).Confined :=
    soleEngine_confined ⟨trivial, fun _ => ⟨trivial, fun _ => trivial⟩⟩
  have tracked := kept confined (fun _ _ _ none => absurd none List.not_mem_nil)
  rw [one] at tracked
  refine ⟨result, u, files, one, other, ?_, tracked⟩
  have found : (freshSession.evaluator.evaluate (soleEngine bareLockfile.depGraph scavenging)
    depsId (.ofFiles leftoverTree)).1.isOk = false := by rfl
  rwa [one] at found

end Scavenging

end ExtensionLock
