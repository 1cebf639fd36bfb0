import ExtensionLock.Proofs.Rounds

/-! Evaluations that the lockfile answers. They ask the engine and change nothing, whether the
engine has its answers ready or not; all that can go wrong is that they wait too long for it. -/

namespace ExtensionLock

/-- An attempt that may ask questions, and changes nothing else. -/
def Attempt.Quiet (a : Attempt α) : Prop :=
  ∀ w : World, ∃ asked, (a.run w).2 = { w with asked }

theorem Attempt.Asks.quiet {α : Type} {a : Attempt α} (asks : a.Asks) : a.Quiet := by
  induction asks with
  | pure x => exact fun w => ⟨w.asked, rfl⟩
  | halt h => exact fun w => ⟨w.asked, rfl⟩
  | ask q answer => exact fun w => ⟨w.asked ++ [q], rfl⟩
  | @bind _ _ a f first rest ihFirst ihRest =>
    intro w
    obtain ⟨asked, eq⟩ := ihFirst w
    rw [run_bind]
    cases h : a.run w with
    | mk result w₁ =>
      rw [h] at eq
      dsimp only at eq
      subst eq
      cases result with
      | error halt => exact ⟨asked, rfl⟩
      | ok x => exact ihRest x _

namespace Evaluator

variable {v : Evaluator} {engine : Engine} {id : ExtensionId}

theorem evaluate_quiet_of_reuse (w : World) (reuses : ∀ a w₁,
      (v.approach engine id).run w = (.ok a, w₁) → ∃ entry, a.decision = .reuse entry) :
    ∃ asked, (v.evaluate engine id w).2 = { w with asked } := by
  rw [evaluate_eq, attempt_eq, run_bind]
  obtain ⟨asked, eq⟩ := (asks_approach v engine id).quiet w
  cases approached : (v.approach engine id).run w with
  | mk result w₁ =>
    rw [approached] at eq
    dsimp only at eq
    subst eq
    cases result with
    | error halt => exact ⟨asked, rfl⟩
    | ok a =>
      obtain ⟨entry, reuse⟩ := reuses a _ approached
      exact (asks_conclude v engine id reuse).quiet _

end Evaluator

/-- What an engine says is what a graph has about usages, and what scripts with some digests are. -/
structure Engine.Serves (e : Engine) (g : DepGraph) (digests : Label → Digest) : Prop where
  indexed : e.Indexed g
  digests : ∀ asked label script, e.script asked label = .ok (.ready script) →
    script.digest = digests label

/-- A lockfile has an entry for an extension as some graph uses it and some scripts make it. -/
def Lockfile.Covers (l : Lockfile) (g : DepGraph) (digests : Label → Digest) (id : ExtensionId) :
    Prop := ∀ u, g.usagesOf id = some u → ∃ entry, l.Answers id (digests id.label) u.usages entry

section Quiet

variable {e : Engine} {g : DepGraph} {digests : Label → Digest} {l : Lockfile}

theorem Evaluator.decides_reuse {v : Evaluator} {id : ExtensionId} {asked : List Query}
    {a : Approach} (serves : e.Serves g digests) (on : v.mode ≠ .off)
    (covered : l.Covers g digests id) (decides : v.Decides e l id asked a) :
    ∃ entry, a.decision = .reuse entry ∧
      l.Answers id (digests id.label) a.usages.usages entry := by
  obtain ⟨entry, answers⟩ := covered _ (serves.indexed _ _ _ decides.usages)
  have decided := decides.decision
  rw [serves.digests _ _ _ decides.script,
    LockfileMode.decide_eq_reuse_iff.mpr ⟨on, answers⟩] at decided
  exact ⟨entry, (Except.ok.inj decided).symm, answers⟩

/-- An extension that the lockfile covers is never run. -/
theorem Evaluator.evaluate_quiet {v : Evaluator} {id : ExtensionId} (serves : e.Serves g digests)
    (on : v.mode ≠ .off) (covered : l.Covers g digests id) (w : World) :
    ∃ asked, (v.evaluate (e.withLockfile l) id w).2 = { w with asked } := by
  refine evaluate_quiet_of_reuse w (fun a w₁ approached => ?_)
  obtain ⟨entry, reuse, -⟩ := decides_reuse serves on covered (approach_eq_ok.mp approached).1
  exact ⟨entry, reuse⟩

namespace Session

variable {s : Session}

theorem round_quiet {ids : List ExtensionId} (quiet : ∀ id ∈ ids, ∀ w : World,
      ∃ asked, (s.evaluator.evaluate (s.engine e) id w).2 = { w with asked }) (w : World) :
    ∃ asked, (s.round e ids w).2 = { w with asked } := by
  induction ids generalizing w with
  | nil => exact ⟨w.asked, rfl⟩
  | cons id rest ih =>
    obtain ⟨asked, eq⟩ := quiet id List.mem_cons_self w
    obtain ⟨asked', eq'⟩ :=
      ih (fun other member => quiet other (List.mem_cons_of_mem _ member)) { w with asked }
    refine ⟨asked', ?_⟩
    change (s.round e rest (s.evaluator.evaluate (s.engine e) id w).2).2 = _
    rw [eq, eq']

theorem rounds_quiet {left done : Nat} {pending : List ExtensionId}
    (quiet : ∀ id ∈ pending, ∀ w : World,
      ∃ asked, (s.evaluator.evaluate (s.engine e) id w).2 = { w with asked })
    (values : Values) (w : World) :
    ∃ asked, (rounds e left done s pending values w).2.2 = { w with asked } := by
  induction left generalizing done s pending values w with
  | zero =>
    cases pending with
    | nil => exact ⟨w.asked, rfl⟩
    | cons id rest =>
      simp only [rounds]
      split <;> exact ⟨w.asked, rfl⟩
  | succ left ih =>
    cases pending with
    | nil => exact ⟨w.asked, rfl⟩
    | cons id rest =>
      simp only [rounds]
      split
      · exact ⟨w.asked, rfl⟩
      · obtain ⟨asked, eq⟩ := round_quiet quiet w
        cases sifted : sift (s.round e (id :: rest) w).1 with
        | error failure => exact ⟨asked, eq⟩
        | ok divided =>
          obtain ⟨ready, waiting⟩ := divided
          have continues := continues_acceptAll s ready
          have quiet' : ∀ id ∈ waiting, ∀ w : World, ∃ asked,
              ((s.acceptAll ready).evaluator.evaluate ((s.acceptAll ready).engine e) id w).2 =
                { w with asked } := by
            rw [continues.evaluator, engine, continues.lockfile]
            exact fun other member => quiet other (waiting_subset sifted member)
          change ∃ asked, (rounds e left (done + 1) (s.acceptAll ready) waiting
            (values.insertAll (valuesOf ready)) (s.round e (id :: rest) w).2).2.2 =
              { w with asked }
          rw [eq]
          exact ih quiet' _ { w with asked }

end Session

end Quiet

/-- An engine has the scripts of some extensions, now or later, and these have the extensions. -/
def Engine.Delivers (e : Engine) (ids : List ExtensionId) : Prop :=
  ∀ asked, ∀ id ∈ ids, ∃ answer, e.script asked id.label = .ok answer ∧
    ∀ script, answer = .ready script → ∃ extension, script.extension? id.name = some extension

/-- An engine never makes evaluations of some extensions wait for its answers. -/
structure Engine.Ready (e : Engine) (g : DepGraph) (ids : List ExtensionId) : Prop where
  usages : ∀ asked id u, g.usagesOf id = some u → e.usages asked id ≠ .notReady
  scripts : ∀ asked, ∀ id ∈ ids, e.script asked id.label ≠ .ok .notReady

/-- A lockfile has a value for an extension as some graph uses it and some scripts make it. -/
def Lockfile.Supplies (l : Lockfile) (g : DepGraph) (digests : Label → Digest) (id : ExtensionId)
    (value : ExtensionValue) : Prop :=
  ∃ u location entry, g.usagesOf id = some u ∧ u.sampleLocation = some location ∧
    id.label.checkLoadable = .ok () ∧ l.Answers id (digests id.label) u.usages entry ∧
    value = .ofSpecs u.uniqueName entry.specs

theorem Lockfile.Supplies.covers {l : Lockfile} {g : DepGraph} {digests : Label → Digest}
    {id : ExtensionId} {value : ExtensionValue} (supplies : l.Supplies g digests id value) :
    l.Covers g digests id := by
  obtain ⟨u, -, entry, used, -, -, answers, -⟩ := supplies
  intro u' used'
  rw [used] at used'
  cases used'
  exact ⟨entry, answers⟩

theorem Lockfile.Answers.generates {l : Lockfile} {id : ExtensionId} {digest : Digest}
    {usages : ModuleUsages} {entry : LockedExtension} (answers : l.Answers id digest usages entry)
    (valid : l.validate = .ok ()) : entry.specs.Generates usages := by
  obtain ⟨x, grouped, agree⟩ := answers.usages
  apply RepoSpecs.Generates.of_beq _ agree
  cases found : x.get? id with
  | none =>
    rw [SortedMap.getD, found]
    intro key u nothing
    cases nothing
  | some perModule =>
    rw [SortedMap.getD_of_get? found]
    exact (validate_of_usages grouped).mp valid id entry answers.entry perModule found

section Supplied

variable {e : Engine} {g : DepGraph} {digests : Label → Digest} {ids : List ExtensionId}

def lockedEvaluation (value : ExtensionValue) : Evaluation := ⟨value, none, true⟩

namespace Evaluator

variable {v : Evaluator} {engine : Engine} {l : Lockfile} {id : ExtensionId}
  {value : ExtensionValue} {w : World}

theorem Settles.of_supplies {evaluation : Evaluation} (serves : e.Serves g digests)
    (on : v.mode ≠ .off) (supplies : l.Supplies g digests id value)
    (settled : v.Settles e l id w evaluation) : evaluation = lockedEvaluation value := by
  have covered := supplies.covers
  obtain ⟨u, -, entry, used, -, -, answers, rfl⟩ := supplies
  cases settled with
  | reused a locked decides reuse generates =>
    have same := serves.indexed _ _ _ decides.usages
    rw [used] at same
    cases same
    obtain ⟨entry', reuse', answers'⟩ := decides_reuse serves on covered decides
    rw [reuse] at reuse'
    cases reuse'
    have one := answers'.entry
    rw [answers.entry] at one
    cases one
    rfl
  | ran a record specs decides evaluate generates completes =>
    obtain ⟨entry', reuse, -⟩ := decides_reuse serves on covered decides
    rw [evaluate] at reuse
    cases reuse

theorem evaluate_of_usages_notReady (waiting : engine.usages w.asked id = .notReady) :
    (v.evaluate engine id w).1 = .ok .notReady := by
  have halted : (askUsages engine id).run w = (.error .notReady, w.ask (.usages id)) := by
    rw [askUsages, run_bind, Attempt.ask_run, waiting]
    rfl
  rw [evaluate, attempt, run_bind, halted]

theorem evaluate_of_script_notReady {u : ExtensionUsages} {location : Location}
    (used : engine.usages w.asked id = .ready u) (located : u.sampleLocation = some location)
    (loadable : id.label.checkLoadable = .ok ())
    (waiting : engine.script (w.asked ++ [.usages id]) id.label = .ok .notReady) :
    (v.evaluate engine id w).1 = .ok .notReady := by
  have asked : (askUsages engine id).run w = (.ok u, w.ask (.usages id)) :=
    askUsages_eq_ok.mpr ⟨used, rfl⟩
  have halted : (askScript engine id.label location).run (w.ask (.usages id)) =
      (.error .notReady, (w.ask (.usages id)).ask (.script id.label)) := by
    rw [askScript, run_bind, Attempt.ask_run]
    change (Attempt.ofExcept _ (engine.script (w.asked ++ [.usages id]) id.label) >>= _).run _ = _
    rw [waiting]
    rfl
  have checked : (Attempt.ofExcept .invalidLabel id.label.checkLoadable).run (w.ask (.usages id)) =
      (.ok (), w.ask (.usages id)) := Attempt.ofExcept_eq_ok.mpr ⟨loadable, rfl⟩
  rw [evaluate, attempt, run_bind, asked]
  simp only [located, pure_bind]
  rw [run_bind, checked]
  dsimp only
  rw [run_bind, halted]

theorem evaluate_of_supplies (serves : e.Serves g digests) (delivers : e.Delivers ids)
    (on : v.mode ≠ .off) (valid : l.validate = .ok ()) (member : id ∈ ids)
    (supplies : l.Supplies g digests id value) (w : World) :
    (v.evaluate (e.withLockfile l) id w).1 = .ok (.ready (lockedEvaluation value)) ∨
      ¬ e.Ready g ids ∧ (v.evaluate (e.withLockfile l) id w).1 = .ok .notReady := by
  obtain ⟨u, location, entry, used, located, loadable, answers, rfl⟩ := supplies
  cases asked : e.usages w.asked id with
  | notReady =>
    refine .inr ⟨fun ready => ready.usages _ _ _ used asked, ?_⟩
    exact evaluate_of_usages_notReady asked
  | ready u' =>
    have same := serves.indexed _ _ _ asked
    rw [used] at same
    cases same
    obtain ⟨answer, loaded, exports⟩ := delivers (w.asked ++ [.usages id]) id member
    cases answer with
    | notReady =>
      refine .inr ⟨fun ready => ready.scripts _ _ member loaded, ?_⟩
      exact evaluate_of_script_notReady asked located loadable loaded
    | ready script =>
      obtain ⟨extension, exported⟩ := exports script rfl
      have decides : v.Decides e l id w.asked ⟨u, location, script, extension, .reuse entry⟩ :=
        ⟨asked, located, loadable, loaded, exported, by
          rw [serves.digests _ _ _ loaded]
          exact LockfileMode.decide_eq_reuse_iff.mpr ⟨on, answers⟩⟩
      exact .inl (congrArg Prod.fst (evaluate_of_reuse decides rfl (answers.generates valid)))

end Evaluator

namespace Session

variable {s : Session} {value : ExtensionId → ExtensionValue}

theorem acceptAll_locked (s : Session) {settled : List (ExtensionId × Evaluation)}
    (locked : ∀ r ∈ settled, r.2 = lockedEvaluation (value r.1)) : s.acceptAll settled = s := by
  induction settled with
  | nil => rfl
  | cons r rest ih =>
    obtain ⟨here, there⟩ := List.forall_mem_cons.mp locked
    have unchanged : s.accept r.2 = s := by rw [here]; rfl
    exact (congrArg (fun s => s.acceptAll rest) unchanged).trans (ih there)

theorem sift_of_ok {outcomes : Outcomes} (fine : ∀ r ∈ outcomes, ∃ step, r.2 = .ok step) :
    ∃ ready waiting, sift outcomes = .ok (ready, waiting) := by
  induction outcomes with
  | nil => exact ⟨[], [], rfl⟩
  | cons r rest ih =>
    obtain ⟨⟨step, here⟩, there⟩ := List.forall_mem_cons.mp fine
    obtain ⟨ready, waiting, sifted⟩ := ih there
    obtain ⟨id, outcome⟩ := r
    cases here
    cases step with
    | ready evaluation => exact ⟨(id, evaluation) :: ready, waiting, by rw [sift, sifted]; rfl⟩
    | notReady => exact ⟨ready, id :: waiting, by rw [sift, sifted]; rfl⟩

theorem round_of_supplies (serves : e.Serves g digests) (delivers : e.Delivers ids)
    (on : s.mode ≠ .off) (valid : s.lockfile.validate = .ok ())
    (supplies : ∀ id ∈ ids, s.lockfile.Supplies g digests id (value id))
    {pending : List ExtensionId} (known : pending ⊆ ids) (w : World) :
    ∃ ready waiting asked, sift (s.round e pending w).1 = .ok (ready, waiting) ∧
      s.acceptAll ready = s ∧ waiting ⊆ pending ∧ (e.Ready g ids → waiting = []) ∧
      (s.round e pending w).2 = { w with asked } := by
  have answered : ∀ r ∈ (s.round e pending w).1,
      r.2 = .ok (.ready (lockedEvaluation (value r.1))) ∨
        ¬ e.Ready g ids ∧ r.2 = .ok .notReady := by
    intro r member
    have here : r.1 ∈ pending := (round_ids s e pending w) ▸ List.mem_map_of_mem member
    obtain ⟨w', -, eq⟩ := mem_round member
    rw [← eq]
    exact Evaluator.evaluate_of_supplies serves delivers on valid (known here)
      (supplies r.1 (known here)) w'
  have fine : ∀ r ∈ (s.round e pending w).1, ∃ step, r.2 = .ok step := by
    intro r member
    rcases answered r member with settles | ⟨-, waits⟩
    · exact ⟨_, settles⟩
    · exact ⟨_, waits⟩
  obtain ⟨ready, waiting, sifted⟩ := sift_of_ok fine
  obtain ⟨settled, unsettled, -⟩ := sift_eq_ok sifted
  have locked : ∀ r ∈ ready, r.2 = lockedEvaluation (value r.1) := by
    intro r member
    rcases answered _ (settled r member) with same | ⟨-, other⟩
    · exact Step.ready.inj (Except.ok.inj same)
    · cases other
  have empty : e.Ready g ids → waiting = [] := by
    intro prompt
    refine List.eq_nil_iff_forall_not_mem.mpr (fun id member => ?_)
    rcases answered _ (unsettled id member) with other | ⟨late, -⟩
    · cases other
    · exact late prompt
  obtain ⟨asked, quiet⟩ := round_quiet (s := s) (e := e) (fun id member =>
    Evaluator.evaluate_quiet serves on (supplies id (known member)).covers) w
  exact ⟨ready, waiting, asked, sifted, acceptAll_locked s locked, waiting_subset sifted, empty,
    quiet⟩

theorem rounds_of_supplies (serves : e.Serves g digests) (delivers : e.Delivers ids)
    (on : s.mode ≠ .off) (valid : s.lockfile.validate = .ok ())
    (supplies : ∀ id ∈ ids, s.lockfile.Supplies g digests id (value id)) {left done : Nat}
    {pending : List ExtensionId} (known : pending ⊆ ids) (values : Values) {w : World}
    (going : w.cancelled = false) :
    ∃ result asked, rounds e left done s pending values w = (result, s, { w with asked }) ∧
      ((∃ V, result = .ok V) ∨ (e.Ready g ids → left = 0) ∧
        ∃ waiting, result = .error (.noProgress (done + left) waiting)) := by
  induction left generalizing done pending values w with
  | zero =>
    cases pending with
    | nil => exact ⟨.ok values, w.asked, rfl, .inl ⟨values, rfl⟩⟩
    | cons id rest =>
      refine ⟨.error (.noProgress done (id :: rest)), w.asked, ?_, .inr ⟨fun _ => rfl, _, rfl⟩⟩
      rw [rounds, if_neg (Bool.eq_false_iff.mp going)]
      exact fun h => (by cases h)
  | succ left ih =>
    cases pending with
    | nil => exact ⟨.ok values, w.asked, rfl, .inl ⟨values, rfl⟩⟩
    | cons id rest =>
      obtain ⟨ready, waiting, asked, sifted, unchanged, fewer, prompt, quiet⟩ :=
        round_of_supplies serves delivers on valid supplies known w
      rw [rounds_step going sifted, unchanged, quiet]
      obtain ⟨result, asked', eq, outcome⟩ := @ih (done + 1) waiting
        (fun _ member => known (fewer member)) (values.insertAll (valuesOf ready))
        { w with asked } going
      refine ⟨result, asked', eq, ?_⟩
      rcases outcome with returned | ⟨-, left', out⟩
      · exact .inl returned
      · refine .inr ⟨fun always => ?_, left', ?_⟩
        · rw [prompt always] at eq
          have returned : .ok (values.insertAll (valuesOf ready)) = result := by
            cases left <;> exact congrArg Prod.fst eq
          rw [out] at returned
          cases returned
        · rw [out, Nat.add_right_comm, Nat.add_assoc]

/-- A session whose lockfile has the values of all extensions returns these, unless it gives up
waiting for the engine. It records nothing and changes nothing but the list of questions. -/
theorem evaluateAll_of_supplies {V : Values} (serves : e.Serves g digests)
    (delivers : e.Delivers ids) (on : s.mode ≠ .off) (valid : s.lockfile.validate = .ok ())
    (values : ∀ id, V.contains id = true ↔ id ∈ ids)
    (supplies : ∀ id value, V.get? id = some value → s.lockfile.Supplies g digests id value)
    (some_round : 0 < s.maxRounds) {w : World} (going : w.cancelled = false) :
    ∃ result asked, s.evaluateAll e ids w = (result, s, { w with asked }) ∧
      (result = .ok V ∨ ¬ e.Ready g ids ∧
        ∃ waiting, result = .error (.noProgress s.maxRounds waiting)) := by
  have known : (SortedSet.ofList ids).toList ⊆ ids :=
    fun _ member => SortedSet.mem_toList_ofList.mp member
  have all : ∀ id ∈ ids, s.lockfile.Supplies g digests id (V.getD id (.ofSpecs "" .empty)) := by
    intro id member
    obtain ⟨value, found⟩ := Option.isSome_iff_exists.mp ((values id).mpr member)
    rw [SortedMap.getD_of_get? found]
    exact supplies id value found
  obtain ⟨result, asked, eq, outcome⟩ :=
    @rounds_of_supplies e g digests ids s _ serves delivers on valid all s.maxRounds 0 _ known
      .empty w going
  refine ⟨result, asked, eq, ?_⟩
  rcases outcome with ⟨V', rfl⟩ | ⟨late, waiting, out⟩
  · left
    have settlement := evaluateAll_outcome s e ids w
    generalize keptIn e s.maxRounds s (SortedSet.ofList ids).toList w = settled at settlement
    obtain ⟨settles, -, returned⟩ := settlement
    obtain ⟨rfl, permuted⟩ := returned V' (congrArg Prod.fst eq)
    have member (id : ExtensionId) : id ∈ settled.map Prod.fst ↔ id ∈ ids :=
      permuted.mem_iff.trans SortedSet.mem_toList_ofList
    have locked : valuesOf settled = (settled.map Prod.fst).map
        (fun id => (id, V.getD id (.ofSpecs "" .empty))) := by
      rw [valuesOf, List.map_map]
      refine List.map_congr_left (fun r listed => ?_)
      obtain ⟨w', -, settled'⟩ := settles r listed
      rw [Evaluator.Settles.of_supplies serves on
        (all r.1 ((member r.1).mp (List.mem_map_of_mem listed))) settled']
      rfl
    rw [locked]
    exact congrArg Except.ok (SortedMap.ofList_getD
      (permuted.nodup_iff.mpr (SortedMap.keys_nodup _))
      (fun id => (values id).trans (member id).symm) _)
  · right
    refine ⟨fun ready => absurd (late ready) (Nat.ne_of_gt some_round), waiting, ?_⟩
    rw [out, Nat.zero_add]

end Session

end Supplied

end ExtensionLock
