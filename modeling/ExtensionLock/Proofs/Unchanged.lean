import ExtensionLock.Proofs.Finish
import ExtensionLock.Proofs.Reuse

/-! Two builds of the same thing. What the first one has not found in the lockfile it has put there,
so that the second one finds everything, runs nothing and writes nothing. A build that is cancelled
is left out: it may return all its values and still writes no lockfile. -/

namespace ExtensionLock.Session

variable {s s' : Session} {e : Engine} {g : DepGraph} {digests : Label → Digest}
  {ids : List ExtensionId} {id : ExtensionId} {value : ExtensionValue} {V : Values} {w w' : World}
  {inputs : ResolutionInputs} {current before : UsagesById}

/-- A session has found a value in its lockfile, or has a fresh result for want of one. -/
def Resolves (s s' : Session) (g : DepGraph) (digests : Label → Digest) (id : ExtensionId)
    (value : ExtensionValue) : Prop :=
  ∃ u location specs, g.usagesOf id = some u ∧ u.sampleLocation = some location ∧
    id.label.checkLoadable = .ok () ∧ specs.Generates u.usages ∧
    value = .ofSpecs u.uniqueName specs ∧
    ((s'.fresh.results.get? id = some ⟨digests id.label, specs⟩ ∧
        ∀ entry, ¬ s.lockfile.Answers id (digests id.label) u.usages entry) ∨
      (s'.fresh.results.get? id = none ∧
        ∃ entry, s.lockfile.Answers id (digests id.label) u.usages entry ∧ entry.specs = specs))

/-- A build as it stands when all its extensions have been evaluated. -/
structure Resolved (s s' : Session) (g : DepGraph) (digests : Label → Digest)
    (ids : List ExtensionId) (V : Values) : Prop where
  continues : s.Continues s'
  values : ∀ id, V.contains id = true ↔ id ∈ ids
  resolves : ∀ id value, V.get? id = some value → s.Resolves s' g digests id value
  fresh : ∀ id entry, s'.fresh.results.get? id = some entry → id ∈ ids

theorem resolves_of_settles {settled : Evaluation} (update : s.mode = .update)
    (valid : s.lockfile.validate = .ok ()) (serves : e.Serves g digests)
    (settles : s.evaluator.Settles e s.lockfile id w settled)
    (kept : s'.fresh.results.get? id = settled.resolution.map Resolution.entry) :
    s.Resolves s' g digests id settled.value := by
  cases resolution : settled.resolution with
  | some res =>
    obtain ⟨-, -, a, decides, value_eq, digest, generates, unanswered, -⟩ :=
      settles.resolution resolution
    have script := serves.digests _ _ _ decides.script
    rw [script] at digest unanswered
    rw [resolution, Option.map_some] at kept
    refine ⟨a.usages, a.location, res.entry.specs, serves.indexed _ _ _ decides.usages,
      decides.location, decides.loadable, generates, value_eq, .inl ⟨?_, unanswered⟩⟩
    rw [kept, ← digest]
  | none =>
    obtain ⟨a, entry, decides, value_eq, answers⟩ := settles.locked update resolution
    have script := serves.digests _ _ _ decides.script
    rw [script] at answers
    rw [resolution, Option.map_none] at kept
    exact ⟨a.usages, a.location, entry.specs, serves.indexed _ _ _ decides.usages,
      decides.location, decides.loadable, answers.generates valid, value_eq,
      .inr ⟨kept, entry, answers, rfl⟩⟩

theorem evaluateAll_resolved (update : s.mode = .update) (valid : s.lockfile.validate = .ok ())
    (unused : s.fresh = .empty) (serves : e.Serves g digests)
    (evaluated : s.evaluateAll e ids w = (.ok V, s', w')) : s.Resolved s' g digests ids V := by
  have outcome := evaluateAll_outcome s e ids w
  generalize keptIn e s.maxRounds s (SortedSet.ofList ids).toList w = settled at outcome
  obtain ⟨known, session, returned⟩ := outcome
  rw [evaluated] at session returned
  dsimp only at session
  subst session
  obtain ⟨rfl, permuted⟩ := returned V rfl
  have once : (settled.map Prod.fst).Nodup := permuted.nodup_iff.mpr (SortedMap.keys_nodup _)
  have member (id : ExtensionId) : id ∈ settled.map Prod.fst ↔ id ∈ ids :=
    permuted.mem_iff.trans SortedSet.mem_toList_ofList
  have ids_valuesOf : (valuesOf settled).map Prod.fst = settled.map Prod.fst := by
    rw [valuesOf, List.map_map]
    rfl
  refine ⟨continues_acceptAll s settled, ?_, ?_, ?_⟩
  · intro id
    rw [SortedMap.contains_iff]
    refine (SortedMap.mem_keys_ofList (l := valuesOf settled)).trans ?_
    rw [ids_valuesOf, member]
  · intro id value found
    have listed : (id, value) ∈ valuesOf settled :=
      (SortedMap.mem_ofList (ids_valuesOf ▸ once)).mp (SortedMap.get?_eq_some_iff.mp found)
    obtain ⟨r, settled_r, same⟩ := List.mem_map.mp listed
    cases same
    obtain ⟨w₁, -, settles⟩ := known r settled_r
    refine resolves_of_settles update valid serves settles ?_
    rw [acceptAll_results known once settled_r, unused]
    cases r.2.resolution <;> rfl
  · intro id entry found
    rcases recorded_of_acceptAll found with before | ⟨r, settled_r, recorded⟩
    · rw [unused] at before
      cases before
    · have same := known.resolution_id settled_r recorded
      dsimp only at same
      rw [same, ← member]
      exact List.mem_map_of_mem settled_r

theorem supplies_merged (resolves : s.Resolves s' g digests id value)
    (now : inputs.depGraph.usagesById = .ok current) (graph : inputs.depGraph = g)
    (was : s.lockfile.usagesById = .ok before) :
    (s'.fresh.merged s.lockfile inputs current before).Supplies g digests id value := by
  obtain ⟨u, location, specs, used, located, loadable, -, rfl, source⟩ := resolves
  have here : current.get? id = some u.usages := DepGraph.get?_of_usagesOf used (graph ▸ now)
  have usages : (current.getD id .empty == u.usages) = true := by
    rw [SortedMap.getD, here]
    exact BEq.rfl
  have grouped := @FreshResults.merged_usagesById s'.fresh s.lockfile inputs current before now
  rcases source with ⟨recorded, -⟩ | ⟨unrecorded, entry, answers, rfl⟩
  · refine ⟨u, location, ⟨digests id.label, specs⟩, used, located, loadable,
      ⟨?_, rfl, current, grouped, usages⟩, rfl⟩
    rw [FreshResults.merged_get?, recorded, Option.filter_some, SortedMap.contains, here]
    rfl
  · obtain ⟨x, grouped', agree⟩ := answers.usages
    rw [was] at grouped'
    cases grouped'
    obtain ⟨key, usage, inhabited⟩ :=
      (DepGraph.usagesById_groups now).inhabited id u.usages here
    have survived : FreshResults.survives current before id = true :=
      FreshResults.survives_iff.mpr ⟨u.usages, _, here, get?_of_getD_beq agree inhabited,
        PartialEquivBEq.symm agree⟩
    refine ⟨u, location, entry, used, located, loadable,
      ⟨?_, answers.digest, current, grouped, usages⟩, rfl⟩
    rw [FreshResults.merged_get?, unrecorded, answers.entry, Option.filter_some, if_pos survived]
    rfl

theorem Resolved.merged_valid (resolved : s.Resolved s' g digests ids V)
    (valid : s.lockfile.validate = .ok ()) (now : inputs.depGraph.usagesById = .ok current)
    (graph : inputs.depGraph = g) (was : s.lockfile.usagesById = .ok before) :
    (s'.fresh.merged s.lockfile inputs current before).validate = .ok () := by
  rw [FreshResults.merged_validate_iff valid now was]
  intro id entry recorded perModule here
  obtain ⟨value, found⟩ :=
    Option.isSome_iff_exists.mp ((resolved.values id).mpr (resolved.fresh id entry recorded))
  obtain ⟨u, -, specs, used, -, -, generates, -, source⟩ := resolved.resolves id value found
  rw [DepGraph.get?_of_usagesOf used (graph ▸ now)] at here
  cases here
  rcases source with ⟨recorded', -⟩ | ⟨unrecorded, -⟩
  · rw [recorded] at recorded'
    cases recorded'
    exact generates
  · rw [recorded] at unrecorded
    cases unrecorded

theorem Resolved.nothing_fresh (resolved : s.Resolved s' g digests ids V)
    (now : inputs.depGraph.usagesById = .ok current) (graph : inputs.depGraph = g)
    (was : s.lockfile.usagesById = .ok before)
    (same : (s.lockfile == s'.fresh.merged s.lockfile inputs current before) = true)
    (id : ExtensionId) : s'.fresh.results.get? id = none := by
  cases recorded : s'.fresh.results.get? id with
  | none => rfl
  | some entry =>
    exfalso
    obtain ⟨value, found⟩ :=
      Option.isSome_iff_exists.mp ((resolved.values id).mpr (resolved.fresh id entry recorded))
    have resolves := resolved.resolves id value found
    obtain ⟨u', -, next, used', -, -, answers, -⟩ := supplies_merged resolves now graph was
    obtain ⟨u, -, specs, used, -, -, -, -, source⟩ := resolves
    rw [used] at used'
    cases used'
    rcases source with ⟨-, unanswered⟩ | ⟨unrecorded, -⟩
    · obtain ⟨locked, answers'⟩ := answers.of_beq same
      exact unanswered locked answers'
    · rw [recorded] at unrecorded
      cases unrecorded

theorem Resolves.supplies (resolves : s.Resolves s' g digests id value)
    (nothing : s'.fresh.results.get? id = none) : s.lockfile.Supplies g digests id value := by
  obtain ⟨u, location, specs, used, located, loadable, -, rfl, source⟩ := resolves
  rcases source with ⟨recorded, -⟩ | ⟨-, entry, answers, rfl⟩
  · rw [nothing] at recorded
    cases recorded
  · exact ⟨u, location, entry, used, located, loadable, answers, rfl⟩

/-- The lockfile in the file has all values, and comes to the same when it is made again. -/
structure Complete (store : LockfileStore) (t : FileTree) (inputs : ResolutionInputs)
    (digests : Label → Digest) (V : Values) (l : Lockfile) : Prop where
  loaded : store.load t = .ok (some l)
  supplies : ∀ id value, V.get? id = some value → l.Supplies inputs.depGraph digests id value
  stable : ∃ next, FreshResults.empty.build l inputs = .ok next ∧ (l == next) = true

theorem Complete.repeats {store : LockfileStore} {l : Lockfile} {v : Evaluator}
    (complete : Complete store w.files inputs digests V l)
    (values : ∀ id, V.contains id = true ↔ id ∈ ids) (serves : e.Serves inputs.depGraph digests)
    (delivers : e.Delivers ids) (on : v.mode ≠ .off) (restarts : Nat)
    (going : w.cancelled = false) :
    ∃ s result asked, start store v restarts w.files = .ok s ∧
      s.evaluateAll e ids w = (result, s, { w with asked }) ∧
      s.finish inputs { w with asked } = (.ok none, { w with asked }) ∧
      (result = .ok V ∨ ¬ e.Ready inputs.depGraph ids ∧
        ∃ waiting, result = .error (.noProgress s.maxRounds waiting)) := by
  obtain ⟨loaded, supplies, next, built, same⟩ := complete
  have found : store.loadOrEmpty w.files = .ok l := by
    rw [LockfileStore.loadOrEmpty, loaded]
    rfl
  have opened : start store v restarts w.files = .ok (withLockfile store l v restarts) := by
    rw [start, if_neg on, found]
    rfl
  obtain ⟨result, asked, evaluated, outcome⟩ := @evaluateAll_of_supplies e inputs.depGraph digests
    ids (withLockfile store l v restarts) V serves delivers on
    (LockfileStore.validate_of_loadOrEmpty found) values supplies (Nat.le_max_right _ _) w going
  refine ⟨withLockfile store l v restarts, result, asked, opened, evaluated, ?_, outcome⟩
  have there : store.exists? w.files = true := by
    obtain ⟨content, -, read, -⟩ := LockfileStore.load_eq_some loaded
    exact LockfileStore.exists?_iff.mpr ⟨content, read⟩
  have built' : (withLockfile store l v restarts).fresh.build
      (withLockfile store l v restarts).lockfile inputs = .ok next := built
  rw [finish]
  split
  · rfl
  · rw [built']
    exact if_pos (Bool.and_eq_true_iff.mpr ⟨same, there⟩)

theorem Resolved.quiet (resolved : s.Resolved s' g digests ids V) (on : s.mode ≠ .off)
    (serves : e.Serves g digests) (evaluated : s.evaluateAll e ids w = (.ok V, s', w'))
    (nothing : ∀ id, s'.fresh.results.get? id = none) : ∃ asked, w' = { w with asked } := by
  have covered : ∀ id ∈ (SortedSet.ofList ids).toList, s.lockfile.Covers g digests id := by
    intro id member u used
    obtain ⟨value, found⟩ := Option.isSome_iff_exists.mp
      ((resolved.values id).mpr (SortedSet.mem_toList_ofList.mp member))
    obtain ⟨u', -, entry, used', -, -, answers, -⟩ :=
      (resolved.resolves id value found).supplies (nothing id)
    rw [used] at used'
    cases used'
    exact ⟨entry, answers⟩
  obtain ⟨asked, eq⟩ := @rounds_quiet e s s.maxRounds 0 _
    (fun id member => Evaluator.evaluate_quiet serves on (covered id member)) .empty w
  change (s.evaluateAll e ids w).2.2 = _ at eq
  rw [evaluated] at eq
  exact ⟨asked, eq⟩

/-- A build that has written no lockfile leaves one that was complete before. -/
theorem Resolved.complete_of_unwritten {w₂ : World}
    (resolved : s.Resolved s' inputs.depGraph digests ids V) (update : s.mode = .update)
    (serves : e.Serves inputs.depGraph digests)
    (found : s.store.loadOrEmpty w.files = .ok s.lockfile)
    (evaluated : s.evaluateAll e ids w = (.ok V, s', w')) (going : w'.cancelled = false)
    (finished : s'.finish inputs w' = (.ok none, w₂)) :
    Complete s.store w₂.files inputs digests V s.lockfile := by
  have mode : s'.mode = .update := by
    rw [Session.mode, resolved.continues.evaluator, ← update, Session.mode]
  obtain ⟨rfl, next, built, same, there⟩ := finish_eq_none going mode finished
  obtain ⟨current, before, now, was, rfl⟩ := FreshResults.build_eq_ok.mp built
  rw [resolved.continues.lockfile] at same was
  rw [resolved.continues.store] at there
  have nothing := resolved.nothing_fresh now rfl was same
  have on : s.mode ≠ .off := by rw [update]; exact fun h => (by cases h)
  obtain ⟨asked, rfl⟩ := resolved.quiet on serves evaluated nothing
  refine ⟨LockfileStore.load_of_loadOrEmpty found there, fun id value got => ?_, _, ?_, same⟩
  · exact (resolved.resolves id value got).supplies (nothing id)
  · rw [FreshResults.eq_empty nothing]
    exact FreshResults.build_eq_ok.mpr ⟨current, before, now, was, rfl⟩

/-- A build that has written a lockfile has completed it. -/
theorem Resolved.complete_of_written {l : Lockfile} {w₂ : World}
    (resolved : s.Resolved s' inputs.depGraph digests ids V) (valid : s.lockfile.validate = .ok ())
    (finished : s'.finish inputs w' = (.ok (some l), w₂))
    (storable : l.Storable (some Lockfile.tagLimit)) :
    Complete s.store w₂.files inputs digests V l := by
  obtain ⟨-, built, saved, rfl⟩ := finish_eq_written finished
  obtain ⟨current, before, now, was, rfl⟩ := FreshResults.build_eq_ok.mp built
  rw [resolved.continues.lockfile] at saved was storable
  rw [resolved.continues.store] at saved
  have grouped := @FreshResults.merged_usagesById s'.fresh s.lockfile inputs current before now
  rw [resolved.continues.lockfile, resolved.continues.store]
  refine ⟨?_, fun id value found => supplies_merged (resolved.resolves id value found) now rfl was,
    _, FreshResults.build_eq_ok.mpr ⟨current, current, now, grouped,
      FreshResults.merged_again.symm⟩, BEq.rfl⟩
  refine (LockfileStore.load_saved saved storable).trans ?_
  rw [resolved.merged_valid valid now rfl was]
  rfl

/-- The second of two builds of the same thing returns what the first one has returned, unless it
gives up waiting for the engine. It changes nothing but the list of questions, so it runs no
implementation and leaves all files alone, and it has no lockfile to write. -/
theorem repeated_build {store : LockfileStore} {v v' : Evaluator} {restarts : Nat}
    {first second : Engine} {w w₁ w₂ w₃ : World} {s₀ s₁ : Session} {written : Option Lockfile}
    (update : v.mode = .update) (serves : first.Serves inputs.depGraph digests)
    (opened : start store v restarts w.files = .ok s₀)
    (evaluated : s₀.evaluateAll first ids w = (.ok V, s₁, w₁)) (going : w₁.cancelled = false)
    (finished : s₁.finish inputs w₁ = (.ok written, w₂))
    (storable : ∀ l, written = some l → l.Storable (some Lockfile.tagLimit))
    (serves' : second.Serves inputs.depGraph digests) (delivers : second.Delivers ids)
    (on : v'.mode ≠ .off) (restarts' : Nat) (files : w₃.files = w₂.files)
    (going' : w₃.cancelled = false) :
    ∃ s₂ result asked, start store v' restarts' w₃.files = .ok s₂ ∧
      s₂.evaluateAll second ids w₃ = (result, s₂, { w₃ with asked }) ∧
      s₂.finish inputs { w₃ with asked } = (.ok none, { w₃ with asked }) ∧
      (result = .ok V ∨ ¬ second.Ready inputs.depGraph ids ∧
        ∃ waiting, result = .error (.noProgress s₂.maxRounds waiting)) := by
  have on₀ : v.mode ≠ .off := by rw [update]; exact fun h => (by cases h)
  obtain ⟨l₀, loaded, rfl⟩ := (start_eq_ok on₀).mp opened
  have valid := LockfileStore.validate_of_loadOrEmpty loaded
  have resolved := evaluateAll_resolved (s := withLockfile store l₀ v restarts) update valid rfl
    serves evaluated
  have complete : ∃ l, Complete store w₃.files inputs digests V l := by
    rw [files]
    cases written with
    | none =>
      exact ⟨l₀, resolved.complete_of_unwritten update serves loaded evaluated going finished⟩
    | some l => exact ⟨l, resolved.complete_of_written valid finished (storable l rfl)⟩
  obtain ⟨l, complete⟩ := complete
  exact complete.repeats resolved.values serves' delivers on restarts' going'

end ExtensionLock.Session

namespace ExtensionLock

section Twice

theorem soleEngine_serves (g : DepGraph) (implementation : Implementation) :
    (soleEngine g implementation).Serves g (fun _ => ⟨[]⟩) where
  indexed := soleEngine_indexed g implementation
  digests asked label script loaded := by
    cases loaded
    rfl

theorem soleEngine_ready (g : DepGraph) (implementation : Implementation)
    (ids : List ExtensionId) : (soleEngine g implementation).Ready g ids where
  usages asked id u used := by
    simp only [soleEngine, used]
    exact fun h => (by cases h)
  scripts asked id member := fun h => (by cases h)

theorem soleEngine_delivers (g : DepGraph) (implementation : Implementation) :
    (soleEngine g implementation).Delivers [depsId] := by
  intro asked id member
  cases List.mem_singleton.mp member
  have found : (SortedMap.ofList [("deps", Export.extension ⟨implementation, .empty⟩)]).get?
      "deps" = some (.extension ⟨implementation, .empty⟩) :=
    (SortedMap.get?_insert_eq _ _ _ _).trans (if_pos rfl)
  refine ⟨_, rfl, fun script loaded => ⟨⟨implementation, .empty⟩, ?_⟩⟩
  cases loaded
  rw [LoadedScript.extension?]
  exact found ▸ rfl

/-- The lockfile of the first build is all that the second one needs. -/
theorem repeated_build_deps : ∃ w₁ w₂ s₁ s₂ V asked,
    freshSession.evaluateAll (soleEngine bareLockfile.depGraph (.done (.ok .none))) [depsId]
      (.ofFiles .empty) = (.ok V, s₁, w₁) ∧
    s₁.finish bareLockfile.inputs w₁ = (.ok (some bareLockfile), w₂) ∧
    Session.start freshSession.store freshSession.evaluator 1 w₂.files = .ok s₂ ∧
    s₂.evaluateAll (soleEngine bareLockfile.depGraph (.done (.ok .none))) [depsId]
      (.ofFiles w₂.files) = (.ok V, s₂, { World.ofFiles w₂.files with asked }) := by
  obtain ⟨s₂, result, asked, opened, evaluated, -, outcome⟩ :=
    @Session.repeated_build (fun _ => ⟨[]⟩) [depsId] _ bareLockfile.inputs freshSession.store
      freshSession.evaluator freshSession.evaluator 1
      (soleEngine bareLockfile.depGraph (.done (.ok .none)))
      (soleEngine bareLockfile.depGraph (.done (.ok .none))) (.ofFiles .empty) _ _ (.ofFiles _)
      freshSession _ (some bareLockfile) rfl (soleEngine_serves _ _) rfl rfl rfl rfl
      (fun l written => Option.some.inj written ▸
        storable_of_root rfl rfl rfl (fun e h => (by cases h)) (root_storable rfl rfl rfl))
      (soleEngine_serves _ _) (soleEngine_delivers _ _) (fun h => (by cases h)) 1 rfl rfl
  rcases outcome with rfl | ⟨late, -⟩
  · exact ⟨_, _, _, s₂, _, asked, rfl, rfl, opened, evaluated⟩
  · exact absurd (soleEngine_ready _ _ _) late

def cancelling : Engine := soleEngine bareLockfile.depGraph
  (.step (.meanwhile World.cancel) (fun _ => .done (.ok .none)))

/-- A build that is cancelled during its last round still returns its values and finishes, but it
writes no lockfile, and the next build runs the implementation once more. -/
theorem cancelled_build :
    ¬ ∀ (store : LockfileStore) (v v' : Evaluator) (restarts restarts' : Nat)
      (first second : Engine) (digests : Label → Digest) (ids : List ExtensionId)
      (inputs : ResolutionInputs) (w w₁ w₂ w₃ : World) (s₀ s₁ : Session) (V : Session.Values)
      (written : Option Lockfile),
      v.mode = .update → first.Serves inputs.depGraph digests →
      Session.start store v restarts w.files = .ok s₀ →
      s₀.evaluateAll first ids w = (.ok V, s₁, w₁) → s₁.finish inputs w₁ = (.ok written, w₂) →
      (∀ l, written = some l → l.Storable (some Lockfile.tagLimit)) →
      second.Serves inputs.depGraph digests → second.Delivers ids →
      second.Ready inputs.depGraph ids →
      v'.mode ≠ .off → w₃.files = w₂.files → w₃.cancelled = false →
      ∃ s₂ asked, Session.start store v' restarts' w₃.files = .ok s₂ ∧
        s₂.evaluateAll second ids w₃ = (.ok V, s₂, { w₃ with asked }) ∧
        s₂.finish inputs { w₃ with asked } = (.ok none, { w₃ with asked }) := by
  intro repeated
  obtain ⟨s₂, asked, opened, evaluated, -⟩ := repeated freshSession.store freshSession.evaluator
    freshSession.evaluator 1 1 cancelling cancelling (fun _ => ⟨[]⟩) [depsId] bareLockfile.inputs
    (.ofFiles .empty) _ _ (.ofFiles .empty) freshSession _ _ none rfl (soleEngine_serves _ _) rfl
    rfl rfl (fun l written => (by cases written)) (soleEngine_serves _ _) (soleEngine_delivers _ _)
    (soleEngine_ready _ _ _) (fun h => (by cases h)) rfl rfl
  cases opened
  have ran :
      (freshSession.evaluateAll cancelling [depsId] (.ofFiles .empty)).2.2.events.length = 1 := rfl
  have idle := congrArg (fun outcome => outcome.2.2.events.length) evaluated
  cases ran.symm.trans idle

end Twice

end ExtensionLock
