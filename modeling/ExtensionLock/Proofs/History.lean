import ExtensionLock.Proofs.Finish
import ExtensionLock.Proofs.Prune

/-! Builds of one workspace, one after the other. Whatever happens to a build, each entry of the
lockfile was made by a run of its extension, by an earlier build and for usages that agree with
those that the lockfile records; so a result that is used again was once made for just what it is
used for. -/

namespace ExtensionLock

/-- Some runs have made the entries of a lockfile, for the usages in its own graph. -/
def Lockfile.Justified (l : Lockfile) (ran : CompletedRun → Prop) : Prop :=
  ∀ x, l.usagesById = .ok x → ∀ id entry perModule, l.extensions.get? id = some entry →
    x.get? id = some perModule → ∃ r, ran r ∧ r.Made id entry perModule

def LockfileStore.Untouched (store : LockfileStore) (t t' : FileTree) : Prop :=
  ∀ content, t'.entry? store.path.place = some (.file content) →
    t.entry? store.path.place = some (.file content)

def Session.Completes (s : Session) (c : Call) (w : World) (r : CompletedRun) : Prop :=
  ∃ id w', s.Comes c w id w' ∧ s.evaluator.Completes (s.engine c.engine) id w' r

structure Build where
  /-- the graph that the usages are indexed from, and that the build may finish with -/
  graph : DepGraph
  session : Session
  world : World
  /-- the runs that earlier builds have completed -/
  earlier : CompletedRun → Prop
  /-- the runs that this build has completed -/
  ran : CompletedRun → Prop

namespace Build

def allRan (b : Build) (r : CompletedRun) : Prop := b.earlier r ∨ b.ran r

def after (b : Build) (c : Call) : Build :=
  { b with
    session := (b.session.call c b.world).1
    world := (b.session.call c b.world).2
    ran := fun r => b.ran r ∨ b.session.Completes c b.world r }

end Build

/-- A workspace between two builds, with the runs that were completed so far, or during one. -/
inductive Workspace where
  | idle (files : FileTree) (ran : CompletedRun → Prop)
  | building (b : Build)

namespace Workspace

/-- What can happen in a workspace. Nothing but the end of a build and the prune command writes in
the place of the lockfile, and what a build writes there is read back as it was written. -/
inductive Step (store : LockfileStore) : Workspace → Workspace → Prop
  | opened {files : FileTree} {ran : CompletedRun → Prop} (v : Evaluator) (restarts : Nat)
      (graph : DepGraph) (w : World) (s : Session) (here : w.files = files)
      (started : Session.start store v restarts files = .ok s) :
      Step store (.idle files ran) (.building ⟨graph, s, w, ran, fun _ => False⟩)
  | called (b : Build) (c : Call) (indexed : c.engine.Indexed b.graph)
      (untouched : store.Untouched b.world.files (b.after c).world.files) :
      Step store (.building b) (.building (b.after c))
  | cancelled (b : Build) :
      Step store (.building b) (.building { b with world := b.world.cancel.1 })
  | meanwhile (b : Build) (w : World) (untouched : store.Untouched b.world.files w.files) :
      Step store (.building b) (.building { b with world := w })
  | finished (b : Build) (inputs : ResolutionInputs) (graph : inputs.depGraph = b.graph)
      (storable : ∀ next, b.session.fresh.build b.session.lockfile inputs = .ok next →
        next.Storable none) :
      Step store (.building b) (.idle (b.session.finish inputs b.world).2.files b.allRan)
  | abandoned (b : Build) : Step store (.building b) (.idle b.world.files b.allRan)
  | pruned {ran : CompletedRun → Prop} (config : ResolverConfig) (dryRun : Bool)
      (c : CommandLine.Console) : Step store (.idle c.files ran)
        (.idle ((CommandLine.runPrune config store dryRun).run c).2.files ran)
  | changed {files : FileTree} {ran : CompletedRun → Prop} (files' : FileTree)
      (untouched : store.Untouched files files') :
      Step store (.idle files ran) (.idle files' ran)

/-- What a workspace that starts without a lockfile can come to. -/
inductive Reachable (store : LockfileStore) : Workspace → Prop
  | start (files : FileTree)
      (absent : ∀ content, files.entry? store.path.place ≠ some (.file content)) :
      Reachable store (.idle files (fun _ => False))
  | step {before after : Workspace} (reachable : Reachable store before)
      (taken : Step store before after) : Reachable store after

end Workspace

section Justified

variable {ran ran' : CompletedRun → Prop} {l : Lockfile}

theorem Lockfile.Justified.mono (justified : l.Justified ran) (more : ∀ r, ran r → ran' r) :
    l.Justified ran' := by
  intro x grouped id entry perModule found used
  obtain ⟨r, completed, made⟩ := justified x grouped id entry perModule found used
  exact ⟨r, more r completed, made⟩

theorem Lockfile.empty_justified (ran : CompletedRun → Prop) : Lockfile.empty.Justified ran := by
  intro x grouped id entry perModule found
  cases found

theorem Lockfile.Justified.prune {kept : Lockfile} {removed : List ExtensionId}
    (justified : l.Justified ran) (pruned : l.prune = .ok (kept, removed)) :
    kept.Justified ran := by
  obtain ⟨used, -, rfl, -⟩ := prune_eq_ok pruned
  intro x grouped id entry perModule found used
  rw [SortedMap.get?_filter] at found
  exact justified x grouped id entry perModule (Option.filter_eq_some_iff.mp found).1 used

theorem Lockfile.Storable.prune {kept : Lockfile} {removed : List ExtensionId} {limit : Option Nat}
    (storable : l.Storable limit) (pruned : l.prune = .ok (kept, removed)) :
    kept.Storable limit := by
  obtain ⟨used, -, rfl, -⟩ := prune_eq_ok pruned
  exact ⟨storable.version, storable.depGraph,
    fun e member => storable.extensions e (List.mem_filter.mp member).1⟩

theorem FreshResults.merged_justified {f : FreshResults} {previous : Lockfile}
    {inputs : ResolutionInputs} {current before : UsagesById}
    (now : inputs.depGraph.usagesById = .ok current) (was : previous.usagesById = .ok before)
    (justified : previous.Justified ran)
    (fresh : ∀ id entry, f.results.get? id = some entry →
      ∃ u r, inputs.depGraph.usagesOf id = some u ∧ ran r ∧ r.Made id entry u.usages) :
    (f.merged previous inputs current before).Justified ran := by
  intro x grouped id entry perModule found used
  rw [merged_usagesById now] at grouped
  cases grouped
  rcases entry_of_merged found with ⟨recorded, -⟩ | ⟨locked, usages, earlier, here, there, same⟩
  · obtain ⟨u, r, indexed, completed, made⟩ := fresh id entry recorded
    rw [DepGraph.get?_of_usagesOf indexed now] at used
    cases used
    exact ⟨r, completed, made⟩
  · rw [used] at here
    cases here
    obtain ⟨r, completed, made⟩ := justified before was id entry earlier locked there
    exact ⟨r, completed, made.id, made.digest, made.specs,
      PartialEquivBEq.trans made.usages (PartialEquivBEq.symm same)⟩

end Justified

namespace LockfileStore

variable {store : LockfileStore} {t t' : FileTree} {ran : CompletedRun → Prop} {l : Lockfile}

/-- Where there is a lockfile, it is the text of one that some runs justify. -/
def Holds (store : LockfileStore) (t : FileTree) (ran : CompletedRun → Prop) : Prop :=
  ∀ content, t.entry? store.path.place = some (.file content) →
    ∃ l : Lockfile, content = Text.bytes l.print ∧ l.Storable none ∧ l.Justified ran

theorem Holds.mono {ran' : CompletedRun → Prop} (holds : store.Holds t ran)
    (more : ∀ r, ran r → ran' r) : store.Holds t ran' := by
  intro content here
  obtain ⟨l, same, storable, justified⟩ := holds content here
  exact ⟨l, same, storable, justified.mono more⟩

theorem Holds.untouched (holds : store.Holds t ran) (untouched : store.Untouched t t') :
    store.Holds t' ran := fun content here => holds content (untouched content here)

theorem Untouched.of_brought (brought : ∀ content, FileTree.Brought t t' content) :
    store.Untouched t t' := by
  intro content here
  rcases brought (0 :: content) _ _ here with there | other
  · exact there
  · exact absurd (congrArg List.length other) (Nat.ne_of_lt (Nat.lt_succ_self _))

theorem Holds.load (holds : store.Holds t ran) (loaded : store.load t = .ok (some l)) :
    l.Storable none ∧ l.Justified ran := by
  obtain ⟨content, text, found, decoded, parsed, -⟩ := load_eq_some loaded
  obtain ⟨q, resolved, here, -⟩ := FileTree.read_eq_ok.mp found
  rw [FileTree.resolve_eq_place resolved] at here
  obtain ⟨l', rfl, storable, justified⟩ := holds content here
  rw [Text.ofBytes?_bytes] at decoded
  cases decoded
  rw [Lockfile.parse_print storable] at parsed
  split at parsed
  · cases parsed
    exact ⟨storable, justified⟩
  · cases parsed

theorem Holds.loadOrEmpty (holds : store.Holds t ran) (loaded : store.loadOrEmpty t = .ok l) :
    l.Justified ran := by
  rw [LockfileStore.loadOrEmpty] at loaded
  cases found : store.load t with
  | error e => rw [found] at loaded; cases loaded
  | ok lockfile =>
    rw [found] at loaded
    cases loaded
    cases lockfile with
    | none => exact Lockfile.empty_justified ran
    | some l => exact (holds.load found).2

theorem Holds.save (holds : store.Holds t ran) (storable : l.Storable none)
    (justified : l.Justified ran) : store.Holds (store.save t l).1 ran := by
  intro content here
  rcases (save_cases store t l).1 _ _ here with there | rfl
  · exact holds content there
  · exact ⟨l, rfl, storable, justified⟩

end LockfileStore

structure Build.Sound (store : LockfileStore) (b : Build) : Prop where
  place : b.session.store = store
  file : store.Holds b.world.files b.earlier
  lockfile : b.session.lockfile.Justified b.earlier
  fresh : ∀ id entry, b.session.fresh.results.get? id = some entry →
    ∃ u r, b.graph.usagesOf id = some u ∧ b.ran r ∧ r.Made id entry u.usages

namespace Workspace

variable {store : LockfileStore}

def Sound (store : LockfileStore) : Workspace → Prop
  | .idle files ran => store.Holds files ran
  | .building b => b.Sound store

theorem opened_sound {files : FileTree} {ran : CompletedRun → Prop} {v : Evaluator} {restarts : Nat}
    {graph : DepGraph} {w : World} {s : Session} (holds : store.Holds files ran)
    (here : w.files = files) (started : Session.start store v restarts files = .ok s) :
    Build.Sound store ⟨graph, s, w, ran, fun _ => False⟩ := by
  have file : store.Holds w.files ran := by rw [here]; exact holds
  by_cases off : v.mode = .off
  · rw [Session.start, if_pos off] at started
    cases started
    exact ⟨rfl, file, Lockfile.empty_justified ran, fun id entry found => (by cases found)⟩
  · obtain ⟨l, loaded, rfl⟩ := (Session.start_eq_ok off).mp started
    exact ⟨rfl, file, holds.loadOrEmpty loaded, fun id entry found => (by cases found)⟩

theorem called_sound {b : Build} {c : Call} (sound : b.Sound store)
    (indexed : c.engine.Indexed b.graph)
    (untouched : store.Untouched b.world.files (b.after c).world.files) :
    (b.after c).Sound store := by
  have continues := Session.continues_call b.session c b.world
  refine ⟨continues.store.trans sound.place, sound.file.untouched untouched, ?_, ?_⟩
  · change (b.session.call c b.world).1.lockfile.Justified b.earlier
    rw [continues.lockfile]
    exact sound.lockfile
  · intro id entry found
    rcases Session.recorded_of_call found with before |
      ⟨w', a, r, comes, decides, -, completes, made⟩
    · obtain ⟨u, r, used, ran, made⟩ := sound.fresh id entry before
      exact ⟨u, r, used, Or.inl ran, made⟩
    · exact ⟨a.usages, r, indexed _ _ _ decides.usages, Or.inr ⟨id, w', comes, completes⟩, made⟩

theorem finished_sound {b : Build} {inputs : ResolutionInputs} (sound : b.Sound store)
    (graph : inputs.depGraph = b.graph)
    (storable : ∀ next, b.session.fresh.build b.session.lockfile inputs = .ok next →
      next.Storable none) : store.Holds (b.session.finish inputs b.world).2.files b.allRan := by
  have file : store.Holds b.world.files b.allRan := sound.file.mono (fun _ => Or.inl)
  have ending := Session.finishes b.session inputs b.world
  generalize b.session.finish inputs b.world = outcome at ending ⊢
  cases ending with
  | idle still => exact file
  | broken failure _ _ built => exact file
  | unchanged next _ _ built same there => exact file
  | saved next _ _ built =>
    obtain ⟨current, before, now, was, rfl⟩ := FreshResults.build_eq_ok.mp built
    rw [sound.place]
    refine file.save (storable _ built) (FreshResults.merged_justified now was
      (sound.lockfile.mono (fun _ => Or.inl)) ?_)
    intro id entry found
    obtain ⟨u, r, used, ran, made⟩ := sound.fresh id entry found
    exact ⟨u, r, graph ▸ used, Or.inr ran, made⟩

theorem step_sound {before after : Workspace} (sound : before.Sound store)
    (taken : Step store before after) : after.Sound store := by
  cases taken with
  | opened v restarts graph w s here started => exact opened_sound sound here started
  | called b c indexed untouched => exact called_sound sound indexed untouched
  | cancelled b =>
    exact ⟨sound.place, sound.file.untouched (.of_brought (fun content =>
      b.world.tracked.brought_removeAll b.world.files content)), sound.lockfile, sound.fresh⟩
  | meanwhile b w untouched =>
    exact ⟨sound.place, sound.file.untouched untouched, sound.lockfile, sound.fresh⟩
  | finished b inputs graph storable => exact finished_sound sound graph storable
  | abandoned b => exact sound.file.mono (fun _ => Or.inl)
  | pruned config dryRun c =>
    have prunes := CommandLine.runPrune_prunes config store dryRun c
    generalize ((CommandLine.runPrune config store dryRun).run c).2.files = files' at prunes ⊢
    cases prunes with
    | unchanged => exact sound
    | saved l kept removed loaded pruned =>
      obtain ⟨storable, justified⟩ := LockfileStore.Holds.load sound loaded
      exact LockfileStore.Holds.save sound (storable.prune pruned) (justified.prune pruned)
  | changed files' untouched => exact LockfileStore.Holds.untouched sound untouched

theorem reachable_sound {state : Workspace} (reachable : Reachable store state) :
    state.Sound store := by
  induction reachable with
  | start files absent => exact fun content here => absurd here (absent content)
  | step _ taken ih => exact step_sound ih taken

end Workspace

theorem Build.Sound.reuse {store : LockfileStore} {b : Build} (sound : b.Sound store)
    {id : ExtensionId} {u : ExtensionUsages} {digest : Digest} {entry : LockedExtension}
    (used : b.graph.usagesOf id = some u)
    (reused : b.session.mode.decide id digest u.usages (some b.session.lockfile) =
      .ok (.reuse entry)) : ∃ r, b.earlier r ∧ r.digest = digest ∧ r.Made id entry u.usages := by
  obtain ⟨-, answers⟩ := LockfileMode.decide_eq_reuse_iff.mp reused
  obtain ⟨x, grouped, agree⟩ := answers.usages
  obtain ⟨byId, usages, name, own, here, -, rfl⟩ := DepGraph.usagesOf_eq_some.mp used
  obtain ⟨key, usage, inhabited⟩ := (DepGraph.usagesById_groups own).inhabited id usages here
  have there := get?_of_getD_beq agree inhabited
  obtain ⟨r, ran, made⟩ := sound.lockfile x grouped id entry _ answers.entry there
  exact ⟨r, ran, made.digest.trans answers.digest, made.id, made.digest, made.specs,
    PartialEquivBEq.trans made.usages agree⟩

/-- Whenever a build takes a result from the lockfile, whatever builds, prunings and cancellations
came before, an earlier build has run the same extension to its end, with the same digest and for
usages that agree with the present ones, and that run has generated the very repositories that are
used again. -/
theorem reused_result_was_run {store : LockfileStore} {b : Build}
    (reachable : Workspace.Reachable store (.building b)) {e : Engine} (indexed : e.Indexed b.graph)
    {id : ExtensionId} :
    (∀ asked u digest entry, e.usages asked id = .ready u →
      b.session.mode.decide id digest u.usages (some b.session.lockfile) = .ok (.reuse entry) →
      ∃ r, b.earlier r ∧ r.digest = digest ∧ r.Made id entry u.usages) ∧
    (∀ w w' evaluation, b.session.evaluator.evaluate (b.session.engine e) id w =
        (.ok (.ready evaluation), w') → evaluation.fromLockfile = true →
      ∃ u digest entry r, e.usages w.asked id = .ready u ∧
        b.session.mode.decide id digest u.usages (some b.session.lockfile) = .ok (.reuse entry) ∧
        evaluation.value = .ofSpecs u.uniqueName entry.specs ∧
        b.earlier r ∧ r.digest = digest ∧ r.Made id entry u.usages) := by
  have sound : b.Sound store := Workspace.reachable_sound reachable
  constructor
  · intro asked u digest entry ready reused
    exact sound.reuse (indexed _ _ _ ready) reused
  · intro w w' evaluation answered locked
    cases Evaluator.settles answered with
    | reused a entry decides reuse generates =>
      have reused := decides.decision
      rw [reuse] at reused
      obtain ⟨r, ran, digest, made⟩ := sound.reuse (indexed _ _ _ decides.usages) reused
      exact ⟨a.usages, a.script.digest, entry, r, decides.usages, reused, rfl, ran, digest, made⟩
    | ran => cases locked

section Rebuild

def plainLockfile : Lockfile :=
  { bareLockfile with extensions := .ofList [(depsId, ⟨⟨[]⟩, plainSpecs⟩)] }

def firstBuild : Build :=
  ⟨bareLockfile.depGraph, freshSession, .ofFiles .empty, fun _ => False, fun _ => False⟩

def builtFirst : Build := firstBuild.after (.evaluate creatingEngine depsId)

def builtFiles : FileTree :=
  (builtFirst.session.finish bareLockfile.inputs builtFirst.world).2.files

def secondBuild : Build :=
  ⟨bareLockfile.depGraph,
    .withLockfile freshSession.store plainLockfile freshSession.evaluator 1, .ofFiles builtFiles,
    builtFirst.allRan, fun _ => False⟩

theorem plainLockfile_storable {limit : Option Nat} : plainLockfile.Storable limit := by
  refine storable_of_root rfl rfl rfl (fun e member => ?_) (root_storable rfl rfl rfl)
  rw [List.mem_singleton.mp member]
  rfl

theorem secondBuild_reachable : Workspace.Reachable freshSession.store (.building secondBuild) := by
  have start : Workspace.Reachable freshSession.store (.idle .empty (fun _ => False)) := by
    refine .start .empty (fun content here => ?_)
    have nothing : FileTree.empty.entry? freshSession.store.path.place = none := rfl
    rw [nothing] at here
    cases here
  have first : Workspace.Reachable freshSession.store (.building firstBuild) :=
    .step start (.opened freshSession.evaluator 1 _ _ _ rfl rfl)
  have ran : Workspace.Reachable freshSession.store (.building builtFirst) := by
    refine .step first (.called _ _ (soleEngine_indexed _ _) (fun content here => ?_))
    exact here
  have built : Workspace.Reachable freshSession.store (.idle builtFiles builtFirst.allRan) := by
    refine .step ran (.finished _ bareLockfile.inputs rfl (fun next built => ?_))
    cases (Except.ok.inj built : plainLockfile = next)
    exact plainLockfile_storable
  refine .step built (.opened freshSession.evaluator 1 _ (.ofFiles builtFiles) _ rfl ?_)
  have loaded : freshSession.store.load builtFiles = .ok (some plainLockfile) :=
    LockfileStore.load_saved (s := freshSession.store) (t := .empty) rfl plainLockfile_storable
  exact (Session.start_eq_ok (fun h => (by cases h))).mpr ⟨plainLockfile, by
    rw [LockfileStore.loadOrEmpty, loaded]
    rfl, rfl⟩

/-- The second build hands out the repository that the first one has created. -/
theorem reused_result_was_run_deps : ∃ (evaluation : Evaluation) (w' : World)
    (u : ExtensionUsages) (digest : Digest) (r : CompletedRun),
    secondBuild.session.evaluator.evaluate (secondBuild.session.engine creatingEngine) depsId
      (.ofFiles builtFiles) = (.ok (.ready evaluation), w') ∧
    evaluation.fromLockfile = true ∧ evaluation.value.specs = plainSpecs ∧
    secondBuild.session.mode.decide depsId digest u.usages (some secondBuild.session.lockfile) =
      .ok (.reuse ⟨digest, plainSpecs⟩) ∧
    secondBuild.earlier r ∧ r.Made depsId ⟨digest, plainSpecs⟩ u.usages := by
  obtain ⟨-, answers⟩ := @reused_result_was_run freshSession.store secondBuild
    secondBuild_reachable creatingEngine (soleEngine_indexed _ _) depsId
  obtain ⟨u, digest, entry, r, used, reused, value, earlier, same, made⟩ :=
    answers (.ofFiles builtFiles) _ _ rfl rfl
  have specs : plainSpecs = entry.specs := congrArg ExtensionValue.specs value
  have whole : entry = ⟨digest, plainSpecs⟩ := by
    rw [specs, ← same, made.digest]
  rw [whole] at reused made
  exact ⟨_, _, u, digest, r, rfl, rfl, rfl, reused, earlier, made⟩

end Rebuild

end ExtensionLock
