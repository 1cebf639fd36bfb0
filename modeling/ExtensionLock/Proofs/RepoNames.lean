import ExtensionLock.Proofs.Confinement
import ExtensionLock.Proofs.History
import ExtensionLock.Proofs.Restart

/-! The names of the repositories that an evaluation gives. A run creates repositories of allowed
names only. The names in a lockfile are not looked at, neither by a load nor when an entry is used
again; they are as good as the run that has made the entry, if one has. -/

namespace ExtensionLock

def RepoSpecs.Named (specs : RepoSpecs) : Prop := ∀ name ∈ specs.keys, isRepoName name = true

theorem RepoSpecs.named_empty : Named .empty := fun _ member => (by cases member)

namespace Context

variable {c : Context} {s : Progress}

theorem createRepo_eq_ok {generated generated' : RepoSpecs} {name : String} {spec : RepoSpec}
    (created : createRepo generated name spec = .ok generated') :
    isRepoName name = true ∧ generated' = generated.insert name spec := by
  rw [createRepo, checkRepoName] at created
  by_cases valid : isRepoName name = true
  · rw [if_pos valid] at created
    dsimp only at created
    split at created
    · cases created
    · cases created
      exact ⟨valid, rfl⟩
  · rw [if_neg valid] at created
    cases created

theorem named_createRepo {generated generated' : RepoSpecs} {name : String} {spec : RepoSpec}
    (named : generated.Named) (created : createRepo generated name spec = .ok generated') :
    generated'.Named := by
  obtain ⟨valid, rfl⟩ := createRepo_eq_ok created
  intro other member
  rw [SortedMap.mem_keys_insert] at member
  rcases member with rfl | member
  · exact valid
  · exact named other member

theorem named_perform (named : s.generated.Named) (op : Operation) :
    (c.perform s op).2.generated.Named := by
  cases op with
  | createRepo name spec =>
    simp only [perform]
    split
    · exact named_createRepo named ‹_›
    · exact named
  | _ => exact named

theorem named_call (named : s.generated.Named) (i : Implementation) :
    (c.call i s).2.generated.Named := by
  induction i generalizing s with
  | done result => exact named
  | step op next ih =>
    rw [call_step]
    split
    · exact named_perform named op
    · exact ih _ (named_perform named op)

end Context

theorem CompletedRun.named (r : CompletedRun) : r.specs.Named := by
  have named := Context.named_call (c := r.context) (s := ⟨r.start, .empty⟩) RepoSpecs.named_empty
    r.extension.implementation
  rw [r.returns] at named
  exact named

/-- Two extensions that a graph uses have no canonical name in common, as long as the names of their
repositories are allowed. -/
theorem canonical_apart {g : DepGraph} {id id' : ExtensionId} {u u' : ExtensionUsages}
    (used : g.usagesOf id = some u) (used' : g.usagesOf id' = some u') (other : id ≠ id')
    {specs specs' : RepoSpecs} (named : specs.Named) (named' : specs'.Named)
    {canonical exported : String}
    (here : (ExtensionValue.ofSpecs u.uniqueName specs).exportedName? canonical = some exported) :
    (ExtensionValue.ofSpecs u'.uniqueName specs').exportedName? canonical = none := by
  refine Option.eq_none_iff_forall_ne_some.mpr (fun exported' there => ?_)
  obtain ⟨member, rfl⟩ := ExtensionValue.exportedName?_eq_some.mp here
  obtain ⟨member', same⟩ := ExtensionValue.exportedName?_eq_some.mp there
  obtain ⟨byId, _, name, grouped, -, unique, rfl⟩ := DepGraph.usagesOf_eq_some.mp used
  obtain ⟨byId', _, name', grouped', -, unique', rfl⟩ := DepGraph.usagesOf_eq_some.mp used'
  rw [grouped] at grouped'
  cases grouped'
  obtain ⟨rfl, -⟩ := canonicalRepoName_inj (tilde_of_isRepoName (named _ member))
    (tilde_of_isRepoName (named' _ member')) same
  exact other (ExtensionId.uniqueNames_inj unique unique')

namespace Evaluator

variable {v : Evaluator} {e : Engine} {l : Lockfile} {id : ExtensionId} {w w' : World}
  {evaluation : Evaluation}

theorem Settles.value_eq (settled : v.Settles e l id w evaluation) :
    ∃ u, e.usages w.asked id = .ready u ∧
      evaluation.value = .ofSpecs u.uniqueName evaluation.value.specs := by
  cases settled with
  | reused a entry decides => exact ⟨a.usages, decides.usages, rfl⟩
  | ran a record specs decides => exact ⟨a.usages, decides.usages, rfl⟩

theorem Settles.named_of_reachable {store : LockfileStore} {b : Build}
    (reachable : Workspace.Reachable store (.building b)) (indexed : e.Indexed b.graph)
    (settled : b.session.evaluator.Settles e b.session.lockfile id w evaluation) :
    evaluation.value.specs.Named := by
  have sound : b.Sound store := Workspace.reachable_sound reachable
  cases settled with
  | ran a record r decides evaluate generates completes => exact r.named
  | reused a entry decides reuse generates =>
    have reused := decides.decision
    rw [reuse] at reused
    obtain ⟨r, -, -, made⟩ := sound.reuse (indexed _ _ _ decides.usages) reused
    exact made.specs ▸ r.named

/-- A value has allowed names only if it comes from a run, or if the lockfile has allowed names for
the extension; and in a workspace where only builds write the lockfile it always has. Two values of
one graph with allowed names have no canonical name in common. -/
theorem evaluate_named
    (ready : v.evaluate (e.withLockfile l) id w = (.ok (.ready evaluation), w')) :
    (evaluation.value.specs.Named ↔ (evaluation.fromLockfile = true →
      ∀ entry, l.extensions.get? id = some entry → entry.specs.Named)) ∧
    (∀ store b, Workspace.Reachable store (.building b) → v = b.session.evaluator →
      l = b.session.lockfile → e.Indexed b.graph → evaluation.value.specs.Named) ∧
    ∀ g e' l' id' u u' evaluation', e.Indexed g → Engine.Indexed e' g → id ≠ id' →
      v.evaluate (e'.withLockfile l') id' u = (.ok (.ready evaluation'), u') →
      evaluation.value.specs.Named → evaluation'.value.specs.Named →
      ∀ canonical exported, evaluation.value.exportedName? canonical = some exported →
        evaluation'.value.exportedName? canonical = none := by
  have settled := settles ready
  refine ⟨⟨?whole, ?parts⟩, ?builds, ?apart⟩
  case whole =>
    intro named locked entry found
    rcases settled.specs with ⟨-, other, there, same⟩ | ⟨ran, -⟩
    · rw [found] at there
      cases there
      exact same ▸ named
    · rw [locked] at ran
      cases ran
  case parts =>
    intro entries
    rcases settled.specs with ⟨locked, entry, found, same⟩ | ⟨-, r, completes, same⟩
    · exact same ▸ entries locked entry found
    · exact same ▸ r.named
  case builds =>
    rintro store b reachable rfl rfl indexed
    exact settled.named_of_reachable reachable indexed
  case apart =>
    intro g e' l' id' u u' evaluation' indexed indexed' other ready' named named'
      canonical exported here
    obtain ⟨usages, used, value⟩ := settled.value_eq
    obtain ⟨usages', used', value'⟩ := (settles ready').value_eq
    rw [value] at here
    rw [value']
    exact canonical_apart (indexed _ _ _ used) (indexed' _ _ _ used') other named named' here

end Evaluator

section OddName

def sharedGraph : DepGraph :=
  .ofList [(.root, bareRoot.withUsage (.bare ExtensionId.keyed ⟨"MODULE.bazel", 2, 1⟩))]

def oddSpecs : RepoSpecs := .ofList [("k~a", .native "local_repository" [])]

def oddLockfile : Lockfile :=
  { Lockfile.ofInputs { ResolutionInputs.default with depGraph := sharedGraph } with
    extensions := .ofList [(depsId, ⟨⟨[]⟩, oddSpecs⟩)] }

def oddFiles : FileTree := (freshSession.store.save .empty oddLockfile).1

theorem oddLockfile_storable {limit : Option Nat} : oddLockfile.Storable limit := by
  have plain : depsId.Parsed := ⟨"//:deps.bzl%deps", rfl⟩
  have isolated : ExtensionId.keyed.Parsed := ⟨"//:deps.bzl%deps%k", rfl⟩
  refine ⟨rfl, fun e member => ?_, fun e member => ?_⟩
  · cases List.mem_singleton.mp member
    refine ⟨⟨"<root>", rfl⟩, ⟨"", rfl⟩, ⟨"<root>", rfl⟩, fun d h => (by cases h), fun u used => ?_⟩
    rcases List.mem_cons.mp used with rfl | used
    · exact ⟨plain, ⟨by decide, by decide⟩, fun t h => (by cases h)⟩
    · cases List.mem_singleton.mp used
      exact ⟨isolated, ⟨by decide, by decide⟩, fun t h => (by cases h)⟩
  · cases List.mem_singleton.mp member
    refine ⟨plain, fun spec inside => ?_⟩
    cases List.mem_singleton.mp inside
    exact fun a h => (by cases h)

/-- The odd name passes the load and is handed out again, where it stands for a repository that
another extension creates under an allowed name. -/
theorem odd_name_reused : ∃ w w' : World,
    freshSession.store.load oddFiles = .ok (some oddLockfile) ∧
    freshSession.evaluator.evaluate ((soleEngine sharedGraph creating).withLockfile oddLockfile)
      depsId (.ofFiles oddFiles) =
        (.ok (.ready ⟨.ofSpecs "_main~deps" oddSpecs, none, true⟩), w) ∧
    freshSession.evaluator.evaluate ((soleEngine sharedGraph creating).withLockfile oddLockfile)
      ExtensionId.keyed w = (.ok (.ready ⟨.ofSpecs "_main~deps~k" plainSpecs,
        some ⟨ExtensionId.keyed, ⟨⟨[]⟩, plainSpecs⟩⟩, false⟩), w') ∧
    ¬ oddSpecs.Named ∧ plainSpecs.Named ∧
    (ExtensionValue.ofSpecs "_main~deps" oddSpecs).exportedName? "_main~deps~k~a" =
      some "k~a" ∧
    (ExtensionValue.ofSpecs "_main~deps~k" plainSpecs).exportedName? "_main~deps~k~a" =
      some "a" := by
  have loaded : freshSession.store.load oddFiles = .ok (some oddLockfile) :=
    LockfileStore.load_saved (s := freshSession.store) (t := .empty) rfl oddLockfile_storable
  have reused : freshSession.evaluator.evaluate
      ((soleEngine sharedGraph creating).withLockfile oddLockfile) depsId (.ofFiles oddFiles) =
        (.ok (.ready ⟨.ofSpecs "_main~deps" oddSpecs, none, true⟩),
          { World.ofFiles oddFiles with asked := freshSession.evaluator.questions depsId }) := rfl
  obtain ⟨w', ran⟩ : ∃ w', freshSession.evaluator.evaluate
      ((soleEngine sharedGraph creating).withLockfile oddLockfile) ExtensionId.keyed
      { World.ofFiles oddFiles with asked := freshSession.evaluator.questions depsId } =
        (.ok (.ready ⟨.ofSpecs "_main~deps~k" plainSpecs,
          some ⟨ExtensionId.keyed, ⟨⟨[]⟩, plainSpecs⟩⟩, false⟩), w') := ⟨_, rfl⟩
  refine ⟨_, w', loaded, reused, ran, fun named => ?_, ?_, rfl, rfl⟩
  · have entries := (Evaluator.evaluate_named reused).1.mp named rfl
    exact absurd (entries _ rfl "k~a" List.mem_cons_self) (by decide)
  · exact (Evaluator.evaluate_named ran).1.mpr (fun locked => (by cases locked))

end OddName

end ExtensionLock
