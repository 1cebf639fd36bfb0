import ExtensionLock.Proofs.Imports
import ExtensionLock.Proofs.Rounds
import ExtensionLock.Proofs.Store
import ExtensionLock.Proofs.Transparency

/-! The end of a session. A lockfile that was written can be loaded again exactly when every fresh
result in it generates what the written graph imports. The entries of the previous lockfile are held
to that by their usages; a fresh result is only held to the usages that it was made for. -/

namespace ExtensionLock

namespace LockfileStore

variable {s : LockfileStore} {t : FileTree} {l : Lockfile}

theorem validate_of_loadOrEmpty (loaded : s.loadOrEmpty t = .ok l) : l.validate = .ok () := by
  rw [loadOrEmpty] at loaded
  cases found : s.load t with
  | error e => rw [found] at loaded; cases loaded
  | ok lockfile =>
    rw [found] at loaded
    cases loaded
    cases lockfile with
    | none => rfl
    | some l =>
      obtain ⟨content, text, -, -, -, valid⟩ := load_eq_some found
      exact valid

theorem load_of_loadOrEmpty (loaded : s.loadOrEmpty t = .ok l) (there : s.exists? t = true) :
    s.load t = .ok (some l) := by
  rw [loadOrEmpty] at loaded
  cases found : s.load t with
  | error e => rw [found] at loaded; cases loaded
  | ok lockfile =>
    rw [found] at loaded
    cases loaded
    cases lockfile with
    | none => rw [load_eq_none found] at there; cases there
    | some l => rfl

end LockfileStore

namespace Session

variable {s : Session} {inputs : ResolutionInputs} {w : World}

theorem start_eq_ok {store : LockfileStore} {v : Evaluator} {restarts : Nat} {t : FileTree}
    (on : v.mode ≠ .off) : start store v restarts t = .ok s ↔
      ∃ l, store.loadOrEmpty t = .ok l ∧ s = withLockfile store l v restarts := by
  rw [start, if_neg on]
  cases store.loadOrEmpty t with
  | error e => exact ⟨fun h => (by cases h), fun ⟨_, h, _⟩ => (by cases h)⟩
  | ok l =>
    constructor
    · intro h
      cases h
      exact ⟨l, rfl, rfl⟩
    · rintro ⟨_, h, rfl⟩
      cases h
      rfl

inductive Finishes (s : Session) (inputs : ResolutionInputs) (w : World) :
    Except LockfileError (Option Lockfile) × World → Prop
  | idle (still : w.cancelled = true ∨ s.mode ≠ .update) : Finishes s inputs w (.ok none, w)
  | broken (failure : LockfileError) (going : w.cancelled = false) (update : s.mode = .update)
      (built : s.fresh.build s.lockfile inputs = .error failure) :
      Finishes s inputs w (.error failure, w)
  | unchanged (next : Lockfile) (going : w.cancelled = false) (update : s.mode = .update)
      (built : s.fresh.build s.lockfile inputs = .ok next) (same : (s.lockfile == next) = true)
      (there : s.store.exists? w.files = true) : Finishes s inputs w (.ok none, w)
  | saved (next : Lockfile) (going : w.cancelled = false) (update : s.mode = .update)
      (built : s.fresh.build s.lockfile inputs = .ok next) :
      Finishes s inputs w ((s.store.save w.files next).2.map (fun _ => some next),
        { w with files := (s.store.save w.files next).1 })

theorem finishes (s : Session) (inputs : ResolutionInputs) (w : World) :
    s.Finishes inputs w (s.finish inputs w) := by
  rw [finish]
  split
  · rename_i still
    exact .idle still
  · rename_i active
    obtain ⟨going, update⟩ := not_or.mp active
    have going : w.cancelled = false := Bool.eq_false_iff.mpr going
    have update : s.mode = .update := Classical.not_not.mp update
    split
    · rename_i failure built
      exact .broken failure going update built
    · rename_i next built
      split
      · rename_i unchanged
        obtain ⟨same, there⟩ := Bool.and_eq_true_iff.mp unchanged
        exact .unchanged next going update built same there
      · have ending := Finishes.saved next going update built
        cases result : s.store.save w.files next with
        | mk files outcome =>
          rw [result] at ending
          cases outcome <;> exact ending

theorem finish_eq_written {l : Lockfile} {w' : World}
    (written : s.finish inputs w = (.ok (some l), w')) :
    s.mode = .update ∧ s.fresh.build s.lockfile inputs = .ok l ∧
      (s.store.save w.files l).2 = .ok () ∧
      w' = { w with files := (s.store.save w.files l).1 } := by
  have ending := finishes s inputs w
  rw [written] at ending
  generalize result : (Except.ok (some l), w') = outcome at ending
  cases ending with
  | idle => cases result
  | broken => cases result
  | unchanged => cases result
  | saved next going update built =>
    obtain ⟨first, rfl⟩ := Prod.mk.inj result
    cases saved : (s.store.save w.files next).2 with
    | error e => rw [saved] at first; cases first
    | ok u =>
      rw [saved] at first
      cases first
      exact ⟨update, built, saved, rfl⟩

theorem finish_eq_none {w' : World} (going : w.cancelled = false) (update : s.mode = .update)
    (nothing : s.finish inputs w = (.ok none, w')) : w' = w ∧
      ∃ next, s.fresh.build s.lockfile inputs = .ok next ∧ (s.lockfile == next) = true ∧
        s.store.exists? w.files = true := by
  have ending := finishes s inputs w
  rw [nothing] at ending
  generalize result : ((Except.ok none, w') : Except LockfileError (Option Lockfile) × World) =
    outcome at ending
  cases ending with
  | idle still =>
    rcases still with cancelled | other
    · rw [going] at cancelled
      cases cancelled
    · exact absurd update other
  | broken => cases result
  | unchanged next _ _ built same there =>
    cases result
    exact ⟨rfl, next, built, same, there⟩
  | saved next _ _ built =>
    obtain ⟨first, -⟩ := Prod.mk.inj result
    cases saved : (s.store.save w.files next).2 with
    | error e => rw [saved] at first; cases first
    | ok u => rw [saved] at first; cases first

theorem continues_calls (s : Session) (calls : List Call) (w : World) :
    s.Continues (s.calls calls w).1 := by
  induction calls generalizing s w with
  | nil => exact .refl s
  | cons c rest ih => exact (continues_call s c w).trans (ih _ _)

/-- A lockfile that has been written over a valid one is loaded again if it is valid itself, and it
is valid if the fresh results generate what its graph imports. -/
theorem load_written {l : Lockfile} {w' : World} (valid : s.lockfile.validate = .ok ())
    (written : s.finish inputs w = (.ok (some l), w'))
    (storable : l.Storable (some Lockfile.tagLimit)) :
    ∃ usages, inputs.depGraph.usagesById = .ok usages ∧ l.usagesById = .ok usages ∧
      s.store.load w'.files = l.validate.map (fun _ => some l) ∧
      (l.validate = .ok () ↔ LockedExtensions.Generate s.fresh.results usages) := by
  obtain ⟨-, built, saved, rfl⟩ := finish_eq_written written
  obtain ⟨current, before, now, was, rfl⟩ := FreshResults.build_eq_ok.mp built
  exact ⟨current, now, FreshResults.merged_usagesById now, LockfileStore.load_saved saved storable,
    FreshResults.merged_validate_iff valid now was⟩

/-- What a session has written can be loaded again exactly when every fresh result of an extension
that the written graph uses generates the imports of that graph. Otherwise the file is there and
every load of it fails. -/
theorem written_loads_iff {s₀ : Session} {t : FileTree} {w₀ w' : World} {l : Lockfile}
    (accepted : s₀.store.loadOrEmpty t = .ok s₀.lockfile) (calls : List Call)
    (written : (s₀.calls calls w₀).1.finish inputs w = (.ok (some l), w'))
    (storable : l.Storable (some Lockfile.tagLimit)) :
    ∃ usages, inputs.depGraph.usagesById = .ok usages ∧
      (s₀.store.load w'.files = .ok (some l) ↔
        LockedExtensions.Generate (s₀.calls calls w₀).1.fresh.results usages) ∧
      (¬ LockedExtensions.Generate (s₀.calls calls w₀).1.fresh.results usages →
        ∃ id missing, s₀.store.load w'.files = .error (.unresolvedImports id missing)) := by
  have continues := continues_calls s₀ calls w₀
  have valid := LockfileStore.validate_of_loadOrEmpty accepted
  rw [← continues.lockfile] at valid
  obtain ⟨usages, now, grouped, loaded, valid_iff⟩ := load_written valid written storable
  rw [continues.store] at loaded
  refine ⟨usages, now, ?_, fun lacking => ?_⟩
  · rw [loaded, ← valid_iff]
    cases l.validate with
    | ok u => exact ⟨fun _ => rfl, fun _ => rfl⟩
    | error failure => exact ⟨fun h => (by cases h), fun h => (by cases h)⟩
  · rw [loaded]
    cases checked : l.validate with
    | ok u => exact absurd (valid_iff.mp checked) lacking
    | error failure =>
      obtain ⟨id, missing, rfl⟩ := Lockfile.validate_error grouped checked
      exact ⟨id, missing, rfl⟩

theorem generate_of_indexed {s : Session} {g : DepGraph} {usages : UsagesById}
    (grouped : g.usagesById = .ok usages) {calls : List Call}
    (indexed : ∀ c ∈ calls, c.engine.Indexed g) (w : World)
    (before : LockedExtensions.Generate s.fresh.results usages) :
    LockedExtensions.Generate (s.calls calls w).1.fresh.results usages := by
  induction calls generalizing s w with
  | nil => exact before
  | cons c rest ih =>
    apply ih (fun c' member => indexed c' (List.mem_cons_of_mem _ member))
    intro id entry found perModule here
    rcases recorded_of_call found with earlier | ⟨w', a, -, -, decides, generates, -⟩
    · exact before id entry earlier perModule here
    · have used := indexed c List.mem_cons_self _ _ _ decides.usages
      rw [DepGraph.get?_of_usagesOf used grouped] at here
      cases here
      exact generates

/-- A session that finishes with the graph of its own usages writes what can be loaded again. -/
theorem written_loads_of_indexed {s₀ : Session} {t : FileTree} {w₀ w' : World} {l : Lockfile}
    (accepted : s₀.store.loadOrEmpty t = .ok s₀.lockfile) (unused : s₀.fresh = .empty)
    {calls : List Call} (indexed : ∀ c ∈ calls, c.engine.Indexed inputs.depGraph)
    (written : (s₀.calls calls w₀).1.finish inputs w = (.ok (some l), w'))
    (storable : l.Storable (some Lockfile.tagLimit)) : s₀.store.load w'.files = .ok (some l) := by
  have continues := continues_calls s₀ calls w₀
  have valid := LockfileStore.validate_of_loadOrEmpty accepted
  rw [← continues.lockfile] at valid
  obtain ⟨usages, now, -, loaded, valid_iff⟩ := load_written valid written storable
  have nothing : LockedExtensions.Generate s₀.fresh.results usages := by
    rw [unused]
    intro id entry found
    cases found
  rw [continues.store, valid_iff.mpr (generate_of_indexed now indexed w₀ nothing)] at loaded
  exact loaded

end Session

section LateImport

/-- An engine that has the usages of a graph, and the same implementation for every extension. -/
def soleEngine (g : DepGraph) (implementation : Implementation) : Engine where
  usages _ id := match g.usagesOf id with
    | some u => .ready u
    | none => .notReady
  script _ label := .ok (.ready
    ⟨label, .ofList [("deps", .extension ⟨implementation, .empty⟩)], ⟨[]⟩⟩)
  lockfile _ := .ready .empty
  input _ _ := .ok .notReady

theorem soleEngine_indexed (g : DepGraph) (implementation : Implementation) :
    (soleEngine g implementation).Indexed g := by
  intro asked id u ready
  simp only [soleEngine] at ready
  cases used : g.usagesOf id with
  | none => rw [used] at ready; cases ready
  | some u' => rw [used] at ready; cases ready; rfl

def creating : Implementation :=
  .step (.createRepo "a" (.native "local_repository" [])) (fun _ => .done (.ok .none))

def creatingEngine : Engine := soleEngine bareLockfile.depGraph creating

def plainSpecs : RepoSpecs := .ofList [("a", .native "local_repository" [])]

def freshSession : Session :=
  .withLockfile ⟨⟨"MODULE.lock"⟩⟩ .empty ⟨⟨"out"⟩, .update, ⟨.empty, .offline, .nan⟩⟩ 1

def bareCall : Call :=
  .evaluate (soleEngine bareLockfile.depGraph (.done (.ok .none))) depsId

def importingRoot : Module := (Module.root "app" .empty).withUsage
  ((Usage.bare depsId ⟨"MODULE.bazel", 1, 1⟩).withImport "c" "c")

def importingInputs : ResolutionInputs :=
  { ResolutionInputs.default with depGraph := .ofList [(.root, importingRoot)] }

def unreadableLockfile : Lockfile :=
  { Lockfile.ofInputs importingInputs with extensions := .ofList [(depsId, ⟨⟨[]⟩, .empty⟩)] }

theorem storable_of_root {l : Lockfile} {root : Module} {specs : RepoSpecs} {limit : Option Nat}
    (current : l.version = Lockfile.currentVersion) (graph : l.depGraph = .ofList [(.root, root)])
    (entries : l.extensions = .ofList [(depsId, ⟨⟨[]⟩, specs⟩)])
    (plain : ∀ e ∈ specs.entries, e.2.attributes = .empty) (storable : root.Storable limit) :
    l.Storable limit where
  version := current
  depGraph := by
    rw [graph]
    intro e member
    cases List.mem_singleton.mp member
    exact ⟨⟨"<root>", rfl⟩, storable⟩
  extensions := by
    rw [entries]
    intro e member
    cases List.mem_singleton.mp member
    refine ⟨⟨"//:deps.bzl%deps", rfl⟩, fun spec inside a h => ?_⟩
    rw [plain spec inside] at h
    cases h

theorem root_storable {u : Usage} {limit : Option Nat} (id : u.extensionId = depsId)
    (location : u.location = ⟨"MODULE.bazel", 1, 1⟩) (tags : u.tags = []) :
    ((Module.root "app" .empty).withUsage u).Storable limit := by
  refine ⟨⟨"", rfl⟩, ⟨"<root>", rfl⟩, fun d h => (by cases h), fun u' h => ?_⟩
  cases List.mem_singleton.mp h
  refine ⟨⟨"//:deps.bzl%deps", id ▸ rfl⟩, ?_, fun t h => ?_⟩
  · rw [location]
    exact ⟨by decide, by decide⟩
  · rw [tags] at h
    cases h

/-- The fresh result lacks the repository, so the lockfile that is written cannot be loaded. -/
theorem written_unreadable :
    ∃ w' id missing, (freshSession.calls [bareCall] (.ofFiles .empty)).1.finish importingInputs
        (.ofFiles .empty) = (.ok (some unreadableLockfile), w') ∧
      freshSession.store.load w'.files = .error (.unresolvedImports id missing) := by
  obtain ⟨usages, now, -, unreadable⟩ := @Session.written_loads_iff importingInputs
    (.ofFiles .empty) freshSession .empty (.ofFiles .empty) _ unreadableLockfile rfl [bareCall] rfl
    (storable_of_root rfl rfl rfl (fun e h => (by cases h)) (root_storable rfl rfl rfl))
  have lacking : ¬ LockedExtensions.Generate
      (freshSession.calls [bareCall] (.ofFiles .empty)).1.fresh.results usages := by
    cases now
    intro generate
    have generates := generate depsId ⟨⟨[]⟩, .empty⟩ rfl _ rfl .root _ rfl ("c", "c")
      List.mem_cons_self
    cases generates
  obtain ⟨id, missing, failed⟩ := unreadable lacking
  exact ⟨_, id, missing, rfl, failed⟩

end LateImport

end ExtensionLock
