import ExtensionLock.Proofs.ChangeReports
import ExtensionLock.Session

/-! What shows that the inputs of a resolution are not those of the lockfile. The module file is
looked at first, then every flag in turn, then the overridden modules by name. Each of them that
differs is reported once, so inputs that pass without a report are the ones that were locked. -/

namespace ExtensionLock

namespace Flags

def Name.all : List Name :=
  [.registry, .overrideModule, .allowYankedVersions, .environmentYankedVersions,
    .ignoreDevDependency, .checkDirectDependencies, .checkCompatibility]

theorem Name.mem_all (name : Name) : name ∈ Name.all := by
  cases name <;> decide

theorem Name.all_nodup : Name.all.Nodup := by decide

def Differs (locked current : Flags) : Name → Prop
  | .registry => locked.registries ≠ current.registries
  | .overrideModule => locked.moduleOverrides ≠ current.moduleOverrides
  | .allowYankedVersions => locked.allowedYankedVersions ≠ current.allowedYankedVersions
  | .environmentYankedVersions =>
    locked.environmentYankedVersions ≠ current.environmentYankedVersions
  | .ignoreDevDependency => locked.ignoreDevDependency ≠ current.ignoreDevDependency
  | .checkDirectDependencies => locked.directDependencies ≠ current.directDependencies
  | .checkCompatibility => locked.compatibility ≠ current.compatibility

instance (locked current : Flags) : DecidablePred (Differs locked current) := fun name =>
  match name with
  | .registry => inferInstanceAs (Decidable (_ ≠ _))
  | .overrideModule => inferInstanceAs (Decidable (_ ≠ _))
  | .allowYankedVersions => inferInstanceAs (Decidable (_ ≠ _))
  | .environmentYankedVersions => inferInstanceAs (Decidable (_ ≠ _))
  | .ignoreDevDependency => inferInstanceAs (Decidable (_ ≠ _))
  | .checkDirectDependencies => inferInstanceAs (Decidable (_ ≠ _))
  | .checkCompatibility => inferInstanceAs (Decidable (_ ≠ _))

variable {locked current : Flags}

theorem changes_eq_filter :
    changes locked current = Name.all.filter (fun name => Differs locked current name) := by
  have single (name : Name) {p : Prop} [Decidable p] (h : locked.Differs current name ↔ ¬ p) :
      (if p then [] else [name]) = [name].filter (fun name => locked.Differs current name) := by
    by_cases same : p <;> simp [h, same]
  rw [changes, single .registry Iff.rfl, single .overrideModule Iff.rfl,
    single .allowYankedVersions Iff.rfl, single .environmentYankedVersions Iff.rfl,
    single .ignoreDevDependency Iff.rfl, single .checkDirectDependencies Iff.rfl,
    single .checkCompatibility Iff.rfl]
  simp only [← List.filter_append]
  rfl

theorem mem_changes {name : Name} :
    name ∈ changes locked current ↔ locked.Differs current name := by
  rw [changes_eq_filter, List.mem_filter, decide_eq_true_iff]
  exact and_iff_right name.mem_all

end Flags

inductive OverrideReport (locked current : SortedMap String String) (name : String) :
    InputChange → Prop
  | changed {was now : String} (before : locked.get? name = some was)
      (after : current.get? name = some now) (other : was ≠ now) :
      OverrideReport locked current name (.overrideChanged name)
  | gone {was : String} (before : locked.get? name = some was)
      (after : current.get? name = none) :
      OverrideReport locked current name (.overrideGone name)
  | new {now : String} (before : locked.get? name = none)
      (after : current.get? name = some now) :
      OverrideReport locked current name (.overrideNew name)

section

variable {locked current : SortedMap String String}

theorem overrideReport_iff {name : String} {change : InputChange} :
    OverrideReport locked current name change ↔
      change ∈ overrideChange name (locked.get? name) (current.get? name) := by
  constructor
  · intro report
    cases report with
    | changed before after other => simp [before, after, overrideChange, other]
    | gone before after => simp [before, after, overrideChange]
    | new before after => simp [before, after, overrideChange]
  · intro said
    cases before : locked.get? name <;> cases after : current.get? name <;>
      rw [before, after, overrideChange] at said
    · cases said
    · cases List.mem_singleton.mp said
      exact .new before after
    · cases List.mem_singleton.mp said
      exact .gone before after
    · split at said
      · cases said
      · rename_i other
        cases List.mem_singleton.mp said
        exact .changed before after other

theorem overrides_itemized : Itemized (OverrideReport locked current)
    ((SortedMap.unionKeys locked current).flatMap (fun name =>
      overrideChange name (locked.get? name) (current.get? name))) := by
  refine itemized_unionKeys (fun _ => rfl) ?_ (fun _ _ => overrideReport_iff)
  intro name x y
  cases x <;> cases y <;> simp only [overrideChange] <;> try split
  all_goals simp

end

namespace Lockfile

/-- The inputs of the lockfile are those of the resolution, as far as they are compared. -/
structure Fits (l : Lockfile) (current : ResolutionInputs) : Prop where
  moduleFileHash : l.moduleFileHash = current.moduleFileHash
  flags : l.flags = current.flags
  overrideHashes : l.overrideHashes = current.overrideHashes

variable {l : Lockfile} {current : ResolutionInputs}

theorem inputChanges_eq_nil_iff : l.inputChanges current = [] ↔ l.Fits current :=
  inputChanges_eq_nil.trans ⟨fun ⟨hash, flags, overrides⟩ => ⟨hash, flags, overrides⟩,
    fun fits => ⟨fits.moduleFileHash, fits.flags, fits.overrideHashes⟩⟩

end Lockfile

namespace Session

variable {s : Session} {current : ResolutionInputs}

theorem checkInputs_update (update : s.mode = .update) :
    s.checkInputs current = .ok (s.lockfile.inputChanges current) := by
  rw [checkInputs, update]
  rfl

theorem checkInputs_error (strict : s.mode = .error) :
    s.checkInputs current = if s.lockfile.inputChanges current = [] then .ok []
      else .error (.staleInputs (s.lockfile.inputChanges current)) := by
  rw [checkInputs, strict]
  by_cases fits : s.lockfile.inputChanges current = []
  · simp [fits]
  · simp [fits]

theorem checkInputs_error_iff (strict : s.mode = .error) :
    (∃ changes, s.checkInputs current = .ok changes) ↔ s.lockfile.Fits current := by
  rw [checkInputs_error strict, ← Lockfile.inputChanges_eq_nil_iff]
  split
  · rename_i fits
    exact ⟨fun _ => fits, fun _ => ⟨[], rfl⟩⟩
  · rename_i stale
    exact ⟨fun ⟨_, fine⟩ => (by cases fine), fun fits => absurd fits stale⟩

end Session

/-- The reasons why inputs do not fit a lockfile: that the module file differs, then the flags that
differ, each once and in their order, then one reason for each module whose override differs, by the
names of the modules. There is none just if the inputs fit. A session that may change the lockfile
hands the reasons out; one that may not fails with them, and passes no other inputs. -/
theorem staleInputs_reported (l : Lockfile) (current : ResolutionInputs) :
    (∃ (head : List InputChange) (flags : List Flags.Name) (overrides : List InputChange),
      l.inputChanges current = head ++ flags.map .flag ++ overrides ∧
      (l.moduleFileHash = current.moduleFileHash ∧ head = [] ∨
        l.moduleFileHash ≠ current.moduleFileHash ∧ head = [.rootModule]) ∧
      flags.Sublist Flags.Name.all ∧ flags.Nodup ∧
      (∀ name, name ∈ flags ↔ l.flags.Differs current.flags name) ∧
      Itemized (OverrideReport l.overrideHashes current.overrideHashes) overrides) ∧
    ((∀ name, ¬ l.flags.Differs current.flags name) ↔ l.flags = current.flags) ∧
    (l.inputChanges current = [] ↔ l.Fits current) ∧
    ∀ s : Session, s.lockfile = l →
      (s.mode = .error →
        ((∃ changes, s.checkInputs current = .ok changes) ↔ l.Fits current) ∧
        (¬ l.Fits current →
          s.checkInputs current = .error (.staleInputs (l.inputChanges current)))) ∧
      (s.mode = .update → s.checkInputs current = .ok (l.inputChanges current)) := by
  refine ⟨⟨_, l.flags.changes current.flags, _, rfl, ?_, ?_, ?_, fun _ => Flags.mem_changes,
    overrides_itemized⟩, ?_, Lockfile.inputChanges_eq_nil_iff, ?_⟩
  · split
    · rename_i same
      exact .inl ⟨same, rfl⟩
    · rename_i other
      exact .inr ⟨other, rfl⟩
  · rw [Flags.changes_eq_filter]
    exact List.filter_sublist
  · rw [Flags.changes_eq_filter]
    exact Flags.Name.all_nodup.filter _
  · simp only [← Flags.mem_changes, ← List.eq_nil_iff_forall_not_mem, Flags.changes_eq_nil]
  · rintro s rfl
    refine ⟨fun strict => ⟨Session.checkInputs_error_iff strict, fun stale => ?_⟩,
      Session.checkInputs_update⟩
    rw [Session.checkInputs_error strict, if_neg (mt Lockfile.inputChanges_eq_nil_iff.mp stale)]

section OverriddenSince

def strictSession : Session :=
  .withLockfile ⟨⟨"MODULE.lock"⟩⟩ .empty ⟨⟨"out"⟩, .error, ⟨.empty, .offline, .nan⟩⟩ 1

def overridingInputs : ResolutionInputs :=
  { ResolutionInputs.default with
    flags := { Flags.default with ignoreDevDependency := true }
    overrideHashes := .ofList [("lib", "sha256-a")] }

theorem overridingInputs_stale : strictSession.checkInputs overridingInputs =
    .error (.staleInputs [.flag .ignoreDevDependency, .overrideNew "lib"]) := by
  obtain ⟨-, -, fits, checked⟩ := staleInputs_reported .empty overridingInputs
  refine ((checked strictSession rfl).1 rfl).2 (fun same => ?_)
  cases fits.mpr same

end OverriddenSince

end ExtensionLock
