import ExtensionLock.Proofs.Update
import Mathlib.Data.List.Sort

/-! What imports ask of repositories. A check that fails reports each import that is not generated
once, in the order of the modules and of the names they give. A lockfile that is not valid is
reported by the first of its entries that fails. -/

namespace ExtensionLock

structure Import where
  module : ModuleKey
  usage : Usage
  name : String
  exported : String

namespace Import

def Of (declares : ModuleKey → Option Usage) (i : Import) : Prop :=
  declares i.module = some i.usage ∧ i.usage.imports.get? i.name = some i.exported

def Before (i j : Import) : Prop :=
  compare i.module j.module = .lt ∨ i.module = j.module ∧ compare i.name j.name = .lt

def failure (id : ExtensionId) (specs : RepoSpecs) (i : Import) : UnresolvedImport where
  extensionName := id.name
  bzlFile := id.label.text
  exported := i.exported
  name := i.name
  location := i.usage.location
  suggestion := Spelling.didYouMean i.exported specs.keys

theorem Before.asymm {i j : Import} (before : i.Before j) : ¬ j.Before i := by
  rcases before with modules | ⟨same, names⟩
  · rintro (modules' | ⟨same, -⟩)
    · exact Std.OrientedCmp.not_lt_of_lt modules modules'
    · simp only [same, Std.compare_self, reduceCtorEq] at modules
  · rintro (modules' | ⟨-, names'⟩)
    · simp only [same, Std.compare_self, reduceCtorEq] at modules'
    · exact Std.OrientedCmp.not_lt_of_lt names names'

instance instIrreflBefore : Std.Irrefl Before := ⟨fun _ before => before.asymm before⟩

instance instAntisymmBefore : Std.Antisymm Before :=
  ⟨fun _ _ before after => absurd after before.asymm⟩

end Import

namespace RepoSpecs

def Covers (specs : RepoSpecs) (declares : ModuleKey → Option Usage) : Prop :=
  ∀ i : Import, i.Of declares → specs.contains i.exported = true

/-- The failures of a check: one for each import that is not among the repositories, in order. -/
def Reports (specs : RepoSpecs) (id : ExtensionId) (declares : ModuleKey → Option Usage)
    (failures : List UnresolvedImport) : Prop :=
  ∃ missing : List Import, missing.Pairwise Import.Before ∧
    (∀ i, i ∈ missing ↔ i.Of declares ∧ specs.contains i.exported = false) ∧
    failures = missing.map (Import.failure id specs)

variable {specs : RepoSpecs} {id : ExtensionId} {declares : ModuleKey → Option Usage}
  {failures failures' : List UnresolvedImport}

theorem Reports.unique (reports : specs.Reports id declares failures)
    (reports' : specs.Reports id declares failures') : failures = failures' := by
  obtain ⟨missing, sorted, exactly, rfl⟩ := reports
  obtain ⟨missing', sorted', exact', rfl⟩ := reports'
  rw [sorted.eq_of_mem_iff sorted' (fun i => (exactly i).trans (exact' i).symm)]

theorem generates_iff_covers {usages : ModuleUsages} :
    specs.Generates usages ↔ specs.Covers usages.get? := by
  constructor
  · rintro generates i ⟨declared, imported⟩
    exact generates i.module i.usage declared (i.name, i.exported)
      (SortedMap.get?_eq_some_iff.mp imported)
  · intro covers key u declared e imported
    exact covers ⟨key, u, e.1, e.2⟩ ⟨declared, SortedMap.mem_entries_iff.mp imported⟩

end RepoSpecs

namespace ModuleUsages

def imports (usages : ModuleUsages) : List Import :=
  usages.entries.flatMap (fun m => m.2.imports.entries.map (fun e => ⟨m.1, m.2, e.1, e.2⟩))

variable {usages : ModuleUsages}

theorem mem_imports {i : Import} : i ∈ usages.imports ↔ i.Of usages.get? := by
  rw [imports, List.mem_flatMap, Import.Of, SortedMap.get?_eq_some_iff, SortedMap.get?_eq_some_iff]
  constructor
  · rintro ⟨m, here, member⟩
    obtain ⟨e, inside, rfl⟩ := List.mem_map.mp member
    exact ⟨here, inside⟩
  · rintro ⟨here, inside⟩
    exact ⟨_, here, List.mem_map.mpr ⟨_, inside, rfl⟩⟩

theorem imports_sorted : usages.imports.Pairwise Import.Before := by
  rw [imports, List.pairwise_flatMap]
  constructor
  · intro m _
    exact List.pairwise_map.mpr (m.2.imports.sorted.imp (fun names => .inr ⟨rfl, names⟩))
  · refine usages.sorted.imp (fun modules i first j second => ?_)
    obtain ⟨-, -, rfl⟩ := List.mem_map.mp first
    obtain ⟨-, -, rfl⟩ := List.mem_map.mp second
    exact .inl modules

theorem unresolvedImports_eq (usages : ModuleUsages) (id : ExtensionId) (specs : RepoSpecs) :
    unresolvedImports id specs usages.values =
      (usages.imports.filter (fun i => !specs.contains i.exported)).map
        (Import.failure id specs) := by
  simp only [unresolvedImports, SortedMap.values, imports, List.flatMap_map, List.filter_flatMap,
    List.map_flatMap, List.filter_map, List.map_map]
  rfl

theorem unresolvedImports_reports (usages : ModuleUsages) (id : ExtensionId) (specs : RepoSpecs) :
    specs.Reports id usages.get? (unresolvedImports id specs usages.values) := by
  refine ⟨_, imports_sorted.filter _, fun i => ?_, unresolvedImports_eq usages id specs⟩
  rw [List.mem_filter, mem_imports, Bool.not_eq_true']

theorem checkImports_eq_error_iff {id : ExtensionId} {specs : RepoSpecs}
    {failures : List UnresolvedImport} : checkImports id specs usages.values = .error failures ↔
      failures ≠ [] ∧ specs.Reports id usages.get? failures := by
  have reports := unresolvedImports_reports usages id specs
  rw [checkImports]
  cases found : unresolvedImports id specs usages.values with
  | nil =>
    rw [found] at reports
    constructor
    · intro h
      cases h
    · rintro ⟨failed, here⟩
      exact absurd (here.unique reports) failed
  | cons failure rest =>
    rw [found] at reports
    constructor
    · intro h
      cases h
      exact ⟨List.cons_ne_nil _ _, reports⟩
    · rintro ⟨-, here⟩
      rw [here.unique reports]

end ModuleUsages

theorem DepGraph.declares_eq {g : DepGraph} {x : UsagesById} (grouped : g.usagesById = .ok x)
    (id : ExtensionId) : (x.getD id .empty).get? = g.usage? id :=
  funext (getD_get?_eq_usage? grouped id)

namespace Lockfile

variable {l : Lockfile} {x : UsagesById}

theorem checkEntry_eq (e : ExtensionId × LockedExtension) :
    checkEntry x e = (checkImports e.1 e.2.specs (x.getD e.1 .empty).values).mapError
      (.unresolvedImports e.1) := by
  rw [checkEntry, SortedMap.getD]
  cases x.get? e.1 <;> rfl

theorem checkEntry_eq_ok_iff_covers (grouped : l.usagesById = .ok x)
    {e : ExtensionId × LockedExtension} :
    checkEntry x e = .ok () ↔ e.2.specs.Covers (l.depGraph.usage? e.1) := by
  rw [checkEntry_eq, ← DepGraph.declares_eq (usagesById_eq_ok.mp grouped),
    ← RepoSpecs.generates_iff_covers, ← @RepoSpecs.checkImports_eq_ok_iff e.1]
  cases checkImports e.1 e.2.specs (x.getD e.1 .empty).values with
  | ok fine => exact ⟨fun _ => rfl, fun _ => rfl⟩
  | error failures => exact ⟨fun h => (by cases h), fun h => (by cases h)⟩

theorem checkEntry_eq_error_iff (grouped : l.usagesById = .ok x)
    {e : ExtensionId × LockedExtension} {failure : LockfileError} :
    checkEntry x e = .error failure ↔ ∃ failures, failure = .unresolvedImports e.1 failures ∧
      failures ≠ [] ∧ e.2.specs.Reports e.1 (l.depGraph.usage? e.1) failures := by
  rw [checkEntry_eq, ← DepGraph.declares_eq (usagesById_eq_ok.mp grouped)]
  simp only [← ModuleUsages.checkImports_eq_error_iff]
  cases checkImports e.1 e.2.specs (x.getD e.1 .empty).values with
  | ok fine => exact ⟨fun h => (by cases h), fun ⟨_, _, h⟩ => (by cases h)⟩
  | error failures =>
    constructor
    · intro h
      cases h
      exact ⟨failures, rfl, rfl⟩
    · rintro ⟨_, rfl, h⟩
      cases h
      rfl

theorem checkEntries_eq_error_iff {entries : List (ExtensionId × LockedExtension)}
    (sorted : entries.Pairwise (fun a b => compare a.1 b.1 = .lt)) {failure : LockfileError} :
    checkEntries x entries = .error failure ↔ ∃ e ∈ entries, checkEntry x e = .error failure ∧
      ∀ other ∈ entries, compare other.1 e.1 = .lt → checkEntry x other = .ok () := by
  induction entries with
  | nil => exact ⟨fun h => (by cases h), fun ⟨_, member, _⟩ => (by cases member)⟩
  | cons first rest ih =>
    obtain ⟨before, sorted⟩ := List.pairwise_cons.mp sorted
    rw [checkEntries_cons]
    cases checked : checkEntry x first with
    | error failure' =>
      constructor
      · intro h
        cases h
        refine ⟨first, List.mem_cons_self, checked, ?_⟩
        rintro other member smaller
        rcases List.mem_cons.mp member with rfl | later
        · simp only [Std.compare_self, reduceCtorEq] at smaller
        · exact absurd smaller (Std.OrientedCmp.not_lt_of_lt (before other later))
      · rintro ⟨e, member, failed, fine⟩
        rcases List.mem_cons.mp member with rfl | later
        · rw [checked] at failed
          cases failed
          rfl
        · have passed := fine first List.mem_cons_self (before e later)
          rw [checked] at passed
          cases passed
    | ok u =>
      refine (ih sorted).trans ?_
      constructor
      · rintro ⟨e, member, failed, fine⟩
        refine ⟨e, List.mem_cons_of_mem _ member, failed, ?_⟩
        rintro other (_ | ⟨_, later⟩) smaller
        · exact checked
        · exact fine other later smaller
      · rintro ⟨e, member, failed, fine⟩
        rcases List.mem_cons.mp member with rfl | later
        · rw [checked] at failed
          cases failed
        · exact ⟨e, later, failed, fun other inside => fine other (List.mem_cons_of_mem _ inside)⟩

theorem distinct_iff : l.depGraph.Distinct ↔ ∃ x, l.usagesById = .ok x := by
  simp only [← DepGraph.exists_usagesById_iff, usagesById_eq_ok]

theorem validate_of_twice (twice : ¬ l.depGraph.Distinct) :
    ∃ duplicate, l.validate = .error (.depGraph duplicate) := by
  rw [validate]
  cases grouped : l.depGraph.usagesById with
  | ok x => exact absurd (DepGraph.exists_usagesById_iff.mp ⟨x, grouped⟩) twice
  | error duplicate =>
    rw [usagesById, grouped]
    exact ⟨duplicate, rfl⟩

def Covered (l : Lockfile) : Prop :=
  ∀ id entry, l.extensions.get? id = some entry → entry.specs.Covers (l.depGraph.usage? id)

/-- The least extension whose entry does not have all that is imported from it. -/
structure FirstUncovered (l : Lockfile) (id : ExtensionId) (failures : List UnresolvedImport) :
    Prop where
  reports : ∃ entry, l.extensions.get? id = some entry ∧
    entry.specs.Reports id (l.depGraph.usage? id) failures
  fails : failures ≠ []
  first : ∀ other entry, l.extensions.get? other = some entry → compare other id = .lt →
    entry.specs.Covers (l.depGraph.usage? other)

theorem validate_error (grouped : l.usagesById = .ok x) {failure : LockfileError}
    (failed : l.validate = .error failure) :
    ∃ id missing, failure = .unresolvedImports id missing := by
  rw [validate_eq grouped, checkEntries_eq_error_iff l.extensions.sorted] at failed
  obtain ⟨e, -, failed, -⟩ := failed
  obtain ⟨missing, rfl, -⟩ := (checkEntry_eq_error_iff grouped).mp failed
  exact ⟨e.1, missing, rfl⟩

theorem validate_eq_ok_iff : l.validate = .ok () ↔ l.depGraph.Distinct ∧ l.Covered := by
  by_cases distinct : l.depGraph.Distinct
  · obtain ⟨x, grouped⟩ := distinct_iff.mp distinct
    rw [validate_eq grouped, checkEntries_eq_ok_iff, and_iff_right distinct]
    simp only [← checkEntry_eq_ok_iff, checkEntry_eq_ok_iff_covers grouped]
    constructor
    · intro all id entry found
      exact all (id, entry) (SortedMap.get?_eq_some_iff.mp found)
    · intro covered e member
      exact covered e.1 e.2 (SortedMap.mem_entries_iff.mp member)
  · obtain ⟨duplicate, invalid⟩ := validate_of_twice distinct
    rw [invalid]
    exact ⟨fun h => (by cases h), fun h => absurd h.1 distinct⟩

theorem validate_eq_unresolved_iff {id : ExtensionId} {failures : List UnresolvedImport} :
    l.validate = .error (.unresolvedImports id failures) ↔
      l.depGraph.Distinct ∧ l.FirstUncovered id failures := by
  by_cases distinct : l.depGraph.Distinct
  · obtain ⟨x, grouped⟩ := distinct_iff.mp distinct
    rw [validate_eq grouped, checkEntries_eq_error_iff l.extensions.sorted,
      and_iff_right distinct]
    simp only [checkEntry_eq_error_iff grouped, checkEntry_eq_ok_iff_covers grouped]
    constructor
    · rintro ⟨e, member, ⟨_, same, fails, reports⟩, first⟩
      cases same
      exact ⟨⟨e.2, SortedMap.mem_entries_iff.mp member, reports⟩, fails, fun other entry found =>
        first (other, entry) (SortedMap.get?_eq_some_iff.mp found)⟩
    · rintro ⟨⟨entry, found, reports⟩, fails, first⟩
      exact ⟨(id, entry), SortedMap.get?_eq_some_iff.mp found, ⟨failures, rfl, fails, reports⟩,
        fun other inside => first other.1 other.2 (SortedMap.mem_entries_iff.mp inside)⟩
  · obtain ⟨duplicate, invalid⟩ := validate_of_twice distinct
    rw [invalid]
    exact ⟨fun h => (by cases h), fun h => absurd h.1 distinct⟩

end Lockfile

end ExtensionLock
