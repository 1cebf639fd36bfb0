import ExtensionLock.Lockfile.Update
import ExtensionLock.Proofs.Policy

/-! Validity and the next lockfile. A lockfile is valid when its entries generate what its own graph
imports. The next lockfile has the fresh result of every used extension, and the previous entry of
every other one that is used as before. -/

namespace ExtensionLock

namespace RepoSpecs

def Generates (specs : RepoSpecs) (usages : ModuleUsages) : Prop :=
  ∀ key u, usages.get? key = some u → ∀ e ∈ u.imports.entries, specs.contains e.2 = true

theorem unresolvedOf_eq_nil_iff {id : ExtensionId} {specs : RepoSpecs} {u : Usage} :
    unresolvedOf id specs u = [] ↔ ∀ e ∈ u.imports.entries, specs.contains e.2 = true := by
  rw [unresolvedOf, List.map_eq_nil_iff, List.filter_eq_nil_iff]
  simp only [Bool.not_eq_true', Bool.not_eq_false]

theorem checkImports_eq_ok_iff {id : ExtensionId} {specs : RepoSpecs} {usages : ModuleUsages} :
    checkImports id specs usages.values = .ok () ↔ specs.Generates usages := by
  have resolved : checkImports id specs usages.values = .ok () ↔
      unresolvedImports id specs usages.values = [] := by
    rw [checkImports]
    cases unresolvedImports id specs usages.values with
    | nil => exact ⟨fun _ => rfl, fun _ => rfl⟩
    | cons failure rest => exact ⟨fun h => (by cases h), fun h => (by cases h)⟩
  rw [resolved, unresolvedImports, List.flatMap_eq_nil_iff]
  constructor
  · intro none_missing key u found
    have member : u ∈ usages.values :=
      List.mem_map_of_mem (f := Prod.snd) (SortedMap.get?_eq_some_iff.mp found)
    exact unresolvedOf_eq_nil_iff.mp (none_missing u member)
  · intro generates u member
    obtain ⟨e, he, rfl⟩ := List.mem_map.mp member
    exact unresolvedOf_eq_nil_iff.mpr (generates e.1 e.2 (SortedMap.mem_entries_iff.mp he))

theorem Generates.of_beq {specs : RepoSpecs} {usages usages' : ModuleUsages}
    (generates : specs.Generates usages) (agree : (usages == usages') = true) :
    specs.Generates usages' := by
  intro key u found e member
  have same := SortedMap.get?_beq agree key
  rw [found] at same
  cases before : usages.get? key with
  | none => rw [before] at same; cases same
  | some w =>
    rw [before] at same
    obtain ⟨-, -, imports, -⟩ := Usage.beq_iff.mp same
    rw [← imports] at member
    exact generates key w before e member

end RepoSpecs

def LockedExtensions.Generate (m : LockedExtensions) (usages : UsagesById) : Prop :=
  ∀ id entry, m.get? id = some entry →
    ∀ perModule, usages.get? id = some perModule → entry.specs.Generates perModule

namespace Lockfile

variable {l : Lockfile} {x : UsagesById}

def checkEntry (usages : UsagesById) (e : ExtensionId × LockedExtension) :
    Except LockfileError Unit :=
  match usages.get? e.1 with
  | none => pure ()
  | some perModule =>
    (checkImports e.1 e.2.specs perModule.values).mapError (.unresolvedImports e.1)

theorem checkEntries_cons (usages : UsagesById) (e : ExtensionId × LockedExtension)
    (rest : List (ExtensionId × LockedExtension)) :
    checkEntries usages (e :: rest) = (do
      checkEntry usages e
      checkEntries usages rest) := by
  obtain ⟨id, entry⟩ := e
  rw [checkEntries, checkEntry]
  cases usages.get? id <;> rfl

theorem checkEntry_eq_ok_iff {e : ExtensionId × LockedExtension} :
    checkEntry x e = .ok () ↔
      ∀ perModule, x.get? e.1 = some perModule → e.2.specs.Generates perModule := by
  rw [checkEntry]
  cases x.get? e.1 with
  | none => exact ⟨fun _ _ h => (by cases h), fun _ => rfl⟩
  | some perModule =>
    simp only [Option.some.injEq, forall_eq']
    rw [← @RepoSpecs.checkImports_eq_ok_iff e.1]
    cases checkImports e.1 e.2.specs perModule.values with
    | ok u => exact ⟨fun _ => rfl, fun _ => rfl⟩
    | error failures => exact ⟨fun h => (by cases h), fun h => (by cases h)⟩

theorem checkEntries_eq_ok_iff {entries : List (ExtensionId × LockedExtension)} :
    checkEntries x entries = .ok () ↔ ∀ e ∈ entries, ∀ perModule,
      x.get? e.1 = some perModule → e.2.specs.Generates perModule := by
  induction entries with
  | nil => exact ⟨fun _ e he => (by cases he), fun _ => rfl⟩
  | cons e rest ih =>
    rw [checkEntries_cons, List.forall_mem_cons, ← ih, ← checkEntry_eq_ok_iff]
    cases checkEntry x e with
    | ok u => exact ⟨fun h => ⟨rfl, h⟩, fun h => h.2⟩
    | error failure => exact ⟨fun h => (by cases h), fun h => (by cases h.1)⟩

theorem validate_eq (grouped : l.usagesById = .ok x) :
    l.validate = checkEntries x l.extensions.entries := by
  rw [validate, grouped]
  rfl

theorem validate_of_usages (grouped : l.usagesById = .ok x) :
    l.validate = .ok () ↔ l.extensions.Generate x := by
  rw [validate_eq grouped, checkEntries_eq_ok_iff]
  constructor
  · intro all id entry found
    exact all (id, entry) (SortedMap.get?_eq_some_iff.mp found)
  · intro generate e he
    exact generate e.1 e.2 (SortedMap.mem_entries_iff.mp he)

end Lockfile

namespace FreshResults

variable {f : FreshResults} {previous next : Lockfile} {inputs : ResolutionInputs}
  {current before : UsagesById}

theorem survives_iff {id : ExtensionId} : survives current before id = true ↔
    ∃ now was, current.get? id = some now ∧ before.get? id = some was ∧ (now == was) = true := by
  rw [survives]
  cases current.get? id with
  | none => exact ⟨fun h => (by cases h), fun ⟨_, _, h, _⟩ => (by cases h)⟩
  | some now => cases before.get? id with
    | none => exact ⟨fun h => (by cases h), fun ⟨_, _, _, h, _⟩ => (by cases h)⟩
    | some was =>
      constructor
      · intro h
        exact ⟨now, was, rfl, rfl, h⟩
      · rintro ⟨_, _, h, h', same⟩
        cases h
        cases h'
        exact same

theorem eq_empty (nothing : ∀ id, f.results.get? id = none) : f = .empty := by
  obtain ⟨results⟩ := f
  exact congrArg FreshResults.mk (SortedMap.ext_get? nothing)

/-- The next lockfile as a function of both groupings. -/
def merged (f : FreshResults) (previous : Lockfile) (inputs : ResolutionInputs)
    (current before : UsagesById) : Lockfile :=
  { Lockfile.ofInputs inputs with
    extensions := (previous.extensions.filter (fun id _ => survives current before id)).insertAll
      (f.results.filter (fun id _ => current.contains id)).entries }

theorem build_eq_ok : f.build previous inputs = .ok next ↔ ∃ current before,
    inputs.depGraph.usagesById = .ok current ∧ previous.usagesById = .ok before ∧
      next = f.merged previous inputs current before := by
  rw [build]
  cases grouped : (Lockfile.ofInputs inputs).usagesById with
  | error e =>
    constructor
    · intro h
      cases h
    · rintro ⟨current, before, now, -⟩
      rw [Lockfile.usagesById_eq_ok.mpr now] at grouped
      cases grouped
  | ok current =>
    have now : inputs.depGraph.usagesById = .ok current := Lockfile.usagesById_eq_ok.mp grouped
    cases previous.usagesById with
    | error e => exact ⟨fun h => (by cases h), fun ⟨_, _, _, h, _⟩ => (by cases h)⟩
    | ok before =>
      constructor
      · intro h
        cases h
        exact ⟨current, before, now, rfl, rfl⟩
      · rintro ⟨current', before', now', h, rfl⟩
        rw [now] at now'
        cases now'
        cases h
        rfl

theorem merged_usagesById (now : inputs.depGraph.usagesById = .ok current) :
    (f.merged previous inputs current before).usagesById = .ok current :=
  Lockfile.usagesById_eq_ok.mpr now

theorem merged_get? (id : ExtensionId) :
    (f.merged previous inputs current before).extensions.get? id =
      ((f.results.get? id).filter (fun _ => current.contains id)).or
        ((previous.extensions.get? id).filter (fun _ => survives current before id)) := by
  rw [merged, SortedMap.get?_insertAll_entries, SortedMap.get?_filter, SortedMap.get?_filter]

theorem entry_of_merged {id : ExtensionId} {entry : LockedExtension}
    (found : (f.merged previous inputs current before).extensions.get? id = some entry) :
    (f.results.get? id = some entry ∧ ∃ now, current.get? id = some now) ∨
      (previous.extensions.get? id = some entry ∧ ∃ now was, current.get? id = some now ∧
        before.get? id = some was ∧ (now == was) = true) := by
  rw [merged_get?, Option.or_eq_some_iff] at found
  rcases found with fresh | ⟨-, kept⟩
  · obtain ⟨recorded, used⟩ := Option.filter_eq_some_iff.mp fresh
    exact Or.inl ⟨recorded, Option.isSome_iff_exists.mp used⟩
  · obtain ⟨locked, survived⟩ := Option.filter_eq_some_iff.mp kept
    exact Or.inr ⟨locked, survives_iff.mp survived⟩

theorem merged_again :
    empty.merged (f.merged previous inputs current before) inputs current current =
      f.merged previous inputs current before := by
  have same : (empty.merged (f.merged previous inputs current before) inputs current
      current).extensions = (f.merged previous inputs current before).extensions := by
    apply SortedMap.ext_get?
    intro id
    rw [merged_get?]
    change (none : Option LockedExtension).or _ = _
    rw [Option.none_or]
    cases found : (f.merged previous inputs current before).extensions.get? id with
    | none => rfl
    | some entry =>
      have used : ∃ now, current.get? id = some now := by
        rcases entry_of_merged found with ⟨-, used⟩ | ⟨-, now, was, used, -⟩
        · exact used
        · exact ⟨now, used⟩
      obtain ⟨now, used⟩ := used
      rw [Option.filter_some, if_pos (survives_iff.mpr ⟨now, now, used, used, BEq.rfl⟩)]
  exact congrArg (fun extensions => { Lockfile.ofInputs inputs with extensions }) same

/-- Entries that survive a valid lockfile generate what is imported now, so whether the next one is
valid rests with the fresh results. -/
theorem merged_validate_iff (valid : previous.validate = .ok ())
    (now : inputs.depGraph.usagesById = .ok current) (was : previous.usagesById = .ok before) :
    (f.merged previous inputs current before).validate = .ok () ↔ f.results.Generate current := by
  rw [Lockfile.validate_of_usages (merged_usagesById now)]
  constructor
  · intro generate id entry recorded perModule used
    refine generate id entry ?_ perModule used
    rw [merged_get?, recorded, Option.filter_some, SortedMap.contains, used]
    rfl
  · intro generate id entry found perModule used
    rcases entry_of_merged found with ⟨recorded, -⟩ | ⟨locked, usages, earlier, here, there, same⟩
    · exact generate id entry recorded perModule used
    · rw [used] at here
      cases here
      have generated := (Lockfile.validate_of_usages was).mp valid id entry locked earlier there
      exact generated.of_beq (PartialEquivBEq.symm same)

end FreshResults

end ExtensionLock
