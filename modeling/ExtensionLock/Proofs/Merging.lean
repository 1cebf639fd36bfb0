import ExtensionLock.Proofs.Imports
import ExtensionLock.Proofs.Transparency
import Mathlib.Data.List.Induction

/-! The next lockfile, entry by entry. What was recorded last for an extension that is still used
comes first; where nothing was recorded the previous entry stays for as long as every module uses
the extension as before. -/

namespace ExtensionLock

namespace DepGraph

def Uses (g : DepGraph) (id : ExtensionId) : Prop :=
  ∃ key m, g.get? key = some m ∧ ∃ u ∈ m.usages, u.extensionId = id

def SameUsages (g h : DepGraph) (id : ExtensionId) : Prop :=
  ∀ key, (g.usage? id key == h.usage? id key) = true

variable {g h : DepGraph} {x y : UsagesById} {id : ExtensionId}

theorem uses_iff_declared : g.Uses id ↔ ∃ p ∈ g.declared, p.2.extensionId = id := by
  constructor
  · rintro ⟨key, m, found, u, member, same⟩
    exact ⟨(key, u), List.mem_flatMap.mpr ⟨(key, m), SortedMap.get?_eq_some_iff.mp found,
      List.mem_map.mpr ⟨u, member, rfl⟩⟩, same⟩
  · rintro ⟨p, member, same⟩
    obtain ⟨e, here, inside⟩ := List.mem_flatMap.mp member
    obtain ⟨u, used, rfl⟩ := List.mem_map.mp inside
    exact ⟨e.1, e.2, SortedMap.mem_entries_iff.mp here, u, used, same⟩

theorem contains_iff_uses (grouped : g.usagesById = .ok x) : x.contains id = true ↔ g.Uses id := by
  have groups := usagesById_groups grouped
  rw [uses_iff_declared, SortedMap.contains, Option.isSome_iff_exists]
  constructor
  · rintro ⟨us, found⟩
    obtain ⟨key, u, inside⟩ := groups.inhabited id us found
    rw [← SortedMap.getD_of_get? found, groups.shown] at inside
    exact ⟨(key, u), inside⟩
  · rintro ⟨p, declared⟩
    have shown := (groups.shown id p.1 p.2).mpr declared
    exact ⟨_, get?_of_getD_beq BEq.rfl shown⟩

theorem get?_of_grouped {us : ModuleUsages} (grouped : g.usagesById = .ok x)
    (found : x.get? id = some us) : us.get? = g.usage? id := by
  rw [← declares_eq grouped id, SortedMap.getD_of_get? found]

theorem survives_iff_sameUsages (now : g.usagesById = .ok x) (was : h.usagesById = .ok y) :
    FreshResults.survives x y id = true ↔ g.Uses id ∧ g.SameUsages h id := by
  have agree : g.SameUsages h id ↔ (x.getD id .empty == y.getD id .empty) = true := by
    rw [SortedMap.beq_iff_get?]
    simp only [getD_get?_eq_usage? now, getD_get?_eq_usage? was, SameUsages]
  rw [FreshResults.survives_iff, ← contains_iff_uses now, agree, SortedMap.contains,
    Option.isSome_iff_exists]
  constructor
  · rintro ⟨us, ws, found, found', same⟩
    refine ⟨⟨us, found⟩, ?_⟩
    rw [SortedMap.getD_of_get? found, SortedMap.getD_of_get? found']
    exact same
  · rintro ⟨⟨us, found⟩, same⟩
    obtain ⟨key, u, inside⟩ := (usagesById_groups now).inhabited id us found
    rw [SortedMap.getD_of_get? found] at same
    exact ⟨us, _, found, get?_of_getD_beq (PartialEquivBEq.symm same) inside, same⟩

end DepGraph

def LastRecorded (records : List Resolution) (id : ExtensionId) (entry : LockedExtension) : Prop :=
  ∃ before after, records = before ++ ⟨id, entry⟩ :: after ∧ ∀ r ∈ after, r.id ≠ id

namespace FreshResults

/-- The fresh results when some have been recorded one after another. -/
def ofRecords (records : List Resolution) : FreshResults := records.foldl record .empty

variable {records : List Resolution} {id : ExtensionId} {entry : LockedExtension}

theorem ofRecords_concat (r : Resolution) :
    (ofRecords (records ++ [r])).results.get? id =
      if id = r.id then some r.entry else (ofRecords records).results.get? id := by
  rw [ofRecords, List.foldl_append]
  exact SortedMap.get?_insert_eq (ofRecords records).results r.id id r.entry

theorem lastRecorded_concat (r : Resolution) : LastRecorded (records ++ [r]) id entry ↔
    if id = r.id then entry = r.entry else LastRecorded records id entry := by
  constructor
  · rintro ⟨before, after, split, other⟩
    rcases List.eq_nil_or_concat after with rfl | ⟨after, r', rfl⟩
    · obtain ⟨rfl, last⟩ := List.append_inj' split rfl
      cases last
      rw [if_pos rfl]
    · rw [List.concat_eq_append, ← List.cons_append, ← List.append_assoc] at split
      obtain ⟨rfl, last⟩ := List.append_inj' split rfl
      cases last
      rw [if_neg (Ne.symm (other r (by simp)))]
      exact ⟨before, after, rfl, fun r' member => other r' (by simp [member])⟩
  · split
    · rename_i same
      rintro rfl
      exact ⟨records, [], by rw [same], by simp⟩
    · rename_i different
      rintro ⟨before, after, rfl, other⟩
      refine ⟨before, after ++ [r], by simp, ?_⟩
      intro r' member
      rcases List.mem_append.mp member with earlier | last
      · exact other r' earlier
      · rw [List.mem_singleton.mp last]
        exact Ne.symm different

theorem ofRecords_get? :
    (ofRecords records).results.get? id = some entry ↔ LastRecorded records id entry := by
  induction records using List.reverseRecOn with
  | nil => exact ⟨fun h => (by cases h), fun ⟨before, after, h, _⟩ => (by simp at h)⟩
  | append_singleton records r ih =>
    rw [ofRecords_concat, lastRecorded_concat]
    split
    · exact ⟨fun h => (Option.some.inj h).symm, fun h => congrArg some h.symm⟩
    · exact ih

theorem ofRecords_get?_none :
    (ofRecords records).results.get? id = none ↔ ∀ r ∈ records, r.id ≠ id := by
  induction records using List.reverseRecOn with
  | nil => exact ⟨fun _ r h => (by cases h), fun _ => rfl⟩
  | append_singleton records r ih =>
    rw [ofRecords_concat, List.forall_mem_append, List.forall_mem_singleton, ← ih]
    by_cases same : id = r.id
    · rw [if_pos same]
      exact ⟨fun h => (by cases h), fun h => absurd same.symm h.2⟩
    · rw [if_neg same, and_iff_left (Ne.symm same)]

variable {previous next : Lockfile} {inputs : ResolutionInputs} {f : FreshResults}

theorem exists_build_iff : (∃ next, f.build previous inputs = .ok next) ↔
    inputs.depGraph.Distinct ∧ previous.depGraph.Distinct := by
  rw [← DepGraph.exists_usagesById_iff, Lockfile.distinct_iff]
  constructor
  · rintro ⟨next, built⟩
    obtain ⟨current, before, now, was, -⟩ := build_eq_ok.mp built
    exact ⟨⟨current, now⟩, ⟨before, was⟩⟩
  · rintro ⟨⟨current, now⟩, ⟨before, was⟩⟩
    exact ⟨_, build_eq_ok.mpr ⟨current, before, now, was, rfl⟩⟩

theorem build_get? (built : (ofRecords records).build previous inputs = .ok next) :
    next.extensions.get? id = some entry ↔ inputs.depGraph.Uses id ∧
      (LastRecorded records id entry ∨ (∀ r ∈ records, r.id ≠ id) ∧
        previous.extensions.get? id = some entry ∧
        inputs.depGraph.SameUsages previous.depGraph id) := by
  obtain ⟨current, before, now, was, rfl⟩ := build_eq_ok.mp built
  have survived : survives current before id = true ↔
      current.contains id = true ∧ inputs.depGraph.SameUsages previous.depGraph id := by
    rw [DepGraph.contains_iff_uses now]
    exact DepGraph.survives_iff_sameUsages now (Lockfile.usagesById_eq_ok.mp was)
  rw [merged_get?, ← ofRecords_get?, ← ofRecords_get?_none, ← DepGraph.contains_iff_uses now]
  cases used : current.contains id with
  | false =>
    have dropped : survives current before id = false := by
      rw [Bool.eq_false_iff, ne_eq, survived, used]
      exact fun h => Bool.false_ne_true h.1
    simp [dropped]
  | true =>
    rw [used] at survived
    cases (ofRecords records).results.get? id with
    | some fresh => simp
    | none => simp [Option.filter_eq_some_iff, survived]

theorem build_again (built : f.build previous inputs = .ok next) :
    empty.build next inputs = .ok next := by
  obtain ⟨current, before, now, was, rfl⟩ := build_eq_ok.mp built
  exact build_eq_ok.mpr ⟨current, current, now, merged_usagesById now, merged_again.symm⟩

theorem build_valid (valid : previous.validate = .ok ())
    (built : (ofRecords records).build previous inputs = .ok next) :
    next.validate = .ok () ↔ ∀ id entry, inputs.depGraph.Uses id → LastRecorded records id entry →
      entry.specs.Covers (inputs.depGraph.usage? id) := by
  obtain ⟨current, before, now, was, rfl⟩ := build_eq_ok.mp built
  rw [merged_validate_iff valid now was]
  constructor
  · intro generate id entry used recorded
    obtain ⟨perModule, found⟩ := Option.isSome_iff_exists.mp
      ((DepGraph.contains_iff_uses now).mpr used)
    rw [← DepGraph.get?_of_grouped now found, ← RepoSpecs.generates_iff_covers]
    exact generate id entry (ofRecords_get?.mpr recorded) perModule found
  · intro covers id entry recorded perModule found
    rw [RepoSpecs.generates_iff_covers, DepGraph.get?_of_grouped now found]
    exact covers id entry ((DepGraph.contains_iff_uses now).mp
      (Option.isSome_iff_exists.mpr ⟨perModule, found⟩)) (ofRecords_get?.mp recorded)

/-- The next lockfile has the last entry recorded for every extension that is used, and the previous
one where nothing was recorded and every module uses the extension as before. Made again without new
results it is the same, and if the previous one is valid its validity rests with what was recorded.
Only a module that declares something about an extension twice, then or now, keeps it from being
made. -/
theorem build_settled (records : List Resolution) (previous : Lockfile)
    (inputs : ResolutionInputs) :
    ((∃ failure, (ofRecords records).build previous inputs = .error failure) ↔
      ¬ inputs.depGraph.Distinct ∨ ¬ previous.depGraph.Distinct) ∧
    ∀ next, (ofRecords records).build previous inputs = .ok next →
      next.inputs = inputs ∧ next.version = Lockfile.currentVersion ∧
      (∀ id entry, next.extensions.get? id = some entry ↔ inputs.depGraph.Uses id ∧
        (LastRecorded records id entry ∨ (∀ r ∈ records, r.id ≠ id) ∧
          previous.extensions.get? id = some entry ∧
          inputs.depGraph.SameUsages previous.depGraph id)) ∧
      empty.build next inputs = .ok next ∧
      (previous.validate = .ok () → (next.validate = .ok () ↔
        ∀ id entry, inputs.depGraph.Uses id → LastRecorded records id entry →
          entry.specs.Covers (inputs.depGraph.usage? id))) := by
  constructor
  · rw [← not_and_or, ← exists_build_iff]
    cases (ofRecords records).build previous inputs with
    | ok next => exact ⟨fun ⟨_, h⟩ => (by cases h), fun h => absurd ⟨next, rfl⟩ h⟩
    | error failure => exact ⟨fun _ ⟨_, h⟩ => (by cases h), fun _ => ⟨failure, rfl⟩⟩
  · intro next built
    have carried : next.inputs = inputs ∧ next.version = Lockfile.currentVersion := by
      obtain ⟨current, before, -, -, rfl⟩ := build_eq_ok.mp built
      exact ⟨rfl, rfl⟩
    exact ⟨carried.1, carried.2, fun id entry => build_get? built, build_again built,
      fun valid => build_valid valid built⟩

/-- Of two results that are recorded for an extension the later one is in the next lockfile. -/
theorem later_record_kept : ∃ next,
    (ofRecords [⟨depsId, ⟨⟨[1]⟩, .empty⟩⟩, ⟨depsId, ⟨⟨[2]⟩, .empty⟩⟩]).build bareLockfile
      bareLockfile.inputs = .ok next ∧
    next.extensions.get? depsId = some ⟨⟨[2]⟩, .empty⟩ ∧
    empty.build next bareLockfile.inputs = .ok next := by
  obtain ⟨-, built⟩ := build_settled
    [⟨depsId, ⟨⟨[1]⟩, .empty⟩⟩, ⟨depsId, ⟨⟨[2]⟩, .empty⟩⟩] bareLockfile bareLockfile.inputs
  obtain ⟨-, -, entries, again, -⟩ := built _ rfl
  have used : bareLockfile.inputs.depGraph.Uses depsId :=
    ⟨.root, bareRoot, rfl, _, List.mem_singleton.mpr rfl, rfl⟩
  have last : LastRecorded [⟨depsId, ⟨⟨[1]⟩, .empty⟩⟩, ⟨depsId, ⟨⟨[2]⟩, .empty⟩⟩] depsId
      ⟨⟨[2]⟩, .empty⟩ := ⟨[_], [], rfl, by simp⟩
  exact ⟨_, rfl, (entries _ _).mpr ⟨used, .inl last⟩, again⟩

end FreshResults

end ExtensionLock
