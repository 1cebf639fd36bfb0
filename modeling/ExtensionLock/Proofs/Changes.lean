import ExtensionLock.Lockfile.Change
import ExtensionLock.Proofs.Transparency

/-! When there is nothing to report. Changes are looked for field by field and key by key, while
data is compared as a whole, and the two agree: no change is reported exactly where the two sides
are equal in all that is looked at. The repositories of an entry are not looked at. -/

namespace ExtensionLock

namespace SortedMap

variable {κ : Type u} {ν : Type v} [Ord κ] [Std.TransOrd κ] [Std.LawfulEqOrd κ] [DecidableEq κ]

theorem mem_unionKeys {a b : SortedMap κ ν} {key : κ} :
    key ∈ unionKeys a b ↔ key ∈ a.keys ∨ key ∈ b.keys := by
  rw [unionKeys, mem_keys_ofList, List.map_map, List.mem_map, ← List.mem_append]
  simp only [Function.comp_apply, exists_eq_right]

theorem flatMap_unionKeys_eq_nil {a b : SortedMap κ ν} {report : κ → Option ν → Option ν → List γ}
    (absent : ∀ key, report key none none = []) :
    (unionKeys a b).flatMap (fun key => report key (a.get? key) (b.get? key)) = [] ↔
      ∀ key, report key (a.get? key) (b.get? key) = [] := by
  rw [List.flatMap_eq_nil_iff]
  refine ⟨fun quiet key => ?_, fun quiet key _ => quiet key⟩
  by_cases member : key ∈ unionKeys a b
  · exact quiet key member
  · obtain ⟨inA, inB⟩ := not_or.mp (mt mem_unionKeys.mpr member)
    rw [get?_eq_none_iff.mpr inA, get?_eq_none_iff.mpr inB]
    exact absent key

end SortedMap

theorem overrideChange_eq_nil {name : String} {was now : Option String} :
    overrideChange name was now = [] ↔ was = now := by
  cases was <;> cases now <;> simp [overrideChange]

theorem Flags.changes_eq_nil {locked current : Flags} :
    Flags.changes locked current = [] ↔ locked = current := by
  have unless_eq_nil {p : Prop} [Decidable p] (name : Name) :
      (if p then [] else [name]) = [] ↔ p := by
    by_cases h : p <;> simp [h]
  simp only [changes, List.append_eq_nil_iff, unless_eq_nil]
  cases locked
  cases current
  simp only [mk.injEq, and_assoc]

theorem inputChanges_eq_nil {locked current : ResolutionInputs} :
    inputChanges locked current = [] ↔ locked.moduleFileHash = current.moduleFileHash ∧
      locked.flags = current.flags ∧ locked.overrideHashes = current.overrideHashes := by
  have hashes : (if locked.moduleFileHash = current.moduleFileHash then []
      else [InputChange.rootModule]) = [] ↔ locked.moduleFileHash = current.moduleFileHash := by
    by_cases same : locked.moduleFileHash = current.moduleFileHash <;> simp [same]
  rw [inputChanges, List.append_eq_nil_iff, List.append_eq_nil_iff, hashes, List.map_eq_nil_iff,
    Flags.changes_eq_nil, SortedMap.flatMap_unionKeys_eq_nil (fun _ => rfl), and_assoc]
  refine and_congr_right (fun _ => and_congr_right (fun _ => ?_))
  simp only [overrideChange_eq_nil]
  exact ⟨SortedMap.ext_get?, fun same key => by rw [same]⟩

theorem usageChanges_ne_nil (was now : Usage) : usageChanges was now ≠ [] := by
  rw [usageChanges]
  split
  · split <;> exact List.cons_ne_nil _ _
  · rename_i nonempty
    exact nonempty

theorem moduleChanges_eq_nil {module : ModuleKey} {was now : Option Usage} :
    moduleChanges module was now = [] ↔ (was == now) = true := by
  cases was with
  | none => cases now <;> simp [moduleChanges]
  | some was => cases now with
    | none => simp [moduleChanges]
    | some now =>
      rw [moduleChanges, Option.some_beq_some]
      split
      · rename_i same
        exact iff_of_true rfl same
      · rename_i other
        refine iff_of_false (fun nothing => ?_) other
        exact usageChanges_ne_nil was now (List.map_eq_nil_iff.mp nothing)

theorem extensionChanges_eq_nil {locked : Option LockedExtension} {lockedUsages : ModuleUsages}
    {digest : Digest} {usages : ModuleUsages} :
    extensionChanges locked lockedUsages digest usages = [] ↔
      (∃ entry, locked = some entry ∧ entry.digest = digest) ∧ (lockedUsages == usages) = true := by
  unfold extensionChanges
  rw [List.append_eq_nil_iff, SortedMap.flatMap_unionKeys_eq_nil (fun _ => rfl),
    SortedMap.beq_iff_get?]
  simp only [moduleChanges_eq_nil]
  refine and_congr_left (fun _ => ?_)
  cases locked with
  | none => simp
  | some entry => by_cases same : entry.digest = digest <;> simp [same]

namespace Lockfile

variable {old new : Lockfile}

/-- Two lockfiles record the same, as far as changes are looked for: the inputs of the resolution,
the extensions with their digests, and for each of them what the modules declare about it. What the
extensions have generated is not part of this. -/
structure SameRecord (old new : Lockfile) : Prop where
  moduleFileHash : old.moduleFileHash = new.moduleFileHash
  flags : old.flags = new.flags
  overrideHashes : old.overrideHashes = new.overrideHashes
  digests : ∀ id, (old.extensions.get? id).map LockedExtension.digest =
    (new.extensions.get? id).map LockedExtension.digest
  usages : ∀ id, id ∈ old.extensions.keys → ∀ key,
    (old.depGraph.usage? id key == new.depGraph.usage? id key) = true

theorem SameRecord.mem_keys_iff (same : old.SameRecord new) {id : ExtensionId} :
    id ∈ old.extensions.keys ↔ id ∈ new.extensions.keys := by
  have absent : old.extensions.get? id = none ↔ new.extensions.get? id = none := by
    have digests := same.digests id
    rw [← Option.map_eq_none_iff, digests, Option.map_eq_none_iff]
  rw [← not_iff_not, ← SortedMap.get?_eq_none_iff, absent, SortedMap.get?_eq_none_iff]

def changesOf (old new : Lockfile) (oldUsages newUsages : UsagesById) (id : ExtensionId) :
    List LockfileChange :=
  match new.extensions.get? id with
  | none => [.extensionGone id]
  | some entry =>
    (extensionChanges (old.extensions.get? id) (oldUsages.getD id .empty) entry.digest
      (newUsages.getD id .empty)).map (.extension id)

theorem changes_of_usages {x y : UsagesById} (grouped : old.usagesById = .ok x)
    (grouped' : new.usagesById = .ok y) :
    old.changes new = .ok ((old.inputChanges new.inputs).map .input ++
      (SortedMap.unionKeys old.extensions new.extensions).flatMap (changesOf old new x y)) := by
  rw [changes, grouped, grouped']
  rfl

theorem changesOf_eq_nil {x y : UsagesById} {id : ExtensionId} :
    changesOf old new x y id = [] ↔ new.extensions.get? id ≠ none ∧
      (old.extensions.get? id).map LockedExtension.digest =
        (new.extensions.get? id).map LockedExtension.digest ∧
      (x.getD id .empty == y.getD id .empty) = true := by
  unfold changesOf
  cases new.extensions.get? id with
  | none => simp
  | some entry => simp [extensionChanges_eq_nil]

/-- A lockfile whose changes are none records the same as before, and the other way round. -/
theorem changes_eq_nil_iff (oldDistinct : old.depGraph.Distinct)
    (newDistinct : new.depGraph.Distinct) :
    ∃ changes, old.changes new = .ok changes ∧ (changes = [] ↔ old.SameRecord new) := by
  obtain ⟨x, grouped⟩ := DepGraph.exists_usagesById_iff.mpr oldDistinct
  obtain ⟨y, grouped'⟩ := DepGraph.exists_usagesById_iff.mpr newDistinct
  refine ⟨_, changes_of_usages (usagesById_eq_ok.mpr grouped) (usagesById_eq_ok.mpr grouped'), ?_⟩
  have usages (id : ExtensionId) : (x.getD id .empty == y.getD id .empty) = true ↔
      ∀ key, (old.depGraph.usage? id key == new.depGraph.usage? id key) = true := by
    rw [SortedMap.beq_iff_get?]
    simp only [DepGraph.getD_get?_eq_usage? grouped, DepGraph.getD_get?_eq_usage? grouped']
  rw [List.append_eq_nil_iff, List.map_eq_nil_iff, inputChanges, inputChanges_eq_nil,
    List.flatMap_eq_nil_iff]
  simp only [changesOf_eq_nil, SortedMap.mem_unionKeys, usages]
  constructor
  · rintro ⟨⟨hash, flags, overrides⟩, quiet⟩
    refine ⟨hash, flags, overrides, ?_, ?_⟩
    · intro id
      by_cases either : id ∈ old.extensions.keys ∨ id ∈ new.extensions.keys
      · exact (quiet id either).2.1
      · obtain ⟨inOld, inNew⟩ := not_or.mp either
        rw [SortedMap.get?_eq_none_iff.mpr inOld, SortedMap.get?_eq_none_iff.mpr inNew]
    · intro id recorded
      exact (quiet id (Or.inl recorded)).2.2
  · intro same
    refine ⟨⟨same.moduleFileHash, same.flags, same.overrideHashes⟩, ?_⟩
    intro id either
    have inOld : id ∈ old.extensions.keys := either.elim (fun h => h) same.mem_keys_iff.mpr
    have inNew := mt SortedMap.get?_eq_none_iff.mp (not_not.mpr (same.mem_keys_iff.mp inOld))
    exact ⟨inNew, same.digests id, same.usages id inOld⟩

def regenerated : Lockfile :=
  { bareLockfile with
    extensions := .ofList [(depsId, ⟨⟨[]⟩, .ofList [("a", .native "local_repository" [])]⟩)] }

/-- Other repositories are not reported. -/
theorem regenerated_unnoticed :
    bareLockfile.changes regenerated = .ok [] ∧
      ∃ id was now, bareLockfile.extensions.get? id = some was ∧
        regenerated.extensions.get? id = some now ∧ (was.specs == now.specs) = false := by
  have distinct : bareLockfile.depGraph.Distinct := DepGraph.exists_usagesById_iff.mp ⟨_, rfl⟩
  obtain ⟨changes, reported, exact⟩ :=
    @changes_eq_nil_iff bareLockfile regenerated distinct distinct
  have same : bareLockfile.SameRecord regenerated := by
    refine ⟨rfl, rfl, rfl, ?_, fun _ _ _ => BEq.rfl⟩
    intro id
    have only (entry : LockedExtension) :
        (SortedMap.ofList [(depsId, entry)]).get? id = if id = depsId then some entry else none :=
      SortedMap.get?_insert_eq .empty depsId id entry
    rw [show bareLockfile.extensions = .ofList [(depsId, ⟨⟨[]⟩, .empty⟩)] from rfl, regenerated,
      only, only]
    split <;> rfl
  refine ⟨?_, depsId, _, _, rfl, rfl, by decide⟩
  rw [reported, exact.mpr same]

end Lockfile

end ExtensionLock
