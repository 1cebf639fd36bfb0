import ExtensionLock.Proofs.Changes

/-! The decision about a locked result and its explanation. The decision compares the usages as a
whole, the explanation walks through their fields. They agree on every lockfile that can be grouped:
a result is used again where nothing can be reported, and is never refused without a reason. -/

namespace ExtensionLock

def Tag.Differs (was now : Tag) : Prop :=
  was.tagName ≠ now.tagName ∨ (was.attributes == now.attributes) = false ∨
    was.devDependency ≠ now.devDependency ∨ was.location ≠ now.location

theorem Tag.differs_iff {was now : Tag} : was.Differs now ↔ (was == now) = false := by
  rw [← Bool.not_eq_true, beq_iff, Differs, ← Bool.not_eq_true]
  tauto

def TagsDiffer (was now : List Tag) : Prop :=
  was.length ≠ now.length ∨
    ∃ (i : Nat) (s t : Tag), was[i]? = some s ∧ now[i]? = some t ∧ s.Differs t

theorem tagsDiffer_iff {was now : List Tag} : TagsDiffer was now ↔ (was == now) = false := by
  induction was generalizing now with
  | nil => cases now with
    | nil => simp [TagsDiffer]
    | cons t now => simp [TagsDiffer]
  | cons s was ih => cases now with
    | nil => simp [TagsDiffer]
    | cons t now =>
      rw [List.cons_beq_cons, Bool.and_eq_false_iff, ← ih, ← Tag.differs_iff, TagsDiffer,
        TagsDiffer, List.length_cons, List.length_cons, Ne, Nat.succ_inj]
      constructor
      · rintro (other | ⟨i, a, b, here, there, differ⟩)
        · exact Or.inr (Or.inl other)
        · cases i with
          | zero =>
            cases here
            cases there
            exact Or.inl differ
          | succ i => exact Or.inr (Or.inr ⟨i, a, b, here, there, differ⟩)
      · rintro (differ | other | ⟨i, a, b, here, there, differ⟩)
        · exact Or.inr ⟨0, s, t, rfl, rfl, differ⟩
        · exact Or.inl other
        · exact Or.inr ⟨i + 1, a, b, here, there, differ⟩

def Usage.Differs (was now : Usage) : Prop :=
  was.extensionId ≠ now.extensionId ∨ was.location ≠ now.location ∨ was.imports ≠ now.imports ∨
    was.devImports ≠ now.devImports ∨ TagsDiffer was.tags now.tags

theorem Usage.differs_iff {was now : Usage} : was.Differs now ↔ (was == now) = false := by
  rw [← Bool.not_eq_true, beq_iff, Differs, tagsDiffer_iff, ← Bool.not_eq_true]
  tauto

/-- The lockfile has an entry for an extension, with this digest, and its own graph shows for every
module the usage given here or none where none is given. -/
structure Lockfile.Matches (l : Lockfile) (id : ExtensionId) (digest : Digest)
    (usages : ModuleUsages) (locked : LockedExtension) : Prop where
  entry : l.extensions.get? id = some locked
  digest : locked.digest = digest
  usages : ∀ key, (l.depGraph.usage? id key == usages.get? key) = true

theorem Lockfile.matches_iff_answers {l : Lockfile} {id : ExtensionId} {digest : Digest}
    {usages : ModuleUsages} {locked : LockedExtension} (distinct : l.depGraph.Distinct) :
    l.Matches id digest usages locked ↔ l.Answers id digest usages locked := by
  obtain ⟨x, grouped⟩ := DepGraph.exists_usagesById_iff.mpr distinct
  have shown : (∀ key, (l.depGraph.usage? id key == usages.get? key) = true) ↔
      (x.getD id .empty == usages) = true := by
    rw [SortedMap.beq_iff_get?]
    simp only [DepGraph.getD_get?_eq_usage? grouped]
  constructor
  · rintro ⟨entry, same, agree⟩
    exact ⟨entry, same, x, usagesById_eq_ok.mpr grouped, shown.mp agree⟩
  · rintro ⟨entry, same, y, grouped', agree⟩
    cases (usagesById_eq_ok.mpr grouped).symm.trans grouped'
    exact ⟨entry, same, shown.mpr agree⟩

def MatchedBy (lockfile : Option Lockfile) (id : ExtensionId) (digest : Digest)
    (usages : ModuleUsages) (locked : LockedExtension) : Prop :=
  ∃ l, lockfile = some l ∧ l.Matches id digest usages locked

/-- What is locked about an extension: its entry, and what the locked graph shows of each module. -/
structure Recorded (lockfile : Option Lockfile) (id : ExtensionId)
    (entry : Option LockedExtension) (lockedUsages : ModuleUsages) : Prop where
  entry : entry = lockfile.bind (fun l => l.extensions.get? id)
  usages : ∀ key, lockedUsages.get? key = lockfile.bind (fun l => l.depGraph.usage? id key)

section

variable {lockfile : Option Lockfile} {id : ExtensionId} {digest : Digest} {usages : ModuleUsages}
  {entry : Option LockedExtension} {lockedUsages : ModuleUsages}

theorem exists_recorded (distinct : ∀ l, lockfile = some l → l.depGraph.Distinct)
    (id : ExtensionId) : ∃ entry lockedUsages, Recorded lockfile id entry lockedUsages := by
  cases lockfile with
  | none => exact ⟨none, .empty, rfl, fun _ => rfl⟩
  | some l =>
    obtain ⟨x, grouped⟩ := DepGraph.exists_usagesById_iff.mpr (distinct l rfl)
    exact ⟨_, x.getD id .empty, rfl, DepGraph.getD_get?_eq_usage? grouped id⟩

theorem Recorded.nothing_changed_iff (recorded : Recorded lockfile id entry lockedUsages) :
    extensionChanges entry lockedUsages digest usages = [] ↔
      ∃ locked, MatchedBy lockfile id digest usages locked := by
  rw [extensionChanges_eq_nil, SortedMap.beq_iff_get?, recorded.entry]
  simp only [recorded.usages]
  constructor
  · rintro ⟨⟨locked, found, same⟩, agree⟩
    obtain ⟨l, rfl, found⟩ := Option.bind_eq_some_iff.mp found
    exact ⟨locked, l, rfl, found, same, agree⟩
  · rintro ⟨locked, l, rfl, found, same, agree⟩
    exact ⟨⟨locked, found, same⟩, agree⟩

theorem MatchedBy.not_changed {locked : LockedExtension}
    (matched : MatchedBy lockfile id digest usages locked) {key : ModuleKey} {was now : Usage}
    (used : usages.get? key = some was) (differ : was.Differs now) :
    ¬ ∃ other, MatchedBy lockfile id digest (usages.insert key now) other := by
  rintro ⟨other, l, here, -, -, after⟩
  obtain ⟨l', there, -, -, before⟩ := matched
  cases here.symm.trans there
  have old := before key
  have new := after key
  rw [used] at old
  rw [SortedMap.get?_insert_eq, if_pos rfl] at new
  cases declared : l.depGraph.usage? id key with
  | none =>
    rw [declared] at old
    cases old
  | some u =>
    rw [declared, Option.some_beq_some] at old new
    have same : (was == now) = true := PartialEquivBEq.trans (PartialEquivBEq.symm old) new
    rw [Usage.differs_iff.mp differ] at same
    cases same

end

def bareUsage : Usage := .bare depsId ⟨"MODULE.bazel", 1, 1⟩

namespace LockfileMode

variable {mode : LockfileMode} {lockfile : Option Lockfile} {id : ExtensionId} {digest : Digest}
  {usages : ModuleUsages} {entry : Option LockedExtension} {lockedUsages : ModuleUsages}

theorem decide_of_matchedBy {locked : LockedExtension} (on : mode ≠ .off)
    (distinct : ∀ l, lockfile = some l → l.depGraph.Distinct)
    (matched : MatchedBy lockfile id digest usages locked) :
    mode.decide id digest usages lockfile = .ok (.reuse locked) := by
  obtain ⟨l, rfl, same⟩ := matched
  exact decide_eq_reuse_iff.mpr ⟨on, (Lockfile.matches_iff_answers (distinct l rfl)).mp same⟩

theorem decide_of_unmatched (on : mode ≠ .off)
    (distinct : ∀ l, lockfile = some l → l.depGraph.Distinct)
    (recorded : Recorded lockfile id entry lockedUsages)
    (unmatched : ¬ ∃ locked, MatchedBy lockfile id digest usages locked) :
    mode.decide id digest usages lockfile =
      mode.withoutEntry (extensionChanges entry lockedUsages digest usages) := by
  obtain ⟨rfl, shown⟩ := recorded
  cases lockfile with
  | none =>
    have nothing : lockedUsages = .empty := SortedMap.ext_get? shown
    simp only [decide, if_neg on, nothing]
    rfl
  | some l =>
    obtain ⟨x, grouped⟩ := DepGraph.exists_usagesById_iff.mpr (distinct l rfl)
    have same : lockedUsages = x.getD id .empty := SortedMap.ext_get? (fun key =>
      (shown key).trans (DepGraph.getD_get?_eq_usage? grouped id key).symm)
    rw [decide_of_usages id digest usages on (Lockfile.usagesById_eq_ok.mpr grouped), same]
    cases found : l.extensions.get? id with
    | none =>
      simp only [Option.bind_some, found]
    | some locked =>
      have stale : ¬ locked.matches? (x.getD id .empty) digest usages = true := by
        intro fits
        obtain ⟨made, agree⟩ := LockedExtension.matches?_iff.mp fits
        exact unmatched ⟨locked, l, rfl, (Lockfile.matches_iff_answers (distinct l rfl)).mpr
          ⟨found, made, x, Lockfile.usagesById_eq_ok.mpr grouped, agree⟩⟩
      simp only [Option.bind_some, found, if_neg stale]

/-- Outside the off mode a result is used again exactly if the lockfile has a matching entry.
Otherwise the extension is run, or refused with an explanation that is not empty. No entry still
matches after the usage of one module is changed in one field. -/
theorem decision_explained (distinct : ∀ l, lockfile = some l → l.depGraph.Distinct) :
    ∃ entry lockedUsages, Recorded lockfile id entry lockedUsages ∧
      (∀ locked, MatchedBy lockfile id digest usages locked →
        update.decide id digest usages lockfile = .ok (.reuse locked) ∧
        error.decide id digest usages lockfile = .ok (.reuse locked)) ∧
      ((¬ ∃ locked, MatchedBy lockfile id digest usages locked) →
        update.decide id digest usages lockfile = .ok (.evaluate true) ∧
        error.decide id digest usages lockfile =
          .error (.stale (extensionChanges entry lockedUsages digest usages)) ∧
        extensionChanges entry lockedUsages digest usages ≠ []) ∧
      (extensionChanges entry lockedUsages digest usages = [] ↔
        ∃ locked, MatchedBy lockfile id digest usages locked) ∧
      ∀ key was now, usages.get? key = some was → was.Differs now →
        (∃ locked, MatchedBy lockfile id digest usages locked) →
        ¬ ∃ locked, MatchedBy lockfile id digest (usages.insert key now) locked := by
  obtain ⟨entry, lockedUsages, recorded⟩ := exists_recorded distinct id
  have exact : extensionChanges entry lockedUsages digest usages = [] ↔
      ∃ locked, MatchedBy lockfile id digest usages locked := recorded.nothing_changed_iff
  refine ⟨entry, lockedUsages, recorded, ?matched, ?unmatched, exact, ?changed⟩
  case matched =>
    intro locked matched
    constructor
    · exact decide_of_matchedBy (fun h => (by cases h)) distinct matched
    · exact decide_of_matchedBy (fun h => (by cases h)) distinct matched
  case unmatched =>
    intro unmatched
    refine ⟨?_, ?_, mt exact.mp unmatched⟩
    · exact decide_of_unmatched (fun h => (by cases h)) distinct recorded unmatched
    · exact decide_of_unmatched (fun h => (by cases h)) distinct recorded unmatched
  case changed =>
    rintro key was now used differ ⟨locked, matched⟩
    exact matched.not_changed used differ

/-- The bare usage of an extension is served from the lockfile; the same usage with an import is
not, and there is something to say about it. -/
theorem decision_explained_deps :
    ∃ changes, changes ≠ [] ∧
      error.decide depsId ⟨[]⟩ (.ofList [(.root, bareUsage)]) (some bareLockfile) =
        .ok (.reuse ⟨⟨[]⟩, .empty⟩) ∧
      error.decide depsId ⟨[]⟩ (.ofList [(.root, bareUsage.withImport "c" "c")])
        (some bareLockfile) = .error (.stale changes) := by
  have distinct : ∀ l, some bareLockfile = some l → l.depGraph.Distinct := by
    intro l here
    cases here
    exact DepGraph.exists_usagesById_iff.mp ⟨_, rfl⟩
  have matched : MatchedBy (some bareLockfile) depsId ⟨[]⟩ (.ofList [(.root, bareUsage)])
      ⟨⟨[]⟩, .empty⟩ :=
    ⟨bareLockfile, rfl, (Lockfile.matches_iff_answers (distinct _ rfl)).mpr
      ⟨rfl, rfl, _, rfl, by decide⟩⟩
  obtain ⟨entry, lockedUsages, -, served, -, -, changed⟩ := @decision_explained
    (some bareLockfile) depsId ⟨[]⟩ (.ofList [(.root, bareUsage)]) distinct
  obtain ⟨entry', lockedUsages', -, -, refused, -, -⟩ := @decision_explained
    (some bareLockfile) depsId ⟨[]⟩ (.ofList [(.root, bareUsage.withImport "c" "c")]) distinct
  have differ : bareUsage.Differs (bareUsage.withImport "c" "c") :=
    Or.inr (Or.inr (Or.inl (by decide)))
  obtain ⟨-, stale, told⟩ := refused (changed .root _ _ rfl differ ⟨_, matched⟩)
  exact ⟨_, told, (served _ matched).2, stale⟩

end LockfileMode

end ExtensionLock
