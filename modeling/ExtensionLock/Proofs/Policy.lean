import ExtensionLock.Policy
import ExtensionLock.Proofs.Usages

/-! When a locked result is used again. The decision looks at the digest and at the usages that the
lockfile records in its own graph, and at nothing else. -/

namespace ExtensionLock

theorem Lockfile.usagesById_eq_ok {l : Lockfile} {z : UsagesById} :
    l.usagesById = .ok z ↔ l.depGraph.usagesById = .ok z := by
  rw [usagesById]
  cases l.depGraph.usagesById with
  | error e => exact ⟨fun h => (by cases h), fun h => (by cases h)⟩
  | ok y => exact ⟨fun h => (by cases h; rfl), fun h => (by cases h; rfl)⟩

theorem get?_of_getD_beq {z : UsagesById} {id : ExtensionId} {usages : ModuleUsages}
    (agree : (z.getD id .empty == usages) = true) {key : ModuleKey} {w : Usage}
    (inhabited : usages.get? key = some w) : z.get? id = some (z.getD id .empty) := by
  cases found : z.get? id with
  | some us => rw [SortedMap.getD_of_get? found]
  | none =>
    have nothing : z.getD id .empty = .empty := by rw [SortedMap.getD, found]; rfl
    have h := SortedMap.get?_beq agree key
    rw [nothing, inhabited] at h
    cases h

/-- The lockfile has an entry for an extension that was made by these scripts for these usages. -/
structure Lockfile.Answers (l : Lockfile) (id : ExtensionId) (digest : Digest)
    (usages : ModuleUsages) (locked : LockedExtension) : Prop where
  entry : l.extensions.get? id = some locked
  digest : locked.digest = digest
  usages : ∃ x, l.usagesById = .ok x ∧ (x.getD id .empty == usages) = true

theorem Lockfile.Answers.of_beq {l m : Lockfile} {id : ExtensionId} {digest : Digest}
    {usages : ModuleUsages} {entry : LockedExtension} (answers : m.Answers id digest usages entry)
    (same : (l == m) = true) : ∃ entry', l.Answers id digest usages entry' := by
  obtain ⟨-, -, -, -, graphs, extensions⟩ := Lockfile.beq_iff.mp same
  obtain ⟨x, grouped, agree⟩ := answers.usages
  have entries := SortedMap.get?_beq extensions id
  have groupings := DepGraph.usagesById_beq (PartialEquivBEq.symm graphs)
  rw [usagesById_eq_ok.mp grouped] at groupings
  obtain ⟨z, grouped', agree'⟩ := ok_beq_iff.mp groupings
  have usages' : (z.getD id .empty == x.getD id .empty) = true :=
    SortedMap.getD_beq (PartialEquivBEq.symm agree') BEq.rfl id
  rw [answers.entry] at entries
  cases locked : l.extensions.get? id with
  | none => rw [locked] at entries; cases entries
  | some entry' =>
    rw [locked, Option.some_beq_some] at entries
    exact ⟨entry', locked, (LockedExtension.beq_iff.mp entries).1.trans answers.digest, z,
      usagesById_eq_ok.mpr grouped', PartialEquivBEq.trans usages' agree⟩

theorem LockedExtension.matches?_iff {entry : LockedExtension} {locked usages : ModuleUsages}
    {digest : Digest} : entry.matches? locked digest usages = true ↔
      entry.digest = digest ∧ (locked == usages) = true := by
  rw [matches?, Bool.and_eq_true, beq_iff_eq]

namespace LockfileMode

def withoutEntry (mode : LockfileMode) (changes : List ExtensionChange) :
    Except PolicyError CacheDecision :=
  if mode = .error then .error (.stale changes) else .ok (.evaluate true)

variable {mode : LockfileMode} {id : ExtensionId} {digest : Digest} {usages : ModuleUsages}
  {l : Lockfile} {x : UsagesById}

theorem decide_off (l : Option Lockfile) :
    LockfileMode.off.decide id digest usages l = .ok (.evaluate false) := rfl

theorem decide_of_error {e : LockfileError} (on : mode ≠ .off) (broken : l.usagesById = .error e) :
    mode.decide id digest usages (some l) = .error (.lockfile e) := by
  have failed : l.recorded id = .error e := by rw [Lockfile.recorded, broken]; rfl
  simp only [decide, if_neg on, failed]
  rfl

variable (id digest usages) in
theorem decide_of_usages (on : mode ≠ .off) (grouped : l.usagesById = .ok x) :
    mode.decide id digest usages (some l) =
      let changes := extensionChanges (l.extensions.get? id) (x.getD id .empty) digest usages
      match l.extensions.get? id with
      | some entry =>
        if entry.matches? (x.getD id .empty) digest usages then .ok (.reuse entry)
        else mode.withoutEntry changes
      | none => mode.withoutEntry changes := by
  have found : l.recorded id = .ok (l.extensions.get? id, x.getD id .empty) := by
    rw [Lockfile.recorded, grouped]; rfl
  simp only [decide, if_neg on, found]
  rfl

theorem withoutEntry_ne_reuse {changes : List ExtensionChange} {entry : LockedExtension} :
    mode.withoutEntry changes ≠ .ok (.reuse entry) := by
  intro h
  simp only [withoutEntry] at h
  split at h <;> cases h

theorem withoutEntry_eq_evaluate {changes : List ExtensionChange} {record : Bool}
    (h : mode.withoutEntry changes = .ok (.evaluate record)) : mode ≠ .error ∧ record = true := by
  simp only [withoutEntry] at h
  split at h
  · cases h
  · rename_i other
    cases h
    exact ⟨other, rfl⟩

theorem decide_eq_reuse_iff {entry : LockedExtension} :
    mode.decide id digest usages (some l) = .ok (.reuse entry) ↔
      mode ≠ .off ∧ l.Answers id digest usages entry := by
  constructor
  · intro h
    have on : mode ≠ .off := by
      rintro rfl
      rw [decide_off] at h
      cases h
    cases grouped : l.usagesById with
    | error e =>
      rw [decide_of_error on grouped] at h
      cases h
    | ok x =>
      rw [decide_of_usages id digest usages on grouped] at h
      split at h
      · rename_i locked found
        split at h
        · rename_i fits
          cases h
          obtain ⟨same, agree⟩ := LockedExtension.matches?_iff.mp fits
          exact ⟨on, found, same, x, grouped, agree⟩
        · exact absurd h withoutEntry_ne_reuse
      · exact absurd h withoutEntry_ne_reuse
  · rintro ⟨on, found, same, x, grouped, agree⟩
    rw [decide_of_usages id digest usages on grouped, found]
    exact if_pos (LockedExtension.matches?_iff.mpr ⟨same, agree⟩)

theorem decide_eq_evaluate {record : Bool} (on : mode ≠ .off)
    (h : mode.decide id digest usages (some l) = .ok (.evaluate record)) :
    mode = .update ∧ record = true ∧ ∀ entry, ¬ l.Answers id digest usages entry := by
  have none_answers : ∀ entry, ¬ l.Answers id digest usages entry := by
    intro entry answers
    rw [decide_eq_reuse_iff.mpr ⟨on, answers⟩] at h
    cases h
  cases grouped : l.usagesById with
  | error e =>
    rw [decide_of_error on grouped] at h
    cases h
  | ok x =>
    rw [decide_of_usages id digest usages on grouped] at h
    have outcome : mode.withoutEntry (extensionChanges (l.extensions.get? id) (x.getD id .empty)
        digest usages) = .ok (.evaluate record) := by
      split at h
      · split at h
        · cases h
        · exact h
      · exact h
    obtain ⟨strict, recorded⟩ := withoutEntry_eq_evaluate outcome
    refine ⟨?_, recorded, none_answers⟩
    cases mode with
    | update => rfl
    | error => exact absurd rfl strict
    | off => exact absurd rfl on

end LockfileMode
end ExtensionLock
