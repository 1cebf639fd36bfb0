import ExtensionLock.Extension.Evaluator
import ExtensionLock.Proofs.Transparency
import Mathlib.Data.Set.Basic

/-! What an extension says about the imports of the root module, compared with these imports. The
comparison looks for five kinds of mismatch. It finds none exactly if both sides say the same, which
holds only because no name is ever said to be a regular and a development dependency at once. -/

namespace ExtensionLock

namespace DirectDeps

variable {ν : Type} {generated : SortedMap String ν} {side other : DirectDeps} {name : String}

/-- The names that one side means, beside the other side. -/
def meant (generated : SortedMap String ν) (side other : DirectDeps) : Set String :=
  match side with
  | .unspecified => ∅
  | .names s => {name | name ∈ s.toList}
  | .all => {name | name ∈ generated.keys ∧
      ∀ claimed, other = .names claimed → name ∉ claimed.toList}

theorem mem_resolve : name ∈ (side.resolve generated other).toList ↔
    name ∈ side.meant generated other := by
  have listed : name ∈ SortedSet.toList (generated.mapValues (fun _ _ => ())) ↔
      name ∈ generated.keys := by rw [SortedSet.toList, SortedMap.keys_mapValues]
  cases side with
  | unspecified => exact iff_of_false List.not_mem_nil (fun h => h)
  | names s => exact Iff.rfl
  | all => cases other with
    | unspecified => exact listed.trans (and_iff_left (fun _ same => by cases same)).symm
    | all => exact listed.trans (and_iff_left (fun _ same => by cases same)).symm
    | names claimed =>
      rw [resolve, SortedSet.mem_toList_diff, listed]
      exact and_congr_right (fun _ => ⟨fun free _ same => (by cases same; exact free),
        fun free => free claimed rfl⟩)

theorem meant_disjoint (compatible : check side other = .ok ()) :
    ∀ name ∈ side.meant generated other, name ∉ other.meant generated side := by
  intro name here there
  cases side with
  | unspecified => cases here
  | names a => cases other with
    | unspecified => cases there
    | all => exact there.2 a rfl here
    | names b =>
      have common : name ∈ (SortedSet.inter a b).toList :=
        SortedSet.mem_toList_inter.mpr ⟨here, there⟩
      rw [check] at compatible
      split at compatible
      · rename_i nothing
        rw [nothing] at common
        cases common
      · cases compatible
  | all => cases other with
    | unspecified => cases there
    | all => cases compatible
    | names b => exact here.2 b rfl there

end DirectDeps

def Usage.exported (u : Usage) (dev : Bool) : Set String :=
  {name | ∃ apparent, u.imports.get? apparent = some name ∧ u.devImports.contains apparent = dev}

namespace Usage

variable {u : Usage} {name : String}

theorem mem_exportsWhere {keep : String → Bool} : name ∈ (u.exportsWhere keep).toList ↔
    ∃ apparent, u.imports.get? apparent = some name ∧ keep apparent = true := by
  rw [exportsWhere, SortedSet.mem_toList_ofList]
  simp only [List.mem_map, List.mem_filter, Prod.exists, exists_eq_right,
    SortedMap.get?_eq_some_iff]

theorem mem_regularExports : name ∈ u.regularExports.toList ↔ name ∈ u.exported false := by
  refine mem_exportsWhere.trans (exists_congr (fun apparent => and_congr_right (fun _ => ?_)))
  rw [Bool.not_eq_true']

theorem mem_devExports : name ∈ u.devExports.toList ↔ name ∈ u.exported true := mem_exportsWhere

end Usage

namespace Metadata

variable {ν : Type} {m : Metadata} {generated : SortedMap String ν}

theorem agree {said imported other : SortedSet String}
    (missing : ∀ name, ¬ (name ∈ said.toList ∧ name ∉ imported.toList))
    (crossed : ∀ name, ¬ (name ∈ imported.toList ∧ name ∈ other.toList))
    (indirect : ∀ name ∈ imported.toList, name ∈ said.toList ∨ name ∈ other.toList)
    (name : String) : name ∈ said.toList ↔ name ∈ imported.toList := by
  constructor
  · intro here
    by_contra nowhere
    exact missing name ⟨here, nowhere⟩
  · intro here
    exact (indirect name here).resolve_right (fun there => crossed name ⟨here, there⟩)

theorem mismatches_eq_nil_iff {direct dev imported importedDev : SortedSet String}
    (apart : ∀ name ∈ direct.toList, name ∉ dev.toList) :
    mismatches direct dev imported importedDev = [] ↔
      (∀ name, name ∈ direct.toList ↔ name ∈ imported.toList) ∧
      ∀ name, name ∈ dev.toList ↔ name ∈ importedDev.toList := by
  have nothing_found : mismatches direct dev imported importedDev = [] ↔
      (∀ name, ¬ (name ∈ direct.toList ∧ name ∉ imported.toList)) ∧
      (∀ name, ¬ (name ∈ dev.toList ∧ name ∉ importedDev.toList)) ∧
      (∀ name, ¬ (name ∈ imported.toList ∧ name ∈ dev.toList)) ∧
      (∀ name, ¬ (name ∈ importedDev.toList ∧ name ∈ direct.toList)) ∧
      ∀ name, ¬ ((name ∈ imported.toList ∨ name ∈ importedDev.toList) ∧
        ¬ (name ∈ direct.toList ∨ name ∈ dev.toList)) := by
    simp only [mismatches, List.filter_eq_nil_iff, List.forall_mem_cons, List.not_mem_nil,
      false_imp_iff, implies_true, and_true, Bool.not_eq_true', Bool.not_eq_false,
      SortedSet.isEmpty_iff, SortedSet.mem_toList_diff, SortedSet.mem_toList_inter,
      SortedSet.mem_toList_union]
  rw [nothing_found]
  constructor
  · rintro ⟨notImported, notImportedDev, regularSaidDev, devSaidRegular, saidIndirect⟩
    have said (name : String) (imports : name ∈ imported.toList ∨ name ∈ importedDev.toList) :
        name ∈ direct.toList ∨ name ∈ dev.toList := by
      by_contra unsaid
      exact saidIndirect name ⟨imports, unsaid⟩
    exact ⟨agree notImported regularSaidDev (fun name here => said name (.inl here)),
      agree notImportedDev devSaidRegular (fun name here => (said name (.inr here)).symm)⟩
  · rintro ⟨regular, development⟩
    simp only [← regular, ← development]
    exact ⟨fun _ both => both.2 both.1, fun _ both => both.2 both.1,
      fun name both => apart name both.1 both.2, fun name both => apart name both.2 both.1,
      fun _ both => both.2 both.1⟩

theorem ofSides_eq_ok {direct dev : DirectDeps} (accepted : ofSides direct dev = .ok m) :
    m.direct = direct ∧ m.dev = dev := by
  rw [ofSides] at accepted
  split at accepted
  · cases accepted
    exact ⟨rfl, rfl⟩
  · cases accepted

def said (generated : SortedMap String ν) (direct dev : DirectDeps) : Set String × Set String :=
  (direct.meant generated dev, dev.meant generated direct)

def imported (u : Usage) : Set String × Set String := (u.exported false, u.exported true)

def Unknown (generated : SortedMap String ν) (direct dev : DirectDeps) (name : String) : Prop :=
  (name ∈ (said generated direct dev).1 ∨ name ∈ (said generated direct dev).2) ∧
    name ∉ generated.keys

theorem mem_unknown {direct dev : DirectDeps} {name : String} :
    name ∈ ((direct.resolve generated dev).union (dev.resolve generated direct)).toList.filter
      (fun name => !generated.contains name) ↔ Unknown generated direct dev name := by
  rw [List.mem_filter, SortedSet.mem_toList_union, DirectDeps.mem_resolve, DirectDeps.mem_resolve,
    Bool.not_eq_true', ← Bool.not_eq_true, SortedMap.contains_iff]
  rfl

theorem assess_of_unknown (usages : ExtensionUsages) (specified : m.isSpecified = true)
    (unknown : ∃ name, Unknown generated m.direct m.dev name) :
    ∃ names, m.assess usages generated = .error names ∧
      ∀ name, name ∈ names ↔ Unknown generated m.direct m.dev name := by
  obtain ⟨name, member⟩ := unknown
  rw [← mem_unknown] at member
  refine ⟨_, ?_, fun name => mem_unknown⟩
  rw [assess, if_pos specified]
  dsimp only
  split
  · rename_i nothing
    rw [nothing] at member
    cases member
  · rfl

theorem assess_eq_of_known (usages : ExtensionUsages) (specified : m.isSpecified = true)
    (known : ¬ ∃ name, Unknown generated m.direct m.dev name) :
    m.assess usages generated = match usages.usage? ModuleKey.root with
      | none => .ok none
      | some u => match mismatches (m.direct.resolve generated m.dev)
          (m.dev.resolve generated m.direct) u.regularExports u.devExports with
        | [] => .ok none
        | found => .ok (some (warning usages.extensionId u.location found)) := by
  have nothing := List.eq_nil_iff_forall_not_mem.mpr (fun name member =>
    known ⟨name, mem_unknown.mp member⟩)
  rw [assess, if_pos specified]
  dsimp only
  split
  · rfl
  · rename_i some
    exact absurd nothing some

theorem mismatches_eq_nil_iff_said (generated : SortedMap String ν) (m : Metadata) (u : Usage) :
    mismatches (m.direct.resolve generated m.dev) (m.dev.resolve generated m.direct)
      u.regularExports u.devExports = [] ↔ said generated m.direct m.dev = imported u := by
  have apart : ∀ name ∈ m.direct.meant generated m.dev, name ∉ m.dev.meant generated m.direct :=
    DirectDeps.meant_disjoint m.compatible
  rw [mismatches_eq_nil_iff (fun name here there =>
    apart name (DirectDeps.mem_resolve.mp here) (DirectDeps.mem_resolve.mp there))]
  simp only [DirectDeps.mem_resolve, Usage.mem_regularExports, Usage.mem_devExports, said, imported,
    Prod.mk.injEq, Set.ext_iff]

theorem assess_of_known (usages : ExtensionUsages) (specified : m.isSpecified = true)
    (known : ¬ ∃ name, Unknown generated m.direct m.dev name) :
    ∃ found, m.assess usages generated = .ok found ∧
      (usages.usage? ModuleKey.root = none → found = none) ∧
      ∀ u, usages.usage? ModuleKey.root = some u →
        (said generated m.direct m.dev = imported u ∧ found = none) ∨
        (said generated m.direct m.dev ≠ imported u ∧ ∃ d, found = some d ∧
          d.severity = .warning ∧ d.location = some u.location) := by
  have assessed := assess_eq_of_known usages specified known
  cases used : usages.usage? ModuleKey.root with
  | none =>
    rw [used] at assessed
    exact ⟨none, assessed, fun _ => rfl, fun u h => (by cases h)⟩
  | some u =>
    have agreed := mismatches_eq_nil_iff_said generated m u
    simp only [used] at assessed
    cases found : mismatches (m.direct.resolve generated m.dev)
        (m.dev.resolve generated m.direct) u.regularExports u.devExports with
    | nil =>
      rw [found] at assessed
      refine ⟨none, assessed, fun _ => rfl, fun u' h => ?_⟩
      cases h
      exact .inl ⟨agreed.mp found, rfl⟩
    | cons first others =>
      rw [found] at assessed agreed
      refine ⟨_, assessed, fun h => (by cases h), fun u' h => ?_⟩
      cases h
      exact .inr ⟨fun same => (by cases agreed.mpr same), _, rfl, rfl, rfl⟩

end Metadata

namespace Evaluator

open Metadata

theorem settle_metadata (c : Context) (usages : ExtensionUsages) (location : Location)
    (generated : RepoSpecs) (m : Metadata) (w : World) :
    (settle c usages location generated (.ok (.metadata m))).run w =
      match m.assess usages generated with
      | .error unknown => (.error (.failed (.invalidMetadata usages.extensionId unknown)), w)
      | .ok none => (.ok generated, w)
      | .ok (some d) => (.ok generated, w.report d) := by
  rw [settle]
  cases m.assess usages generated with
  | error unknown => rfl
  | ok found => cases found <;> rfl

/-- What becomes of the repositories of a call that returns metadata with two given sides. -/
structure Compared (direct dev : DirectDeps) (usages : ExtensionUsages) (generated : RepoSpecs)
    (w : World) (ended : Except Halt RepoSpecs × World) : Prop where
  refused : (∃ unknown, ended.1 = .error (.failed (.invalidMetadata usages.extensionId unknown))) ↔
    ∃ name, Unknown generated direct dev name
  unknown : ∀ unknown,
    ended.1 = .error (.failed (.invalidMetadata usages.extensionId unknown)) →
      ended.2 = w ∧ ∀ name, name ∈ unknown ↔ Unknown generated direct dev name
  unused : (¬ ∃ name, Unknown generated direct dev name) →
    usages.usage? ModuleKey.root = none → ended = (.ok generated, w)
  used : (¬ ∃ name, Unknown generated direct dev name) →
    ∀ u, usages.usage? ModuleKey.root = some u →
      (said generated direct dev = imported u ∧ ended = (.ok generated, w)) ∨
      (said generated direct dev ≠ imported u ∧ ∃ d, d.severity = .warning ∧
        d.location = some u.location ∧
        ended = (.ok generated, { w with diagnostics := w.diagnostics ++ [d] }))

/-- Metadata fails exactly if it names a repository that was not generated. Otherwise there is one
warning if the root module uses the extension and does not import just what is said, and none if it
does or if it does not use the extension. (Where one side is given, so is the other.) -/
theorem warned_of_mismatch {direct dev : DirectDeps} {m : Metadata}
    (accepted : ofSides direct dev = .ok m) (given : direct ≠ .unspecified) (c : Context)
    (usages : ExtensionUsages) (location : Location) (generated : RepoSpecs) (w : World) :
    Compared direct dev usages generated w
      ((settle c usages location generated (.ok (.metadata m))).run w) := by
  obtain ⟨rfl, rfl⟩ := ofSides_eq_ok accepted
  have specified : m.isSpecified = true := bne_iff_ne.mpr given
  rw [settle_metadata]
  by_cases unknown : ∃ name, Unknown generated m.direct m.dev name
  · obtain ⟨names, assessed, listed⟩ := assess_of_unknown usages specified unknown
    rw [assessed]
    refine ⟨iff_of_true ⟨names, rfl⟩ unknown, fun _ same => ?_, fun known => absurd unknown known,
      fun known => absurd unknown known⟩
    cases same
    exact ⟨rfl, listed⟩
  · obtain ⟨found, assessed, unused, used⟩ := assess_of_known usages specified unknown
    rw [assessed]
    cases found with
    | none =>
      refine ⟨iff_of_false (fun ⟨_, h⟩ => (by cases h)) unknown, fun _ h => (by cases h),
        fun _ _ => rfl, fun _ u here => .inl ?_⟩
      rcases used u here with ⟨same, -⟩ | ⟨-, d, due, -⟩
      · exact ⟨same, rfl⟩
      · cases due
    | some d =>
      refine ⟨iff_of_false (fun ⟨_, h⟩ => (by cases h)) unknown, fun _ h => (by cases h),
        fun _ nowhere => (by cases unused nowhere), fun _ u here => .inr ?_⟩
      rcases used u here with ⟨-, nothing⟩ | ⟨other, d', due, severity, location⟩
      · cases nothing
      · cases due
        exact ⟨other, d, severity, location, rfl⟩

section ImportedForBoth

def usageForBoth : Usage :=
  ((Usage.bare depsId ⟨"MODULE.bazel", 1, 1⟩).withImport "a" "a").withDevImport "a_dev" "a"

def usagesForBoth : ExtensionUsages :=
  ⟨depsId, "_main~deps", .ofList [(ModuleKey.root, usageForBoth)], [], .empty⟩

def generatedForBoth : RepoSpecs :=
  .ofList [("a", .native "local_repository" []), ("b", .native "local_repository" [])]

def idleContext : Context where
  id := depsId
  modules := []
  directory := ⟨⟨"out/modextwd/_main~deps"⟩⟩
  capabilities := ⟨.empty, .offline, .nan⟩
  engine := ⟨fun _ _ => .notReady, fun _ _ => .ok .notReady, fun _ => .notReady,
    fun _ _ => .ok .notReady⟩

/-- A repository that is imported for both purposes never agrees with metadata, which may name it on
one side only. -/
theorem import_for_both_warned : ∃ (m : Metadata) (d : Diagnostic),
    ofSides (.names (.ofList ["a"])) .all = .ok m ∧
    said generatedForBoth (.names (.ofList ["a"])) .all ≠ imported usageForBoth ∧
    d.severity = .warning ∧
    (settle idleContext usagesForBoth ⟨"MODULE.bazel", 1, 1⟩ generatedForBoth
      (.ok (.metadata m))).run (.ofFiles .empty) =
        (.ok generatedForBoth, { World.ofFiles .empty with diagnostics := [d] }) := by
  have compared := @warned_of_mismatch (.names (.ofList ["a"])) .all _ rfl (by decide) idleContext
    usagesForBoth ⟨"MODULE.bazel", 1, 1⟩ generatedForBoth (.ofFiles .empty)
  have known := compared.refused.not.mp (fun ⟨_, failed⟩ => (by cases failed))
  rcases compared.used known usageForBoth rfl with ⟨-, quiet⟩ | ⟨other, d, severity, -, ended⟩
  · cases congrArg (fun r : Except Halt RepoSpecs × World => r.2.diagnostics.length) quiet
  · exact ⟨_, d, rfl, other, severity, ended⟩

end ImportedForBoth

end Evaluator

end ExtensionLock
