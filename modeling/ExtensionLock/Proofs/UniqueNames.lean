import ExtensionLock.Extension.Value
import ExtensionLock.Proofs.Names
import ExtensionLock.Proofs.UsageIndex
import Mathlib.Data.List.Perm.Subperm

/-! The names that extensions get. Each extension gets the first of its candidates that no extension
before it has, so no two share a name, and which name one gets is settled by itself and those before
it. The name of an extension and that of a repository can both be told from a canonical name. -/

namespace ExtensionLock

namespace ExtensionId

def candidate (base : String) : Nat → String
  | 0 => base
  | n + 1 => base ++ toString (n + 2)

/-- A name is the first of the candidates that is not taken. -/
def FirstFree (taken : String → Prop) (base name : String) : Prop :=
  ∃ n, name = candidate base n ∧ ¬ taken (candidate base n) ∧ ∀ m < n, taken (candidate base m)

theorem candidate_injective (base : String) : Function.Injective (candidate base) := by
  have numbered (n : Nat) : candidate base (n + 1) ≠ base := by
    intro same
    have lengths := congrArg String.length same
    have digits : 0 < (Nat.repr (n + 2)).length := by
      rw [← String.length_toList, Nat.toList_repr]
      exact List.length_pos_iff.mpr Nat.toDigits_ne_nil
    change (base ++ Nat.repr (n + 2)).length = base.length at lengths
    rw [String.length_append] at lengths
    omega
  intro m n same
  cases m with
  | zero =>
    cases n with
    | zero => rfl
    | succ n => exact absurd same.symm (numbered n)
  | succ m =>
    cases n with
    | zero => exact absurd same (numbered m)
    | succ n =>
      have chars := congrArg String.toList same
      simp only [candidate, String.toList_append] at chars
      have digits := congrArg (fun ds => Nat.ofDigitChars 10 ds 0) (List.append_cancel_left chars)
      simpa only [Nat.toString_eq_repr, Nat.toList_repr, Nat.ofDigitChars_ten_toDigits,
        Nat.add_right_cancel_iff] using digits

variable {taken : List String} {base : String}

theorem length_of_candidates {n : Nat} (all : ∀ m < n, candidate base m ∈ taken) :
    n ≤ taken.length := by
  have once : ((List.range n).map (candidate base)).Nodup :=
    List.nodup_range.map (candidate_injective base)
  have inside : (List.range n).map (candidate base) ⊆ taken := by
    intro name member
    obtain ⟨m, small, rfl⟩ := List.mem_map.mp member
    exact all m (List.mem_range.mp small)
  simpa using (once.subperm inside).length_le

theorem freeName_firstFree {fuel n : Nat} (tried : ∀ m < n + 1, candidate base m ∈ taken)
    (enough : taken.length ≤ fuel + n) :
    FirstFree (· ∈ taken) base (freeName taken base fuel (n + 2)) := by
  induction fuel generalizing n with
  | zero =>
    have := length_of_candidates tried
    omega
  | succ fuel ih =>
    rw [freeName]
    split
    · rename_i again
      refine ih (fun m small => ?_) (by omega)
      rcases Nat.lt_succ_iff_lt_or_eq.mp small with earlier | rfl
      · exact tried m earlier
      · exact List.contains_iff_mem.mp again
    · rename_i free
      exact ⟨n + 1, rfl, fun member => free (List.contains_iff_mem.mpr member), tried⟩

theorem pickName_firstFree (taken : List String) (base : String) :
    FirstFree (· ∈ taken) base (pickName taken base) := by
  rw [pickName]
  split
  · rename_i used
    refine freeName_firstFree (n := 0) (fun m small => ?_) (Nat.le_refl _)
    rw [Nat.lt_one_iff.mp small]
    exact List.contains_iff_mem.mp used
  · rename_i free
    exact ⟨0, rfl, fun member => free (List.contains_iff_mem.mpr member),
      fun m small => absurd small (Nat.not_lt_zero m)⟩

theorem FirstFree.congr {taken taken' : String → Prop} (same : ∀ name, taken name ↔ taken' name)
    {name : String} (first : FirstFree taken base name) : FirstFree taken' base name := by
  obtain ⟨n, here, free, tried⟩ := first
  exact ⟨n, here, fun member => free ((same _).mpr member),
    fun m small => (same _).mp (tried m small)⟩

theorem assignNames_append (taken : List String) (first rest : List ExtensionId) :
    assignNames taken (first ++ rest) = assignNames taken first ++
      assignNames (((assignNames taken first).map Prod.snd).reverse ++ taken) rest := by
  induction first generalizing taken with
  | nil => rfl
  | cons id first ih =>
    simp only [List.cons_append, assignNames, ih, List.map_cons, List.reverse_cons,
      List.append_assoc, List.nil_append]

theorem entries_uniqueNames (ids : List ExtensionId) :
    (uniqueNames ids).entries = assignNames [] (SortedSet.ofList ids).toList := by
  have sorted : (assignNames [] (SortedSet.ofList ids).toList).Pairwise
      (fun a b => compare a.1 b.1 = .lt) := by
    have keys := SortedSet.toList_sorted (SortedSet.ofList ids)
    rw [← assignNames_ids [] (SortedSet.ofList ids).toList] at keys
    exact List.pairwise_map.mp keys
  exact congrArg SortedMap.entries (SortedMap.ofList_entries ⟨_, sorted⟩)

theorem compare_self_ne_lt {id : ExtensionId} : compare id id ≠ .lt := by
  have equal : compare id id = .eq := Std.ReflCmp.compare_self
  rw [equal]
  decide

def before (ids : List ExtensionId) (id : ExtensionId) : List ExtensionId :=
  (SortedSet.ofList (ids.filter (fun id' => compare id' id = .lt))).toList

theorem mem_before {ids : List ExtensionId} {id id' : ExtensionId} :
    id' ∈ before ids id ↔ id' ∈ ids ∧ compare id' id = .lt := by
  rw [before, SortedSet.mem_toList_ofList, List.mem_filter, decide_eq_true_eq]

variable {ids : List ExtensionId} {id : ExtensionId}

theorem toList_split (member : id ∈ ids) : ∃ after,
    (SortedSet.ofList ids).toList = before ids id ++ id :: after ∧
      ∀ id' ∈ after, compare id id' = .lt := by
  obtain ⟨first, after, split⟩ :=
    List.append_of_mem (SortedSet.mem_toList_ofList.mpr member)
  have sorted := SortedSet.toList_sorted (SortedSet.ofList ids)
  have shown (id' : ExtensionId) : id' ∈ ids ↔ id' ∈ first ∨ id' = id ∨ id' ∈ after := by
    rw [← SortedSet.mem_toList_ofList, split, List.mem_append, List.mem_cons]
  rw [split, List.pairwise_append] at sorted
  obtain ⟨ordered, rest, across⟩ := sorted
  obtain ⟨above, -⟩ := List.pairwise_cons.mp rest
  have same : first = before ids id := by
    refine SortedSet.eq_toList_ofList ordered (fun id' => ?_)
    rw [List.mem_filter, decide_eq_true_eq, shown]
    constructor
    · exact fun here => ⟨.inl here, across id' here id List.mem_cons_self⟩
    · rintro ⟨here | rfl | later, less⟩
      · exact here
      · exact absurd less compare_self_ne_lt
      · rw [Std.OrientedCmp.gt_of_lt (above id' later)] at less
        cases less
  exact ⟨after, same ▸ split, above⟩

def takenBefore (ids : List ExtensionId) (id : ExtensionId) : List String :=
  ((assignNames [] (before ids id)).map Prod.snd).reverse

theorem entries_split (member : id ∈ ids) : ∃ after, (uniqueNames ids).entries =
    assignNames [] (before ids id) ++ (id, pickName (takenBefore ids id) id.baseName) :: after ∧
      ∀ e ∈ after, compare id e.1 = .lt := by
  obtain ⟨rest, split, above⟩ := toList_split member
  refine ⟨assignNames (pickName (takenBefore ids id) id.baseName :: takenBefore ids id) rest, ?_,
    fun e later => above e.1 ?_⟩
  · rw [entries_uniqueNames, split, assignNames_append, List.append_nil, assignNames]
    rfl
  · rw [← assignNames_ids _ rest]
    exact List.mem_map_of_mem later

theorem get?_uniqueNames (member : id ∈ ids) :
    (uniqueNames ids).get? id = some (pickName (takenBefore ids id) id.baseName) := by
  obtain ⟨after, split, -⟩ := entries_split member
  rw [SortedMap.get?_eq_some_iff, split]
  exact List.mem_append_right _ List.mem_cons_self

theorem mem_takenBefore (member : id ∈ ids) {name : String} : name ∈ takenBefore ids id ↔
    ∃ id', compare id' id = .lt ∧ (uniqueNames ids).get? id' = some name := by
  obtain ⟨after, split, above⟩ := entries_split member
  simp only [takenBefore, List.mem_reverse, List.mem_map, Prod.exists, exists_eq_right,
    SortedMap.get?_eq_some_iff, split, List.mem_append, List.mem_cons]
  constructor
  · rintro ⟨id', here⟩
    have earlier : id' ∈ before ids id := by
      rw [← assignNames_ids [] (before ids id)]
      exact List.mem_map_of_mem here
    exact ⟨id', (mem_before.mp earlier).2, .inl here⟩
  · rintro ⟨id', less, here | same | later⟩
    · exact ⟨id', here⟩
    · cases same
      exact absurd less compare_self_ne_lt
    · rw [Std.OrientedCmp.gt_of_lt (above _ later)] at less
      cases less

theorem get?_uniqueNames_isSome : (∃ name, (uniqueNames ids).get? id = some name) ↔ id ∈ ids := by
  have keys : id ∈ (uniqueNames ids).keys ↔ id ∈ ids := mem_keys_uniqueNames
  rw [← keys, ← SortedMap.contains_iff, SortedMap.contains, Option.isSome_iff_exists]

theorem firstFree_uniqueNames {name : String} (named : (uniqueNames ids).get? id = some name) :
    FirstFree (fun other => ∃ id', compare id' id = .lt ∧ (uniqueNames ids).get? id' = some other)
      id.baseName name := by
  have member := get?_uniqueNames_isSome.mp ⟨name, named⟩
  rw [get?_uniqueNames member] at named
  cases named
  exact (pickName_firstFree _ _).congr (fun _ => mem_takenBefore member)

theorem uniqueNames_inj {id' : ExtensionId} {name : String}
    (named : (uniqueNames ids).get? id = some name)
    (named' : (uniqueNames ids).get? id' = some name) : id = id' := by
  obtain ⟨n, rfl, free, -⟩ := firstFree_uniqueNames named
  obtain ⟨n', same, free', -⟩ := firstFree_uniqueNames named'
  cases order : compare id id' with
  | lt => exact absurd ⟨id, order, same ▸ named⟩ free'
  | eq => exact Std.LawfulEqOrd.eq_of_compare order
  | gt => exact absurd ⟨id', Std.OrientedCmp.lt_of_gt order, named'⟩ free

theorem uniqueNames_stable {ids' : List ExtensionId}
    (same : ∀ id', compare id' id ≠ .gt → (id' ∈ ids' ↔ id' ∈ ids)) :
    (uniqueNames ids').get? id = (uniqueNames ids).get? id := by
  have equal : compare id id = .eq := Std.ReflCmp.compare_self
  have itself : id ∈ ids' ↔ id ∈ ids := same id (by rw [equal]; decide)
  have earlier : before ids' id = before ids id := by
    refine congrArg SortedSet.toList (SortedSet.ofList_congr (fun id' => ?_))
    rw [List.mem_filter, List.mem_filter, decide_eq_true_eq]
    refine and_congr_left (fun less => same id' ?_)
    rw [less]
    decide
  by_cases member : id ∈ ids
  · rw [get?_uniqueNames member, get?_uniqueNames (itself.mpr member), takenBefore, takenBefore,
      earlier]
  · have absent {l : List ExtensionId} (away : id ∉ l) : (uniqueNames l).get? id = none :=
      SortedMap.get?_eq_none_iff.mpr (fun here => away (mem_keys_uniqueNames.mp here))
    rw [absent member, absent (fun here => member (itself.mp here))]

end ExtensionId

section Canonical

theorem tilde_of_isRepoName {name : String} (valid : isRepoName name = true) :
    '~' ∉ name.toList := by
  rw [isRepoName] at valid
  split at valid
  · cases valid
  · rename_i c rest chars
    rw [Bool.and_eq_true, List.all_eq_true] at valid
    rw [chars]
    intro member
    rcases List.mem_cons.mp member with rfl | member
    · exact absurd valid.1 (by decide)
    · exact absurd (valid.2 '~' member) (by decide)

theorem canonicalRepoName_toList (uniqueName exported : String) :
    (canonicalRepoName uniqueName exported).toList =
      uniqueName.toList ++ '~' :: exported.toList := by
  simp [canonicalRepoName, String.toList_append]

/-- Where no repository name holds a tilde, the last one ends the name of the extension. -/
theorem canonicalRepoName_inj {uniqueName uniqueName' exported exported' : String}
    (clean : '~' ∉ exported.toList) (clean' : '~' ∉ exported'.toList)
    (same : canonicalRepoName uniqueName exported = canonicalRepoName uniqueName' exported') :
    uniqueName = uniqueName' ∧ exported = exported' := by
  have chars := congrArg String.toList same
  rw [canonicalRepoName_toList, canonicalRepoName_toList] at chars
  obtain ⟨uniques, exports⟩ := Text.last_separator_inj clean clean' chars
  exact ⟨String.toList_inj.mp uniques, String.toList_inj.mp exports⟩

theorem canonicalRepoName_injective (uniqueName : String) :
    Function.Injective (canonicalRepoName uniqueName) := by
  intro exported exported' same
  have chars := congrArg String.toList same
  rw [canonicalRepoName_toList, canonicalRepoName_toList] at chars
  exact String.toList_inj.mp (List.cons.inj (List.append_cancel_left chars)).2

end Canonical

namespace ExtensionValue

variable {uniqueName exported canonical : String} {specs : RepoSpecs}

theorem mem_canonical {e : String × String} : e ∈ (ofSpecs uniqueName specs).canonical.entries ↔
    e.2 ∈ specs.keys ∧ e.1 = canonicalRepoName uniqueName e.2 := by
  have once : ((specs.keys.map (fun name => (canonicalRepoName uniqueName name, name))).map
      Prod.fst).Nodup := by
    rw [List.map_map]
    exact specs.keys_nodup.map (canonicalRepoName_injective uniqueName)
  rw [ofSpecs, SortedMap.mem_ofList once, List.mem_map]
  constructor
  · rintro ⟨name, member, rfl⟩
    exact ⟨member, rfl⟩
  · rintro ⟨member, same⟩
    exact ⟨e.2, member, Prod.ext same.symm rfl⟩

theorem exportedName?_eq_some :
    (ofSpecs uniqueName specs).exportedName? canonical = some exported ↔
    exported ∈ specs.keys ∧ canonical = canonicalRepoName uniqueName exported := by
  rw [exportedName?, SortedMap.get?_eq_some_iff, mem_canonical]

theorem canonicalName?_eq_some :
    (ofSpecs uniqueName specs).canonicalName? exported = some canonical ↔
    exported ∈ specs.keys ∧ canonical = canonicalRepoName uniqueName exported := by
  rw [canonicalName?, Option.map_eq_some_iff]
  constructor
  · rintro ⟨e, found, rfl⟩
    obtain ⟨member, same⟩ := mem_canonical.mp (List.mem_of_find?_eq_some found)
    have here : e.2 = exported := by simpa using List.find?_some found
    exact here ▸ ⟨member, same⟩
  · rintro ⟨member, rfl⟩
    have there : (canonicalRepoName uniqueName exported, exported) ∈
        (ofSpecs uniqueName specs).canonical.entries := mem_canonical.mpr ⟨member, rfl⟩
    cases found : (ofSpecs uniqueName specs).canonical.entries.find? (fun e => e.2 == exported) with
    | none => exact absurd (beq_self_eq_true exported) (List.find?_eq_none.mp found _ there)
    | some e =>
      have here : e.2 = exported := by simpa using List.find?_some found
      exact ⟨e, rfl, here ▸ (mem_canonical.mp (List.mem_of_find?_eq_some found)).2⟩

end ExtensionValue

namespace ExtensionId

/-- What names for some extensions are to do. -/
structure Naming (ids : List ExtensionId) (names : SortedMap ExtensionId String) : Prop where
  /-- each of the extensions has a name, and no other has -/
  complete : ∀ id, (∃ name, names.get? id = some name) ↔ id ∈ ids
  /-- it is the base name, or the base with the least number from two on that makes it new -/
  first : ∀ id name, names.get? id = some name → FirstFree
    (fun other => ∃ id', compare id' id = .lt ∧ names.get? id' = some other) id.baseName name
  distinct : ∀ id id' name, names.get? id = some name → names.get? id' = some name → id = id'
  canonical : ∀ id id' name name' exported exported', names.get? id = some name →
    names.get? id' = some name' → isRepoName exported = true → isRepoName exported' = true →
    canonicalRepoName name exported = canonicalRepoName name' exported' →
    id = id' ∧ exported = exported'

/-- Extensions get names of their own, which tell their repositories from those of others. The name
of an extension depends on the extensions up to it, so neither the order in which they are given nor
any that come after it play a part; and within one value canonical and exported names are told from
each other. -/
theorem uniqueNames_settled (ids : List ExtensionId) :
    Naming ids (uniqueNames ids) ∧
      (∀ ids', (∀ id, id ∈ ids' ↔ id ∈ ids) → uniqueNames ids' = uniqueNames ids) ∧
      (∀ ids' id, (∀ id', compare id' id ≠ .gt → (id' ∈ ids' ↔ id' ∈ ids)) →
        (uniqueNames ids').get? id = (uniqueNames ids).get? id) ∧
      ∀ uniqueName specs exported canonical,
        ((ExtensionValue.ofSpecs uniqueName specs).canonicalName? exported = some canonical ↔
          (ExtensionValue.ofSpecs uniqueName specs).exportedName? canonical = some exported) ∧
        ((ExtensionValue.ofSpecs uniqueName specs).exportedName? canonical = some exported ↔
          exported ∈ specs.keys ∧ canonical = canonicalRepoName uniqueName exported) := by
  refine ⟨?naming, fun ids' same => ?order, fun ids' id => uniqueNames_stable, ?values⟩
  case naming =>
    refine ⟨fun id => get?_uniqueNames_isSome, fun id name => firstFree_uniqueNames,
      fun id id' name => uniqueNames_inj, ?_⟩
    intro id id' name name' exported exported' named named' valid valid' same
    obtain ⟨rfl, exports⟩ := canonicalRepoName_inj (tilde_of_isRepoName valid)
      (tilde_of_isRepoName valid') same
    exact ⟨uniqueNames_inj named named', exports⟩
  case order => exact SortedMap.ext_get? (fun id => uniqueNames_stable (fun id' _ => same id'))
  case values =>
    intro uniqueName specs exported canonical
    exact ⟨ExtensionValue.canonicalName?_eq_some.trans ExtensionValue.exportedName?_eq_some.symm,
      ExtensionValue.exportedName?_eq_some⟩

def numbered : ExtensionId := ⟨⟨"", "", "x.bzl"⟩, "y2", none⟩

def earlier : ExtensionId := ⟨⟨"", "a", "x.bzl"⟩, "y", none⟩

def later : ExtensionId := ⟨⟨"", "b", "x.bzl"⟩, "y", none⟩

/-- The second extension of a base name takes the first number that is free, which is three here.
Neither the order of the extensions nor the last of them changes what the others are called. -/
theorem third_name :
    (uniqueNames [numbered, earlier, later]).entries.map Prod.snd =
      ["_main~y2", "_main~y", "_main~y3"] ∧
    uniqueNames [later, earlier, numbered, later] = uniqueNames [numbered, earlier, later] ∧
    (uniqueNames [numbered, earlier]).get? earlier =
      (uniqueNames [numbered, earlier, later]).get? earlier := by
  obtain ⟨-, order, stable, -⟩ := uniqueNames_settled [numbered, earlier, later]
  refine ⟨by decide, order _ (fun id => ?_), stable _ _ (fun id least => ?_)⟩
  · simp only [List.mem_cons, List.not_mem_nil, or_false]
    tauto
  · simp only [List.mem_cons, List.not_mem_nil, or_false]
    have other : id ≠ later := by
      rintro rfl
      exact least (by decide)
    tauto

end ExtensionId

end ExtensionLock
