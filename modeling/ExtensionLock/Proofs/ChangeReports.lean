import ExtensionLock.Proofs.Decision

/-! What the reasons for a stale result are, one by one. A difference is looked for under a key: a
module, a local name, a place in the list of tags. Of every kind there is one report for each key
under which the two sides differ, in the order of the keys, and none for any other. The lists that
are said to be itemized here leave no choice, so that no difference is passed over and none is
reported twice. -/

namespace ExtensionLock

section

variable {κ : Type u} {γ : Type v} [Ord κ] {report : κ → γ → Prop} {reports : List γ}

/-- A list of reports, one for each key there is something to report about, in key order. -/
def Itemized (report : κ → γ → Prop) (reports : List γ) : Prop :=
  ∃ items : SortedMap κ γ, items.values = reports ∧
    ∀ key r, items.get? key = some r ↔ report key r

variable [Std.TransOrd κ] [Std.LawfulEqOrd κ]

theorem Itemized.unique {others : List γ} (itemized : Itemized report reports)
    (itemized' : Itemized report others) : reports = others := by
  obtain ⟨items, rfl, exact⟩ := itemized
  obtain ⟨items', rfl, exact'⟩ := itemized'
  have same : items = items' := by
    refine SortedMap.ext_get? (fun key => Option.ext (fun r => ?_))
    rw [exact, exact']
  rw [same]

theorem Itemized.mem_iff (itemized : Itemized report reports) {r : γ} :
    r ∈ reports ↔ ∃ key, report key r := by
  obtain ⟨items, rfl, exact⟩ := itemized
  simp only [← exact, SortedMap.get?_eq_some_iff]
  simp [SortedMap.values]

theorem itemized_flatMap {keys : List κ} {f : κ → List γ}
    (sorted : keys.Pairwise (fun a b => compare a b = .lt))
    (single : ∀ key, f key = [] ∨ ∃ r, f key = [r])
    (exact : ∀ key r, report key r ↔ key ∈ keys ∧ r ∈ f key) :
    Itemized report (keys.flatMap f) := by
  have apart : (keys.flatMap (fun key => (f key).map (fun r => (key, r)))).Pairwise
      (fun a b => compare a.1 b.1 = .lt) := by
    rw [List.pairwise_flatMap]
    constructor
    · intro key _
      obtain nothing | ⟨r, one⟩ := single key
      · rw [nothing]
        exact List.Pairwise.nil
      · rw [one]
        exact List.pairwise_singleton _ _
    · refine sorted.imp (fun less a memA b memB => ?_)
      obtain ⟨_, -, rfl⟩ := List.mem_map.mp memA
      obtain ⟨_, -, rfl⟩ := List.mem_map.mp memB
      exact less
  refine ⟨⟨_, apart⟩, ?_, ?_⟩
  · simp [SortedMap.values, List.map_flatMap, Function.comp_def]
  · intro key r
    rw [SortedMap.get?_eq_some_iff, exact]
    simp

theorem itemized_unionKeys [DecidableEq κ] {ν : Type w} {a b : SortedMap κ ν}
    {f : κ → Option ν → Option ν → List γ} (absent : ∀ key, f key none none = [])
    (single : ∀ key x y, f key x y = [] ∨ ∃ r, f key x y = [r])
    (exact : ∀ key r, report key r ↔ r ∈ f key (a.get? key) (b.get? key)) :
    Itemized report
      ((SortedMap.unionKeys a b).flatMap (fun key => f key (a.get? key) (b.get? key))) := by
  refine itemized_flatMap (SortedSet.toList_sorted _) (fun key => single key _ _) ?_
  intro key r
  rw [exact, SortedMap.mem_unionKeys]
  refine (and_iff_right_of_imp (fun said => ?_)).symm
  by_contra neither
  obtain ⟨inA, inB⟩ := not_or.mp neither
  rw [SortedMap.get?_eq_none_iff.mpr inA, SortedMap.get?_eq_none_iff.mpr inB, absent] at said
  cases said

end

namespace Usage

inductive ImportReport (was now : Usage) (name : String) : UsageChange → Prop
  | added {exported : String} (before : was.imports.get? name = none)
      (after : now.imports.get? name = some exported) :
      ImportReport was now name (.importAdded name exported)
  | removed {exported : String} (before : was.imports.get? name = some exported)
      (after : now.imports.get? name = none) :
      ImportReport was now name (.importRemoved name exported)
  | retargeted {old new : String} (before : was.imports.get? name = some old)
      (after : now.imports.get? name = some new) (other : old ≠ new) :
      ImportReport was now name (.importChanged name old new)

inductive DevAddedReport (was now : Usage) (name : String) : UsageChange → Prop
  | added (before : name ∉ was.devImports.toList) (after : name ∈ now.devImports.toList) :
      DevAddedReport was now name (.devAdded name)

inductive DevRemovedReport (was now : Usage) (name : String) : UsageChange → Prop
  | removed (before : name ∈ was.devImports.toList) (after : name ∉ now.devImports.toList) :
      DevRemovedReport was now name (.devRemoved name)

inductive TagReport (was now : List Tag) (place : Nat) : UsageChange → Prop
  | added {t : Tag} (before : was[place]? = none) (after : now[place]? = some t) :
      TagReport was now place (.tagAdded t.tagName t.location)
  | removed {s : Tag} (before : was[place]? = some s) (after : now[place]? = none) :
      TagReport was now place (.tagRemoved s.tagName s.location)
  | replaced {s t : Tag} (before : was[place]? = some s) (after : now[place]? = some t)
      (other : s.tagName ≠ t.tagName) :
      TagReport was now place (.tagReplaced s.tagName t.tagName t.location)
  | modified {s t : Tag} (before : was[place]? = some s) (after : now[place]? = some t)
      (same : s.tagName = t.tagName) (differ : s.Differs t) :
      TagReport was now place (.tagModified t.tagName t.location)

structure Details (was now : Usage) (imports added removed tags : List UsageChange) : Prop where
  imports : Itemized (ImportReport was now) imports
  devAdded : Itemized (DevAddedReport was now) added
  devRemoved : Itemized (DevRemovedReport was now) removed
  tags : Itemized (TagReport was.tags now.tags) tags

/-- What there is to say about two usages that differ. Where nothing is to be said about imports
and tags, the usage has moved, or there is a difference that has no report of its own. -/
inductive Reports (was now : Usage) : List UsageChange → Prop
  | detailed {imports added removed tags : List UsageChange}
      (details : Details was now imports added removed tags)
      (some : imports ++ added ++ removed ++ tags ≠ []) :
      Reports was now (imports ++ added ++ removed ++ tags)
  | moved (details : Details was now [] [] [] []) (moved : was.location ≠ now.location) :
      Reports was now [.moved was.location now.location]
  | other (details : Details was now [] [] [] []) (here : was.location = now.location) :
      Reports was now [.other]

section

variable {was now : Usage}

theorem importReport_iff {name : String} {change : UsageChange} :
    ImportReport was now name change ↔
      change ∈ importChange name (was.imports.get? name) (now.imports.get? name) := by
  constructor
  · intro report
    cases report with
    | added before after => simp [before, after, importChange]
    | removed before after => simp [before, after, importChange]
    | retargeted before after other => simp [before, after, importChange, other]
  · intro said
    cases before : was.imports.get? name <;> cases after : now.imports.get? name <;>
      rw [before, after, importChange] at said
    · cases said
    · cases List.mem_singleton.mp said
      exact .added before after
    · cases List.mem_singleton.mp said
      exact .removed before after
    · split at said
      · cases said
      · rename_i other
        cases List.mem_singleton.mp said
        exact .retargeted before after other

theorem imports_itemized : Itemized (ImportReport was now)
    ((SortedMap.unionKeys was.imports now.imports).flatMap (fun name =>
      importChange name (was.imports.get? name) (now.imports.get? name))) := by
  refine itemized_unionKeys (fun _ => rfl) ?_ (fun _ _ => importReport_iff)
  intro name x y
  cases x <;> cases y <;> simp only [importChange] <;> try split
  all_goals simp

theorem devAdded_itemized : Itemized (DevAddedReport was now)
    ((now.devImports.diff was.devImports).toList.map .devAdded) := by
  rw [List.map_eq_flatMap]
  refine itemized_flatMap (SortedSet.toList_sorted _) (fun _ => Or.inr ⟨_, rfl⟩) ?_
  intro name change
  rw [SortedSet.mem_toList_diff, List.mem_singleton]
  constructor
  · rintro ⟨before, after⟩
    exact ⟨⟨after, before⟩, rfl⟩
  · rintro ⟨⟨after, before⟩, rfl⟩
    exact .added before after

theorem devRemoved_itemized : Itemized (DevRemovedReport was now)
    ((was.devImports.diff now.devImports).toList.map .devRemoved) := by
  rw [List.map_eq_flatMap]
  refine itemized_flatMap (SortedSet.toList_sorted _) (fun _ => Or.inr ⟨_, rfl⟩) ?_
  intro name change
  rw [SortedSet.mem_toList_diff, List.mem_singleton]
  constructor
  · rintro ⟨before, after⟩
    exact ⟨⟨before, after⟩, rfl⟩
  · rintro ⟨⟨before, after⟩, rfl⟩
    exact .removed before after

def tagChange : Option Tag → Option Tag → List UsageChange
  | none, none => []
  | none, some now => [.tagAdded now.tagName now.location]
  | some was, none => [.tagRemoved was.tagName was.location]
  | some was, some now =>
    if was.tagName ≠ now.tagName then [.tagReplaced was.tagName now.tagName now.location]
    else if was == now then [] else [.tagModified now.tagName now.location]

theorem tagChanges_eq_flatMap (was now : List Tag) :
    tagChanges was now =
      (List.range (max was.length now.length)).flatMap (fun i => tagChange was[i]? now[i]?) := by
  fun_induction tagChanges was now with
  | case1 => rfl
  | case2 now rest ih =>
    simp [ih, List.range_succ_eq_map, List.flatMap_map, tagChange]
  | case3 was rest ih =>
    simp [ih, List.range_succ_eq_map, List.flatMap_map, tagChange]
  | case4 was before now after ih =>
    simp [ih, List.range_succ_eq_map, List.flatMap_map, tagChange]

theorem tagReport_iff {was now : List Tag} {place : Nat} {change : UsageChange} :
    TagReport was now place change ↔ change ∈ tagChange was[place]? now[place]? := by
  constructor
  · intro report
    cases report with
    | added before after => simp [before, after, tagChange]
    | removed before after => simp [before, after, tagChange]
    | replaced before after other => simp [before, after, tagChange, other]
    | modified before after same differ =>
      simp [before, after, tagChange, same, Tag.differs_iff.mp differ]
  · intro said
    cases before : was[place]? <;> cases after : now[place]? <;>
      rw [before, after, tagChange] at said
    · cases said
    · cases List.mem_singleton.mp said
      exact .added before after
    · cases List.mem_singleton.mp said
      exact .removed before after
    · split at said
      · rename_i other
        cases List.mem_singleton.mp said
        exact .replaced before after other
      · rename_i same
        split at said
        · cases said
        · rename_i differ
          cases List.mem_singleton.mp said
          exact .modified before after (not_not.mp same)
            (Tag.differs_iff.mpr (Bool.not_eq_true _ |>.mp differ))

theorem tags_itemized (was now : List Tag) :
    Itemized (TagReport was now) (tagChanges was now) := by
  rw [tagChanges_eq_flatMap]
  refine itemized_flatMap ?_ ?_ ?_
  · exact List.pairwise_lt_range.imp (fun less => Nat.compare_eq_lt.mpr less)
  · intro place
    cases was[place]? <;> cases now[place]? <;> simp only [tagChange] <;>
      (repeat' split) <;> simp
  · intro place change
    rw [tagReport_iff, List.mem_range]
    refine (and_iff_right_of_imp (fun said => ?_)).symm
    by_contra beyond
    rw [List.getElem?_eq_none (by omega), List.getElem?_eq_none (by omega), tagChange] at said
    cases said

theorem exists_details (was now : Usage) : ∃ imports added removed tags,
    Details was now imports added removed tags ∧
      detailedUsageChanges was now = imports ++ added ++ removed ++ tags :=
  ⟨_, _, _, _, ⟨imports_itemized, devAdded_itemized, devRemoved_itemized, tags_itemized _ _⟩, rfl⟩

theorem Details.unique
    {imports added removed tags imports' added' removed' tags' : List UsageChange}
    (details : Details was now imports added removed tags)
    (details' : Details was now imports' added' removed' tags') :
    imports = imports' ∧ added = added' ∧ removed = removed' ∧ tags = tags' :=
  ⟨details.imports.unique details'.imports, details.devAdded.unique details'.devAdded,
    details.devRemoved.unique details'.devRemoved, details.tags.unique details'.tags⟩

theorem reports_usageChanges (was now : Usage) : Reports was now (usageChanges was now) := by
  obtain ⟨imports, added, removed, tags, details, found⟩ := exists_details was now
  rw [usageChanges]
  split
  · rename_i none
    rw [none, eq_comm, List.append_eq_nil_iff, List.append_eq_nil_iff, List.append_eq_nil_iff]
      at found
    obtain ⟨⟨⟨rfl, rfl⟩, rfl⟩, rfl⟩ := found
    split
    · rename_i moved
      exact .moved details moved
    · rename_i here
      exact .other details (not_not.mp here)
  · rename_i some
    rw [found] at some ⊢
    exact .detailed details some

theorem Reports.eq_usageChanges {reports : List UsageChange} (said : Reports was now reports) :
    reports = usageChanges was now := by
  obtain ⟨imports, added, removed, tags, details, found⟩ := exists_details was now
  rw [usageChanges, found]
  cases said with
  | detailed details' some =>
    obtain ⟨rfl, rfl, rfl, rfl⟩ := details'.unique details
    split
    · rename_i none
      exact absurd none some
    · rfl
  | moved details' moved =>
    obtain ⟨rfl, rfl, rfl, rfl⟩ := details'.unique details
    exact (if_pos moved).symm
  | other details' here =>
    obtain ⟨rfl, rfl, rfl, rfl⟩ := details'.unique details
    exact (if_neg (not_not.mpr here)).symm

theorem reports_iff {reports : List UsageChange} :
    Reports was now reports ↔ reports = usageChanges was now :=
  ⟨Reports.eq_usageChanges, fun same => same ▸ reports_usageChanges was now⟩

end

end Usage

/-- What there is to say about a module: that it uses the extension on one side only, or how the
usages differ that it has on both. -/
inductive ModuleReports (locked current : ModuleUsages) (module : ModuleKey) :
    List ExtensionChange → Prop
  | started {now : Usage} (before : locked.get? module = none)
      (after : current.get? module = some now) :
      ModuleReports locked current module [.started module]
  | stopped {was : Usage} (before : locked.get? module = some was)
      (after : current.get? module = none) :
      ModuleReports locked current module [.stopped module]
  | changed {was now : Usage} {reports : List UsageChange}
      (before : locked.get? module = some was) (after : current.get? module = some now)
      (differ : was.Differs now) (said : Usage.Reports was now reports) :
      ModuleReports locked current module (reports.map (.usage module))

/-- What there is to say about the entry of the lockfile, before any module. -/
inductive EntryReports (locked : Option LockedExtension) (digest : Digest) :
    List ExtensionChange → Prop
  | missing (absent : locked = none) : EntryReports locked digest [.notLocked]
  | changed {entry : LockedExtension} (recorded : locked = some entry)
      (other : entry.digest ≠ digest) :
      EntryReports locked digest [.implementation entry.digest digest]
  | quiet {entry : LockedExtension} (recorded : locked = some entry)
      (same : entry.digest = digest) : EntryReports locked digest []

section

variable {locked : Option LockedExtension} {lockedUsages usages : ModuleUsages} {digest : Digest}

theorem moduleReports_iff {module : ModuleKey} {block : List ExtensionChange} :
    ModuleReports lockedUsages usages module block ↔
      (lockedUsages.get? module == usages.get? module) = false ∧
        block = moduleChanges module (lockedUsages.get? module) (usages.get? module) := by
  constructor
  · intro said
    cases said with
    | started before after => simp [before, after, moduleChanges]
    | stopped before after => simp [before, after, moduleChanges]
    | changed before after differ said =>
      have other := Usage.differs_iff.mp differ
      rw [before, after, moduleChanges, Option.some_beq_some, other, Usage.reports_iff.mp said]
      exact ⟨rfl, rfl⟩
  · rintro ⟨other, rfl⟩
    cases before : lockedUsages.get? module <;> cases after : usages.get? module <;>
      rw [before, after] at other
    · cases other
    · exact .started before after
    · exact .stopped before after
    · rw [Option.some_beq_some] at other
      rw [moduleChanges, other]
      exact .changed before after (Usage.differs_iff.mpr other) (Usage.reports_usageChanges _ _)

def entryChanges (locked : Option LockedExtension) (digest : Digest) : List ExtensionChange :=
  match locked with
  | none => [.notLocked]
  | some entry => if entry.digest = digest then [] else [.implementation entry.digest digest]

theorem entryReports_entryChanges (locked : Option LockedExtension) (digest : Digest) :
    EntryReports locked digest (entryChanges locked digest) := by
  unfold entryChanges
  cases locked with
  | none => exact .missing rfl
  | some entry =>
    dsimp only
    split
    · rename_i same
      exact .quiet rfl same
    · rename_i other
      exact .changed rfl other

def moduleBlock (module : ModuleKey) (was now : Option Usage) : List (List ExtensionChange) :=
  if moduleChanges module was now = [] then [] else [moduleChanges module was now]

theorem flatten_moduleBlock (module : ModuleKey) (was now : Option Usage) :
    (moduleBlock module was now).flatten = moduleChanges module was now := by
  rw [moduleBlock]
  split
  · rename_i none
    rw [none, List.flatten_nil]
  · exact List.flatten_singleton

theorem blocks_itemized : Itemized (ModuleReports lockedUsages usages)
    ((SortedMap.unionKeys lockedUsages usages).flatMap (fun module =>
      moduleBlock module (lockedUsages.get? module) (usages.get? module))) := by
  refine itemized_unionKeys (fun _ => rfl) ?_ ?_
  · intro module was now
    rw [moduleBlock]
    split
    · exact Or.inl rfl
    · exact Or.inr ⟨_, rfl⟩
  · intro module block
    rw [moduleReports_iff, moduleBlock, ← Bool.not_eq_true, ← moduleChanges_eq_nil]
    split
    · rename_i none
      exact iff_of_false (fun said => said.1 none) List.not_mem_nil
    · rename_i some
      rw [List.mem_singleton]
      exact and_iff_right some

/-- The reasons for a stale result: at first what there is to say about the entry, then a block for
every module that the two sides show differently, by the order of the modules, and nothing else. -/
theorem extensionChanges_itemized (locked : Option LockedExtension) (lockedUsages : ModuleUsages)
    (digest : Digest) (usages : ModuleUsages) :
    ∃ (head : List ExtensionChange) (blocks : List (List ExtensionChange)),
      extensionChanges locked lockedUsages digest usages = head ++ blocks.flatten ∧
      EntryReports locked digest head ∧
      Itemized (ModuleReports lockedUsages usages) blocks ∧
      (∀ block ∈ blocks, block ≠ []) ∧
      ∀ module, (∃ block, ModuleReports lockedUsages usages module block) ↔
        (lockedUsages.get? module == usages.get? module) = false := by
  refine ⟨_, _, ?_, entryReports_entryChanges locked digest, blocks_itemized, ?_, ?_⟩
  · rw [← List.flatMap_id, List.flatMap_assoc]
    simp only [List.flatMap_id, flatten_moduleBlock]
    rfl
  · intro block member nothing
    obtain ⟨module, said⟩ := blocks_itemized.mem_iff.mp member
    obtain ⟨other, rfl⟩ := moduleReports_iff.mp said
    rw [moduleChanges_eq_nil.mp nothing] at other
    cases other
  · intro module
    simp only [moduleReports_iff, exists_and_left, exists_eq, and_true]

end

end ExtensionLock
