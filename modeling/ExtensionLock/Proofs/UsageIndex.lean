import ExtensionLock.Proofs.Usages

/-! All about the usages of one extension, as a graph has it: the usages themselves, a name of its
own for the extension, and what the graph says about the modules that use it. -/

namespace ExtensionLock

namespace ExtensionId

theorem assignNames_ids (taken : List String) (ids : List ExtensionId) :
    (assignNames taken ids).map Prod.fst = ids := by
  induction ids generalizing taken with
  | nil => rfl
  | cons id rest ih => simp only [assignNames, List.map_cons, ih]

theorem mem_keys_uniqueNames {ids : List ExtensionId} {id : ExtensionId} :
    id ∈ (uniqueNames ids).keys ↔ id ∈ ids := by
  rw [uniqueNames, SortedMap.mem_keys_ofList, assignNames_ids]
  exact SortedSet.mem_toList_ofList

end ExtensionId

namespace UsageIndex

theorem ofGraph_eq_ok {g : DepGraph} {x : UsageIndex} : ofGraph g = .ok x ↔
    ∃ byId, g.usagesById = .ok byId ∧ x = ⟨byId, ExtensionId.uniqueNames byId.keys,
      g.mapValues (fun _ m => (m.abridged, m.repoMapping))⟩ := by
  unfold ofGraph
  cases g.usagesById with
  | error e => exact ⟨fun h => (by cases h), fun ⟨_, h, _⟩ => (by cases h)⟩
  | ok byId =>
    constructor
    · intro h
      cases h
      exact ⟨byId, rfl, rfl⟩
    · rintro ⟨_, h, rfl⟩
      cases h
      rfl

def known (x : UsageIndex) (usages : ModuleUsages) :
    List (ModuleKey × AbridgedModule × RepoMapping) :=
  usages.keys.filterMap (fun key => (x.modules.get? key).map (fun m => (key, m)))

theorem single?_eq_some {x : UsageIndex} {id : ExtensionId} {u : ExtensionUsages} :
    x.single? id = some u ↔ ∃ usages name, x.usagesById.get? id = some usages ∧
      x.uniqueNames.get? id = some name ∧ u = ⟨id, name, usages,
        (x.known usages).map (fun m => m.2.1),
        .ofList ((x.known usages).map (fun m => (m.1, m.2.2)))⟩ := by
  simp only [single?, usages?, uniqueName?, Option.bind_eq_bind, Option.bind_eq_some_iff]
  constructor
  · rintro ⟨usages, hu, name, hn, h⟩
    cases h
    exact ⟨usages, name, hu, hn, rfl⟩
  · rintro ⟨usages, name, hu, hn, rfl⟩
    exact ⟨usages, hu, name, hn, rfl⟩

end UsageIndex

namespace DepGraph

/-- All about the usages of an extension, as a graph has it. -/
def usagesOf (g : DepGraph) (id : ExtensionId) : Option ExtensionUsages :=
  match UsageIndex.ofGraph g with
  | .error _ => none
  | .ok x => x.single? id

def known (g : DepGraph) (keys : List ModuleKey) : List (ModuleKey × Module) :=
  keys.filterMap (fun key => (g.get? key).map (fun m => (key, m)))

theorem usagesOf_eq_some {g : DepGraph} {id : ExtensionId} {u : ExtensionUsages} :
    g.usagesOf id = some u ↔ ∃ byId usages name, g.usagesById = .ok byId ∧
      byId.get? id = some usages ∧ (ExtensionId.uniqueNames byId.keys).get? id = some name ∧
      u = ⟨id, name, usages, (g.known usages.keys).map (fun m => m.2.abridged),
        .ofList ((g.known usages.keys).map (fun m => (m.1, m.2.repoMapping)))⟩ := by
  have rows (byId : UsagesById) (usages : ModuleUsages) :
      UsageIndex.known ⟨byId, ExtensionId.uniqueNames byId.keys,
        g.mapValues (fun _ m => (m.abridged, m.repoMapping))⟩ usages =
      (g.known usages.keys).map (fun m => (m.1, m.2.abridged, m.2.repoMapping)) := by
    simp only [UsageIndex.known, known, SortedMap.get?_mapValues, List.map_filterMap,
      Option.map_map, Function.comp_def]
  unfold usagesOf
  cases indexed : UsageIndex.ofGraph g with
  | error e =>
    constructor
    · intro h
      cases h
    · rintro ⟨byId, usages, name, grouped, -⟩
      rw [UsageIndex.ofGraph_eq_ok.mpr ⟨byId, grouped, rfl⟩] at indexed
      cases indexed
  | ok x =>
    obtain ⟨byId, grouped, rfl⟩ := UsageIndex.ofGraph_eq_ok.mp indexed
    simp only [UsageIndex.single?_eq_some, rows, List.map_map, Function.comp_def]
    constructor
    · rintro ⟨usages, name, used⟩
      exact ⟨byId, usages, name, grouped, used⟩
    · rintro ⟨_, usages, name, h, used⟩
      rw [grouped] at h
      cases h
      exact ⟨usages, name, used⟩

theorem usagesOf_of_usages {g : DepGraph} {byId : UsagesById} (grouped : g.usagesById = .ok byId)
    {id : ExtensionId} {usages : ModuleUsages} (used : byId.get? id = some usages) :
    ∃ u, g.usagesOf id = some u ∧ u.usages = usages ∧
      u.abridgedModules = (g.known usages.keys).map (fun m => m.2.abridged) ∧
      u.repoMappings = .ofList ((g.known usages.keys).map (fun m => (m.1, m.2.repoMapping))) := by
  have member : id ∈ (ExtensionId.uniqueNames byId.keys).keys := by
    rw [ExtensionId.mem_keys_uniqueNames, ← SortedMap.contains_iff, SortedMap.contains, used]
    rfl
  obtain ⟨name, named⟩ := Option.isSome_iff_exists.mp (SortedMap.contains_iff.mpr member)
  exact ⟨_, usagesOf_eq_some.mpr ⟨byId, usages, name, grouped, used, named, rfl⟩, rfl, rfl, rfl⟩

theorem get?_of_usagesOf {g : DepGraph} {id : ExtensionId} {u : ExtensionUsages}
    (used : g.usagesOf id = some u) {byId : UsagesById} (grouped : g.usagesById = .ok byId) :
    byId.get? id = some u.usages := by
  obtain ⟨byId', usages, name, grouped', here, -, rfl⟩ := usagesOf_eq_some.mp used
  rw [grouped] at grouped'
  cases grouped'
  exact here

end DepGraph

end ExtensionLock
