import ExtensionLock.Extension.Module
import ExtensionLock.Proofs.Policy
import ExtensionLock.Proofs.UsageIndex

/-! What an implementation would have seen. A result is used again for the usages that it was made
for, so the tags of all using modules are those of the locked graph. What a graph says about a
module beside its usages is not looked at: its name, its version and the repositories that it
sees. -/

namespace ExtensionLock

namespace DepGraph

/-- Two graphs have the same to say about some modules, as far as a view of them goes. -/
def AgreeOn (g h : DepGraph) (keys : List ModuleKey) (view : Module → α) : Prop :=
  ∀ key ∈ keys, (g.get? key).map view = (h.get? key).map view

theorem known_view {g h : DepGraph} {keys : List ModuleKey} {view : Module → α}
    (agree : g.AgreeOn h keys view) :
    (g.known keys).map (fun m => (m.1, view m.2)) =
      (h.known keys).map (fun m => (m.1, view m.2)) := by
  simp only [known, List.map_filterMap]
  apply List.filterMap_congr
  intro key member
  have both := congrArg (Option.map (fun a => (key, a))) (agree key member)
  rw [Option.map_map, Option.map_map] at both
  rw [Option.map_map, Option.map_map]
  exact both

end DepGraph

theorem append_beq [BEq α] {l l' m m' : List α} (first : (l == l') = true)
    (second : (m == m') = true) : (l ++ m == l' ++ m') = true := by
  induction l generalizing l' with
  | nil => cases l' with
    | nil => exact second
    | cons x l' => cases first
  | cons x l ih => cases l' with
    | nil => cases first
    | cons y l' =>
      rw [List.cons_beq_cons, Bool.and_eq_true] at first
      rw [List.cons_append, List.cons_append, List.cons_beq_cons, Bool.and_eq_true]
      exact ⟨first.1, ih first.2⟩

theorem mapM_beq [BEq ε] [BEq α] [BEq β] {f g : α → Except ε β}
    (step : ∀ x y, (x == y) = true → (f x == g y) = true) {l m : List α} (items : (l == m) = true) :
    (l.mapM f == m.mapM g) = true := by
  induction l generalizing m with
  | nil => cases m with
    | nil => rfl
    | cons y m => cases items
  | cons x l ih => cases m with
    | nil => cases items
    | cons y m =>
      rw [List.cons_beq_cons, Bool.and_eq_true] at items
      have first := step x y items.1
      have rest := ih items.2
      simp only [List.mapM_cons]
      cases hf : f x with
      | error e => cases hg : g y with
        | error e' => rw [hf, hg] at first; exact first
        | ok b => rw [hf, hg] at first; cases first
      | ok a => cases hg : g y with
        | error e' => rw [hf, hg] at first; cases first
        | ok b => cases hl : l.mapM f with
          | error e => cases hm : m.mapM g with
            | error e' => rw [hl, hm] at rest; exact rest
            | ok bs => rw [hl, hm] at rest; cases rest
          | ok as => cases hm : m.mapM g with
            | error e' => rw [hl, hm] at rest; cases rest
            | ok bs =>
              rw [hf, hg] at first
              rw [hl, hm] at rest
              have both : (a :: as == b :: bs) = true :=
                List.cons_beq_cons.trans (Bool.and_eq_true_iff.mpr ⟨first, rest⟩)
              exact both

theorem map_mapM {f : α → Except ε β} (g : β → γ) (l : List α) :
    (l.mapM f).map (fun bs => bs.map g) = l.mapM (fun a => (f a).map g) := by
  induction l with
  | nil => rfl
  | cons a l ih =>
    simp only [List.mapM_cons, ← ih]
    cases f a with
    | error e => rfl
    | ok b => cases l.mapM f <;> rfl

namespace ExtensionModule

theorem addTag_beq {x y : SortedMap String (List Tag)} {s t : Tag} (maps : (x == y) = true)
    (tags : (s == t) = true) : (addTag x s == addTag y t) = true := by
  have name := (Tag.beq_iff.mp tags).1
  have found := SortedMap.get?_beq maps t.tagName
  simp only [addTag, name]
  cases hx : x.get? t.tagName with
  | none => cases hy : y.get? t.tagName with
    | none => exact tags
    | some m => rw [hx, hy] at found; cases found
  | some l => cases hy : y.get? t.tagName with
    | none => rw [hx, hy] at found; cases found
    | some m =>
      rw [hx, hy] at found
      have one : ([s] == [t]) = true :=
        List.cons_beq_cons.trans (Bool.and_eq_true_iff.mpr ⟨tags, rfl⟩)
      exact SortedMap.insert_beq_insert maps (append_beq found one) t.tagName

theorem groupTags_beq (classes : SortedSet String) {l m : List Tag} (tags : (l == m) = true) :
    (groupTags classes l == groupTags classes m) = true :=
  foldlM_beq (fun _ _ _ _ => addTag_beq) tags BEq.rfl

theorem beq_of_tags {name : String} {version : Version} {key : ModuleKey} {mapping : RepoMapping}
    {x y : SortedMap String (List Tag)} (tags : (x == y) = true) :
    ((⟨name, version, key, x, mapping⟩ : ExtensionModule) ==
      ⟨name, version, key, y, mapping⟩) = true := by
  change instBEqExtensionModule.beq _ _ = true
  simp only [instBEqExtensionModule.beq, beq_self_eq_true, tags, Bool.and_self]

theorem ofUsage_beq {classes : SortedSet String} {m : AbridgedModule} {u w : Usage}
    {mapping : RepoMapping} (usages : (u == w) = true) :
    (ofUsage classes m u mapping == ofUsage classes m w mapping) = true := by
  have tags := groupTags_beq classes (Usage.beq_iff.mp usages).2.2.2.2
  simp only [ofUsage]
  cases hu : groupTags classes u.tags with
  | error e => cases hw : groupTags classes w.tags with
    | error e' => rw [hu, hw] at tags; exact tags
    | ok y => rw [hu, hw] at tags; cases tags
  | ok x => cases hw : groupTags classes w.tags with
    | error e' => rw [hu, hw] at tags; cases tags
    | ok y => rw [hu, hw] at tags; exact beq_of_tags tags

def declared (m : ExtensionModule) : ModuleKey × SortedMap String (List Tag) := (m.key, m.tags)

end ExtensionModule

namespace ExtensionUsages

def pick (u : ExtensionUsages) (key : α → ModuleKey) (l : List α) : List (α × Usage) :=
  l.filterMap (fun m => (u.usage? (key m)).map (fun usage => (m, usage)))

theorem pick_beq [BEq α] [ReflBEq α] {u w : ExtensionUsages}
    (usages : (u.usages == w.usages) = true)
    (key : α → ModuleKey) (l : List α) : (u.pick key l == w.pick key l) = true := by
  induction l with
  | nil => rfl
  | cons m l ih =>
    have found := SortedMap.get?_beq usages (key m)
    simp only [pick, List.filterMap_cons, usage?] at ih ⊢
    cases hu : u.usages.get? (key m) with
    | none => cases hw : w.usages.get? (key m) with
      | none => exact ih
      | some b => rw [hu, hw] at found; cases found
    | some a => cases hw : w.usages.get? (key m) with
      | none => rw [hu, hw] at found; cases found
      | some b =>
        rw [hu, hw] at found
        rw [Option.map_some, Option.map_some, List.cons_beq_cons, Bool.and_eq_true, pair_beq_iff]
        exact ⟨⟨BEq.rfl, found⟩, ih⟩

theorem modules_beq {u w : ExtensionUsages} (classes : SortedSet String)
    (usages : (u.usages == w.usages) = true) (abridged : u.abridgedModules = w.abridgedModules)
    (mappings : u.repoMappings = w.repoMappings) :
    (u.modules classes == w.modules classes) = true := by
  have rows := pick_beq usages AbridgedModule.key u.abridgedModules
  simp only [modules, mappings]
  rw [abridged] at rows ⊢
  apply mapM_beq _ rows
  intro x y same
  obtain ⟨modules, declared⟩ := pair_beq_iff.mp same
  rw [beq_iff_eq] at modules
  rw [modules]
  exact ExtensionModule.ofUsage_beq declared

theorem pick_map (u : ExtensionUsages) (key : α → ModuleKey) (l : List α) :
    (u.pick key l).map (fun p => (key p.1, p.2)) = u.pick (fun k => k) (l.map key) := by
  simp only [pick, List.map_filterMap, List.filterMap_map]
  apply List.filterMap_congr
  intro m _
  simp only [Option.map_map, Function.comp_apply]
  rfl

theorem modules_declared (u : ExtensionUsages) (classes : SortedSet String) :
    (u.modules classes).map (fun l => l.map ExtensionModule.declared) =
      (u.pick (fun key => key) (u.abridgedModules.map AbridgedModule.key)).mapM (fun p =>
        (ExtensionModule.groupTags classes p.2.tags).map (fun tags => (p.1, tags))) := by
  have rows : u.modules classes = (u.pick AbridgedModule.key u.abridgedModules).mapM (fun p =>
      ExtensionModule.ofUsage classes p.1 p.2 (u.repoMappings.getD p.1.key .empty)) := rfl
  rw [rows, map_mapM, ← pick_map, List.mapM_map]
  congr 1
  funext p
  simp only [ExtensionModule.ofUsage, Function.comp_apply]
  cases ExtensionModule.groupTags classes p.2.tags <;> rfl

theorem modules_declared_beq {u w : ExtensionUsages} (classes : SortedSet String)
    (usages : (u.usages == w.usages) = true)
    (keys : u.abridgedModules.map AbridgedModule.key = w.abridgedModules.map AbridgedModule.key) :
    ((u.modules classes).map (fun l => l.map ExtensionModule.declared) ==
      (w.modules classes).map (fun l => l.map ExtensionModule.declared)) = true := by
  rw [modules_declared, modules_declared, keys]
  apply mapM_beq _ (pick_beq usages _ _)
  intro x y same
  obtain ⟨key, usage⟩ := pair_beq_iff.mp same
  have tags := ExtensionModule.groupTags_beq classes (Usage.beq_iff.mp usage).2.2.2.2
  rw [beq_iff_eq] at key
  rw [key]
  cases hx : ExtensionModule.groupTags classes x.2.tags with
  | error e => cases hy : ExtensionModule.groupTags classes y.2.tags with
    | error e' => rw [hx, hy] at tags; exact tags
    | ok b => rw [hx, hy] at tags; cases tags
  | ok a => cases hy : ExtensionModule.groupTags classes y.2.tags with
    | error e' => rw [hx, hy] at tags; cases tags
    | ok b =>
      rw [hx, hy] at tags
      have both : ((y.1, a) == (y.1, b)) = true := pair_beq_iff.mpr ⟨BEq.rfl, tags⟩
      exact both

end ExtensionUsages

/-- A reused result was made for an extension that the locked graph uses too, with usages that
agree. The tags of its modules agree wherever the graphs give the modules the same keys; the modules
agree altogether wherever the graphs also give them the same names, versions and repositories in
sight. -/
theorem reused_modules {g : DepGraph} {l : Lockfile} {mode : LockfileMode} {id : ExtensionId}
    {digest : Digest} {entry : LockedExtension} {u : ExtensionUsages}
    (used : g.usagesOf id = some u)
    (reused : mode.decide id digest u.usages (some l) = .ok (.reuse entry))
    (classes : SortedSet String) :
    ∃ locked, l.depGraph.usagesOf id = some locked ∧ (locked.usages == u.usages) = true ∧
      (g.AgreeOn l.depGraph u.usages.keys Module.key →
        ((u.modules classes).map (fun l => l.map ExtensionModule.declared) ==
          (locked.modules classes).map (fun l => l.map ExtensionModule.declared)) = true) ∧
      (g.AgreeOn l.depGraph u.usages.keys (fun m => (m.abridged, m.repoMapping)) →
        (u.modules classes == locked.modules classes) = true) := by
  obtain ⟨-, answers⟩ := LockfileMode.decide_eq_reuse_iff.mp reused
  obtain ⟨z, grouped, agree⟩ := answers.usages
  rw [Lockfile.usagesById_eq_ok] at grouped
  obtain ⟨byId, usages, name, own, here, -, rfl⟩ := DepGraph.usagesOf_eq_some.mp used
  obtain ⟨key, w, inhabited⟩ := (DepGraph.usagesById_groups own).inhabited id usages here
  obtain ⟨locked, there, same, abridged, mappings⟩ :=
    DepGraph.usagesOf_of_usages grouped (get?_of_getD_beq agree inhabited)
  rw [← same] at agree abridged mappings
  rw [SortedMap.keys_eq_of_beq agree] at abridged mappings
  have agree' : (usages == locked.usages) = true := PartialEquivBEq.symm agree
  refine ⟨locked, there, agree, ?_, ?_⟩
  · intro known
    apply ExtensionUsages.modules_declared_beq classes agree'
    rw [abridged, List.map_map, List.map_map]
    have keys := congrArg (List.map Prod.snd) (DepGraph.known_view known)
    rw [List.map_map, List.map_map] at keys
    exact keys
  · intro known
    have rows := DepGraph.known_view known
    apply ExtensionUsages.modules_beq classes agree'
    · rw [abridged]
      have names := congrArg (List.map (fun m => m.2.1)) rows
      rw [List.map_map, List.map_map] at names
      exact names
    · rw [mappings]
      have sights := congrArg (List.map (fun m => (m.1, m.2.2))) rows
      rw [List.map_map, List.map_map] at sights
      exact congrArg SortedMap.ofList sights

section Dependencies

def depsId : ExtensionId := ⟨⟨"", "", "deps.bzl"⟩, "deps", none⟩

def bareRoot : Module := (Module.root "app" .empty).withUsage (.bare depsId ⟨"MODULE.bazel", 1, 1⟩)

def dependentRoot : Module := bareRoot.withDep "lib" ⟨"lib", .empty⟩

def bareLockfile : Lockfile :=
  { Lockfile.ofInputs { ResolutionInputs.default with depGraph := .ofList [(.root, bareRoot)] } with
    extensions := .ofList [(depsId, ⟨⟨[]⟩, .empty⟩)] }

def dependentGraph : DepGraph := .ofList [(.root, dependentRoot)]

theorem dependentGraph_usagesOf : dependentGraph.usagesOf depsId = some
    ⟨depsId, "_main~deps", .ofList [(.root, .bare depsId ⟨"MODULE.bazel", 1, 1⟩)],
      [⟨"app", .empty, .root⟩], .ofList [(.root, dependentRoot.repoMapping)]⟩ := by
  rfl

/-- The lists of the tags agree with those of the lockfile, as the theorem says. -/
theorem reused_modules_dependency :
    ∃ u locked, dependentGraph.usagesOf depsId = some u ∧
      LockfileMode.update.decide depsId ⟨[]⟩ u.usages (some bareLockfile) =
        .ok (.reuse ⟨⟨[]⟩, .empty⟩) ∧
      bareLockfile.depGraph.usagesOf depsId = some locked ∧
      ((u.modules .empty).map (fun l => l.map ExtensionModule.declared) ==
        (locked.modules .empty).map (fun l => l.map ExtensionModule.declared)) = true := by
  obtain ⟨locked, there, -, tags, -⟩ := @reused_modules dependentGraph bareLockfile .update
    depsId ⟨[]⟩ ⟨⟨[]⟩, .empty⟩ _ dependentGraph_usagesOf rfl .empty
  exact ⟨_, locked, dependentGraph_usagesOf, rfl, there, tags (fun key member => by
    rw [List.mem_singleton.mp member]; rfl)⟩

/-- A new dependency changes what the extension sees, and its result is reused all the same. -/
theorem dependency_unseen :
    ¬ ∀ (l : Lockfile) (g : DepGraph) (mode : LockfileMode) (id : ExtensionId) (digest : Digest)
      (entry : LockedExtension) (u : ExtensionUsages) (classes : SortedSet String),
      g.usagesOf id = some u →
      mode.decide id digest u.usages (some l) = .ok (.reuse entry) →
      ∃ locked, l.depGraph.usagesOf id = some locked ∧
        (u.modules classes == locked.modules classes) = true := by
  intro transparent
  obtain ⟨locked, there, same⟩ := transparent bareLockfile dependentGraph .update depsId ⟨[]⟩
    ⟨⟨[]⟩, .empty⟩ _ .empty dependentGraph_usagesOf rfl
  have seen : bareLockfile.depGraph.usagesOf depsId = some
      ⟨depsId, "_main~deps", .ofList [(.root, .bare depsId ⟨"MODULE.bazel", 1, 1⟩)],
        [⟨"app", .empty, .root⟩], .ofList [(.root, bareRoot.repoMapping)]⟩ := by
    rfl
  rw [seen] at there
  cases there
  revert same
  decide

end Dependencies

end ExtensionLock
