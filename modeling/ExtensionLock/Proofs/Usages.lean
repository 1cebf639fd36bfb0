import ExtensionLock.Imports
import ExtensionLock.Proofs.Agreement

/-! Grouping usages. What a grouped graph shows under an extension and a module is exactly what that
module declares about the extension, graphs that agree are grouped alike, and only a usage that is
declared twice keeps a graph from being grouped. -/

namespace ExtensionLock

instance instBEqExcept [BEq ε] [BEq α] : BEq (Except ε α) where
  beq
    | .ok a, .ok b => a == b
    | .error e, .error f => e == f
    | _, _ => false

theorem ok_beq_iff [BEq ε] [BEq α] {a : α} {r : Except ε α} :
    (Except.ok a == r) = true ↔ ∃ b, r = .ok b ∧ (a == b) = true := by
  cases r with
  | error e =>
    constructor
    · intro h
      cases h
    · rintro ⟨b, h, -⟩
      cases h
  | ok b =>
    constructor
    · intro h
      exact ⟨b, rfl, h⟩
    · rintro ⟨c, h, same⟩
      cases h
      exact same

theorem foldlM_beq [BEq ε] [BEq α] [BEq β] {f : β → α → Except ε β}
    (step : ∀ b c x y, (b == c) = true → (x == y) = true → (f b x == f c y) = true)
    {l m : List α} (items : (l == m) = true) {b c : β} (start : (b == c) = true) :
    (l.foldlM f b == m.foldlM f c) = true := by
  induction l generalizing m b c with
  | nil => cases m with
    | nil => exact start
    | cons y m => cases items
  | cons x l ih => cases m with
    | nil => cases items
    | cons y m =>
      rw [List.cons_beq_cons, Bool.and_eq_true] at items
      have first := step b c x y start items.1
      simp only [List.foldlM_cons]
      cases hf : f b x with
      | error e => cases hg : f c y with
        | error e' => rw [hf, hg] at first; exact first
        | ok c' => rw [hf, hg] at first; cases first
      | ok b' => cases hg : f c y with
        | error e' => rw [hf, hg] at first; cases first
        | ok c' =>
          rw [hf, hg] at first
          exact ih items.2 first

namespace SortedMap

variable {κ : Type u} {ν : Type v} [Ord κ] [BEq κ] [LawfulBEq κ] [BEq ν]

theorem get?_beq {m n : SortedMap κ ν} (maps : (m == n) = true) (key : κ) :
    (m.get? key == n.get? key) = true := lookup_beq_of_beq maps key

theorem getD_beq {m n : SortedMap κ ν} (maps : (m == n) = true) {v w : ν}
    (fallback : (v == w) = true) (key : κ) : (m.getD key v == n.getD key w) = true := by
  have h := get?_beq maps key
  unfold getD
  cases hm : m.get? key with
  | none => cases hn : n.get? key with
    | none => exact fallback
    | some b => rw [hm, hn] at h; cases h
  | some a => cases hn : n.get? key with
    | none => rw [hm, hn] at h; cases h
    | some b => rw [hm, hn] at h; exact h

end SortedMap

namespace DepGraph

theorem addUsage_beq {key : ModuleKey} {x y : UsagesById} {u w : Usage} (maps : (x == y) = true)
    (usages : (u == w) = true) : (addUsage key x u == addUsage key y w) = true := by
  obtain ⟨id, location, -⟩ := Usage.beq_iff.mp usages
  have perModule : (x.getD u.extensionId .empty == y.getD w.extensionId .empty) = true := by
    rw [id]
    exact SortedMap.getD_beq maps BEq.rfl _
  have earlier := SortedMap.get?_beq perModule key
  simp only [addUsage]
  cases hx : (x.getD u.extensionId .empty).get? key with
  | none => cases hy : (y.getD w.extensionId .empty).get? key with
    | none =>
      rw [id] at perModule ⊢
      exact SortedMap.insert_beq_insert maps (SortedMap.insert_beq_insert perModule usages key) _
    | some b => rw [hx, hy] at earlier; cases earlier
  | some a => cases hy : (y.getD w.extensionId .empty).get? key with
    | none => rw [hx, hy] at earlier; cases earlier
    | some b =>
      rw [hx, hy] at earlier
      obtain ⟨-, before, -⟩ := Usage.beq_iff.mp earlier
      simp only [id, before, location]
      exact beq_self_eq_true (⟨key, w.extensionId, b.location, w.location⟩ : DuplicateUsage)

end DepGraph

namespace DepGraph

theorem usagesById_beq {g h : DepGraph} (same : (g == h) = true) :
    (g.usagesById == h.usagesById) = true := by
  apply foldlM_beq _ (SortedMap.beq_iff_entries.mp same) BEq.rfl
  intro b c x y maps entries
  obtain ⟨keys, modules⟩ := pair_beq_iff.mp entries
  rw [beq_iff_eq] at keys
  rw [keys]
  exact foldlM_beq (fun _ _ _ _ => addUsage_beq) (Module.beq_iff.mp modules).2.2.2.2.2 maps

def declared (g : DepGraph) : List (ModuleKey × Usage) :=
  g.entries.flatMap (fun e => e.2.usages.map (fun u => (e.1, u)))

theorem usagesById_eq (g : DepGraph) :
    g.usagesById = g.declared.foldlM (fun byId p => addUsage p.1 byId p.2) .empty := by
  have flat : ∀ (l : List (ModuleKey × Module)) (x : UsagesById),
      l.foldlM (fun byId e => e.2.usages.foldlM (addUsage e.1) byId) x =
        (l.flatMap (fun e => e.2.usages.map (fun u => (e.1, u)))).foldlM
          (fun byId p => addUsage p.1 byId p.2) x := by
    intro l
    induction l with
    | nil => intro x; rfl
    | cons e l ih =>
      intro x
      simp only [List.foldlM_cons, List.flatMap_cons, List.foldlM_append, List.foldlM_map]
      congr 1
      funext y
      exact ih y
  exact flat g.entries .empty

/-- A grouping shows the pairs of a list and nothing else, and no extension without usages. -/
structure Groups (x : UsagesById) (l : List (ModuleKey × Usage)) : Prop where
  shown : ∀ id key u, (x.getD id .empty).get? key = some u ↔ (key, u) ∈ l ∧ u.extensionId = id
  inhabited : ∀ id us, x.get? id = some us → ∃ key u, us.get? key = some u

theorem groups_empty : Groups .empty [] := by
  constructor
  · intro id key u
    constructor
    · intro h
      cases h
    · rintro ⟨h, -⟩
      cases h
  · intro id us h
    cases h

theorem addUsage_eq_ok {x y : UsagesById} {key : ModuleKey} {u : Usage} :
    addUsage key x u = .ok y ↔ (x.getD u.extensionId .empty).get? key = none ∧
      y = x.insert u.extensionId ((x.getD u.extensionId .empty).insert key u) := by
  simp only [addUsage]
  cases (x.getD u.extensionId .empty).get? key with
  | some earlier => exact ⟨fun h => (by cases h), fun h => (by cases h.1)⟩
  | none => exact ⟨fun h => (by cases h; exact ⟨rfl, rfl⟩), fun h => (by rw [h.2])⟩

theorem addUsage_get? {x y : UsagesById} {key : ModuleKey} {u : Usage}
    (added : addUsage key x u = .ok y) (id : ExtensionId) (k : ModuleKey) :
    (y.getD id .empty).get? k =
      if id = u.extensionId ∧ k = key then some u else (x.getD id .empty).get? k := by
  obtain ⟨-, rfl⟩ := addUsage_eq_ok.mp added
  rw [SortedMap.getD, SortedMap.get?_insert_eq]
  by_cases hid : id = u.extensionId
  · subst hid
    rw [if_pos rfl, Option.getD_some, SortedMap.get?_insert_eq]
    simp only [true_and]
  · rw [if_neg hid, if_neg (fun h => hid h.1)]
    rfl

theorem groups_addUsage {x y : UsagesById} {l : List (ModuleKey × Usage)} {key : ModuleKey}
    {u : Usage} (before : Groups x l) (added : addUsage key x u = .ok y) :
    Groups y (l ++ [(key, u)]) := by
  obtain ⟨free, made⟩ := addUsage_eq_ok.mp added
  constructor
  · intro id k w
    rw [addUsage_get? added, List.mem_append, List.mem_singleton, Prod.mk.injEq]
    split
    · rename_i here
      obtain ⟨rfl, rfl⟩ := here
      constructor
      · intro h
        cases h
        exact ⟨Or.inr ⟨rfl, rfl⟩, rfl⟩
      · rintro ⟨old | ⟨-, rfl⟩, same⟩
        · have taken := (before.shown _ _ _).mpr ⟨old, same⟩
          rw [free] at taken
          cases taken
        · rfl
    · rename_i other
      rw [before.shown]
      constructor
      · rintro ⟨old, same⟩
        exact ⟨Or.inl old, same⟩
      · rintro ⟨old | ⟨rfl, rfl⟩, same⟩
        · exact ⟨old, same⟩
        · exact absurd ⟨same.symm, rfl⟩ other
  · intro id us h
    rw [made, SortedMap.get?_insert_eq] at h
    split at h
    · cases h
      refine ⟨key, u, ?_⟩
      rw [SortedMap.get?_insert_eq, if_pos rfl]
    · exact before.inhabited id us h

theorem groups_foldlM {l done : List (ModuleKey × Usage)} {x y : UsagesById}
    (before : Groups x done)
    (run : l.foldlM (fun byId p => addUsage p.1 byId p.2) x = .ok y) : Groups y (done ++ l) := by
  induction l generalizing x done with
  | nil =>
    cases run
    rw [List.append_nil]
    exact before
  | cons p l ih =>
    rw [List.foldlM_cons] at run
    cases step : addUsage p.1 x p.2 with
    | error e => rw [step] at run; cases run
    | ok z =>
      rw [step] at run
      have next := ih (groups_addUsage before step) run
      rwa [List.append_assoc] at next

theorem usagesById_groups {g : DepGraph} {x : UsagesById} (grouped : g.usagesById = .ok x) :
    Groups x g.declared := by
  rw [usagesById_eq] at grouped
  exact groups_foldlM groups_empty grouped

/-- No module of a graph declares anything about one extension twice. -/
def Distinct (g : DepGraph) : Prop :=
  ∀ e ∈ g.entries, (e.2.usages.map Usage.extensionId).Nodup

def usage? (g : DepGraph) (id : ExtensionId) (key : ModuleKey) : Option Usage :=
  (g.get? key).bind (fun m => m.usages.find? (fun u => u.extensionId = id))

def slot (p : ModuleKey × Usage) : ModuleKey × ExtensionId := (p.1, p.2.extensionId)

theorem distinct_iff_slots {g : DepGraph} : g.Distinct ↔ (g.declared.map slot).Nodup := by
  have slots : g.declared.map slot = g.entries.flatMap
      (fun e => (e.2.usages.map Usage.extensionId).map (fun id => (e.1, id))) := by
    simp only [declared, List.map_flatMap, List.map_map, Function.comp_def, slot]
  have apart : g.entries.Pairwise (Function.onFun List.Disjoint
      (fun e => (e.2.usages.map Usage.extensionId).map (fun id => (e.1, id)))) := by
    refine (List.pairwise_map.mp g.keys_nodup).imp ?_
    intro e f other p inside inside'
    obtain ⟨_, -, rfl⟩ := List.mem_map.mp inside
    obtain ⟨_, -, same⟩ := List.mem_map.mp inside'
    exact other (congrArg Prod.fst same).symm
  rw [slots, List.nodup_flatMap, and_iff_left apart]
  refine forall₂_congr (fun e _ => ?_)
  exact (List.nodup_map_iff (fun _ _ same => congrArg Prod.snd same)).symm

theorem Groups.slot_mem_iff {x : UsagesById} {l : List (ModuleKey × Usage)} (groups : Groups x l)
    {p : ModuleKey × Usage} :
    slot p ∈ l.map slot ↔ (x.getD p.2.extensionId .empty).get? p.1 ≠ none := by
  rw [List.mem_map, Option.ne_none_iff_exists']
  constructor
  · rintro ⟨q, member, same⟩
    obtain ⟨key, id⟩ := Prod.mk.inj same
    exact ⟨q.2, (groups.shown _ _ _).mpr ⟨key ▸ member, id⟩⟩
  · rintro ⟨u, shown⟩
    obtain ⟨member, id⟩ := (groups.shown _ _ _).mp shown
    exact ⟨(p.1, u), member, Prod.ext rfl id⟩

theorem exists_foldlM_iff {l done : List (ModuleKey × Usage)} {x : UsagesById}
    (before : Groups x done) (fresh : (done.map slot).Nodup) :
    (∃ y, l.foldlM (fun byId p => addUsage p.1 byId p.2) x = .ok y) ↔
      ((done ++ l).map slot).Nodup := by
  induction l generalizing x done with
  | nil =>
    rw [List.append_nil]
    exact ⟨fun _ => fresh, fun _ => ⟨x, rfl⟩⟩
  | cons p l ih =>
    rw [List.foldlM_cons]
    by_cases taken : slot p ∈ done.map slot
    · have refused : ¬ ∃ z, addUsage p.1 x p.2 = .ok z := fun ⟨z, added⟩ =>
        before.slot_mem_iff.mp taken (addUsage_eq_ok.mp added).1
      have twice : ¬ ((done ++ p :: l).map slot).Nodup := by
        intro once
        rw [List.map_append, List.map_cons, List.nodup_append] at once
        exact once.2.2 _ taken _ List.mem_cons_self rfl
      cases added : addUsage p.1 x p.2 with
      | ok z => exact absurd ⟨z, added⟩ refused
      | error e => exact iff_of_false (fun ⟨_, h⟩ => (by cases h)) twice
    · have free := Classical.not_not.mp (mt before.slot_mem_iff.mpr taken)
      have added := addUsage_eq_ok.mpr ⟨free, rfl⟩
      have fresh' : ((done ++ [p]).map slot).Nodup := by
        rw [List.map_append, List.map_singleton, ← List.concat_eq_append]
        exact fresh.concat taken
      rw [added]
      have rest := ih (groups_addUsage before added) fresh'
      rwa [List.append_assoc] at rest

theorem exists_usagesById_iff {g : DepGraph} : (∃ x, g.usagesById = .ok x) ↔ g.Distinct := by
  rw [usagesById_eq, exists_foldlM_iff groups_empty List.nodup_nil, List.nil_append,
    distinct_iff_slots]

theorem find?_eq_some_iff_mem [DecidableEq β] {f : α → β} {l : List α} (once : (l.map f).Nodup)
    {b : β} {a : α} : l.find? (fun a => f a = b) = some a ↔ a ∈ l ∧ f a = b := by
  constructor
  · intro found
    exact ⟨List.mem_of_find?_eq_some found, by simpa using List.find?_some found⟩
  · rintro ⟨member, rfl⟩
    cases found : l.find? (fun a' => f a' = f a) with
    | none => exact absurd (decide_eq_true rfl) (List.find?_eq_none.mp found a member)
    | some a' =>
      have same : f a' = f a := by simpa using List.find?_some found
      rw [List.inj_on_of_nodup_map once (List.mem_of_find?_eq_some found) member same]

theorem getD_get?_eq_usage? {g : DepGraph} {x : UsagesById} (grouped : g.usagesById = .ok x)
    (id : ExtensionId) (key : ModuleKey) : (x.getD id .empty).get? key = g.usage? id key := by
  have distinct : g.Distinct := exists_usagesById_iff.mp ⟨x, grouped⟩
  apply Option.ext
  intro u
  rw [(usagesById_groups grouped).shown, declared, usage?, Option.bind_eq_some_iff]
  simp only [List.mem_flatMap, List.mem_map, Prod.mk.injEq]
  constructor
  · rintro ⟨⟨e, member, w, inside, rfl, rfl⟩, same⟩
    exact ⟨e.2, SortedMap.mem_entries_iff.mp member,
      (find?_eq_some_iff_mem (distinct e member)).mpr ⟨inside, same⟩⟩
  · rintro ⟨m, here, found⟩
    have member := SortedMap.get?_eq_some_iff.mp here
    obtain ⟨inside, same⟩ := (find?_eq_some_iff_mem (distinct _ member)).mp found
    exact ⟨⟨(key, m), member, u, inside, rfl, rfl⟩, same⟩

end DepGraph

end ExtensionLock
