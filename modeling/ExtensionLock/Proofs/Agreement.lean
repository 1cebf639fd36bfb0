import ExtensionLock.Lockfile.Basic
import ExtensionLock.Proofs.SortedMap

/-! Equality as the program tests it. The two zeros of floating point are equal and not the same, so
all data with attribute values is compared by a coarser relation than identity. The relation is an
equivalence throughout, and maps agree exactly when their lookups do. -/

namespace ExtensionLock

section Containers

variable {α : Type u} {β : Type v} [BEq α] [BEq β]

instance instPartialEquivBEqList [PartialEquivBEq α] : PartialEquivBEq (List α) where
  symm {a b} h := by
    induction a generalizing b with
    | nil => cases b with
      | nil => rfl
      | cons y b => cases h
    | cons x a ih => cases b with
      | nil => cases h
      | cons y b =>
        rw [List.cons_beq_cons, Bool.and_eq_true] at h ⊢
        exact ⟨PartialEquivBEq.symm h.1, ih h.2⟩
  trans {a b c} hab hbc := by
    induction a generalizing b c with
    | nil => cases b with
      | nil => exact hbc
      | cons y b => cases hab
    | cons x a ih => cases b with
      | nil => cases hab
      | cons y b => cases c with
        | nil => cases hbc
        | cons z c =>
          rw [List.cons_beq_cons, Bool.and_eq_true] at hab hbc ⊢
          exact ⟨PartialEquivBEq.trans hab.1 hbc.1, ih hab.2 hbc.2⟩

theorem pair_beq_iff {a b : α × β} :
    (a == b) = true ↔ (a.1 == b.1) = true ∧ (a.2 == b.2) = true := by
  change (a.1 == b.1 && a.2 == b.2) = true ↔ _
  exact Bool.and_eq_true_iff

instance instPartialEquivBEqProd [PartialEquivBEq α] [PartialEquivBEq β] :
    PartialEquivBEq (α × β) where
  symm h := by
    rw [pair_beq_iff] at h ⊢
    exact ⟨PartialEquivBEq.symm h.1, PartialEquivBEq.symm h.2⟩
  trans hab hbc := by
    rw [pair_beq_iff] at hab hbc ⊢
    exact ⟨PartialEquivBEq.trans hab.1 hbc.1, PartialEquivBEq.trans hab.2 hbc.2⟩

end Containers

namespace SortedMap

variable {κ : Type u} {ν : Type v} [Ord κ] [BEq κ] [BEq ν]

theorem beq_iff_entries {m n : SortedMap κ ν} :
    (m == n) = true ↔ (m.entries == n.entries) = true := Iff.rfl

instance [ReflBEq κ] [ReflBEq ν] : ReflBEq (SortedMap κ ν) where
  rfl := beq_iff_entries.mpr BEq.rfl

instance [PartialEquivBEq κ] [PartialEquivBEq ν] : PartialEquivBEq (SortedMap κ ν) where
  symm h := beq_iff_entries.mpr (PartialEquivBEq.symm (beq_iff_entries.mp h))
  trans hab hbc :=
    beq_iff_entries.mpr (PartialEquivBEq.trans (beq_iff_entries.mp hab) (beq_iff_entries.mp hbc))

instance [LawfulBEq κ] [LawfulBEq ν] : LawfulBEq (SortedMap κ ν) where
  eq_of_beq h := eq_of_entries (LawfulBEq.eq_of_beq (beq_iff_entries.mp h))

variable [LawfulBEq κ]

theorem lookup_beq_of_beq {l m : List (κ × ν)} (same : (l == m) = true) (key : κ) :
    (lookup key l == lookup key m) = true := by
  induction l generalizing m with
  | nil => cases m with
    | nil => rfl
    | cons head rest => cases same
  | cons head rest ih => cases m with
    | nil => cases same
    | cons other tail =>
      obtain ⟨k, v⟩ := head
      obtain ⟨j, w⟩ := other
      rw [List.cons_beq_cons, Bool.and_eq_true, pair_beq_iff] at same
      obtain ⟨⟨hk, hv⟩, hrest⟩ := same
      rw [beq_iff_eq] at hk
      cases hk
      simp only [lookup]
      split
      · exact hv
      · exact ih hrest

variable [Std.TransOrd κ] [Std.LawfulEqOrd κ]

omit [BEq κ] [BEq ν] [LawfulBEq κ] in
theorem lookup_before {l : List (κ × ν)} {key k : κ} {v : ν}
    (sorted : ((k, v) :: l).Pairwise (fun a b => compare a.1 b.1 = .lt))
    (before : compare key k ≠ .gt) : lookup key l = none := by
  obtain ⟨above, -⟩ := List.pairwise_cons.mp sorted
  cases found : lookup key l with
  | none => rfl
  | some w =>
    have less : compare k key = .lt := above (key, w) (mem_of_lookup found)
    exact absurd (Std.OrientedCmp.gt_of_lt less) before

omit [BEq κ] [LawfulBEq κ] in
theorem lookup_tails_beq {rest tail : List (κ × ν)} {k : κ} {v w : ν}
    (hl : ((k, v) :: rest).Pairwise (fun a b => compare a.1 b.1 = .lt))
    (hm : ((k, w) :: tail).Pairwise (fun a b => compare a.1 b.1 = .lt))
    (same : ∀ key, (lookup key ((k, v) :: rest) == lookup key ((k, w) :: tail)) = true) (key : κ) :
    (lookup key rest == lookup key tail) = true := by
  have h := same key
  simp only [lookup] at h
  split at h
  · rename_i at_k
    have first : compare key k ≠ .gt := by simp [at_k]
    rw [lookup_before hl first, lookup_before hm first]
    rfl
  · exact h

theorem beq_of_lookup_beq {l m : List (κ × ν)}
    (hl : l.Pairwise (fun a b => compare a.1 b.1 = .lt))
    (hm : m.Pairwise (fun a b => compare a.1 b.1 = .lt))
    (same : ∀ key, (lookup key l == lookup key m) = true) : (l == m) = true := by
  induction l generalizing m with
  | nil => cases m with
    | nil => rfl
    | cons other tail =>
      have h := same other.1
      simp [lookup] at h
  | cons head rest ih => cases m with
    | nil =>
      have h := same head.1
      simp [lookup] at h
    | cons other tail =>
      obtain ⟨k, v⟩ := head
      obtain ⟨j, w⟩ := other
      have here := same k
      have there := same j
      cases order : compare k j with
      | lt =>
        have apart : compare k j ≠ .eq := by simp [order]
        have gone : lookup k tail = none := lookup_before hm (by simp [order])
        simp [lookup, apart, gone] at here
      | gt =>
        have less : compare j k = .lt := Std.OrientedCmp.lt_of_gt order
        have gone : lookup j rest = none := lookup_before hl (by simp [less])
        simp [lookup, less, gone] at there
      | eq =>
        have eq : k = j := Std.compare_eq_iff_eq.mp order
        subst eq
        have value : (v == w) = true := by simpa [lookup] using here
        have tails : (rest == tail) = true := ih (List.pairwise_cons.mp hl).2
          (List.pairwise_cons.mp hm).2 (lookup_tails_beq hl hm same)
        rw [List.cons_beq_cons, Bool.and_eq_true, pair_beq_iff]
        exact ⟨⟨BEq.rfl, value⟩, tails⟩

theorem beq_iff_get? {m n : SortedMap κ ν} :
    (m == n) = true ↔ ∀ key, (m.get? key == n.get? key) = true :=
  ⟨lookup_beq_of_beq, beq_of_lookup_beq m.sorted n.sorted⟩

omit [Std.TransOrd κ] [Std.LawfulEqOrd κ] in
theorem keys_eq_of_beq {m n : SortedMap κ ν} (maps : (m == n) = true) : m.keys = n.keys := by
  have keys : ∀ l k : List (κ × ν), (l == k) = true → l.map Prod.fst = k.map Prod.fst := by
    intro l
    induction l with
    | nil =>
      intro k h
      cases k with
      | nil => rfl
      | cons f k => cases h
    | cons e l ih =>
      intro k h
      cases k with
      | nil => cases h
      | cons f k =>
        rw [List.cons_beq_cons, Bool.and_eq_true, pair_beq_iff, beq_iff_eq] at h
        rw [List.map_cons, List.map_cons, h.1.1, ih k h.2]
  exact keys m.entries n.entries (beq_iff_entries.mp maps)

theorem insert_beq_insert [DecidableEq κ] {m n : SortedMap κ ν} {v w : ν} (maps : (m == n) = true)
    (values : (v == w) = true) (key : κ) : (m.insert key v == n.insert key w) = true := by
  rw [beq_iff_get?] at maps ⊢
  intro k
  rw [get?_insert_eq, get?_insert_eq]
  split
  · exact values
  · exact maps k

end SortedMap

namespace Binary64

theorem same_refl (x : Binary64) : x.same x = true := by
  simp [same]

theorem same_symm {x y : Binary64} (h : x.same y = true) : y.same x = true := by
  simp only [same, Bool.or_eq_true, Bool.and_eq_true, beq_iff_eq] at h ⊢
  rcases h with ⟨hx, hy⟩ | rfl
  · exact Or.inl ⟨hy, hx⟩
  · exact Or.inr rfl

theorem same_trans {x y z : Binary64} (hxy : x.same y = true) (hyz : y.same z = true) :
    x.same z = true := by
  simp only [same, Bool.or_eq_true, Bool.and_eq_true, beq_iff_eq] at hxy hyz ⊢
  rcases hxy with ⟨hx, hy⟩ | rfl
  · rcases hyz with ⟨_, hz⟩ | rfl
    · exact Or.inl ⟨hx, hz⟩
    · exact Or.inl ⟨hx, hy⟩
  · exact hyz

end Binary64

instance : EquivBEq Number where
  rfl {a} := by
    cases a with
    | integer i => exact beq_self_eq_true i
    | float x => exact x.same_refl
  symm {a b} h := by
    cases a with
    | integer i => cases b with
      | integer j => exact (PartialEquivBEq.symm (h : (i == j) = true) : (j == i) = true)
      | float y => cases h
    | float x => cases b with
      | integer j => cases h
      | float y => exact Binary64.same_symm h
  trans {a b c} hab hbc := by
    cases a with
    | integer i => cases b with
      | integer j =>
        have eq : i = j := beq_iff_eq.mp (hab : (i == j) = true)
        exact eq ▸ hbc
      | float y => cases hab
    | float x => cases b with
      | integer j => cases hab
      | float y => cases c with
        | integer k => cases hbc
        | float z => exact Binary64.same_trans hab hbc

namespace Json

mutual

theorem same_refl : ∀ v : Json, same v v = true
  | .null => rfl
  | .bool b => beq_self_eq_true b
  | .number n => (BEq.rfl : (n == n) = true)
  | .string s => beq_self_eq_true s
  | .array items => sameItems_refl items
  | .object fields => sameFields_refl fields

theorem sameItems_refl : ∀ l : List Json, sameItems l l = true
  | [] => rfl
  | v :: rest => by rw [sameItems, same_refl v, sameItems_refl rest]; rfl

theorem sameFields_refl : ∀ l : List (String × Json), sameFields l l = true
  | [] => rfl
  | (k, v) :: rest => by
    rw [sameFields, same_refl v, sameFields_refl rest, beq_self_eq_true]; rfl

end

mutual

theorem same_symm : ∀ v w : Json, same v w = true → same w v = true
  | .null, w, h => by cases w <;> first | rfl | cases h
  | .bool a, w, h => by
    cases w with
    | bool b => exact (PartialEquivBEq.symm (h : (a == b) = true) : (b == a) = true)
    | _ => cases h
  | .number m, w, h => by
    cases w with
    | number n => exact (PartialEquivBEq.symm (h : (m == n) = true) : (n == m) = true)
    | _ => cases h
  | .string s, w, h => by
    cases w with
    | string t => exact (PartialEquivBEq.symm (h : (s == t) = true) : (t == s) = true)
    | _ => cases h
  | .array l, w, h => by
    cases w with
    | array m => exact sameItems_symm l m h
    | _ => cases h
  | .object l, w, h => by
    cases w with
    | object m => exact sameFields_symm l m h
    | _ => cases h

theorem sameItems_symm : ∀ l m : List Json, sameItems l m = true → sameItems m l = true
  | [], m, h => by cases m <;> first | rfl | cases h
  | v :: l, m, h => by
    cases m with
    | nil => cases h
    | cons w m =>
      rw [sameItems, Bool.and_eq_true] at h ⊢
      exact ⟨same_symm v w h.1, sameItems_symm l m h.2⟩

theorem sameFields_symm : ∀ l m : List (String × Json), sameFields l m = true →
    sameFields m l = true
  | [], m, h => by cases m <;> first | rfl | cases h
  | (k, v) :: l, m, h => by
    cases m with
    | nil => cases h
    | cons f m =>
      simp only [sameFields, Bool.and_eq_true, beq_iff_eq] at h ⊢
      exact ⟨⟨h.1.1.symm, same_symm v f.2 h.1.2⟩, sameFields_symm l m h.2⟩

end

mutual

theorem same_trans : ∀ u v w : Json, same u v = true → same v w = true → same u w = true
  | .null, v, w, huv, hvw => by
    cases v with
    | null => exact hvw
    | _ => cases huv
  | .bool a, v, w, huv, hvw => by
    cases v with
    | bool b => exact beq_iff_eq.mp (huv : (a == b) = true) ▸ hvw
    | _ => cases huv
  | .number m, v, w, huv, hvw => by
    cases v with
    | number n => cases w with
      | number p =>
        exact (PartialEquivBEq.trans (huv : (m == n) = true) (hvw : (n == p) = true) :
          (m == p) = true)
      | _ => cases hvw
    | _ => cases huv
  | .string s, v, w, huv, hvw => by
    cases v with
    | string t => exact beq_iff_eq.mp (huv : (s == t) = true) ▸ hvw
    | _ => cases huv
  | .array l, v, w, huv, hvw => by
    cases v with
    | array m => cases w with
      | array n => exact sameItems_trans l m n huv hvw
      | _ => cases hvw
    | _ => cases huv
  | .object l, v, w, huv, hvw => by
    cases v with
    | object m => cases w with
      | object n => exact sameFields_trans l m n huv hvw
      | _ => cases hvw
    | _ => cases huv

theorem sameItems_trans : ∀ l m n : List Json, sameItems l m = true → sameItems m n = true →
    sameItems l n = true
  | [], m, n, hlm, hmn => by
    cases m with
    | nil => exact hmn
    | cons v m => cases hlm
  | u :: l, m, n, hlm, hmn => by
    cases m with
    | nil => cases hlm
    | cons v m => cases n with
      | nil => cases hmn
      | cons w n =>
        rw [sameItems, Bool.and_eq_true] at hlm hmn ⊢
        exact ⟨same_trans u v w hlm.1 hmn.1, sameItems_trans l m n hlm.2 hmn.2⟩

theorem sameFields_trans : ∀ l m n : List (String × Json), sameFields l m = true →
    sameFields m n = true → sameFields l n = true
  | [], m, n, hlm, hmn => by
    cases m with
    | nil => exact hmn
    | cons f m => cases hlm
  | (k, u) :: l, m, n, hlm, hmn => by
    cases m with
    | nil => cases hlm
    | cons f m => cases n with
      | nil => cases hmn
      | cons g n =>
        simp only [sameFields, Bool.and_eq_true, beq_iff_eq] at hlm hmn ⊢
        exact ⟨⟨hlm.1.1.trans hmn.1.1, same_trans u f.2 g.2 hlm.1.2 hmn.1.2⟩,
          sameFields_trans l m n hlm.2 hmn.2⟩

end

end Json

instance : EquivBEq Json where
  rfl := Json.same_refl _
  symm := Json.same_symm _ _
  trans := Json.same_trans _ _ _

namespace Tag

theorem beq_iff {s t : Tag} : (s == t) = true ↔ s.tagName = t.tagName ∧
    (s.attributes == t.attributes) = true ∧ s.devDependency = t.devDependency ∧
    s.location = t.location := by
  cases s; cases t
  change instBEqTag.beq _ _ = true ↔ _
  simp only [instBEqTag.beq, Bool.and_eq_true, beq_iff_eq]

instance : EquivBEq Tag where
  rfl := beq_iff.mpr ⟨rfl, BEq.rfl, rfl, rfl⟩
  symm h := by
    obtain ⟨name, attributes, dev, location⟩ := beq_iff.mp h
    exact beq_iff.mpr ⟨name.symm, PartialEquivBEq.symm attributes, dev.symm, location.symm⟩
  trans h g := by
    obtain ⟨name, attributes, dev, location⟩ := beq_iff.mp h
    obtain ⟨name', attributes', dev', location'⟩ := beq_iff.mp g
    exact beq_iff.mpr ⟨name.trans name', PartialEquivBEq.trans attributes attributes',
      dev.trans dev', location.trans location'⟩

end Tag

namespace Usage

theorem beq_iff {u w : Usage} : (u == w) = true ↔ u.extensionId = w.extensionId ∧
    u.location = w.location ∧ u.imports = w.imports ∧ u.devImports = w.devImports ∧
    (u.tags == w.tags) = true := by
  cases u; cases w
  change instBEqUsage.beq _ _ = true ↔ _
  simp only [instBEqUsage.beq, Bool.and_eq_true, beq_iff_eq]

instance : EquivBEq Usage where
  rfl := beq_iff.mpr ⟨rfl, rfl, rfl, rfl, BEq.rfl⟩
  symm h := by
    obtain ⟨id, location, imports, dev, tags⟩ := beq_iff.mp h
    exact beq_iff.mpr
      ⟨id.symm, location.symm, imports.symm, dev.symm, PartialEquivBEq.symm tags⟩
  trans h g := by
    obtain ⟨id, location, imports, dev, tags⟩ := beq_iff.mp h
    obtain ⟨id', location', imports', dev', tags'⟩ := beq_iff.mp g
    exact beq_iff.mpr ⟨id.trans id', location.trans location', imports.trans imports',
      dev.trans dev', PartialEquivBEq.trans tags tags'⟩

end Usage

theorem Module.beq_iff {m n : Module} : (m == n) = true ↔ m.name = n.name ∧
    m.version = n.version ∧ m.key = n.key ∧ m.repoName = n.repoName ∧ m.deps = n.deps ∧
    (m.usages == n.usages) = true := by
  cases m; cases n
  change instBEqModule.beq _ _ = true ↔ _
  simp only [instBEqModule.beq, Bool.and_eq_true, beq_iff_eq]

instance : EquivBEq Module where
  rfl := Module.beq_iff.mpr ⟨rfl, rfl, rfl, rfl, rfl, BEq.rfl⟩
  symm h := by
    obtain ⟨name, version, key, repo, deps, usages⟩ := Module.beq_iff.mp h
    exact Module.beq_iff.mpr ⟨name.symm, version.symm, key.symm, repo.symm, deps.symm,
      PartialEquivBEq.symm usages⟩
  trans h g := by
    obtain ⟨name, version, key, repo, deps, usages⟩ := Module.beq_iff.mp h
    obtain ⟨name', version', key', repo', deps', usages'⟩ := Module.beq_iff.mp g
    exact Module.beq_iff.mpr ⟨name.trans name', version.trans version', key.trans key',
      repo.trans repo', deps.trans deps', PartialEquivBEq.trans usages usages'⟩

instance : ReflBEq RepoSpec where
  rfl {s} := by
    cases s
    change instBEqRepoSpec.beq _ _ = true
    simp only [instBEqRepoSpec.beq, BEq.rfl, Bool.and_self]

theorem LockedExtension.beq_iff {e f : LockedExtension} :
    (e == f) = true ↔ e.digest = f.digest ∧ (e.specs == f.specs) = true := by
  cases e; cases f
  change instBEqLockedExtension.beq _ _ = true ↔ _
  simp only [instBEqLockedExtension.beq, Bool.and_eq_true, beq_iff_eq]

instance : ReflBEq LockedExtension where
  rfl := LockedExtension.beq_iff.mpr ⟨rfl, BEq.rfl⟩

theorem Lockfile.beq_iff {l m : Lockfile} : (l == m) = true ↔ l.version = m.version ∧
    l.moduleFileHash = m.moduleFileHash ∧ l.flags = m.flags ∧
    l.overrideHashes = m.overrideHashes ∧ (l.depGraph == m.depGraph) = true ∧
    (l.extensions == m.extensions) = true := by
  cases l; cases m
  change instBEqLockfile.beq _ _ = true ↔ _
  simp only [instBEqLockfile.beq, Bool.and_eq_true, beq_iff_eq]

instance : ReflBEq Lockfile where
  rfl := Lockfile.beq_iff.mpr ⟨rfl, rfl, rfl, rfl, BEq.rfl, BEq.rfl⟩

end ExtensionLock
