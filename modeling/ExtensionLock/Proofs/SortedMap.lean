import ExtensionLock.SortedMap
import Mathlib.Data.List.Nodup

/-! A sorted map is determined by its lookups. Every operation is described by what it does to them,
and two maps with the same lookups are equal. -/

namespace ExtensionLock.SortedMap

variable {κ : Type u} {ν : Type v} {μ : Type w} [Ord κ] [Std.TransOrd κ] [Std.LawfulEqOrd κ]

theorem lookup_of_mem {l : List (κ × ν)} (sorted : l.Pairwise (fun a b => compare a.1 b.1 = .lt))
    {key : κ} {value : ν} (member : (key, value) ∈ l) : lookup key l = some value := by
  induction l with
  | nil => cases member
  | cons head rest ih =>
    obtain ⟨k, v⟩ := head
    obtain ⟨above, tail⟩ := List.pairwise_cons.mp sorted
    rcases List.mem_cons.mp member with here | there
    · cases here
      simp only [lookup, Std.ReflCmp.compare_self, if_true]
    · have less : compare k key = .lt := above (key, value) there
      have apart : compare key k ≠ .eq := by
        intro same
        rw [Std.OrientedCmp.eq_symm same] at less
        cases less
      simp only [lookup, if_neg apart]
      exact ih tail there

omit [Std.TransOrd κ] in
theorem mem_of_lookup {l : List (κ × ν)} {key : κ} {value : ν}
    (found : lookup key l = some value) : (key, value) ∈ l := by
  induction l with
  | nil => cases found
  | cons head rest ih =>
    obtain ⟨k, v⟩ := head
    simp only [lookup] at found
    split at found
    · rename_i same
      cases found
      rw [Std.compare_eq_iff_eq.mp same]
      exact List.mem_cons_self
    · exact List.mem_cons_of_mem _ (ih found)

theorem get?_eq_some_iff {m : SortedMap κ ν} {key : κ} {value : ν} :
    m.get? key = some value ↔ (key, value) ∈ m.entries :=
  ⟨mem_of_lookup, lookup_of_mem m.sorted⟩

theorem mem_entries_iff {m : SortedMap κ ν} {e : κ × ν} :
    e ∈ m.entries ↔ m.get? e.1 = some e.2 := get?_eq_some_iff.symm

theorem get?_eq_none_iff {m : SortedMap κ ν} {key : κ} :
    m.get? key = none ↔ key ∉ m.keys := by
  rw [Option.eq_none_iff_forall_ne_some]
  simp only [keys, List.mem_map, not_exists, not_and, ne_eq, get?_eq_some_iff]
  constructor
  · intro h e he same
    exact h e.2 (same ▸ he)
  · intro h v hv
    exact h (key, v) hv rfl

theorem contains_iff {m : SortedMap κ ν} {key : κ} : m.contains key = true ↔ key ∈ m.keys := by
  rw [contains, Option.isSome_iff_ne_none, ne_eq, get?_eq_none_iff, Classical.not_not]

omit [Std.LawfulEqOrd κ] in
theorem keys_nodup (m : SortedMap κ ν) : m.keys.Nodup := by
  apply List.pairwise_map.mpr
  apply m.sorted.imp
  intro a b less same
  have equal : compare a.1 b.1 = .eq := same ▸ Std.ReflCmp.compare_self
  rw [less] at equal
  cases equal

omit [Std.TransOrd κ] [Std.LawfulEqOrd κ] in
theorem eq_of_entries {m n : SortedMap κ ν} (h : m.entries = n.entries) : m = n := by
  cases m
  cases n
  cases h
  rfl

omit [Std.LawfulEqOrd κ] in
theorem eq_of_mem_iff {m n : SortedMap κ ν} (h : ∀ e, e ∈ m.entries ↔ e ∈ n.entries) : m = n := by
  apply eq_of_entries
  have nodup : ∀ p : SortedMap κ ν, p.entries.Nodup := fun p =>
    List.Nodup.of_map Prod.fst p.keys_nodup
  refine List.Perm.eq_of_pairwise ?_ m.sorted n.sorted ?_
  · intro a b _ _ less more
    have swapped : compare a.1 b.1 = .gt := Std.OrientedCmp.gt_of_lt more
    rw [less] at swapped
    cases swapped
  · exact (List.perm_ext_iff_of_nodup (nodup m) (nodup n)).mpr h

theorem ext_get? {m n : SortedMap κ ν} (h : ∀ k, m.get? k = n.get? k) : m = n := by
  apply eq_of_mem_iff
  intro e
  rw [mem_entries_iff, mem_entries_iff, h]

theorem get?_insert_eq [DecidableEq κ] (m : SortedMap κ ν) (key other : κ) (value : ν) :
    (m.insert key value).get? other = if other = key then some value else m.get? other := by
  rw [get?_insert]
  by_cases h : other = key
  · rw [if_pos h, if_pos (Std.compare_eq_iff_eq.mpr h)]
  · rw [if_neg h, if_neg (fun same => h (Std.compare_eq_iff_eq.mp same))]

theorem mem_keys_insert [DecidableEq κ] {m : SortedMap κ ν} {key other : κ} {value : ν} :
    other ∈ (m.insert key value).keys ↔ other = key ∨ other ∈ m.keys := by
  rw [← contains_iff, ← contains_iff, contains, contains, get?_insert_eq]
  by_cases same : other = key
  · simp only [same, if_true, Option.isSome_some, true_or]
  · simp only [same, if_false, false_or]

theorem get?_filter (m : SortedMap κ ν) (keep : κ → ν → Bool) (key : κ) :
    (m.filter keep).get? key = (m.get? key).filter (keep key) := by
  apply Option.ext
  intro v
  rw [get?_eq_some_iff, Option.filter_eq_some_iff, get?_eq_some_iff]
  simp only [filter, List.mem_filter]

omit [Std.TransOrd κ] [Std.LawfulEqOrd κ] in
theorem mem_keys_filter {m : SortedMap κ ν} {keep : κ → Bool} {key : κ} :
    key ∈ (m.filter (fun k _ => keep k)).keys ↔ key ∈ m.keys ∧ keep key = true := by
  simp only [keys, filter, List.mem_map, List.mem_filter]
  constructor
  · rintro ⟨e, ⟨member, kept⟩, rfl⟩
    exact ⟨⟨e, member, rfl⟩, kept⟩
  · rintro ⟨⟨e, member, rfl⟩, kept⟩
    exact ⟨e, ⟨member, kept⟩, rfl⟩

omit [Std.TransOrd κ] [Std.LawfulEqOrd κ] in
theorem keys_mapValues {m : SortedMap κ ν} {f : κ → ν → μ} : (m.mapValues f).keys = m.keys := by
  rw [keys, mapValues, List.map_map]
  rfl

theorem get?_mapValues (m : SortedMap κ ν) (f : κ → ν → μ) (key : κ) :
    (m.mapValues f).get? key = (m.get? key).map (f key) := by
  apply Option.ext
  intro v
  rw [get?_eq_some_iff, Option.map_eq_some_iff]
  simp only [mapValues, List.mem_map, get?_eq_some_iff, Prod.mk.injEq]
  constructor
  · rintro ⟨e, he, rfl, rfl⟩
    exact ⟨e.2, he, rfl⟩
  · rintro ⟨a, ha, rfl⟩
    exact ⟨(key, a), ha, rfl, rfl⟩

theorem get?_insertAll [DecidableEq κ] (m : SortedMap κ ν) (l : List (κ × ν)) (key : κ) :
    (m.insertAll l).get? key =
      ((l.reverse.find? (fun e => e.1 = key)).map Prod.snd).or (m.get? key) := by
  induction l generalizing m with
  | nil => rfl
  | cons e rest ih =>
    have step : m.insertAll (e :: rest) = (m.insert e.1 e.2).insertAll rest := rfl
    rw [step, ih, get?_insert_eq, List.reverse_cons, List.find?_append]
    cases List.find? (fun e => decide (e.1 = key)) rest.reverse with
    | some found => rfl
    | none =>
      by_cases h : key = e.1
      · simp [h]
      · simp [h, Ne.symm h]

omit [Std.LawfulEqOrd κ] in
theorem insertAll_append (m : SortedMap κ ν) (l l' : List (κ × ν)) :
    m.insertAll (l ++ l') = (m.insertAll l).insertAll l' := List.foldl_append ..

theorem find?_reverse_entries [DecidableEq κ] (m : SortedMap κ ν) (key : κ) :
    ((m.entries.reverse.find? (fun e => e.1 = key)).map Prod.snd) = m.get? key := by
  cases found : m.entries.reverse.find? (fun e => e.1 = key) with
  | some e =>
    have member := List.mem_reverse.mp (List.mem_of_find?_eq_some found)
    have same : e.1 = key := by simpa using List.find?_some found
    rw [Option.map_some, ← same]
    exact (mem_entries_iff.mp member).symm
  | none =>
    have absent : key ∉ m.keys := by
      intro h
      obtain ⟨e, he, hk⟩ := List.mem_map.mp h
      have no := List.find?_eq_none.mp found e (List.mem_reverse.mpr he)
      exact no (decide_eq_true hk)
    rw [Option.map_none, get?_eq_none_iff.mpr absent]

theorem get?_insertAll_entries [DecidableEq κ] (m n : SortedMap κ ν) (key : κ) :
    (m.insertAll n.entries).get? key = (n.get? key).or (m.get? key) := by
  rw [get?_insertAll, find?_reverse_entries]

theorem mem_keys_ofList [DecidableEq κ] {l : List (κ × ν)} {key : κ} :
    key ∈ (ofList l).keys ↔ key ∈ l.map Prod.fst := by
  rw [← Classical.not_not (a := key ∈ (ofList l).keys), ← get?_eq_none_iff, ofList, get?_insertAll,
    get?_empty, Option.or_none, Option.map_eq_none_iff, List.find?_eq_none]
  simp only [List.mem_reverse, decide_eq_true_eq, List.mem_map]
  constructor
  · intro h
    obtain ⟨e, h⟩ := Classical.not_forall.mp h
    obtain ⟨he, hk⟩ := Classical.not_imp.mp h
    exact ⟨e, he, Classical.not_not.mp hk⟩
  · rintro ⟨e, he, hk⟩ h
    exact h e he hk

theorem mem_of_mem_ofList [DecidableEq κ] {l : List (κ × ν)} {e : κ × ν}
    (member : e ∈ (ofList l).entries) : e ∈ l := by
  rw [mem_entries_iff, ofList, get?_insertAll, get?_empty, Option.or_none] at member
  obtain ⟨f, found, value⟩ := Option.map_eq_some_iff.mp member
  have key : f.1 = e.1 := by simpa using List.find?_some found
  have same : f = e := Prod.ext key value
  exact same ▸ List.mem_reverse.mp (List.mem_of_find?_eq_some found)

theorem mem_ofList [DecidableEq κ] {l : List (κ × ν)} (nodup : (l.map Prod.fst).Nodup)
    {e : κ × ν} : e ∈ (ofList l).entries ↔ e ∈ l := by
  refine ⟨mem_of_mem_ofList, fun h => ?_⟩
  rw [mem_entries_iff, ofList, get?_insertAll, get?_empty, Option.or_none]
  cases found : l.reverse.find? (fun f => f.1 = e.1) with
  | none =>
    have no := List.find?_eq_none.mp found e (List.mem_reverse.mpr h)
    exact absurd (decide_eq_true rfl) no
  | some f =>
    have member := List.mem_reverse.mp (List.mem_of_find?_eq_some found)
    have same : f.1 = e.1 := by simpa using List.find?_some found
    have eq : f = e := List.inj_on_of_nodup_map nodup member h same
    rw [eq, Option.map_some]

theorem ofList_of_mem_iff [DecidableEq κ] {l : List (κ × ν)} {m : SortedMap κ ν}
    (nodup : (l.map Prod.fst).Nodup) (same : ∀ e, e ∈ l ↔ e ∈ m.entries) : ofList l = m :=
  eq_of_mem_iff (fun e => (mem_ofList nodup).trans (same e))

omit [Std.TransOrd κ] [Std.LawfulEqOrd κ] in
theorem getD_of_get? {m : SortedMap κ ν} {key : κ} {value fallback : ν}
    (found : m.get? key = some value) : m.getD key fallback = value := by
  rw [getD, found, Option.getD_some]

theorem ofList_getD [DecidableEq κ] {m : SortedMap κ ν} {l : List κ} (nodup : l.Nodup)
    (keys : ∀ key, m.contains key = true ↔ key ∈ l) (fallback : ν) :
    ofList (l.map (fun key => (key, m.getD key fallback))) = m := by
  apply ofList_of_mem_iff
  · rw [List.map_map]
    exact (List.map_id l).symm ▸ nodup
  · intro e
    rw [mem_entries_iff, List.mem_map]
    constructor
    · rintro ⟨key, member, rfl⟩
      obtain ⟨value, found⟩ := Option.isSome_iff_exists.mp ((keys key).mpr member)
      dsimp only
      rw [getD_of_get? found]
      exact found
    · intro found
      refine ⟨e.1, (keys e.1).mp (Option.isSome_iff_exists.mpr ⟨e.2, found⟩), ?_⟩
      rw [getD_of_get? found]

theorem ofList_entries [DecidableEq κ] (m : SortedMap κ ν) : ofList m.entries = m :=
  ofList_of_mem_iff m.keys_nodup (fun _ => Iff.rfl)

end ExtensionLock.SortedMap

namespace ExtensionLock.SortedSet

variable {κ : Type u} [Ord κ] [Std.TransOrd κ] [Std.LawfulEqOrd κ] [DecidableEq κ]

theorem mem_toList_ofList {l : List κ} {key : κ} : key ∈ (ofList l).toList ↔ key ∈ l := by
  rw [toList, ofList, SortedMap.mem_keys_ofList]
  simp only [List.map_map, List.mem_map, Function.comp_apply, exists_eq_right]

omit [Std.TransOrd κ] [Std.LawfulEqOrd κ] [DecidableEq κ] in
theorem toList_sorted (s : SortedSet κ) : s.toList.Pairwise (fun a b => compare a b = .lt) :=
  List.pairwise_map.mpr s.sorted

omit [Std.LawfulEqOrd κ] [DecidableEq κ] in
theorem toList_nodup (s : SortedSet κ) : s.toList.Nodup := SortedMap.keys_nodup s

omit [DecidableEq κ] in
theorem contains_iff {s : SortedSet κ} {key : κ} : s.contains key = true ↔ key ∈ s.toList :=
  SortedMap.contains_iff

omit [Std.TransOrd κ] [Std.LawfulEqOrd κ] [DecidableEq κ] in
theorem isEmpty_iff {s : SortedSet κ} : SortedMap.isEmpty s = true ↔ ∀ key, key ∉ s.toList := by
  rw [SortedMap.isEmpty, List.isEmpty_iff, toList, SortedMap.keys, ← List.map_eq_nil_iff,
    List.eq_nil_iff_forall_not_mem]

theorem mem_toList_union {s t : SortedSet κ} {key : κ} :
    key ∈ (s.union t).toList ↔ key ∈ s.toList ∨ key ∈ t.toList := by
  rw [← contains_iff, ← contains_iff, ← contains_iff, contains, contains, contains,
    SortedMap.contains, union, SortedMap.get?_insertAll_entries, Option.isSome_or, Bool.or_eq_true,
    or_comm]
  rfl

omit [DecidableEq κ] in
theorem mem_toList_inter {s t : SortedSet κ} {key : κ} :
    key ∈ (s.inter t).toList ↔ key ∈ s.toList ∧ key ∈ t.toList := by
  rw [inter, toList, SortedMap.mem_keys_filter, SortedMap.contains_iff]
  rfl

omit [DecidableEq κ] in
theorem mem_toList_diff {s t : SortedSet κ} {key : κ} :
    key ∈ (s.diff t).toList ↔ key ∈ s.toList ∧ key ∉ t.toList := by
  rw [diff, toList, SortedMap.mem_keys_filter, Bool.not_eq_true', ← Bool.not_eq_true,
    SortedMap.contains_iff]
  rfl

theorem ofList_congr {l l' : List κ} (same : ∀ key, key ∈ l ↔ key ∈ l') :
    ofList l = ofList l' := by
  have shown (l : List κ) (e : κ × Unit) : e ∈ (ofList l).entries ↔ e.1 ∈ l := by
    refine Iff.trans ?_ mem_toList_ofList
    rw [toList, SortedMap.keys, List.mem_map]
    constructor
    · exact fun member => ⟨e, member, rfl⟩
    · rintro ⟨f, member, key⟩
      exact (Prod.ext key rfl : f = e) ▸ member
  apply SortedMap.eq_of_mem_iff
  intro e
  rw [shown, shown, same]

theorem eq_toList_ofList {l l' : List κ} (sorted : l.Pairwise (fun a b => compare a b = .lt))
    (same : ∀ key, key ∈ l ↔ key ∈ l') : l = (ofList l').toList := by
  let s : SortedSet κ := ⟨l.map (fun key => (key, ())), List.pairwise_map.mpr sorted⟩
  have listed : s.toList = l := by
    rw [toList, SortedMap.keys, List.map_map]
    exact List.map_id l
  have made : ofList l = s := SortedMap.ofList_entries s
  rw [← ofList_congr same, made, listed]

end ExtensionLock.SortedSet
