/-! Finite maps kept as lists strictly sorted by key, and finite sets as their keys.
The list is determined by what the map holds, so two maps with the same lookups are equal,
and walking a map always follows the order of its keys. -/

namespace ExtensionLock

/-- A finite map; the entries are strictly sorted, so every key occurs once. -/
structure SortedMap (κ : Type u) (ν : Type v) [Ord κ] where
  entries : List (κ × ν)
  sorted : entries.Pairwise (fun a b => compare a.1 b.1 = .lt)

abbrev SortedSet (κ : Type u) [Ord κ] := SortedMap κ Unit

namespace SortedMap

variable {κ : Type u} {ν : Type v} {μ : Type w} [Ord κ]

def lookup (key : κ) : List (κ × ν) → Option ν
  | [] => none
  | (k, v) :: rest => if compare key k = .eq then some v else lookup key rest

def insertEntry (key : κ) (value : ν) : List (κ × ν) → List (κ × ν)
  | [] => [(key, value)]
  | (k, v) :: rest =>
    match compare key k with
    | .lt => (key, value) :: (k, v) :: rest
    | .eq => (key, value) :: rest
    | .gt => (k, v) :: insertEntry key value rest

theorem mem_insertEntry {key : κ} {value : ν} {l : List (κ × ν)} {e : κ × ν}
    (h : e ∈ insertEntry key value l) : e = (key, value) ∨ e ∈ l := by
  induction l with
  | nil => simpa [insertEntry] using h
  | cons head tail ih =>
    obtain ⟨k, v⟩ := head
    simp only [insertEntry] at h
    split at h
    · simpa using h
    · rcases List.mem_cons.1 h with h | h
      · exact Or.inl h
      · exact Or.inr (List.mem_cons_of_mem _ h)
    · rcases List.mem_cons.1 h with h | h
      · exact Or.inr (h ▸ List.mem_cons_self)
      · rcases ih h with h | h
        · exact Or.inl h
        · exact Or.inr (List.mem_cons_of_mem _ h)

theorem insertEntry_sorted [Std.TransOrd κ] {key : κ} {value : ν} {l : List (κ × ν)}
    (h : l.Pairwise (fun a b => compare a.1 b.1 = .lt)) :
    (insertEntry key value l).Pairwise (fun a b => compare a.1 b.1 = .lt) := by
  induction l with
  | nil => simp [insertEntry]
  | cons head tail ih =>
    obtain ⟨k, v⟩ := head
    obtain ⟨above, rest⟩ := List.pairwise_cons.1 h
    simp only [insertEntry]
    split
    · rename_i less
      refine List.pairwise_cons.2 ⟨fun e he => ?_, h⟩
      rcases List.mem_cons.1 he with rfl | he
      · exact less
      · exact Std.TransCmp.lt_trans less (above e he)
    · rename_i same
      refine List.pairwise_cons.2 ⟨fun e he => ?_, rest⟩
      exact Std.TransCmp.lt_of_eq_of_lt same (above e he)
    · rename_i more
      refine List.pairwise_cons.2 ⟨fun e he => ?_, ih rest⟩
      rcases mem_insertEntry he with rfl | he
      · exact Std.OrientedCmp.lt_of_gt more
      · exact above e he

def empty : SortedMap κ ν := ⟨[], List.Pairwise.nil⟩

instance : EmptyCollection (SortedMap κ ν) := ⟨empty⟩
instance : Inhabited (SortedMap κ ν) := ⟨empty⟩

instance [DecidableEq κ] [DecidableEq ν] : DecidableEq (SortedMap κ ν) := fun a b =>
  match a, b with
  | ⟨l, _⟩, ⟨m, _⟩ =>
    if h : l = m then isTrue (by subst h; rfl)
    else isFalse (fun e => h (congrArg SortedMap.entries e))

/-- Two maps agree when they have the same keys and agreeing values. -/
instance [BEq κ] [BEq ν] : BEq (SortedMap κ ν) := ⟨fun a b => a.entries == b.entries⟩

def get? (m : SortedMap κ ν) (key : κ) : Option ν := lookup key m.entries

def getD (m : SortedMap κ ν) (key : κ) (fallback : ν) : ν := (m.get? key).getD fallback

def contains (m : SortedMap κ ν) (key : κ) : Bool := (m.get? key).isSome

def keys (m : SortedMap κ ν) : List κ := m.entries.map Prod.fst

def values (m : SortedMap κ ν) : List ν := m.entries.map Prod.snd

def size (m : SortedMap κ ν) : Nat := m.entries.length

def isEmpty (m : SortedMap κ ν) : Bool := m.entries.isEmpty

def insert [Std.TransOrd κ] (m : SortedMap κ ν) (key : κ) (value : ν) : SortedMap κ ν :=
  ⟨insertEntry key value m.entries, insertEntry_sorted m.sorted⟩

def filter (m : SortedMap κ ν) (keep : κ → ν → Bool) : SortedMap κ ν :=
  ⟨m.entries.filter (fun e => keep e.1 e.2), m.sorted.filter _⟩

def mapValues (m : SortedMap κ ν) (f : κ → ν → μ) : SortedMap κ μ :=
  ⟨m.entries.map (fun e => (e.1, f e.1 e.2)), List.pairwise_map.2 m.sorted⟩

def insertAll [Std.TransOrd κ] (m : SortedMap κ ν) (l : List (κ × ν)) : SortedMap κ ν :=
  l.foldl (fun acc e => acc.insert e.1 e.2) m

def ofList [Std.TransOrd κ] (l : List (κ × ν)) : SortedMap κ ν := insertAll empty l

def unionKeys [Std.TransOrd κ] (a b : SortedMap κ ν) : List κ :=
  ((ofList ((a.keys ++ b.keys).map (fun k => (k, ())))) : SortedSet κ).keys

theorem lookup_insertEntry [Std.TransOrd κ] {key other : κ} {value : ν} {l : List (κ × ν)} :
    lookup other (insertEntry key value l) =
      if compare other key = .eq then some value else lookup other l := by
  induction l with
  | nil => rfl
  | cons head tail ih =>
    obtain ⟨k, v⟩ := head
    simp only [insertEntry]
    split
    · rfl
    · rename_i same
      have swap : compare other key = .eq ↔ compare other k = .eq :=
        ⟨fun h => Std.TransCmp.eq_trans h same,
          fun h => Std.TransCmp.eq_trans h (Std.OrientedCmp.eq_symm same)⟩
      simp only [lookup, swap]
      split <;> rfl
    · rename_i more
      simp only [lookup, ih]
      by_cases at_k : compare other k = .eq
      · have apart : compare other key ≠ .eq := fun h => by
          have := Std.TransCmp.eq_trans (Std.OrientedCmp.eq_symm h) at_k
          simp [this] at more
        simp [at_k, apart]
      · simp [at_k]

@[simp] theorem get?_empty (key : κ) : (empty : SortedMap κ ν).get? key = none := rfl

@[simp] theorem get?_insert [Std.TransOrd κ] (m : SortedMap κ ν) (key other : κ) (value : ν) :
    (m.insert key value).get? other =
      if compare other key = .eq then some value else m.get? other :=
  lookup_insertEntry

end SortedMap

namespace SortedSet

variable {κ : Type u} [Ord κ]

def empty : SortedSet κ := SortedMap.empty

def ofList [Std.TransOrd κ] (l : List κ) : SortedSet κ :=
  SortedMap.ofList (l.map (fun k => (k, ())))

def insert [Std.TransOrd κ] (s : SortedSet κ) (key : κ) : SortedSet κ := SortedMap.insert s key ()

def toList (s : SortedSet κ) : List κ := SortedMap.keys s

def contains (s : SortedSet κ) (key : κ) : Bool := SortedMap.contains s key

def union [Std.TransOrd κ] (s t : SortedSet κ) : SortedSet κ := SortedMap.insertAll s t.entries

def inter (s t : SortedSet κ) : SortedSet κ :=
  SortedMap.filter s (fun k _ => SortedMap.contains t k)

def diff (s t : SortedSet κ) : SortedSet κ :=
  SortedMap.filter s (fun k _ => !SortedMap.contains t k)

end SortedSet

end ExtensionLock
