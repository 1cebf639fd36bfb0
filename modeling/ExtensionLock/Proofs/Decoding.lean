import ExtensionLock.Json.Decode
import ExtensionLock.Proofs.PrintedJson
import ExtensionLock.Proofs.SortedMap

/-! Data that comes back from its JSON value. Fields come back in the order of their names, so a
record is read by name, and a map by names that tell its keys apart. -/

namespace ExtensionLock

def outward (limit : Option Nat) : Option Nat := limit.map (fun n => n + 1)

def outwardBy : Nat → Option Nat → Option Nat
  | 0, limit => limit
  | steps + 1, limit => outward (outwardBy steps limit)

namespace Json

def Within (limit : Option Nat) (v : Json) : Prop := ∀ n, limit = some n → v.depth ≤ n

/-- Values that come back from a text as they are. -/
structure Storable (limit : Option Nat) (v : Json) : Prop where
  canonical : v.canonical = v
  readsBack : v.ReadsBack
  within : v.Within limit

theorem itemsReadBack_iff {items : List Json} :
    ItemsReadBack items ↔ ∀ v ∈ items, v.ReadsBack := by
  induction items with
  | nil => simp [ItemsReadBack]
  | cons v items ih => simp only [ItemsReadBack, ih, List.forall_mem_cons]

theorem fieldsReadBack_iff {fields : List (String × Json)} :
    FieldsReadBack fields ↔ ∀ f ∈ fields, f.2.ReadsBack := by
  induction fields with
  | nil => simp [FieldsReadBack]
  | cons f fields ih => simp only [FieldsReadBack, ih, List.forall_mem_cons]

theorem depthItems_le_iff {items : List Json} {n : Nat} :
    depthItems items ≤ n ↔ ∀ v ∈ items, v.depth ≤ n := by
  induction items with
  | nil => simp [depthItems]
  | cons v items ih => simp only [depthItems, Nat.max_le, ih, List.forall_mem_cons]

theorem depthFields_le_iff {fields : List (String × Json)} {n : Nat} :
    depthFields fields ≤ n ↔ ∀ f ∈ fields, f.2.depth ≤ n := by
  induction fields with
  | nil => simp [depthFields]
  | cons f fields ih => simp only [depthFields, Nat.max_le, ih, List.forall_mem_cons]

theorem within_array {items : List Json} {limit : Option Nat}
    (inner : ∀ v ∈ items, v.Within limit) : (array items).Within (outward limit) := by
  intro n bound
  obtain ⟨m, inside, rfl⟩ := Option.map_eq_some_iff.mp bound
  exact Nat.succ_le_succ (depthItems_le_iff.mpr (fun v member => inner v member m inside))

theorem within_object {fields : List (String × Json)} {limit : Option Nat}
    (inner : ∀ f ∈ fields, f.2.Within limit) : (object fields).Within (outward limit) := by
  intro n bound
  obtain ⟨m, inside, rfl⟩ := Option.map_eq_some_iff.mp bound
  exact Nat.succ_le_succ (depthFields_le_iff.mpr (fun f member => inner f member m inside))

theorem canonicalItems_eq_map (items : List Json) :
    canonicalItems items = items.map canonical := by
  induction items with
  | nil => rfl
  | cons v items ih => rw [canonicalItems, ih, List.map_cons]

theorem canonicalFields_eq_map (fields : List (String × Json)) :
    canonicalFields fields = fields.map (fun f => (f.1, f.2.canonical)) := by
  induction fields with
  | nil => rfl
  | cons f fields ih => rw [canonicalFields, ih, List.map_cons]

end Json

namespace Draft

theorem ofItems_eq_map (items : List Json) : ofItems items = items.map ofJson := by
  induction items with
  | nil => rfl
  | cons v items ih => rw [ofItems, ih, List.map_cons]

theorem ofFields_eq_map (fields : List (String × Json)) :
    ofFields fields = fields.map (fun f => (some f.1, ofJson f.2)) := by
  induction fields with
  | nil => rfl
  | cons f fields ih => rw [ofFields, ih, List.map_cons]

end Draft

/-- A value is read as some data, also after it was written and within a limit of depth. -/
structure Decoder.Keeps (d : Decoder α) (limit : Option Nat) (x : α) (v : Json) : Prop where
  reads : d .value (Draft.ofJson v.canonical) = .ok x
  readsBack : v.ReadsBack
  within : v.Within limit

namespace Decoder

variable {α β : Type} {limit : Option Nat}

theorem Keeps.through {d : Decoder α} {e : Decoder β} {x : α} {y : β} {v : Json}
    (kept : d.Keeps limit x v)
    (reads : d .value (Draft.ofJson v.canonical) = .ok x →
      e .value (Draft.ofJson v.canonical) = .ok y) : e.Keeps limit y v :=
  ⟨reads kept.reads, kept.readsBack, kept.within⟩

theorem string_keeps (s : String) : string.Keeps limit s (.string s) :=
  ⟨rfl, trivial, fun _ _ => Nat.zero_le _⟩

theorem bool_keeps (b : Bool) : bool.Keeps limit b (.bool b) :=
  ⟨rfl, trivial, fun _ _ => Nat.zero_le _⟩

theorem natBelow_keeps {n bound : Nat} (small : n < bound) (word : bound ≤ UInt64.size) :
    (natBelow bound).Keeps limit n (.nat n) where
  reads := by
    have fits : (0 : Int) ≤ n ∧ (n : Int) < bound := ⟨Int.natCast_nonneg n, Int.ofNat_lt.mpr small⟩
    exact if_pos fits
  readsBack := Number.nat_readsBack (Nat.le_sub_one_of_lt (Nat.lt_of_lt_of_le small word))
  within _ _ := Nat.zero_le _

theorem json_keeps {v : Json} (storable : v.Storable limit) : json.Keeps limit v v where
  reads := by
    have back : Draft.value? .value (Draft.ofJson v) = some v.canonical :=
      Draft.value?_ofJson v trivial
    rw [storable.canonical] at back ⊢
    simp only [json, back]
  readsBack := storable.readsBack
  within := storable.within

theorem option_keeps {d : Decoder α} {s : String} {x : α} (inner : d.Keeps limit x (.string s)) :
    (option d).Keeps limit (some x) (.string s) where
  reads := congrArg (Except.map some) inner.reads
  readsBack := trivial
  within _ _ := Nat.zero_le _

theorem parsed_keeps {parse : String → Except String α} {s : String} {x : α}
    (parsing : parse s = .ok x) : (parsed parse).Keeps limit x (.string s) where
  reads := by
    have text : string .value (Draft.ofJson (Json.string s).canonical) = .ok s := rfl
    simp only [parsed, text, bind, Except.bind, parsing]
  readsBack := trivial
  within _ _ := Nat.zero_le _

theorem listItems_map {d : Decoder α} {f : α → Draft} {l : List α}
    (inner : ∀ x ∈ l, d .value (f x) = .ok x) : listItems d .value (l.map f) = .ok l := by
  induction l with
  | nil => rfl
  | cons x l ih =>
    rw [List.forall_mem_cons] at inner
    rw [List.map_cons, listItems, inner.1, ih inner.2]
    rfl

theorem list_keeps {d : Decoder α} {f : α → Json} {l : List α}
    (inner : ∀ x ∈ l, d.Keeps limit x (f x)) :
    (list d).Keeps (outward limit) l (.array (l.map f)) where
  reads := by
    have items := listItems_map (fun x member => (inner x member).reads)
    rw [Json.canonical, Json.canonicalItems_eq_map, Draft.ofJson, Draft.ofItems_eq_map,
      List.map_map, List.map_map, list]
    change (do
      let l ← listItems d .value (l.map (fun x => Draft.ofJson (f x).canonical))
      requireClosed .closed
      Except.ok l) = .ok l
    rw [items]
    rfl
  readsBack := by
    refine Json.itemsReadBack_iff.mpr (fun v member => ?_)
    obtain ⟨x, item, rfl⟩ := List.mem_map.mp member
    exact (inner x item).readsBack
  within := by
    refine Json.within_array (fun v member => ?_)
    obtain ⟨x, item, rfl⟩ := List.mem_map.mp member
    exact (inner x item).within

theorem set_keeps (s : SortedSet String) :
    (set string).Keeps (outward limit) s (.array (s.keys.map .string)) := by
  have members : SortedSet.ofList s.keys = s := by
    rw [SortedSet.ofList, SortedMap.keys, List.map_map]
    exact (congrArg SortedMap.ofList (List.map_id s.entries)).trans (SortedMap.ofList_entries s)
  have items : (list string).Keeps (outward limit) s.keys (.array (s.keys.map .string)) :=
    list_keeps (fun x _ => string_keeps x)
  refine items.through (fun reads => ?_)
  rw [set, reads]
  exact congrArg Except.ok members

theorem mapEntries_map {key : Decoder α} {d : Decoder β} {name : α → String} {f : β → Draft}
    {l : List (α × β)} (keys : ∀ e ∈ l, key .value (.string (some (name e.1))) = .ok e.1)
    (values : ∀ e ∈ l, d .value (f e.2) = .ok e.2) :
    mapEntries key d .value (l.map (fun e => (some (name e.1), f e.2))) = .ok l := by
  induction l with
  | nil => rfl
  | cons e l ih =>
    rw [List.forall_mem_cons] at keys values
    rw [List.map_cons, mapEntries, keys.1, values.1]
    change (do
      let l ← mapEntries key d .value (l.map (fun e : α × β => (some (name e.1), f e.2)))
      Except.ok (e :: l)) = .ok (e :: l)
    rw [ih keys.2 values.2]
    rfl

end Decoder

theorem exists_preimages {g : α → β} {p : α → Prop} {l : List β}
    (h : ∀ b ∈ l, ∃ a, p a ∧ g a = b) :
    ∃ k : List α, (∀ a ∈ k, p a) ∧ k.map g = l := by
  induction l with
  | nil => exact ⟨[], fun _ member => (by cases member), rfl⟩
  | cons b l ih =>
    rw [List.forall_mem_cons] at h
    obtain ⟨⟨a, pa, rfl⟩, others⟩ := h
    obtain ⟨k, pk, rfl⟩ := ih others
    exact ⟨a :: k, List.forall_mem_cons.mpr ⟨pa, pk⟩, rfl⟩

theorem Json.canonical_object {fields : List (String × Json)}
    (apart : (fields.map Prod.fst).Nodup) :
    ∃ l : List (String × Json), (∀ f, f ∈ l ↔ f ∈ fields) ∧ (l.map Prod.fst).Nodup ∧
      (object fields).canonical = object (l.map (fun f => (f.1, f.2.canonical))) := by
  have names : ((fields.map (fun f => (f.1, f.2.canonical))).map Prod.fst).Nodup := by
    rw [List.map_map]
    exact apart
  have members := fun e => SortedMap.mem_ofList (e := e) names
  have sorted := SortedMap.keys_nodup
    (SortedMap.ofList (fields.map (fun f => (f.1, f.2.canonical))))
  rw [SortedMap.keys] at sorted
  obtain ⟨l, inside, same⟩ := exists_preimages (p := fun f => f ∈ fields)
    (g := fun f : String × Json => (f.1, f.2.canonical)) (fun b member =>
      List.mem_map.mp ((members b).mp member))
  rw [← same, List.map_map] at sorted
  refine ⟨l, fun f => ⟨inside f, fun here => ?_⟩, sorted, ?_⟩
  · have there := (members _).mpr (List.mem_map_of_mem (f := fun f => (f.1, f.2.canonical)) here)
    rw [← same] at there
    obtain ⟨g, there, eq⟩ := List.mem_map.mp there
    have names : g.1 = f.1 := (Prod.mk.inj eq).1
    have unique : g = f := List.inj_on_of_nodup_map apart (inside g there) here names
    exact unique ▸ there
  · rw [canonical, canonicalFields_eq_map, same]

theorem Json.field?_canonical {fields : List (String × Json)} (apart : (fields.map Prod.fst).Nodup)
    {name : String} {v : Json} (member : (name, v) ∈ fields) :
    (object fields).canonical.field? name = some v.canonical := by
  obtain ⟨l, members, names, canonical⟩ := canonical_object apart
  rw [canonical, field?]
  cases found : (l.map (fun f => (f.1, f.2.canonical))).find? (fun f => f.1 == name) with
  | none =>
    have here := List.mem_map_of_mem (f := fun f : String × Json => (f.1, f.2.canonical))
      ((members _).mpr member)
    have other := List.find?_eq_none.mp found _ here
    exact absurd (beq_self_eq_true name) other
  | some g =>
    have same := List.find?_some found
    obtain ⟨f, inside, rfl⟩ := List.mem_map.mp (List.mem_of_find?_eq_some found)
    have unique : f = (name, v) :=
      List.inj_on_of_nodup_map apart ((members f).mp inside) member (beq_iff_eq.mp same)
    rw [unique]
    rfl

namespace Decoder

variable {α β : Type} {limit : Option Nat}

theorem canonical_entries [Ord α] [Std.TransOrd α] [Std.LawfulEqOrd α] [DecidableEq α]
    {m : SortedMap α β} {name : α → String} (f : β → Json)
    (unique : ∀ e ∈ m.entries, ∀ e' ∈ m.entries, name e.1 = name e'.1 → e = e') :
    ∃ l, (∀ e ∈ l, e ∈ m.entries) ∧ SortedMap.ofList l = m ∧
      (Json.object (m.entries.map (fun e => (name e.1, f e.2)))).canonical =
        .object (l.map (fun e => (name e.1, (f e.2).canonical))) := by
  have apart : ((m.entries.map (fun e => (name e.1, f e.2))).map Prod.fst).Nodup := by
    rw [List.map_map]
    have entries : m.entries.Nodup := List.Nodup.of_map _ m.keys_nodup
    exact entries.map_on unique
  obtain ⟨fields, members, names, canonical⟩ := Json.canonical_object apart
  obtain ⟨l, inside, rfl⟩ := exists_preimages (p := fun e => e ∈ m.entries)
    (g := fun e : α × β => (name e.1, f e.2)) (fun b member =>
      List.mem_map.mp ((members b).mp member))
  have nodup : (l.map Prod.fst).Nodup := by
    apply List.Nodup.of_map name
    rw [List.map_map] at names ⊢
    exact names
  refine ⟨l, inside, SortedMap.ofList_of_mem_iff nodup (fun e => ⟨inside e, fun here => ?_⟩), ?_⟩
  · obtain ⟨e', there, same⟩ := List.mem_map.mp ((members _).mpr
      (List.mem_map_of_mem (f := fun e : α × β => (name e.1, f e.2)) here))
    exact unique e' (inside e' there) e here (congrArg Prod.fst same) ▸ there
  · rw [canonical, List.map_map]
    rfl

theorem map_keeps [Ord α] [Std.TransOrd α] [Std.LawfulEqOrd α] [DecidableEq α] {key : Decoder α}
    {d : Decoder β} {m : SortedMap α β} (name : α → String) (f : β → Json)
    (keys : ∀ e ∈ m.entries, key .value (.string (some (name e.1))) = .ok e.1)
    (values : ∀ e ∈ m.entries, d.Keeps limit e.2 (f e.2)) :
    (map key d).Keeps (outward limit) m (.object (m.entries.map (fun e => (name e.1, f e.2)))) where
  reads := by
    have unique : ∀ e ∈ m.entries, ∀ e' ∈ m.entries, name e.1 = name e'.1 → e = e' := by
      intro e here e' there same
      have read := keys e here
      rw [same, keys e' there] at read
      exact List.inj_on_of_nodup_map m.keys_nodup here there (Except.ok.inj read).symm
    obtain ⟨l, inside, back, canonical⟩ := canonical_entries f unique
    have entries := mapEntries_map (f := fun x => Draft.ofJson (f x).canonical)
      (fun e member => keys e (inside e member))
      (fun e member => (values e (inside e member)).reads)
    rw [canonical, Draft.ofJson, Draft.ofFields_eq_map, List.map_map]
    change (do
      let l ← mapEntries key d .value
        (l.map (fun e : α × β => (some (name e.1), Draft.ofJson (f e.2).canonical)))
      requireClosed .closed
      Except.ok (SortedMap.ofList l)) = .ok m
    rw [entries]
    exact congrArg Except.ok back
  readsBack := by
    refine Json.fieldsReadBack_iff.mpr (fun field member => ?_)
    obtain ⟨e, entry, rfl⟩ := List.mem_map.mp member
    exact (values e entry).readsBack
  within := by
    refine Json.within_object (fun field member => ?_)
    obtain ⟨e, entry, rfl⟩ := List.mem_map.mp member
    exact (values e entry).within

end Decoder

namespace Record

def names : {αs : List Type} → Record αs → List String
  | _, .nil => []
  | _, .cons field rest => field.name :: names rest

/-- A row holds what fields found by name are read as, and the defaults of those not found. -/
def Fits (limit : Option Nat) (find : String → Option Json) :
    {αs : List Type} → Record αs → Row αs → Prop
  | _, .nil, _ => True
  | _, .cons field rest, (x, row) =>
    (match find field.name with
      | some v => field.decode.Keeps limit x v
      | none => field.absent = some x) ∧ Fits limit find rest row

def slotsOf : {αs : List Type} → Record αs → Row αs → List String → Slots αs
  | _, .nil, _, _ => ()
  | _, .cons field rest, (x, row), met =>
    (if field.name ∈ met then some x else none, slotsOf rest row met)

variable {limit : Option Nat} {find : String → Option Json} {αs : List Type}

theorem slotsOf_nil (r : Record αs) (row : Row αs) : r.slotsOf row [] = r.blank := by
  induction r with
  | nil => rfl
  | cons field rest ih =>
    obtain ⟨x, row⟩ := row
    simp only [slotsOf, blank, List.not_mem_nil, if_false, ih]
    rfl

theorem slotsOf_other {r : Record αs} (row : Row αs) {met : List String} {name : String}
    (other : name ∉ r.names) : r.slotsOf row (name :: met) = r.slotsOf row met := by
  induction r with
  | nil => rfl
  | cons field rest ih =>
    obtain ⟨x, row⟩ := row
    rw [names, List.mem_cons, not_or] at other
    simp only [slotsOf, List.mem_cons, Ne.symm other.1, false_or, ih row other.2]
    rfl

theorem offer_slotsOf {r : Record αs} {row : Row αs} (fits : r.Fits limit find row)
    (distinct : r.names.Nodup) {met : List String} {name : String} {v : Json} (fresh : name ∉ met)
    (found : find name = some v) :
    offer .value name (Draft.ofJson v.canonical) r (r.slotsOf row met) =
      .ok (r.slotsOf row (name :: met)) := by
  induction r with
  | nil => rfl
  | cons field rest ih =>
    obtain ⟨x, row⟩ := row
    obtain ⟨here, others⟩ := fits
    obtain ⟨apart, distinct⟩ := List.nodup_cons.mp distinct
    by_cases same : field.name = name
    · subst same
      rw [found] at here
      simp only [slotsOf, offer, if_pos, fresh, if_false, here.reads, List.mem_cons, true_or,
        slotsOf_other row apart]
      rfl
    · simp only [slotsOf, offer, ih others distinct, List.mem_cons, same, false_or]
      rfl

theorem offerAll_slotsOf {r : Record αs} {row : Row αs} (fits : r.Fits limit find row)
    (distinct : r.names.Nodup) (fields : List (String × Json)) (met : List String)
    (fresh : ∀ f ∈ fields, f.1 ∉ met) (apart : (fields.map Prod.fst).Nodup)
    (found : ∀ f ∈ fields, find f.1 = some f.2) :
    offerAll .value r (fields.map (fun f => (some f.1, Draft.ofJson f.2.canonical)))
      (r.slotsOf row met) = .ok (r.slotsOf row ((fields.map Prod.fst).reverse ++ met)) := by
  induction fields generalizing met with
  | nil => rfl
  | cons f fields ih =>
    rw [List.forall_mem_cons] at fresh found
    rw [List.map_cons, List.nodup_cons] at apart
    have unmet : ∀ g ∈ fields, g.1 ∉ f.1 :: met := by
      intro g member
      rw [List.mem_cons, not_or]
      exact ⟨fun same => apart.1 (same ▸ List.mem_map_of_mem member), fresh.2 g member⟩
    have rest := ih (f.1 :: met) unmet apart.2 found.2
    rw [List.map_cons, offerAll]
    change (do
      let slots ← offer .value f.1 (Draft.ofJson f.2.canonical) r (r.slotsOf row met)
      offerAll .value r
        (fields.map (fun f : String × Json => (some f.1, Draft.ofJson f.2.canonical))) slots) = _
    rw [offer_slotsOf fits distinct fresh.1 found.1]
    change offerAll .value r
      (fields.map (fun f : String × Json => (some f.1, Draft.ofJson f.2.canonical)))
      (r.slotsOf row (f.1 :: met)) = _
    rw [rest]
    simp only [List.map_cons, List.reverse_cons, List.append_assoc, List.singleton_append]

theorem finish_slotsOf {r : Record αs} {row : Row αs} (fits : r.Fits limit find row)
    {met : List String} (all : ∀ name, (find name).isSome → name ∈ met) :
    finish r (r.slotsOf row met) = .ok row := by
  induction r with
  | nil => rfl
  | cons field rest ih =>
    obtain ⟨x, row⟩ := row
    obtain ⟨here, others⟩ := fits
    rw [slotsOf]
    by_cases seen : field.name ∈ met
    · simp only [finish, if_pos seen, ih others]
      rfl
    · have missing : find field.name = none := by
        cases found : find field.name with
        | none => rfl
        | some v => exact absurd (all field.name (by rw [found]; rfl)) seen
      rw [missing] at here
      simp only [finish, if_neg seen, here, ih others]
      rfl

theorem keeps_of_fits {r : Record αs} {row : Row αs} (fits : r.Fits limit find row) {name : String}
    {v : Json} (member : name ∈ r.names) (found : find name = some v) :
    v.ReadsBack ∧ v.Within limit := by
  induction r with
  | nil => cases member
  | cons field rest ih =>
    obtain ⟨x, row⟩ := row
    obtain ⟨here, others⟩ := fits
    rcases List.mem_cons.mp member with rfl | member
    · rw [found] at here
      exact ⟨here.readsBack, here.within⟩
    · exact ih others member

theorem lookup_of_mem {fields : List (String × Json)} (apart : (fields.map Prod.fst).Nodup)
    {f : String × Json} (member : f ∈ fields) : fields.lookup f.1 = some f.2 := by
  induction fields with
  | nil => cases member
  | cons g fields ih =>
    obtain ⟨k, v⟩ := g
    rw [List.map_cons, List.nodup_cons] at apart
    rw [List.lookup_cons]
    rcases List.mem_cons.mp member with rfl | inside
    · rw [beq_self_eq_true]
    · have other : f.1 ≠ k := by
        rintro rfl
        exact apart.1 (List.mem_map.mpr ⟨f, inside, rfl⟩)
      rw [beq_false_of_ne other]
      exact ih apart.2 inside

theorem decode_keeps {r : Record αs} {row : Row αs} {fields : List (String × Json)}
    (fits : r.Fits limit (fun name => fields.lookup name) row) (distinct : r.names.Nodup)
    (named : (fields.map Prod.fst).Sublist r.names) :
    Decoder.Keeps r.decode (outward limit) row (.object fields) := by
  have apart : (fields.map Prod.fst).Nodup := distinct.sublist named
  have inner {f : String × Json} (member : f ∈ fields) : f.2.ReadsBack ∧ f.2.Within limit :=
    keeps_of_fits fits (named.subset (List.mem_map_of_mem member)) (lookup_of_mem apart member)
  refine ⟨?_, Json.fieldsReadBack_iff.mpr (fun f member => (inner member).1),
    Json.within_object (fun f member => (inner member).2)⟩
  obtain ⟨l, members, names, canonical⟩ := Json.canonical_object apart
  have met := offerAll_slotsOf fits distinct l []
    (fun _ _ => List.not_mem_nil) names
    (fun f member => lookup_of_mem apart ((members f).mp member))
  have all : ∀ name, (fields.lookup name).isSome → name ∈ (l.map Prod.fst).reverse ++ [] := by
    intro name found
    obtain ⟨v, found⟩ := Option.isSome_iff_exists.mp found
    obtain ⟨before, after, rfl, -⟩ := List.lookup_eq_some_iff.mp found
    rw [List.append_nil, List.mem_reverse]
    exact List.mem_map_of_mem ((members (name, v)).mpr (by simp))
  have finished := finish_slotsOf fits all
  rw [canonical, Draft.ofJson, Draft.ofFields_eq_map, List.map_map]
  change (do
    let slots ← offerAll .value r
      (l.map (fun f : String × Json => (some f.1, Draft.ofJson f.2.canonical))) r.blank
    Decoder.requireClosed .closed
    finish r slots) = .ok row
  rw [← slotsOf_nil r row, met]
  exact finished

end Record

end ExtensionLock
