import ExtensionLock.Proofs.Steps
import ExtensionLock.Proofs.Stored
import Mathlib.Data.List.Permutation

/-! Lockfiles that come from a text, in whatever shape it was accepted. What the reader of JSON lets
through is in order already and no deeper than it allows, every name has gone through its own
reader, and what was left out has its default; so the lockfile can be written and read again. -/

namespace ExtensionLock

namespace Json

mutual

def Ordered : Json → Prop
  | .array items => ItemsOrdered items
  | .object fields => fields.Pairwise (fun a b => compare a.1 b.1 = .lt) ∧ FieldsOrdered fields
  | _ => True

def ItemsOrdered : List Json → Prop
  | [] => True
  | v :: rest => Ordered v ∧ ItemsOrdered rest

def FieldsOrdered : List (String × Json) → Prop
  | [] => True
  | (_, v) :: rest => Ordered v ∧ FieldsOrdered rest

end

theorem itemsOrdered_iff {items : List Json} : ItemsOrdered items ↔ ∀ v ∈ items, v.Ordered := by
  induction items with
  | nil => simp [ItemsOrdered]
  | cons v items ih => simp only [ItemsOrdered, ih, List.forall_mem_cons]

theorem fieldsOrdered_iff {fields : List (String × Json)} :
    FieldsOrdered fields ↔ ∀ f ∈ fields, f.2.Ordered := by
  induction fields with
  | nil => simp [FieldsOrdered]
  | cons f fields ih => simp only [FieldsOrdered, ih, List.forall_mem_cons]

mutual

theorem Ordered.canonical_eq (v : Json) (ordered : v.Ordered) : v.canonical = v := by
  match v with
  | .null => rfl
  | .bool _ => rfl
  | .number _ => rfl
  | .string _ => rfl
  | .array items => rw [canonical, canonicalItems_eq items ordered]
  | .object fields =>
    obtain ⟨sorted, inner⟩ := ordered
    have whole : SortedMap.ofList fields = ⟨fields, sorted⟩ := SortedMap.ofList_entries ⟨_, sorted⟩
    rw [canonical, canonicalFields_eq fields inner, whole]

theorem canonicalItems_eq (items : List Json) (ordered : ItemsOrdered items) :
    canonicalItems items = items := by
  match items with
  | [] => rfl
  | v :: rest =>
    rw [canonicalItems, Ordered.canonical_eq v ordered.1, canonicalItems_eq rest ordered.2]

theorem canonicalFields_eq (fields : List (String × Json)) (ordered : FieldsOrdered fields) :
    canonicalFields fields = fields := by
  match fields with
  | [] => rfl
  | (k, v) :: rest =>
    rw [canonicalFields, Ordered.canonical_eq v ordered.1, canonicalFields_eq rest ordered.2]

end

end Json

theorem Origin.allows_of_enter {o inner : Origin} {n : Nat} (entered : o.enter? = some inner)
    (allowed : inner.Allows n) : o.Allows (n + 1) := by
  cases o with
  | text left =>
    cases left with
    | zero => cases entered
    | succ left =>
      cases entered
      exact Nat.succ_le_succ allowed
  | value => trivial
  | words => trivial

theorem Origin.allows_items {o : Origin} {items : List Json}
    (each : ∀ v ∈ items, o.Allows v.depth) : o.Allows (Json.depthItems items) := by
  cases o with
  | text left => exact Json.depthItems_le_iff.mpr each
  | value => trivial
  | words => trivial

theorem Origin.allows_fields {o : Origin} {fields : List (String × Json)}
    (each : ∀ f ∈ fields, o.Allows f.2.depth) : o.Allows (Json.depthFields fields) := by
  cases o with
  | text left => exact Json.depthFields_le_iff.mpr each
  | value => trivial
  | words => trivial

namespace Draft

mutual

theorem ordered_of_value? (v : Draft) {o : Origin} {x : Json} (made : value? o v = some x) :
    x.Ordered ∧ o.Allows x.depth := by
  have flat {o : Origin} : o.Allows 0 := by
    cases o with
    | text left => exact Nat.zero_le left
    | value => trivial
    | words => trivial
  match v with
  | .null =>
    cases made
    exact ⟨trivial, flat⟩
  | .bool _ =>
    cases made
    exact ⟨trivial, flat⟩
  | .number n =>
    obtain ⟨_, -, rfl⟩ := Option.map_eq_some_iff.mp made
    exact ⟨trivial, flat⟩
  | .string s =>
    obtain ⟨_, -, rfl⟩ := Option.map_eq_some_iff.mp made
    exact ⟨trivial, flat⟩
  | .plain _ => cases made
  | .broken => cases made
  | .array items ending =>
    unfold value? at made
    split at made
    · rename_i inner entered
      obtain ⟨l, read, rfl⟩ := Option.map_eq_some_iff.mp made
      have each := ordered_of_values? items read
      exact ⟨Json.itemsOrdered_iff.mpr (fun x member => (each x member).1),
        Origin.allows_of_enter entered (Origin.allows_items (fun x member => (each x member).2))⟩
    · cases made
  | .object fields ending =>
    unfold value? at made
    split at made
    · rename_i inner entered
      obtain ⟨l, read, rfl⟩ := Option.map_eq_some_iff.mp made
      have each (f : String × Json) (member : f ∈ (SortedMap.ofList l).entries) :=
        ordered_of_fieldValues? fields read f (SortedMap.mem_of_mem_ofList member)
      refine ⟨⟨(SortedMap.ofList l).sorted, ?_⟩, ?_⟩
      · exact Json.fieldsOrdered_iff.mpr (fun f member => (each f member).1)
      · exact Origin.allows_of_enter entered
          (Origin.allows_fields (fun f member => (each f member).2))
    · cases made

theorem ordered_of_values? (items : List Draft) {o : Origin} {l : List Json}
    (made : values? o items = some l) : ∀ x ∈ l, x.Ordered ∧ o.Allows x.depth := by
  match items with
  | [] =>
    cases made
    exact fun _ member => (by cases member)
  | v :: rest =>
    obtain ⟨x, first, made⟩ := Option.bind_eq_some_iff.mp made
    obtain ⟨others, later, made⟩ := Option.bind_eq_some_iff.mp made
    cases made
    exact List.forall_mem_cons.mpr ⟨ordered_of_value? v first, ordered_of_values? rest later⟩

theorem ordered_of_fieldValues? (fields : List (Option String × Draft)) {o : Origin}
    {l : List (String × Json)} (made : fieldValues? o fields = some l) :
    ∀ f ∈ l, f.2.Ordered ∧ o.Allows f.2.depth := by
  match fields with
  | [] =>
    cases made
    exact fun _ member => (by cases member)
  | (k, v) :: rest =>
    obtain ⟨name, -, made⟩ := Option.bind_eq_some_iff.mp made
    obtain ⟨x, first, made⟩ := Option.bind_eq_some_iff.mp made
    obtain ⟨others, later, made⟩ := Option.bind_eq_some_iff.mp made
    cases made
    exact List.forall_mem_cons.mpr ⟨ordered_of_value? v first, ordered_of_fieldValues? rest later⟩

end

end Draft

namespace Json

def Offers (v : Json) (name : String) (part : Json) : Prop :=
  match v with
  | .array items => part ∈ items
  | .object fields => (name, part) ∈ fields
  | _ => False

structure Fine (n : Nat) (v : Json) : Prop where
  ordered : v.Ordered
  within : v.depth ≤ n

theorem fine_of_parse? {text : String} {v : Json} (read : parse? text = some v) :
    v.Fine depthLimit := by
  unfold parse? at read
  split at read
  · obtain ⟨ordered, allowed⟩ := Draft.ordered_of_value? _ read
    exact ⟨ordered, allowed⟩
  · cases read

theorem Fine.part {n : Nat} {v part : Json} {name : String} (fine : v.Fine (n + 1))
    (offers : v.Offers name part) : part.Fine n := by
  obtain ⟨ordered, within⟩ := fine
  cases v with
  | array items =>
    exact ⟨itemsOrdered_iff.mp ordered part offers,
      depthItems_le_iff.mp (Nat.le_of_succ_le_succ within) part offers⟩
  | object fields =>
    exact ⟨fieldsOrdered_iff.mp ordered.2 _ offers,
      depthFields_le_iff.mp (Nat.le_of_succ_le_succ within) _ offers⟩
  | _ => cases offers

theorem Fine.storable {n : Nat} {v : Json} (fine : v.Fine n) (reads : v.ReadsBack) :
    v.Storable (some n) where
  canonical := fine.ordered.canonical_eq
  readsBack := reads
  within _ bound := Option.some.inj bound ▸ fine.within

end Json

namespace Decoder

variable {α β : Type} {v : Json}

theorem natBelow_from {bound n : Nat} (read : (natBelow bound).fromJson v = .ok n) :
    v = .nat n ∧ n < bound := by
  cases v with
  | number x => cases x with
    | integer i =>
      simp only [fromJson, Draft.ofJson, natBelow] at read
      split at read
      · rename_i fits
        cases read
        have whole : (i.toNat : Int) = i := Int.toNat_of_nonneg fits.1
        exact ⟨by rw [Json.nat, whole], by omega⟩
      · cases read
    | float x => cases read
  | _ => cases read

theorem parsed_from {ε : Type} {parse : String → Except ε α} {message : ε → String} {x : α}
    (read : (parsed (fun s => (parse s).mapError message)).fromJson v = .ok x) :
    ∃ s, parse s = .ok x := by
  obtain ⟨s, -, made⟩ := exists_of_bind_eq_ok read
  dsimp only at made
  cases parsing : parse s with
  | error reason => rw [parsing] at made; cases made
  | ok y =>
    rw [parsing] at made
    cases made
    exact ⟨s, parsing⟩

theorem json_from {x : Json} (read : json.fromJson v = .ok x) : x = v.canonical := by
  have whole : Draft.value? .value (Draft.ofJson v) = some v.canonical :=
    Draft.value?_ofJson v trivial
  simp only [fromJson, json, whole] at read
  exact (Except.ok.inj read).symm

theorem listItems_from {d : Decoder α} {items : List Json} {l : List α}
    (read : listItems d .value (items.map Draft.ofJson) = .ok l) :
    ∀ x ∈ l, ∃ part ∈ items, d.fromJson part = .ok x := by
  induction items generalizing l with
  | nil =>
    cases read
    exact fun _ member => (by cases member)
  | cons v items ih =>
    obtain ⟨x, first, read⟩ := exists_of_bind_eq_ok read
    obtain ⟨others, later, read⟩ := exists_of_bind_eq_ok read
    cases read
    refine List.forall_mem_cons.mpr ⟨⟨v, List.mem_cons_self, first⟩, fun y member => ?_⟩
    obtain ⟨part, inside, given⟩ := ih later y member
    exact ⟨part, List.mem_cons_of_mem _ inside, given⟩

theorem list_from {d : Decoder α} {l : List α} (read : (list d).fromJson v = .ok l) :
    ∀ x ∈ l, ∃ name part, v.Offers name part ∧ d.fromJson part = .ok x := by
  cases v with
  | array items =>
    obtain ⟨inner, entered, read⟩ := exists_of_bind_eq_ok read
    cases entered
    obtain ⟨others, later, read⟩ := exists_of_bind_eq_ok read
    cases read
    rw [Draft.ofItems_eq_map] at later
    intro x member
    obtain ⟨part, inside, given⟩ := listItems_from later x member
    exact ⟨"", part, inside, given⟩
  | _ => cases read

theorem mapEntries_from {key : Decoder α} {d : Decoder β} {fields : List (String × Json)}
    {l : List (α × β)}
    (read : mapEntries key d .value (fields.map (fun f => (some f.1, Draft.ofJson f.2))) = .ok l) :
    ∀ e ∈ l, ∃ f ∈ fields, key.fromJson (.string f.1) = .ok e.1 ∧ d.fromJson f.2 = .ok e.2 := by
  induction fields generalizing l with
  | nil =>
    cases read
    exact fun _ member => (by cases member)
  | cons f fields ih =>
    obtain ⟨name, first, read⟩ := exists_of_bind_eq_ok read
    obtain ⟨x, second, read⟩ := exists_of_bind_eq_ok read
    obtain ⟨others, later, read⟩ := exists_of_bind_eq_ok read
    cases read
    refine List.forall_mem_cons.mpr ⟨⟨f, List.mem_cons_self, first, second⟩, fun e member => ?_⟩
    obtain ⟨part, inside, given⟩ := ih later e member
    exact ⟨part, List.mem_cons_of_mem _ inside, given⟩

theorem map_from [Ord α] [Std.TransOrd α] [Std.LawfulEqOrd α] [DecidableEq α] {key : Decoder α}
    {d : Decoder β} {m : SortedMap α β} (read : (map key d).fromJson v = .ok m) :
    ∀ e ∈ m.entries, ∃ name part, v.Offers name part ∧ key.fromJson (.string name) = .ok e.1 ∧
      d.fromJson part = .ok e.2 := by
  cases v with
  | object fields =>
    obtain ⟨inner, entered, read⟩ := exists_of_bind_eq_ok read
    cases entered
    obtain ⟨others, later, read⟩ := exists_of_bind_eq_ok read
    cases read
    rw [Draft.ofFields_eq_map] at later
    intro e member
    obtain ⟨f, inside, named, given⟩ := mapEntries_from later e (SortedMap.mem_of_mem_ofList member)
    exact ⟨f.1, f.2, inside, named, given⟩
  | _ => cases read

end Decoder

namespace Record

variable {αs : List Type} {v : Json}

def Drawn (v : Json) : {αs : List Type} → Record αs → Row αs → Prop
  | _, .nil, _ => True
  | _, .cons field rest, (x, row) =>
    (field.absent = some x ∨
      ∃ part, v.Offers field.name part ∧ field.decode.fromJson part = .ok x) ∧ Drawn v rest row

def Filled (v : Json) : {αs : List Type} → Record αs → Slots αs → Prop
  | _, .nil, _ => True
  | _, .cons field rest, (slot, slots) =>
    (∀ x, slot = some x →
      ∃ part, v.Offers field.name part ∧ field.decode.fromJson part = .ok x) ∧ Filled v rest slots

theorem blank_filled (v : Json) (r : Record αs) : r.Filled v r.blank := by
  induction r with
  | nil => trivial
  | cons field rest ih => exact ⟨fun x taken => (by cases taken), ih⟩

theorem offer_filled {r : Record αs} {slots slots' : Slots αs} {name : String} {part : Json}
    (filled : r.Filled v slots) (offers : v.Offers name part)
    (offered : offer .value name (Draft.ofJson part) r slots = .ok slots') :
    r.Filled v slots' := by
  induction r with
  | nil => trivial
  | cons field rest ih =>
    obtain ⟨slot, slots⟩ := slots
    obtain ⟨here, others⟩ := filled
    simp only [offer] at offered
    split at offered
    · rename_i named
      subst named
      split at offered
      · cases offered
      · obtain ⟨x, read, rfl⟩ := exists_of_map_eq_ok offered
        refine ⟨fun y taken => ?_, others⟩
        cases taken
        exact ⟨part, offers, read⟩
    · obtain ⟨slots', rest', rfl⟩ := exists_of_map_eq_ok offered
      exact ⟨here, ih others rest'⟩

theorem offerAll_filled {r : Record αs} {fields : List (String × Json)} {slots slots' : Slots αs}
    (filled : r.Filled v slots) (offers : ∀ f ∈ fields, v.Offers f.1 f.2)
    (offered : offerAll .value r (fields.map (fun f => (some f.1, Draft.ofJson f.2))) slots =
      .ok slots') : r.Filled v slots' := by
  induction fields generalizing slots with
  | nil =>
    cases offered
    exact filled
  | cons f fields ih =>
    rw [List.forall_mem_cons] at offers
    obtain ⟨name, named, offered⟩ := exists_of_bind_eq_ok offered
    cases named
    obtain ⟨next, first, later⟩ := exists_of_bind_eq_ok offered
    exact ih (offer_filled filled offers.1 first) offers.2 later

theorem finish_drawn {r : Record αs} {slots : Slots αs} {row : Row αs} (filled : r.Filled v slots)
    (finished : finish r slots = .ok row) : r.Drawn v row := by
  induction r with
  | nil => trivial
  | cons field rest ih =>
    obtain ⟨slot, slots⟩ := slots
    obtain ⟨here, others⟩ := filled
    simp only [finish] at finished
    split at finished
    · obtain ⟨row, rest', rfl⟩ := exists_of_map_eq_ok finished
      exact ⟨.inr (here _ rfl), ih others rest'⟩
    · rename_i missing
      obtain ⟨row, rest', rfl⟩ := exists_of_map_eq_ok finished
      exact ⟨.inl missing, ih others rest'⟩
    · cases finished

theorem positional_drawn {r : Record αs} {items : List Json} {row : Row αs} {left : List Draft}
    (offers : ∀ name, ∀ part ∈ items, v.Offers name part)
    (read : positional .value r (items.map Draft.ofJson) .closed = .ok (row, left)) :
    r.Drawn v row := by
  induction r generalizing items left with
  | nil => trivial
  | cons field rest ih =>
    cases items with
    | nil =>
      simp only [List.map_nil, positional, if_true] at read
      cases absent : field.absent with
      | none => rw [absent] at read; cases read
      | some x =>
        rw [absent] at read
        obtain ⟨⟨row', left'⟩, later, read⟩ := exists_of_bind_eq_ok read
        cases read
        have nothing : ∀ name, ∀ part ∈ ([] : List Json), v.Offers name part :=
          fun _ _ member => (by cases member)
        exact ⟨.inl absent, ih nothing later⟩
    | cons part items =>
      obtain ⟨x, first, read⟩ := exists_of_bind_eq_ok read
      obtain ⟨⟨row', left'⟩, later, read⟩ := exists_of_bind_eq_ok read
      cases read
      exact ⟨.inr ⟨part, offers _ _ List.mem_cons_self, first⟩,
        ih (fun name part member => offers name part (List.mem_cons_of_mem _ member)) later⟩

theorem decode_drawn {r : Record αs} {row : Row αs} (read : Decoder.fromJson r.decode v = .ok row) :
    r.Drawn v row := by
  cases v with
  | object fields =>
    obtain ⟨inner, entered, read⟩ := exists_of_bind_eq_ok read
    cases entered
    obtain ⟨slots, offered, read⟩ := exists_of_bind_eq_ok read
    rw [Draft.ofFields_eq_map] at offered
    exact finish_drawn (offerAll_filled (blank_filled _ r) (fun f member => member) offered) read
  | array items =>
    obtain ⟨inner, entered, read⟩ := exists_of_bind_eq_ok read
    cases entered
    obtain ⟨⟨row', left⟩, placed, read⟩ := exists_of_bind_eq_ok read
    rw [Draft.ofItems_eq_map] at placed
    dsimp only at read
    split at read
    · cases read
      exact positional_drawn (fun _ _ member => member) placed
    · cases read
  | _ => cases read

end Record

section Data

variable {v : Json} {n : Nat}

theorem Version.parsed_of_read {x : Version} (read : decoder.fromJson v = .ok x) : x.Parsed :=
  Decoder.parsed_from read

theorem ModuleKey.parsed_of_read {k : ModuleKey} (read : decoder.fromJson v = .ok k) : k.Parsed :=
  Decoder.parsed_from read

theorem ExtensionId.parsed_of_read {id : ExtensionId} (read : decoder.fromJson v = .ok id) :
    id.Parsed :=
  Decoder.parsed_from read

theorem Location.storable_of_read {l : Location} (read : decoder.fromJson v = .ok l) :
    l.Storable := by
  obtain ⟨⟨file, line, column, ⟨⟩⟩, row, made⟩ := exists_of_bind_eq_ok read
  cases made
  obtain ⟨-, ofLine, ofColumn, -⟩ := Record.decode_drawn row
  rcases ofLine with absent | ⟨_, -, line⟩
  · cases absent
  · obtain ⟨_, -, column⟩ := ofColumn.resolve_left nofun
    exact ⟨(Decoder.natBelow_from line).2, (Decoder.natBelow_from column).2⟩

def Attributes.ReadBack (a : Attributes) : Prop := ∀ e ∈ a.entries, e.2.ReadsBack

theorem Attributes.storable_of_read {a : Attributes} (read : decoder.fromJson v = .ok a)
    (fine : v.Fine (n + 1)) (numbers : a.ReadBack) : a.Storable (some n) := by
  intro e member
  obtain ⟨name, part, offers, -, given⟩ := Decoder.map_from read e member
  have inner := fine.part offers
  have same := (Decoder.json_from given).trans inner.ordered.canonical_eq
  rw [same]
  exact inner.storable (same ▸ numbers e member)

theorem Tag.storable_of_read {t : Tag} (read : decoder.fromJson v = .ok t) (fine : v.Fine (n + 2))
    (numbers : t.attributes.ReadBack) : t.Storable (some n) := by
  obtain ⟨⟨tagName, attributes, devDependency, location, ⟨⟩⟩, row, made⟩ :=
    exists_of_bind_eq_ok read
  cases made
  obtain ⟨-, ofAttributes, -, ofLocation, -⟩ := Record.decode_drawn row
  constructor
  · rcases ofAttributes with absent | ⟨part, offers, given⟩
    · cases absent
      exact fun _ member => (by cases member)
    · exact Attributes.storable_of_read given (fine.part offers) numbers
  · obtain ⟨part, -, given⟩ := ofLocation.resolve_left nofun
    exact Location.storable_of_read given

def Usage.ReadBack (u : Usage) : Prop := ∀ t ∈ u.tags, t.attributes.ReadBack

theorem Usage.storable_of_read {u : Usage} (read : decoder.fromJson v = .ok u)
    (fine : v.Fine (n + 4)) (numbers : u.ReadBack) : u.Storable (some n) := by
  obtain ⟨⟨extensionId, location, imports, devImports, tags, ⟨⟩⟩, row, made⟩ :=
    exists_of_bind_eq_ok read
  cases made
  obtain ⟨ofId, ofLocation, -, -, ofTags, -⟩ := Record.decode_drawn row
  refine ⟨?_, ?_, fun t member => ?_⟩
  · obtain ⟨part, -, given⟩ := ofId.resolve_left nofun
    exact ExtensionId.parsed_of_read given
  · obtain ⟨part, -, given⟩ := ofLocation.resolve_left nofun
    exact Location.storable_of_read given
  · rcases ofTags with absent | ⟨part, offers, given⟩
    · cases absent
      cases member
    · obtain ⟨_, item, inside, tag⟩ := Decoder.list_from given t member
      exact Tag.storable_of_read tag ((fine.part offers).part inside) (numbers t member)

def Module.ReadBack (m : Module) : Prop := ∀ u ∈ m.usages, u.ReadBack

theorem Module.storable_of_read {m : Module} (read : decoder.fromJson v = .ok m)
    (fine : v.Fine (n + 6)) (numbers : m.ReadBack) : m.Storable (some n) := by
  obtain ⟨⟨name, version, key, repoName, deps, usages, ⟨⟩⟩, row, made⟩ := exists_of_bind_eq_ok read
  cases made
  obtain ⟨-, ofVersion, ofKey, -, ofDeps, ofUsages, -⟩ := Record.decode_drawn row
  refine ⟨?_, ?_, fun e member => ?_, fun u member => ?_⟩
  · obtain ⟨part, -, given⟩ := ofVersion.resolve_left nofun
    exact Version.parsed_of_read given
  · obtain ⟨part, -, given⟩ := ofKey.resolve_left nofun
    exact ModuleKey.parsed_of_read given
  · rcases ofDeps with absent | ⟨part, -, given⟩
    · cases absent
      cases member
    · obtain ⟨_, item, -, -, dep⟩ := Decoder.map_from given e member
      exact ModuleKey.parsed_of_read dep
  · rcases ofUsages with absent | ⟨part, offers, given⟩
    · cases absent
      cases member
    · obtain ⟨_, item, inside, usage⟩ := Decoder.list_from given u member
      exact Usage.storable_of_read usage ((fine.part offers).part inside) (numbers u member)

def DepGraph.ReadBack (g : DepGraph) : Prop := ∀ e ∈ g.entries, e.2.ReadBack

theorem DepGraph.storable_of_read {g : DepGraph} (read : decoder.fromJson v = .ok g)
    (fine : v.Fine (n + 7)) (numbers : g.ReadBack) : g.Storable (some n) := by
  intro e member
  obtain ⟨name, part, offers, key, given⟩ := Decoder.map_from read e member
  exact ⟨ModuleKey.parsed_of_read key,
    Module.storable_of_read given (fine.part offers) (numbers e member)⟩

def RepoSpecs.ReadBack (specs : RepoSpecs) : Prop := ∀ e ∈ specs.entries, e.2.attributes.ReadBack

theorem RepoSpecs.storable_of_read {specs : RepoSpecs} (read : decoder.fromJson v = .ok specs)
    (fine : v.Fine (n + 3)) (numbers : specs.ReadBack) : specs.Storable (some n) := by
  intro e member
  obtain ⟨name, part, offers, -, given⟩ := Decoder.map_from read e member
  obtain ⟨⟨bzlFile, ruleClassName, attributes, ⟨⟩⟩, row, made⟩ := exists_of_bind_eq_ok given
  have here := numbers e member
  obtain ⟨repoName, spec⟩ := e
  cases made
  obtain ⟨-, -, ofAttributes, -⟩ := Record.decode_drawn row
  rcases ofAttributes with absent | ⟨inner, inside, values⟩
  · cases absent
    exact fun _ member => (by cases member)
  · exact Attributes.storable_of_read values ((fine.part offers).part inside) here

theorem LockedExtension.storable_of_read {entry : LockedExtension}
    (read : decoder.fromJson v = .ok entry) (fine : v.Fine (n + 4))
    (numbers : entry.specs.ReadBack) : entry.specs.Storable (some n) := by
  obtain ⟨⟨digest, specs, ⟨⟩⟩, row, made⟩ := exists_of_bind_eq_ok read
  cases made
  obtain ⟨-, ofSpecs, -⟩ := Record.decode_drawn row
  rcases ofSpecs with absent | ⟨part, offers, given⟩
  · cases absent
    exact fun _ member => (by cases member)
  · exact RepoSpecs.storable_of_read given (fine.part offers) numbers

end Data

namespace Lockfile

variable {l : Lockfile} {v : Json} {n : Nat}

/-- All numbers in a lockfile are read back from their texts. Those in attributes are all that may
not be, since other numbers are small. -/
structure ReadBack (l : Lockfile) : Prop where
  depGraph : l.depGraph.ReadBack
  extensions : ∀ e ∈ l.extensions.entries, e.2.specs.ReadBack

theorem version_of_read {version : Nat} {part : Json} (fine : v.Fine n)
    (known : versionOf v = some currentVersion) (offers : v.Offers "lockFileVersion" part)
    (read : (Decoder.natBelow UInt32.size).fromJson part = .ok version) :
    version = currentVersion := by
  cases v with
  | object fields =>
    have unique : (fields.map Prod.fst).Nodup := SortedMap.keys_nodup ⟨fields, fine.ordered.1⟩
    obtain ⟨found, here, natural⟩ := Option.bind_eq_some_iff.mp known
    obtain ⟨f, first, rfl⟩ := Option.map_eq_some_iff.mp here
    have same : f = ("lockFileVersion", part) :=
      List.inj_on_of_nodup_map unique (List.mem_of_find?_eq_some first) offers
        (by simpa using List.find?_some first)
    obtain ⟨rfl, -⟩ := Decoder.natBelow_from read
    rw [same] at natural
    exact Option.some.inj natural
  | _ => cases known

theorem storable_of_read (read : decoder.fromJson v = .ok l) (fine : v.Fine (n + 8))
    (known : versionOf v = some currentVersion) (numbers : l.ReadBack) : l.Storable (some n) := by
  obtain ⟨⟨version, moduleFileHash, flags, overrideHashes, depGraph, extensions, ⟨⟩⟩, row, made⟩ :=
    exists_of_bind_eq_ok read
  cases made
  obtain ⟨ofVersion, -, -, -, ofDepGraph, ofExtensions, -⟩ := Record.decode_drawn row
  refine ⟨?_, ?_, fun e member => ?_⟩
  · obtain ⟨part, offers, given⟩ := ofVersion.resolve_left nofun
    exact version_of_read fine known offers given
  · rcases ofDepGraph with absent | ⟨part, offers, given⟩
    · cases absent
      exact fun _ member => (by cases member)
    · exact DepGraph.storable_of_read given (fine.part offers) numbers.depGraph
  · rcases ofExtensions with absent | ⟨part, offers, given⟩
    · cases absent
      cases member
    · obtain ⟨name, item, inside, id, entry⟩ := Decoder.map_from given e member
      exact ⟨ExtensionId.parsed_of_read id, LockedExtension.storable_of_read entry
        ((fine.part offers).part inside) (numbers.extensions e member)⟩

theorem storable_of_parse {path : Path} {text : String} (read : parse path text = .ok l)
    (numbers : l.ReadBack) : l.Storable (some tagLimit) := by
  unfold parse at read
  split at read
  · cases read
  · rename_i document parsed
    split at read
    · cases read
    · rename_i found known
      split at read
      · rename_i current
        subst current
        cases decoded : decoder.fromJson document with
        | error e => rw [decoded] at read; cases read
        | ok l' =>
          rw [decoded] at read
          cases read
          exact storable_of_read decoded (Json.fine_of_parse? parsed) known numbers
      · cases read

/-- Whatever text a lockfile was read from, it is read again from the text that it is written as,
and written as that text again. -/
theorem parse_print_of_parse {path : Path} {text : String} (read : parse path text = .ok l)
    (numbers : l.ReadBack) (path' : Path) :
    parse path' l.print = .ok l ∧ (parse path' l.print).map print = .ok l.print := by
  have again := parse_print_of_limit (storable_of_parse read numbers) path'
  exact ⟨again, by rw [again]; rfl⟩

end Lockfile

section Loose

def looseText : String :=
  "\x7b\"lockFileVersion\": 1, \"note\": [2], \"moduleExtensions\": \x7b\"@//:deps.bzl%deps\":
    [\"AQ==\", \x7b\"a\": \x7b\"attributes\": \x7b\"n\": null, \"n\": [3]\x7d,
    \"ruleClassName\": \"r\"\x7d\x7d]\x7d\x7d"

def looseDocument : Json :=
  .object [("lockFileVersion", .nat 1),
    ("moduleExtensions", .object [("@//:deps.bzl%deps", .array [.string "AQ==", .object [("a",
      .object [("attributes", .object [("n", .array [.nat 3])]),
        ("ruleClassName", .string "r")])]])]),
    ("note", .array [.nat 2])]

def looseLockfile : Lockfile :=
  { Lockfile.empty with extensions := .ofList [(⟨⟨"", "", "deps.bzl"⟩, "deps", none⟩,
    ⟨⟨[1]⟩, .ofList [("a", .native "r" [("n", .array [.nat 3])])]⟩)] }

theorem loose_document : Json.parse? looseText = some looseDocument := by cbv

theorem loose_parse : Lockfile.parse ⟨"MODULE.lock"⟩ looseText = .ok looseLockfile := by
  rw [Lockfile.parse, loose_document]
  rfl

theorem loose_readBack : looseLockfile.ReadBack where
  depGraph _ member := by cases member
  extensions e member := by
    cases List.mem_singleton.mp member
    intro s member
    cases List.mem_singleton.mp member
    intro f member
    cases List.mem_singleton.mp member
    exact ⟨Number.nat_readsBack (by decide), trivial⟩

theorem loose_rewritten : Lockfile.parse ⟨"MODULE.lock"⟩ looseLockfile.print = .ok looseLockfile :=
  (Lockfile.parse_print_of_parse loose_parse loose_readBack _).1

end Loose

end ExtensionLock
