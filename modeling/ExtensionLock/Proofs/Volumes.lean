import ExtensionLock.Volume
import ExtensionLock.Proofs.Ways

/-! Ways through a volume. A walk is taken again in any volume that has the same links and all the
directories of the first, so the calls that save a file lose no way; and the directories that are
made for a path stand where nothing was. -/

namespace ExtensionLock

namespace Volume

/-- A walk by components to a place, with so many links left at its start and at its end. -/
inductive Walks (v : Volume) : Nat → Place → List Path.Component → Place → Nat → Prop
  | done : Walks v n p [] p n
  | root (on : Walks v n .root rest q m) : Walks v n p (.root :: rest) q m
  | current (on : Walks v n p rest q m) : Walks v n p (.current :: rest) q m
  | parent (searched : v.search p = .ok ()) (on : Walks v n p.above rest q m) :
      Walks v n p (.parent :: rest) q m
  | name (entered : v.enter p name = .ok next)
      (plain : ∀ target, v.item? next ≠ some (.link target)) (on : Walks v n next rest q m) :
      Walks v n p (.normal name :: rest) q m
  | link (entered : v.enter p name = .ok next) (link : v.item? next = some (.link target))
      (on : Walks v n p (target.components ++ rest) q m) :
      Walks v (n + 1) p (.normal name :: rest) q m

variable {v v' v'' : Volume} {p q r place : Place} {path : Path} {name : String} {n m k : Nat}
  {c rest : List Path.Component} {item : Item}

theorem isFixed_directory (v : Volume) (fixed : q.isFixed = true) :
    v.item? q = some .directory := if_pos fixed

theorem item?_put (v : Volume) (place : Place) (item : Item) (q : Place) :
    (v.put place item).item? q =
      if q.isFixed then some .directory else if q = place then some item else v.item? q := by
  unfold item?
  split
  · rfl
  · rw [put, SortedMap.get?_insert_eq]

theorem item?_without (v : Volume) (place q : Place) : (v.without place).item? q =
    if q.isFixed then some .directory else if q = place then none else v.item? q := by
  unfold item?
  split
  · rfl
  · rw [without, SortedMap.get?_filter]
    split
    · rename_i same
      rw [same]
      cases v.items.get? place <;> simp [Option.filter]
    · rename_i other
      cases v.items.get? q <;> simp [Option.filter, other]

theorem item?_put_ne (other : q ≠ place) : (v.put place item).item? q = v.item? q := by
  rw [item?_put, if_neg other]
  split
  · rename_i fixed
    exact (v.isFixed_directory fixed).symm
  · rfl

theorem item?_put_cases (q : Place) : (v.put place item).item? q = v.item? q ∨ q = place := by
  by_cases same : q = place
  · exact .inr same
  · exact .inl (item?_put_ne same)

theorem item?_put_self (free : v.item? place ≠ some .directory) :
    (v.put place item).item? place = some item := by
  rw [item?_put, if_neg (fun fixed => free (v.isFixed_directory fixed)), if_pos rfl]

theorem item?_without_ne (other : q ≠ place) : (v.without place).item? q = v.item? q := by
  rw [item?_without, if_neg other]
  split
  · rename_i fixed
    exact (v.isFixed_directory fixed).symm
  · rfl

theorem item?_without_self (free : v.item? place ≠ some .directory) :
    (v.without place).item? place = none := by
  rw [item?_without, if_neg (fun fixed => free (v.isFixed_directory fixed)), if_pos rfl]

theorem search_eq_ok : v.search p = .ok () ↔
    v.item? p = some .directory ∧ v.refuses (.search p) = none := by
  rw [search]
  cases v.item? p with
  | none => exact ⟨fun h => (by cases h), fun h => (by cases h.1)⟩
  | some item => cases item with
    | directory =>
      dsimp only
      cases v.refuses (.search p) with
      | none => exact iff_of_true rfl ⟨rfl, rfl⟩
      | some e => exact ⟨fun h => (by cases h), fun h => (by cases h.2)⟩
    | _ => exact ⟨fun h => (by cases h), fun h => (by cases h.1)⟩

theorem enter_eq_ok : v.enter p name = .ok q ↔ v.search p = .ok () ∧
    (Text.bytes name).length ≤ FileTree.longestName ∧ q = p.enter name := by
  rw [enter]
  cases v.search p with
  | error e => exact ⟨fun h => (by cases h), fun h => (by cases h.1)⟩
  | ok u =>
    dsimp only
    split
    · exact ⟨fun h => (by cases h), fun h => absurd h.2.1 (Nat.not_le_of_lt ‹_›)⟩
    · exact ⟨fun h => (by cases h; exact ⟨rfl, Nat.le_of_not_lt ‹_›, rfl⟩), fun h => h.2.2 ▸ rfl⟩

theorem walk_nil : v.walk n p [] = .ok (p, n) := by cases n <;> rfl

theorem walk_root : v.walk n p (.root :: rest) = v.walk n .root rest := by cases n <;> rfl

theorem walk_current : v.walk n p (.current :: rest) = v.walk n p rest := by cases n <;> rfl

theorem walk_parent : v.walk n p (.parent :: rest) = match v.search p with
    | .error e => .error e
    | .ok () => v.walk n p.above rest := by
  cases n <;> rfl

theorem walk_normal : v.walk n p (.normal name :: rest) = match v.enter p name with
    | .error e => .error e
    | .ok next => match v.item? next, n with
      | some (.link _), 0 => .error .tooManyLinks
      | some (.link target), n + 1 => v.walk n p (target.components ++ rest)
      | _, n => v.walk n next rest := by
  cases n <;> rw [walk, walkUpTo] <;> cases v.enter p name with
  | error e => rfl
  | ok next =>
    dsimp only
    cases v.item? next with
    | none => rfl
    | some item => cases item <;> rfl

theorem Walks.walk_eq (walks : v.Walks n p c q m) : v.walk n p c = .ok (q, m) := by
  induction walks with
  | done => exact walk_nil
  | root _ ih => rw [walk_root, ih]
  | current _ ih => rw [walk_current, ih]
  | parent searched _ ih =>
    rw [walk_parent, searched]
    exact ih
  | name entered plain _ ih =>
    rw [walk_normal, entered]
    dsimp only
    split
    · exact absurd ‹_› (plain _)
    · exact absurd ‹_› (plain _)
    · exact ih
  | link entered link _ ih =>
    rw [walk_normal, entered]
    dsimp only
    rw [link]
    exact ih

theorem walks_of_shorter (shorter : ∀ k, n = k + 1 → ∀ p c, v.walk k p c = .ok (q, m) →
    v.Walks k p c q m) (walked : v.walk n p c = .ok (q, m)) : v.Walks n p c q m := by
  induction c generalizing p with
  | nil =>
    rw [walk_nil] at walked
    cases walked
    exact .done
  | cons step rest ih =>
    cases step with
    | root => exact .root (ih (walk_root ▸ walked))
    | current => exact .current (ih (walk_current ▸ walked))
    | parent =>
      rw [walk_parent] at walked
      cases searched : v.search p with
      | error e => rw [searched] at walked; cases walked
      | ok u => rw [searched] at walked; exact .parent searched (ih walked)
    | normal name =>
      rw [walk_normal] at walked
      cases entered : v.enter p name with
      | error e => rw [entered] at walked; cases walked
      | ok next =>
        rw [entered] at walked
        dsimp only at walked
        cases here : v.item? next with
        | none => rw [here] at walked; exact .name entered (by simp [here]) (ih walked)
        | some item =>
          rw [here] at walked
          cases item with
          | link target => cases n with
            | zero => cases walked
            | succ n => exact .link entered here (shorter n rfl _ _ walked)
          | _ => exact .name entered (by simp [here]) (ih walked)

theorem walk_eq_ok : v.walk n p c = .ok (q, m) ↔ v.Walks n p c q m := by
  refine ⟨fun walked => ?_, Walks.walk_eq⟩
  induction n generalizing p c with
  | zero => exact walks_of_shorter (fun k none => (by cases none)) walked
  | succ n ih => exact walks_of_shorter (fun k same p c => by cases same; exact ih) walked

theorem Walks.unique {q' : Place} {m' : Nat} (walks : v.Walks n p c q m)
    (again : v.Walks n p c q' m') : q = q' ∧ m = m' := by
  cases walks.walk_eq.symm.trans again.walk_eq
  exact ⟨rfl, rfl⟩

theorem Walks.append {r : Place} {k : Nat} {more : List Path.Component}
    (first : v.Walks n p c q m) (second : v.Walks m q more r k) :
    v.Walks n p (c ++ more) r k := by
  induction first with
  | done => exact second
  | root _ ih => exact .root (ih second)
  | current _ ih => exact .current (ih second)
  | parent searched _ ih => exact .parent searched (ih second)
  | name entered plain _ ih => exact .name entered plain (ih second)
  | link entered link _ ih =>
    have on := ih second
    rw [List.append_assoc] at on
    exact .link entered link on

theorem Walks.split {more whole : List Path.Component} (walks : v.Walks n p whole q m)
    (parts : whole = c ++ more) : ∃ r k, v.Walks n p c r k ∧ v.Walks k r more q m := by
  induction walks generalizing c with
  | done =>
    obtain ⟨rfl, rfl⟩ := List.append_eq_nil_iff.mp parts.symm
    exact ⟨_, _, .done, .done⟩
  | root on ih =>
    rcases List.cons_eq_append_iff.mp parts with ⟨rfl, rfl⟩ | ⟨c, rfl, same⟩
    · exact ⟨_, _, .done, .root on⟩
    · obtain ⟨r, k, first, second⟩ := ih same
      exact ⟨r, k, .root first, second⟩
  | current on ih =>
    rcases List.cons_eq_append_iff.mp parts with ⟨rfl, rfl⟩ | ⟨c, rfl, same⟩
    · exact ⟨_, _, .done, .current on⟩
    · obtain ⟨r, k, first, second⟩ := ih same
      exact ⟨r, k, .current first, second⟩
  | parent searched on ih =>
    rcases List.cons_eq_append_iff.mp parts with ⟨rfl, rfl⟩ | ⟨c, rfl, same⟩
    · exact ⟨_, _, .done, .parent searched on⟩
    · obtain ⟨r, k, first, second⟩ := ih same
      exact ⟨r, k, .parent searched first, second⟩
  | name entered plain on ih =>
    rcases List.cons_eq_append_iff.mp parts with ⟨rfl, rfl⟩ | ⟨c, rfl, same⟩
    · exact ⟨_, _, .done, .name entered plain on⟩
    · obtain ⟨r, k, first, second⟩ := ih same
      exact ⟨r, k, .name entered plain first, second⟩
  | link entered link on ih =>
    rcases List.cons_eq_append_iff.mp parts with ⟨rfl, rfl⟩ | ⟨c, rfl, same⟩
    · exact ⟨_, _, .done, .link entered link on⟩
    · obtain ⟨r, k, first, second⟩ := ih (by rw [same, List.append_assoc])
      exact ⟨r, k, .link entered link first, second⟩

/-- All ways of a volume are ways of another: that has the same links and all the directories. -/
structure Extends (v v' : Volume) : Prop where
  directory : ∀ q, v.item? q = some .directory → v'.item? q = some .directory
  link : ∀ q target, v'.item? q = some (.link target) ↔ v.item? q = some (.link target)
  refuses : v'.refuses = v.refuses
  start : v'.start = v.start

namespace Extends

theorem trans (first : Extends v v') (second : Extends v' v'') : Extends v v'' where
  directory q here := second.directory q (first.directory q here)
  link q target := (second.link q target).trans (first.link q target)
  refuses := second.refuses.trans first.refuses
  start := second.start.trans first.start

theorem search (ext : Extends v v') (searched : v.search p = .ok ()) : v'.search p = .ok () := by
  obtain ⟨here, allowed⟩ := search_eq_ok.mp searched
  exact search_eq_ok.mpr ⟨ext.directory p here, ext.refuses ▸ allowed⟩

theorem enter (ext : Extends v v') (entered : v.enter p name = .ok q) :
    v'.enter p name = .ok q := by
  obtain ⟨searched, short, same⟩ := enter_eq_ok.mp entered
  exact enter_eq_ok.mpr ⟨ext.search searched, short, same⟩

theorem walks (ext : Extends v v') (walks : v.Walks n p c q m) : v'.Walks n p c q m := by
  induction walks with
  | done => exact .done
  | root _ ih => exact .root ih
  | current _ ih => exact .current ih
  | parent searched _ ih => exact .parent (ext.search searched) ih
  | name entered plain _ ih =>
    exact .name (ext.enter entered) (fun target here => plain target ((ext.link _ _).mp here)) ih
  | link entered link _ ih => exact .link (ext.enter entered) ((ext.link _ _).mpr link) ih

end Extends

def Taken (path : Path) : Prop := FileTree.refusal? path = none ∧ path.text ≠ ""

theorem taking_eq_ok {r : Except IoError α} {a : α} :
    taking path r = .ok a ↔ Taken path ∧ r = .ok a := by
  rw [taking, Taken]
  cases FileTree.refusal? path with
  | some e => exact ⟨fun h => (by cases h), fun h => (by cases h.1.1)⟩
  | none =>
    dsimp only
    split
    · exact ⟨fun h => (by cases h), fun h => absurd ‹_› h.1.2⟩
    · exact ⟨fun h => ⟨⟨rfl, ‹_›⟩, h⟩, And.right⟩

theorem map_walk_eq_ok : (v.walk n p c).map Prod.fst = .ok q ↔ ∃ m, v.Walks n p c q m := by
  constructor
  · intro walked
    cases ended : v.walk n p c with
    | error e => rw [ended] at walked; cases walked
    | ok r =>
      rw [ended] at walked
      cases walked
      exact ⟨r.2, walk_eq_ok.mp ended⟩
  · rintro ⟨m, walks⟩
    rw [walks.walk_eq]
    rfl

theorem resolve_eq_ok : v.resolve path = .ok q ↔
    Taken path ∧ ∃ m, v.Walks linkLimit v.start path.components q m := by
  rw [resolve, taking_eq_ok, map_walk_eq_ok]

theorem locate_eq_ok (ends : path.components = c ++ [.normal name]) : v.locate path = .ok q ↔
    Taken path ∧ ∃ r m, v.Walks linkLimit v.start c r m ∧ v.enter r name = .ok q := by
  rw [locate, taking_eq_ok, ends, List.getLast?_concat, List.dropLast_concat]
  refine and_congr_right (fun _ => ?_)
  dsimp only
  cases walked : v.walk linkLimit v.start c with
  | error e =>
    refine ⟨fun h => (by cases h), ?_⟩
    rintro ⟨r, m, walks, -⟩
    cases walked.symm.trans walks.walk_eq
  | ok r =>
    constructor
    · exact fun entered => ⟨r.1, r.2, walk_eq_ok.mp walked, entered⟩
    · rintro ⟨r', m, walks, entered⟩
      cases walked.symm.trans walks.walk_eq
      exact entered

theorem locate_unnamed (unnamed : path.fileName? = none) : v.locate path = v.resolve path := by
  rw [locate, resolve]
  rw [Path.fileName?] at unnamed
  split
  · rename_i name last
    rw [last] at unnamed
    cases unnamed
  · rfl

theorem ends_of_named (named : path.fileName? = some name) :
    path.components = path.components.dropLast ++ [.normal name] := by
  obtain ⟨dir, -, ends⟩ := Path.components_fileName named
  rw [ends, List.dropLast_concat]

theorem Extends.resolve (ext : Extends v v') (resolved : v.resolve path = .ok q) :
    v'.resolve path = .ok q := by
  obtain ⟨taken, m, walks⟩ := resolve_eq_ok.mp resolved
  exact resolve_eq_ok.mpr ⟨taken, m, ext.start ▸ ext.walks walks⟩

theorem Extends.locate (ext : Extends v v') (located : v.locate path = .ok q) :
    v'.locate path = .ok q := by
  cases named : path.fileName? with
  | none =>
    rw [locate_unnamed named] at located ⊢
    exact ext.resolve located
  | some name =>
    have ends := ends_of_named named
    obtain ⟨taken, r, m, walks, entered⟩ := (locate_eq_ok ends).mp located
    exact (locate_eq_ok ends).mpr ⟨taken, r, m, ext.start ▸ ext.walks walks, ext.enter entered⟩

theorem resolve_of_locate (located : v.locate path = .ok q)
    (plain : ∀ target, v.item? q ≠ some (.link target)) : v.resolve path = .ok q := by
  cases named : path.fileName? with
  | none =>
    rw [locate_unnamed named] at located
    exact located
  | some name =>
    have ends := ends_of_named named
    obtain ⟨taken, r, m, walks, entered⟩ := (locate_eq_ok ends).mp located
    refine resolve_eq_ok.mpr ⟨taken, m, ?_⟩
    rw [ends]
    exact walks.append (.name entered plain .done)

theorem locate_of_resolve (named : path.fileName? = some name)
    (resolved : v.resolve path = .ok q) : ∃ r, v.locate path = .ok r := by
  have ends := ends_of_named named
  obtain ⟨taken, m, walks⟩ := resolve_eq_ok.mp resolved
  obtain ⟨r, k, first, last⟩ := walks.split ends
  cases last with
  | name entered => exact ⟨_, (locate_eq_ok ends).mpr ⟨taken, r, _, first, entered⟩⟩
  | link entered => exact ⟨_, (locate_eq_ok ends).mpr ⟨taken, r, _, first, entered⟩⟩

theorem stat_eq_ok {entry : Entry} : v.stat path = .ok entry ↔ ∃ q item,
    v.resolve path = .ok q ∧ v.item? q = some item ∧ v.show? path item = .ok entry := by
  rw [stat]
  cases v.resolve path with
  | error e => exact ⟨fun h => (by cases h), fun ⟨_, _, h, _⟩ => (by cases h)⟩
  | ok q =>
    dsimp only
    cases here : v.item? q with
    | none =>
      refine ⟨fun h => (by cases h), ?_⟩
      rintro ⟨_, item, same, there, -⟩
      cases same
      cases here.symm.trans there
    | some item =>
      refine ⟨fun shown => ⟨q, item, rfl, here, shown⟩, ?_⟩
      rintro ⟨_, item', same, there, shown⟩
      cases same
      cases here.symm.trans there
      exact shown

theorem show?_congr (same : v'.contents = v.contents) : v'.show? path item = v.show? path item := by
  cases item <;> simp only [show?, same]

theorem Extends.stat (ext : Extends v v') (contents : v'.contents = v.contents)
    (kept : ∀ q item, v.resolve path = .ok q → v.item? q = some item → v'.item? q = some item)
    {entry : Entry} (seen : v.stat path = .ok entry) : v'.stat path = .ok entry := by
  obtain ⟨q, item, resolved, here, shown⟩ := stat_eq_ok.mp seen
  exact stat_eq_ok.mpr ⟨q, item, ext.resolve resolved, kept q item resolved here,
    (show?_congr contents).trans shown⟩

/-- What a name stands for is as before, or it stood for nothing and is that of a directory that was
made for a reason. -/
def KeptAt (q : Place) (reason : Prop) (v v' : Volume) : Prop :=
  v'.item? q = v.item? q ∨ v.item? q = none ∧ v'.item? q = some .directory ∧ reason

/-- Nothing was changed but that directories were made where nothing was. -/
structure Paved (way : Place → Prop) (v v' : Volume) : Prop where
  kept : ∀ q, KeptAt q (way q) v v'
  rest : v' = { v with items := v'.items }

namespace Paved

variable {way way' : Place → Prop}

theorem refl (way : Place → Prop) (v : Volume) : Paved way v v := ⟨fun _ => .inl rfl, rfl⟩

theorem trans (first : Paved way v v') (second : Paved way v' v'') : Paved way v v'' where
  kept q := by
    rcases second.kept q with same | ⟨vacant, made, because⟩
    · rw [KeptAt, same]
      exact first.kept q
    · rcases first.kept q with same | ⟨-, made', -⟩
      · exact .inr ⟨same ▸ vacant, made, because⟩
      · cases vacant.symm.trans made'
  rest := second.rest.trans (by rw [first.rest])

theorem mono (paved : Paved way v v') (wider : ∀ q, way q → way' q) : Paved way' v v' where
  kept q := by
    refine (paved.kept q).imp_right ?_
    rintro ⟨vacant, made, because⟩
    exact ⟨vacant, made, wider q because⟩
  rest := paved.rest

theorem put (vacant : v.item? q = none) (because : way q) : Paved way v (v.put q .directory) := by
  refine ⟨fun r => ?_, rfl⟩
  by_cases same : r = q
  · rw [same]
    exact .inr ⟨vacant, item?_put_self (by rw [vacant]; exact fun h => (by cases h)), because⟩
  · exact .inl (item?_put_ne same)

theorem grows (paved : Paved way v v') (here : v.item? q = some item) :
    v'.item? q = some item := by
  rcases paved.kept q with same | ⟨vacant, -, -⟩
  · rw [same, here]
  · cases vacant.symm.trans here

theorem contents (paved : Paved way v v') : v'.contents = v.contents := by rw [paved.rest]

theorem refuses (paved : Paved way v v') : v'.refuses = v.refuses := by rw [paved.rest]

theorem ways (paved : Paved way v v') : Extends v v' where
  directory q here := paved.grows here
  link q target := by
    refine ⟨fun here => ?_, paved.grows⟩
    rcases paved.kept q with same | ⟨-, made, -⟩
    · exact same ▸ here
    · cases made.symm.trans here
  refuses := paved.refuses
  start := by rw [paved.rest]

theorem stat (paved : Paved way v v') {entry : Entry} (seen : v.stat path = .ok entry) :
    v'.stat path = .ok entry :=
  paved.ways.stat paved.contents (fun _ _ _ here => paved.grows here) seen

end Paved

def Passes (v : Volume) (n : Nat) (p : Place) (c : List Path.Component) (q : Place) : Prop :=
  ∃ steps m, steps <+: c ∧ v.Walks n p steps q m

theorem Passes.cons {step : Path.Component} (passes : v.Passes k r rest q)
    (first : ∀ steps m, v.Walks k r steps q m → v.Walks n p (step :: steps) q m) :
    v.Passes n p (step :: rest) q := by
  obtain ⟨steps, m, before, walks⟩ := passes
  exact ⟨step :: steps, m, List.cons_prefix_cons.mpr ⟨rfl, before⟩, first steps m walks⟩

theorem paved_makeDirectories (v : Volume) (n : Nat) (p : Place) (c : List Path.Component) :
    Paved ((v.makeDirectories n p c).1.Passes n p c) v (v.makeDirectories n p c).1 := by
  induction c generalizing v n p with
  | nil => exact .refl _ v
  | cons step rest ih =>
    cases step with
    | root => exact (ih v n .root).mono (fun q passes => passes.cons (fun _ _ => .root))
    | current => exact (ih v n p).mono (fun q passes => passes.cons (fun _ _ => .current))
    | parent =>
      rw [makeDirectories]
      cases searched : v.search p with
      | error e => exact .refl _ v
      | ok u =>
        have paved := ih v n p.above
        exact paved.mono (fun q passes => passes.cons
          (fun _ _ => .parent (paved.ways.search searched)))
    | normal name =>
      rw [makeDirectories]
      cases entered : v.enter p name with
      | error e => exact .refl _ v
      | ok next =>
        dsimp only
        cases here : v.item? next with
        | none =>
          dsimp only
          cases v.refuses (.create next) with
          | some e => exact .refl _ v
          | none =>
            have later := ih (v.put next .directory) n next
            have vacant : v.item? next ≠ some .directory := fun h => (by cases here.symm.trans h)
            have directory := later.grows (item?_put_self vacant)
            have begun : Paved (fun _ => True) v (v.put next .directory) := .put here trivial
            have first := Walks.name ((begun.ways.trans later.ways).enter entered)
              (fun _ h => (by cases directory.symm.trans h)) (.done : Walks _ n next [] next n)
            exact (Paved.put here ⟨_, n, ⟨rest, rfl⟩, first⟩).trans
              (later.mono (fun q passes => passes.cons (fun _ _ walks => first.append walks)))
        | some item =>
          dsimp only
          cases walked : v.walk n p [.normal name] with
          | error e => exact .refl _ v
          | ok r =>
            obtain ⟨there, left⟩ := r
            dsimp only
            split
            · have paved := ih v left there
              have first := paved.ways.walks (walk_eq_ok.mp walked)
              exact paved.mono (fun q passes => passes.cons (fun _ _ walks => first.append walks))
            · exact .refl _ v
            · exact .refl _ v

theorem Passes.mono {c' : List Path.Component} (passes : v.Passes n p c q) (longer : c <+: c') :
    v.Passes n p c' q := by
  obtain ⟨steps, m, before, walks⟩ := passes
  exact ⟨steps, m, before.trans longer, walks⟩

theorem createDirectories_along (v : Volume) (path : Path) : ∃ c, c <+: path.components ∧
    (v.createDirectories path).1 = (v.makeDirectories linkLimit v.start c).1 := by
  rw [createDirectories]
  split
  · exact ⟨[], List.nil_prefix, rfl⟩
  · split
    · refine ⟨_, path.prefix_of_parent, ?_⟩
      split <;> rename_i made <;> rw [made]
    · exact ⟨_, List.prefix_refl _, rfl⟩

/-- Whatever stands somewhere stands in directories. -/
def Rooted (v : Volume) : Prop := ∀ q item, v.item? q = some item →
  ∀ d, d.leadsTo q = true → d ≠ q → v.item? d = some .directory

def Bare (v : Volume) (p : Place) : Prop :=
  ∀ q, p.leadsTo q = true → q ≠ p → v.item? q = none

theorem Rooted.bare (rooted : v.Rooted) (free : v.item? p ≠ some .directory) : v.Bare p := by
  intro q leads other
  cases here : v.item? q with
  | none => rfl
  | some item => exact absurd (rooted q item here p leads (Ne.symm other)) free

theorem leadsTo_below (p : Place) (name : String) : p.leadsTo (p.enter name) = true :=
  Place.leadsTo_iff.mpr (List.prefix_append p.names [name])

theorem enter_ne (p : Place) (name : String) : p.enter name ≠ p := by
  intro same
  have longer := congrArg (fun place => place.names.length) same
  simp [Place.enter] at longer

theorem Bare.put (bare : v.Bare p) : (v.put p item).Bare p :=
  fun q leads other => (item?_put_ne other).trans (bare q leads other)

theorem Bare.enter (bare : v.Bare p) (name : String) : v.Bare (p.enter name) := by
  intro q leads other
  refine bare q (Place.leadsTo_trans (leadsTo_below p name) leads) ?_
  rintro rfl
  exact enter_ne _ name (Place.leadsTo_antisymm leads (leadsTo_below _ name))

section Names

variable (down : ∀ step ∈ c, ∃ name, step = .normal name)
include down

theorem length_follow (p : Place) :
    (c.foldl Place.follow p).names.length = p.names.length + c.length := by
  induction c generalizing p with
  | nil => rfl
  | cons step rest ih =>
    obtain ⟨name, rfl⟩ := down step List.mem_cons_self
    rw [List.foldl_cons, ih (fun step member => down step (List.mem_cons_of_mem _ member))]
    simp only [Place.follow, Place.enter, List.length_append, List.length_cons, List.length_nil]
    omega

theorem follow_of_walks (walks : v.Walks n p c q m)
    (plain : ∀ r, p.leadsTo r = true → ∀ target, v.item? r ≠ some (.link target)) :
    q = c.foldl Place.follow p := by
  induction walks with
  | done => rfl
  | root => obtain ⟨_, other⟩ := down _ List.mem_cons_self; cases other
  | current => obtain ⟨_, other⟩ := down _ List.mem_cons_self; cases other
  | parent => obtain ⟨_, other⟩ := down _ List.mem_cons_self; cases other
  | name entered _ _ ih =>
    obtain ⟨-, -, rfl⟩ := enter_eq_ok.mp entered
    exact ih (fun step member => down step (List.mem_cons_of_mem _ member))
      (fun r leads => plain r (Place.leadsTo_trans (leadsTo_below _ _) leads))
  | link entered link =>
    obtain ⟨-, -, rfl⟩ := enter_eq_ok.mp entered
    exact absurd link (plain _ (leadsTo_below _ _) _)

theorem made_of_vacant (vacant : v.item? p = none) (bare : v.Bare p) (n : Nat) (q : Place) :
    ((v.put p .directory).makeDirectories n p c).1.item? q = v.item? q ∨
      ∃ first, first <+: c ∧ q = first.foldl Place.follow p := by
  induction c generalizing v p with
  | nil => exact (item?_put_cases q).imp_right (fun here => ⟨[], List.nil_prefix, here⟩)
  | cons step rest ih =>
    have begun : (v.put p .directory).item? q = v.item? q ∨
        ∃ first, first <+: step :: rest ∧ q = first.foldl Place.follow p :=
      (item?_put_cases q).imp_right (fun here => ⟨[], List.nil_prefix, here⟩)
    obtain ⟨name, rfl⟩ := down step List.mem_cons_self
    rw [makeDirectories]
    cases entered : (v.put p .directory).enter p name with
    | error e => exact begun
    | ok next =>
      obtain ⟨-, -, rfl⟩ := enter_eq_ok.mp entered
      have free : (v.put p .directory).item? (p.enter name) = none :=
        (item?_put_ne (enter_ne p name)).trans (bare _ (leadsTo_below p name) (enter_ne p name))
      dsimp only
      rw [free]
      dsimp only
      cases (v.put p .directory).refuses (.create (p.enter name)) with
      | some e => exact begun
      | none =>
        rcases ih (fun step member => down step (List.mem_cons_of_mem _ member)) free
          (bare.put.enter name) with same | ⟨first, before, made⟩
        · rw [same]
          exact begun
        · exact .inr ⟨.normal name :: first, List.cons_prefix_cons.mpr ⟨rfl, before⟩, made⟩

/-- If directories are made along names, there is a first one that was missing, and all of them are
made by their names from there. -/
theorem made_of_names (rooted : v.Rooted) (n : Nat) (p : Place) :
    (v.makeDirectories n p c).1 = v ∨ ∃ before name after r m,
      c = before ++ .normal name :: after ∧ v.Walks n p before r m ∧
      v.item? (r.enter name) = none ∧ ∀ q, (v.makeDirectories n p c).1.item? q = v.item? q ∨
        ∃ first, first <+: after ∧ q = first.foldl Place.follow (r.enter name) := by
  induction c generalizing n p with
  | nil => exact .inl rfl
  | cons step rest ih =>
    obtain ⟨name, rfl⟩ := down step List.mem_cons_self
    have others : ∀ step ∈ rest, ∃ name, step = .normal name :=
      fun step member => down step (List.mem_cons_of_mem _ member)
    rw [makeDirectories]
    cases entered : v.enter p name with
    | error e => exact .inl rfl
    | ok next =>
      obtain ⟨-, -, rfl⟩ := enter_eq_ok.mp entered
      dsimp only
      cases here : v.item? (p.enter name) with
      | none =>
        dsimp only
        cases v.refuses (.create (p.enter name)) with
        | some e => exact .inl rfl
        | none =>
          refine .inr ⟨[], name, rest, p, n, rfl, .done, here, fun q => ?_⟩
          exact made_of_vacant others here
            (rooted.bare (fun h => (by cases here.symm.trans h))) n q
      | some item =>
        dsimp only
        cases walked : v.walk n p [.normal name] with
        | error e => exact .inl rfl
        | ok r =>
          obtain ⟨there, left⟩ := r
          dsimp only
          split
          · rcases ih others left there with same | ⟨before, first, after, r, m, rfl, walks, made⟩
            · exact .inl same
            · exact .inr ⟨.normal name :: before, first, after, r, m, rfl,
                (walk_eq_ok.mp walked).append walks, made⟩
          · exact .inl rfl
          · exact .inl rfl

end Names

/-- Directories that are made by names for a path that goes on by names do not bring it to anything:
what it leads to then, it has led to before. -/
theorem stat_of_made_by_names {start names last : List Path.Component} {entry : Entry}
    (rooted : v.Rooted) (whole : path.components = start ++ (names ++ last)) (more : last ≠ [])
    (down : ∀ step ∈ names ++ last, ∃ name, step = .normal name)
    (begun : ∀ u : Volume, u.Walks linkLimit v.start start p n)
    (seen : (v.makeDirectories n p names).1.stat path = .ok entry) : v.stat path = .ok entry := by
  have above : ∀ step ∈ names, ∃ name, step = .normal name :=
    fun step member => down step (List.mem_append_left _ member)
  rcases made_of_names above rooted n p with same |
    ⟨before, name, after, r, m, rfl, walks, vacant, made⟩
  · rwa [same] at seen
  exfalso
  have paved := paved_makeDirectories v n p (before ++ .normal name :: after)
  generalize (v.makeDirectories n p (before ++ .normal name :: after)).1 = v' at seen made paved
  obtain ⟨q, item, resolved, here, -⟩ := stat_eq_ok.mp seen
  obtain ⟨-, k, walked⟩ := resolve_eq_ok.mp resolved
  rw [paved.ways.start] at walked
  have parts : path.components = (start ++ before) ++ (.normal name :: (after ++ last)) := by
    rw [whole]
    simp only [List.append_assoc, List.cons_append]
  obtain ⟨r', m', first, walked⟩ := walked.split parts
  obtain ⟨rfl, rfl⟩ := first.unique ((begun v').append (paved.ways.walks walks))
  have missing (x : Place) (leads : (r'.enter name).leadsTo x = true) : v.item? x = none := by
    by_cases same : x = r'.enter name
    · rw [same, vacant]
    · exact rooted.bare (fun h => (by cases vacant.symm.trans h)) x leads same
  have plain (x : Place) (leads : (r'.enter name).leadsTo x = true) (target : Path) :
      v'.item? x ≠ some (.link target) := by
    intro link
    cases (missing x leads).symm.trans ((paved.ways.link x target).mp link)
  have names : ∀ step ∈ after ++ last, ∃ name, step = .normal name := by
    intro step member
    refine down step ?_
    simp only [List.mem_append, List.mem_cons] at member ⊢
    exact member.imp_left (fun inside => .inr (.inr inside))
  have there : q = (after ++ last).foldl Place.follow (r'.enter name) := by
    cases walked with
    | name entered _ on =>
      obtain ⟨-, -, rfl⟩ := enter_eq_ok.mp entered
      exact follow_of_walks names on plain
    | link entered link =>
      obtain ⟨-, -, rfl⟩ := enter_eq_ok.mp entered
      exact absurd link (plain _ (Place.leadsTo_refl _) _)
  rcases made q with same | ⟨shorter, ⟨rest, rfl⟩, same⟩
  · have leads : (r'.enter name).leadsTo q = true := by
      rw [there]
      exact Path.leadsTo_follow (fun step member => .inl (names step member)) _
    cases (here.symm.trans same).trans (missing q leads)
  · have lengths := congrArg (fun place => place.names.length) (there.symm.trans same)
    have fewer : ∀ step ∈ shorter, ∃ name, step = .normal name :=
      fun step member => names step (by simp [member])
    rw [length_follow names, length_follow fewer] at lengths
    have filled := List.length_pos_of_ne_nil more
    simp only [List.length_append] at lengths
    omega

theorem stat_of_createDirectories {dir : Path} {entry : Entry} (rooted : v.Rooted)
    (above : path.parent? = some dir) (level : .parent ∉ path.components)
    (seen : (v.createDirectories dir).1.stat path = .ok entry) : v.stat path = .ok entry := by
  obtain ⟨c, ⟨more, before⟩, made⟩ := createDirectories_along v dir
  obtain ⟨last, whole⟩ := Path.components_parent above
  rw [← before, List.append_assoc] at whole
  rw [made] at seen
  have filled : more ++ [last] ≠ [] := List.append_ne_nil_of_right_ne_nil _ (List.cons_ne_nil _ _)
  cases c with
  | nil => exact seen
  | cons step names =>
    have whole : path.components = [step] ++ (names ++ (more ++ [last])) := whole
    have down := Path.names_behind level whole (List.cons_ne_nil _ _)
    cases step with
    | root => exact stat_of_made_by_names rooted whole filled down (fun u => .root .done) seen
    | current => exact stat_of_made_by_names rooted whole filled down (fun u => .current .done) seen
    | parent => exact absurd (whole ▸ List.mem_cons_self) level
    | normal name =>
      have unbegun : path.components = [] ++ ((.normal name :: names) ++ (more ++ [last])) := whole
      have named := List.forall_mem_cons.mpr ⟨⟨name, rfl⟩, down⟩
      exact stat_of_made_by_names rooted unbegun filled named (fun u => .done) seen

end Volume

end ExtensionLock
