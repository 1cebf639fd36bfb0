import ExtensionLock.Proofs.Volumes

/-! What the calls of a volume can do. Each of them changes nothing, or one item at a place that its
path leads to; and whatever stands somewhere stands in directories after it as before. -/

namespace ExtensionLock

namespace Volume

variable {v v' : Volume} {p q place dir : Place} {path source target : Path} {name : String}
  {item : Item} {content : Bytes}

theorem fill_plain (plain : ∀ number, v.item? place ≠ some (.shared number)) :
    v.fill place content = v.put place (.file content) := by
  rw [fill]
  split
  · exact absurd ‹_› (plain _)
  · rfl

theorem write_cases (v : Volume) (path : Path) (content : Bytes) :
    (∃ e, v.write path content = (v, .error e)) ∨
      ∃ place part result, v.write path content = (v.fill place part, result) ∧
        v.resolve path = .ok place ∧ v.item? place ≠ some .directory ∧
        path.endsInDirectory = false ∧ part <+: content ∧ (result = .ok () → part = content) := by
  rw [write]
  cases resolved : v.resolve path with
  | error e => exact .inl ⟨e, rfl⟩
  | ok place =>
    dsimp only
    split
    · exact .inl ⟨_, rfl⟩
    split
    · exact .inl ⟨_, rfl⟩
    rename_i ends free
    have ends : path.endsInDirectory = false := Bool.eq_false_iff.mpr ends
    cases v.refuses (.write place) with
    | some e => exact .inl ⟨e, rfl⟩
    | none =>
      refine .inr ⟨place, ?_⟩
      have whole : content <+: content ∧ (Except.ok () = (.ok () : Except IoError Unit) →
        content = content) := ⟨List.prefix_refl _, fun _ => rfl⟩
      cases v.room place with
      | none => exact ⟨content, _, rfl, rfl, free, ends, whole⟩
      | some space =>
        dsimp only
        split
        · exact ⟨content, _, rfl, rfl, free, ends, whole⟩
        · exact ⟨content.take space.1, _, rfl, rfl, free, ends, List.take_prefix _ _,
            fun h => (by cases h)⟩

/-- A rename fails, or it moves a file or link to the place of the other name. Two names of one
file both stay. -/
theorem rename_cases (v : Volume) (source target : Path) :
    (∃ e, v.rename source target = (v, .error e)) ∨
      ∃ origin place item, v.locate source = .ok origin ∧ v.locate target = .ok place ∧
        v.item? origin = some item ∧ v.item? place ≠ some .directory ∧
        target.endsInDirectory = false ∧
        (v.rename source target = ((v.without origin).put place item, .ok ()) ∨
          (∃ number, item = .shared number) ∧ v.rename source target = (v, .ok ())) := by
  rw [rename]
  cases from' : v.locate source with
  | error e => exact .inl ⟨e, rfl⟩
  | ok origin =>
    cases to' : v.locate target with
    | error e => exact .inl ⟨e, rfl⟩
    | ok place =>
      dsimp only
      split
      · exact .inl ⟨_, rfl⟩
      · exact .inl ⟨_, rfl⟩
      rename_i item other here
      split
      · exact .inl ⟨_, rfl⟩
      rename_i free
      split
      · exact .inl ⟨_, rfl⟩
      rename_i ends
      have ends : target.endsInDirectory = false := by
        rw [Bool.or_eq_true, not_or] at ends
        exact Bool.eq_false_iff.mpr ends.2
      cases v.refuses (.move origin place) with
      | some e => exact .inl ⟨e, rfl⟩
      | none =>
        refine .inr ⟨origin, place, item, rfl, rfl, here, free, ends, ?_⟩
        dsimp only
        split
        · split
          · exact .inr ⟨⟨_, rfl⟩, rfl⟩
          · exact .inl rfl
        · exact .inl rfl

theorem removeFile_located (located : v.locate path = .ok place)
    (here : v.item? place = some (.file content)) (ends : path.endsInDirectory = false) :
    v.removeFile path = match v.refuses (.remove place) with
      | some e => (v, .error e)
      | none => (v.without place, .ok ()) := by
  cases refused : v.refuses (.remove place) with
  | some e => simp only [removeFile, located, here, ends, refused, Bool.false_eq_true, if_false]
  | none => simp only [removeFile, located, here, ends, refused, Bool.false_eq_true, if_false]

theorem paved_createDirectories (v : Volume) (path : Path) :
    Paved ((v.createDirectories path).1.Passes linkLimit v.start path.components) v
      (v.createDirectories path).1 := by
  obtain ⟨c, before, made⟩ := createDirectories_along v path
  rw [made]
  exact (paved_makeDirectories v linkLimit v.start c).mono (fun q passes => passes.mono before)

namespace Rooted

theorem above (rooted : v.Rooted) (here : v.item? dir = some .directory)
    (leads : q.leadsTo (dir.enter name) = true) (other : q ≠ dir.enter name) :
    v.item? q = some .directory := by
  have leads := (Place.leadsTo_enter leads).resolve_left other
  by_cases same : q = dir
  · rw [same, here]
  · exact rooted dir _ here q leads same

theorem put (rooted : v.Rooted) (here : v.item? dir = some .directory)
    (fits : v.item? (dir.enter name) = some .directory → item = .directory) :
    (v.put (dir.enter name) item).Rooted := by
  intro q found there r leads other
  by_cases same : r = dir.enter name
  · subst same
    rw [item?_put_ne (Ne.symm other)] at there
    rw [item?_put, fits (rooted q found there _ leads other), if_pos rfl]
    exact ite_self _
  · rw [item?_put_ne same]
    rcases (item?_put_cases q : (v.put (dir.enter name) item).item? q = _ ∨ _) with kept | rfl
    · exact rooted q found (kept ▸ there) r leads other
    · exact rooted.above here leads other

theorem nothing (refuses : Access → Option IoError) : (Volume.holding [] refuses).Rooted := by
  intro q found here d leads _
  by_cases fixed : q.isFixed = true
  · exact isFixed_directory _ (Place.isFixed_of_leadsTo leads fixed)
  · rw [item?, if_neg fixed] at here
    cases here

theorem makeDirectories (rooted : v.Rooted) (n : Nat) (p : Place) (c : List Path.Component) :
    Rooted (v.makeDirectories n p c).1 := by
  induction c generalizing v n p with
  | nil => exact rooted
  | cons step rest ih =>
    cases step with
    | root => exact ih rooted n .root
    | current => exact ih rooted n p
    | parent =>
      rw [Volume.makeDirectories]
      split
      · exact rooted
      · exact ih rooted n p.above
    | normal name =>
      rw [Volume.makeDirectories]
      cases entered : v.enter p name with
      | error e => exact rooted
      | ok next =>
        obtain ⟨searched, -, rfl⟩ := enter_eq_ok.mp entered
        dsimp only
        split
        · split
          · exact rooted
          · exact ih (rooted.put (search_eq_ok.mp searched).1 (fun _ => rfl)) n _
        · split
          · exact rooted
          · split
            · exact ih rooted _ _
            · exact rooted
            · exact rooted

theorem createDirectories (rooted : v.Rooted) (path : Path) :
    Rooted (v.createDirectories path).1 := by
  obtain ⟨c, -, made⟩ := createDirectories_along v path
  rw [made]
  exact rooted.makeDirectories linkLimit v.start c

end Rooted

end Volume

end ExtensionLock
