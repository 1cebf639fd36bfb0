import ExtensionLock.Proofs.Ways

/-! Two file trees that differ in the content of one file at most. Every change keeps them like that
which does not go through that file: to make directories, to write elsewhere, and to remove a
directory that the file is not in. With one tree taken twice this says that the file stays. -/

namespace ExtensionLock

namespace FileTree

variable {place p q : Place} {c c' : Option Bytes} {t t' : FileTree} {path : Path}

def fileAt (t : FileTree) (p : Place) : Option Bytes :=
  match t.entry? p with
  | some (.file content) => some content
  | _ => none

/-- Two trees that differ in the content of one file at most. -/
structure Twins (place : Place) (c c' : Option Bytes) (t t' : FileTree) : Prop where
  left : t.fileAt place = c
  right : t'.fileAt place = c'
  here : t.entry? place = t'.entry? place ∨ (c.isSome ∧ c'.isSome)
  others : ∀ q, q ≠ place → t.entry? q = t'.entry? q

def Paired (place : Place) (c c' : Option Bytes) (r r' : FileTree × α) : Prop :=
  ∃ u u' answer, r = (u, answer) ∧ r' = (u', answer) ∧ Twins place c c' u u'

theorem Twins.refl (place : Place) (t : FileTree) :
    Twins place (t.fileAt place) (t.fileAt place) t t :=
  ⟨rfl, rfl, .inl rfl, fun _ _ => rfl⟩

theorem fileAt_eq_some {content : Bytes} :
    t.fileAt p = some content ↔ t.entry? p = some (.file content) := by
  unfold fileAt
  cases t.entry? p with
  | none => exact ⟨fun h => (by cases h), fun h => (by cases h)⟩
  | some e => cases e with
    | directory => exact ⟨fun h => (by cases h), fun h => (by cases h)⟩
    | file b => exact ⟨fun h => (by cases h; rfl), fun h => (by cases h; rfl)⟩

namespace Twins

theorem alike (twins : Twins place c c' t t') (q : Place) : t.entry? q = t'.entry? q ∨
    ∃ b b', t.entry? q = some (.file b) ∧ t'.entry? q = some (.file b') := by
  by_cases same : q = place
  · subst same
    rcases twins.here with same | ⟨some, some'⟩
    · exact .inl same
    · obtain ⟨b, rfl⟩ := Option.isSome_iff_exists.mp some
      obtain ⟨b', rfl⟩ := Option.isSome_iff_exists.mp some'
      exact .inr ⟨b, b', fileAt_eq_some.mp twins.left, fileAt_eq_some.mp twins.right⟩
  · exact .inl (twins.others q same)

theorem kind (twins : Twins place c c' t t') (q : Place) : t.kind? q = t'.kind? q := by
  rw [kind?, kind?]
  rcases twins.alike q with same | ⟨b, b', file, file'⟩
  · rw [same]
  · rw [file, file']
    rfl

theorem resolve_eq (twins : Twins place c c' t t') (path : Path) :
    t.resolve path = t'.resolve path := resolve_congr (fun q _ => twins.kind q)

theorem stat_eq (twins : Twins place c c' t t') (apart : path.place ≠ place) :
    t.stat path = t'.stat path :=
  stat_congr (fun q _ => twins.kind q) (twins.others _ apart)

theorem fileAt_congr (same : t.entry? p = t'.entry? p) : t.fileAt p = t'.fileAt p := by
  rw [fileAt, fileAt, same]

theorem change {u u' : FileTree} (twins : Twins place c c' t t')
    (keep : u.entry? place = t.entry? place) (keep' : u'.entry? place = t'.entry? place)
    (others : ∀ q, q ≠ place → u.entry? q = u'.entry? q) : Twins place c c' u u' where
  left := (fileAt_congr keep).trans twins.left
  right := (fileAt_congr keep').trans twins.right
  here := by
    rw [keep, keep']
    exact twins.here
  others := others

theorem insert (twins : Twins place c c' t t') (apart : q ≠ place) (e : Entry) :
    Twins place c c' ⟨t.entries.insert q e⟩ ⟨t'.entries.insert q e⟩ := by
  refine twins.change (entry?_insert_ne apart.symm e) (entry?_insert_ne apart.symm e) ?_
  intro r other
  rw [entry?_insert, entry?_insert, twins.others r other]

theorem insert_directory (twins : Twins place c c' t t') (vacant : t.entry? q = none) :
    Twins place c c' ⟨t.entries.insert q .directory⟩ ⟨t'.entries.insert q .directory⟩ := by
  by_cases same : q = place
  · subst same
    have nothing : c = none := by rw [← twins.left, fileAt, vacant]
    have vacant' : t'.entry? q = none := by
      rcases twins.here with same | ⟨some, -⟩
      · rw [← same, vacant]
      · rw [nothing] at some
        cases some
    have nothing' : c' = none := by rw [← twins.right, fileAt, vacant']
    have made (u : FileTree) : entry? ⟨u.entries.insert q .directory⟩ q = some .directory := by
      rw [entry?_insert, if_pos rfl, ite_self]
    refine ⟨?_, ?_, .inl ((made t).trans (made t').symm), fun r other => ?_⟩
    · rw [nothing, fileAt, made]
    · rw [nothing', fileAt, made]
    · rw [entry?_insert, entry?_insert, twins.others r other]
  · exact twins.insert same .directory

theorem filter (twins : Twins place c c' t t') (keep : Place → Bool) (stays : keep place = true) :
    Twins place c c' ⟨t.entries.filter (fun k _ => keep k)⟩
      ⟨t'.entries.filter (fun k _ => keep k)⟩ := by
  have same (u : FileTree) : entry? ⟨u.entries.filter (fun k _ => keep k)⟩ place =
      u.entry? place := by
    rw [entry?_filter, if_pos stays]
    split
    · rename_i fixed
      exact (isFixed_directory u fixed).symm
    · rfl
  refine twins.change (same t) (same t') (fun r other => ?_)
  rw [entry?_filter, entry?_filter, twins.others r other]

theorem paired (twins : Twins place c c' t t') (answer : α) :
    Paired place c c' (t, answer) (t', answer) := ⟨t, t', answer, rfl, rfl, twins⟩

theorem showsKinds (place : Place) (c c' : Option Bytes) (seen : Place → Prop) :
    ShowsKinds (Twins place c c') seen where
  kind _ _ q twins _ := twins.kind q
  made _ _ _ twins _ vacant := twins.insert_directory vacant

theorem ne_of_outside (outside : p.leadsTo place = false) : p ≠ place := by
  rintro rfl
  rw [Place.leadsTo_iff.mpr (List.prefix_refl _)] at outside
  cases outside

theorem removeEmptied (twins : Twins place c c' t t')
    (outside : path.place.leadsTo place = false) :
    (∃ e, t.removeEmptied path = .error e ∧ t'.removeEmptied path = .error e) ∨
      ∃ u u', t.removeEmptied path = .ok u ∧ t'.removeEmptied path = .ok u' ∧
        Twins place c c' u u' := by
  simp only [FileTree.removeEmptied, twins.resolve_eq path, twins.stat_eq (ne_of_outside outside)]
  cases resolved : t'.resolve path with
  | error e => exact .inl ⟨e, rfl, rfl⟩
  | ok q =>
    cases resolve_eq_place resolved
    cases t'.stat path with
    | error e => exact .inl ⟨e, rfl, rfl⟩
    | ok e => cases e with
      | file b => exact .inl ⟨_, rfl, rfl⟩
      | directory =>
        simp only [bind, Except.bind]
        split
        · exact .inl ⟨_, rfl, rfl⟩
        · split
          · exact .inl ⟨_, rfl, rfl⟩
          · split
            · exact .inl ⟨_, rfl, rfl⟩
            · exact .inr ⟨_, _, rfl, rfl, twins.filter _ (by rw [outside]; rfl)⟩

theorem removeDirectory (twins : Twins place c c' t t')
    (outside : path.place.leadsTo place = false) :
    Paired place c c' (t.removeDirectory path) (t'.removeDirectory path) := by
  simp only [FileTree.removeDirectory, twins.resolve_eq path, twins.stat_eq (ne_of_outside outside)]
  cases t'.stat path with
  | error e => exact twins.paired _
  | ok entry => cases entry with
    | file b => exact twins.paired _
    | directory => cases resolved : t'.resolve path with
      | error e => exact twins.paired _
      | ok q =>
        cases resolve_eq_place resolved
        have emptied : Twins place c c' (t.emptied path.place) (t'.emptied path.place) :=
          twins.filter _ (by rw [outside, Bool.not_false, Bool.or_true])
        rcases emptied.removeEmptied outside with ⟨e, failed, failed'⟩ | ⟨u, u', done, done', rest⟩
        · simp only [failed, failed']
          cases e <;> exact emptied.paired _
        · simp only [done, done']
          exact rest.paired _

end Twins

end FileTree

end ExtensionLock
