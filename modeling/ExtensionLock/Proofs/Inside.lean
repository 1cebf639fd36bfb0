import ExtensionLock.Proofs.Ways

/-! What lies inside a directory. A path that stays inside leads, put behind the path of a
directory, to a place in that directory, and passes nothing else but the way to it. So for what is
done through such paths two trees are the same which are the same inside. -/

namespace ExtensionLock

namespace Path

variable {a b : Path} {q : Place}

/-- The path is absolute or takes a step up. -/
def Climbs (p : Path) : Prop := p.isAbsolute = true ∨ .parent ∈ p.components

instance (p : Path) : Decidable p.Climbs := inferInstanceAs (Decidable (_ ∨ _))

def normals (p : Path) : List Component := p.components.filter Component.isName

theorem root_of_mem (member : .root ∈ b.components) : b.isAbsolute = true := by
  by_contra relative
  have inner : ∃ rest, .root ∈ innerComponents rest := by
    unfold components at member
    rw [if_neg relative] at member
    split at member
    · exact ⟨_, (List.mem_cons.mp member).resolve_left (fun same => (by cases same))⟩
    · exact ⟨_, member⟩
  obtain ⟨rest, inner⟩ := inner
  rcases inner_cases inner with same | same <;> cases same

theorem staysInside_iff : b.staysInside = true ↔ ¬ b.Climbs := by
  rw [staysInside, List.all_eq_true]
  constructor
  · rintro down (absolute | up)
    · have first : .root ∈ b.components := by
        rw [components, if_pos absolute]
        exact List.mem_cons_self
      cases down _ first
    · cases down _ up
  · intro level c member
    cases c with
    | root => exact absurd (.inl (root_of_mem member)) level
    | parent => exact absurd (.inr member) level
    | current => rfl
    | normal name => rfl

def Component.Down : Component → Prop
  | .current => True
  | .normal name => name ≠ ".." ∧ name ≠ "/"
  | _ => False

theorem down_of_inside (inside : b.staysInside = true) : ∀ c ∈ b.components, c.Down := by
  intro c member
  have down := List.all_eq_true.mp inside c member
  cases c with
  | root => cases down
  | parent => cases down
  | current => trivial
  | normal name =>
    obtain ⟨slash, -, -, double⟩ := normal_of_mem member
    refine ⟨double, ?_⟩
    rintro rfl
    exact slash (by decide)

theorem follow_normals {steps : List Component} (down : ∀ c ∈ steps, c.Down) (p : Place) :
    (steps.filter Component.isName).foldl Place.follow p = steps.foldl Place.follow p := by
  induction steps generalizing p with
  | nil => rfl
  | cons c steps ih =>
    obtain ⟨here, later⟩ := List.forall_mem_cons.mp down
    cases c with
    | root => cases here
    | parent => cases here
    | current => exact ih later p
    | normal name => exact ih later (p.enter name)

theorem climbs_of_not_inside (outside : b.staysInside = false) : b.Climbs :=
  not_not.mp (mt staysInside_iff.mpr (Bool.eq_false_iff.mp outside))

theorem relative_of_inside (inside : b.staysInside = true) : b.isAbsolute = false :=
  Bool.eq_false_iff.mpr (fun absolute => staysInside_iff.mp inside (.inl absolute))

theorem innerComponents_normals (inside : b.staysInside = true) :
    innerComponents b.segments = b.normals := by
  have relative := relative_of_inside inside
  have same : b.normals = (innerComponents b.segments).filter Component.isName := by
    unfold normals components
    rw [if_neg (Bool.eq_false_iff.mp relative)]
    split
    · rename_i rest first
      rw [first]
      rfl
    · rfl
  rw [same, List.filter_eq_self.mpr]
  intro c member
  refine (inner_cases member).resolve_left (fun up => ?_)
  exact down_of_inside inside .parent (inner_subset b relative (up ▸ member))

theorem join_down (a : Path) (inside : b.staysInside = true) : ∃ rest,
    (a.join b).components = a.components ++ rest ∧ (∀ c ∈ rest, c.Down) ∧
      rest.filter Component.isName = b.normals ∧ (a.text ≠ "" → rest = b.normals) := by
  have relative := relative_of_inside inside
  have down := down_of_inside inside
  by_cases named : a.text = ""
  · obtain ⟨text⟩ := a
    cases named
    have alone : join ⟨""⟩ b = b := if_pos (.inr rfl)
    exact ⟨b.components, by rw [alone]; rfl, down, rfl, fun filled => absurd rfl filled⟩
  · refine ⟨b.normals, ?_, fun c member => down c (List.mem_of_mem_filter member),
      List.filter_eq_self.mpr (fun c member => (List.mem_filter.mp member).2), fun _ => rfl⟩
    rw [join_components named relative, innerComponents_normals inside]

theorem place_join (a : Path) (inside : b.staysInside = true) :
    (a.join b).place = b.normals.foldl Place.follow a.place := by
  obtain ⟨rest, joined, down, names, -⟩ := join_down a inside
  rw [place, joined, List.foldl_append, ← names, follow_normals down]
  rfl

end Path

namespace Place

variable {p q r : Place}

/-- A place in a directory, or the directory itself: only names lead from there on. -/
def Holds (p q : Place) : Prop :=
  ∃ names, q.names = p.names ++ names ∧ ∀ name ∈ names, name ≠ ".." ∧ name ≠ "/"

theorem Holds.refl (p : Place) : p.Holds p :=
  ⟨[], (List.append_nil _).symm, fun _ member => (by cases member)⟩

theorem Holds.leadsTo (held : p.Holds q) : p.leadsTo q = true := by
  obtain ⟨names, eq, -⟩ := held
  exact leadsTo_iff.mpr ⟨names, eq.symm⟩

theorem Holds.trans (first : p.Holds q) (second : q.Holds r) : p.Holds r := by
  obtain ⟨names, eq, proper⟩ := first
  obtain ⟨names', eq', proper'⟩ := second
  refine ⟨names ++ names', by rw [eq', eq, List.append_assoc], fun name member => ?_⟩
  exact (List.mem_append.mp member).elim (proper name) (proper' name)

theorem holds_follow {steps : List Path.Component} (down : ∀ c ∈ steps, c.Down) (p : Place) :
    p.Holds (steps.foldl Place.follow p) := by
  induction steps generalizing p with
  | nil => exact .refl p
  | cons c steps ih =>
    obtain ⟨here, later⟩ := List.forall_mem_cons.mp down
    refine Holds.trans ?_ (ih later (p.follow c))
    cases c with
    | root => cases here
    | parent => cases here
    | current => exact .refl p
    | normal name => exact ⟨[name], rfl, fun other member => List.mem_singleton.mp member ▸ here⟩

end Place

namespace Path

variable {a b : Path} {q : Place}

theorem holds_join (a : Path) (inside : b.staysInside = true) :
    a.place.Holds (a.join b).place := by
  obtain ⟨rest, joined, down, -⟩ := join_down a inside
  rw [place, place, joined, List.foldl_append]
  exact Place.holds_follow down _

def Sees (d : Path) (q : Place) : Prop := d.Passes q ∨ d.place.Holds q

theorem sees_of_join (inside : b.staysInside = true) (passes : (a.join b).Passes q) : a.Sees q := by
  obtain ⟨rest, joined, down, -⟩ := join_down a inside
  obtain ⟨steps, first, rfl⟩ := passes
  rw [joined] at first
  rcases List.prefix_or_prefix_of_prefix first (List.prefix_append _ _) with before | ⟨more, rfl⟩
  · exact .inl ⟨steps, before, rfl⟩
  · rw [List.foldl_append]
    have short := (List.prefix_append_right_inj _).mp first
    exact .inr (Place.holds_follow (fun c member => down c (short.subset member)) _)

end Path

namespace FileTree

variable {d path : Path} {t t' t'' : FileTree} {p q : Place}

/-- Outside of a directory nothing has changed, but that missing directories were made on the way to
it. -/
def ChangedWithin (d : Path) (t t' : FileTree) : Prop :=
  ∀ q, ¬ d.place.Holds q → KeptAt q (d.Passes q) t t'

theorem ChangedWithin.refl (d : Path) (t : FileTree) : ChangedWithin d t t :=
  fun _ _ => .inl rfl

theorem ChangedWithin.trans (first : ChangedWithin d t t') (second : ChangedWithin d t' t'') :
    ChangedWithin d t t'' := fun q outside => (first q outside).trans (second q outside)

theorem Paved.within (paved : Paved path t t') (seen : ∀ q, path.Passes q → d.Sees q) :
    ChangedWithin d t t' := by
  intro q outside
  rcases paved q with same | ⟨vacant, made, passed⟩
  · exact .inl same
  · exact .inr ⟨vacant, made, (seen q passed).resolve_right outside⟩

theorem ChangedWithin.insert (holds : d.place.Holds p) (e : Entry) :
    ChangedWithin d t ⟨t.entries.insert p e⟩ := by
  intro q outside
  rw [KeptAt, entry?_insert]
  split
  · exact .inl (isFixed_directory t ‹_›).symm
  · rw [if_neg (fun same : q = p => outside (same ▸ holds))]
    exact .inl rfl

/-- Two trees that are the same inside a directory and show the same kinds on the way to it. -/
structure SameWithin (d : Path) (t t' : FileTree) : Prop where
  inside : ∀ q, d.place.Holds q → t.entry? q = t'.entry? q
  way : ∀ q, d.Passes q → t.kind? q = t'.kind? q

namespace SameWithin

theorem kind (same : SameWithin d t t') (seen : d.Sees q) : t.kind? q = t'.kind? q := by
  rcases seen with passed | held
  · exact same.way q passed
  · rw [kind?, kind?, same.inside q held]

theorem insert (same : SameWithin d t t') (p : Place) (e : Entry) :
    SameWithin d ⟨t.entries.insert p e⟩ ⟨t'.entries.insert p e⟩ := by
  constructor
  · intro q held
    rw [entry?_insert, entry?_insert, same.inside q held]
  · intro q passed
    have before := same.way q passed
    rw [kind?, kind?] at before ⊢
    rw [entry?_insert, entry?_insert]
    split
    · rfl
    · split
      · rfl
      · exact before

theorem showsKinds (d : Path) : ShowsKinds (SameWithin d) d.Sees where
  kind _ _ _ same seen := same.kind seen
  made _ _ _ same _ _ := same.insert _ _

end SameWithin

end FileTree

end ExtensionLock
