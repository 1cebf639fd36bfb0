import ExtensionLock.Proofs.Identities
import ExtensionLock.Proofs.Paths
import ExtensionLock.Proofs.UniqueNames

/-! Where working directories lie. The name of an extension holds a slash only if its isolation key
does; without one its directory is a child of the directory of all working directories, and what
happens to it is not seen anywhere else. -/

namespace ExtensionLock

namespace ExtensionId

def Flat (id : ExtensionId) : Prop := ∀ key, id.isolation = some key → '/' ∉ key.toList

def stem (id : ExtensionId) : List Char := id.label.repoDisplayName.toList ++ '~' :: id.name.toList

variable {id : ExtensionId} {name : String} {taken : String → Prop}

theorem baseName_toList (id : ExtensionId) : id.baseName.toList =
    id.stem ++ (match id.isolation with
      | some key => '~' :: key.toList
      | none => []) := by
  rw [baseName, stem]
  cases id.isolation <;> simp [String.toList_append]

theorem tilde_mem_stem (id : ExtensionId) : '~' ∈ id.stem :=
  List.mem_append_right _ List.mem_cons_self

theorem Parsed.slash_of_stem (parsed : id.Parsed) : '/' ∉ id.stem := by
  obtain ⟨⟨⟨s, read⟩, identifier, -⟩, -⟩ := parsed.proper
  obtain ⟨valid, -⟩ := Label.valid_of_ofChars (Label.ofChars_of_parse read)
  have inRepo : '/' ∉ id.label.repoDisplayName.toList := by
    rw [Label.repoDisplayName]
    split
    · decide
    · exact fun member => absurd (Label.repoChar_of_check valid.repo '/' member) (by decide)
  have inName : '/' ∉ id.name.toList :=
    fun member => absurd (identifierChar_of_mem identifier member) (by decide)
  intro member
  rcases List.mem_append.mp member with member | member
  · exact inRepo member
  · rcases List.mem_cons.mp member with same | member
    · revert same; decide
    · exact inName member

theorem candidate_toList (base : String) (n : Nat) :
    ∃ digits, '/' ∉ digits ∧ (candidate base n).toList = base.toList ++ digits := by
  cases n with
  | zero => exact ⟨[], List.not_mem_nil, (List.append_nil _).symm⟩
  | succ n =>
    refine ⟨Nat.toDigits 10 (n + 2), fun member => ?_, ?_⟩
    · exact absurd (Nat.isDigit_of_mem_toDigits (by decide) (by decide) member) (by decide)
    · rw [← Nat.toList_repr, ← String.toList_append]
      rfl

theorem FirstFree.name_toList (first : FirstFree taken id.baseName name) :
    ∃ rest, name.toList = id.stem ++ rest ∧ (id.Flat → '/' ∉ rest) := by
  obtain ⟨n, rfl, -, -⟩ := first
  obtain ⟨digits, clean, chars⟩ := candidate_toList id.baseName n
  rw [baseName_toList, List.append_assoc] at chars
  refine ⟨_, chars, fun flat member => ?_⟩
  rcases List.mem_append.mp member with member | member
  · cases keyed : id.isolation with
    | none =>
      rw [keyed] at member
      cases member
    | some key =>
      rw [keyed] at member
      rcases List.mem_cons.mp member with same | member
      · revert same; decide
      · exact flat key keyed member
  · exact clean member

theorem Parsed.segments_name (parsed : id.Parsed) (first : FirstFree taken id.baseName name) :
    ∃ head, Path.isAbsolute ⟨name⟩ = false ∧ '~' ∈ head.toList ∧
      Path.segments ⟨name⟩ = head :: (Path.segments ⟨name⟩).tail ∧
      (id.Flat → Path.segments ⟨name⟩ = [name]) := by
  obtain ⟨rest, chars, flat⟩ := first.name_toList
  have clean := parsed.slash_of_stem
  have relative : Path.isAbsolute ⟨name⟩ = false := by
    rw [Path.isAbsolute, chars]
    cases stem : id.stem with
    | nil => exact absurd (stem ▸ id.tilde_mem_stem) List.not_mem_nil
    | cons c others =>
      rw [stem] at clean
      rw [List.mem_cons, not_or] at clean
      simpa using Ne.symm clean.1
  have cut : Path.segments ⟨name⟩ = (Text.splitAt '/' name.toList).map String.ofList := by
    simp only [Path.segments, relative, Bool.false_eq_true, if_false]
  cases pieces : Text.splitAt '/' rest with
  | nil => exact absurd pieces (Text.splitAt_ne_nil _ _)
  | cons piece others =>
    have whole := Text.splitAt_clean clean pieces
    rw [← chars] at whole
    refine ⟨String.ofList (id.stem ++ piece), relative, ?_, ?_, fun noKey => ?_⟩
    · rw [String.toList_ofList]
      exact List.mem_append_left _ id.tilde_mem_stem
    · rw [cut, whole]
      rfl
    · have nothing : Text.splitAt '/' [] = [] :: [] := rfl
      have single := Text.splitAt_clean (flat noKey) nothing
      rw [List.append_nil, pieces] at single
      obtain ⟨rfl, rfl⟩ := List.cons.inj single
      rw [cut, whole, ← chars]
      exact congrArg (fun s => [s]) String.ofList_toList

end ExtensionId

namespace Path

/-- One component further than a directory, by a name that is neither one dot nor two. -/
def ChildOf (dir p : Path) : Prop :=
  ∃ name, name ≠ "." ∧ name ≠ ".." ∧ p.components = dir.components ++ [.normal name]

/-- Two paths lead to different places, neither of which is inside the other. -/
def Apart (p q : Path) : Prop := p.place.leadsTo q.place = false ∧ q.place.leadsTo p.place = false

theorem innerComponents_eq_nil {l : List String} :
    innerComponents l = [] ↔ ∀ s ∈ l, s = "" ∨ s = "." := by
  rw [innerComponents, List.filterMap_eq_nil_iff]
  refine forall₂_congr (fun s _ => ?_)
  constructor
  · intro nothing
    split at nothing
    · assumption
    · split at nothing <;> cases nothing
  · exact fun silent => if_pos silent

theorem innerComponents_normal {name : String} (tilde : '~' ∈ name.toList) (rest : List String) :
    innerComponents (name :: rest) = .normal name :: innerComponents rest := by
  have other (s : String) (free : '~' ∉ s.toList) : name ≠ s := fun same => free (same ▸ tilde)
  have silent : ¬ (name = "" ∨ name = ".") := fun same =>
    same.elim (other "" (by decide)) (other "." (by decide))
  refine List.filterMap_cons_some ?_
  rw [if_neg silent, if_neg (other ".." (by decide))]

theorem place_child {dir p : Path} {name : String}
    (child : p.components = dir.components ++ [.normal name]) : p.place = dir.place.enter name := by
  rw [place, place, child, List.foldl_append]
  rfl

theorem apart_children {dir p q : Path} {name name' : String}
    (child : p.components = dir.components ++ [.normal name])
    (child' : q.components = dir.components ++ [.normal name']) (other : name ≠ name') :
    p.Apart q := by
  have aside {a b : String} (differ : a ≠ b) :
      (dir.place.enter a).leadsTo (dir.place.enter b) = false := by
    refine Bool.eq_false_iff.mpr (fun leads => differ ?_)
    have prefixes := (List.prefix_append_right_inj dir.place.names).mp (Place.leadsTo_iff.mp leads)
    exact (List.cons_prefix_cons.mp prefixes).1
  rw [Apart, place_child child, place_child child']
  exact ⟨aside other, aside other.symm⟩

theorem Apart.away {p q : Path} (apart : p.Apart q) {r : Place}
    (inside : q.place.leadsTo r = true) : p.place.leadsTo r = false := by
  refine Bool.eq_false_iff.mpr (fun leads => ?_)
  rcases List.prefix_or_prefix_of_prefix (Place.leadsTo_iff.mp leads)
    (Place.leadsTo_iff.mp inside) with first | second
  · exact Bool.eq_false_iff.mp apart.1 (Place.leadsTo_iff.mpr first)
  · exact Bool.eq_false_iff.mp apart.2 (Place.leadsTo_iff.mpr second)

theorem away_of_child {dir p : Path} {name : String}
    (child : p.components = dir.components ++ [.normal name]) {r : Place}
    (outside : dir.place.leadsTo r = false) : p.place.leadsTo r = false := by
  refine Bool.eq_false_iff.mpr (fun leads => Bool.eq_false_iff.mp outside ?_)
  rw [place_child child] at leads
  exact Place.leadsTo_iff.mpr ((List.prefix_append _ _).trans (Place.leadsTo_iff.mp leads))

end Path

namespace FileTree

theorem entry?_removeDirectory (t : FileTree) {path : Path} {q : Place}
    (away : path.place.leadsTo q = false) :
    FileTree.entry? (t.removeDirectory path).1 q = t.entry? q := by
  have emptied : FileTree.entry? (t.emptied path.place) q = t.entry? q := by
    rw [FileTree.emptied, entry?_filter]
    split
    · exact (isFixed_directory t ‹_›).symm
    · rw [away, Bool.not_false, Bool.or_true, if_pos rfl]
  rw [removeDirectory]
  split
  · rename_i resolved
    cases resolve_eq_place resolved
    dsimp only
    split
    · rename_i removed
      obtain ⟨-, -, rfl⟩ := removeEmptied_eq_ok removed
      rw [entry?_cutOff, emptied, away]
      split
      · exact (isFixed_directory t ‹_›).symm
      · rfl
    · exact emptied
    · exact emptied
  · rfl
  · rfl
  · rfl

end FileTree

namespace WorkingDirectory

variable {base : Path} {name : String} {id : ExtensionId} {taken : String → Prop}

theorem entry?_remove (d : WorkingDirectory) (t : FileTree) {q : Place}
    (away : d.path.place.leadsTo q = false) :
    FileTree.entry? (d.remove t).1 q = t.entry? q ∧
      FileTree.entry? (d.clear t).1 q = t.entry? q := by
  have kept := FileTree.entry?_removeDirectory t away
  have same : (d.clear t).1 = (d.remove t).1 := rfl
  have removed : (d.remove t).1 = (t.removeDirectory d.path).1 := by
    rw [remove]
    split <;> rename_i result <;> rw [result]
  rw [same, removed]
  exact ⟨kept, kept⟩

theorem named_components {head : String} {rest : List String}
    (relative : Path.isAbsolute ⟨name⟩ = false) (tilde : '~' ∈ head.toList)
    (segments : Path.segments ⟨name⟩ = head :: rest) :
    (named base name).path.components = (base.join ⟨folder⟩).components ++
      .normal head :: Path.innerComponents rest := by
  rw [named, Path.join_components (folder_text base) relative, segments,
    Path.innerComponents_normal tilde]

end WorkingDirectory

namespace ExtensionId

section Named

variable {id : ExtensionId} {name : String} {taken : String → Prop}

/-- The working directory is a child of the directory of all of them just if what stands behind the
first slash of the name says nothing. -/
theorem Parsed.childOf_iff (parsed : id.Parsed) (first : FirstFree taken id.baseName name)
    (base : Path) :
    Path.ChildOf (base.join ⟨WorkingDirectory.folder⟩) (WorkingDirectory.named base name).path ↔
      ∀ s ∈ (Path.segments ⟨name⟩).tail, s = "" ∨ s = "." := by
  obtain ⟨head, relative, tilde, segments, -⟩ := parsed.segments_name first
  rw [← Path.innerComponents_eq_nil, Path.ChildOf,
    WorkingDirectory.named_components relative tilde segments]
  constructor
  · rintro ⟨other, -, -, same⟩
    exact (List.cons.inj (List.append_cancel_left same)).2
  · intro nothing
    refine ⟨head, ?_, ?_, by rw [nothing]⟩
    · rintro rfl
      exact absurd tilde (by decide)
    · rintro rfl
      exact absurd tilde (by decide)

theorem Parsed.components_of_flat (parsed : id.Parsed)
    (first : FirstFree taken id.baseName name) (flat : id.Flat) (base : Path) :
    (WorkingDirectory.named base name).path.components =
      (base.join ⟨WorkingDirectory.folder⟩).components ++ [.normal name] := by
  obtain ⟨head, relative, tilde, segments, only⟩ := parsed.segments_name first
  rw [only flat] at segments
  obtain ⟨rfl, -⟩ := List.cons.inj segments
  exact WorkingDirectory.named_components relative tilde (only flat)

theorem Parsed.childOf_of_flat (parsed : id.Parsed) (first : FirstFree taken id.baseName name)
    (flat : id.Flat) (base : Path) :
    Path.ChildOf (base.join ⟨WorkingDirectory.folder⟩)
      (WorkingDirectory.named base name).path := by
  obtain ⟨head, -, -, -, only⟩ := parsed.segments_name first
  refine (parsed.childOf_iff first base).mpr ?_
  rw [only flat]
  exact fun _ none => absurd none List.not_mem_nil

end Named

/-- What keeps the working directory of one extension from those of others, and from everything
else. -/
structure Confined (base : Path) (ids : List ExtensionId) (id : ExtensionId) (name : String) :
    Prop where
  child : Path.ChildOf (base.join ⟨WorkingDirectory.folder⟩) (WorkingDirectory.named base name).path
  apart : ∀ id' name', id' ≠ id → id'.Flat → (uniqueNames ids).get? id' = some name' →
    Path.Apart (WorkingDirectory.named base name).path (WorkingDirectory.named base name').path
  /-- a place outside the directory of all of them, or in that of another extension, is left -/
  untouched : ∀ (t : FileTree) q,
    (base.join ⟨WorkingDirectory.folder⟩).place.leadsTo q = false ∨
      (∃ id' name', id' ≠ id ∧ id'.Flat ∧ (uniqueNames ids).get? id' = some name' ∧
        (WorkingDirectory.named base name').path.place.leadsTo q = true) →
    FileTree.entry? ((WorkingDirectory.named base name).remove t).1 q = t.entry? q ∧
      FileTree.entry? ((WorkingDirectory.named base name).clear t).1 q = t.entry? q

/-- Each extension has a working directory, which is a child of the directory of all of them just if
its name says nothing behind its first slash. Without a slash in its isolation key it is one, lies
apart from those of all other such extensions, and is cleared without any loss elsewhere. -/
theorem workingDirectories_confined (ids : List ExtensionId) (parsed : ∀ id ∈ ids, id.Parsed)
    (base : Path) (id : ExtensionId) (member : id ∈ ids) :
    ∃ name, (uniqueNames ids).get? id = some name ∧
      (Path.ChildOf (base.join ⟨WorkingDirectory.folder⟩) (WorkingDirectory.named base name).path ↔
        ∀ s ∈ (Path.segments ⟨name⟩).tail, s = "" ∨ s = ".") ∧
      (id.Flat → Confined base ids id name) := by
  have first {id : ExtensionId} {name : String}
      (named : (uniqueNames ids).get? id = some name) := firstFree_uniqueNames named
  have parsed' {id : ExtensionId} {name : String}
      (named : (uniqueNames ids).get? id = some name) : id.Parsed :=
    parsed id (get?_uniqueNames_isSome.mp ⟨name, named⟩)
  obtain ⟨name, named⟩ := get?_uniqueNames_isSome.mpr member
  refine ⟨name, named, (parsed' named).childOf_iff (first named) base, fun flat => ?_⟩
  have here := (parsed' named).components_of_flat (first named) flat base
  have apart (id' : ExtensionId) (name' : String) (other : id' ≠ id) (flat' : id'.Flat)
      (named' : (uniqueNames ids).get? id' = some name') :
      Path.Apart (WorkingDirectory.named base name).path (WorkingDirectory.named base name').path :=
    Path.apart_children here ((parsed' named').components_of_flat (first named') flat' base)
      (fun same => other (uniqueNames_inj (same ▸ named') named))
  refine ⟨(parsed' named).childOf_of_flat (first named) flat base, apart, fun t q elsewhere =>
    WorkingDirectory.entry?_remove _ t ?_⟩
  rcases elsewhere with outside | ⟨id', name', other, flat', named', inside⟩
  · exact Path.away_of_child here outside
  · exact (apart id' name' other flat' named').away inside

def keyed : ExtensionId := ⟨⟨"", "", "deps.bzl"⟩, "deps", some "k"⟩

/-- An extension whose isolation key is the way up from its working directory and down again. -/
def climbing : ExtensionId := ⟨⟨"", "", "deps.bzl"⟩, "deps", some "k/../../../victim"⟩

def victimTree : FileTree := ⟨.ofList [(.ofNames ["out"], .directory),
  (.ofNames ["out", "modextwd"], .directory),
  (.ofNames ["out", "modextwd", "_main~deps~k"], .directory),
  (.ofNames ["victim"], .directory), (.ofNames ["victim", "keep"], .file [])]⟩

/-- Of two ids that a reader has made, one is confined to its directory. The other one, with slashes
in its key, clears a directory outside. -/
theorem climbing_unconfined :
    keyed.Parsed ∧ climbing.Parsed ∧
      Confined ⟨"out"⟩ [keyed, climbing] keyed "_main~deps~k" ∧
      (uniqueNames [keyed, climbing]).get? climbing = some "_main~deps~k/../../../victim" ∧
      ¬ Path.ChildOf (Path.join ⟨"out"⟩ ⟨WorkingDirectory.folder⟩)
        (WorkingDirectory.named ⟨"out"⟩ "_main~deps~k/../../../victim").path ∧
      victimTree.entry? (.ofNames ["victim", "keep"]) = some (.file []) ∧
      FileTree.entry? ((WorkingDirectory.named ⟨"out"⟩ "_main~deps~k/../../../victim").clear
        victimTree).1 (.ofNames ["victim", "keep"]) = none := by
  have plain : keyed.Parsed := ⟨"//:deps.bzl%deps%k", rfl⟩
  have slashed : climbing.Parsed := ⟨"//:deps.bzl%deps%k/../../../victim", rfl⟩
  have parsed : ∀ id ∈ [keyed, climbing], id.Parsed := by
    simp only [List.forall_mem_cons, List.not_mem_nil, false_imp_iff, implies_true, and_true]
    exact ⟨plain, slashed⟩
  have flat : keyed.Flat := by
    rintro key same
    cases same
    decide
  obtain ⟨name, named, -, confined⟩ :=
    workingDirectories_confined [keyed, climbing] parsed ⟨"out"⟩ keyed List.mem_cons_self
  obtain ⟨name', named', child, -⟩ := workingDirectories_confined [keyed, climbing] parsed ⟨"out"⟩
    climbing (List.mem_cons_of_mem _ List.mem_cons_self)
  have first : (uniqueNames [keyed, climbing]).get? keyed = some "_main~deps~k" := by decide
  have second : (uniqueNames [keyed, climbing]).get? climbing =
      some "_main~deps~k/../../../victim" := by decide
  rw [first] at named
  rw [second] at named'
  cases named
  cases named'
  refine ⟨plain, slashed, confined flat, second, fun here => ?_, by decide, by decide⟩
  exact absurd (child.mp here ".." (by decide)) (by decide)

end ExtensionId

end ExtensionLock
