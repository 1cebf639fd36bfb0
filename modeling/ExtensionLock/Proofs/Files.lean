import ExtensionLock.WorkingDirectory
import ExtensionLock.Proofs.SortedMap
import ExtensionLock.Proofs.Steps

/-! What changes to a file tree leave as it is. A path is followed through directories only, so it
leads to the same place for as long as those directories stay; and content comes into a tree by a
write alone. -/

namespace ExtensionLock

namespace Place

def follow (p : Place) : Path.Component → Place
  | .root => root
  | .current => p
  | .parent => p.above
  | .normal name => p.enter name

theorem eq_of_names {p q : Place} (same : p.names = q.names) : p = q := by
  obtain ⟨names, depth, eq⟩ := p
  obtain ⟨names', depth', eq'⟩ := q
  cases same
  cases eq
  cases eq'
  rfl

theorem leadsTo_iff {p q : Place} : p.leadsTo q = true ↔ p.names <+: q.names :=
  List.isPrefixOf_iff_prefix

theorem leadsTo_enter {r p : Place} {name : String} (leads : r.leadsTo (p.enter name) = true) :
    r = p.enter name ∨ r.leadsTo p = true := by
  rcases List.prefix_concat_iff.mp (leadsTo_iff.mp leads) with same | before
  · exact .inl (eq_of_names same)
  · exact .inr (leadsTo_iff.mpr before)

end Place

/-- The place that a path names in a file system without links. -/
def Path.place (p : Path) : Place := p.components.foldl Place.follow .here

namespace FileTree

variable {t t' : FileTree} {p q : Place}

/-- A place and everything on the way to it are directories. -/
def Open (t : FileTree) (p : Place) : Prop :=
  ∀ r, r.leadsTo p = true → t.entry? r = some .directory

/-- Everything on the way to a place is a directory. -/
def Reached (t : FileTree) (p : Place) : Prop :=
  ∀ r, r.leadsTo p = true → r ≠ p → t.entry? r = some .directory

theorem Reached.open (reached : t.Reached p) (here : t.entry? p = some .directory) : t.Open p := by
  intro r leads
  by_cases same : r = p
  · rw [same]
    exact here
  · exact reached r leads same

theorem Open.reached (opened : t.Open p) : t.Reached p := fun r leads _ => opened r leads

theorem Open.enter (opened : t.Open p) (name : String) : t.Reached (p.enter name) := by
  intro r leads other
  exact opened r ((Place.leadsTo_enter leads).resolve_left other)

theorem Open.above (opened : t.Open p) : t.Reached p.above := by
  rw [Place.above]
  split
  · exact opened.enter ".."
  · split
    · exact opened.reached
    · intro r leads _
      have before : p.names.dropLast <+: p.names := List.dropLast_prefix _
      exact opened r (Place.leadsTo_iff.mpr ((Place.leadsTo_iff.mp leads).trans before))

theorem reached_here (t : FileTree) : t.Reached .here := by
  intro r leads other
  have nothing : r.names = [] := List.prefix_nil.mp (Place.leadsTo_iff.mp leads)
  exact absurd (Place.eq_of_names nothing) other

theorem reached_root (t : FileTree) : t.Reached .root := by
  intro r leads other
  have before : r.names <+: [] ++ ["/"] := Place.leadsTo_iff.mp leads
  rcases List.prefix_concat_iff.mp before with same | nothing
  · exact absurd (Place.eq_of_names same) other
  · have here : r = .here := Place.eq_of_names (List.prefix_nil.mp nothing)
    rw [here]
    rfl

theorem walk_directory (here : t.entry? p = some .directory) (step : Path.Component)
    (rest : List Path.Component) :
    t.walk p (step :: rest) = match step with
      | .normal name =>
        if longestName < (Text.bytes name).length then .error .nameTooLong
        else t.walk (p.enter name) rest
      | step => t.walk (p.follow step) rest := by
  cases step with
  | root => rfl
  | current => rfl
  | parent => simp only [walk, here, Place.follow]
  | normal name => rw [walk, here]

theorem directory_of_walk {step : Path.Component} {rest : List Path.Component}
    (walked : t.walk p (step :: rest) = .ok q) :
    step = .root ∨ step = .current ∨ t.entry? p = some .directory := by
  cases step with
  | root => exact .inl rfl
  | current => exact .inr (.inl rfl)
  | parent =>
    cases here : t.entry? p with
    | none => simp only [walk, here] at walked; cases walked
    | some e => cases e with
      | file content => simp only [walk, here] at walked; cases walked
      | directory => exact .inr (.inr rfl)
  | normal name =>
    cases here : t.entry? p with
    | none => simp only [walk, here] at walked; cases walked
    | some e => cases e with
      | file content => simp only [walk, here] at walked; cases walked
      | directory => exact .inr (.inr rfl)

theorem walk_transfer (keep : ∀ d, t.Open d → t'.entry? d = some .directory)
    (reached : t.Reached p) {steps : List Path.Component} (walked : t.walk p steps = .ok q) :
    t'.walk p steps = .ok q := by
  induction steps generalizing p with
  | nil => exact walked
  | cons step rest ih =>
    rcases directory_of_walk walked with rfl | rfl | here
    · exact ih (reached_root t) walked
    · exact ih reached walked
    · have opened := reached.open here
      rw [walk_directory here] at walked
      rw [walk_directory (keep p opened)]
      cases step with
      | root => exact ih (reached_root t) walked
      | current => exact ih reached walked
      | parent => exact ih opened.above walked
      | normal name =>
        dsimp only at walked ⊢
        split at walked
        · cases walked
        · rename_i short
          rw [if_neg short]
          exact ih (opened.enter name) walked

theorem walk_eq_follow {steps : List Path.Component} (walked : t.walk p steps = .ok q) :
    q = steps.foldl Place.follow p := by
  induction steps generalizing p with
  | nil =>
    cases walked
    rfl
  | cons step rest ih =>
    rcases directory_of_walk walked with rfl | rfl | here
    · exact ih walked
    · exact ih walked
    · rw [walk_directory here] at walked
      cases step with
      | root => exact ih walked
      | current => exact ih walked
      | parent => exact ih walked
      | normal name =>
        dsimp only at walked
        split at walked
        · cases walked
        · exact ih walked

variable {path : Path}

theorem resolve_transfer (keep : ∀ d, t.Open d → t'.entry? d = some .directory)
    (resolved : t.resolve path = .ok q) : t'.resolve path = .ok q := by
  rw [resolve] at resolved ⊢
  split at resolved
  · cases resolved
  · split at resolved
    · cases resolved
    · rename_i named
      rw [if_neg named]
      exact walk_transfer keep (reached_here t) resolved

theorem resolve_eq_place (resolved : t.resolve path = .ok q) : q = path.place := by
  rw [resolve] at resolved
  split at resolved
  · cases resolved
  · split at resolved
    · cases resolved
    · exact walk_eq_follow resolved

theorem read_eq_ok {content : Bytes} : t.read path = .ok content ↔
    ∃ q, t.resolve path = .ok q ∧ t.entry? q = some (.file content) ∧
      path.endsInDirectory = false := by
  simp only [read, stat]
  cases resolved : t.resolve path with
  | error e => exact ⟨fun h => (by cases h), fun ⟨_, h, _⟩ => (by cases h)⟩
  | ok q =>
    constructor
    · intro found
      refine ⟨q, rfl, ?_⟩
      cases here : t.entry? q with
      | none => simp only [bind, Except.bind, here] at found; cases found
      | some e => cases e with
        | directory => simp only [bind, Except.bind, here] at found; cases found
        | file inside =>
          cases ends : path.endsInDirectory with
          | true => simp only [bind, Except.bind, here, ends, if_pos] at found; cases found
          | false =>
            simp only [bind, Except.bind, here, ends, Bool.false_eq_true, if_false] at found
            cases found
            exact ⟨rfl, rfl⟩
    · rintro ⟨_, h, here, ends⟩
      cases h
      simp only [bind, Except.bind, here, ends, Bool.false_eq_true, if_false]

theorem isFile_iff : t.isFile path = true ↔ ∃ content, t.read path = .ok content := by
  simp only [isFile, read]
  cases t.stat path with
  | error e => simp [bind, Except.bind]
  | ok e => cases e <;> simp [bind, Except.bind]

theorem entry?_insert (place : Place) (e : Entry) (q : Place) :
    entry? ⟨t.entries.insert place e⟩ q =
      if q.isFixed then some .directory else if q = place then some e else t.entry? q := by
  unfold entry?
  split
  · rfl
  · rw [SortedMap.get?_insert_eq]

theorem entry?_filter (t : FileTree) (keep : Place → Bool) (q : Place) :
    entry? ⟨t.entries.filter (fun k _ => keep k)⟩ q =
      if q.isFixed then some .directory else if keep q then t.entry? q else none := by
  unfold entry?
  split
  · rfl
  · rw [SortedMap.get?_filter]
    cases t.entries.get? q with
    | none => simp
    | some e => cases keep q <;> simp [Option.filter]

theorem entry?_cutOff (place q : Place) :
    FileTree.entry? (t.cutOff place) q =
      if q.isFixed then some .directory else if place.leadsTo q then none else t.entry? q := by
  rw [cutOff, entry?_filter]
  cases place.leadsTo q <;> rfl

theorem isFixed_directory (t : FileTree) {q : Place} (fixed : q.isFixed = true) :
    t.entry? q = some .directory := if_pos fixed

theorem vacant_cutOff (place : Place) (vacant : t.entry? q ≠ some .directory) :
    FileTree.entry? (t.cutOff place) q ≠ some .directory := by
  rw [entry?_cutOff, if_neg (fun fixed => vacant (isFixed_directory t fixed))]
  split
  · exact fun directory => (by cases directory)
  · exact vacant

theorem entry?_insert_ne (other : q ≠ p) (e : Entry) :
    entry? ⟨t.entries.insert p e⟩ q = t.entry? q := by
  rw [entry?_insert, if_neg other]
  split
  · rename_i fixed
    exact (isFixed_directory t fixed).symm
  · rfl

/-- A tree in which each content was in another tree, or was written. -/
def Brought (t t' : FileTree) (content : Bytes) : Prop :=
  ∀ q b, t'.entry? q = some (.file b) → t.entry? q = some (.file b) ∨ b = content

theorem brought_insert {place : Place} {e : Entry} {content : Bytes}
    (new : ∀ b, e = .file b → b = content) : Brought t ⟨t.entries.insert place e⟩ content := by
  intro q b found
  rw [entry?_insert] at found
  split at found
  · cases found
  · split at found
    · exact .inr (new b (Option.some.inj found))
    · exact .inl found

theorem brought_filter (keep : Place → Entry → Bool) (content : Bytes) :
    Brought t ⟨t.entries.filter keep⟩ content := by
  intro q b found
  unfold entry? at found ⊢
  split at found
  · cases found
  · rename_i free
    rw [SortedMap.get?_filter] at found
    rw [if_neg free]
    exact .inl (Option.filter_eq_some_iff.mp found).1

theorem brought_cutOff (place : Place) (content : Bytes) : Brought t (t.cutOff place) content :=
  brought_filter _ content

theorem Brought.trans {t'' : FileTree} {content : Bytes} (first : Brought t t' content)
    (second : Brought t' t'' content) : Brought t t'' content := by
  intro q b found
  rcases second q b found with found | same
  · exact first q b found
  · exact .inr same

theorem Brought.refl (t : FileTree) (content : Bytes) : Brought t t content :=
  fun _ _ found => .inl found

structure Written (t : FileTree) (path : Path) (content : Bytes) (place : Place) : Prop where
  resolved : t.resolve path = .ok place
  ends : path.endsInDirectory = false
  vacant : t.entry? place ≠ some .directory

theorem write_eq_ok {content : Bytes} (wrote : t.write path content = .ok t') :
    ∃ place, Written t path content place ∧ t' = ⟨t.entries.insert place (.file content)⟩ := by
  obtain ⟨place, resolved, wrote⟩ := exists_of_bind_eq_ok wrote
  split at wrote
  · cases wrote
  · rename_i ends
    split at wrote
    · cases wrote
    · rename_i vacant
      cases wrote
      exact ⟨place, ⟨resolved, Bool.eq_false_iff.mpr ends, vacant⟩, rfl⟩

theorem Written.keep {content : Bytes} {place : Place} (written : Written t path content place) :
    ∀ d, t.Open d → entry? ⟨t.entries.insert place (.file content)⟩ d = some .directory := by
  intro d opened
  have directory := opened d (Place.leadsTo_iff.mpr (List.prefix_refl _))
  rw [entry?_insert]
  split
  · rfl
  · split
    · rename_i same
      exact absurd (same ▸ directory) written.vacant
    · exact directory

theorem entry?_insert_self {place : Place} {e : Entry} (vacant : t.entry? place ≠ some .directory) :
    entry? ⟨t.entries.insert place e⟩ place = some e := by
  rw [entry?_insert, if_neg (fun fixed => vacant (isFixed_directory t fixed)), if_pos rfl]

theorem read_write {content : Bytes} (wrote : t.write path content = .ok t') :
    t'.read path = .ok content := by
  obtain ⟨place, written, rfl⟩ := write_eq_ok wrote
  exact read_eq_ok.mpr ⟨place, resolve_transfer written.keep written.resolved,
    entry?_insert_self written.vacant, written.ends⟩

theorem removeFile_written {content : Bytes} (wrote : t.write path content = .ok t') :
    t'.removeFile path = .ok (t'.cutOff path.place) := by
  obtain ⟨place, resolved, file, ends⟩ := read_eq_ok.mp (read_write wrote)
  cases resolve_eq_place resolved
  simp only [removeFile, resolved, bind, Except.bind, file, ends, Bool.false_eq_true, if_false]

theorem brought_write {content : Bytes} (wrote : t.write path content = .ok t') :
    Brought t t' content := by
  obtain ⟨place, -, rfl⟩ := write_eq_ok wrote
  exact brought_insert (fun b same => (Entry.file.inj same).symm)

theorem exists_read_of_write {other : Path} {content content' : Bytes}
    (found : t.read path = .ok content) (wrote : t.write other content' = .ok t') :
    ∃ b, t'.read path = .ok b := by
  obtain ⟨place, written, rfl⟩ := write_eq_ok wrote
  obtain ⟨q, resolved, file, ends⟩ := read_eq_ok.mp found
  have resolved' := resolve_transfer written.keep resolved
  have free : ¬ q.isFixed := by
    intro fixed
    rw [isFixed_directory t fixed] at file
    cases file
  by_cases same : q = place
  · exact ⟨content', read_eq_ok.mpr ⟨q, resolved', by rw [entry?_insert, if_neg free, if_pos same],
      ends⟩⟩
  · exact ⟨content, read_eq_ok.mpr ⟨q, resolved', by
      rw [entry?_insert, if_neg free, if_neg same, file], ends⟩⟩

theorem exists_rename {source target : Path} {content content' : Bytes}
    (found : t.read source = .ok content) (there : t.read target = .ok content') :
    ∃ t', t.rename source target = .ok t' := by
  obtain ⟨origin, from', -, -⟩ := read_eq_ok.mp found
  obtain ⟨place, resolved, file, ends⟩ := read_eq_ok.mp there
  refine ⟨⟨(t.cutOff origin).entries.insert place (.file content)⟩, ?_⟩
  simp only [rename, found, from', resolved, bind, Except.bind, file, ends, Bool.false_eq_true,
    if_false]

theorem rename_eq_ok {source target : Path} (moved : t.rename source target = .ok t') :
    ∃ content origin place, t.read source = .ok content ∧ t.resolve source = .ok origin ∧
      Written t target content place ∧
      t' = ⟨(t.cutOff origin).entries.insert place (.file content)⟩ := by
  obtain ⟨content, found, moved⟩ := exists_of_bind_eq_ok moved
  obtain ⟨origin, from', moved⟩ := exists_of_bind_eq_ok moved
  obtain ⟨place, resolved, moved⟩ := exists_of_bind_eq_ok moved
  split at moved
  · cases moved
  · rename_i vacant
    cases ends : target.endsInDirectory with
    | true => rw [ends] at moved; cases moved
    | false =>
      rw [ends] at moved
      cases moved
      exact ⟨content, origin, place, found, from', ⟨resolved, ends, vacant⟩, rfl⟩

theorem read_rename {source target : Path} (moved : t.rename source target = .ok t') :
    t'.read target = t.read source := by
  obtain ⟨content, origin, place, found, from', written, rfl⟩ := rename_eq_ok moved
  obtain ⟨_, resolved, file, -⟩ := read_eq_ok.mp found
  rw [from'] at resolved
  cases resolved
  have keep : ∀ d, t.Open d →
      entry? ⟨(t.cutOff origin).entries.insert place (.file content)⟩ d = some .directory := by
    intro d opened
    rw [entry?_insert]
    split
    · rfl
    · rename_i unfixed
      have directory := opened d (Place.leadsTo_iff.mpr (List.prefix_refl _))
      rw [if_neg (fun same : d = place => written.vacant (same ▸ directory)), entry?_cutOff,
        if_neg unfixed, if_neg]
      · exact directory
      · intro leads
        rw [opened origin leads] at file
        cases file
  rw [found]
  exact read_eq_ok.mpr ⟨place, resolve_transfer keep written.resolved,
    entry?_insert_self (vacant_cutOff origin written.vacant), written.ends⟩

theorem brought_rename {source target : Path} {content : Bytes}
    (moved : t.rename source target = .ok t') (found : t.read source = .ok content) :
    Brought t t' content := by
  obtain ⟨b, origin, place, same, -, -, rfl⟩ := rename_eq_ok moved
  rw [found] at same
  cases same
  exact (brought_cutOff origin content).trans
    (brought_insert (fun b same => (Entry.file.inj same).symm))

theorem removeEmptied_eq_ok (removed : t.removeEmptied path = .ok t') :
    t.stat path = .ok .directory ∧ path.place.isFixed = false ∧ t' = t.cutOff path.place := by
  obtain ⟨place, resolved, removed⟩ := exists_of_bind_eq_ok removed
  obtain ⟨entry, found, removed⟩ := exists_of_bind_eq_ok removed
  cases resolve_eq_place resolved
  cases entry with
  | file inside => cases removed
  | directory =>
    dsimp only at removed
    split at removed
    · cases removed
    · split at removed
      · cases removed
      · split at removed
        · cases removed
        · rename_i free
          cases removed
          exact ⟨found, Bool.eq_false_iff.mpr free, rfl⟩

theorem brought_removeEmptied (content : Bytes) (removed : t.removeEmptied path = .ok t') :
    Brought t t' content := by
  obtain ⟨-, -, rfl⟩ := removeEmptied_eq_ok removed
  exact brought_cutOff _ content

theorem exists?_of_stat_error {e : IoError} (missing : t.stat path = .error e) :
    t.exists? path = false := by
  rw [exists?, missing]
  rfl

theorem exists?_cutOff (t : FileTree) (free : path.place.isFixed = false) :
    FileTree.exists? (t.cutOff path.place) path = false := by
  cases resolved : FileTree.resolve (t.cutOff path.place) path with
  | error e =>
    apply exists?_of_stat_error
    rw [stat, resolved]
    rfl
  | ok q =>
    cases resolve_eq_place resolved
    have nothing : FileTree.entry? (t.cutOff path.place) path.place = none := by
      rw [entry?_cutOff, if_neg (Bool.eq_false_iff.mp free),
        if_pos (Place.leadsTo_iff.mpr (List.prefix_refl _))]
    have missing : FileTree.stat (t.cutOff path.place) path = .error .notFound := by
      simp only [stat, resolved, bind, Except.bind, nothing]
    exact exists?_of_stat_error missing

theorem exists?_of_removeEmptied (lost : t.removeEmptied path = .error .notFound) :
    t.exists? path = false := by
  rw [removeEmptied] at lost
  cases resolved : t.resolve path with
  | error e =>
    apply exists?_of_stat_error
    rw [stat, resolved]
    rfl
  | ok place =>
    rw [resolved] at lost
    cases found : t.stat path with
    | error e => exact exists?_of_stat_error found
    | ok entry =>
      simp only [bind, Except.bind, found] at lost
      cases entry with
      | file inside => cases lost
      | directory =>
        dsimp only at lost
        split at lost
        · cases lost
        · split at lost
          · cases lost
          · split at lost <;> cases lost

theorem exists?_of_removeDirectory {r : Except IoError Unit}
    (removed : t.removeDirectory path = (t', r)) (fine : r = .ok () ∨ r = .error .notFound) :
    t'.exists? path = false := by
  rw [removeDirectory] at removed
  split at removed
  · dsimp only at removed
    split at removed <;> rename_i result <;> cases removed
    · obtain ⟨-, free, rfl⟩ := removeEmptied_eq_ok result
      exact exists?_cutOff _ free
    · exact exists?_of_removeEmptied result
    · rename_i found
      rcases fine with fine | fine
      · cases fine
      · cases fine
        exact absurd rfl found
  · cases removed
    rcases fine with fine | fine <;> cases fine
  · rename_i missing
    cases removed
    exact exists?_of_stat_error missing
  · rename_i lost _ _
    cases removed
    apply exists?_of_stat_error
    rw [stat, lost]
    rfl

theorem brought_removeDirectory (t : FileTree) (path : Path) (content : Bytes) :
    Brought t (t.removeDirectory path).1 content := by
  rw [removeDirectory]
  split
  · rename_i place _ _
    have emptied : Brought t (t.emptied place) content := brought_filter _ content
    dsimp only
    split
    · rename_i removed
      exact emptied.trans (brought_removeEmptied content removed)
    · exact emptied
    · exact emptied
  · exact .refl t content
  · exact .refl t content
  · exact .refl t content

def Grows (t t' : FileTree) : Prop := ∀ q e, t.entry? q = some e → t'.entry? q = some e

theorem Grows.refl (t : FileTree) : Grows t t := fun _ _ found => found

theorem Grows.trans {t'' : FileTree} (first : Grows t t') (second : Grows t' t'') : Grows t t'' :=
  fun q e found => second q e (first q e found)

theorem grows_insert {place : Place} {e : Entry} (vacant : t.entry? place = none) :
    Grows t ⟨t.entries.insert place e⟩ := by
  intro q e' found
  rw [entry?_insert]
  split
  · rename_i fixed
    rw [isFixed_directory t fixed] at found
    exact found
  · rw [if_neg, found]
    intro same
    rw [same, vacant] at found
    cases found

theorem Grows.read {content : Bytes} (grows : Grows t t') (found : t.read path = .ok content) :
    t'.read path = .ok content := by
  obtain ⟨q, resolved, file, ends⟩ := read_eq_ok.mp found
  have keep : ∀ d, t.Open d → t'.entry? d = some .directory := fun d opened =>
    grows d .directory (opened d (Place.leadsTo_iff.mpr (List.prefix_refl _)))
  exact read_eq_ok.mpr ⟨q, resolve_transfer keep resolved, grows q _ file, ends⟩

end FileTree

theorem WorkingDirectory.exists?_of_clear {d : WorkingDirectory} {t t' : FileTree}
    (cleared : d.clear t = (t', .ok ())) : d.exists? t' = false := by
  simp only [clear, remove] at cleared
  split at cleared <;> rename_i removed <;> cases cleared
  · exact FileTree.exists?_of_removeDirectory removed (.inl rfl)
  · exact FileTree.exists?_of_removeDirectory removed (.inr rfl)

theorem TrackedDirectories.brought_removeAll (d : TrackedDirectories) (t : FileTree)
    (content : Bytes) : FileTree.Brought t (d.removeAll t).1 content := by
  obtain ⟨paths⟩ := d
  change FileTree.Brought t (removeEach t paths).1 content
  induction paths generalizing t with
  | nil => exact .refl t content
  | cons p rest ih =>
    have first := FileTree.brought_removeDirectory t p content
    rw [removeEach]
    split <;> rename_i removed
    · rw [removed] at first
      exact first.trans (ih _)
    · rw [removed] at first
      exact first.trans (ih _)

end ExtensionLock
