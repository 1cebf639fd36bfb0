import ExtensionLock.Proofs.Paths

/-! The way of a path. A path without its last component keeps to it, missing directories are made
on it alone, and where it leads depends on no content. In a tree where everything stands in
directories, nothing lies below a file or below nothing. -/

namespace ExtensionLock

namespace Path

variable {p dir : Path} {q : Place}

def Passes (p : Path) (q : Place) : Prop :=
  ∃ steps, steps <+: p.components ∧ q = steps.foldl Place.follow .here

theorem Passes.mono (passes : dir.Passes q) (before : dir.components <+: p.components) :
    p.Passes q := by
  obtain ⟨steps, first, rfl⟩ := passes
  exact ⟨steps, first.trans before, rfl⟩

theorem passes_place (p : Path) : p.Passes p.place := ⟨p.components, List.prefix_refl _, rfl⟩

theorem prefix_of_parent (p : Path) : (p.parent?.getD ⟨""⟩).components <+: p.components := by
  cases above : p.parent? with
  | none => exact List.nil_prefix
  | some dir =>
    obtain ⟨last, ends⟩ := components_parent above
    rw [ends]
    exact List.prefix_append _ _

theorem names_behind {steps rest : List Component} (level : .parent ∉ p.components)
    (whole : p.components = steps ++ rest) (begun : steps ≠ []) :
    ∀ c ∈ rest, ∃ name, c = .normal name := by
  intro c member
  have later : c ∈ p.components.tail := by
    rw [whole, List.tail_append_of_ne_nil begun]
    exact List.mem_append_right _ member
  rcases components_tail later with up | named
  · exact absurd (List.mem_of_mem_tail (up ▸ later)) level
  · cases c with
    | normal name => exact ⟨name, rfl⟩
    | _ => cases named

end Path

namespace Place

variable {p q r : Place}

theorem leadsTo_refl (p : Place) : p.leadsTo p = true := leadsTo_iff.mpr (List.prefix_refl _)

theorem leadsTo_trans (first : p.leadsTo q = true) (second : q.leadsTo r = true) :
    p.leadsTo r = true :=
  leadsTo_iff.mpr ((leadsTo_iff.mp first).trans (leadsTo_iff.mp second))

theorem leadsTo_antisymm (first : p.leadsTo q = true) (second : q.leadsTo p = true) : p = q :=
  eq_of_names ((leadsTo_iff.mp first).eq_of_length_le (leadsTo_iff.mp second).length_le)

theorem isFixed_of_leadsTo (leads : p.leadsTo q = true) (fixed : q.isFixed = true) :
    p.isFixed = true := by
  have before := leadsTo_iff.mp leads
  rw [isFixed, Bool.or_eq_true, beq_iff_eq] at fixed ⊢
  rcases fixed with upward | rfl
  · exact .inl (List.all_eq_true.mpr (fun name member =>
      List.all_eq_true.mp upward name (before.subset member)))
  · have short : p.names <+: [] ++ ["/"] := before
    rcases List.prefix_concat_iff.mp short with same | nothing
    · exact .inr (eq_of_names same)
    · rw [isUpward, List.prefix_nil.mp nothing]
      exact .inl rfl

end Place

def Entry.isDirectory : Entry → Bool
  | .directory => true
  | .file _ => false

namespace FileTree

variable {t t' t'' : FileTree} {path : Path} {p q place : Place}

/-- What stands at a place is as before, or nothing stood there and a directory was made because the
place is passed. -/
def KeptAt (q : Place) (passed : Prop) (t t' : FileTree) : Prop :=
  t'.entry? q = t.entry? q ∨ t.entry? q = none ∧ t'.entry? q = some .directory ∧ passed

theorem KeptAt.trans {passed : Prop} (first : KeptAt q passed t t')
    (second : KeptAt q passed t' t'') : KeptAt q passed t t'' := by
  rcases second with same | ⟨vacant, made, because⟩
  · rw [KeptAt, same]
    exact first
  · rcases first with same | ⟨-, made', -⟩
    · exact .inr ⟨same ▸ vacant, made, because⟩
    · rw [made'] at vacant
      cases vacant

def Paved (path : Path) (t t' : FileTree) : Prop := ∀ q, KeptAt q (path.Passes q) t t'

theorem Paved.refl (path : Path) (t : FileTree) : Paved path t t := fun _ => .inl rfl

theorem Paved.trans (first : Paved path t t') (second : Paved path t' t'') : Paved path t t'' :=
  fun q => (first q).trans (second q)

theorem Paved.grows (paved : Paved path t t') : Grows t t' := by
  intro q e found
  rcases paved q with same | ⟨vacant, -, -⟩
  · rw [same, found]
  · rw [vacant] at found
    cases found

theorem Paved.brought (paved : Paved path t t') (content : Bytes) : Brought t t' content := by
  intro q b found
  rcases paved q with same | ⟨-, made, -⟩
  · exact .inl (same ▸ found)
  · rw [made] at found
    cases found

theorem paved_insert (vacant : t.entry? q = none) (passed : path.Passes q) :
    Paved path t ⟨t.entries.insert q .directory⟩ := by
  intro r
  rw [KeptAt, entry?_insert]
  split
  · exact .inl (isFixed_directory t ‹_›).symm
  · split
    · rename_i same
      rw [same]
      exact .inr ⟨vacant, rfl, passed⟩
    · exact .inl rfl

theorem paved_makeDirectories {steps : List Path.Component}
    (passed : ∀ first, first <+: steps → path.Passes (first.foldl Place.follow p)) :
    Paved path t (t.makeDirectories p steps).1 := by
  induction steps generalizing t p with
  | nil => exact .refl path t
  | cons step rest ih =>
    have later (first : List Path.Component) (before : first <+: rest) :
        path.Passes (first.foldl Place.follow (p.follow step)) :=
      passed (step :: first) (List.cons_prefix_cons.mpr ⟨rfl, before⟩)
    cases step with
    | root => exact ih later
    | current => exact ih later
    | parent => exact ih later
    | normal name =>
      rw [makeDirectories]
      split
      · exact .refl path t
      · split
        · exact ih later
        · exact .refl path t
        · rename_i vacant
          exact (paved_insert vacant (later [] List.nil_prefix)).trans (ih later)

theorem paved_createDirectories (t : FileTree) (path : Path) :
    Paved path t (t.createDirectories path).1 := by
  have along (part : Path) (before : part.components <+: path.components) :
      Paved path t (t.makeDirectories .here part.components).1 :=
    paved_makeDirectories (fun first shorter => ⟨first, shorter.trans before, rfl⟩)
  rw [createDirectories]
  split
  · exact .refl path t
  · split
    · have made := along _ path.prefix_of_parent
      split <;> rename_i result
      · rw [result] at made
        exact made
      · rw [result] at made
        exact made
    · exact along path (List.prefix_refl _)

def kind? (t : FileTree) (q : Place) : Option Bool := Option.map Entry.isDirectory <| t.entry? q

theorem entries_of_kind (same : t.kind? q = t'.kind? q) :
    t.entry? q = none ∧ t'.entry? q = none ∨
      t.entry? q = some .directory ∧ t'.entry? q = some .directory ∨
      ∃ b b', t.entry? q = some (.file b) ∧ t'.entry? q = some (.file b') := by
  rw [kind?, kind?] at same
  cases here : t.entry? q with
  | none =>
    rw [here] at same
    exact .inl ⟨rfl, Option.map_eq_none_iff.mp same.symm⟩
  | some e =>
    rw [here] at same
    obtain ⟨e', found, kind⟩ := Option.map_eq_some_iff.mp same.symm
    rw [found]
    cases e with
    | directory => cases e' with
      | directory => exact .inr (.inl ⟨rfl, rfl⟩)
      | file b' => cases kind
    | file b => cases e' with
      | directory => cases kind
      | file b' => exact .inr (.inr ⟨b, b', rfl, rfl⟩)

theorem walk_congr {steps : List Path.Component} (alike : ∀ first, first <+: steps →
    t.kind? (first.foldl Place.follow p) = t'.kind? (first.foldl Place.follow p)) :
    t.walk p steps = t'.walk p steps := by
  induction steps generalizing p with
  | nil => rfl
  | cons step rest ih =>
    have later := ih (p := p.follow step) (fun first before =>
      alike (step :: first) (List.cons_prefix_cons.mpr ⟨rfl, before⟩))
    have here := entries_of_kind (alike [] List.nil_prefix)
    simp only [List.foldl_nil] at here
    cases step with
    | root => exact later
    | current => exact later
    | parent =>
      rcases here with ⟨h, h'⟩ | ⟨h, h'⟩ | ⟨b, b', h, h'⟩ <;> simp only [walk, h, h']
      exact later
    | normal name =>
      rcases here with ⟨h, h'⟩ | ⟨h, h'⟩ | ⟨b, b', h, h'⟩ <;> simp only [walk, h, h']
      split
      · rfl
      · exact later

theorem resolve_congr (alike : ∀ q, path.Passes q → t.kind? q = t'.kind? q) :
    t.resolve path = t'.resolve path := by
  rw [resolve, resolve, walk_congr (fun first before => alike _ ⟨first, before, rfl⟩)]

theorem stat_congr (alike : ∀ q, path.Passes q → t.kind? q = t'.kind? q)
    (same : t.entry? path.place = t'.entry? path.place) : t.stat path = t'.stat path := by
  rw [stat, stat, resolve_congr alike]
  cases resolved : t'.resolve path with
  | error e => rfl
  | ok q =>
    cases resolve_eq_place resolved
    simp only [bind, Except.bind, same]

theorem stat_kind (alike : ∀ q, path.Passes q → t.kind? q = t'.kind? q) :
    (t.stat path).map Entry.isDirectory = (t'.stat path).map Entry.isDirectory := by
  rw [stat, stat, resolve_congr alike]
  cases resolved : t'.resolve path with
  | error e => rfl
  | ok q =>
    cases resolve_eq_place resolved
    rcases entries_of_kind (alike _ path.passes_place) with ⟨h, h'⟩ | ⟨h, h'⟩ | ⟨b, b', h, h'⟩ <;>
      simp only [bind, Except.bind, h, h']
    split <;> rfl

theorem isDirectory_congr (alike : ∀ q, path.Passes q → t.kind? q = t'.kind? q) :
    t.isDirectory path = t'.isDirectory path := by
  have kinds (u : FileTree) : u.isDirectory path =
      ((u.stat path).map Entry.isDirectory).toOption.getD false := by
    rw [isDirectory]
    cases u.stat path with
    | error e => rfl
    | ok e => cases e <;> rfl
  rw [kinds, kinds, stat_kind alike]

theorem stat_found (alike : ∀ q, path.Passes q → t.kind? q = t'.kind? q) :
    (t.stat path).map (fun _ => ()) = (t'.stat path).map (fun _ => ()) := by
  have kinds (u : FileTree) : (u.stat path).map (fun _ => ()) =
      ((u.stat path).map Entry.isDirectory).map (fun _ => ()) := by
    cases u.stat path <;> rfl
  rw [kinds, kinds, stat_kind alike]

theorem exists?_congr (alike : ∀ q, path.Passes q → t.kind? q = t'.kind? q) :
    t.exists? path = t'.exists? path := by
  have found (u : FileTree) : u.exists? path = ((u.stat path).map (fun _ => ())).isOk := by
    rw [exists?]
    cases u.stat path <;> rfl
  rw [found, found, stat_found alike]

def Alike (related : FileTree → FileTree → Prop) (r r' : FileTree × α) : Prop :=
  r.2 = r'.2 ∧ related r.1 r'.1

/-- Related trees show the same kinds at some places, and are still related when a directory is made
where nothing was at one of them. -/
structure ShowsKinds (related : FileTree → FileTree → Prop) (seen : Place → Prop) : Prop where
  kind : ∀ t t' q, related t t' → seen q → t.kind? q = t'.kind? q
  made : ∀ t t' q, related t t' → seen q → t.entry? q = none →
    related ⟨t.entries.insert q .directory⟩ ⟨t'.entries.insert q .directory⟩

section Related

variable {related : FileTree → FileTree → Prop} {seen : Place → Prop}

theorem ShowsKinds.makeDirectories (shows : ShowsKinds related seen) (pair : related t t')
    {steps : List Path.Component}
    (passed : ∀ first, first <+: steps → seen (first.foldl Place.follow p)) :
    Alike related (t.makeDirectories p steps) (t'.makeDirectories p steps) := by
  induction steps generalizing t t' p with
  | nil => exact ⟨rfl, pair⟩
  | cons step rest ih =>
    have later (first : List Path.Component) (before : first <+: rest) :
        seen (first.foldl Place.follow (p.follow step)) :=
      passed (step :: first) (List.cons_prefix_cons.mpr ⟨rfl, before⟩)
    cases step with
    | root => exact ih pair later
    | current => exact ih pair later
    | parent => exact ih pair later
    | normal name =>
      have here : seen (p.enter name) := later [] List.nil_prefix
      simp only [FileTree.makeDirectories]
      split
      · exact ⟨rfl, pair⟩
      · rcases entries_of_kind (shows.kind t t' _ pair here) with
          ⟨h, h'⟩ | ⟨h, h'⟩ | ⟨b, b', h, h'⟩ <;> simp only [h, h']
        · exact ih (shows.made t t' _ pair here h) later
        · exact ih pair later
        · exact ⟨rfl, pair⟩

theorem ShowsKinds.createDirectories (shows : ShowsKinds related seen) (pair : related t t')
    (passed : ∀ q, path.Passes q → seen q) :
    Alike related (t.createDirectories path) (t'.createDirectories path) := by
  have along (part : Path) (before : part.components <+: path.components) :
      Alike related (t.makeDirectories .here part.components)
        (t'.makeDirectories .here part.components) :=
    shows.makeDirectories pair (fun first shorter => passed _ ⟨first, shorter.trans before, rfl⟩)
  have kinds : t.isDirectory path = t'.isDirectory path :=
    isDirectory_congr (fun q passes => shows.kind t t' q pair (passed q passes))
  rw [FileTree.createDirectories, FileTree.createDirectories, ← kinds]
  split
  · exact ⟨rfl, pair⟩
  · split
    · have made := along _ path.prefix_of_parent
      generalize t.makeDirectories .here (path.parent?.getD ⟨""⟩).components = r at made
      generalize t'.makeDirectories .here (path.parent?.getD ⟨""⟩).components = r' at made
      obtain ⟨u, result⟩ := r
      obtain ⟨u', result'⟩ := r'
      obtain ⟨rfl, left⟩ : result = result' ∧ related u u' := made
      cases result with
      | error e => exact ⟨rfl, left⟩
      | ok x =>
        exact ⟨stat_found (fun q passes => shows.kind u u' q left (passed q passes)), left⟩
    · exact along path (List.prefix_refl _)

theorem write_alike (alike : ∀ q, path.Passes q → t.kind? q = t'.kind? q)
    (same : t.entry? path.place = t'.entry? path.place)
    (insert : ∀ e, related ⟨t.entries.insert path.place e⟩ ⟨t'.entries.insert path.place e⟩)
    (content : Bytes) :
    (∃ e, t.write path content = .error e ∧ t'.write path content = .error e) ∨
      ∃ u u', t.write path content = .ok u ∧ t'.write path content = .ok u' ∧ related u u' := by
  simp only [FileTree.write, resolve_congr alike]
  cases resolved : t'.resolve path with
  | error e => exact .inl ⟨e, rfl, rfl⟩
  | ok q =>
    cases resolve_eq_place resolved
    simp only [bind, Except.bind, same]
    split
    · exact .inl ⟨_, rfl, rfl⟩
    · split
      · exact .inl ⟨_, rfl, rfl⟩
      · exact .inr ⟨_, _, rfl, rfl, insert _⟩

end Related

theorem reached_of_walk {steps : List Path.Component} (reached : t.Reached p)
    (walked : t.walk p steps = .ok q) : t.Reached q := by
  induction steps generalizing p with
  | nil =>
    cases walked
    exact reached
  | cons step rest ih =>
    rcases directory_of_walk walked with rfl | rfl | here
    · exact ih (reached_root t) walked
    · exact ih reached walked
    · have opened := reached.open here
      rw [walk_directory here] at walked
      cases step with
      | root => exact ih (reached_root t) walked
      | current => exact ih reached walked
      | parent => exact ih opened.above walked
      | normal name =>
        dsimp only at walked
        split at walked
        · cases walked
        · exact ih (opened.enter name) walked

theorem reached_of_resolve (resolved : t.resolve path = .ok q) : t.Reached q := by
  rw [resolve] at resolved
  split at resolved
  · cases resolved
  · split at resolved
    · cases resolved
    · exact reached_of_walk (reached_here t) resolved

theorem open_here (t : FileTree) : t.Open .here := (reached_here t).open rfl

theorem open_root (t : FileTree) : t.Open .root := (reached_root t).open rfl

theorem Open.open_above (opened : t.Open p) : t.Open p.above := by
  refine opened.above.open ?_
  rw [Place.above]
  split
  · rename_i upward
    refine isFixed_directory t ?_
    rw [Place.isUpward] at upward
    rw [Place.isFixed, Place.isUpward, Place.enter, List.all_append, upward]
    rfl
  · split
    · exact opened p (Place.leadsTo_refl p)
    · exact opened _ (Place.leadsTo_iff.mpr (List.dropLast_prefix _))

/-- Everything stands in directories. -/
def Rooted (t : FileTree) : Prop := ∀ q e, t.entry? q = some e → t.Reached q

namespace Rooted

theorem nothing_below (rooted : t.Rooted) (free : t.entry? place ≠ some .directory)
    (leads : place.leadsTo q = true) (other : q ≠ place) : t.entry? q = none := by
  cases found : t.entry? q with
  | none => rfl
  | some e => exact absurd (rooted q e found place leads other.symm) free

theorem insert (rooted : t.Rooted) {e : Entry} (reached : t.Reached place)
    (keep : t.entry? place = some .directory → e = .directory) :
    Rooted ⟨t.entries.insert place e⟩ := by
  intro q e' found r leads other
  have before : t.Reached q := by
    rw [entry?_insert] at found
    split at found
    · exact rooted q .directory (isFixed_directory t ‹_›)
    · split at found
      · rename_i same
        exact same ▸ reached
      · exact rooted q e' found
  have directory := before r leads other
  rw [entry?_insert]
  split
  · rfl
  · split
    · rename_i same
      rw [keep (same ▸ directory)]
    · exact directory

theorem filter (rooted : t.Rooted) {keep : Place → Bool}
    (above : ∀ r q, r.leadsTo q = true → keep q = true → keep r = true) :
    Rooted ⟨t.entries.filter (fun k _ => keep k)⟩ := by
  intro q e found r leads other
  rw [entry?_filter] at found ⊢
  split
  · rfl
  · rename_i free
    rw [if_neg (fun fixed => free (Place.isFixed_of_leadsTo leads fixed))] at found
    split at found
    · rename_i kept
      rw [if_pos (above r q leads kept)]
      exact rooted q e found r leads other
    · cases found

theorem cutOff (rooted : t.Rooted) (place : Place) : Rooted (t.cutOff place) := by
  refine rooted.filter (fun r q leads kept => ?_)
  rw [Bool.not_eq_true'] at kept ⊢
  exact Bool.eq_false_iff.mpr (fun below =>
    Bool.eq_false_iff.mp kept (Place.leadsTo_trans below leads))

theorem emptied (rooted : t.Rooted) (place : Place) : Rooted (t.emptied place) := by
  refine rooted.filter (fun r q leads kept => ?_)
  rw [Bool.or_eq_true, beq_iff_eq, Bool.not_eq_true'] at kept ⊢
  refine or_iff_not_imp_left.mpr (fun other => Bool.eq_false_iff.mpr (fun below => ?_))
  rcases kept with rfl | outside
  · exact other (Place.leadsTo_antisymm leads below)
  · exact Bool.eq_false_iff.mp outside (Place.leadsTo_trans below leads)

theorem empty : Rooted FileTree.empty := by
  intro q e found r leads other
  refine isFixed_directory _ (Place.isFixed_of_leadsTo leads ?_)
  by_contra free
  unfold entry? at found
  rw [if_neg free] at found
  cases found

theorem makeDirectories (rooted : t.Rooted) {steps : List Path.Component} (opened : t.Open p) :
    Rooted (t.makeDirectories p steps).1 := by
  induction steps generalizing t p with
  | nil => exact rooted
  | cons step rest ih =>
    cases step with
    | root => exact ih rooted (open_root t)
    | current => exact ih rooted opened
    | parent => exact ih rooted opened.open_above
    | normal name =>
      have reached := opened.enter name
      rw [FileTree.makeDirectories]
      split
      · exact rooted
      · split
        · rename_i here
          exact ih rooted (reached.open here)
        · exact rooted
        · rename_i vacant
          have made : FileTree.entry? ⟨t.entries.insert (p.enter name) .directory⟩ (p.enter name) =
              some .directory :=
            entry?_insert_self (by rw [vacant]; exact fun h => (by cases h))
          refine ih (rooted.insert reached (fun _ => rfl)) (Reached.open ?_ made)
          exact fun r leads other => grows_insert vacant r _ (reached r leads other)

theorem createDirectories (rooted : t.Rooted) (path : Path) :
    Rooted (t.createDirectories path).1 := by
  rw [FileTree.createDirectories]
  split
  · exact rooted
  · split
    · have made : Rooted (t.makeDirectories .here (path.parent?.getD ⟨""⟩).components).1 :=
      rooted.makeDirectories (open_here t)
      split <;> rename_i result
      · rw [result] at made
        exact made
      · rw [result] at made
        exact made
    · exact rooted.makeDirectories (open_here t)

theorem write {content : Bytes} (rooted : t.Rooted) (wrote : t.write path content = .ok t') :
    t'.Rooted := by
  obtain ⟨place, written, rfl⟩ := write_eq_ok wrote
  exact rooted.insert (reached_of_resolve written.resolved)
    (fun directory => absurd directory written.vacant)

theorem rename {source target : Path} (rooted : t.Rooted)
    (moved : t.rename source target = .ok t') : t'.Rooted := by
  obtain ⟨content, origin, place, found, from', written, rfl⟩ := rename_eq_ok moved
  obtain ⟨_, resolved, file, -⟩ := read_eq_ok.mp found
  rw [from'] at resolved
  cases resolved
  have reached := reached_of_resolve written.resolved
  refine (rooted.cutOff origin).insert (fun r leads other => ?_)
    (fun directory => absurd directory (vacant_cutOff origin written.vacant))
  rw [entry?_cutOff]
  split
  · rfl
  · rw [if_neg, reached r leads other]
    intro below
    have way := Place.leadsTo_trans below leads
    by_cases same : origin = place
    · exact other (Place.leadsTo_antisymm leads (same ▸ below))
    · rw [reached origin way same] at file
      cases file

theorem removeFile (rooted : t.Rooted) (removed : t.removeFile path = .ok t') : t'.Rooted := by
  obtain ⟨place, -, removed⟩ := exists_of_bind_eq_ok removed
  split at removed
  · cases removed
  · cases removed
  · split at removed
    · cases removed
    · cases removed
      exact rooted.cutOff place

theorem removeDirectory (rooted : t.Rooted) (path : Path) :
    Rooted (t.removeDirectory path).1 := by
  rw [FileTree.removeDirectory]
  split
  · rename_i place _ _
    have emptied := rooted.emptied place
    dsimp only
    split
    · rename_i removed
      obtain ⟨-, -, rfl⟩ := removeEmptied_eq_ok removed
      exact emptied.cutOff _
    · exact emptied
    · exact emptied
  · exact rooted
  · exact rooted
  · exact rooted

end Rooted

end FileTree

end ExtensionLock
