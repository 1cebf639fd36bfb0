import ExtensionLock.Proofs.Store
import ExtensionLock.Proofs.VolumeCalls

/-! A file tree as a volume. Where nothing is a link and nothing is refused, the calls of a volume
do what those of the tree do, and so does a save. -/

namespace ExtensionLock

namespace Volume

variable {t t' : FileTree} {p q place : Place} {path : Path} {n : Nat}
  {c : List Path.Component} {content : Bytes}

theorem item?_ofTree (t : FileTree) (q : Place) :
    (ofTree t).item? q = (t.entry? q).map Item.ofEntry := by
  unfold item? FileTree.entry?
  split
  · rfl
  · exact SortedMap.get?_mapValues _ _ q

theorem ofTree_insert (t : FileTree) (place : Place) (e : Entry) :
    ofTree ⟨t.entries.insert place e⟩ = (ofTree t).put place (.ofEntry e) := by
  have same : (t.entries.insert place e).mapValues (fun _ => Item.ofEntry) =
      (t.entries.mapValues (fun _ => Item.ofEntry)).insert place (.ofEntry e) := by
    refine SortedMap.ext_get? (fun q => ?_)
    rw [SortedMap.get?_mapValues, SortedMap.get?_insert_eq, SortedMap.get?_insert_eq,
      SortedMap.get?_mapValues]
    split <;> rfl
  simp only [ofTree, Volume.put, same]

theorem ofTree_cutOff (rooted : t.Rooted) (free : t.entry? place ≠ some .directory) :
    ofTree (t.cutOff place) = (ofTree t).without place := by
  have same : (t.cutOff place).entries.mapValues (fun _ => Item.ofEntry) =
      (t.entries.mapValues (fun _ => Item.ofEntry)).filter (fun k _ => k != place) := by
    refine SortedMap.ext_get? (fun q => ?_)
    rw [SortedMap.get?_mapValues, SortedMap.get?_filter, SortedMap.get?_mapValues,
      FileTree.cutOff, SortedMap.get?_filter]
    by_cases here : q = place
    · subst here
      cases t.entries.get? q <;> simp [Option.filter, Place.leadsTo_refl]
    cases leads : place.leadsTo q with
    | false => cases t.entries.get? q <;> simp [Option.filter, here]
    | true =>
      have fixed : ¬ q.isFixed = true := fun fixed =>
        free (t.isFixed_directory (Place.isFixed_of_leadsTo leads fixed))
      have nothing := rooted.nothing_below free leads here
      rw [FileTree.entry?, if_neg fixed] at nothing
      rw [nothing]
      rfl
  simp only [ofTree, Volume.without, same]

theorem search_ofTree (t : FileTree) (p : Place) : (ofTree t).search p = match t.entry? p with
    | none => .error .notFound
    | some (.file _) => .error .notADirectory
    | some .directory => .ok () := by
  rw [search, item?_ofTree]
  cases t.entry? p with
  | none => rfl
  | some e => cases e <;> rfl

theorem not_link (t : FileTree) (q : Place) (target : Path) :
    (ofTree t).item? q ≠ some (.link target) := by
  rw [item?_ofTree]
  cases t.entry? q with
  | none => exact fun h => (by cases h)
  | some e => cases e <;> exact fun h => (by cases h)

theorem enter_ofTree (t : FileTree) (p : Place) (name : String) :
    ((ofTree t).enter p name) = t.walk p [.normal name] := by
  rw [enter, search_ofTree, FileTree.walk]
  cases t.entry? p with
  | none => rfl
  | some e => cases e <;> rfl

theorem walk_cons (t : FileTree) (p : Place) (step : Path.Component) (rest : List Path.Component) :
    t.walk p (step :: rest) = match t.walk p [step] with
      | .error e => .error e
      | .ok q => t.walk q rest := by
  cases step with
  | root => rfl
  | current => rfl
  | parent =>
    simp only [FileTree.walk]
    cases t.entry? p with
    | none => rfl
    | some e => cases e <;> rfl
  | normal name =>
    simp only [FileTree.walk]
    cases t.entry? p with
    | none => rfl
    | some e => cases e with
      | file content => rfl
      | directory =>
        dsimp only
        split <;> rfl

theorem walk_append (t : FileTree) (p : Place) (c rest : List Path.Component) :
    t.walk p (c ++ rest) = match t.walk p c with
      | .error e => .error e
      | .ok q => t.walk q rest := by
  induction c generalizing p with
  | nil => rfl
  | cons step more ih =>
    rw [List.cons_append, walk_cons, walk_cons t p step more]
    cases t.walk p [step] with
    | error e => rfl
    | ok q => exact ih q

theorem walk_ofTree (t : FileTree) (n : Nat) (p : Place) (c : List Path.Component) :
    (ofTree t).walk n p c = (t.walk p c).map (fun q => (q, n)) := by
  induction c generalizing p with
  | nil => exact walk_nil
  | cons step rest ih =>
    cases step with
    | root => exact walk_root.trans (ih .root)
    | current => exact walk_current.trans (ih p)
    | parent =>
      rw [walk_parent, search_ofTree]
      cases here : t.entry? p with
      | none => simp only [FileTree.walk, here, Except.map]
      | some e => cases e with
        | file content => simp only [FileTree.walk, here, Except.map]
        | directory =>
          simp only [FileTree.walk, here]
          exact ih p.above
    | normal name =>
      rw [walk_normal, enter_ofTree, walk_cons t p (.normal name) rest]
      cases t.walk p [.normal name] with
      | error e => rfl
      | ok next =>
        dsimp only
        split
        · exact absurd ‹_› (not_link t _ _)
        · exact absurd ‹_› (not_link t _ _)
        · exact ih next

theorem resolve_ofTree (t : FileTree) (path : Path) : (ofTree t).resolve path = t.resolve path := by
  have walked : ((ofTree t).walk linkLimit (ofTree t).start path.components).map Prod.fst =
      t.walk .here path.components := by
    rw [walk_ofTree]
    change ((t.walk .here path.components).map _).map _ = _
    cases t.walk .here path.components <;> rfl
  rw [resolve, walked]
  rfl

theorem locate_ofTree (t : FileTree) (path : Path) : (ofTree t).locate path = t.resolve path := by
  cases named : path.fileName? with
  | none => rw [locate_unnamed named, resolve_ofTree]
  | some name =>
    have ends := ends_of_named named
    have walked : t.walk .here path.components = match t.walk .here path.components.dropLast with
        | .error e => .error e
        | .ok q => t.walk q [.normal name] := by
      rw [← walk_append, ← ends]
    have last : path.components.getLast? = some (.normal name) := by
      rw [ends, List.getLast?_concat]
    have begun : (ofTree t).walk linkLimit (ofTree t).start path.components.dropLast =
      (t.walk .here path.components.dropLast).map (fun q => (q, linkLimit)) := walk_ofTree t _ _ _
    rw [locate, FileTree.resolve, walked, last]
    dsimp only
    rw [begun]
    cases t.walk .here path.components.dropLast with
    | error e => rfl
    | ok q =>
      dsimp only [Except.map]
      rw [enter_ofTree]
      rfl

theorem stat_ofTree (t : FileTree) (path : Path) : (ofTree t).stat path = t.stat path := by
  rw [stat, FileTree.stat, resolve_ofTree]
  cases t.resolve path with
  | error e => rfl
  | ok q =>
    simp only [bind, Except.bind, item?_ofTree]
    cases t.entry? q with
    | none => rfl
    | some e => cases e <;> rfl

theorem isDirectory_ofTree (t : FileTree) (path : Path) :
    (ofTree t).isDirectory path = t.isDirectory path := by
  cases seen : t.stat path with
  | error e => simp only [isDirectory, FileTree.isDirectory, stat_ofTree, seen]
  | ok e => cases e <;> simp only [isDirectory, FileTree.isDirectory, stat_ofTree, seen]

def lift (r : FileTree × Except IoError Unit) : Volume × Except IoError Unit := (ofTree r.1, r.2)

theorem write_ofTree (t : FileTree) (path : Path) (content : Bytes) :
    (ofTree t).write path content = lift (t.after (t.write path content)) := by
  rw [write, FileTree.write, resolve_ofTree]
  cases t.resolve path with
  | error e => rfl
  | ok place =>
    simp only [bind, Except.bind, item?_ofTree]
    split
    · rfl
    · cases here : t.entry? place with
      | none =>
        simp only [fill, item?_ofTree, here, lift, FileTree.after, ofTree_insert]
        rfl
      | some e => cases e with
        | directory => rfl
        | file old =>
          simp only [fill, item?_ofTree, here, lift, FileTree.after, ofTree_insert]
          rfl

theorem makeDirectories_ofTree (opened : t.Open p) (n : Nat) (c : List Path.Component) :
    (ofTree t).makeDirectories n p c = lift (t.makeDirectories p c) := by
  induction c generalizing t p with
  | nil => rfl
  | cons step rest ih =>
    have here := opened p (Place.leadsTo_refl p)
    cases step with
    | root => exact ih (FileTree.open_root t)
    | current => exact ih opened
    | parent =>
      rw [makeDirectories, search_ofTree, here]
      exact ih opened.open_above
    | normal name =>
      rw [makeDirectories, enter, search_ofTree, here, FileTree.makeDirectories]
      dsimp only
      by_cases short : FileTree.longestName < (Text.bytes name).length
      · rw [if_pos short, if_pos short]
        rfl
      rw [if_neg short, if_neg short]
      dsimp only
      rw [item?_ofTree]
      cases there : t.entry? (p.enter name) with
      | none =>
        dsimp only [Option.map]
        have made := FileTree.grows_insert (e := .directory) there
        have opened' :
            FileTree.Open ⟨t.entries.insert (p.enter name) .directory⟩ (p.enter name) := by
          refine FileTree.Reached.open (fun r leads other => ?_) (FileTree.entry?_insert_self ?_)
          · exact made r _ (opened.enter name r leads other)
          · rw [there]
            exact fun h => (by cases h)
        rw [← ih opened', ofTree_insert]
        rfl
      | some e =>
        have walked : (ofTree t).walk n p [.normal name] = .ok (p.enter name, n) := by
          rw [walk_ofTree, FileTree.walk_directory here]
          dsimp only
          rw [if_neg short]
          rfl
        dsimp only [Option.map]
        rw [walked]
        dsimp only
        rw [item?_ofTree, there]
        cases e with
        | file content => rfl
        | directory => exact ih ((opened.enter name).open there)

theorem createDirectories_ofTree (t : FileTree) (path : Path) :
    (ofTree t).createDirectories path = lift (t.createDirectories path) := by
  rw [createDirectories, FileTree.createDirectories, isDirectory_ofTree]
  cases FileTree.refusal? path with
  | some e => rfl
  | none =>
  dsimp only
  split
  · have made := makeDirectories_ofTree (FileTree.open_here t) linkLimit
      (path.parent?.getD ⟨""⟩).components
    change (ofTree t).makeDirectories linkLimit (ofTree t).start _ = _ at made
    rw [made]
    cases t.makeDirectories .here (path.parent?.getD ⟨""⟩).components with
    | mk t' result => cases result with
      | error e => rfl
      | ok u => simp only [lift, stat_ofTree]
  · exact makeDirectories_ofTree (FileTree.open_here t) linkLimit path.components

theorem removeFile_ofTree (rooted : t.Rooted) (path : Path) :
    (ofTree t).removeFile path = lift (t.after (t.removeFile path)) := by
  rw [removeFile, FileTree.removeFile, locate_ofTree]
  cases t.resolve path with
  | error e => rfl
  | ok place =>
    simp only [bind, Except.bind, item?_ofTree]
    cases here : t.entry? place with
    | none => rfl
    | some e => cases e with
      | directory => rfl
      | file content =>
        dsimp only [Option.map, Item.ofEntry]
        split
        · rfl
        · have free : t.entry? place ≠ some .directory := by
            rw [here]
            exact fun h => (by cases h)
          simp only [lift, FileTree.after, ofTree_cutOff rooted free]
          rfl

theorem rename_ofTree (rooted : t.Rooted) {source : Path} (found : t.read source = .ok content)
    (target : Path) :
    (ofTree t).rename source target = lift (t.after (t.rename source target)) := by
  obtain ⟨origin, resolved, here, ends⟩ := FileTree.read_eq_ok.mp found
  have free : t.entry? origin ≠ some .directory := by
    rw [here]
    exact fun h => (by cases h)
  have file : (ofTree t).item? origin = some (.file content) := by
    rw [item?_ofTree, here]
    rfl
  rw [rename, FileTree.rename, locate_ofTree, locate_ofTree, found, resolved]
  cases t.resolve target with
  | error e => rfl
  | ok place =>
    have moved : lift (t.after (.ok ⟨(t.cutOff origin).entries.insert place (.file content)⟩)) =
        (((ofTree t).without origin).put place (.file content), .ok ()) := by
      rw [← ofTree_cutOff rooted free, lift, FileTree.after, ofTree_insert]
      rfl
    dsimp only
    rw [file, ends, Bool.false_or]
    simp only [bind, Except.bind, item?_ofTree]
    cases t.entry? place with
    | none =>
      cases target.endsInDirectory with
      | true => rfl
      | false => exact moved.symm
    | some e => cases e with
      | directory => rfl
      | file old =>
        cases target.endsInDirectory with
        | true => rfl
        | false => exact moved.symm

end Volume

namespace LockfileStore

open Volume

variable {t : FileTree}

theorem prepare_ofTree (s : LockfileStore) (t : FileTree) :
    s.prepare (ofTree t) = lift (s.prepare t) := by
  rw [prepare, prepare]
  split
  · split
    · rfl
    · exact createDirectories_ofTree t _
  · rfl

theorem rooted_prepare (rooted : t.Rooted) (s : LockfileStore) :
    FileTree.Rooted (s.prepare t).1 := by
  rw [prepare]
  split
  · split
    · exact rooted
    · exact rooted.createDirectories _
  · exact rooted

/-- A save to a file tree is one to a volume without links and without refusals. -/
theorem save_ofTree (rooted : t.Rooted) (s : LockfileStore) (l : Lockfile) :
    s.save (ofTree t) l = (ofTree (s.save t l).1, (s.save t l).2) := by
  have ready := rooted_prepare rooted s
  rw [save, save, prepare_ofTree]
  cases prepared : s.prepare t with
  | mk t' result =>
    rw [prepared] at ready
    cases result with
    | error e => rfl
    | ok u =>
      dsimp only [lift, FileSystem.write, FileSystem.rename, FileSystem.removeFile]
      rw [write_ofTree]
      cases wrote : t'.write s.temporaryPath (Text.bytes l.print) with
      | error e => rfl
      | ok written =>
        have rooted := ready.write wrote
        dsimp only [lift, FileTree.after]
        rw [rename_ofTree rooted (FileTree.read_write wrote)]
        cases written.rename s.temporaryPath s.path with
        | ok after => rfl
        | error e =>
          dsimp only [lift, FileTree.after]
          rw [removeFile_ofTree rooted]
          rfl

end LockfileStore

end ExtensionLock
