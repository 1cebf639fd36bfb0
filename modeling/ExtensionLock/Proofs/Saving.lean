import ExtensionLock.Proofs.Store
import ExtensionLock.Proofs.VolumeCalls

/-! A save is done or not done, whatever calls fail and whatever links there are. The temporary file
stands beside the lockfile, so until it is moved into place nothing has happened to what is there;
and when it cannot be moved it is removed again, if that is possible. Besides, directories are made
on the way to the parent of the path. -/

namespace ExtensionLock

namespace Volume

variable {v v' v'' : Volume} {q place : Place} {path : Path} {content : Bytes} {entry : Entry}

def Free (v : Volume) (place : Place) : Prop :=
  ∀ item, v.item? place = some item → ∃ content, item = .file content

theorem Free.not_directory (free : v.Free place) : v.item? place ≠ some .directory := by
  intro here
  obtain ⟨_, other⟩ := free _ here
  cases other

/-- Nothing has changed but a place where at most a file stands and has stood. -/
structure ChangedAt (place : Place) (v v' : Volume) : Prop where
  others : ∀ q, q ≠ place → v'.item? q = v.item? q
  rest : v' = { v with items := v'.items }
  before : v.Free place
  after : v'.Free place

namespace ChangedAt

theorem trans (first : ChangedAt place v v') (second : ChangedAt place v' v'') :
    ChangedAt place v v'' where
  others q other := (second.others q other).trans (first.others q other)
  rest := second.rest.trans (by rw [first.rest])
  before := first.before
  after := second.after

theorem symm (changed : ChangedAt place v v') : ChangedAt place v' v where
  others q other := (changed.others q other).symm
  rest := by rw [changed.rest]
  before := changed.after
  after := changed.before

theorem put (free : v.Free place) (content : Bytes) :
    ChangedAt place v (v.put place (.file content)) where
  others _ other := item?_put_ne other
  rest := rfl
  before := free
  after item here := by
    rw [item?_put_self free.not_directory] at here
    exact ⟨content, (Option.some.inj here).symm⟩

theorem without (free : v.Free place) : ChangedAt place v (v.without place) where
  others _ other := item?_without_ne other
  rest := rfl
  before := free
  after item here := by
    rw [item?_without_self free.not_directory] at here
    cases here

theorem ways (changed : ChangedAt place v v') : Extends v v' where
  directory q here := by
    by_cases same : q = place
    · exact absurd (same ▸ here) changed.before.not_directory
    · rw [changed.others q same, here]
  link q target := by
    by_cases same : q = place
    · subst same
      refine iff_of_false (fun here => ?_) (fun here => ?_)
      · obtain ⟨_, other⟩ := changed.after _ here
        cases other
      · obtain ⟨_, other⟩ := changed.before _ here
        cases other
    · rw [changed.others q same]
  refuses := by rw [changed.rest]
  start := by rw [changed.rest]

theorem stat (changed : ChangedAt place v v') (aside : v.resolve path ≠ .ok place)
    (seen : v.stat path = .ok entry) : v'.stat path = .ok entry := by
  refine changed.ways.stat (by rw [changed.rest]) (fun q item resolved here => ?_) seen
  have other : q ≠ place := fun same => aside (same ▸ resolved)
  rw [changed.others q other, here]

/-- A file may replace what is no directory; only a link that it replaces can be missed. -/
theorem ways_put (changed : ChangedAt place v v') (other : q ≠ place)
    (vacant : v.item? q ≠ some .directory) (content : Bytes) :
    Extends (v.without q) (v'.put q (.file content)) where
  directory r here := by
    have apart : r ≠ q := by
      rintro rfl
      cases (item?_without_self vacant).symm.trans here
    rw [item?_without_ne apart] at here
    rw [item?_put_ne apart, changed.ways.directory r here]
  link r target := by
    by_cases same : r = q
    · subst same
      have free : v'.item? r ≠ some .directory := by rwa [changed.others r other]
      rw [item?_put_self free, item?_without_self vacant]
      exact iff_of_false (fun h => (by cases h)) (fun h => (by cases h))
    · rw [item?_put_ne same, item?_without_ne same, changed.ways.link r target]
  refuses := changed.ways.refuses
  start := changed.ways.start

end ChangedAt

theorem Rooted.changed {dir : Place} {name : String} (rooted : v.Rooted)
    (changed : ChangedAt (dir.enter name) v v') (here : v.item? dir = some .directory) :
    v'.Rooted := by
  intro q found there r leads other
  by_cases same : r = dir.enter name
  · subst same
    rw [changed.others q (Ne.symm other)] at there
    exact absurd (rooted q found there _ leads other) changed.before.not_directory
  · rw [changed.others r same]
    by_cases below : q = dir.enter name
    · exact rooted.above here (below ▸ leads) same
    · rw [changed.others q below] at there
      exact rooted q found there r leads other

end Volume

namespace LockfileStore

open Volume

variable {s : LockfileStore} {v v' written : Volume} {l : Lockfile} {name : String}
  {temporary place q : Place} {entry : Entry} {result : Except LockfileError Unit}

def temporaryName (name : String) : String := "." ++ name ++ ".tmp"

theorem temporaryName_ne (name : String) : temporaryName name ≠ name := by
  intro same
  have longer := congrArg String.length same
  simp only [temporaryName, String.length_append] at longer
  have one : ".".length = 1 := rfl
  omega

theorem temporaryName_proper (slash : '/' ∉ name.toList) :
    '/' ∉ (temporaryName name).toList ∧ temporaryName name ≠ "" ∧ temporaryName name ≠ "." ∧
      temporaryName name ≠ ".." := by
  have chars : (temporaryName name).toList = '.' :: (name.toList ++ ['.', 't', 'm', 'p']) := by
    simp [temporaryName, String.toList_append]
  have long (other : String) (short : other.toList.length < 5) : temporaryName name ≠ other := by
    rintro rfl
    rw [chars, List.length_cons, List.length_append] at short
    simp only [List.length_cons, List.length_nil] at short
    omega
  refine ⟨?_, long _ (by decide), long _ (by decide), long _ (by decide)⟩
  rw [chars, List.mem_cons, List.mem_append, not_or, not_or]
  exact ⟨by decide, slash, by decide⟩

theorem temporaryPath_beside (named : s.path.fileName? = some name) :
    ∃ dir, s.path.parent? = some dir ∧ s.path.components = dir.components ++ [.normal name] ∧
      s.temporaryPath.components = dir.components ++ [.normal (temporaryName name)] := by
  obtain ⟨dir, above, whole⟩ := Path.components_fileName named
  have slash : '/' ∉ name.toList := (Path.normal_of_mem (p := s.path) (by
    rw [whole]
    exact List.mem_append_right _ List.mem_cons_self)).1
  obtain ⟨slash, filled, single, double⟩ := temporaryName_proper slash
  refine ⟨dir, above, whole, ?_⟩
  rw [temporaryPath, Path.withFileName, named, above]
  exact Path.components_join_name slash filled single double dir

theorem temporaryPath_behind (unnamed : s.path.fileName? = none) :
    s.temporaryPath.components =
      s.path.components ++ [.normal (temporaryName Lockfile.fileName)] := by
  have plain : '/' ∉ Lockfile.fileName.toList := by decide
  obtain ⟨slash, filled, single, double⟩ := temporaryName_proper plain
  rw [temporaryPath, Path.withFileName, unnamed]
  exact Path.components_join_name slash filled single double s.path

theorem temporaryPath_named (s : LockfileStore) :
    ∃ name, s.temporaryPath.fileName? = some name := by
  cases named : s.path.fileName? with
  | some name =>
    obtain ⟨dir, -, -, beside⟩ := temporaryPath_beside named
    exact ⟨_, by rw [Path.fileName?, beside, List.getLast?_concat]⟩
  | none => exact ⟨_, by rw [Path.fileName?, temporaryPath_behind named, List.getLast?_concat]⟩

/-- The places of the temporary file and of what the path names, if it names a file. -/
def Beside (s : LockfileStore) (v : Volume) (temporary dir : Place) : Prop :=
  temporary = dir.enter (temporaryName (s.path.fileName?.getD Lockfile.fileName)) ∧
    ∀ place, v.locate s.path = .ok place → place = s.path.fileName?.elim dir dir.enter

theorem beside_of_located (located : v.locate s.temporaryPath = .ok temporary) :
    ∃ dir, v.item? dir = some .directory ∧ s.Beside v temporary dir := by
  cases named : s.path.fileName? with
  | some name =>
    obtain ⟨dir, -, whole, beside⟩ := temporaryPath_beside named
    obtain ⟨-, r, m, walks, entered⟩ := (locate_eq_ok beside).mp located
    obtain ⟨searched, -, same⟩ := enter_eq_ok.mp entered
    refine ⟨r, (search_eq_ok.mp searched).1, ?_⟩
    rw [Beside, named]
    refine ⟨same, fun place found => ?_⟩
    obtain ⟨-, r', m', walks', entered'⟩ := (locate_eq_ok whole).mp found
    rw [(walks.unique walks').1]
    exact (enter_eq_ok.mp entered').2.2
  | none =>
    obtain ⟨-, r, m, walks, entered⟩ := (locate_eq_ok (temporaryPath_behind named)).mp located
    obtain ⟨searched, -, same⟩ := enter_eq_ok.mp entered
    refine ⟨r, (search_eq_ok.mp searched).1, ?_⟩
    rw [Beside, named]
    refine ⟨same, fun place found => ?_⟩
    rw [locate_unnamed named] at found
    obtain ⟨-, m', walks'⟩ := resolve_eq_ok.mp found
    exact (walks'.unique walks).1

theorem enter_temporaryName_ne (dir : Place) (name : String) :
    dir.enter (temporaryName name) ≠ dir.enter name := by
  intro same
  have names : dir.names ++ [temporaryName name] = dir.names ++ [name] := congrArg Place.names same
  exact temporaryName_ne name (List.cons.inj (List.append_cancel_left names)).1

theorem temporary_ne (located : v.locate s.temporaryPath = .ok temporary)
    (found : v.locate s.path = .ok place) : temporary ≠ place := by
  obtain ⟨dir, -, rfl, named⟩ := beside_of_located located
  rw [named place found]
  cases s.path.fileName? with
  | some name => exact enter_temporaryName_ne dir name
  | none => exact enter_ne dir _

/-- The volume in which the directories for a save have been made. -/
def ready (s : LockfileStore) (v : Volume) : Volume := (s.prepare v).1

theorem paved_ready (s : LockfileStore) (v : Volume) :
    Paved ((s.ready v).Passes linkLimit v.start s.directory.components) v (s.ready v) := by
  rw [ready, prepare, directory]
  split
  · rename_i above
    rw [above]
    split
    · exact .refl _ v
    · exact v.paved_createDirectories _
  · exact .refl _ v

theorem rooted_ready (rooted : v.Rooted) : (s.ready v).Rooted := by
  rw [ready, prepare]
  split
  · split
    · exact rooted
    · exact rooted.createDirectories _
  · exact rooted

theorem stat_of_ready (rooted : v.Rooted) (level : .parent ∉ s.path.components)
    (seen : (s.ready v).stat s.path = .ok entry) : v.stat s.path = .ok entry := by
  rw [ready, prepare] at seen
  split at seen
  · rename_i above
    split at seen
    · exact seen
    · exact stat_of_createDirectories rooted above level seen
  · exact seen

/-- The name of the temporary file belongs to the store: it is no link and no further name of a
file, and the path of the store does not lead to it. -/
structure Apart (s : LockfileStore) (v : Volume) : Prop where
  unlinked : ∀ temporary, v.locate s.temporaryPath = .ok temporary →
    v.item? temporary = some .directory ∨ v.Free temporary
  aside : ∀ temporary, v.locate s.temporaryPath = .ok temporary → v.resolve s.path ≠ .ok temporary

theorem written_cases {wrote : Except IoError Unit} {content : Bytes} (apart : s.Apart v)
    (ended : v.write s.temporaryPath content = (written, wrote)) :
    (written = v ∧ wrote ≠ .ok ()) ∨
      ∃ temporary part, v.locate s.temporaryPath = .ok temporary ∧ v.Free temporary ∧
        written = v.put temporary (.file part) ∧ part <+: content ∧
        s.temporaryPath.endsInDirectory = false ∧ (wrote = .ok () → part = content) := by
  rcases v.write_cases s.temporaryPath content with ⟨e, failed⟩ |
    ⟨place, part, result, filled, resolved, free, ends, begun, whole⟩
  · cases ended.symm.trans failed
    exact .inl ⟨rfl, fun h => (by cases h)⟩
  · cases ended.symm.trans filled
    obtain ⟨name, named⟩ := s.temporaryPath_named
    obtain ⟨temporary, located⟩ := locate_of_resolve named resolved
    have plain : ∀ target, v.item? temporary ≠ some (.link target) := by
      intro target here
      rcases apart.unlinked temporary located with directory | free
      · cases here.symm.trans directory
      · obtain ⟨_, other⟩ := free _ here
        cases other
    cases resolved.symm.trans (resolve_of_locate located plain)
    have free : v.Free place := (apart.unlinked place located).resolve_left free
    refine .inr ⟨place, part, located, free, fill_plain (fun number here => ?_), begun, ends, whole⟩
    obtain ⟨_, other⟩ := free _ here
    cases other

theorem unmoved_cases {left : Volume} {content : Bytes} {e : IoError} (apart : s.Apart v)
    (wrote : v.write s.temporaryPath content = (written, .ok ()))
    (failed : written.rename s.temporaryPath s.path = (left, .error e)) :
    ∃ temporary, v.locate s.temporaryPath = .ok temporary ∧
      ChangedAt temporary v (left.removeFile s.temporaryPath).1 ∧
      (Volume.item? (left.removeFile s.temporaryPath).1 temporary = none ∨
        Volume.item? (left.removeFile s.temporaryPath).1 temporary = some (.file content) ∧
          v.refuses (.remove temporary) ≠ none) := by
  rcases written_cases apart wrote with ⟨-, unwritten⟩ |
    ⟨temporary, part, located, free, rfl, -, ends, whole⟩
  · exact absurd rfl unwritten
  cases whole rfl
  have changed := ChangedAt.put free content
  have here : (v.put temporary (.file content)).item? temporary = some (.file content) :=
    item?_put_self free.not_directory
  refine ⟨temporary, located, ?_⟩
  rcases rename_cases _ s.temporaryPath s.path with ⟨e, unmoved⟩ |
    ⟨_, _, _, -, -, -, -, -, moved | ⟨-, moved⟩⟩
  · cases failed.symm.trans unmoved
    rw [removeFile_located (changed.ways.locate located) here ends, changed.ways.refuses]
    cases v.refuses (.remove temporary) with
    | some e => exact ⟨changed, .inr ⟨here, fun h => (by cases h)⟩⟩
    | none => exact ⟨changed.trans (.without changed.after),
        .inl (item?_without_self changed.after.not_directory)⟩
  · cases failed.symm.trans moved
  · cases failed.symm.trans moved

/-- However a save fails, nothing has happened but to the temporary file, and that begins with as
much of the lockfile as could be written. -/
theorem undone_of_error {e : LockfileError} (apart : s.Apart (s.ready v))
    (failed : s.Ends v l (v', .error e)) :
    v' = s.ready v ∨ ∃ temporary, (s.ready v).locate s.temporaryPath = .ok temporary ∧
      ChangedAt temporary (s.ready v) v' ∧ ∀ item, v'.item? temporary = some item →
        ∃ part, part <+: Text.bytes l.print ∧ item = .file part := by
  cases failed with
  | unprepared prepared => exact .inl (by rw [ready, prepared])
  | unwritten prepared failed =>
    rw [ready, prepared] at apart ⊢
    rcases written_cases apart failed with ⟨rfl, -⟩ |
      ⟨temporary, part, located, free, rfl, begun, -⟩
    · exact .inl rfl
    · refine .inr ⟨temporary, located, .put free part, fun item here => ⟨part, begun, ?_⟩⟩
      exact Option.some.inj (here.symm.trans (item?_put_self free.not_directory))
  | unmoved prepared wrote failed =>
    rw [ready, prepared] at apart ⊢
    obtain ⟨temporary, located, changed, gone | ⟨stays, -⟩⟩ := unmoved_cases apart wrote failed
    · refine .inr ⟨temporary, located, changed, fun item here => ?_⟩
      cases gone.symm.trans here
    · refine .inr ⟨temporary, located, changed, fun item here => ⟨_, List.prefix_refl _, ?_⟩⟩
      exact Option.some.inj (here.symm.trans stays)

theorem moved_of_ok (apart : s.Apart (s.ready v)) (done : s.Ends v l (v', .ok ())) :
    ∃ temporary place between, (s.ready v).locate s.temporaryPath = .ok temporary ∧
      (s.ready v).locate s.path = .ok place ∧ (s.ready v).item? place ≠ some .directory ∧
      s.path.endsInDirectory = false ∧ ChangedAt temporary (s.ready v) between ∧
      between.item? temporary = none ∧
      v' = between.put place (.file (Text.bytes l.print)) := by
  cases done with
  | moved prepared wrote done =>
    rw [ready, prepared] at apart ⊢
    rcases written_cases apart wrote with ⟨-, unwritten⟩ |
      ⟨temporary, part, located, free, rfl, -, -, whole⟩
    · exact absurd rfl unwritten
    cases whole rfl
    have changed := ChangedAt.put free (Text.bytes l.print)
    have there : Volume.item? _ temporary = some (.file (Text.bytes l.print)) :=
      item?_put_self free.not_directory
    rcases rename_cases _ s.temporaryPath s.path with ⟨e, unmoved⟩ |
      ⟨origin, place, item, from', to', here, vacant, ends, moved⟩
    · cases done.symm.trans unmoved
    cases from'.symm.trans (changed.ways.locate located)
    cases here.symm.trans there
    have found := changed.symm.ways.locate to'
    have other : place ≠ temporary := (temporary_ne located found).symm
    rw [changed.others place other] at vacant
    rcases moved with moved | ⟨⟨_, shared⟩, -⟩
    · cases done.symm.trans moved
      exact ⟨temporary, place, _, located, found, vacant, ends,
        changed.trans (.without changed.after), item?_without_self changed.after.not_directory, rfl⟩
    · cases shared

/-- What a save leaves of a volume. -/
structure Saved (s : LockfileStore) (v : Volume) (l : Lockfile) (v' : Volume)
    (result : Except LockfileError Unit) : Prop where
  beside : ∀ temporary, (s.ready v).locate s.temporaryPath = .ok temporary →
    ∃ dir, s.Beside (s.ready v) temporary dir
  /-- a save that succeeds is complete, and the temporary file is gone -/
  complete : result = .ok () → ∃ temporary place,
    (s.ready v).locate s.temporaryPath = .ok temporary ∧ (s.ready v).locate s.path = .ok place ∧
    v'.item? place = some (.file (Text.bytes l.print)) ∧ v'.item? temporary = none
  /-- the path leads to the lockfile then, unless its way was through what the lockfile replaces -/
  shown : ∀ place, result = .ok () → (s.ready v).locate s.path = .ok place →
    ((s.ready v).without place).locate s.path = .ok place →
    v'.stat s.path = .ok (.file (Text.bytes l.print))
  /-- where a save fails, a file or directory that was there is still there -/
  kept : ∀ e entry, result = .error e → v.stat s.path = .ok entry → v'.stat s.path = .ok entry
  /-- nor is there one that was not, unless the path takes a step up -/
  level : ∀ e entry, result = .error e → .parent ∉ s.path.components →
    v'.stat s.path = .ok entry → v.stat s.path = .ok entry
  elsewhere : ∀ q, (s.ready v).locate s.temporaryPath ≠ .ok q →
    (result = .ok () → (s.ready v).locate s.path ≠ .ok q) →
    KeptAt q ((s.ready v).Passes linkLimit v.start s.directory.components q) v v'
  rest : v' = { v with items := v'.items }
  /-- a save that fails may leave a part of the lockfile in the temporary file -/
  remnant : ∀ e temporary item, result = .error e →
    (s.ready v).locate s.temporaryPath = .ok temporary → v'.item? temporary = some item →
    (s.ready v).item? temporary = some item ∨
      ∃ part, part <+: Text.bytes l.print ∧ item = .file part
  removed : ∀ written left e, s.prepare v = (s.ready v, .ok ()) →
    (s.ready v).write s.temporaryPath (Text.bytes l.print) = (written, .ok ()) →
    written.rename s.temporaryPath s.path = (left, .error e) →
    result = .error (.io s.path e) ∧ ∃ temporary,
      (s.ready v).locate s.temporaryPath = .ok temporary ∧
      (v'.item? temporary = none ∨ v.refuses (.remove temporary) ≠ none)
  rooted : v'.Rooted

theorem stat_of_error {e : LockfileError} (apart : s.Apart (s.ready v))
    (failed : s.Ends v l (v', .error e)) :
    v'.stat s.path = .ok entry ↔ (s.ready v).stat s.path = .ok entry := by
  rcases undone_of_error apart failed with rfl | ⟨temporary, located, changed, -⟩
  · rfl
  have aside := apart.aside temporary located
  have aside' : v'.resolve s.path ≠ .ok temporary :=
    fun resolved => aside (changed.symm.ways.resolve resolved)
  exact ⟨changed.symm.stat aside', changed.stat aside⟩

theorem stat_of_ok (apart : s.Apart (s.ready v)) (done : s.Ends v l (v', .ok ()))
    (found : (s.ready v).locate s.path = .ok place)
    (direct : ((s.ready v).without place).locate s.path = .ok place) :
    v'.stat s.path = .ok (.file (Text.bytes l.print)) := by
  obtain ⟨temporary, place', between, located, found', vacant, ends, changed, gone, rfl⟩ :=
    moved_of_ok apart done
  cases found.symm.trans found'
  have other := temporary_ne located found
  have here : (between.put place (.file (Text.bytes l.print))).item? place =
      some (.file (Text.bytes l.print)) := by
    refine item?_put_self ?_
    rwa [changed.others place other.symm]
  have ways := changed.ways_put other.symm vacant (Text.bytes l.print)
  have plain : ∀ target, (between.put place (.file (Text.bytes l.print))).item? place ≠
      some (.link target) := fun target link => (by cases here.symm.trans link)
  refine stat_eq_ok.mpr ⟨place, _, resolve_of_locate (ways.locate direct) plain, here, ?_⟩
  simp only [show?, ends, Bool.false_eq_true, if_false]

theorem rooted_of_ends (rooted : v.Rooted) (apart : s.Apart (s.ready v))
    (ended : s.Ends v l (v', result)) : v'.Rooted := by
  have rooted := rooted_ready (s := s) rooted
  cases result with
  | error e =>
    rcases undone_of_error apart ended with rfl | ⟨temporary, located, changed, -⟩
    · exact rooted
    obtain ⟨dir, here, rfl, -⟩ := beside_of_located located
    exact rooted.changed changed here
  | ok u =>
    obtain ⟨temporary, place, between, located, found, vacant, -, changed, -, rfl⟩ :=
      moved_of_ok apart ended
    have other := temporary_ne located found
    obtain ⟨dir, here, rfl, named⟩ := beside_of_located located
    have same := named place found
    cases file : s.path.fileName? with
    | none =>
      rw [file] at same
      exact absurd (same ▸ here) vacant
    | some name =>
      rw [file, Option.elim_some] at same
      cases same
      refine (rooted.changed changed here).put (changed.ways.directory dir here) (fun fits => ?_)
      rw [changed.others _ other.symm] at fits
      exact absurd fits vacant

theorem removed_of_unmoved {left : Volume} {e : IoError} (apart : s.Apart (s.ready v))
    (prepared : s.prepare v = (s.ready v, .ok ()))
    (wrote : (s.ready v).write s.temporaryPath (Text.bytes l.print) = (written, .ok ()))
    (failed : written.rename s.temporaryPath s.path = (left, .error e)) :
    (s.save v l).2 = .error (.io s.path e) ∧ ∃ temporary,
      (s.ready v).locate s.temporaryPath = .ok temporary ∧
      (Volume.item? (s.save v l).1 temporary = none ∨ v.refuses (.remove temporary) ≠ none) := by
  have saved : s.save v l = ((left.removeFile s.temporaryPath).1, .error (.io s.path e)) := by
    rw [save, prepared]
    simp only [FileSystem.write, FileSystem.rename, FileSystem.removeFile, wrote, failed]
  obtain ⟨temporary, located, -, gone⟩ := unmoved_cases apart wrote failed
  rw [saved]
  rw [(s.paved_ready v).refuses] at gone
  exact ⟨rfl, temporary, located, gone.imp_right And.right⟩

theorem elsewhere_of_ends (apart : s.Apart (s.ready v)) (ended : s.Ends v l (v', result))
    (other : (s.ready v).locate s.temporaryPath ≠ .ok q)
    (beside : result = .ok () → (s.ready v).locate s.path ≠ .ok q) :
    v'.item? q = (s.ready v).item? q := by
  cases result with
  | error e =>
    rcases undone_of_error apart ended with rfl | ⟨temporary, located, changed, -⟩
    · rfl
    · exact changed.others q (fun same => other (same ▸ located))
  | ok u =>
    obtain ⟨temporary, place, between, located, found, -, -, changed, -, rfl⟩ :=
      moved_of_ok apart ended
    have apart : q ≠ place := fun same => beside rfl (same ▸ found)
    rw [item?_put_ne apart]
    exact changed.others q (fun same => other (same ▸ located))

theorem rest_of_ends (apart : s.Apart (s.ready v)) (ended : s.Ends v l (v', result)) :
    v' = { v with items := v'.items } := by
  have rest := (s.paved_ready v).rest
  cases result with
  | error e =>
    rcases undone_of_error apart ended with rfl | ⟨temporary, located, changed, -⟩
    · exact rest
    · exact changed.rest.trans (by rw [rest])
  | ok u =>
    obtain ⟨temporary, place, between, -, -, -, -, changed, -, rfl⟩ := moved_of_ok apart ended
    rw [Volume.put, changed.rest, rest]

/-- A save is all or nothing: the path leads to the whole lockfile, or to what it has led to before.
Nothing else has changed but directories on the way to the parent of the path. -/
theorem save_all_or_nothing (s : LockfileStore) (v : Volume) (l : Lockfile) (rooted : v.Rooted)
    (apart : s.Apart (s.ready v)) : s.Saved v l (s.save v l).1 (s.save v l).2 := by
  have ended : s.Ends v l ((s.save v l).1, (s.save v l).2) := s.ends_save v l
  constructor
  case beside => exact fun temporary located => (beside_of_located located).imp (fun _ => And.right)
  case complete =>
    intro fine
    obtain ⟨temporary, place, between, located, found, vacant, -, changed, gone, moved⟩ :=
      moved_of_ok apart (fine ▸ ended)
    have other := temporary_ne located found
    rw [← changed.others place other.symm] at vacant
    rw [moved]
    exact ⟨temporary, place, located, found, item?_put_self vacant, (item?_put_ne other).trans gone⟩
  case shown => exact fun place fine => stat_of_ok apart (fine ▸ ended)
  case kept =>
    exact fun e entry failed seen =>
      (stat_of_error apart (failed ▸ ended)).mpr ((s.paved_ready v).stat seen)
  case level =>
    exact fun e entry failed level seen =>
      stat_of_ready rooted level ((stat_of_error apart (failed ▸ ended)).mp seen)
  case elsewhere =>
    intro q other beside
    rw [KeptAt, elsewhere_of_ends apart ended other beside]
    exact (s.paved_ready v).kept q
  case rest => exact rest_of_ends apart ended
  case remnant =>
    intro e temporary item failed located here
    rcases undone_of_error apart (failed ▸ ended) with same | ⟨temporary', located', -, part⟩
    · exact .inl (same ▸ here)
    · cases located.symm.trans located'
      exact .inr (part item here)
  case removed => exact fun written left e => removed_of_unmoved apart
  case rooted => exact rooted_of_ends rooted apart ended

theorem apart_of_vacant (temporary : Place) (located : v.locate s.temporaryPath = .ok temporary)
    (vacant : v.item? temporary = none) (aside : v.resolve s.path ≠ .ok temporary) : s.Apart v := by
  refine ⟨fun _ found => .inr (fun item here => ?_), fun _ found => ?_⟩
  · cases located.symm.trans found
    cases vacant.symm.trans here
  · cases located.symm.trans found
    exact aside

def permitted (_ : Access) : Option IoError := none

def unmovable : Access → Option IoError
  | .move _ _ => some .permissionDenied
  | _ => none

def unchangeable : Access → Option IoError
  | .move _ _ => some .permissionDenied
  | .remove _ => some .permissionDenied
  | _ => none

def latest : LockfileStore := ⟨⟨"latest/MODULE.lock"⟩⟩

def linked (refuses : Access → Option IoError) : Volume :=
  .holding [(Place.here.enter "store", .directory),
    ((Place.here.enter "store").enter "MODULE.lock", .file (Text.bytes "old")),
    (Place.here.enter "latest", .link ⟨"store"⟩)] refuses

theorem rooted_linked (refuses : Access → Option IoError) : (linked refuses).Rooted :=
  (((Rooted.nothing refuses).put rfl (fun _ => rfl)).put rfl (fun h => (by cases h))).put rfl
    (fun h => (by cases h))

/-- Through the link the lockfile is replaced, or kept if it cannot be. -/
theorem save_through_link :
    (latest.save (linked permitted) .empty).2.isOk = true ∧
      (latest.save (linked permitted) .empty).1.stat latest.path =
        .ok (.file (Text.bytes Lockfile.empty.print)) ∧
      (latest.save (linked unmovable) .empty).2.isOk = false ∧
      (latest.save (linked unmovable) .empty).1.stat latest.path =
        .ok (.file (Text.bytes "old")) := by
  have saved := save_all_or_nothing latest (linked permitted) .empty (rooted_linked _)
    (apart_of_vacant ((Place.here.enter "store").enter ".MODULE.lock.tmp") (by decide +kernel)
      (by decide +kernel) (by decide +kernel))
  have unsaved := save_all_or_nothing latest (linked unmovable) .empty (rooted_linked _)
    (apart_of_vacant ((Place.here.enter "store").enter ".MODULE.lock.tmp") (by decide +kernel)
      (by decide +kernel) (by decide +kernel))
  have fine : (latest.save (linked permitted) .empty).2.isOk = true := by decide +kernel
  have failed : (latest.save (linked unmovable) .empty).2.isOk = false := by decide +kernel
  obtain ⟨_, saved'⟩ := exists_of_isOk fine
  obtain ⟨e, failed'⟩ := exists_error_of_isOk failed
  exact ⟨fine, saved.shown ((Place.here.enter "store").enter "MODULE.lock") saved'
    (by decide +kernel) (by decide +kernel), failed, unsaved.kept e _ failed' (by decide +kernel)⟩

/-- The way to the parent of this path goes through the place of the path. -/
def circuitous : LockfileStore := ⟨⟨"a/../a"⟩⟩

/-- The way to this path goes through the link that it names. -/
def turning : LockfileStore := ⟨⟨"l/l"⟩⟩

def looped : Volume := .holding [(Place.here.enter "l", .link ⟨"."⟩)] permitted

def plain : LockfileStore := ⟨⟨"MODULE.lock"⟩⟩

def leftover (other temporary : Item) (refuses : Access → Option IoError) : Volume :=
  .holding [(Place.here.enter "other", other), (Place.here.enter ".MODULE.lock.tmp", temporary)]
    refuses

def shared : Volume :=
  { leftover (.shared 0) (.shared 0) permitted with
    contents := SortedMap.empty.insert 0 (Text.bytes "old") }

def selfLinked : Volume :=
  .holding [(Place.here.enter ".MODULE.lock.tmp", .file (Text.bytes "old")),
    (Place.here.enter "MODULE.lock", .link ⟨".MODULE.lock.tmp"⟩)] unmovable

/-- What a save can do besides. Directories are made at the place of the path itself; a link or a
further name in the place of the temporary file takes the text to another file; a lockfile that is a
link to the temporary file is lost with that; the path may need the link that is replaced; and a
temporary file stays that cannot be removed. -/
theorem save_not_apart :
    (FileTree.empty.stat circuitous.path = .error .notFound ∧
      (circuitous.save FileTree.empty .empty).2.isOk = false ∧
      (circuitous.save FileTree.empty .empty).1.stat circuitous.path = .ok .directory) ∧
    (plain.save (leftover (.file []) (.link ⟨"other"⟩) permitted) .empty).1.stat ⟨"other"⟩ =
      .ok (.file (Text.bytes Lockfile.empty.print)) ∧
    (plain.save shared .empty).1.stat ⟨"other"⟩ =
      .ok (.file (Text.bytes Lockfile.empty.print)) ∧
    (selfLinked.stat plain.path = .ok (.file (Text.bytes "old")) ∧
      (plain.save selfLinked .empty).2.isOk = false ∧
      (plain.save selfLinked .empty).1.stat plain.path = .error .notFound) ∧
    ((turning.save looped .empty).2.isOk = true ∧
      (turning.save looped .empty).1.stat turning.path = .error .notADirectory) ∧
    (plain.save (leftover (.file []) (.file []) unchangeable) .empty).2.isOk = false ∧
    (plain.save (leftover (.file []) (.file []) unchangeable) .empty).1.stat
      ⟨".MODULE.lock.tmp"⟩ = .ok (.file (Text.bytes Lockfile.empty.print)) := by
  decide +kernel

end LockfileStore

end ExtensionLock
