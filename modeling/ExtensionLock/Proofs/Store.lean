import ExtensionLock.Lockfile.Store
import ExtensionLock.Proofs.Stored
import ExtensionLock.Proofs.Ways

/-! Saving and loading. A saved lockfile is what the next load finds, as far as it passes its own
validation, and a save brings no content into the file tree but the text of its lockfile. -/

namespace ExtensionLock

namespace FileTree

variable {t t' : FileTree} {result : Except IoError FileTree}

theorem after_eq_ok : t.after result = (t', .ok ()) ↔ result = .ok t' := by
  cases result with
  | error e => exact ⟨fun h => (by cases h), fun h => (by cases h)⟩
  | ok changed => exact ⟨fun h => (by cases h; rfl), fun h => (by cases h; rfl)⟩

theorem after_eq_error {e : IoError} :
    t.after result = (t', .error e) ↔ result = .error e ∧ t' = t := by
  cases result with
  | error e' =>
    refine ⟨fun h => (by cases h; exact ⟨rfl, rfl⟩), ?_⟩
    rintro ⟨same, rfl⟩
    cases same
    rfl
  | ok changed => exact ⟨fun h => (by cases h), fun h => (by cases h.1)⟩

end FileTree

namespace LockfileStore

variable {s : LockfileStore} {t t' : FileTree} {l : Lockfile}

theorem exists?_iff : s.exists? t = true ↔ ∃ content, t.read s.path = .ok content :=
  FileTree.isFile_iff

theorem load_of_absent (absent : s.exists? t = false) : s.load t = .ok none := by
  rw [load, absent]
  rfl

theorem load_of_content {content : Bytes} (found : t.read s.path = .ok content) :
    s.load t = match Text.ofBytes? content with
      | none => .error (.io s.path .notText)
      | some text => (do
        let l ← Lockfile.parse s.path text
        l.validate
        pure (some l)) := by
  rw [load, if_pos (exists?_iff.mpr ⟨_, found⟩), FileTree.readText, found]
  simp only [bind, Except.bind]
  cases Text.ofBytes? content <;> rfl

theorem load_of_read {text : String} (found : t.read s.path = .ok (Text.bytes text)) :
    s.load t = (do
      let l ← Lockfile.parse s.path text
      l.validate
      pure (some l)) := by
  rw [load_of_content found, Text.ofBytes?_bytes]

theorem load_eq_some (loaded : s.load t = .ok (some l)) :
    ∃ content text, t.read s.path = .ok content ∧ Text.ofBytes? content = some text ∧
      Lockfile.parse s.path text = .ok l ∧ l.validate = .ok () := by
  cases there : s.exists? t with
  | false =>
    rw [load_of_absent there] at loaded
    cases loaded
  | true =>
    obtain ⟨content, found⟩ := exists?_iff.mp there
    rw [load_of_content found] at loaded
    cases text? : Text.ofBytes? content with
    | none => rw [text?] at loaded; cases loaded
    | some text =>
      rw [text?] at loaded
      refine ⟨content, text, found, text?, ?_⟩
      cases parsed : Lockfile.parse s.path text with
      | error e => simp only [parsed] at loaded; cases loaded
      | ok l' => cases valid : l'.validate with
        | error e => simp only [parsed, bind, Except.bind, valid] at loaded; cases loaded
        | ok u =>
          simp only [parsed, bind, Except.bind, valid] at loaded
          cases loaded
          exact ⟨rfl, valid⟩

theorem load_eq_none (loaded : s.load t = .ok none) : s.exists? t = false := by
  cases there : s.exists? t with
  | false => rfl
  | true =>
    obtain ⟨content, found⟩ := exists?_iff.mp there
    rw [load_of_content found] at loaded
    cases text? : Text.ofBytes? content with
    | none => rw [text?] at loaded; cases loaded
    | some text => cases parsed : Lockfile.parse s.path text with
      | error e => simp only [text?, parsed] at loaded; cases loaded
      | ok l => cases valid : l.validate with
        | error e => simp only [text?, parsed, bind, Except.bind, valid] at loaded; cases loaded
        | ok u => simp only [text?, parsed, bind, Except.bind, valid] at loaded; cases loaded

inductive Ends {σ : Type} [FileSystem σ] (s : LockfileStore) (t : σ) (l : Lockfile) :
    σ × Except LockfileError Unit → Prop
  | unprepared {ready e} (prepared : s.prepare t = (ready, .error e)) :
    Ends s t l (ready, .error (.io s.path e))
  | unwritten {ready written e} (prepared : s.prepare t = (ready, .ok ()))
    (failed : FileSystem.write ready s.temporaryPath (Text.bytes l.print) = (written, .error e)) :
    Ends s t l (written, .error (.io s.path e))
  | unmoved {ready written left e} (prepared : s.prepare t = (ready, .ok ()))
    (wrote : FileSystem.write ready s.temporaryPath (Text.bytes l.print) = (written, .ok ()))
    (failed : FileSystem.rename written s.temporaryPath s.path = (left, .error e)) :
    Ends s t l ((FileSystem.removeFile left s.temporaryPath).1, .error (.io s.path e))
  | moved {ready written after} (prepared : s.prepare t = (ready, .ok ()))
    (wrote : FileSystem.write ready s.temporaryPath (Text.bytes l.print) = (written, .ok ()))
    (done : FileSystem.rename written s.temporaryPath s.path = (after, .ok ())) :
    Ends s t l (after, .ok ())

theorem ends_save {σ : Type} [FileSystem σ] (s : LockfileStore) (t : σ) (l : Lockfile) :
    s.Ends t l (s.save t l) := by
  rw [save]
  cases prepared : s.prepare t with
  | mk ready result => cases result with
    | error e => exact .unprepared prepared
    | ok u =>
      dsimp only
      cases wrote : FileSystem.write ready s.temporaryPath (Text.bytes l.print) with
      | mk written result => cases result with
        | error e => exact .unwritten prepared wrote
        | ok u =>
          dsimp only
          cases moved : FileSystem.rename written s.temporaryPath s.path with
          | mk after result => cases result with
            | error e => exact .unmoved prepared wrote moved
            | ok u => exact .moved prepared wrote moved

def directory (s : LockfileStore) : Path := s.path.parent?.getD ⟨""⟩

theorem paved_prepare (s : LockfileStore) (t : FileTree) :
    FileTree.Paved s.directory t (s.prepare t).1 := by
  rw [prepare, directory]
  split
  · rename_i above
    rw [above]
    split
    · exact .refl _ t
    · exact FileTree.paved_createDirectories t _
  · exact .refl _ t

/-- However a save ends, it brings in no content but the text of the lockfile, and if it succeeds
that text is in place. -/
theorem save_cases (s : LockfileStore) (t : FileTree) (l : Lockfile) :
    FileTree.Brought t (s.save t l).1 (Text.bytes l.print) ∧
      ((s.save t l).2 = .ok () → (s.save t l).1.read s.path = .ok (Text.bytes l.print)) := by
  have ready := (s.paved_prepare t).brought (Text.bytes l.print)
  have ended := s.ends_save t l
  generalize s.save t l = r at ended
  cases ended with
  | unprepared prepared =>
    rw [prepared] at ready
    exact ⟨ready, fun h => (by cases h)⟩
  | unwritten prepared failed =>
    obtain ⟨-, rfl⟩ := FileTree.after_eq_error.mp failed
    rw [prepared] at ready
    exact ⟨ready, fun h => (by cases h)⟩
  | unmoved prepared wrote failed =>
    obtain ⟨-, rfl⟩ := FileTree.after_eq_error.mp failed
    have wrote := FileTree.after_eq_ok.mp wrote
    rw [prepared] at ready
    have brought := ready.trans (FileTree.brought_write wrote)
    simp only [FileSystem.removeFile, FileTree.removeFile_written wrote]
    exact ⟨brought.trans (FileTree.brought_cutOff _ _), fun h => (by cases h)⟩
  | moved prepared wrote done =>
    have wrote := FileTree.after_eq_ok.mp wrote
    have done := FileTree.after_eq_ok.mp done
    rw [prepared] at ready
    have brought := ready.trans (FileTree.brought_write wrote)
    have content := FileTree.read_write wrote
    exact ⟨brought.trans (FileTree.brought_rename done content),
      fun _ => (FileTree.read_rename done).trans content⟩

/-- A save in place of a file succeeds, or it leaves that file as it was: once the temporary file is
written nothing stands in its way. -/
theorem save_over {content : Bytes} (found : t.read s.path = .ok content) :
    (s.save t l).2 = .ok () ∨
      ∃ e, (s.save t l).2 = .error e ∧ (s.save t l).1.read s.path = .ok content := by
  have kept := (s.paved_prepare t).grows.read found
  have ended := s.ends_save t l
  generalize s.save t l = r at ended
  cases ended with
  | unprepared prepared =>
    rw [prepared] at kept
    exact .inr ⟨_, rfl, kept⟩
  | unwritten prepared failed =>
    obtain ⟨-, rfl⟩ := FileTree.after_eq_error.mp failed
    rw [prepared] at kept
    exact .inr ⟨_, rfl, kept⟩
  | unmoved prepared wrote failed =>
    have wrote := FileTree.after_eq_ok.mp wrote
    rw [prepared] at kept
    obtain ⟨b, there⟩ := FileTree.exists_read_of_write kept wrote
    obtain ⟨moved, renamed⟩ := FileTree.exists_rename (FileTree.read_write wrote) there
    cases (FileTree.after_eq_error.mp failed).1.symm.trans renamed
  | moved prepared wrote done => exact .inl rfl

theorem load_saved (saved : (s.save t l).2 = .ok ())
    (storable : l.Storable (some Lockfile.tagLimit)) :
    s.load (s.save t l).1 = (l.validate).map (fun _ => some l) := by
  rw [load_of_read ((save_cases s t l).2 saved), Lockfile.parse_print_of_limit storable]
  change (do
    l.validate
    pure (some l)) = (l.validate).map (fun _ => some l)
  cases l.validate <;> rfl

end LockfileStore

end ExtensionLock
