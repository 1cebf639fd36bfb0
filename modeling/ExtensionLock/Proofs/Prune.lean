import ExtensionLock.CommandLine.Commands
import ExtensionLock.Proofs.Evaluation
import ExtensionLock.Proofs.Store

/-! What the prune command does to the files: nothing, or it saves what pruning keeps of the
lockfile that it has loaded. -/

namespace ExtensionLock

namespace Lockfile

theorem prune_eq_ok {l kept : Lockfile} {removed : List ExtensionId}
    (pruned : l.prune = .ok (kept, removed)) : ∃ used, l.usagesById = .ok used ∧
      kept = { l with extensions := l.extensions.filter (fun id _ => used.contains id) } ∧
      removed = l.unusedExtensions used := by
  rw [prune] at pruned
  cases grouped : l.usagesById with
  | error e => rw [grouped] at pruned; cases pruned
  | ok used =>
    rw [grouped] at pruned
    cases pruned
    exact ⟨used, rfl, rfl, rfl⟩

end Lockfile

namespace CommandLine

def Run.Prints (a : Run Unit) : Prop :=
  ∀ c : Console, ∃ output, a.run c = (.ok (), { c with output })

namespace Run

theorem prints_bind {a b : Run Unit} (first : a.Prints) (rest : b.Prints) :
    (a >>= fun _ => b).Prints := by
  intro c
  obtain ⟨output, printed⟩ := first c
  obtain ⟨output', printed'⟩ := rest { c with output }
  exact ⟨output', bind_eq_ok.mpr ⟨(), _, printed, printed'⟩⟩

theorem prints_print (line : String) : (print line).Prints := fun _ => ⟨_, rfl⟩

theorem prints_printAll (lines : List String) : (printAll lines).Prints := by
  induction lines with
  | nil => exact fun c => ⟨c.output, rfl⟩
  | cons line rest ih => exact prints_bind (prints_print line) ih

theorem ofExcept_run {wrap : ε → Failure} (r : Except ε α) (c : Console) :
    (ofExcept wrap r).run c = (r.mapError wrap, c) := by
  cases r <;> rfl

theorem onFiles_run {wrap : ε → Failure} (r : FileTree × Except ε α) (c : Console) :
    (onFiles wrap r).run c = (r.2.mapError wrap, { c with files := r.1 }) := by
  rw [onFiles, run_bind]
  exact ofExcept_run r.2 { c with files := r.1 }

theorem files_bind {f : FileTree → Run α} (c : Console) :
    (files >>= f).run c = (f c.files).run c := by
  rw [run_bind]
  rfl

end Run

variable {store : LockfileStore} {config : ResolverConfig} {dryRun : Bool} {c : Console}
  {l kept : Lockfile} {removed : List ExtensionId}

theorem loadLockfile_run (loaded : store.load c.files = .ok (some l)) :
    (loadLockfile store).run c = (.ok l, c) := by
  rw [loadLockfile, Run.files_bind, run_bind, Run.ofExcept_run, loaded]
  rfl

theorem loadLockfile_cases (store : LockfileStore) (c : Console) :
    (∃ l, store.load c.files = .ok (some l)) ∨
      ∃ failure, (loadLockfile store).run c = (.error failure, c) := by
  rw [loadLockfile, Run.files_bind, run_bind, Run.ofExcept_run]
  cases loaded : store.load c.files with
  | error e => exact .inr ⟨_, rfl⟩
  | ok found =>
    cases found with
    | none => exact .inr ⟨_, rfl⟩
    | some l => exact .inl ⟨l, rfl⟩

theorem runPrune_refused (other : config.options.lockfileMode ≠ .update) :
    ∃ failure, (runPrune config store dryRun).run c = (.error failure, c) := by
  rw [runPrune, if_neg other]
  exact ⟨_, rfl⟩

def writePruned (store : LockfileStore) (dryRun : Bool) (kept : Lockfile)
    (removed : List ExtensionId) : Run Unit := do
  if removed.isEmpty then Run.print "Nothing to prune"
  else
    Run.printAll (removed.map (fun id => "Removed " ++ id.text))
    if dryRun then Run.print ("Dry run: " ++ store.path.text ++ " not modified")
    else Run.onFiles Failure.ofLockfile (store.save (← Run.files) kept)

theorem runPrune_run (update : config.options.lockfileMode = .update)
    (loaded : store.load c.files = .ok (some l)) (pruned : l.prune = .ok (kept, removed)) :
    (runPrune config store dryRun).run c = (writePruned store dryRun kept removed).run c := by
  rw [runPrune, if_pos update, run_bind, loadLockfile_run loaded]
  dsimp only
  rw [run_bind, Run.ofExcept_run, pruned]
  rfl

theorem writePruned_prints (unwritten : removed = [] ∨ dryRun = true) :
    (writePruned store dryRun kept removed).Prints := by
  rw [writePruned]
  split
  · exact Run.prints_print _
  · rename_i some
    rw [List.isEmpty_iff] at some
    rw [unwritten.resolve_left some, if_pos rfl]
    exact Run.prints_bind (Run.prints_printAll _) (Run.prints_print _)

theorem writePruned_saves (some : removed ≠ []) :
    ∃ output, (writePruned store false kept removed).run c =
      ((store.save c.files kept).2.mapError Failure.ofLockfile,
        { c with files := (store.save c.files kept).1, output }) := by
  obtain ⟨output, printed⟩ :=
    Run.prints_printAll (removed.map (fun id => "Removed " ++ id.text)) c
  refine ⟨output, ?_⟩
  rw [writePruned, if_neg (by rwa [List.isEmpty_iff]), run_bind, printed]
  dsimp only
  rw [if_neg Bool.false_ne_true, Run.files_bind, Run.onFiles_run]

/-- What the prune command may do to a file tree. -/
inductive Prunes (store : LockfileStore) (t : FileTree) : FileTree → Prop
  | unchanged : Prunes store t t
  | saved (l kept : Lockfile) (removed : List ExtensionId) (loaded : store.load t = .ok (some l))
      (pruned : l.prune = .ok (kept, removed)) : Prunes store t (store.save t kept).1

theorem runPrune_prunes (config : ResolverConfig) (store : LockfileStore) (dryRun : Bool)
    (c : Console) : Prunes store c.files ((runPrune config store dryRun).run c).2.files := by
  by_cases update : config.options.lockfileMode = .update
  · rcases loadLockfile_cases store c with ⟨l, loaded⟩ | ⟨failure, failed⟩
    · cases pruned : l.prune with
      | error e =>
        rw [runPrune, if_pos update, run_bind, loadLockfile_run loaded]
        dsimp only
        rw [run_bind, Run.ofExcept_run, pruned]
        exact .unchanged
      | ok both =>
        obtain ⟨kept, removed⟩ := both
        rw [runPrune_run update loaded pruned]
        by_cases unwritten : removed = [] ∨ dryRun = true
        · obtain ⟨output, printed⟩ := @writePruned_prints store dryRun kept removed unwritten c
          rw [printed]
          exact .unchanged
        · obtain ⟨some, write⟩ := not_or.mp unwritten
          obtain ⟨output, saves⟩ := @writePruned_saves store c kept removed some
          rw [Bool.not_eq_true _ |>.mp write, saves]
          exact .saved l kept removed loaded pruned
    · rw [runPrune, if_pos update, run_bind, failed]
      exact .unchanged
  · obtain ⟨failure, refused⟩ := @runPrune_refused store config dryRun c update
    rw [refused]
    exact .unchanged

end CommandLine

end ExtensionLock
