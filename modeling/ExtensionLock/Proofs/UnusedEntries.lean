import ExtensionLock.Proofs.History
import ExtensionLock.Proofs.Accepted
import ExtensionLock.Proofs.Merging

/-! What pruning takes away and what it leaves. An entry goes exactly if no module uses its
extension, and such an entry could not have been used again, so every decision comes out as before.
The prune command puts the text of what is left in place of the lockfile; that text is read as the
pruned lockfile wherever it is read back, and after that there is nothing left to report or to
prune. -/

namespace ExtensionLock

/-- Two decisions come to the same: the same answer, or a refusal over changes in both. -/
inductive SameOutcome : Except PolicyError CacheDecision → Except PolicyError CacheDecision → Prop
  | answer (d : CacheDecision) : SameOutcome (.ok d) (.ok d)
  | stale (changes changes' : List ExtensionChange) :
      SameOutcome (.error (.stale changes)) (.error (.stale changes'))

theorem LockfileMode.sameOutcome_withoutEntry (mode : LockfileMode)
    (changes changes' : List ExtensionChange) :
    SameOutcome (mode.withoutEntry changes) (mode.withoutEntry changes') := by
  unfold withoutEntry
  split
  · exact .stale changes changes'
  · exact .answer _

namespace Lockfile

variable {l kept : Lockfile} {removed : List ExtensionId} {x : UsagesById}

/-- Pruning takes away the entries that no module uses, names them in order and leaves all else as
it was. The lockfile stays valid, has nothing left to prune, and decides as before about every
extension that is used somewhere. -/
structure PrunesTo (l kept : Lockfile) (removed : List ExtensionId) : Prop where
  rest : kept = { l with extensions := kept.extensions }
  entries : ∀ id entry, kept.extensions.get? id = some entry ↔
    l.extensions.get? id = some entry ∧ l.depGraph.Uses id
  gone : ∀ id, id ∈ removed ↔ id ∈ l.extensions.keys ∧ ¬ l.depGraph.Uses id
  ordered : removed.Pairwise (fun a b => compare a b = .lt)
  valid : kept.validate = .ok ()
  again : kept.prune = .ok (kept, [])
  decides : ∀ (mode : LockfileMode) (id : ExtensionId) (digest : Digest) (usages : ModuleUsages),
    (∃ key u, usages.get? key = some u) →
      SameOutcome (mode.decide id digest usages (some kept)) (mode.decide id digest usages (some l))

theorem prune_of_usages (grouped : l.usagesById = .ok x) :
    l.prune = .ok ({ l with extensions := l.extensions.filter (fun id _ => x.contains id) },
      l.unusedExtensions x) := by
  rw [prune, grouped]
  rfl

theorem get?_pruned {id : ExtensionId} :
    (l.extensions.filter (fun id _ => x.contains id)).get? id =
      if x.contains id then l.extensions.get? id else none := by
  rw [SortedMap.get?_filter]
  cases l.extensions.get? id with
  | none => simp
  | some entry => cases x.contains id <;> rfl

theorem get?_pruned_iff (grouped : l.usagesById = .ok x) {id : ExtensionId}
    {entry : LockedExtension} :
    (l.extensions.filter (fun id _ => x.contains id)).get? id = some entry ↔
      l.extensions.get? id = some entry ∧ l.depGraph.Uses id := by
  rw [get?_pruned, ← DepGraph.contains_iff_uses (usagesById_eq_ok.mp grouped)]
  cases x.contains id <;> simp

theorem mem_unusedExtensions (grouped : l.usagesById = .ok x) {id : ExtensionId} :
    id ∈ l.unusedExtensions x ↔ id ∈ l.extensions.keys ∧ ¬ l.depGraph.Uses id := by
  rw [unusedExtensions, List.mem_filter, Bool.not_eq_true',
    ← DepGraph.contains_iff_uses (usagesById_eq_ok.mp grouped), Bool.not_eq_true]

theorem unusedExtensions_sorted :
    (l.unusedExtensions x).Pairwise (fun a b => compare a b = .lt) :=
  List.Pairwise.filter _ (List.pairwise_map.mpr l.extensions.sorted)

theorem prune_pruned (grouped : l.usagesById = .ok x)
    (same : kept = { l with extensions := l.extensions.filter (fun id _ => x.contains id) }) :
    kept.usagesById = .ok x ∧ kept.prune = .ok (kept, []) := by
  have grouped' : kept.usagesById = .ok x := by
    rw [same]
    exact grouped
  have used : ∀ id ∈ kept.extensions.keys, x.contains id = true := by
    intro id member
    rw [same] at member
    obtain ⟨e, inside, rfl⟩ := List.mem_map.mp member
    exact (List.mem_filter.mp inside).2
  have nothing : kept.unusedExtensions x = [] := by
    rw [unusedExtensions, List.filter_eq_nil_iff]
    intro id member
    rw [used id member]
    exact Bool.false_ne_true
  have whole : kept.extensions.filter (fun id _ => x.contains id) = kept.extensions := by
    refine SortedMap.ext_get? (fun id => ?_)
    rw [get?_pruned]
    split
    · rfl
    · rename_i unused
      refine (SortedMap.get?_eq_none_iff.mpr (fun member => ?_)).symm
      exact unused (used id member)
  refine ⟨grouped', ?_⟩
  rw [prune_of_usages grouped', nothing, whole]

/-- An entry that no module of the lockfile's own graph uses could not be used again. -/
theorem decide_pruned (grouped : l.usagesById = .ok x)
    (same : kept = { l with extensions := l.extensions.filter (fun id _ => x.contains id) })
    (mode : LockfileMode) (id : ExtensionId) (digest : Digest) {usages : ModuleUsages}
    (inhabited : ∃ key u, usages.get? key = some u) :
    SameOutcome (mode.decide id digest usages (some kept))
      (mode.decide id digest usages (some l)) := by
  by_cases off : mode = .off
  · rw [off, LockfileMode.decide_off, LockfileMode.decide_off]
    exact .answer _
  · have grouped' := (prune_pruned grouped same).1
    rw [LockfileMode.decide_of_usages id digest usages off grouped,
      LockfileMode.decide_of_usages id digest usages off grouped', same]
    dsimp only
    rw [get?_pruned]
    cases recorded : l.extensions.get? id with
    | none =>
      simp only [ite_self]
      exact mode.sameOutcome_withoutEntry _ _
    | some entry =>
      cases used : x.contains id with
      | true =>
        simp only [if_true]
        split
        · exact .answer _
        · exact mode.sameOutcome_withoutEntry _ _
      | false =>
        have unmatched : entry.matches? (x.getD id .empty) digest usages = false := by
          rw [← Bool.not_eq_true, LockedExtension.matches?_iff]
          rintro ⟨-, agree⟩
          obtain ⟨key, u, shown⟩ := inhabited
          have found := get?_of_getD_beq agree shown
          rw [SortedMap.contains, found] at used
          cases used
        dsimp only
        rw [unmatched]
        exact mode.sameOutcome_withoutEntry _ _

theorem exists_prunesTo (valid : l.validate = .ok ()) :
    ∃ kept removed, l.prune = .ok (kept, removed) ∧ l.PrunesTo kept removed := by
  obtain ⟨distinct, covered⟩ := validate_eq_ok_iff.mp valid
  obtain ⟨x, grouped⟩ := distinct_iff.mp distinct
  refine ⟨_, _, prune_of_usages grouped, rfl, fun id entry => get?_pruned_iff grouped,
    fun id => mem_unusedExtensions grouped, unusedExtensions_sorted, ?_,
    (prune_pruned grouped rfl).2,
    fun mode id digest usages => decide_pruned grouped rfl mode id digest⟩
  refine validate_eq_ok_iff.mpr ⟨distinct, fun id entry found => ?_⟩
  exact covered id entry ((get?_pruned_iff grouped).mp found).1

end Lockfile

namespace CommandLine

variable {store : LockfileStore} {config : ResolverConfig} {dryRun : Bool} {c : Console}
  {l kept : Lockfile} {removed : List ExtensionId}

theorem runCheck_quiet (loaded : store.load c.files = .ok (some l))
    (pruned : l.prune = .ok (l, [])) :
    ∃ output, (runCheck config store).run c = (.ok (), { c with output }) := by
  rw [runCheck]
  split
  · exact Run.prints_print _ c
  · obtain ⟨used, grouped, -, unused⟩ := Lockfile.prune_eq_ok pruned
    rw [run_bind, loadLockfile_run loaded]
    dsimp only
    rw [run_bind, Run.ofExcept_run, grouped]
    dsimp only [Except.mapError]
    rw [← unused]
    exact Run.prints_print _ c

section Program

variable {t : FileTree} {args : List String} {o : Options} {command : Command}

theorem runCommand_run (configured : loadConfig o c.files = .ok config) :
    (runCommand o (.prune dryRun)).run c =
        (runPrune config (config.store o.workspacePath) dryRun).run c ∧
      (runCommand o .check).run c = (runCheck config (config.store o.workspacePath)).run c := by
  constructor
  all_goals
    rw [runCommand]
    · rw [Run.files_bind, run_bind, Run.ofExcept_run, configured]
      rfl
    · nofun

theorem run_of_ok (parsed : parse args = .ok (.run o command))
    (done : (runCommand o command).run ⟨t, "", ""⟩ = (.ok (), c)) :
    run args t = ⟨c.files, 0, c.output, c.errors⟩ := by
  rw [run, parsed]
  dsimp only
  rw [done]

theorem run_of_error {f : Failure} (parsed : parse args = .ok (.run o command))
    (failed : (runCommand o command).run ⟨t, "", ""⟩ = (.error f, c)) :
    run args t = ⟨c.files, 1, c.output, c.errors ++ f.report⟩ := by
  rw [run, parsed]
  dsimp only
  rw [failed]

/-- What a command to prune leaves of a lockfile: its pruned text, or the file as it was. The text
is loaded as the pruned lockfile exactly if it is read back, which it is if all numbers are. -/
inductive Leaves (store : LockfileStore) (t : FileTree) (l kept : Lockfile) (out : Outcome) : Prop
  | saved (exitCode : out.exitCode = 0) (save : store.save t kept = (out.files, .ok ()))
      (text : out.files.read store.path = .ok (Text.bytes kept.print))
      (loads : store.load out.files = .ok (some kept) ↔
        Lockfile.parse store.path kept.print = .ok kept)
      (numbers : l.ReadBack → store.load out.files = .ok (some kept))
  | failed (exitCode : out.exitCode = 1) (e : LockfileError)
      (save : store.save t kept = (out.files, .error e))
      (untouched : out.files.read store.path = t.read store.path)

structure Settled (store : LockfileStore) (t : FileTree) : Prop where
  check : ∀ args o config, parse args = .ok (.run o .check) → loadConfig o t = .ok config →
    config.store o.workspacePath = store →
      (run args t).exitCode = 0 ∧ (run args t).errors = "" ∧ (run args t).files = t
  prune : ∀ args o dryRun config, parse args = .ok (.run o (.prune dryRun)) →
    loadConfig o t = .ok config → config.store o.workspacePath = store → (run args t).files = t

theorem run_unwritten (parsed : parse args = .ok (.run o (.prune dryRun)))
    (configured : loadConfig o t = .ok config) (loaded : store.load t = .ok (some l))
    (stored : config.store o.workspacePath = store) (pruned : l.prune = .ok (kept, removed))
    (unwritten : config.options.lockfileMode ≠ .update ∨ dryRun = true ∨ removed = []) :
    (run args t).files = t := by
  have command := (@runCommand_run config dryRun ⟨t, "", ""⟩ o configured).1
  rw [stored] at command
  by_cases update : config.options.lockfileMode = .update
  · have nothing := unwritten.resolve_left (not_not.mpr update)
    rw [runPrune_run (c := ⟨t, "", ""⟩) update loaded pruned] at command
    obtain ⟨output, printed⟩ :=
      @writePruned_prints store dryRun kept removed nothing.symm ⟨t, "", ""⟩
    rw [run_of_ok parsed (command.trans printed)]
  · obtain ⟨failure, refused⟩ := runPrune_refused update
    rw [run_of_error parsed (command.trans refused)]

theorem load_eq_iff_parse {s : LockfileStore} {text : String}
    (found : t.read s.path = .ok (Text.bytes text)) (valid : l.validate = .ok ()) :
    s.load t = .ok (some l) ↔ Lockfile.parse s.path text = .ok l := by
  rw [LockfileStore.load_of_read found]
  constructor
  · intro loaded
    obtain ⟨l', parsed, loaded⟩ := exists_of_bind_eq_ok loaded
    obtain ⟨_, -, same⟩ := exists_of_bind_eq_ok loaded
    cases same
    exact parsed
  · intro parsed
    rw [parsed]
    change (do
      l.validate
      pure (some l)) = _
    rw [valid]
    rfl

theorem run_leaves (parsed : parse args = .ok (.run o (.prune false)))
    (configured : loadConfig o t = .ok config) (loaded : store.load t = .ok (some l))
    (stored : config.store o.workspacePath = store) (pruned : l.prune = .ok (kept, removed))
    (valid : kept.validate = .ok ()) (update : config.options.lockfileMode = .update)
    (some : removed ≠ []) : Leaves store t l kept (run args t) := by
  obtain ⟨content, text, found, -, read, -⟩ := LockfileStore.load_eq_some loaded
  have command := (@runCommand_run config false ⟨t, "", ""⟩ o configured).1
  obtain ⟨output, saves⟩ := @writePruned_saves store ⟨t, "", ""⟩ kept removed some
  rw [stored, runPrune_run (c := ⟨t, "", ""⟩) update loaded pruned, saves] at command
  dsimp only at command
  rcases LockfileStore.save_over (l := kept) found with saved | ⟨e, failed, untouched⟩
  · rw [saved] at command
    have there := (LockfileStore.save_cases store t kept).2 saved
    rw [run_of_ok parsed command]
    refine .saved rfl (Prod.ext rfl saved) there (load_eq_iff_parse there valid) (fun numbers => ?_)
    have storable := (Lockfile.storable_of_parse read numbers).prune pruned
    dsimp only
    rw [LockfileStore.load_saved saved storable, valid]
    rfl
  · rw [failed] at command
    rw [run_of_error parsed command]
    exact .failed rfl e (Prod.ext rfl failed) (untouched.trans found.symm)

theorem settled_of_pruned (loaded : store.load t = .ok (some l)) (pruned : l.prune = .ok (l, [])) :
    Settled store t where
  check args o config parsed configured stored := by
    have command := (@runCommand_run config false ⟨t, "", ""⟩ o configured).2
    rw [stored] at command
    obtain ⟨output, quiet⟩ := @runCheck_quiet store config ⟨t, "", ""⟩ l loaded pruned
    rw [run_of_ok parsed (command.trans quiet)]
    exact ⟨rfl, rfl, rfl⟩
  prune args o dryRun config parsed configured stored :=
    run_unwritten parsed configured loaded stored pruned (.inr (.inr rfl))

/-- Pruning removes the entries that no module uses and changes no decision. The command leaves the
files as they are if it may not write or has nothing to remove. Otherwise it saves what is left of
the lockfile, and wherever that is loaded again there is no unused entry any more. -/
theorem prune_settles (loaded : store.load t = .ok (some l)) :
    ∃ kept removed, l.prune = .ok (kept, removed) ∧ l.PrunesTo kept removed ∧
      (∀ t', store.load t' = .ok (some kept) → Settled store t') ∧
      ∀ args o dryRun config, parse args = .ok (.run o (.prune dryRun)) →
        loadConfig o t = .ok config → config.store o.workspacePath = store →
          (config.options.lockfileMode ≠ .update ∨ dryRun = true ∨ removed = [] →
            (run args t).files = t) ∧
          (config.options.lockfileMode = .update → dryRun = false → removed ≠ [] →
            Leaves store t l kept (run args t)) := by
  obtain ⟨-, -, -, -, -, valid⟩ := LockfileStore.load_eq_some loaded
  obtain ⟨kept, removed, pruned, prunes⟩ := Lockfile.exists_prunesTo valid
  refine ⟨kept, removed, pruned, prunes, fun t' again => settled_of_pruned again prunes.again, ?_⟩
  intro args o dryRun config parsed configured stored
  refine ⟨run_unwritten parsed configured loaded stored pruned, fun update write some => ?_⟩
  rw [write] at parsed
  exact run_leaves parsed configured loaded stored pruned prunes.valid update some

end Program

section Loose

def defaultStore : LockfileStore := ResolverConfig.default.store ⟨"."⟩

def looseFiles : FileTree :=
  ⟨.ofList [(defaultStore.path.place, .file (Text.bytes looseText))]⟩

theorem looseFiles_load : defaultStore.load looseFiles = .ok (some looseLockfile) := by
  have found : looseFiles.read defaultStore.path = .ok (Text.bytes looseText) := by rfl
  rw [LockfileStore.load_of_read found, Lockfile.parse, loose_document]
  rfl

/-- The unused entry is removed, and nothing is left to report or to prune. -/
theorem loose_pruned : (run ["prune"] looseFiles).exitCode = 0 ∧
    defaultStore.load (run ["prune"] looseFiles).files = .ok (some Lockfile.empty) ∧
    Settled defaultStore (run ["prune"] looseFiles).files := by
  obtain ⟨kept, removed, pruned, -, settled, command⟩ := prune_settles looseFiles_load
  have entry : looseLockfile.prune =
      .ok (Lockfile.empty, [⟨⟨"", "", "deps.bzl"⟩, "deps", none⟩]) := by rfl
  cases pruned.symm.trans entry
  obtain ⟨-, leaves⟩ := command ["prune"] ⟨none, none, none, none⟩ false .default rfl rfl rfl
  cases leaves rfl rfl (List.cons_ne_nil _ _) with
  | saved exitCode _ _ _ numbers =>
    have loads := numbers loose_readBack
    exact ⟨exitCode, loads, settled _ loads⟩
  | failed _ e save _ =>
    have fine : (defaultStore.save looseFiles Lockfile.empty).2 = .ok () := by rfl
    rw [save] at fine
    cases fine

end Loose

end CommandLine

end ExtensionLock
