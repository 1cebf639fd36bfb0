import ExtensionLock.Proofs.Finish
import ExtensionLock.Proofs.Inside

/-! What implementations do with files. A path that would leave the working directory is refused
before anything is done with it; all others lead inside. So whatever an implementation goes on to do
with the answers it gets, it sees nothing of the files outside of its working directory and changes
none of them. -/

namespace ExtensionLock

def Operation.Own : Operation → Prop
  | .meanwhile _ => False
  | _ => True

/-- Nothing else happens while an implementation runs. -/
def Implementation.Undisturbed : Implementation → Prop
  | .done _ => True
  | .step op next => op.Own ∧ ∀ answer, (next answer).Undisturbed

namespace Context

variable {c : Context} {relative p : Path} {t t' : FileTree}

/-- What an operation on a path ends with where the path does not stay inside. -/
def refusal (relative : Path) : ScriptError :=
  .ofMessage ("path '" ++ relative.text ++
    "' must be relative and stay inside the working directory")

theorem locate_of_climbs (climbs : relative.Climbs) :
    c.locate relative = .error (refusal relative) :=
  if_neg (fun inside => Path.staysInside_iff.mp inside climbs)

theorem locate_of_inside (inside : relative.staysInside = true) :
    c.locate relative = .ok (c.directory.path.join relative) := if_pos inside

def outputDirectory (c : Context) (relative : Path) : Path :=
  (c.directory.path.join relative).parent?.getD c.directory.path

/-- What writing and downloading share: a file for which there is content, unless it could not be
had, is put where directories have been made for it. -/
def deliver (c : Context) (relative : Path) (content : Except ScriptError Bytes)
    (failure : Path → IoError → ScriptError) (t : FileTree) :
    FileTree × Except ScriptError Path :=
  match c.prepareOutput relative t with
  | (t, .error e) => (t, .error e)
  | (t, .ok p) =>
    match content with
    | .error e => (t, .error e)
    | .ok content => put t p content (failure p)

theorem write_eq (c : Context) (relative : Path) (content : Bytes) :
    c.write relative content = c.deliver relative (.ok content) (ioFailure "write") := rfl

theorem download_eq (c : Context) (urls : List String) (relative : Path) :
    c.download urls relative = c.deliver relative
      ((c.capabilities.download urls).mapError (fun e => .ofMessage e.message))
      (fun _ e => .ofMessage (DownloadError.io e).message) := by
  funext t
  rw [download, deliver]
  cases c.capabilities.download urls <;> rfl

/-- Related trees look the same to all that a context does with files, and stay related. -/
structure Blind (c : Context) (related : FileTree → FileTree → Prop) : Prop where
  shows : FileTree.ShowsKinds related c.directory.path.Sees
  same : ∀ t t' q, related t t' → c.directory.path.place.Holds q → t.entry? q = t'.entry? q
  written : ∀ t t' q e, related t t' → c.directory.path.place.Holds q →
    related ⟨t.entries.insert q e⟩ ⟨t'.entries.insert q e⟩

variable {related : FileTree → FileTree → Prop}

section Deliver

variable {content : Except ScriptError Bytes} {failure : Path → IoError → ScriptError}

theorem deliver_of_climbs (climbs : relative.Climbs) (t : FileTree) :
    c.deliver relative content failure t = (t, .error (refusal relative)) := by
  rw [deliver, prepareOutput, locate_of_climbs climbs]

theorem deliver_of_inside (inside : relative.staysInside = true) (t : FileTree) :
    c.deliver relative content failure t =
      match t.createDirectories (c.outputDirectory relative), content with
      | (t, .error e), _ => (t, .error (ioFailure "create" (c.outputDirectory relative) e))
      | (t, .ok ()), .error e => (t, .error e)
      | (t, .ok ()), .ok content =>
        let p := c.directory.path.join relative
        put t p content (failure p) := by
  rw [deliver, prepareOutput, locate_of_inside inside, outputDirectory]
  dsimp only
  generalize t.createDirectories _ = r
  obtain ⟨u, result⟩ := r
  cases result <;> cases content <;> rfl

theorem sees_of_output (inside : relative.staysInside = true) {q : Place}
    (passes : (c.outputDirectory relative).Passes q) : c.directory.path.Sees q := by
  rw [outputDirectory] at passes
  have above := (c.directory.path.join relative).prefix_of_parent
  cases parent : (c.directory.path.join relative).parent? with
  | none =>
    rw [parent] at passes
    exact .inl passes
  | some dir =>
    rw [parent] at passes above
    exact Path.sees_of_join inside (passes.mono above)

inductive Delivers (c : Context) (relative : Path) (content : Except ScriptError Bytes)
    (failure : Path → IoError → ScriptError) (t : FileTree) :
    FileTree × Except ScriptError Path → Prop
  | blocked {u e} (made : t.createDirectories (c.outputDirectory relative) = (u, .error e)) :
    Delivers c relative content failure t
      (u, .error (ioFailure "create" (c.outputDirectory relative) e))
  | lacking {u e} (made : t.createDirectories (c.outputDirectory relative) = (u, .ok ()))
    (lost : content = .error e) : Delivers c relative content failure t (u, .error e)
  | failed {u b e} (made : t.createDirectories (c.outputDirectory relative) = (u, .ok ()))
    (had : content = .ok b) (wrote : u.write (c.directory.path.join relative) b = .error e) :
    Delivers c relative content failure t
      (u, .error (failure (c.directory.path.join relative) e))
  | stored {u b v} (made : t.createDirectories (c.outputDirectory relative) = (u, .ok ()))
    (had : content = .ok b) (wrote : u.write (c.directory.path.join relative) b = .ok v) :
    Delivers c relative content failure t (v, .ok (c.directory.path.join relative))

theorem delivers (inside : relative.staysInside = true) (t : FileTree) :
    c.Delivers relative content failure t (c.deliver relative content failure t) := by
  rw [deliver_of_inside inside]
  cases made : t.createDirectories (c.outputDirectory relative) with
  | mk u result => cases result with
    | error e => exact .blocked made
    | ok x => cases had : content with
      | error e => exact .lacking made rfl
      | ok b =>
        dsimp only
        rw [put]
        split
        · exact .stored made rfl ‹_›
        · exact .failed made rfl ‹_›

theorem deliver_changed (t : FileTree) :
    FileTree.ChangedWithin c.directory.path t (c.deliver relative content failure t).1 := by
  cases inside : relative.staysInside with
  | false =>
    rw [deliver_of_climbs (Path.climbs_of_not_inside inside)]
    exact .refl _ _
  | true =>
    have prepared := (FileTree.paved_createDirectories t (c.outputDirectory relative)).within
      (fun q passes => sees_of_output inside passes)
    have ended : c.Delivers relative content failure t (c.deliver relative content failure t) :=
      delivers inside t
    generalize c.deliver relative content failure t = r at ended
    cases ended with
    | blocked made => rwa [made] at prepared
    | lacking made lost => rwa [made] at prepared
    | failed made had wrote => rwa [made] at prepared
    | stored made had wrote =>
      rw [made] at prepared
      obtain ⟨place, written, rfl⟩ := FileTree.write_eq_ok wrote
      cases FileTree.resolve_eq_place written.resolved
      exact prepared.trans (.insert (Path.holds_join _ inside) _)

theorem Blind.put (blind : c.Blind related) (pair : related t t')
    (inside : relative.staysInside = true) (content : Bytes) (failure : IoError → ScriptError) :
    FileTree.Alike related (put t (c.directory.path.join relative) content failure)
      (put t' (c.directory.path.join relative) content failure) := by
  have held := Path.holds_join c.directory.path inside
  rcases FileTree.write_alike
    (fun q passes => blind.shows.kind t t' q pair (Path.sees_of_join inside passes))
    (blind.same t t' _ pair held) (fun e => blind.written t t' _ e pair held) content with
    ⟨e, failed, failed'⟩ | ⟨u, u', done, done', left⟩
  · rw [Context.put, Context.put, failed, failed']
    exact ⟨rfl, pair⟩
  · rw [Context.put, Context.put, done, done']
    exact ⟨rfl, left⟩

theorem Blind.deliver (blind : c.Blind related) (pair : related t t') :
    FileTree.Alike related (c.deliver relative content failure t)
      (c.deliver relative content failure t') := by
  cases inside : relative.staysInside with
  | false =>
    have climbs := Path.climbs_of_not_inside inside
    rw [deliver_of_climbs climbs, deliver_of_climbs climbs]
    exact ⟨rfl, pair⟩
  | true =>
    rw [deliver_of_inside inside, deliver_of_inside inside]
    have made : FileTree.Alike related (t.createDirectories (c.outputDirectory relative))
        (t'.createDirectories (c.outputDirectory relative)) :=
      blind.shows.createDirectories pair (fun q passes => sees_of_output inside passes)
    dsimp only
    generalize t.createDirectories _ = r at made
    generalize t'.createDirectories _ = r' at made
    obtain ⟨u, result⟩ := r
    obtain ⟨u', result'⟩ := r'
    obtain ⟨rfl, left⟩ : result = result' ∧ related u u' := made
    cases result with
    | error e => exact ⟨rfl, left⟩
    | ok x => cases content with
      | error e => exact ⟨rfl, left⟩
      | ok content => exact blind.put left inside content _

theorem Blind.read (blind : c.Blind related) (pair : related t t') (relative : Path) :
    c.read relative t = c.read relative t' := by
  cases inside : relative.staysInside with
  | false =>
    have climbs := Path.climbs_of_not_inside inside
    rw [Context.read, Context.read, locate_of_climbs climbs]
    rfl
  | true =>
    have found : t.read (c.directory.path.join relative) =
        t'.read (c.directory.path.join relative) := by
      rw [FileTree.read, FileTree.read, FileTree.stat_congr
        (fun q passes => blind.shows.kind t t' q pair (Path.sees_of_join inside passes))
        (blind.same t t' _ pair (Path.holds_join _ inside))]
    simp only [Context.read, locate_of_inside inside, bind, Except.bind, found]

theorem deliver_eq_ok (inside : relative.staysInside = true)
    (delivered : c.deliver relative content failure t = (t', .ok p)) :
    p = c.directory.path.join relative ∧
      ∃ b, content = .ok b ∧ t'.read (c.directory.path.join relative) = .ok b := by
  have ended : c.Delivers relative content failure t (t', .ok p) := delivered ▸ delivers inside t
  cases ended with
  | stored made had wrote => exact ⟨rfl, _, had, FileTree.read_write wrote⟩

theorem ne_refusal {start : String} (other : start.toList.head? ≠ some 'p') (filled : start ≠ "")
    (rest : String) : ScriptError.ofMessage (start ++ rest) ≠ refusal relative := by
  have head {text : String} (filled : text ≠ "") (rest : String) :
      (text ++ rest).toList.head? = text.toList.head? := by
    rw [String.toList_append, List.head?_append_of_ne_nil]
    exact fun nothing => filled (String.toList_eq_nil_iff.mp nothing)
  intro same
  have first : (start ++ rest).toList.head? = some 'p' := by
    have worded : start ++ rest = (refusal relative).message := congrArg ScriptError.message same
    rw [worded, refusal, ScriptError.ofMessage, String.append_assoc, head (by decide)]
    decide
  rw [head filled] at first
  exact other first

theorem ioFailure_ne_refusal (action : String) (p : Path) (e : IoError) :
    ioFailure action p e ≠ refusal relative := by
  simp only [ioFailure, String.append_assoc]
  exact ne_refusal (by decide) (by decide) _

theorem downloadError_ne_refusal (e : DownloadError) :
    ScriptError.ofMessage e.message ≠ refusal relative := by
  cases e with
  | offline urls =>
    change ScriptError.ofMessage ("downloads are disabled; cannot fetch " ++ joined ", " urls) ≠ _
    exact ne_refusal (by decide) (by decide) _
  | failed url message =>
    change ScriptError.ofMessage ("failed to download " ++ url ++ ": " ++ message) ≠ _
    rw [String.append_assoc, String.append_assoc]
    exact ne_refusal (by decide) (by decide) _
  | io source =>
    change ScriptError.ofMessage ("IO error: " ++ source.message) ≠ _
    exact ne_refusal (by decide) (by decide) _

theorem deliver_ne_refusal (inside : relative.staysInside = true)
    (had : ∀ e, content = .error e → e ≠ refusal relative)
    (stored : ∀ p e, failure p e ≠ refusal relative) (t : FileTree) :
    (c.deliver relative content failure t).2 ≠ .error (refusal relative) := by
  have ended : c.Delivers relative content failure t (c.deliver relative content failure t) :=
    delivers inside t
  generalize c.deliver relative content failure t = r at ended
  intro refused
  cases ended with
  | blocked made => exact ioFailure_ne_refusal _ _ _ (Except.error.inj refused)
  | lacking made lost => exact had _ lost (Except.error.inj refused)
  | failed made got wrote => exact stored _ _ (Except.error.inj refused)
  | stored made got wrote => cases refused

end Deliver

/-- All operations on a path end with its refusal before they have done anything. -/
structure Refuses (c : Context) (relative : Path) : Prop where
  path : ∀ s, c.perform s (.path relative) = (.error (refusal relative), s)
  write : ∀ s content, c.perform s (.write relative content) = (.error (refusal relative), s)
  read : ∀ s, c.perform s (.read relative) = (.error (refusal relative), s)
  download : ∀ s urls, c.perform s (.download urls relative) = (.error (refusal relative), s)

/-- All operations on a path take it for another path, the names of which follow those of the
working directory, and none is refused. -/
structure Addresses (c : Context) (relative p : Path) : Prop where
  components : c.directory.path.text ≠ "" →
    p.components = c.directory.path.components ++ relative.normals
  place : p.place = relative.normals.foldl Place.follow c.directory.path.place
  path : ∀ s, c.perform s (.path relative) = (.ok p, s)
  write : ∀ s s' content answer, c.perform s (.write relative content) = (answer, s') →
    answer ≠ .error (refusal relative) ∧
      ∀ p', answer = .ok p' → p' = p ∧ s'.world.files.read p = .ok content
  read : ∀ s, c.perform s (.read relative) =
    ((s.world.files.read p).mapError (ioFailure "read" p), s)
  download : ∀ s s' urls answer, c.perform s (.download urls relative) = (answer, s') →
    answer ≠ .error (refusal relative) ∧
      ∀ p', answer = .ok p' → p' = p ∧ ∃ content, c.capabilities.download urls = .ok content ∧
        s'.world.files.read p = .ok content

theorem refuses_of_climbs (c : Context) (climbs : relative.Climbs) : c.Refuses relative where
  path s := congrArg (fun answer => (answer, s)) (locate_of_climbs climbs)
  write s content := by
    rw [perform, write_eq, deliver_of_climbs climbs]
    rfl
  read s := by
    rw [perform, Context.read, locate_of_climbs climbs]
    rfl
  download s urls := by
    rw [perform, download_eq, deliver_of_climbs climbs]
    rfl

theorem addresses_of_inside (c : Context) (inside : relative.staysInside = true) :
    c.Addresses relative (c.directory.path.join relative) where
  components named := by
    rw [Path.join_components named (Path.relative_of_inside inside),
      Path.innerComponents_normals inside]
  place := Path.place_join _ inside
  path s := congrArg (fun answer => (answer, s)) (locate_of_inside inside)
  write := by
    intro s s' content answer performed
    rw [perform, write_eq] at performed
    cases performed
    refine ⟨deliver_ne_refusal inside (fun e same => (by cases same)) (ioFailure_ne_refusal _) _,
      fun p' fine => ?_⟩
    obtain ⟨same, b, had, stored⟩ := deliver_eq_ok inside (Prod.ext rfl fine)
    cases had
    exact ⟨same, stored⟩
  read s := by
    rw [perform, Context.read, locate_of_inside inside]
    rfl
  download := by
    intro s s' urls answer performed
    rw [perform, download_eq] at performed
    cases performed
    refine ⟨deliver_ne_refusal inside ?_ (fun _ e => downloadError_ne_refusal (.io e)) _,
      fun p' fine => ?_⟩
    · intro e failed
      cases got : c.capabilities.download urls with
      | ok b => rw [got] at failed; cases failed
      | error fault =>
        rw [got] at failed
        cases failed
        exact downloadError_ne_refusal fault
    · obtain ⟨same, b, had, stored⟩ := deliver_eq_ok inside (Prod.ext rfl fine)
      have got : c.capabilities.download urls = .ok b := by
        cases got : c.capabilities.download urls with
        | ok b' => rw [got] at had; cases had; rfl
        | error fault => rw [got] at had; cases had
      exact ⟨same, b, got, stored⟩

def Progress.Related (related : FileTree → FileTree → Prop) (s s' : Progress) : Prop :=
  ∃ files, s' = { s with world := { s.world with files } } ∧ related s.world.files files

theorem onFiles_alike {α : Type} {s : Progress} {files : FileTree} {r r' : FileTree × α}
    (alike : FileTree.Alike related r r') :
    (onFiles s r).1 = (onFiles { s with world := { s.world with files } } r').1 ∧
      Progress.Related related (onFiles s r).2
        (onFiles { s with world := { s.world with files } } r').2 :=
  ⟨alike.1, r'.1, rfl, alike.2⟩

variable {s s' : Progress} {op : Operation} {i : Implementation}

theorem perform_changed (own : op.Own) : FileTree.ChangedWithin c.directory.path s.world.files
    (c.perform s op).2.world.files := by
  cases op with
  | write relative content =>
    rw [perform, write_eq]
    exact deliver_changed _
  | download urls relative =>
    rw [perform, download_eq]
    exact deliver_changed _
  | createRepo name spec =>
    rw [perform]
    split <;> exact .refl _ _
  | meanwhile change => cases own
  | _ => exact .refl _ _

theorem Blind.perform (blind : c.Blind related) (own : op.Own)
    (pair : Progress.Related related s s') :
    (c.perform s op).1 = (c.perform s' op).1 ∧
      Progress.Related related (c.perform s op).2 (c.perform s' op).2 := by
  obtain ⟨files, rfl, pair⟩ := pair
  cases op with
  | createRepo name spec =>
    simp only [Context.perform]
    split <;> exact ⟨rfl, files, rfl, pair⟩
  | workingDirectoryExists =>
    have there := FileTree.exists?_congr (fun q passes => blind.shows.kind _ _ q pair (.inl passes))
    exact ⟨there, files, rfl, pair⟩
  | write relative content =>
    simp only [Context.perform, write_eq]
    exact onFiles_alike (blind.deliver pair)
  | read relative => exact ⟨blind.read pair relative, files, rfl, pair⟩
  | download urls relative =>
    simp only [Context.perform, download_eq]
    exact onFiles_alike (blind.deliver pair)
  | meanwhile change => cases own
  | _ => exact ⟨rfl, files, rfl, pair⟩

theorem call_changed (undisturbed : i.Undisturbed) : FileTree.ChangedWithin c.directory.path
    s.world.files (c.call i s).2.world.files := by
  induction i generalizing s with
  | done result => exact .refl _ _
  | step op next ih =>
    rw [call_step]
    split
    · exact perform_changed undisturbed.1
    · exact (perform_changed undisturbed.1).trans (ih _ (undisturbed.2 _))

theorem Blind.call (blind : c.Blind related) (undisturbed : i.Undisturbed)
    (pair : Progress.Related related s s') :
    (c.call i s).1 = (c.call i s').1 ∧
      Progress.Related related (c.call i s).2 (c.call i s').2 := by
  induction i generalizing s s' with
  | done result => exact ⟨rfl, pair⟩
  | step op next ih =>
    obtain ⟨answer, later⟩ := blind.perform undisturbed.1 pair
    rw [call_step, call_step, ← answer]
    split
    · exact ⟨rfl, later⟩
    · exact ih _ (undisturbed.2 _) later

theorem blind_sameWithin (c : Context) : c.Blind (FileTree.SameWithin c.directory.path) where
  shows := FileTree.SameWithin.showsKinds _
  same _ _ q same held := same.inside q held
  written _ _ q e same _ := same.insert q e

/-- A path is refused just if it is absolute or takes a step up, and leads inside otherwise. However
an implementation goes on with its answers, outside of its working directory it changes nothing but
that the directories on the way are made, and what is outside makes no difference to it. -/
theorem call_confined (c : Context) (undisturbed : i.Undisturbed) (s : Progress) :
    (∀ relative : Path, (relative.Climbs → c.Refuses relative) ∧
      (¬ relative.Climbs → ∃ p, c.Addresses relative p)) ∧
    FileTree.ChangedWithin c.directory.path s.world.files (c.call i s).2.world.files ∧
    ∀ s', Progress.Related (FileTree.SameWithin c.directory.path) s s' →
      (c.call i s).1 = (c.call i s').1 ∧
        Progress.Related (FileTree.SameWithin c.directory.path) (c.call i s).2 (c.call i s').2 :=
  ⟨fun _ => ⟨c.refuses_of_climbs,
      fun level => ⟨_, c.addresses_of_inside (Path.staysInside_iff.mpr level)⟩⟩,
    call_changed undisturbed, fun _ same => c.blind_sameWithin.call undisturbed same⟩

/-- An implementation that writes a file and looks for one above its working directory. -/
def wandering : Implementation :=
  .step (.write ⟨"./a//b"⟩ []) (fun _ => .step (.read ⟨"../keep"⟩) (fun answer =>
    .done ((answer.mapError .error).map (fun _ => .none))))

def wanderingContext : Context :=
  ⟨depsId, [], .named ⟨"out"⟩ "_main~deps", ⟨.empty, .offline, .nan⟩,
    soleEngine bareLockfile.depGraph wandering⟩

def besideTree : FileTree := ⟨.ofList [(.ofNames ["out"], .directory),
  (.ofNames ["out", "modextwd"], .directory), (.ofNames ["out", "modextwd", "keep"], .file [])]⟩

/-- It writes its file, but the other one is out of its reach. -/
theorem wandering_confined :
    wandering.Undisturbed ∧ wanderingContext.Refuses ⟨"../keep"⟩ ∧
      (∃ p, wanderingContext.Addresses ⟨"./a//b"⟩ p) ∧
      (wanderingContext.call wandering ⟨.ofFiles besideTree, .empty⟩).1 =
        .error (.error (refusal ⟨"../keep"⟩)) ∧
      FileTree.entry? (wanderingContext.call wandering ⟨.ofFiles besideTree, .empty⟩).2.world.files
        (.ofNames ["out", "modextwd", "_main~deps", "a", "b"]) = some (.file []) ∧
      FileTree.entry? (wanderingContext.call wandering ⟨.ofFiles besideTree, .empty⟩).2.world.files
        (.ofNames ["out", "modextwd", "keep"]) = some (.file []) := by
  have undisturbed : wandering.Undisturbed := ⟨trivial, fun _ => ⟨trivial, fun _ => trivial⟩⟩
  obtain ⟨treated, changed, -⟩ :=
    wanderingContext.call_confined undisturbed ⟨.ofFiles besideTree, .empty⟩
  refine ⟨undisturbed, (treated _).1 (by decide), (treated _).2 (by decide), rfl, by decide, ?_⟩
  have outside : ¬ wanderingContext.directory.path.place.Holds
      (.ofNames ["out", "modextwd", "keep"]) := by
    exact fun held => absurd held.leadsTo (by decide)
  have before : besideTree.entry? (.ofNames ["out", "modextwd", "keep"]) = some (.file []) := by
    decide
  rcases changed _ outside with same | ⟨vacant, -, -⟩
  · exact same.trans before
  · cases vacant.symm.trans before

end Context

end ExtensionLock
