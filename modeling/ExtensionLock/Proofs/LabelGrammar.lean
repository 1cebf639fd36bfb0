import ExtensionLock.Proofs.Names

/-! Which texts are labels. A label is read from exactly the texts of the form
`[@ or @@ repo]//package[:name]`, and its own text is one of them that no other label has. -/

namespace ExtensionLock

namespace Label

structure IsSegment (cs : List Char) : Prop where
  filled : cs ≠ []
  not_here : cs ≠ ['.']
  not_up : cs ≠ ['.', '.']
  chars : ∀ c ∈ cs, Text.isBlank c = false ∧ c ∉ ['/', ':', '@']

structure IsPath (cs : List Char) (segments : List (List Char)) : Prop where
  filled : segments ≠ []
  joined : cs = ['/'].intercalate segments
  each : ∀ segment ∈ segments, IsSegment segment

/-- What a label begins with: nothing, or one or two `@` and the name of the repository. -/
inductive Opening (repo : List Char) : List Char → Prop
  | unnamed (main : repo = []) : Opening repo []
  | single : Opening repo ('@' :: repo)
  | double : Opening repo ('@' :: '@' :: repo)

/-- What follows the package: a colon and the name, or nothing if the name is the last segment of
the package. -/
inductive Ending (package name : List Char) : List Char → Prop
  | named : Ending package name (':' :: name)
  | implied (segments : List (List Char)) (path : IsPath package segments)
      (last : segments.getLast? = some name) : Ending package name []

/-- A text spells a label if it has the form `[@ or @@ repo]//package[:name]`. -/
structure Spelled (l : Label) (cs : List Char) : Prop where
  form : ∃ opening ending, cs = opening ++ '/' :: '/' :: (l.package.toList ++ ending) ∧
    Opening l.repo.toList opening ∧ Ending l.package.toList l.name.toList ending
  repo : ∀ c ∈ l.repo.toList, c.isAlphanum = true ∨ c ∈ ['_', '-', '.', '~', '+']
  package : l.package.toList = [] ∨ ∃ segments, IsPath l.package.toList segments
  name : ∃ segments, IsPath l.name.toList segments

theorem checkRepo_eq_ok_iff {cs : List Char} : checkRepo cs = .ok () ↔
    ∀ c ∈ cs, c.isAlphanum = true ∨ c ∈ ['_', '-', '.', '~', '+'] := by
  have char (c : Char) : isRepoChar c = true ↔
      c.isAlphanum = true ∨ c ∈ ['_', '-', '.', '~', '+'] := by
    simp only [isRepoChar, Bool.or_eq_true, beq_iff_eq, List.mem_cons, List.not_mem_nil, or_false,
      or_assoc]
  simp only [← char]
  refine ⟨repoChar_of_check, fun chars => ?_⟩
  rw [checkRepo]
  split
  · rename_i c found
    have refused := List.find?_some found
    rw [chars c (List.mem_of_find?_eq_some found)] at refused
    cases refused
  · rfl

theorem checkSegments_eq_ok_iff {segments : List (List Char)} :
    checkSegments segments = .ok () ↔ ∀ segment ∈ segments, checkSegment segment = .ok () := by
  induction segments with
  | nil => simp [checkSegments]
  | cons segment rest ih =>
    rw [checkSegments, List.forall_mem_cons, ← ih]
    cases checkSegment segment with
    | error fault => exact ⟨fun h => (by cases h), fun h => (by cases h.1)⟩
    | ok u => exact ⟨fun h => ⟨rfl, h⟩, fun h => h.2⟩

theorem checkSegment_eq_ok_iff {cs : List Char} (clean : '/' ∉ cs) :
    checkSegment cs = .ok () ↔ IsSegment cs := by
  have char (c : Char) (member : c ∈ cs) : isSegmentChar c = true ↔
      Text.isBlank c = false ∧ c ∉ ['/', ':', '@'] := by
    have other : c ≠ '/' := fun same => clean (same ▸ member)
    simp [isSegmentChar, other, and_assoc]
  rw [checkSegment]
  split
  · rename_i nothing
    exact ⟨fun h => (by cases h), fun segment => absurd nothing segment.filled⟩
  · rename_i filled
    split
    · rename_i dots
      exact ⟨fun h => (by cases h), fun segment =>
        dots.elim (fun one => absurd one segment.not_here) (fun two => absurd two segment.not_up)⟩
    · rename_i dots
      obtain ⟨one, two⟩ := not_or.mp dots
      split
      · rename_i all
        exact iff_of_true rfl
          ⟨filled, one, two, fun c member => (char c member).mp (List.all_eq_true.mp all c member)⟩
      · rename_i some_bad
        refine ⟨fun h => (by cases h), fun segment => absurd ?_ some_bad⟩
        exact List.all_eq_true.mpr (fun c member => (char c member).mpr (segment.chars c member))

theorem nil_mem_splitAt {cs : List Char}
    (slash : cs.head? = some '/' ∨ cs.getLast? = some '/') : [] ∈ Text.splitAt '/' cs := by
  rcases slash with first | last
  · obtain ⟨rest, rfl⟩ := List.head?_eq_some_iff.mp first
    rw [← List.nil_append ('/' :: rest), Text.splitAt_append]
    exact List.mem_append_left _ List.mem_cons_self
  · obtain ⟨before, rfl⟩ := List.getLast?_eq_some_iff.mp last
    rw [Text.splitAt_append]
    exact List.mem_append_right _ List.mem_cons_self

theorem isPath_splitAt_iff {cs : List Char} : IsPath cs (Text.splitAt '/' cs) ↔
    ∀ segment ∈ Text.splitAt '/' cs, IsSegment segment := by
  refine ⟨IsPath.each, fun each => ⟨Text.splitAt_ne_nil '/' cs, ?_, each⟩⟩
  exact (Text.intercalate_splitAt '/' cs).symm

theorem IsPath.segments_eq {cs : List Char} {segments : List (List Char)}
    (path : IsPath cs segments) : segments = Text.splitAt '/' cs := by
  rw [path.joined, Text.splitAt_intercalate path.filled]
  intro segment member slash
  exact ((path.each segment member).chars '/' slash).2 (by simp)

theorem checkPath_eq_ok_iff {cs : List Char} :
    checkPath cs = .ok () ↔ ∃ segments, IsPath cs segments := by
  have segments : checkSegments (Text.splitAt '/' cs) = .ok () ↔
      ∃ segments, IsPath cs segments := by
    have clean : ∀ segment ∈ Text.splitAt '/' cs, '/' ∉ segment := fun segment member slash =>
      (Text.mem_splitAt_iff.mp ⟨segment, member, slash⟩).2 rfl
    have each : (∀ segment ∈ Text.splitAt '/' cs, checkSegment segment = .ok ()) ↔
        ∀ segment ∈ Text.splitAt '/' cs, IsSegment segment :=
      forall₂_congr (fun segment member => checkSegment_eq_ok_iff (clean segment member))
    rw [checkSegments_eq_ok_iff, each, ← isPath_splitAt_iff]
    exact ⟨fun path => ⟨_, path⟩, fun ⟨_, path⟩ => path.segments_eq ▸ path⟩
  rw [checkPath]
  split
  · rename_i slash
    refine ⟨fun h => (by cases h), fun ⟨_, path⟩ => ?_⟩
    have empty : [] ∈ Text.splitAt '/' cs := nil_mem_splitAt slash
    rw [← path.segments_eq] at empty
    exact absurd rfl (path.each [] empty).filled
  · exact segments

theorem checkPackage_eq_ok_iff {cs : List Char} :
    checkPackage cs = .ok () ↔ cs = [] ∨ ∃ segments, IsPath cs segments := by
  rw [checkPackage, ← checkPath_eq_ok_iff]
  split
  · rename_i nothing
    exact iff_of_true rfl (.inl nothing)
  · rename_i filled
    cases checkPath cs with
    | ok u => exact iff_of_true rfl (.inr rfl)
    | error fault =>
      constructor
      · intro h
        cases h
      · intro h
        cases h.resolve_left filled

theorem checkName_eq_ok_iff {cs : List Char} :
    checkName cs = .ok () ↔ ∃ segments, IsPath cs segments := by
  rw [checkName, ← checkPath_eq_ok_iff]
  split
  · rename_i nothing
    subst nothing
    exact ⟨fun h => (by cases h), fun h => (by cases h)⟩
  · cases checkPath cs with
    | ok u => exact iff_of_true rfl rfl
    | error fault => exact ⟨fun h => (by cases h), fun h => (by cases h)⟩

theorem opening_of_cutRepo {cs repo rest : List Char} (cut : cutRepo cs = .ok (repo, rest)) :
    ∃ opening, cs = opening ++ rest ∧ Opening repo opening := by
  have after {tail : List Char} (cut : cutRepo.after tail = .ok (repo, rest)) :
      tail = repo ++ rest := by
    rw [cutRepo.after] at cut
    split at cut
    · rename_i parts found
      cases cut
      exact Text.cutBeforeSlashes_eq_some found
    · cases cut
  unfold cutRepo at cut
  split at cut
  · rw [after cut]
    exact ⟨'@' :: '@' :: repo, rfl, .double⟩
  · rw [after cut]
    exact ⟨'@' :: repo, rfl, .single⟩
  · cases cut
    exact ⟨[], rfl, .unnamed rfl⟩

theorem cutRepo_of_opening {repo opening : List Char} (chars : ∀ c ∈ repo, isRepoChar c = true)
    (opens : Opening repo opening) (rest : List Char) :
    cutRepo (opening ++ '/' :: '/' :: rest) = .ok (repo, '/' :: '/' :: rest) := by
  cases opens with
  | unnamed main =>
    rw [main]
    rfl
  | single => exact cutRepo_named chars rest
  | double =>
    have clean : '/' ∉ repo := fun member => absurd (chars '/' member) (by decide)
    have cut := Text.cutBeforeSlashes_append clean rest
    simp only [List.cons_append, cutRepo, cutRepo.after, cut]

theorem IsPath.lastSegment_eq {cs : List Char} {segments : List (List Char)}
    (path : IsPath cs segments) : segments.getLast? = some (lastSegment cs) := by
  rw [lastSegment, ← path.segments_eq]
  cases last : segments.getLast? with
  | none => exact absurd (List.getLast?_eq_none_iff.mp last) path.filled
  | some segment => rfl

theorem spelled_of_ofChars {cs : List Char} {l : Label} (read : ofChars cs = .ok l) :
    l.Spelled cs := by
  obtain ⟨⟨repo, rest⟩, cut, read'⟩ := exists_of_bind_eq_ok read
  obtain ⟨opening, rfl, opens⟩ := opening_of_cutRepo cut
  dsimp only [bind, Except.bind] at read'
  split at read'
  · rename_i body
    cases colon : Text.cutAt ':' body with
    | some parts =>
      obtain ⟨rfl, -⟩ := Text.cutAt_eq_some colon
      simp only [pure, Except.pure, colon] at read'
      obtain ⟨valid, rfl, package, name⟩ := valid_of_checks read'
      rw [← package, ← name]
      exact ⟨⟨opening, _, rfl, opens, .named⟩, checkRepo_eq_ok_iff.mp valid.repo,
        checkPackage_eq_ok_iff.mp valid.package, checkName_eq_ok_iff.mp valid.name⟩
    | none =>
      simp only [pure, Except.pure, colon] at read'
      obtain ⟨valid, rfl, rfl, name⟩ := valid_of_checks read'
      have named := valid.name
      rcases checkPackage_eq_ok_iff.mp valid.package with nothing | ⟨segments, path⟩
      · rw [name, nothing] at named
        cases named
      · refine ⟨⟨opening, [], by rw [List.append_nil], opens, ?_⟩,
          checkRepo_eq_ok_iff.mp valid.repo, .inr ⟨segments, path⟩, checkName_eq_ok_iff.mp named⟩
        exact .implied segments path (name ▸ path.lastSegment_eq)
  · cases read'

theorem Spelled.ofChars {cs : List Char} {l : Label} (spelled : l.Spelled cs) :
    Label.ofChars cs = .ok l := by
  obtain ⟨⟨opening, ending, rfl, opens, ends⟩, repo, package, name⟩ := spelled
  rw [← checkRepo_eq_ok_iff] at repo
  rw [← checkPackage_eq_ok_iff] at package
  rw [← checkName_eq_ok_iff] at name
  have cut := cutRepo_of_opening (repoChar_of_check repo) opens (l.package.toList ++ ending)
  have colon := colon_of_checkPackage package
  cases ends with
  | named =>
    have parts := Text.cutAt_append colon l.name.toList
    simp only [Label.ofChars, cut, parts, repo, package, name, bind, Except.bind, pure,
      Except.pure, String.ofList_toList]
  | implied segments path last =>
    rw [path.lastSegment_eq, Option.some.injEq] at last
    rw [List.append_nil] at cut ⊢
    have parts := Text.cutAt_eq_none.mpr colon
    simp only [Label.ofChars, cut, parts, repo, package, last, name, bind, Except.bind, pure,
      Except.pure, String.ofList_toList]

theorem parse_eq_ok_iff {s : String} {l : Label} : parse s = .ok l ↔ l.Spelled s.toList := by
  refine ⟨fun read => spelled_of_ofChars (ofChars_of_parse read), fun spelled => ?_⟩
  rw [parse, spelled.ofChars]
  rfl

/-- A text is read as a label exactly if it has the form `[@ or @@ repo]//package[:name]`. The text
of a label that was read is read as the label again, so labels are the same exactly if their texts
are. -/
theorem parse_canonical (s : String) :
    (∀ l, parse s = .ok l ↔ l.Spelled s.toList) ∧
    ((∃ failure, parse s = .error failure) ↔ ¬ ∃ l : Label, l.Spelled s.toList) ∧
    ∀ l, parse s = .ok l → parse l.text = .ok l ∧
      ∀ s' l', parse s' = .ok l' → (l = l' ↔ l.text = l'.text) := by
  refine ⟨fun l => parse_eq_ok_iff, ?refused, fun l read => ?canonical⟩
  case refused =>
    simp only [← parse_eq_ok_iff]
    cases parse s with
    | ok l => exact ⟨fun ⟨_, h⟩ => (by cases h), fun h => absurd ⟨l, rfl⟩ h⟩
    | error failure => exact ⟨fun _ ⟨_, h⟩ => (by cases h), fun _ => ⟨failure, rfl⟩⟩
  case canonical =>
    have parsed : l.Parsed := ⟨s, read⟩
    refine ⟨parsed.parse_text, fun s' l' read' => ⟨fun same => same ▸ rfl, fun same => ?_⟩⟩
    exact parsed.text_inj ⟨s', read'⟩ same

/-- A label without a name of its own, its text, and another text that is none. -/
theorem implied_name_written : ∃ l : Label, l.Spelled "@@rules~1.0//foo/bar".toList ∧
    l.text = "@rules~1.0//foo/bar:bar" ∧ parse "@rules~1.0//foo/bar:bar" = .ok l ∧
    ¬ ∃ l : Label, l.Spelled "@rules~1.0//foo//bar".toList := by
  obtain ⟨spelled, -, canonical⟩ := parse_canonical "@@rules~1.0//foo/bar"
  obtain ⟨-, refused, -⟩ := parse_canonical "@rules~1.0//foo//bar"
  have read : parse "@@rules~1.0//foo/bar" = .ok ⟨"rules~1.0", "foo/bar", "bar"⟩ := rfl
  exact ⟨_, (spelled _).mp read, rfl, (canonical _ read).1, refused.mp ⟨_, rfl⟩⟩

end Label

end ExtensionLock
