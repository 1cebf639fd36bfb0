import ExtensionLock.Proofs.Names

/-! Versions and the keys of modules. A version is read from exactly the empty text and the texts of
the form `release[-prerelease][+build]`. No version holds a tilde, so the name of the repository of
a module tells where the name of the module ends, whatever that name is. -/

namespace ExtensionLock

namespace Version

def Dotted (allowed : Char → Prop) (cs : List Char) : Prop :=
  ∃ identifiers, identifiers ≠ [] ∧ cs = ['.'].intercalate identifiers ∧
    ∀ identifier ∈ identifiers, identifier ≠ [] ∧ ∀ c ∈ identifier, allowed c

def Alphanumeric (c : Char) : Prop := c.isAlphanum = true

def AlphanumericOrHyphen (c : Char) : Prop := c.isAlphanum = true ∨ c = '-'

def marked (mark : Char) : Option (List Char) → List Char
  | none => []
  | some part => mark :: part

/-- A text spells a version if it is empty or has the form `release[-prerelease][+build]`. -/
inductive Spelled : List Char → Prop
  | empty : Spelled []
  | parts {release : List Char} {prerelease build : Option (List Char)}
      (numbered : Dotted Alphanumeric release)
      (before : ∀ part ∈ prerelease, Dotted AlphanumericOrHyphen part)
      (made : ∀ part ∈ build, Dotted AlphanumericOrHyphen part) :
      Spelled (release ++ marked '-' prerelease ++ marked '+' build)

variable {allowed : Char → Prop} {mark c : Char} {cs before : List Char}
  {part prerelease build : Option (List Char)}

theorem dotted_iff (dot : ¬ allowed '.') : Dotted allowed cs ↔
    ∀ identifier ∈ Text.splitAt '.' cs, identifier ≠ [] ∧ ∀ c ∈ identifier, allowed c := by
  constructor
  · rintro ⟨identifiers, filled, rfl, each⟩
    have clean : ∀ identifier ∈ identifiers, '.' ∉ identifier :=
      fun identifier member inside => dot ((each identifier member).2 '.' inside)
    rwa [Text.splitAt_intercalate filled clean]
  · exact fun each => ⟨_, Text.splitAt_ne_nil '.' cs, (Text.intercalate_splitAt '.' cs).symm, each⟩

theorem Dotted.char (dotted : Dotted allowed cs) (dot : ¬ allowed '.') (member : c ∈ cs) :
    c = '.' ∨ allowed c := by
  by_cases same : c = '.'
  · exact .inl same
  · obtain ⟨identifier, there, here⟩ := Text.mem_splitAt_iff.mpr ⟨member, same⟩
    exact .inr (((dotted_iff dot).mp dotted identifier there).2 c here)

theorem checkRelease_eq_ok_iff {segments : List (List Char)} : checkRelease segments = .ok () ↔
    ∀ segment ∈ segments, segment ≠ [] ∧ ∀ c ∈ segment, Alphanumeric c := by
  induction segments with
  | nil => simp [checkRelease]
  | cons segment rest ih =>
    rw [checkRelease, List.forall_mem_cons, ← ih, ← List.isEmpty_eq_false_iff]
    cases segment.isEmpty with
    | true => exact ⟨fun h => (by cases h), fun h => (by cases h.1.1)⟩
    | false =>
      cases words : segment.all isWord with
      | true => exact (and_iff_right ⟨rfl, List.all_eq_true.mp words⟩).symm
      | false =>
        refine ⟨fun h => (by cases h), fun h => ?_⟩
        exact absurd (List.all_eq_true.mpr h.1.2) (Bool.eq_false_iff.mp words)

theorem dot_alphanumeric : ¬ Alphanumeric '.' := by
  unfold Alphanumeric
  decide

theorem dot_alphanumericOrHyphen : ¬ AlphanumericOrHyphen '.' := by
  unfold AlphanumericOrHyphen
  decide

theorem isSuffix_iff : isSuffix cs = true ↔ Dotted AlphanumericOrHyphen cs := by
  rw [dotted_iff dot_alphanumericOrHyphen, isSuffix, List.all_eq_true]
  simp [AlphanumericOrHyphen, isWord]

def splitOff (mark : Char) (cs : List Char) : List Char × Option (List Char) :=
  match Text.cutAt mark cs with
  | some (before, after) => (before, some after)
  | none => (cs, none)

theorem splitOff_eq_iff :
    splitOff mark cs = (before, part) ↔ mark ∉ before ∧ cs = before ++ marked mark part := by
  constructor
  · intro split
    rw [splitOff] at split
    cases cut : Text.cutAt mark cs with
    | none =>
      rw [cut] at split
      cases split
      exact ⟨Text.cutAt_eq_none.mp cut, (List.append_nil cs).symm⟩
    | some parts =>
      rw [cut] at split
      cases split
      obtain ⟨whole, clean⟩ := Text.cutAt_eq_some cut
      exact ⟨clean, whole⟩
  · rintro ⟨clean, rfl⟩
    cases part with
    | none => rw [marked, List.append_nil, splitOff, Text.cutAt_eq_none.mpr clean]
    | some after => rw [marked, splitOff, Text.cutAt_append clean]

theorem check_eq (cs : List Char) : check cs = (do
    let (rest, build) := splitOff '+' cs
    let (release, prerelease) := splitOff '-' rest
    if release.isEmpty then throw .emptyRelease
    checkRelease (Text.splitAt '.' release)
    if (prerelease.map isSuffix).getD true then pure () else throw .prereleaseIdentifier
    if (build.map isSuffix).getD true then pure () else throw .buildIdentifier) := by
  rfl

theorem check_of_split {rest release : List Char} (plus : splitOff '+' cs = (rest, build))
    (hyphen : splitOff '-' rest = (release, prerelease)) : check cs = .ok () ↔
      Dotted Alphanumeric release ∧ (∀ part ∈ prerelease, Dotted AlphanumericOrHyphen part) ∧
        ∀ part ∈ build, Dotted AlphanumericOrHyphen part := by
  have suffix (part : Option (List Char)) : (part.map isSuffix).getD true = true ↔
      ∀ p ∈ part, Dotted AlphanumericOrHyphen p := by
    cases part with
    | none => simp
    | some p => simp [isSuffix_iff]
  rw [check_eq, plus]
  dsimp only
  rw [hyphen]
  dsimp only
  rw [dotted_iff dot_alphanumeric, ← checkRelease_eq_ok_iff, ← suffix, ← suffix]
  cases release with
  | nil => exact ⟨fun h => (by cases h), fun h => (by cases h.1)⟩
  | cons c release =>
    rw [if_neg (by simp)]
    cases checkRelease (Text.splitAt '.' (c :: release)) with
    | error fault => exact ⟨fun h => (by cases h), fun h => (by cases h.1)⟩
    | ok u => cases (prerelease.map isSuffix).getD true with
      | false => exact ⟨fun h => (by cases h), fun h => (by cases h.2.1)⟩
      | true => cases (build.map isSuffix).getD true with
        | false => exact ⟨fun h => (by cases h), fun h => (by cases h.2.2)⟩
        | true => exact iff_of_true rfl ⟨rfl, rfl, rfl⟩

theorem spelled_of_check (checked : check cs = .ok ()) : Spelled cs := by
  cases plus : splitOff '+' cs with
  | mk rest build =>
    cases hyphen : splitOff '-' rest with
    | mk release prerelease =>
      obtain ⟨numbered, before, made⟩ := (check_of_split plus hyphen).mp checked
      obtain ⟨-, rfl⟩ := splitOff_eq_iff.mp plus
      obtain ⟨-, rfl⟩ := splitOff_eq_iff.mp hyphen
      exact .parts numbered before made

theorem check_of_parts {release : List Char} (numbered : Dotted Alphanumeric release)
    (before : ∀ part ∈ prerelease, Dotted AlphanumericOrHyphen part)
    (made : ∀ part ∈ build, Dotted AlphanumericOrHyphen part) :
    check (release ++ marked '-' prerelease ++ marked '+' build) = .ok () := by
  have clean {mark : Char} (notDot : mark ≠ '.') (notWord : ¬ Alphanumeric mark) :
      mark ∉ release := fun member =>
    (numbered.char dot_alphanumeric member).elim notDot notWord
  have hyphen : '-' ∉ release := clean (by decide) (by unfold Alphanumeric; decide)
  have plus : '+' ∉ release ++ marked '-' prerelease := by
    intro member
    rcases List.mem_append.mp member with member | member
    · exact clean (by decide) (by unfold Alphanumeric; decide) member
    · cases prerelease with
      | none => cases member
      | some part =>
        rcases List.mem_cons.mp member with same | member
        · revert same
          decide
        · have char := (before part rfl).char dot_alphanumericOrHyphen member
          revert char
          unfold AlphanumericOrHyphen
          decide
  exact (check_of_split (splitOff_eq_iff.mpr ⟨plus, rfl⟩)
    (splitOff_eq_iff.mpr ⟨hyphen, rfl⟩)).mpr ⟨numbered, before, made⟩

theorem Spelled.check (spelled : Spelled cs) (filled : cs ≠ []) : Version.check cs = .ok () := by
  cases spelled with
  | empty => exact absurd rfl filled
  | parts numbered before made => exact check_of_parts numbered before made

theorem parse_eq_ok_iff {s : String} {v : Version} :
    parse s = .ok v ↔ v.text = s ∧ Spelled s.toList := by
  by_cases nothing : s = ""
  · subst nothing
    constructor
    · intro read
      cases read
      exact ⟨rfl, .empty⟩
    · rintro ⟨text, -⟩
      exact congrArg Except.ok (congrArg Version.mk text.symm)
  · have checked : check s.toList = .ok () ↔ Spelled s.toList :=
      ⟨spelled_of_check, fun spelled => spelled.check
        (fun none => nothing (String.toList_eq_nil_iff.mp none))⟩
    rw [parse, if_neg nothing, ← checked]
    cases check s.toList with
    | error fault => exact ⟨fun h => (by cases h), fun h => (by cases h.2)⟩
    | ok u =>
      constructor
      · intro read
        cases read
        exact ⟨rfl, rfl⟩
      · rintro ⟨rfl, -⟩
        rfl

theorem Spelled.char (spelled : Spelled cs) (member : c ∈ cs) :
    c.isAlphanum = true ∨ c ∈ ['.', '-', '+'] := by
  have within {part : Option (List Char)} (mark : Char) (marks : mark ∈ ['-', '+'])
      (dotted : ∀ p ∈ part, Dotted AlphanumericOrHyphen p) (member : c ∈ marked mark part) :
      c.isAlphanum = true ∨ c ∈ ['.', '-', '+'] := by
    cases part with
    | none => cases member
    | some p =>
      rcases List.mem_cons.mp member with rfl | member
      · exact .inr (List.mem_cons_of_mem _ marks)
      · rcases (dotted p rfl).char dot_alphanumericOrHyphen member with rfl | word | rfl
        · simp
        · exact .inl word
        · simp
  cases spelled with
  | empty => cases member
  | parts numbered before made =>
    rcases List.mem_append.mp member with member | member
    · rcases List.mem_append.mp member with member | member
      · rcases numbered.char dot_alphanumeric member with rfl | word
        · simp
        · exact .inl word
      · exact within '-' (by simp) before member
    · exact within '+' (by simp) made member

theorem Parsed.tilde {v : Version} (parsed : v.Parsed) : '~' ∉ v.text.toList := by
  obtain ⟨s, read⟩ := parsed
  obtain ⟨rfl, spelled⟩ := parse_eq_ok_iff.mp read
  intro member
  exact absurd (spelled.char member) (by decide)

end Version

namespace ModuleKey

variable {s : String} {k k' : ModuleKey}

theorem isRoot_iff : k.isRoot = true ↔ k = root := by
  obtain ⟨name, ⟨text⟩⟩ := k
  simp [isRoot, Version.isEmpty, root, Version.empty]

theorem named_of_parse (read : parse s = .ok k) (other : s ≠ rootText) : k.name ≠ "" := by
  rw [parse, if_neg other] at read
  cases cut : Text.cutAt '@' s.toList with
  | none =>
    rw [cut] at read
    cases read
  | some parts =>
    obtain ⟨name, version⟩ := parts
    simp only [cut] at read
    cases name with
    | nil => cases read
    | cons c name =>
      have filled : String.ofList (c :: name) ≠ "" := by
        intro nothing
        have chars := congrArg String.toList nothing
        rw [String.toList_ofList] at chars
        cases chars
      simp only [List.isEmpty_cons, Bool.false_eq_true, if_false] at read
      split at read
      · cases read
        exact filled
      · split at read
        · cases read
          exact filled
        · cases read

theorem parse_eq_root_iff : parse s = .ok root ↔ s = "<root>" := by
  constructor
  · intro read
    by_contra other
    exact named_of_parse read other rfl
  · rintro rfl
    rfl

theorem canonicalRepoName_toList (other : k ≠ root) :
    k.canonicalRepoName.toList = k.name.toList ++ '~' :: k.version.text.toList := by
  rw [canonicalRepoName, if_neg (fun isRoot => other (isRoot_iff.mp isRoot))]
  simp [String.toList_append]

theorem canonicalRepoName_eq_main_iff : k.canonicalRepoName = "_main" ↔ k = root := by
  constructor
  · intro same
    by_contra other
    have chars := canonicalRepoName_toList other
    rw [same] at chars
    have tilde : '~' ∈ "_main".toList :=
      chars ▸ List.mem_append_right _ List.mem_cons_self
    revert tilde
    decide
  · rintro rfl
    rfl

theorem canonicalRepoName_inj (parsed : k.version.Parsed) (parsed' : k'.version.Parsed)
    (same : k.canonicalRepoName = k'.canonicalRepoName) : k = k' := by
  by_cases main : k = root
  · rw [main] at same ⊢
    exact (canonicalRepoName_eq_main_iff.mp same.symm).symm
  · have main' : k' ≠ root := by
      rintro rfl
      exact main (canonicalRepoName_eq_main_iff.mp same)
    have chars := congrArg String.toList same
    rw [canonicalRepoName_toList main, canonicalRepoName_toList main'] at chars
    obtain ⟨names, versions⟩ := Text.last_separator_inj parsed.tilde parsed'.tilde chars
    obtain ⟨name, ⟨text⟩⟩ := k
    obtain ⟨name', ⟨text'⟩⟩ := k'
    cases String.toList_inj.mp names
    cases String.toList_inj.mp versions
    rfl

theorem empty_least {s : String} (other : s ≠ "") : compare "" s = .lt := by
  have compared : compare "" s = compareOfLessAndEq "" s := rfl
  have less : "" < s := by
    cases listed : s.toList with
    | nil => exact absurd (String.toList_eq_nil_iff.mp listed) other
    | cons c cs =>
      have below : "".toList < s.toList := by
        rw [listed]
        exact List.nil_lt_cons c cs
      exact below
  rw [compared, compareOfLessAndEq, if_pos less]

theorem root_least {key : ModuleKey} (other : key ≠ root) : compare root key = .lt := by
  have lexical : compare root key =
      (compare "" key.name).then (compare "" key.version.text) := rfl
  rw [lexical, Ordering.then_eq_lt]
  by_cases unnamed : key.name = ""
  · refine Or.inr ⟨by rw [unnamed]; exact Std.ReflCmp.compare_self, empty_least ?_⟩
    intro unversioned
    obtain ⟨name, ⟨text⟩⟩ := key
    cases unnamed
    cases unversioned
    exact other rfl
  · exact Or.inl (empty_least unnamed)

/-- Versions are read from exactly the texts of their grammar, and the text of a key is read as the
key again. Only one text is read as the root key, which comes before all others. Keys with versions
that were read have repositories of different names, and only the root key that of the main one. -/
theorem keys_told_apart :
    (∀ s v, Version.parse s = .ok v ↔ v.text = s ∧ Version.Spelled s.toList) ∧
    (∀ s, (∃ failure, Version.parse s = .error failure) ↔ ¬ Version.Spelled s.toList) ∧
    (∀ s k, parse s = .ok k → parse k.text = .ok k) ∧
    (∀ s, parse s = .ok root ↔ s = "<root>") ∧
    (∀ k k' : ModuleKey, k.version.Parsed → k'.version.Parsed →
      (k.canonicalRepoName = k'.canonicalRepoName ↔ k = k')) ∧
    (∀ k : ModuleKey, k.canonicalRepoName = "_main" ↔ k = root) ∧
    ∀ k, k ≠ root → compare root k = .lt := by
  refine ⟨fun s v => Version.parse_eq_ok_iff, fun s => ?refused, fun s k read =>
    Parsed.parse_text ⟨s, read⟩, fun s => parse_eq_root_iff, fun k k' parsed parsed' =>
    ⟨canonicalRepoName_inj parsed parsed', fun same => same ▸ rfl⟩,
    fun k => canonicalRepoName_eq_main_iff, fun k other => root_least other⟩
  case refused =>
    have accepted (v : Version) := @Version.parse_eq_ok_iff s v
    cases read : Version.parse s with
    | ok v =>
      exact ⟨fun ⟨_, h⟩ => (by cases h), fun h => absurd ((accepted v).mp read).2 h⟩
    | error failure =>
      refine ⟨fun _ spelled => ?_, fun _ => ⟨failure, rfl⟩⟩
      rw [(accepted ⟨s⟩).mpr ⟨rfl, spelled⟩] at read
      cases read

/-- A tilde in the name of a module could stand for one in a version, but no version is read that
has one. -/
theorem tilde_in_name_told_apart :
    canonicalRepoName ⟨"rules~1.0", ⟨"2.0-rc.1+b-7"⟩⟩ =
      canonicalRepoName ⟨"rules", ⟨"1.0~2.0-rc.1+b-7"⟩⟩ ∧
    Version.Spelled "2.0-rc.1+b-7".toList ∧ ¬ Version.Spelled "1.0~2.0-rc.1+b-7".toList ∧
    canonicalRepoName ⟨"rules~1.0", ⟨"2.0"⟩⟩ ≠ canonicalRepoName ⟨"rules", ⟨"1.0"⟩⟩ ∧
    parse "rules@" = parse "rules@_" ∧ parse "rules@_" = .ok ⟨"rules", Version.empty⟩ ∧
    compare root ⟨"", ⟨"0"⟩⟩ = .lt := by
  obtain ⟨accepted, refused, back, -, apart, -, first⟩ := keys_told_apart
  have read : parse "rules@" = .ok ⟨"rules", Version.empty⟩ := rfl
  have other := (apart ⟨"rules~1.0", ⟨"2.0"⟩⟩ ⟨"rules", ⟨"1.0"⟩⟩ ⟨"2.0", rfl⟩ ⟨"1.0", rfl⟩).not.mpr
    (by decide)
  exact ⟨rfl, ((accepted _ ⟨"2.0-rc.1+b-7"⟩).mp rfl).2, (refused _).mp ⟨_, rfl⟩, other, rfl,
    back "rules@" _ read, first _ (by decide)⟩

end ModuleKey

end ExtensionLock
