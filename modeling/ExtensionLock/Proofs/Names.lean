import ExtensionLock.Label
import ExtensionLock.ModuleKey
import ExtensionLock.Proofs.Cuts
import ExtensionLock.Proofs.Steps

/-! Names that a reader has produced. The text of such a name is read as the name again, though it
need not be the text that the name was first read from. -/

namespace ExtensionLock

/-- What some reader makes of some text. -/
def Version.Parsed (v : Version) : Prop := ∃ s, Version.parse s = .ok v

def ModuleKey.Parsed (k : ModuleKey) : Prop := ∃ s, ModuleKey.parse s = .ok k

def Label.Parsed (l : Label) : Prop := ∃ s, Label.parse s = .ok l

theorem Version.text_of_parse {s : String} {v : Version} (read : parse s = .ok v) : v.text = s := by
  rw [parse] at read
  split at read
  · rename_i nothing
    cases read
    exact nothing.symm
  · split at read
    · cases read
      rfl
    · cases read

theorem Version.Parsed.parse_text {v : Version} (parsed : v.Parsed) :
    Version.parse v.text = .ok v := by
  obtain ⟨s, read⟩ := parsed
  rw [text_of_parse read]
  exact read

namespace ModuleKey

theorem parse_append {name rest : List Char} (clean : '@' ∉ name) (named : name ≠ []) :
    parse (String.ofList (name ++ '@' :: rest)) =
      if String.ofList rest = emptyVersionText then .ok ⟨String.ofList name, Version.empty⟩
      else match Version.parse (String.ofList rest) with
        | .ok v => .ok ⟨String.ofList name, v⟩
        | .error e => .error (.version (String.ofList (name ++ '@' :: rest)) e) := by
  have other : String.ofList (name ++ '@' :: rest) ≠ rootText := by
    intro same
    have chars := congrArg String.toList same
    rw [String.toList_ofList] at chars
    have at' : '@' ∈ rootText.toList := chars ▸ List.mem_append_right _ List.mem_cons_self
    revert at'
    decide
  have filled : name.isEmpty = false := by
    cases name with
    | nil => exact absurd rfl named
    | cons c name => rfl
  rw [parse, if_neg other, String.toList_ofList, Text.cutAt_append clean]
  exact if_neg (by rw [filled]; exact Bool.false_ne_true)

theorem text_of_named {name : List Char} (named : name ≠ []) (v : Version) :
    text ⟨String.ofList name, v⟩ = String.ofList (name ++ '@' ::
      (if v.isEmpty then emptyVersionText else v.text).toList) := by
  have other : isRoot ⟨String.ofList name, v⟩ = false := by
    have filled : String.ofList name ≠ "" := by
      intro same
      have chars := congrArg String.toList same
      rw [String.toList_ofList] at chars
      exact named chars
    simp only [isRoot, beq_false_of_ne filled, Bool.false_and]
  rw [text, other]
  apply String.toList_inj.mp
  simp only [Bool.false_eq_true, if_false, String.toList_append, String.toList_ofList,
    List.append_assoc]
  rfl

theorem Parsed.parse_text {k : ModuleKey} (parsed : k.Parsed) : parse k.text = .ok k := by
  obtain ⟨s, read⟩ := parsed
  by_cases isRoot : s = rootText
  · rw [parse, if_pos isRoot] at read
    cases read
    rfl
  · cases cut : Text.cutAt '@' s.toList with
    | none =>
      rw [parse, if_neg isRoot, cut] at read
      cases read
    | some parts =>
      obtain ⟨name, version⟩ := parts
      obtain ⟨whole, clean⟩ := Text.cutAt_eq_some cut
      rw [← String.ofList_toList (s := s), whole] at read
      by_cases named : name = []
      · subst named
        rw [parse, if_neg (by rw [← whole, String.ofList_toList]; exact isRoot),
          String.toList_ofList, Text.cutAt_append clean] at read
        cases read
      · rw [parse_append clean named] at read
        split at read
        · cases read
          rw [text_of_named named, parse_append clean named]
          rfl
        · rename_i other
          split at read
          · rename_i v readVersion
            cases read
            rw [text_of_named named, parse_append clean named, String.ofList_toList]
            by_cases nothing : v.isEmpty
            · have empty : v = Version.empty := by
                cases v
                exact congrArg Version.mk (beq_iff_eq.mp nothing)
              rw [empty]
              rfl
            · rw [if_neg nothing, if_neg (by rw [Version.text_of_parse readVersion]; exact other),
                Version.text_of_parse readVersion, readVersion]
          · cases read

end ModuleKey

namespace Label

structure Valid (l : Label) : Prop where
  repo : checkRepo l.repo.toList = .ok ()
  package : checkPackage l.package.toList = .ok ()
  name : checkName l.name.toList = .ok ()

theorem repoChar_of_check {cs : List Char} (checked : checkRepo cs = .ok ()) :
    ∀ c ∈ cs, isRepoChar c = true := by
  rw [checkRepo] at checked
  split at checked
  · cases checked
  · rename_i none
    intro c member
    have kept := List.find?_eq_none.mp none c member
    simpa using kept

theorem segments_of_check {segments : List (List Char)}
    (checked : checkSegments segments = .ok ()) :
    ∀ segment ∈ segments, ∀ c ∈ segment, isSegmentChar c = true := by
  induction segments with
  | nil => exact fun _ member => (by cases member)
  | cons segment rest ih =>
    rw [checkSegments] at checked
    cases first : checkSegment segment with
    | error e => rw [first] at checked; cases checked
    | ok u =>
      rw [first] at checked
      rw [List.forall_mem_cons]
      refine ⟨?_, ih checked⟩
      simp only [checkSegment] at first
      split at first
      · cases first
      · split at first
        · cases first
        · split at first
          · rename_i all
            exact List.all_eq_true.mp all
          · cases first

theorem pathChar_of_check {cs : List Char} (checked : checkPath cs = .ok ()) {c : Char}
    (member : c ∈ cs) (other : c ≠ '/') : isSegmentChar c = true := by
  rw [checkPath] at checked
  split at checked
  · cases checked
  · obtain ⟨segment, inside, here⟩ := Text.mem_splitAt_iff.mpr ⟨member, other⟩
    exact segments_of_check checked segment inside c here

theorem colon_of_checkPackage {cs : List Char} (checked : checkPackage cs = .ok ()) : ':' ∉ cs := by
  intro member
  rw [checkPackage] at checked
  split at checked
  · rename_i empty
    rw [empty] at member
    cases member
  · cases path : checkPath cs with
    | error e => rw [path] at checked; cases checked
    | ok u =>
      have char := pathChar_of_check path member (by decide)
      revert char
      decide

theorem text_toList (l : Label) : l.text.toList =
    (if l.isMainRepo then [] else '@' :: l.repo.toList) ++
      '/' :: '/' :: (l.package.toList ++ ':' :: l.name.toList) := by
  rw [text]
  split <;> simp [String.toList_append]

theorem cutRepo_named {repo : List Char} (chars : ∀ c ∈ repo, isRepoChar c = true)
    (rest : List Char) :
    cutRepo ('@' :: (repo ++ '/' :: '/' :: rest)) = .ok (repo, '/' :: '/' :: rest) := by
  have clean : '/' ∉ repo := fun member => absurd (chars '/' member) (by decide)
  have after : cutRepo.after (repo ++ '/' :: '/' :: rest) = .ok (repo, '/' :: '/' :: rest) := by
    rw [cutRepo.after, Text.cutBeforeSlashes_append clean]
  cases repo with
  | nil => exact after
  | cons c repo =>
    have other : c ≠ '@' := by
      rintro rfl
      exact absurd (chars '@' List.mem_cons_self) (by decide)
    rw [List.cons_append] at after ⊢
    rw [← after]
    unfold cutRepo
    split
    · rename_i same
      exact absurd (List.cons.inj (List.cons.inj same).2).1 other
    · rename_i same
      rw [(List.cons.inj same).2]
    · rename_i named
      exact absurd rfl (named _)

theorem Valid.ofChars_text {l : Label} (valid : l.Valid) : ofChars l.text.toList = .ok l := by
  have cut : cutRepo l.text.toList =
      .ok (l.repo.toList, '/' :: '/' :: (l.package.toList ++ ':' :: l.name.toList)) := by
    rw [text_toList]
    by_cases main : l.isMainRepo
    · have unnamed : l.repo.toList = [] := by rw [beq_iff_eq.mp main]; rfl
      rw [if_pos main, unnamed]
      rfl
    · rw [if_neg main]
      exact cutRepo_named (repoChar_of_check valid.repo) _
  have colon := Text.cutAt_append (colon_of_checkPackage valid.package) l.name.toList
  simp only [ofChars, cut, colon, valid.repo, valid.package, valid.name, bind, Except.bind, pure,
    Except.pure, String.ofList_toList]

theorem mem_of_cutRepo {cs repo rest : List Char} (cut : cutRepo cs = .ok (repo, rest)) :
    repo ⊆ cs ∧ rest ⊆ cs := by
  have after {tail : List Char} (cut : cutRepo.after tail = .ok (repo, rest)) :
      repo ⊆ tail ∧ rest ⊆ tail := by
    rw [cutRepo.after] at cut
    split at cut
    · rename_i parts found
      cases cut
      rw [Text.cutBeforeSlashes_eq_some found]
      exact ⟨List.subset_append_left _ _, List.subset_append_right _ _⟩
    · cases cut
  unfold cutRepo at cut
  split at cut
  · obtain ⟨inRepo, inRest⟩ := after cut
    exact ⟨fun c h => .tail _ (.tail _ (inRepo h)), fun c h => .tail _ (.tail _ (inRest h))⟩
  · obtain ⟨inRepo, inRest⟩ := after cut
    exact ⟨fun c h => .tail _ (inRepo h), fun c h => .tail _ (inRest h)⟩
  · cases cut
    exact ⟨List.nil_subset _, List.Subset.refl _⟩

theorem lastSegment_subset (cs : List Char) : lastSegment cs ⊆ cs := by
  intro c member
  rw [lastSegment] at member
  cases last : (Text.splitAt '/' cs).getLast? with
  | none => rw [last] at member; exact member
  | some segment =>
    rw [last] at member
    exact (Text.mem_splitAt_iff.mp ⟨segment, List.mem_of_getLast? last, member⟩).1

theorem valid_of_checks {repo package name : List Char} {l : Label}
    (read : (do
      checkRepo repo
      checkPackage package
      checkName name
      pure ⟨String.ofList repo, String.ofList package, String.ofList name⟩) = Except.ok l) :
    l.Valid ∧ l.repo.toList = repo ∧ l.package.toList = package ∧ l.name.toList = name := by
  obtain ⟨⟨⟩, checkedRepo, read⟩ := exists_of_bind_eq_ok read
  obtain ⟨⟨⟩, checkedPackage, read⟩ := exists_of_bind_eq_ok read
  obtain ⟨⟨⟩, checkedName, read⟩ := exists_of_bind_eq_ok read
  cases read
  refine ⟨⟨?_, ?_, ?_⟩, String.toList_ofList, String.toList_ofList, String.toList_ofList⟩
  all_goals rwa [String.toList_ofList]

theorem valid_of_ofChars {cs : List Char} {l : Label} (read : ofChars cs = .ok l) :
    l.Valid ∧ l.repo.toList ⊆ cs ∧ l.package.toList ⊆ cs ∧ l.name.toList ⊆ cs := by
  obtain ⟨⟨repo, rest⟩, cut, read⟩ := exists_of_bind_eq_ok read
  obtain ⟨inRepo, inRest⟩ := mem_of_cutRepo cut
  dsimp only [bind, Except.bind] at read
  split at read
  · rename_i body
    have inBody : body ⊆ cs := fun c h => inRest (.tail _ (.tail _ h))
    cases colon : Text.cutAt ':' body with
    | some parts =>
      obtain ⟨whole, -⟩ := Text.cutAt_eq_some colon
      rw [whole] at inBody
      simp only [pure, Except.pure, colon] at read
      obtain ⟨valid, rfl, package, name⟩ := valid_of_checks read
      rw [package, name]
      exact ⟨valid, inRepo, fun c h => inBody (List.mem_append_left _ h),
        fun c h => inBody (List.mem_append_right _ (.tail _ h))⟩
    | none =>
      simp only [pure, Except.pure, colon] at read
      obtain ⟨valid, rfl, package, name⟩ := valid_of_checks read
      rw [package, name]
      exact ⟨valid, inRepo, inBody, fun c h => inBody (lastSegment_subset body h)⟩
  · cases read

theorem ofChars_of_parse {s : String} {l : Label} (read : parse s = .ok l) :
    ofChars s.toList = .ok l := by
  rw [parse] at read
  cases chars : ofChars s.toList with
  | error e => rw [chars] at read; cases read
  | ok l' => rw [chars] at read; cases read; rfl

theorem Parsed.parse_text {l : Label} (parsed : l.Parsed) : parse l.text = .ok l := by
  obtain ⟨s, read⟩ := parsed
  rw [parse, (valid_of_ofChars (ofChars_of_parse read)).1.ofChars_text]
  rfl

theorem Parsed.text_inj {l l' : Label} (parsed : l.Parsed) (parsed' : l'.Parsed)
    (same : l.text = l'.text) : l = l' := by
  have back := parsed.parse_text
  rw [same, parsed'.parse_text] at back
  exact (Except.ok.inj back).symm

end Label

end ExtensionLock
