import ExtensionLock.ExtensionId
import ExtensionLock.Proofs.Names

/-! Texts of extension ids. A percent sign separates the parts of an id, and a label may hold
percent signs of its own. The text of an id is read as the id again exactly if its label holds none,
and then no other such id has the same text. -/

namespace ExtensionLock.ExtensionId

theorem percent_of_label {cs : List Char} {l : Label} (read : Label.ofChars cs = .ok l)
    (clean : '%' ∉ cs) : '%' ∉ l.text.toList := by
  obtain ⟨-, inRepo, inPackage, inName⟩ := Label.valid_of_ofChars read
  rw [Label.text_toList]
  intro member
  have repo : '%' ∉ (if l.isMainRepo then [] else '@' :: l.repo.toList) := by
    intro member
    split at member
    · cases member
    · rcases List.mem_cons.mp member with same | member
      · revert same; decide
      · exact clean (inRepo member)
  rcases List.mem_append.mp member with member | member
  · exact repo member
  · simp only [List.mem_cons, List.mem_append] at member
    rcases member with same | same | member | same | member
    · revert same; decide
    · revert same; decide
    · exact clean (inPackage member)
    · revert same; decide
    · exact clean (inName member)

theorem percent_of_cut {cs label name : List Char} {key : Option (List Char)}
    (found : cut cs = some (label, name, key)) : '%' ∉ label := by
  rw [cut] at found
  obtain ⟨parts, first, rest⟩ := Option.map_eq_some_iff.mp found
  obtain ⟨-, clean⟩ := Text.cutAt_eq_some first
  dsimp only at rest
  split at rest
  · cases rest
    exact clean
  · cases rest
    exact clean

theorem cut_append {label name : List Char} (cleanLabel : '%' ∉ label) (cleanName : '%' ∉ name)
    (key : Option (List Char)) :
    cut (label ++ '%' :: (name ++ (match key with
      | some key => '%' :: key
      | none => []))) = some (label, name, key) := by
  rw [cut, Text.cutAt_append cleanLabel, Option.map_some]
  cases key with
  | some key =>
    dsimp only
    rw [Text.cutAt_append cleanName]
  | none =>
    dsimp only
    rw [List.append_nil, Text.cutAt_eq_none.mpr cleanName]

theorem text_toList (id : ExtensionId) : id.text.toList =
    id.label.text.toList ++ '%' :: (id.name.toList ++ (match id.isolation.map String.toList with
      | some key => '%' :: key
      | none => [])) := by
  rw [text]
  cases id.isolation <;> simp [String.toList_append]

theorem identifierChar_of_mem {cs : List Char} (identifier : isIdentifier cs = true) {c : Char}
    (member : c ∈ cs) : (c.isAlphanum || c == '_') = true := by
  cases cs with
  | nil => cases member
  | cons first rest =>
    rw [isIdentifier, Bool.and_eq_true, List.all_eq_true] at identifier
    rcases List.mem_cons.mp member with rfl | member
    · rw [Char.isAlphanum, Bool.or_assoc, Bool.or_comm c.isDigit, ← Bool.or_assoc, identifier.1]
      rfl
    · exact identifier.2 c member

theorem percent_of_isIdentifier {cs : List Char} (identifier : isIdentifier cs = true) :
    '%' ∉ cs := fun member => absurd (identifierChar_of_mem identifier member) (by decide)

/-- Some reader has made the id of some text. -/
def Parsed (id : ExtensionId) : Prop := ∃ s, parse s = .ok id

/-- Each part of an id is in order for itself: the label has been read, the name is an identifier
and the isolation key is not empty. -/
structure Proper (id : ExtensionId) : Prop where
  label : id.label.Parsed
  name : isIdentifier id.name.toList = true
  isolation : id.isolation ≠ some ""

theorem Parsed.proper {id : ExtensionId} (parsed : id.Parsed) :
    id.Proper ∧ '%' ∉ id.label.text.toList := by
  obtain ⟨s, read⟩ := parsed
  rw [parse] at read
  split at read
  · cases read
  · rename_i label name key found
    have clean := percent_of_cut found
    split at read
    · rename_i identifier
      split at read
      · cases read
      · rename_i l readLabel
        split at read
        · cases read
        · rename_i keyed
          cases read
          have chars := Label.ofChars_of_parse readLabel
          rw [String.toList_ofList] at chars
          refine ⟨⟨⟨_, readLabel⟩, ?name, ?isolation⟩, percent_of_label chars clean⟩
          case name => rwa [String.toList_ofList]
          case isolation =>
            intro empty
            obtain ⟨cs, rfl, same⟩ := Option.map_eq_some_iff.mp empty
            have none : cs = [] := by rw [← String.toList_ofList (l := cs), same]; rfl
            exact keyed (congrArg some none)
    · cases read

namespace Proper

variable {id id' : ExtensionId}

theorem cut_text (proper : id.Proper) (clean : '%' ∉ id.label.text.toList) :
    cut id.text.toList =
      some (id.label.text.toList, id.name.toList, id.isolation.map String.toList) := by
  rw [text_toList, cut_append clean (percent_of_isIdentifier proper.name)]

theorem parse_text (proper : id.Proper) (clean : '%' ∉ id.label.text.toList) :
    parse id.text = .ok id := by
  have keyed : id.isolation.map String.toList ≠ some [] := by
    intro empty
    obtain ⟨key, isolated, same⟩ := Option.map_eq_some_iff.mp empty
    exact proper.isolation (isolated.trans (congrArg some (String.toList_inj.mp same)))
  have keys : (id.isolation.map String.toList).map String.ofList = id.isolation := by
    cases id.isolation with
    | none => rfl
    | some key => exact congrArg some String.ofList_toList
  rw [parse, proper.cut_text clean]
  dsimp only
  rw [if_pos proper.name, String.ofList_toList, proper.label.parse_text]
  dsimp only
  rw [if_neg keyed, String.ofList_toList, keys]

/-- Reading the text of an id gives the id back exactly if its label holds no percent sign, and ids
with such labels are told apart by their texts. -/
theorem parse_text_iff (proper : id.Proper) :
    (parse id.text = .ok id ↔ '%' ∉ id.label.text.toList) ∧
      ∀ id' : ExtensionId, id'.Proper → '%' ∉ id.label.text.toList →
        '%' ∉ id'.label.text.toList → id'.text = id.text → id' = id := by
  refine ⟨⟨fun read => (Parsed.proper ⟨_, read⟩).2, proper.parse_text⟩, ?_⟩
  intro id' proper' clean clean' same
  have back := proper'.parse_text clean'
  rw [same, proper.parse_text clean] at back
  exact (Except.ok.inj back).symm

end Proper

theorem Parsed.parse_text {id : ExtensionId} (parsed : id.Parsed) : parse id.text = .ok id :=
  parsed.proper.1.parse_text parsed.proper.2

def isolated : ExtensionId := ⟨⟨"", "", "x.bzl"⟩, "y", some "z.bzl%n"⟩

def spelledOut : ExtensionId := ⟨⟨"", "", "x.bzl%y%z.bzl"⟩, "n", none⟩

/-- Two ids share a text, which is read as the first of them. -/
theorem text_shared :
    isolated.Proper ∧ spelledOut.Proper ∧ isolated ≠ spelledOut ∧
      isolated.text = spelledOut.text ∧ parse spelledOut.text ≠ .ok spelledOut := by
  have plain : isolated.Proper := ⟨⟨"//:x.bzl", rfl⟩, by decide, by decide⟩
  have percent : spelledOut.Proper := ⟨⟨"//:x.bzl%y%z.bzl", rfl⟩, by decide, by decide⟩
  refine ⟨plain, percent, by decide, by decide, ?_⟩
  intro read
  exact percent.parse_text_iff.1.mp read (by decide)

end ExtensionLock.ExtensionId
