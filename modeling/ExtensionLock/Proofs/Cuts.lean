import ExtensionLock.Text.Split
import Mathlib.Data.List.Basic

/-! What the cuts of a text lose. A text is put together again from its pieces and the separators
between them, and a text that was put together so is cut into the same pieces. -/

namespace ExtensionLock.Text

theorem cutAt_append {sep : Char} {before : List Char} (clean : sep ∉ before) (after : List Char) :
    cutAt sep (before ++ sep :: after) = some (before, after) := by
  induction before with
  | nil => exact if_pos rfl
  | cons c before ih =>
    rw [List.mem_cons, not_or] at clean
    rw [List.cons_append, cutAt, if_neg (Ne.symm clean.1), ih clean.2]
    rfl

theorem cutBeforeSlashes_append {before : List Char} (clean : '/' ∉ before) (after : List Char) :
    cutBeforeSlashes (before ++ '/' :: '/' :: after) = some (before, '/' :: '/' :: after) := by
  induction before with
  | nil => rfl
  | cons c before ih =>
    rw [List.mem_cons, not_or] at clean
    have other : decide (c = '/') = false := decide_eq_false (Ne.symm clean.1)
    simp only [List.cons_append, cutBeforeSlashes, other, Bool.false_and, Bool.false_eq_true,
      if_false, ih clean.2]
    rfl

theorem cutBeforeSlashes_eq_some {cs before after : List Char}
    (cut : cutBeforeSlashes cs = some (before, after)) : cs = before ++ after := by
  induction cs generalizing before with
  | nil => cases cut
  | cons c cs ih =>
    rw [cutBeforeSlashes] at cut
    split at cut
    · cases cut
      rfl
    · obtain ⟨p, found, same⟩ := Option.map_eq_some_iff.mp cut
      cases same
      exact congrArg (c :: ·) (ih found)

theorem splitAt_eq_splitOn (sep : Char) (cs : List Char) : splitAt sep cs = cs.splitOn sep := by
  induction cs with
  | nil => rfl
  | cons c rest ih =>
    rw [splitAt, List.splitOn_cons_eq_if_modifyHead, ih]
    cases pieces : rest.splitOn sep with
    | nil => exact absurd pieces (List.splitOn_ne_nil sep rest)
    | cons piece others => by_cases same : c = sep <;> simp [same]

theorem splitAt_ne_nil (sep : Char) (cs : List Char) : splitAt sep cs ≠ [] := by
  rw [splitAt_eq_splitOn]
  exact List.splitOn_ne_nil sep cs

theorem splitAt_append (sep : Char) (cs ds : List Char) :
    splitAt sep (cs ++ sep :: ds) = splitAt sep cs ++ splitAt sep ds := by
  simp only [splitAt_eq_splitOn, List.splitOn_append_cons_self]

theorem intercalate_splitAt (sep : Char) (cs : List Char) :
    [sep].intercalate (splitAt sep cs) = cs := by
  rw [splitAt_eq_splitOn, List.intercalate_splitOn]

theorem splitAt_intercalate {sep : Char} {pieces : List (List Char)} (filled : pieces ≠ [])
    (clean : ∀ piece ∈ pieces, sep ∉ piece) : splitAt sep ([sep].intercalate pieces) = pieces := by
  rw [splitAt_eq_splitOn, List.splitOn_intercalate sep clean filled]

theorem mem_splitAt_iff {sep c : Char} {cs : List Char} :
    (∃ piece ∈ splitAt sep cs, c ∈ piece) ↔ c ∈ cs ∧ c ≠ sep := by
  induction cs with
  | nil => simp [splitAt]
  | cons d cs ih =>
    by_cases same : d = sep
    · rw [splitAt, if_pos same, List.exists_mem_cons_iff, ih, same, List.mem_cons]
      constructor
      · rintro (inside | ⟨member, other⟩)
        · cases inside
        · exact ⟨.inr member, other⟩
      · rintro ⟨member, other⟩
        exact .inr ⟨member.resolve_left other, other⟩
    · cases pieces : splitAt sep cs with
      | nil => exact absurd pieces (splitAt_ne_nil sep cs)
      | cons piece others =>
        rw [pieces, List.exists_mem_cons_iff] at ih
        rw [splitAt, if_neg same, pieces]
        dsimp only
        rw [List.exists_mem_cons_iff, List.mem_cons, List.mem_cons, or_assoc, ih]
        constructor
        · rintro (rfl | ⟨member, other⟩)
          · exact ⟨.inl rfl, same⟩
          · exact ⟨.inr member, other⟩
        · rintro ⟨rfl | member, other⟩
          · exact .inl rfl
          · exact .inr ⟨member, other⟩

theorem splitAt_clean {sep : Char} {before : List Char} (clean : sep ∉ before)
    {cs piece : List Char} {pieces : List (List Char)} (split : splitAt sep cs = piece :: pieces) :
    splitAt sep (before ++ cs) = (before ++ piece) :: pieces := by
  induction before with
  | nil => exact split
  | cons c before ih =>
    rw [List.mem_cons, not_or] at clean
    rw [List.cons_append, splitAt, if_neg (Ne.symm clean.1), ih clean.2]
    rfl

theorem last_separator_inj {sep : Char} {before before' after after' : List Char}
    (clean : sep ∉ after) (clean' : sep ∉ after')
    (same : before ++ sep :: after = before' ++ sep :: after') :
    before = before' ∧ after = after' := by
  have backwards (b a : List Char) : (b ++ sep :: a).reverse = a.reverse ++ sep :: b.reverse := by
    rw [List.reverse_append, List.reverse_cons, List.append_assoc]
    rfl
  have cut : cutAt sep (after.reverse ++ sep :: before.reverse) =
      cutAt sep (after'.reverse ++ sep :: before'.reverse) := by
    rw [← backwards, ← backwards, same]
  rw [cutAt_append (fun h => clean (List.mem_reverse.mp h)),
    cutAt_append (fun h => clean' (List.mem_reverse.mp h))] at cut
  obtain ⟨afters, befores⟩ := Prod.mk.inj (Option.some.inj cut)
  exact ⟨List.reverse_injective befores, List.reverse_injective afters⟩

end ExtensionLock.Text
