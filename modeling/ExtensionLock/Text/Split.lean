/-! Cutting text at separators. Every cut works on the list of characters, so that what a cut
loses is exactly the separators. -/

namespace ExtensionLock.Text

def cutAt (sep : Char) : List Char → Option (List Char × List Char)
  | [] => none
  | c :: rest =>
    if c = sep then some ([], rest)
    else (cutAt sep rest).map (fun p => (c :: p.1, p.2))

def splitAt (sep : Char) : List Char → List (List Char)
  | [] => [[]]
  | c :: rest =>
    if c = sep then [] :: splitAt sep rest
    else match splitAt sep rest with
      | piece :: pieces => (c :: piece) :: pieces
      | [] => [[c]]

def cutBeforeSlashes : List Char → Option (List Char × List Char)
  | [] => none
  | c :: rest =>
    if c = '/' && rest.head? == some '/' then some ([], c :: rest)
    else (cutBeforeSlashes rest).map (fun p => (c :: p.1, p.2))

theorem cutAt_eq_some {sep : Char} {cs before after : List Char}
    (h : cutAt sep cs = some (before, after)) : cs = before ++ sep :: after ∧ sep ∉ before := by
  induction cs generalizing before with
  | nil => simp [cutAt] at h
  | cons c rest ih =>
    by_cases hc : c = sep
    · simp only [cutAt, if_pos hc, Option.some.injEq, Prod.mk.injEq] at h
      obtain ⟨rfl, rfl⟩ := h
      simp [hc]
    · simp only [cutAt, if_neg hc, Option.map_eq_some_iff, Prod.mk.injEq] at h
      obtain ⟨p, hp, rfl, rfl⟩ := h
      have cut_rest : cutAt sep rest = some (p.1, p.2) := by rw [hp]
      obtain ⟨he, hn⟩ := ih cut_rest
      exact ⟨by rw [he]; rfl, by simp [hn, Ne.symm hc]⟩

theorem cutAt_eq_none {sep : Char} {cs : List Char} : cutAt sep cs = none ↔ sep ∉ cs := by
  induction cs with
  | nil => simp [cutAt]
  | cons c rest ih =>
    by_cases hc : c = sep
    · simp [cutAt, hc]
    · simp [cutAt, hc, ih, Ne.symm hc]

end ExtensionLock.Text
