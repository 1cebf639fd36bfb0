import ExtensionLock.Spelling
import Mathlib.Algebra.Order.Floor.Div

/-! Which name is suggested for a misspelled one: the nearest of those that are near enough to be
meant, and of several nearest ones the first. After each candidate the pass remembers what would be
suggested if no other one came. -/

namespace ExtensionLock.Spelling

/-- A candidate may be meant if it is another name that is no more edits away than half the
characters of the input, rounded up. One edit is always allowed, more than five never are. -/
structure MayBeMeant (input candidate : String) : Prop where
  other : candidate ≠ input
  near : editDistance input candidate ≤ max 1 (min 5 (input.length ⌈/⌉ 2))

/-- The first of the nearest candidates among those that may be meant. -/
structure FirstNearest (input : String) (candidates : List String) (found : String) : Prop where
  meant : MayBeMeant input found
  least : ∀ c ∈ candidates, MayBeMeant input c → editDistance input found ≤ editDistance input c
  first : ∃ before after, candidates = before ++ found :: after ∧
    ∀ c ∈ before, MayBeMeant input c → editDistance input found < editDistance input c

/-- What the pass holds once it has seen some candidates. -/
def Remembered (input : String) (seen : List String) : Option (String × Nat) → Prop
  | none => ∀ c ∈ seen, ¬ MayBeMeant input c
  | some (found, distance) => distance = editDistance input found ∧ FirstNearest input seen found

section

variable {input candidate found found' : String} {seen candidates : List String}
  {best : Option (String × Nat)}

theorem tolerance_eq (input : String) : tolerance input = max 1 (min 5 (input.length ⌈/⌉ 2)) := by
  rw [tolerance, farthest, Nat.ceilDiv_eq_add_pred_div]
  omega

namespace FirstNearest

theorem snoc (nearest : FirstNearest input seen found)
    (worse : MayBeMeant input candidate →
      editDistance input found ≤ editDistance input candidate) :
    FirstNearest input (seen ++ [candidate]) found := by
  obtain ⟨before, after, split, first⟩ := nearest.first
  refine ⟨nearest.meant, fun c member meant => ?_, before, after ++ [candidate], ?_, first⟩
  · rcases List.mem_append.mp member with earlier | last
    · exact nearest.least c earlier meant
    · cases List.mem_singleton.mp last
      exact worse meant
  · rw [split, List.append_assoc, List.cons_append]

theorem last (meant : MayBeMeant input candidate)
    (better : ∀ c ∈ seen, MayBeMeant input c →
      editDistance input candidate < editDistance input c) :
    FirstNearest input (seen ++ [candidate]) candidate := by
  refine ⟨meant, fun c member may => ?_, seen, [], rfl, better⟩
  rcases List.mem_append.mp member with earlier | last
  · exact (better c earlier may).le
  · cases List.mem_singleton.mp last
    exact Nat.le_refl _

theorem mem (nearest : FirstNearest input candidates found) : found ∈ candidates := by
  obtain ⟨before, after, split, _⟩ := nearest.first
  exact split ▸ List.mem_append_right before List.mem_cons_self

theorem unique (nearest : FirstNearest input candidates found)
    (nearest' : FirstNearest input candidates found') : found = found' := by
  obtain ⟨before, after, split, first⟩ := nearest.first
  obtain ⟨before', after', split', first'⟩ := nearest'.first
  have least := nearest.least found' nearest'.mem nearest'.meant
  have least' := nearest'.least found nearest.mem nearest.meant
  rcases List.append_eq_append_iff.mp (split.symm.trans split') with
    ⟨between, rfl, cut⟩ | ⟨between, rfl, cut⟩
  · cases between with
    | nil => exact (List.cons.inj cut).1
    | cons c between =>
      cases (List.cons.inj cut).1
      exact absurd (first' found (by simp) nearest.meant) (not_lt.mpr least)
  · cases between with
    | nil => exact (List.cons.inj cut).1.symm
    | cons c between =>
      cases (List.cons.inj cut).1
      exact absurd (first found' (by simp) nearest'.meant) (not_lt.mpr least')

end FirstNearest

theorem better_of_not_meant (far : ¬ MayBeMeant input candidate) :
    better input best candidate = best := by
  rw [better]
  split
  · rfl
  · rename_i other
    refine if_pos (not_le.mp fun near => far ⟨other, ?_⟩)
    rwa [← tolerance_eq]

theorem better_of_meant (meant : MayBeMeant input candidate) :
    better input best candidate =
      match best with
      | some (_, least) =>
        if least ≤ editDistance input candidate then best
        else some (candidate, editDistance input candidate)
      | none => some (candidate, editDistance input candidate) := by
  have near := meant.near
  rw [← tolerance_eq] at near
  rw [better, if_neg meant.other]
  exact if_neg (not_lt.mpr near)

theorem Remembered.step (remembered : Remembered input seen best) (candidate : String) :
    Remembered input (seen ++ [candidate]) (better input best candidate) := by
  by_cases meant : MayBeMeant input candidate
  · rw [better_of_meant meant]
    cases best with
    | none => exact ⟨rfl, .last meant fun c member may => absurd may (remembered c member)⟩
    | some best =>
      obtain ⟨found, least⟩ := best
      obtain ⟨rfl, nearest⟩ := remembered
      dsimp only
      split
      · rename_i worse
        exact ⟨rfl, nearest.snoc fun _ => worse⟩
      · rename_i nearer
        exact ⟨rfl, .last meant fun c member may =>
          (not_le.mp nearer).trans_le (nearest.least c member may)⟩
  · rw [better_of_not_meant meant]
    cases best with
    | none =>
      intro c member
      rcases List.mem_append.mp member with earlier | last
      · exact remembered c earlier
      · cases List.mem_singleton.mp last
        exact meant
    | some best => exact ⟨remembered.1, remembered.2.snoc fun may => absurd may meant⟩

theorem Remembered.run (remembered : Remembered input seen best) (candidates : List String) :
    Remembered input (seen ++ candidates) (candidates.foldl (better input) best) := by
  induction candidates generalizing seen best with
  | nil => rwa [List.append_nil]
  | cons c candidates ih => simpa using ih (remembered.step c)

end

/-- Nothing is suggested exactly if no candidate may be meant, and otherwise the first of the
nearest of those that may. -/
theorem suggest_firstNearest (input : String) (candidates : List String) :
    (suggest input candidates = none ↔ ∀ c ∈ candidates, ¬ MayBeMeant input c) ∧
      ∀ found, suggest input candidates = some found ↔ FirstNearest input candidates found := by
  have start : Remembered input [] none := fun c member => nomatch member
  have remembered := start.run candidates
  rw [List.nil_append] at remembered
  rw [suggest]
  cases best : candidates.foldl (better input) none with
  | none =>
    rw [best] at remembered
    refine ⟨iff_of_true rfl remembered, fun found => iff_of_false nofun fun nearest => ?_⟩
    exact remembered found nearest.mem nearest.meant
  | some best' =>
    obtain ⟨kept, distance⟩ := best'
    rw [best] at remembered
    have nearest := remembered.2
    refine ⟨iff_of_false nofun fun none => none kept nearest.mem nearest.meant, fun found => ?_⟩
    constructor
    · intro same
      cases same
      exact nearest
    · intro other
      cases nearest.unique other
      rfl

example : suggest "deps" ["depth", "dep", "Deps", "DEPS"] = some "Deps" := by decide +kernel

end ExtensionLock.Spelling
