import ExtensionLock.Text.Lowercase

/-! Suggestions for misspelled names, by the number of edits between two texts. -/

namespace ExtensionLock.Spelling

/-- The next row of the table of distances: how far each start of `b` is from a start of `a` that
is longer by `c`. `above` is the entry over the one to the left, `left` the one to the left. -/
def nextRow (c : Char) (above left : Nat) : List Char → List Nat → List Nat
  | d :: b, up :: rest =>
    let here := min (min (above + (if c = d then 0 else 1)) (up + 1)) (left + 1)
    here :: nextRow c up here b rest
  | _, _ => []

def advance (b : List Char) (row : List Nat) (c : Char) : List Nat :=
  match row with
  | above :: rest => (above + 1) :: nextRow c above (above + 1) b rest
  | [] => []

/-- The number of insertions, deletions and substitutions that lead from one list of characters
to the other, computed row by row. -/
def distance (a b : List Char) : Nat :=
  ((a.foldl (advance b) (List.range (b.length + 1))).getLast?).getD 0

def editDistance (a b : String) : Nat := distance (Text.lowercase a) (Text.lowercase b)

def farthest : Nat := 5

def tolerance (input : String) : Nat := min (max ((input.length + 1) / 2) 1) farthest

/-- Keeps the better of the best candidate so far and a new one; the earlier wins a tie. -/
def better (input : String) (best : Option (String × Nat)) (candidate : String) :
    Option (String × Nat) :=
  if candidate = input then best
  else
    let d := editDistance input candidate
    if d > tolerance input then best
    else match best with
      | some (_, least) => if least ≤ d then best else some (candidate, d)
      | none => some (candidate, d)

def suggest (input : String) (candidates : List String) : Option String :=
  (candidates.foldl (better input) none).map Prod.fst

def didYouMean (input : String) (candidates : List String) : String :=
  match suggest input candidates with
  | some candidate => " (did you mean '" ++ candidate ++ "'?)"
  | none => ""

end ExtensionLock.Spelling
