import ExtensionLock.Json.Tree
import ExtensionLock.Proofs.PrintedText

/-! A printed value is read as what it was, as far as its numbers are read back: the reader takes
the draft of the value from the text, and from the draft the value with every object in order. The
only other bound is the depth that the reader allows. -/

namespace ExtensionLock

namespace Json

mutual

def ReadsBack : Json → Prop
  | .number n => n.ReadsBack
  | .array items => ItemsReadBack items
  | .object fields => FieldsReadBack fields
  | _ => True

def ItemsReadBack : List Json → Prop
  | [] => True
  | v :: rest => ReadsBack v ∧ ItemsReadBack rest

def FieldsReadBack : List (String × Json) → Prop
  | [] => True
  | (_, v) :: rest => ReadsBack v ∧ FieldsReadBack rest

end

def Starts (cs : List Char) : Prop :=
  ∃ c rest, cs = c :: rest ∧ Draft.isSpace c = false ∧ c ≠ ']'

theorem Starts.append {cs : List Char} (start : Starts cs) (rest : List Char) :
    Starts (cs ++ rest) := by
  obtain ⟨c, tail, rfl, mark⟩ := start
  exact ⟨c, tail ++ rest, rfl, mark⟩

theorem length_lead (level : Nat) (first : Bool) : 0 < (lead level first).length := by
  cases first <;> exact Nat.succ_pos _

theorem prettyChars_start {v : Json} (reads : v.ReadsBack) (level : Nat) :
    Starts (prettyChars level v) := by
  cases v with
  | null => exact ⟨_, _, rfl, rfl, by decide⟩
  | bool b => cases b <;> exact ⟨_, _, rfl, rfl, by decide⟩
  | number n =>
    obtain ⟨c, rest, text, apart⟩ := Number.text_start reads
    refine ⟨c, rest, text, ?_, apart ']' (by decide) (by decide)⟩
    simp only [Draft.isSpace, decide_eq_false_iff_not, not_or]
    exact ⟨apart ' ' (by decide) (by decide), apart '\n' (by decide) (by decide),
      apart '\t' (by decide) (by decide), apart '\r' (by decide) (by decide)⟩
  | string s => exact ⟨_, _, rfl, rfl, by decide⟩
  | array items => cases items <;> exact ⟨_, _, rfl, rfl, by decide⟩
  | object fields => cases fields <;> exact ⟨_, _, rfl, rfl, by decide⟩

end Json

namespace Draft

theorem skipSpace_newLine (level : Nat) (cs : List Char) :
    skipSpace (Json.newLine level ++ cs) = skipSpace cs := by
  have blanks (n : Nat) : skipSpace (List.replicate n ' ' ++ cs) = skipSpace cs := by
    induction n with
    | zero => rfl
    | succ n ih => exact ih
  exact blanks (2 * level)

theorem skipSpace_start {cs : List Char} (start : Json.Starts cs) : skipSpace cs = cs := by
  obtain ⟨c, tail, rfl, mark, -⟩ := start
  simp [skipSpace, mark]

theorem takeScalar_string (s : String) (rest : List Char) :
    takeScalar (Json.quoted s ++ rest) = (.string (some s), some rest) := by
  have text := Json.takeString_escape s rest
  simp only [Json.quoted, List.cons_append, List.append_assoc, List.nil_append, takeScalar, text]

theorem stops_prettyItems (level : Nat) (items : List Json) (rest : List Char) :
    Stops (Json.prettyItems level false items ++ rest) := by
  cases items with
  | nil => exact ⟨_, _, rfl, .inr rfl⟩
  | cons v items => exact ⟨_, _, rfl, .inl rfl⟩

theorem stops_prettyFields (level : Nat) (fields : List (String × Json)) (rest : List Char) :
    Stops (Json.prettyFields level false fields ++ rest) := by
  cases fields with
  | nil => exact ⟨_, _, rfl, .inr rfl⟩
  | cons f fields => exact ⟨_, _, rfl, .inl rfl⟩

theorem takeValue_number {n : Number} (reads : n.ReadsBack) (fuel : Nat) {rest : List Char}
    (stop : Stops rest) :
    takeValue (fuel + 1) (n.text.toList ++ rest) = (.number (some n), some rest) := by
  have scalar := Number.takeScalar_append reads stop
  have start : Json.Starts n.text.toList := Json.prettyChars_start (v := .number n) reads 0
  rw [takeValue, skipSpace_start (start.append rest)]
  obtain ⟨c, tail, text, apart⟩ := Number.text_start reads
  have list := apart '[' (by decide) (by decide)
  have object := apart '{' (by decide) (by decide)
  rw [text] at scalar ⊢
  split
  · rename_i same
    exact absurd (List.cons.inj same).1 list
  · rename_i same
    exact absurd (List.cons.inj same).1 object
  · exact scalar

theorem takeValue_newLine (fuel level : Nat) (cs : List Char) :
    takeValue fuel (Json.newLine level ++ cs) = takeValue fuel cs := by
  cases fuel with
  | zero => rfl
  | succ fuel => rw [takeValue, takeValue, skipSpace_newLine]

theorem takeItems_lead {fuel level : Nat} {first : Bool} {cs rest after : List Char} {v : Draft}
    {items : List Draft} (start : Json.Starts cs)
    (value : takeValue fuel cs = (v, some rest))
    (others : takeItems fuel false rest = (items, .closed, some after)) :
    takeItems (fuel + 1) first (Json.lead level first ++ cs) =
      (v :: items, .closed, some after) := by
  obtain ⟨c, tail, rfl, mark, open'⟩ := start
  cases first with
  | true =>
    have skipped : skipSpace (Json.lead level true ++ c :: tail) = c :: tail := by
      rw [Json.lead, if_pos rfl, skipSpace_newLine]
      simp [skipSpace, mark]
    rw [takeItems, skipped]
    split
    · rename_i same
      exact absurd (List.cons.inj same).1 open'
    · simp only [if_pos, value, others]
  | false =>
    have skipped : skipSpace (Json.lead level false ++ c :: tail) =
        ',' :: (Json.newLine level ++ c :: tail) := rfl
    rw [takeItems, skipped]
    split
    · rename_i same
      exact absurd (List.cons.inj same).1 (by decide)
    · simp only [Bool.false_eq_true, if_false, takeValue_newLine, value, others]

theorem takeFields_lead {fuel level : Nat} {first : Bool} {cs rest after : List Char} {k : String}
    {v : Draft} {fields : List (Option String × Draft)} (value : takeValue fuel cs = (v, some rest))
    (others : takeFields fuel false rest = (fields, .closed, some after)) :
    takeFields (fuel + 1) first (Json.lead level first ++ (Json.quoted k ++ ':' :: ' ' :: cs)) =
      ((some k, v) :: fields, .closed, some after) := by
  have name : Json.quoted k ++ ':' :: ' ' :: cs =
      '"' :: (Json.escape k.toList ++ '"' :: ':' :: ' ' :: cs) := by
    simp only [Json.quoted, List.cons_append, List.append_assoc, List.nil_append]
  have behind : takeValue fuel (' ' :: cs) = (v, some rest) := by
    cases fuel with
    | zero => cases value
    | succ fuel =>
      have skipped : skipSpace (' ' :: cs) = skipSpace cs := rfl
      rw [takeValue, skipped, ← takeValue, value]
  have text := Json.takeString_escape k (':' :: ' ' :: cs)
  have colon : skipSpace (':' :: ' ' :: cs) = ':' :: ' ' :: cs := rfl
  have opened (tail : List Char) : skipSpace (Json.newLine level ++ '"' :: tail) = '"' :: tail := by
    rw [skipSpace_newLine]
    rfl
  rw [name]
  cases first with
  | true =>
    rw [takeFields, Json.lead, if_pos rfl, opened]
    split
    · rename_i same
      exact absurd (List.cons.inj same).1 (by decide)
    · simp only [if_true, text, colon, behind, others]
  | false =>
    have comma (tail : List Char) : skipSpace (Json.lead level false ++ tail) =
        ',' :: (Json.newLine level ++ tail) := rfl
    rw [takeFields, comma]
    split
    · rename_i same
      exact absurd (List.cons.inj same).1 (by decide)
    · simp only [Bool.false_eq_true, if_false, opened, text, colon, behind, others]

theorem takeValue_bracket (fuel : Nat) (cs : List Char) : takeValue (fuel + 1) ('[' :: cs) =
    (.array (takeItems fuel true cs).1 (takeItems fuel true cs).2.1,
      (takeItems fuel true cs).2.2) := rfl

theorem takeValue_brace (fuel : Nat) (cs : List Char) : takeValue (fuel + 1) ('{' :: cs) =
    (.object (takeFields fuel true cs).1 (takeFields fuel true cs).2.1,
      (takeFields fuel true cs).2.2) := rfl

mutual

/-- The fuel need only be more than the characters that are left, which every step makes fewer. -/
theorem takeValue_pretty (v : Json) (reads : v.ReadsBack) (level fuel : Nat) (rest : List Char)
    (stop : Stops rest) (enough : (Json.prettyChars level v ++ rest).length < fuel) :
    takeValue fuel (Json.prettyChars level v ++ rest) = (ofJson v, some rest) := by
  cases fuel with
  | zero => exact absurd enough (Nat.not_lt_zero _)
  | succ fuel =>
    match v with
    | .null => rfl
    | .bool true => rfl
    | .bool false => rfl
    | .number n => exact takeValue_number reads fuel stop
    | .string s => exact takeScalar_string s rest
    | .array [] =>
      cases fuel with
      | zero => simp [Json.prettyChars] at enough
      | succ fuel => rfl
    | .array (item :: items) =>
      have inner := takeItems_pretty (item :: items) reads level true fuel rest
        (Nat.lt_of_succ_lt_succ enough)
      refine (takeValue_bracket fuel (Json.prettyItems level true (item :: items) ++ rest)).trans ?_
      rw [inner]
      rfl
    | .object [] =>
      cases fuel with
      | zero => simp [Json.prettyChars] at enough
      | succ fuel => rfl
    | .object (field :: fields) =>
      have inner := takeFields_pretty (field :: fields) reads level true fuel rest
        (Nat.lt_of_succ_lt_succ enough)
      refine
        (takeValue_brace fuel (Json.prettyFields level true (field :: fields) ++ rest)).trans ?_
      rw [inner]
      rfl

theorem takeItems_pretty (items : List Json) (reads : Json.ItemsReadBack items) (level : Nat)
    (first : Bool) (fuel : Nat) (rest : List Char)
    (enough : (Json.prettyItems level first items ++ rest).length < fuel) :
    takeItems fuel first (Json.prettyItems level first items ++ rest) =
      (ofItems items, .closed, some rest) := by
  cases fuel with
  | zero => exact absurd enough (Nat.not_lt_zero _)
  | succ fuel =>
    match items with
    | [] =>
      rw [takeItems, Json.prettyItems, List.append_assoc, skipSpace_newLine]
      rfl
    | v :: items =>
      simp only [Json.prettyItems, List.append_assoc] at enough ⊢
      have step := Json.length_lead (level + 1) first
      simp only [List.length_append] at enough
      have value := takeValue_pretty v reads.1 (level + 1) fuel _
        (stops_prettyItems level items rest) (by simp only [List.length_append]; omega)
      have others := takeItems_pretty items reads.2 level false fuel rest
        (by simp only [List.length_append]; omega)
      exact takeItems_lead ((Json.prettyChars_start reads.1 (level + 1)).append _) value others

theorem takeFields_pretty (fields : List (String × Json)) (reads : Json.FieldsReadBack fields)
    (level : Nat) (first : Bool) (fuel : Nat) (rest : List Char)
    (enough : (Json.prettyFields level first fields ++ rest).length < fuel) :
    takeFields fuel first (Json.prettyFields level first fields ++ rest) =
      (ofFields fields, .closed, some rest) := by
  cases fuel with
  | zero => exact absurd enough (Nat.not_lt_zero _)
  | succ fuel =>
    match fields with
    | [] =>
      rw [takeFields, Json.prettyFields, List.append_assoc, skipSpace_newLine]
      rfl
    | (k, v) :: fields =>
      simp only [Json.prettyFields, List.append_assoc, List.cons_append] at enough ⊢
      have step := Json.length_lead (level + 1) first
      simp only [List.length_append, List.length_cons] at enough
      have value := takeValue_pretty v reads.1 (level + 1) fuel _
        (stops_prettyFields level fields rest) (by simp only [List.length_append]; omega)
      have others := takeFields_pretty fields reads.2 level false fuel rest
        (by simp only [List.length_append]; omega)
      exact takeFields_lead value others

end

theorem ofText_pretty {v : Json} (reads : v.ReadsBack) :
    ofText (v.pretty ++ "\n") = (ofJson v, true) := by
  have chars : (v.pretty ++ "\n").toList = Json.prettyChars 0 v ++ ['\n'] := by
    rw [String.toList_append, Json.pretty, String.toList_ofList]
    rfl
  have value := takeValue_pretty v reads 0 ((Json.prettyChars 0 v ++ ['\n']).length + 1) ['\n']
    ⟨_, _, rfl, .inr rfl⟩ (Nat.lt_succ_self _)
  simp only [ofText, chars, value]
  rfl

end Draft

namespace Json

mutual

def depth : Json → Nat
  | .array items => depthItems items + 1
  | .object fields => depthFields fields + 1
  | _ => 0

def depthItems : List Json → Nat
  | [] => 0
  | v :: rest => max (depth v) (depthItems rest)

def depthFields : List (String × Json) → Nat
  | [] => 0
  | (_, v) :: rest => max (depth v) (depthFields rest)

end

mutual

/-- The value with the fields of every object in order; of two with one name the later stands. -/
def canonical : Json → Json
  | .array items => .array (canonicalItems items)
  | .object fields => .object (SortedMap.ofList (canonicalFields fields)).entries
  | v => v

def canonicalItems : List Json → List Json
  | [] => []
  | v :: rest => canonical v :: canonicalItems rest

def canonicalFields : List (String × Json) → List (String × Json)
  | [] => []
  | (k, v) :: rest => (k, canonical v) :: canonicalFields rest

end

end Json

def Origin.Allows : Origin → Nat → Prop
  | .text left, depth => depth ≤ left
  | _, _ => True

theorem Origin.Allows.mono {o : Origin} {m n : Nat} (allowed : o.Allows n) (less : m ≤ n) :
    o.Allows m := by
  cases o with
  | text left => exact Nat.le_trans less allowed
  | value => trivial
  | words => trivial

theorem Origin.enter?_of_allows {o : Origin} {n : Nat} (allowed : o.Allows (n + 1)) :
    ∃ inner, o.enter? = some inner ∧ inner.Allows n := by
  cases o with
  | text left =>
    cases left with
    | zero => exact absurd allowed (Nat.not_succ_le_zero n)
    | succ left => exact ⟨_, rfl, Nat.le_of_succ_le_succ allowed⟩
  | value => exact ⟨_, rfl, trivial⟩
  | words => exact ⟨_, rfl, trivial⟩

namespace Draft

mutual

theorem value?_ofJson (v : Json) {o : Origin} (allowed : o.Allows v.depth) :
    value? o (ofJson v) = some v.canonical := by
  match v with
  | .null => rfl
  | .bool _ => rfl
  | .number _ => rfl
  | .string _ => rfl
  | .array items =>
    obtain ⟨inner, entered, within⟩ := Origin.enter?_of_allows allowed
    simp only [ofJson, value?, entered, values?_ofItems items within]
    rfl
  | .object fields =>
    obtain ⟨inner, entered, within⟩ := Origin.enter?_of_allows allowed
    simp only [ofJson, value?, entered, fieldValues?_ofFields fields within]
    rfl

theorem values?_ofItems (items : List Json) {o : Origin}
    (allowed : o.Allows (Json.depthItems items)) :
    values? o (ofItems items) = some (Json.canonicalItems items) := by
  match items with
  | [] => rfl
  | v :: rest =>
    rw [ofItems, values?, value?_ofJson v (allowed.mono (Nat.le_max_left _ _)),
      values?_ofItems rest (allowed.mono (Nat.le_max_right _ _))]
    rfl

theorem fieldValues?_ofFields (fields : List (String × Json)) {o : Origin}
    (allowed : o.Allows (Json.depthFields fields)) :
    fieldValues? o (ofFields fields) = some (Json.canonicalFields fields) := by
  match fields with
  | [] => rfl
  | (k, v) :: rest =>
    rw [ofFields, fieldValues?, value?_ofJson v (allowed.mono (Nat.le_max_left _ _)),
      fieldValues?_ofFields rest (allowed.mono (Nat.le_max_right _ _))]
    rfl

end

mutual

theorem value?_ofJson_deep (v : Json) {left : Nat} (deep : left < v.depth) :
    value? (.text left) (ofJson v) = none := by
  match v with
  | .null => cases deep
  | .bool _ => cases deep
  | .number _ => cases deep
  | .string _ => cases deep
  | .array items =>
    cases left with
    | zero => rfl
    | succ left =>
      have inner := values?_ofItems_deep items (Nat.lt_of_succ_lt_succ deep)
      simp only [ofJson, value?, Origin.enter?, inner]
      rfl
  | .object fields =>
    cases left with
    | zero => rfl
    | succ left =>
      have inner := fieldValues?_ofFields_deep fields (Nat.lt_of_succ_lt_succ deep)
      simp only [ofJson, value?, Origin.enter?, inner]
      rfl

theorem values?_ofItems_deep (items : List Json) {left : Nat}
    (deep : left < Json.depthItems items) : values? (.text left) (ofItems items) = none := by
  match items with
  | [] => cases deep
  | v :: rest =>
    rw [ofItems, values?]
    by_cases here : left < v.depth
    · rw [value?_ofJson_deep v here]
      rfl
    · have others : left < Json.depthItems rest := by
        rw [Json.depthItems] at deep
        omega
      rw [values?_ofItems_deep rest others]
      cases value? (.text left) (ofJson v) <;> rfl

theorem fieldValues?_ofFields_deep (fields : List (String × Json)) {left : Nat}
    (deep : left < Json.depthFields fields) :
    fieldValues? (.text left) (ofFields fields) = none := by
  match fields with
  | [] => cases deep
  | (k, v) :: rest =>
    rw [ofFields, fieldValues?]
    by_cases here : left < v.depth
    · rw [value?_ofJson_deep v here]
      rfl
    · have others : left < Json.depthFields rest := by
        rw [Json.depthFields] at deep
        omega
      rw [fieldValues?_ofFields_deep rest others]
      cases value? (.text left) (ofJson v) <;> rfl

end

end Draft

theorem Json.parse?_pretty {v : Json} (reads : v.ReadsBack) :
    Json.parse? (v.pretty ++ "\n") =
      if v.depth ≤ Json.depthLimit then some v.canonical else none := by
  rw [parse?, Draft.ofText_pretty reads]
  by_cases shallow : v.depth ≤ Json.depthLimit
  · rw [if_pos shallow]
    exact Draft.value?_ofJson v shallow
  · rw [if_neg shallow]
    exact Draft.value?_ofJson_deep v (Nat.lt_of_not_le shallow)

end ExtensionLock
