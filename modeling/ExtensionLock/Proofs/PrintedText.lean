import ExtensionLock.Json.Draft
import ExtensionLock.Json.Printer

/-! What the printer has written, the reader takes back: texts with their escapes, and numerals up
to the character that ends them. A printed value is always followed by a comma or a new line. -/

namespace ExtensionLock

namespace Json

def shortEscapes : List Char := ['"', '\\', '\n', '\r', '\t', '\x08', '\x0c']

def pieceOf (c : Char) : Draft.Piece :=
  if c.toNat < 0x20 ∧ c ∉ shortEscapes then .unit c.toNat else .char c

theorem hexValue_hexDigit {n : Nat} (small : n < 16) : Draft.hexValue (hexDigit n) = some n := by
  have all : ∀ m : Fin 16, Draft.hexValue (hexDigit m.val) = some m.val := by decide
  exact all ⟨n, small⟩

theorem takePieces_escapeChar (c : Char) (rest : List Char) :
    Draft.takePieces (escapeChar c ++ rest) =
      (Draft.takePieces rest).map (fun p => (pieceOf c :: p.1, p.2)) := by
  by_cases special : c ∈ shortEscapes
  · rw [pieceOf, if_neg (fun h => h.2 special)]
    simp only [shortEscapes, List.mem_cons, List.not_mem_nil, or_false] at special
    rcases special with rfl | rfl | rfl | rfl | rfl | rfl | rfl <;>
      cases taken : Draft.takePieces rest <;>
      simp [escapeChar, Draft.takePieces, Draft.simpleEscape, taken]
  · have others := special
    simp only [shortEscapes, List.mem_cons, List.not_mem_nil, or_false, not_or] at others
    obtain ⟨quote, backslash, line, back, tab, bell, feed⟩ := others
    by_cases control : c.toNat < 0x20
    · rw [pieceOf, if_pos ⟨control, special⟩]
      have high : Draft.hexValue (hexDigit (c.toNat / 16)) = some (c.toNat / 16) :=
        hexValue_hexDigit (by omega)
      have low : Draft.hexValue (hexDigit (c.toNat % 16)) = some (c.toNat % 16) :=
        hexValue_hexDigit (by omega)
      have zero : Draft.hexValue '0' = some 0 := by decide
      have joined : c.toNat / 16 * 16 + c.toNat % 16 = c.toNat := by omega
      cases taken : Draft.takePieces rest <;>
        simp [escapeChar, quote, backslash, line, back, tab, bell, feed, control,
          Draft.takePieces, high, low, zero, taken, joined]
    · rw [pieceOf, if_neg (fun h => control h.1)]
      have plain : escapeChar c = [c] := by
        simp [escapeChar, quote, backslash, line, back, tab, bell, feed, control]
      rw [plain, List.singleton_append, Draft.takePieces]
      · rw [if_neg (not_or.mpr ⟨control, backslash⟩)]
        cases Draft.takePieces rest <;> rfl
      all_goals simp_all

theorem takePieces_escape (cs rest : List Char) :
    Draft.takePieces (escape cs ++ '"' :: rest) = some (cs.map pieceOf, rest) := by
  induction cs with
  | nil => rfl
  | cons c cs ih =>
    rw [escape, List.append_assoc, takePieces_escapeChar, ih]
    rfl

theorem joinPieces_pieceOf (cs : List Char) : Draft.joinPieces (cs.map pieceOf) = some cs := by
  induction cs with
  | nil => rfl
  | cons c cs ih =>
    rw [List.map_cons, pieceOf]
    split
    · rename_i control
      have low : ¬ (0xDC00 ≤ c.toNat ∧ c.toNat < 0xE000) := by omega
      have high : ¬ (0xD800 ≤ c.toNat ∧ c.toNat < 0xDC00) := by omega
      unfold Draft.joinPieces
      rw [if_neg low, if_neg high, ih, Char.ofNat_toNat]
      rfl
    · rw [Draft.joinPieces, ih]
      rfl

theorem takeString_escape (s : String) (rest : List Char) :
    Draft.takeString (escape s.toList ++ '"' :: rest) = some (some s, rest) := by
  rw [Draft.takeString, takePieces_escape, Option.map_some]
  dsimp only
  rw [joinPieces_pieceOf, Option.map_some, String.ofList_toList]

end Json

namespace Draft

def Stops (cs : List Char) : Prop := ∃ c rest, cs = c :: rest ∧ (c = ',' ∨ c = '\n')

theorem takeDigits_append (cs : List Char) {rest : List Char} (stop : Stops rest) :
    takeDigits (cs ++ rest) = ((takeDigits cs).1, (takeDigits cs).2 ++ rest) := by
  induction cs with
  | nil =>
    obtain ⟨c, rest, rfl, rfl | rfl⟩ := stop <;> rfl
  | cons c cs ih =>
    simp only [List.cons_append, takeDigits]
    cases digitValue c with
    | none => rfl
    | some d => rw [ih]

theorem takeWhole_append (cs : List Char) {rest : List Char} (stop : Stops rest) :
    takeWhole (cs ++ rest) = (takeWhole cs).map (fun p => (p.1, p.2 ++ rest)) := by
  simp only [takeWhole, takeDigits_append cs stop]
  rcases takeDigits cs with ⟨_ | ⟨_ | d, _ | ⟨e, ds⟩⟩, after⟩ <;> rfl

theorem takeFraction_append (cs : List Char) {rest : List Char} (stop : Stops rest) :
    takeFraction (cs ++ rest) = (takeFraction cs).map (fun p => (p.1, p.2 ++ rest)) := by
  cases cs with
  | nil =>
    obtain ⟨c, rest, rfl, rfl | rfl⟩ := stop <;> rfl
  | cons c cs =>
    by_cases point : c = '.'
    · subst point
      simp only [List.cons_append, takeFraction, takeDigits_append cs stop]
      rcases takeDigits cs with ⟨_ | ⟨d, ds⟩, after⟩ <;> rfl
    · simp [takeFraction, point]

theorem takeSign_append (cs : List Char) {rest : List Char} (stop : Stops rest) :
    takeSign (cs ++ rest) = ((takeSign cs).1, (takeSign cs).2 ++ rest) := by
  cases cs with
  | nil =>
    obtain ⟨c, rest, rfl, rfl | rfl⟩ := stop <;> rfl
  | cons c cs =>
    by_cases plus : c = '+'
    · subst plus; rfl
    · by_cases minus : c = '-'
      · subst minus; rfl
      · simp [takeSign, plus, minus]

theorem takeExponent_append (cs : List Char) {rest : List Char} (stop : Stops rest) :
    takeExponent (cs ++ rest) = (takeExponent cs).map (fun p => (p.1, p.2 ++ rest)) := by
  cases cs with
  | nil =>
    obtain ⟨c, rest, rfl, rfl | rfl⟩ := stop <;> rfl
  | cons c cs =>
    simp only [List.cons_append, takeExponent]
    split
    · rw [takeSign_append cs stop]
      dsimp only
      rw [takeDigits_append _ stop]
      rcases takeDigits (takeSign cs).2 with ⟨_ | ⟨d, ds⟩, after⟩ <;> rfl
    · rfl

theorem takeNumeral_append (negative : Bool) (cs : List Char) {rest : List Char}
    (stop : Stops rest) : takeNumeral negative (cs ++ rest) =
      (takeNumeral negative cs).map (fun p => (p.1, p.2 ++ rest)) := by
  simp only [takeNumeral, takeWhole_append cs stop]
  cases takeWhole cs with
  | none => rfl
  | some whole =>
    simp only [Option.map_some, Option.bind_eq_bind, Option.bind_some,
      takeFraction_append _ stop]
    cases takeFraction whole.2 with
    | none => rfl
    | some fraction =>
      simp only [Option.map_some, Option.bind_some, takeExponent_append _ stop]
      cases takeExponent fraction.2 <;> rfl

theorem digitValue_digitChar {d : Nat} (small : d < 10) : digitValue d.digitChar = some d := by
  have all : ∀ e : Fin 10, digitValue (Nat.digitChar e.val) = some e.val := by decide
  exact all ⟨d, small⟩

theorem takeDigits_concat {cs : List Char} {ds : List Nat} {c : Char} {d : Nat}
    (digits : takeDigits cs = (ds, [])) (digit : digitValue c = some d) :
    takeDigits (cs ++ [c]) = (ds ++ [d], []) := by
  induction cs generalizing ds with
  | nil =>
    cases digits
    simp only [List.nil_append, takeDigits, digit]
  | cons b cs ih =>
    simp only [List.cons_append, takeDigits] at digits ⊢
    cases value : digitValue b with
    | none =>
      rw [value] at digits
      cases digits
    | some e =>
      rw [value] at digits
      cases rest : takeDigits cs with
      | mk es after =>
        rw [rest] at digits
        cases digits
        rw [ih rest]
        rfl

end Draft

namespace Numeral

theorem natUpTo_concat (limit : Nat) (ds : List Nat) (d : Nat) :
    natUpTo limit (ds ++ [d]) = min limit (natUpTo limit ds * 10 + d) := by
  rw [natUpTo, List.foldl_append]
  rfl

end Numeral

structure Spells (ds : List Nat) (n : Nat) : Prop where
  value : ∀ limit, Numeral.natUpTo limit ds = min limit n
  start : ∃ d rest, ds = d :: rest ∧ (d = 0 → rest = [])

theorem takeDigits_toDigits (n : Nat) :
    ∃ ds, Draft.takeDigits (Nat.toDigits 10 n) = (ds, []) ∧ Spells ds n := by
  induction n using Nat.strongRecOn with
  | ind n ih =>
    by_cases small : n < 10
    · refine ⟨[n], ?_, ?_, n, [], rfl, fun _ => rfl⟩
      · simp only [Nat.toDigits_of_lt_base small, Draft.takeDigits,
          Draft.digitValue_digitChar small]
      · intro limit
        simp [Numeral.natUpTo]
    · obtain ⟨ds, digits, spells, d, rest, rfl, zero⟩ := ih (n / 10) (by omega)
      rw [Nat.toDigits_of_base_le (by omega) (by omega)]
      refine ⟨(d :: rest) ++ [n % 10], Draft.takeDigits_concat digits
        (Draft.digitValue_digitChar (by omega)), ?_, d, rest ++ [n % 10], rfl, ?_⟩
      · intro limit
        rw [Numeral.natUpTo_concat, spells]
        omega
      · rintro rfl
        rw [zero rfl] at spells
        have big := spells 1
        have nothing : Numeral.natUpTo 1 [0] = 0 := rfl
        omega

/-- The reader takes a number from the text that is written for it. -/
def Number.ReadsBack (n : Number) : Prop :=
  Draft.takeScalar n.text.toList = (.number (some n), some [])

namespace Draft

theorem takeScalar_numeral {c : Char} (digit : (digitValue c).isSome) (cs : List Char) :
    takeScalar (c :: cs) = match takeNumeral false (c :: cs) with
      | some (n, rest) => (ofNumeral n, some rest)
      | none => (.broken, none) := by
  unfold takeScalar
  split
  case h_6 => rfl
  all_goals
    rename_i start
    rw [(List.cons.inj start).1] at digit
    exact absurd digit (by decide)

theorem digit_of_takeNumeral {negative : Bool} {cs rest : List Char} {n : Numeral}
    (taken : takeNumeral negative cs = some (n, rest)) :
    ∃ c tail, cs = c :: tail ∧ (digitValue c).isSome := by
  cases cs with
  | nil => cases taken
  | cons c tail =>
    refine ⟨c, tail, rfl, ?_⟩
    cases value : digitValue c with
    | some _ => rfl
    | none =>
      simp only [takeNumeral, takeWhole, takeDigits, value] at taken
      cases taken

theorem takeScalar_number {cs : List Char} {n : Number}
    (read : takeScalar cs = (.number (some n), some [])) :
    ∃ negative body m, takeNumeral negative body = some (m, []) ∧ m.value? = some n ∧
      cs = if negative then '-' :: body else body := by
  have numeral {negative : Bool} {body : List Char}
      (h : (match takeNumeral negative body with
        | some (n, rest) => (ofNumeral n, some rest)
        | none => (.broken, none)) = (Draft.number (some n), some [])) :
      ∃ m, takeNumeral negative body = some (m, []) ∧ m.value? = some n := by
    cases taken : takeNumeral negative body with
    | none => rw [taken] at h; cases h
    | some p =>
      rw [taken] at h
      simp only [ofNumeral, Prod.mk.injEq, Draft.number.injEq, Option.some.injEq] at h
      exact ⟨p.1, by rw [← h.2], h.1⟩
  unfold takeScalar at read
  split at read
  case h_4 rest =>
    obtain ⟨m, taken, value⟩ := numeral read
    exact ⟨true, rest, m, taken, value, rfl⟩
  case h_6 =>
    obtain ⟨m, taken, value⟩ := numeral read
    exact ⟨false, cs, m, taken, value, rfl⟩
  all_goals
    exfalso
    dsimp only at read
    split at read <;> cases read

end Draft

namespace Number

variable {n : Number}

theorem takeScalar_append (reads : n.ReadsBack) {rest : List Char} (stop : Draft.Stops rest) :
    Draft.takeScalar (n.text.toList ++ rest) = (.number (some n), some rest) := by
  obtain ⟨negative, body, m, taken, value, text⟩ := Draft.takeScalar_number reads
  have appended : Draft.takeNumeral negative (body ++ rest) = some (m, rest) := by
    rw [Draft.takeNumeral_append negative body stop, taken]
    rfl
  cases negative with
  | true =>
    have result : Draft.takeScalar ('-' :: (body ++ rest)) = (.number (some n), some rest) := by
      simp only [Draft.takeScalar, appended, Draft.ofNumeral, value]
    rw [text]
    exact result
  | false =>
    obtain ⟨c, tail, rfl, digit⟩ := Draft.digit_of_takeNumeral taken
    have result : Draft.takeScalar (c :: (tail ++ rest)) = (.number (some n), some rest) := by
      rw [Draft.takeScalar_numeral digit, ← List.cons_append, appended]
      simp only [Draft.ofNumeral, value]
    rw [text]
    exact result

theorem text_start (reads : n.ReadsBack) : ∃ c rest, n.text.toList = c :: rest ∧
    ∀ d, d ≠ '-' → Draft.digitValue d = none → c ≠ d := by
  obtain ⟨negative, body, m, taken, -, text⟩ := Draft.takeScalar_number reads
  cases negative with
  | true => exact ⟨'-', body, text, fun d other _ => other.symm⟩
  | false =>
    obtain ⟨c, tail, rfl, digit⟩ := Draft.digit_of_takeNumeral taken
    refine ⟨c, tail, text, ?_⟩
    rintro d - none rfl
    rw [none] at digit
    cases digit

end Number

theorem Number.nat_readsBack {n : Nat} (small : n ≤ Numeral.greatestWord) :
    (Number.integer n).ReadsBack := by
  obtain ⟨ds, digits, spells, d, rest, rfl, zero⟩ := takeDigits_toDigits n
  have text : (Number.integer n).text.toList = Nat.toDigits 10 n := Nat.toList_repr
  rw [ReadsBack, text]
  cases written : Nat.toDigits 10 n with
  | nil => exact absurd written Nat.toDigits_ne_nil
  | cons c cs =>
    rw [written] at digits
    have digit : (Draft.digitValue c).isSome := by
      cases value : Draft.digitValue c with
      | none => simp only [Draft.takeDigits, value] at digits; cases digits
      | some _ => rfl
    have whole : Draft.takeWhole (c :: cs) = some (d :: rest, []) := by
      rw [Draft.takeWhole, digits]
      cases d with
      | zero =>
        rw [zero rfl]
        rfl
      | succ d => rfl
    have numeral : Draft.takeNumeral false (c :: cs) =
        some (⟨false, d :: rest, none, none⟩, []) := by
      rw [Draft.takeNumeral, whole]
      rfl
    rw [Draft.takeScalar_numeral digit, numeral]
    have value : Numeral.natUpTo UInt64.size (d :: rest) = n := by
      rw [spells]
      exact Nat.min_eq_right (Nat.le_trans small (Nat.sub_le _ _))
    simp [Draft.ofNumeral, Numeral.value?, value, small]

end ExtensionLock
