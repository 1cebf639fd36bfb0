import ExtensionLock.Json.Draft
import ExtensionLock.Yaml.Cursor

/-! Texts in configuration files: in double quotes, in single quotes, or as they stand. A text may
go on over lines; then an end of line counts as a space, and further ones stay. -/

namespace ExtensionLock.Yaml

def breakChar (c : Cursor) : Char :=
  match c.rest with
  | '\u2028' :: _ => '\u2028'
  | '\u2029' :: _ => '\u2029'
  | _ => '\n'

def takeGap (indent : Int) : Nat → Bool → Cursor → Option (List Char × List Char × Cursor)
  | 0, _, c => some ([], [], c)
  | fuel + 1, broken, c =>
    match c.rest with
    | [] => some ([], [], c)
    | d :: _ =>
      if isBlank d then
        if broken && d == '\t' && c.column < indent then none
        else (takeGap indent fuel broken c.next).map (fun (blanks, breaks, after) =>
          (if broken then blanks else d :: blanks, breaks, after))
      else if isBreak d then
        (takeGap indent fuel true c.nextLine).map (fun (_, breaks, after) =>
          ([], breakChar c :: breaks, after))
      else some ([], [], c)

def fold (blanks : List Char) : List Char → List Char
  | [] => blanks
  | ['\n'] => [' ']
  | '\n' :: more => more
  | breaks => breaks

def hexDigits? : Nat → List Char → Option Nat
  | 0, _ => some 0
  | _ + 1, [] => none
  | n + 1, c :: rest => do
    let d ← Draft.hexValue c
    let low ← hexDigits? n rest
    some (d * Nat.pow 16 n + low)

def namedEscape (c : Char) : Option Char :=
  [('0', '\x00'), ('a', '\x07'), ('b', '\x08'), ('t', '\t'), ('\t', '\t'), ('n', '\n'),
    ('v', '\x0b'), ('f', '\x0c'), ('r', '\r'), ('e', '\x1b'), (' ', ' '), ('"', '"'), ('/', '/'),
    ('\\', '\\'), ('N', '\u0085'), ('_', '\u00a0'), ('L', '\u2028'), ('P', '\u2029')].lookup c

def codeLength (c : Char) : Option Nat := [('x', 2), ('u', 4), ('U', 8)].lookup c

def takeEscape : List Char → Option (Char × Nat)
  | [] => none
  | c :: rest =>
    match codeLength c with
    | some n => do
      let code ← hexDigits? n rest
      if code < 0xD800 ∨ (0xE000 ≤ code ∧ code < 0x110000) then some (Char.ofNat code, n + 1)
      else none
    | none => (namedEscape c).map (fun e => (e, 1))

def takeQuoted (double : Bool) : Nat → List Char → Cursor → Option (List Char × Cursor)
  | 0, _, _ => none
  | fuel + 1, before, c =>
    if c.atMark then none
    else match c.rest with
      | [] => none
      | d :: rest =>
        if isBlank d || isBreak d then do
          let (blanks, breaks, after) ← takeGap 0 fuel false c
          takeQuoted double fuel ((fold blanks breaks).reverse ++ before) after
        else if d == '"' && double then some (before, c.next)
        else if d == '\'' && !double then
          if rest.head? = some '\'' then takeQuoted double fuel ('\'' :: before) (c.skip 2)
          else some (before, c.next)
        else if d == '\\' && double then
          if rest.head?.any isBreak then do
            let (_, breaks, after) ← takeGap 0 fuel true c.next.nextLine
            takeQuoted double fuel (breaks.reverse ++ before) after
          else do
            let (e, length) ← takeEscape rest
            takeQuoted double fuel (e :: before) (c.skip (length + 1))
        else takeQuoted double fuel (d :: before) c.next

def isFlowMark (c : Char) : Bool := [',', '[', ']', '{', '}'].contains c

def takePlain (flow : Bool) (indent : Int) : Nat → List Char → Option (List Char) → Bool →
    Cursor → Option (List Char × Bool × Cursor)
  | 0, _, _, _, _ => none
  | fuel + 1, before, gap, broken, c =>
    let done := some (before, broken, c)
    if c.atMark then done
    else match c.rest with
      | [] => done
      | d :: rest =>
        if isBlank d || isBreak d then do
          let (blanks, breaks, after) ← takeGap indent fuel false c
          if !flow && after.column < indent then some (before, !breaks.isEmpty, after)
          else takePlain flow indent fuel before (some (fold blanks breaks)) (!breaks.isEmpty) after
        else if d == '#' && gap.isSome then done
        else if d == ':' && flow && rest.head?.any (fun e => e == '?' || isFlowMark e) then none
        else if (d == ':' && startsApart rest) || (flow && isFlowMark d) then done
        else takePlain flow indent fuel (d :: ((gap.getD []).reverse ++ before)) none false c.next

def isIndicator (c : Char) : Bool :=
  ['-', '?', ':', ',', '[', ']', '{', '}', '#', '&', '*', '!', '|', '>', '\'', '"', '%', '@',
    Char.ofNat 96].contains c

def beginsPlain (flow : Bool) : List Char → Bool
  | [] => false
  | c :: rest =>
    if c == '-' then !(rest.head?.any isBlank)
    else if c == '?' || c == ':' then !flow && !startsApart rest
    else !(isBlank c || isBreak c || isIndicator c)

end ExtensionLock.Yaml
