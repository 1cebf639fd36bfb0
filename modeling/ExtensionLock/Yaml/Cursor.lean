import ExtensionLock.Text.Split

/-! A place in a configuration file: what follows it, and where it stands. Indentation and the
length of a key are measured by places, so every step forward keeps count. -/

namespace ExtensionLock.Yaml

structure Cursor where
  rest : List Char
  index : Nat
  line : Nat
  column : Nat
  deriving DecidableEq, Repr

def isBlank (c : Char) : Bool := c == ' ' || c == '\t'

def isBreak (c : Char) : Bool :=
  c == '\n' || c == '\r' || c == '\u0085' || c == '\u2028' || c == '\u2029'

def startsApart : List Char → Bool
  | [] => true
  | c :: _ => isBlank c || isBreak c

def isAllowed (c : Char) : Bool :=
  let n := c.toNat
  n == 0x9 || n == 0xA || n == 0xD || (0x20 ≤ n && n ≤ 0x7E) || n == 0x85 ||
    (0xA0 ≤ n && n ≤ 0xD7FF) || (0xE000 ≤ n && n ≤ 0xFFFD) || 0x10000 ≤ n

namespace Cursor

def ofText (text : String) : Cursor := ⟨text.toList, 0, 0, 0⟩

def skip (c : Cursor) (n : Nat) : Cursor :=
  { c with rest := c.rest.drop n, index := c.index + n, column := c.column + n }

def next (c : Cursor) : Cursor := c.skip 1

def nextLine (c : Cursor) : Cursor :=
  let n := match c.rest with
    | '\r' :: '\n' :: _ => 2
    | _ => 1
  ⟨c.rest.drop n, c.index + n, c.line + 1, 0⟩

def lineEnd (c : Cursor) : Cursor := c.skip (c.rest.takeWhile (fun d => !isBreak d)).length

def atMark (c : Cursor) : Bool :=
  c.column == 0 && match c.rest with
    | '-' :: '-' :: '-' :: after => startsApart after
    | '.' :: '.' :: '.' :: after => startsApart after
    | _ => false

def skipSilence (flow : Bool) : Nat → Bool → Cursor → Bool × Cursor
  | 0, keys, c => (keys, c)
  | fuel + 1, keys, c =>
    match c.rest with
    | [] => (keys, c)
    | d :: _ =>
      if d == ' ' || (d == '\t' && (flow || !keys)) || (d == '\uFEFF' && c.column == 0) then
        skipSilence flow fuel keys c.next
      else if d == '#' then skipSilence flow fuel keys c.lineEnd
      else if isBreak d then skipSilence flow fuel (keys || !flow) c.nextLine
      else (keys, c)

end Cursor

end ExtensionLock.Yaml
