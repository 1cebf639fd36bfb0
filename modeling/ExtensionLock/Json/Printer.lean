import ExtensionLock.Json.Numeral

/-! Writing JSON: compact, or with every item on a line of its own. Text is written as it is, but
for quotes, backslashes and control characters. -/

namespace ExtensionLock.Json

def hexDigit (n : Nat) : Char := if n < 10 then Char.ofNat (48 + n) else Char.ofNat (87 + n)

def escapeChar (c : Char) : List Char :=
  if c = '"' then ['\\', '"']
  else if c = '\\' then ['\\', '\\']
  else if c = '\n' then ['\\', 'n']
  else if c = '\r' then ['\\', 'r']
  else if c = '\t' then ['\\', 't']
  else if c = '\x08' then ['\\', 'b']
  else if c = '\x0c' then ['\\', 'f']
  else if c.toNat < 0x20 then
    ['\\', 'u', '0', '0', hexDigit (c.toNat / 16), hexDigit (c.toNat % 16)]
  else [c]

def escape : List Char → List Char
  | [] => []
  | c :: rest => escapeChar c ++ escape rest

def quoted (s : String) : List Char := '"' :: (escape s.toList ++ ['"'])

mutual

def compactChars : Json → List Char
  | .null => ['n', 'u', 'l', 'l']
  | .bool true => ['t', 'r', 'u', 'e']
  | .bool false => ['f', 'a', 'l', 's', 'e']
  | .number n => n.text.toList
  | .string s => quoted s
  | .array items => '[' :: compactItems items
  | .object fields => '{' :: compactFields fields

def compactItems : List Json → List Char
  | [] => [']']
  | [v] => compactChars v ++ [']']
  | v :: rest => compactChars v ++ ',' :: compactItems rest

def compactFields : List (String × Json) → List Char
  | [] => ['}']
  | [(k, v)] => quoted k ++ ':' :: (compactChars v ++ ['}'])
  | (k, v) :: rest => quoted k ++ ':' :: (compactChars v ++ ',' :: compactFields rest)

end

def newLine (level : Nat) : List Char := '\n' :: List.replicate (2 * level) ' '

def lead (level : Nat) (first : Bool) : List Char :=
  if first then newLine level else ',' :: newLine level

mutual

def prettyChars (level : Nat) : Json → List Char
  | .null => ['n', 'u', 'l', 'l']
  | .bool true => ['t', 'r', 'u', 'e']
  | .bool false => ['f', 'a', 'l', 's', 'e']
  | .number n => n.text.toList
  | .string s => quoted s
  | .array items => if items.isEmpty then ['[', ']'] else '[' :: prettyItems level true items
  | .object fields => if fields.isEmpty then ['{', '}'] else '{' :: prettyFields level true fields

def prettyItems (level : Nat) (first : Bool) : List Json → List Char
  | [] => newLine level ++ [']']
  | v :: rest =>
    lead (level + 1) first ++ (prettyChars (level + 1) v ++ prettyItems level false rest)

def prettyFields (level : Nat) (first : Bool) : List (String × Json) → List Char
  | [] => newLine level ++ ['}']
  | (k, v) :: rest =>
    lead (level + 1) first ++
      (quoted k ++ ':' :: ' ' :: (prettyChars (level + 1) v ++ prettyFields level false rest))

end

def compact (v : Json) : String := String.ofList (compactChars v)

def pretty (v : Json) : String := String.ofList (prettyChars 0 v)

end ExtensionLock.Json
