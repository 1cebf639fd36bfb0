import ExtensionLock.Json.Numeral

/-! A JSON document as far as it can be read. Reading never fails: where the text leaves the
grammar the draft breaks off, and who needs the missing part finds out there. So a reader of
typed data meets errors in the order of the text, and skips what it does not need. -/

namespace ExtensionLock

inductive Ending where
  | closed
  | broken
  deriving DecidableEq, Repr

inductive Draft where
  | null
  | bool (b : Bool)
  /-- a numeral, and its number unless that is out of range -/
  | number (n : Option Number)
  /-- a quoted text, unless its escapes spell half a character -/
  | string (s : Option String)
  | array (items : List Draft) (ending : Ending)
  | object (fields : List (Option String × Draft)) (ending : Ending)
  /-- a word without quotes, which means what its reader takes it for; no JSON text has one -/
  | plain (word : String)
  /-- the grammar allows nothing that stands here -/
  | broken
  deriving Repr, Inhabited

namespace Draft

def isSpace (c : Char) : Bool := c = ' ' ∨ c = '\n' ∨ c = '\t' ∨ c = '\r'

def skipSpace (cs : List Char) : List Char := cs.dropWhile isSpace

def digitValue (c : Char) : Option Nat :=
  if '0' ≤ c ∧ c ≤ '9' then some (c.toNat - 48) else none

def takeDigits : List Char → List Nat × List Char
  | [] => ([], [])
  | c :: rest =>
    match digitValue c with
    | some d => let (ds, after) := takeDigits rest; (d :: ds, after)
    | none => ([], c :: rest)

def takeWhole (cs : List Char) : Option (List Nat × List Char) :=
  match takeDigits cs with
  | ([], _) => none
  | (0 :: _ :: _, _) => none
  | (ds, rest) => some (ds, rest)

def takeFraction : List Char → Option (Option (List Nat) × List Char)
  | '.' :: rest =>
    match takeDigits rest with
    | ([], _) => none
    | (ds, after) => some (some ds, after)
  | cs => some (none, cs)

def takeSign : List Char → Bool × List Char
  | '+' :: rest => (false, rest)
  | '-' :: rest => (true, rest)
  | cs => (false, cs)

def takeExponent (cs : List Char) : Option (Option (Bool × List Nat) × List Char) :=
  match cs with
  | c :: rest =>
    if c = 'e' ∨ c = 'E' then
      let (down, rest) := takeSign rest
      match takeDigits rest with
      | ([], _) => none
      | (ds, after) => some (some (down, ds), after)
    else some (none, c :: rest)
  | [] => some (none, [])

def takeNumeral (negative : Bool) (cs : List Char) : Option (Numeral × List Char) := do
  let (whole, cs) ← takeWhole cs
  let (fraction, cs) ← takeFraction cs
  let (exponent, cs) ← takeExponent cs
  some (⟨negative, whole, fraction, exponent⟩, cs)

def hexValue (c : Char) : Option Nat :=
  if '0' ≤ c ∧ c ≤ '9' then some (c.toNat - 48)
  else if 'a' ≤ c ∧ c ≤ 'f' then some (c.toNat - 87)
  else if 'A' ≤ c ∧ c ≤ 'F' then some (c.toNat - 55)
  else none

/-- A part of a quoted text: a character, or the code unit of a four-digit escape. -/
inductive Piece where
  | char (c : Char)
  | unit (n : Nat)
  deriving DecidableEq, Repr

def simpleEscape (c : Char) : Option Char :=
  if c = '"' then some '"'
  else if c = '\\' then some '\\'
  else if c = '/' then some '/'
  else if c = 'b' then some '\x08'
  else if c = 'f' then some '\x0c'
  else if c = 'n' then some '\n'
  else if c = 'r' then some '\r'
  else if c = 't' then some '\t'
  else none

def takePieces : List Char → Option (List Piece × List Char)
  | [] => none
  | '"' :: rest => some ([], rest)
  | '\\' :: 'u' :: a :: b :: c :: d :: rest => do
    let n := (← hexValue a) * 4096 + (← hexValue b) * 256 + (← hexValue c) * 16 + (← hexValue d)
    let (ps, after) ← takePieces rest
    some (.unit n :: ps, after)
  | '\\' :: c :: rest => do
    let e ← simpleEscape c
    let (ps, after) ← takePieces rest
    some (.char e :: ps, after)
  | c :: rest =>
    if c.toNat < 0x20 ∨ c = '\\' then none
    else do
      let (ps, after) ← takePieces rest
      some (.char c :: ps, after)

/-- Puts pieces together; two units that are halves of one character become it, and a half on its
own spoils the text. -/
def joinPieces : List Piece → Option (List Char)
  | [] => some []
  | .char c :: rest => (joinPieces rest).map (c :: ·)
  | .unit n :: rest =>
    if 0xDC00 ≤ n ∧ n < 0xE000 then none
    else if 0xD800 ≤ n ∧ n < 0xDC00 then
      match rest with
      | .unit m :: rest =>
        if 0xDC00 ≤ m ∧ m < 0xE000 then
          (joinPieces rest).map
            (Char.ofNat (0x10000 + (n - 0xD800) * 0x400 + (m - 0xDC00)) :: ·)
        else none
      | _ => none
    else (joinPieces rest).map (Char.ofNat n :: ·)

def takeString (cs : List Char) : Option (Option String × List Char) :=
  (takePieces cs).map (fun (ps, rest) => ((joinPieces ps).map String.ofList, rest))

def dropWord : List Char → List Char → Option (List Char)
  | [], cs => some cs
  | _, [] => none
  | w :: ws, c :: cs => if w = c then dropWord ws cs else none

def ofNumeral (n : Numeral) : Draft := .number n.value?

def takeScalar (cs : List Char) : Draft × Option (List Char) :=
  let word (expected : String) (v : Draft) :=
    match dropWord expected.toList cs with
    | some rest => (v, some rest)
    | none => (.broken, none)
  let numeral (negative : Bool) (cs : List Char) : Draft × Option (List Char) :=
    match takeNumeral negative cs with
    | some (n, rest) => (ofNumeral n, some rest)
    | none => (.broken, none)
  match cs with
  | 'n' :: _ => word "null" .null
  | 't' :: _ => word "true" (.bool true)
  | 'f' :: _ => word "false" (.bool false)
  | '-' :: rest => numeral true rest
  | '"' :: rest =>
    match takeString rest with
    | some (s, rest) => (.string s, some rest)
    | none => (.broken, none)
  | cs => numeral false cs

mutual

/-- The value that a text begins with. The fuel bounds the number of steps; the length of the text
is enough. -/
def takeValue : Nat → List Char → Draft × Option (List Char)
  | 0, _ => (.broken, none)
  | fuel + 1, cs =>
    match skipSpace cs with
    | '[' :: rest =>
      let (items, ending, rest) := takeItems fuel true rest
      (.array items ending, rest)
    | '{' :: rest =>
      let (fields, ending, rest) := takeFields fuel true rest; (.object fields ending, rest)
    | cs => takeScalar cs

def takeItems : Nat → Bool → List Char → List Draft × Ending × Option (List Char)
  | 0, _, _ => ([], .broken, none)
  | fuel + 1, first, cs =>
    match skipSpace cs with
    | ']' :: rest => ([], .closed, some rest)
    | cs =>
      let item := if first then some cs else match cs with
        | ',' :: rest => some rest
        | _ => none
      match item with
      | none => ([], .broken, none)
      | some cs =>
        match takeValue fuel cs with
        | (v, none) => ([v], .broken, none)
        | (v, some rest) =>
          let (items, ending, rest) := takeItems fuel false rest
          (v :: items, ending, rest)

def takeFields : Nat → Bool → List Char →
    List (Option String × Draft) × Ending × Option (List Char)
  | 0, _, _ => ([], .broken, none)
  | fuel + 1, first, cs =>
    match skipSpace cs with
    | '}' :: rest => ([], .closed, some rest)
    | cs =>
      let name := if first then some cs else match cs with
        | ',' :: rest => some (skipSpace rest)
        | _ => none
      match name with
      | none => ([], .broken, none)
      | some ('"' :: cs) =>
        match takeString cs with
        | none => ([], .broken, none)
        | some (k, cs) =>
          match skipSpace cs with
          | ':' :: cs =>
            match takeValue fuel cs with
            | (v, none) => ([(k, v)], .broken, none)
            | (v, some rest) =>
              let (fields, ending, rest) := takeFields fuel false rest
              ((k, v) :: fields, ending, rest)
          | _ => ([(k, .broken)], .broken, none)
      | some _ => ([], .broken, none)

end

def ofText (text : String) : Draft × Bool :=
  let cs := text.toList
  match takeValue (cs.length + 1) cs with
  | (v, some rest) => (v, (skipSpace rest).isEmpty)
  | (v, none) => (v, false)

end Draft

end ExtensionLock
