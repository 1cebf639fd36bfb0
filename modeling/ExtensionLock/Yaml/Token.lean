import ExtensionLock.Yaml.Scalar

/-! The tokens of a configuration file. Indentation becomes tokens of its own, so that blocks and
brackets are nested alike; and a key is known as such only by the colon behind it, so its token is
put in front of it when the colon is met. -/

namespace ExtensionLock.Yaml

inductive Token where
  | documentStart
  | documentEnd
  | mappingStart
  | sequenceStart
  | blockEnd
  | fieldsOpen
  | fieldsClose
  | itemsOpen
  | itemsClose
  | comma
  | dash
  | key
  /-- a colon: the value of the last key follows -/
  | value
  | plain (word : String)
  | quoted (text : String)
  deriving DecidableEq, Repr

structure KeyStart where
  position : Nat
  place : Cursor
  required : Bool

def KeyStart.reaches (k : KeyStart) (colon : Cursor) : Bool :=
  k.place.line == colon.line && colon.index ≤ k.place.index + 1024

structure Cutting where
  cursor : Cursor
  tokens : Array Token
  blocks : List Nat
  starts : List (Option KeyStart)
  keys : Bool

namespace Cutting

def ofText (text : String) : Cutting := ⟨.ofText text, #[], [], [none], true⟩

def inFlow (s : Cutting) : Bool := !s.starts.tail.isEmpty

def indent (s : Cutting) : Int := (s.blocks.head?.map Int.ofNat).getD (-1)

def push (s : Cutting) (t : Token) (length : Nat) : Cutting :=
  { s with tokens := s.tokens.push t, cursor := s.cursor.skip length }

def closeBlocks (s : Cutting) (column : Int) : Cutting :=
  if s.inFlow then s
  else
    let closed := s.blocks.takeWhile (fun b => column < Int.ofNat b)
    { s with
      tokens := s.tokens ++ (closed.map (fun _ => Token.blockEnd)).toArray
      blocks := s.blocks.drop closed.length }

def openBlock (s : Cutting) (column position : Nat) (t : Token) : Cutting :=
  if s.inFlow || Int.ofNat column ≤ s.indent then s
  else { s with tokens := s.tokens.insertIdxIfInBounds position t, blocks := column :: s.blocks }

def dropStart (s : Cutting) : Option Cutting :=
  match s.starts with
  | some k :: rest => if k.required then none else some { s with starts := none :: rest }
  | _ => some s

def noteStart (s : Cutting) : Option Cutting :=
  if s.keys then do
    let s ← s.dropStart
    let start : KeyStart :=
      ⟨s.tokens.size, s.cursor, !s.inFlow && s.indent == Int.ofNat s.cursor.column⟩
    some { s with starts := some start :: s.starts.tail }
  else some s

def takeMark (s : Cutting) (t : Token) : Option Cutting := do
  let s ← (s.closeBlocks (-1)).dropStart
  some { s.push t 3 with keys := false }

def openBracket (s : Cutting) (t : Token) : Option Cutting := do
  let s ← s.noteStart
  some { s.push t 1 with starts := none :: s.starts, keys := true }

def closeBracket (s : Cutting) (t : Token) : Option Cutting := do
  let s ← s.dropStart
  if s.inFlow then some { s.push t 1 with starts := s.starts.tail, keys := false } else none

def takeComma (s : Cutting) : Option Cutting := do
  let s ← s.dropStart
  some { s.push .comma 1 with keys := true }

def takeDash (s : Cutting) : Option Cutting := do
  if !s.inFlow && !s.keys then none
  let s ← (s.openBlock s.cursor.column s.tokens.size .sequenceStart).dropStart
  some { s.push .dash 1 with keys := true }

def takeKey (s : Cutting) : Option Cutting := do
  if !s.inFlow && !s.keys then none
  let s ← (s.openBlock s.cursor.column s.tokens.size .mappingStart).dropStart
  some { s.push .key 1 with keys := !s.inFlow }

def takeColon (s : Cutting) : Option Cutting :=
  match s.starts.head?.join with
  | some k =>
    if k.reaches s.cursor then
      let keyed := { s with tokens := s.tokens.insertIdxIfInBounds k.position .key }
      let keyed := keyed.openBlock k.place.column k.position .mappingStart
      some { keyed.push .value 1 with starts := none :: s.starts.tail, keys := false }
    else if k.required then none
    else colonAlone s
  | none => colonAlone s
where
  /-- A colon with no key on its line. -/
  colonAlone (s : Cutting) : Option Cutting := do
    if !s.inFlow && !s.keys then none
    let s := s.openBlock s.cursor.column s.tokens.size .mappingStart
    some { s.push .value 1 with keys := !s.inFlow }

def takeText (fuel : Nat) (s : Cutting) : Option Cutting := do
  let s ← s.noteStart
  match s.cursor.rest with
  | '"' :: _ => do
    let (text, after) ← takeQuoted true fuel [] s.cursor.next
    some { s.push (.quoted (String.ofList text.reverse)) 0 with cursor := after, keys := false }
  | '\'' :: _ => do
    let (text, after) ← takeQuoted false fuel [] s.cursor.next
    some { s.push (.quoted (String.ofList text.reverse)) 0 with cursor := after, keys := false }
  | _ => do
    let (word, broken, after) ← takePlain s.inFlow (s.indent + 1) fuel [] none false s.cursor
    some { s.push (.plain (String.ofList word.reverse)) 0 with cursor := after, keys := broken }

def takeToken (fuel : Nat) (s : Cutting) : Option Cutting :=
  let s := s.closeBlocks s.cursor.column
  match s.cursor.rest with
  | [] => none
  | c :: rest =>
    if s.cursor.atMark then s.takeMark (if c == '-' then .documentStart else .documentEnd)
    else if c == '[' then s.openBracket .itemsOpen
    else if c == '{' then s.openBracket .fieldsOpen
    else if c == ']' then s.closeBracket .itemsClose
    else if c == '}' then s.closeBracket .fieldsClose
    else if c == ',' then s.takeComma
    else if c == '-' && startsApart rest then s.takeDash
    else if c == '?' && (s.inFlow || startsApart rest) then s.takeKey
    else if c == ':' && (s.inFlow || startsApart rest) then s.takeColon
    else if c == '"' || c == '\'' || beginsPlain s.inFlow s.cursor.rest then s.takeText fuel
    else none

def run : Nat → Cutting → Option (List Token)
  | 0, _ => none
  | fuel + 1, s =>
    let (keys, cursor) := s.cursor.skipSilence s.inFlow fuel s.keys
    let s := { s with keys, cursor }
    if cursor.rest.isEmpty then (s.closeBlocks (-1)).dropStart.map (fun s => s.tokens.toList)
    else (s.takeToken (fuel + 1)).bind (run fuel)

end Cutting

def tokens? (text : String) : Option (List Token) :=
  if text.toList.all isAllowed then (Cutting.ofText text).run (text.length + 1) else none

end ExtensionLock.Yaml
