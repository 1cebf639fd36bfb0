import ExtensionLock.Json.Draft
import ExtensionLock.SortedMap

/-! Documents read into values as a whole. A value from a text is canonical: fields are sorted by
name, and of two fields of one name the later stands. -/

namespace ExtensionLock

def Json.depthLimit : Nat := 127

/-- Where a draft comes from: straight from a JSON text, with the depth that is left, from a value,
or from a configuration file in words. -/
inductive Origin where
  | text (depth : Nat)
  | value
  | words
  deriving DecidableEq, Repr

namespace Origin

def isText : Origin → Bool
  | .text _ => true
  | _ => false

def enter? : Origin → Option Origin
  | .text 0 => none
  | .text (depth + 1) => some (.text depth)
  | .value => some .value
  | .words => some .words

end Origin

namespace Draft

mutual

/-- The value of a draft that is whole, is not nested too deeply, and holds nothing out of range. -/
def value? (o : Origin) : Draft → Option Json
  | .null => some .null
  | .bool b => some (.bool b)
  | .number n => n.map .number
  | .string s => s.map .string
  | .array items ending =>
    match o.enter?, ending with
    | some inner, .closed => (values? inner items).map .array
    | _, _ => none
  | .object fields ending =>
    match o.enter?, ending with
    | some inner, .closed =>
      (fieldValues? inner fields).map (fun l => .object (SortedMap.ofList l).entries)
    | _, _ => none
  | .plain _ => none
  | .broken => none

def values? (o : Origin) : List Draft → Option (List Json)
  | [] => some []
  | v :: rest => do
    let x ← value? o v
    let l ← values? o rest
    some (x :: l)

def fieldValues? (o : Origin) : List (Option String × Draft) → Option (List (String × Json))
  | [] => some []
  | (k, v) :: rest => do
    let k ← k
    let x ← value? o v
    let l ← fieldValues? o rest
    some ((k, x) :: l)

end

mutual

def ofJson : Json → Draft
  | .null => .null
  | .bool b => .bool b
  | .number n => .number (some n)
  | .string s => .string (some s)
  | .array items => .array (ofItems items) .closed
  | .object fields => .object (ofFields fields) .closed

def ofItems : List Json → List Draft
  | [] => []
  | v :: rest => ofJson v :: ofItems rest

def ofFields : List (String × Json) → List (Option String × Draft)
  | [] => []
  | (k, v) :: rest => (some k, ofJson v) :: ofFields rest

end

end Draft

def Json.parse? (text : String) : Option Json :=
  match Draft.ofText text with
  | (v, true) => v.value? (.text depthLimit)
  | (_, false) => none

end ExtensionLock
