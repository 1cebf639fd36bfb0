import ExtensionLock.Decimal.Binary64

/-! JSON values. An object keeps its fields as a list; a canonical object has them sorted by name,
each name once. Integers and floating-point numbers are different values, and the two zeros of
floating point are the same value though they print differently. -/

namespace ExtensionLock

inductive Number where
  | integer (i : Int)
  | float (x : Binary64)
  deriving DecidableEq, Repr

inductive Json where
  | null
  | bool (b : Bool)
  | number (n : Number)
  | string (s : String)
  | array (items : List Json)
  | object (fields : List (String × Json))
  deriving Repr, Inhabited

namespace Number

def same : Number → Number → Bool
  | .integer i, .integer j => i == j
  | .float x, .float y => x.same y
  | _, _ => false

instance : BEq Number := ⟨same⟩

def natural? : Number → Option Nat
  | .integer i => if 0 ≤ i then some i.toNat else none
  | .float _ => none

end Number

namespace Json

mutual

def same : Json → Json → Bool
  | .null, .null => true
  | .bool a, .bool b => a == b
  | .number m, .number n => m == n
  | .string s, .string t => s == t
  | .array l, .array m => sameItems l m
  | .object l, .object m => sameFields l m
  | _, _ => false

def sameItems : List Json → List Json → Bool
  | [], [] => true
  | a :: l, b :: m => same a b && sameItems l m
  | _, _ => false

def sameFields : List (String × Json) → List (String × Json) → Bool
  | [], [] => true
  | (k, a) :: l, (j, b) :: m => k == j && same a b && sameFields l m
  | _, _ => false

end

instance : BEq Json := ⟨same⟩

def field? (name : String) : Json → Option Json
  | .object fields => (fields.find? (fun f => f.1 == name)).map Prod.snd
  | _ => none

def nat (n : Nat) : Json := .number (.integer n)

mutual

def mapTexts (f : String → String) : Json → Json
  | .string s => .string (f s)
  | .array items => .array (mapItems f items)
  | .object fields => .object (mapFields f fields)
  | v => v

def mapItems (f : String → String) : List Json → List Json
  | [] => []
  | v :: rest => mapTexts f v :: mapItems f rest

def mapFields (f : String → String) : List (String × Json) → List (String × Json)
  | [] => []
  | (k, v) :: rest => (k, mapTexts f v) :: mapFields f rest

end

def failure (kind : String) (extra : List (String × Json)) : Json :=
  .object (("error", .string kind) :: extra)

def optionalString : Option String → Json
  | some s => .string s
  | none => .null

end Json

end ExtensionLock
