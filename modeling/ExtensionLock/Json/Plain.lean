import ExtensionLock.Decimal.Binary64
import ExtensionLock.Text.Split

/-! Words without quotes, as configuration files write them. The same word may be a number to one
reader and a name to another. -/

namespace ExtensionLock.Plain

def isNull (word : String) : Bool :=
  word = "" ∨ word = "~" ∨ word = "null" ∨ word = "Null" ∨ word = "NULL"

def digitValue (c : Char) : Option Nat :=
  if '0' ≤ c ∧ c ≤ '9' then some (c.toNat - 48)
  else if 'a' ≤ c ∧ c ≤ 'f' then some (c.toNat - 87)
  else if 'A' ≤ c ∧ c ≤ 'F' then some (c.toNat - 55)
  else none

def digits? (base : Nat) (cs : List Char) : Option Nat :=
  if cs.isEmpty then none
  else cs.foldl (fun acc c => do
    let n ← acc
    let d ← digitValue c
    if d < base then some (n * base + d) else none) (some 0)

def dropPlus : List Char → List Char
  | '+' :: rest => rest
  | cs => cs

def natural? (word : String) : Option Nat :=
  match dropPlus word.toList with
  | '0' :: 'x' :: rest => digits? 16 rest
  | '0' :: 'o' :: rest => digits? 8 rest
  | '0' :: 'b' :: rest => digits? 2 rest
  | '0' :: _ :: _ => none
  | cs => digits? 10 cs

def exponent? (cs : List Char) : Option Int :=
  match cs with
  | '-' :: rest => (digits? 10 rest).map (fun n => -(n : Int))
  | '+' :: rest => (digits? 10 rest).map (fun n => (n : Int))
  | cs => (digits? 10 cs).map (fun n => (n : Int))

def nearest (negative : Bool) (digits : Nat) (power : Int) : Extended :=
  let size := (Nat.repr digits).length
  if digits = 0 then .finite (Binary64.zero negative)
  else if power + size > 400 then .infinite negative
  else if power + size < -400 then .finite (Binary64.zero negative)
  else if 0 ≤ power then Binary64.ofRatio negative (digits * Nat.pow 10 power.toNat) 1
  else Binary64.ofRatio negative digits (Nat.pow 10 (-power).toNat)

/-- A decimal without sign: digits on at least one side of an optional point, and an optional
exponent. -/
def decimal? (negative : Bool) (cs : List Char) : Option Extended := do
  let (mantissa, power) ← match Text.cutAt 'e' (cs.map (fun c => if c = 'E' then 'e' else c)) with
    | some (m, e) => (exponent? e).map (fun p => (m, p))
    | none => some (cs, 0)
  let (whole, part) := match Text.cutAt '.' mantissa with
    | some (w, p) => (w, p)
    | none => (mantissa, [])
  let digits ← digits? 10 (whole ++ part)
  some (nearest negative digits (power - part.length))

def float? (word : String) : Option Extended :=
  let unsigned := dropPlus word.toList
  let text := String.ofList unsigned
  if text = ".inf" ∨ text = ".Inf" ∨ text = ".INF" then some (.infinite false)
  else if word = "-.inf" ∨ word = "-.Inf" ∨ word = "-.INF" then some (.infinite true)
  else if word = ".nan" ∨ word = ".NaN" ∨ word = ".NAN" then some .nan
  else
    let value := match unsigned with
      | '-' :: rest => if unsigned.length = word.length then decimal? true rest else none
      | cs => decimal? false cs
    match value with
    | some (.finite x) => some (.finite x)
    | _ => none

end ExtensionLock.Plain
