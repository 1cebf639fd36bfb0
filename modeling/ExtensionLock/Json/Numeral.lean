import ExtensionLock.Json.Basic
import ExtensionLock.Decimal.Shortest

/-! Numbers as they are written. A numeral without fraction and exponent is an integer while it
fits in 64 bits. Every other numeral is read as a floating-point number: as many leading digits
as fit in 64 bits form a whole number, which is rounded and then scaled by one power of ten. -/

namespace ExtensionLock

structure Numeral where
  negative : Bool
  whole : List Nat
  fraction : Option (List Nat)
  /-- whether the exponent is negative, and its digits -/
  exponent : Option (Bool × List Nat)
  deriving DecidableEq, Repr

namespace Numeral

def greatestWord : Nat := UInt64.size - 1

def takeDigits : Nat → List Nat → Nat × List Nat
  | n, [] => (n, [])
  | n, d :: rest =>
    if n * 10 + d ≤ greatestWord then takeDigits (n * 10 + d) rest else (n, d :: rest)

def natUpTo (limit : Nat) (ds : List Nat) : Nat :=
  ds.foldl (fun n d => min limit (n * 10 + d)) 0

def topPower : Nat := 308

/-- Scales a number by a power of ten: one multiplication or division for powers up to 308, and
divisions by `10 ^ 308` before it when the power is smaller. `none` past the greatest number.
Two such divisions take every 64-bit number to zero, so the fuel of `scale` is enough. -/
def scaleWithin : Nat → Binary64 → Int → Option Binary64
  | 0, _, _ => some (Binary64.zero false)
  | fuel + 1, x, power =>
    if power.natAbs ≤ topPower then
      let p := Binary64.powerOfTen power.natAbs
      match if 0 ≤ power then x.mul p else x.div p with
      | .finite y => some y
      | _ => none
    else if x.isZero then some x
    else if 0 ≤ power then none
    else match x.div (Binary64.powerOfTen topPower) with
      | .finite y => scaleWithin fuel y (power + topPower)
      | _ => none

def scale (x : Binary64) (power : Int) : Option Binary64 := scaleWithin 3 x power

/-- The exponent as a number, where what does not fit in 32 bits counts as beyond all numbers:
`none` if the value is then out of range. -/
def exponentValue (n : Numeral) (significant : Bool) (start : Int) : Option (Option Int) :=
  match n.exponent with
  | none => some (some start)
  | some (down, ds) =>
    let e := natUpTo (Nat.pow 2 31) ds
    if e < Nat.pow 2 31 then some (some (if down then start - e else start + e))
    else if significant && !down then none else some none

def float? (n : Numeral) : Option Binary64 :=
  let (word, cut) := takeDigits 0 n.whole
  let (word, past) := takeDigits word (n.fraction.getD [])
  let places : Int := ((n.fraction.getD []).length : Int) - past.length
  let start : Int := cut.length - places
  let x := match Binary64.ofNat word with
    | .finite x => x
    | _ => Binary64.zero false
  let magnitude := match exponentValue n (word != 0) start with
    | none => none
    | some none => some (Binary64.zero false)
    | some (some power) => scale x power
  magnitude.map (fun y => if n.negative then y.negate else y)

def value? (n : Numeral) : Option Number :=
  match n.fraction, n.exponent with
  | none, none =>
    let i := natUpTo UInt64.size n.whole
    if n.negative then
      if 0 < i ∧ i ≤ Nat.pow 2 63 then some (.integer (-i)) else n.float?.map .float
    else if i ≤ greatestWord then some (.integer i) else n.float?.map .float
  | _, _ => n.float?.map .float

end Numeral

def Number.text : Number → String
  | .integer i => toString i
  | .float x => Decimal.dataText x

end ExtensionLock
