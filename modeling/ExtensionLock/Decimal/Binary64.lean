/-! Binary floating-point numbers of 64 bits, in exact arithmetic. Every operation works out the
exact rational result and rounds it once to the nearest number, a half going to the even
neighbour. -/

namespace ExtensionLock

/-- A finite number `± mantissa · 2 ^ exponent`. Numbers made by rounding have a mantissa below
`2 ^ 53`, at least `2 ^ 52` unless the exponent is the least one. Zero has a sign. -/
structure Binary64 where
  negative : Bool
  mantissa : Nat
  exponent : Int
  deriving DecidableEq, Repr

inductive Extended where
  | finite (x : Binary64)
  | infinite (negative : Bool)
  | nan
  deriving DecidableEq, Repr

namespace Binary64

def leastMantissa : Nat := Nat.pow 2 52

def leastExponent : Int := -1074
def greatestExponent : Int := 971

def zero (negative : Bool) : Binary64 := ⟨negative, 0, leastExponent⟩

def isZero (x : Binary64) : Bool := x.mantissa == 0

def same (x y : Binary64) : Bool := (x.isZero && y.isZero) || x == y

def divideNearest (num den : Nat) : Nat :=
  let q := num / den
  let twice := 2 * (num % den)
  if twice < den ∨ (twice = den ∧ q % 2 = 0) then q else q + 1

def shiftRatio (num den : Nat) (e : Int) : Nat × Nat :=
  if e ≤ 0 then (num * Nat.pow 2 (-e).toNat, den) else (num, den * Nat.pow 2 e.toNat)

/-- The exponent that puts `num / den` between `2 ^ 52` and `2 ^ 53`, but not below the least. -/
def scaleOf (num den : Nat) : Int :=
  let guess : Int := (Nat.log2 num : Int) - Nat.log2 den - 52
  let scaled := shiftRatio num den guess
  let exact := if scaled.1 < scaled.2 * leastMantissa then guess - 1 else guess
  max exact leastExponent

def ofRatio (negative : Bool) (num den : Nat) : Extended :=
  if num = 0 then .finite (zero negative)
  else
    let e := scaleOf num den
    let scaled := shiftRatio num den e
    let m := divideNearest scaled.1 scaled.2
    let (m, e) := if m = 2 * leastMantissa then (leastMantissa, e + 1) else (m, e)
    if e > greatestExponent then .infinite negative else .finite ⟨negative, m, e⟩

def toRatio (x : Binary64) : Nat × Nat :=
  if 0 ≤ x.exponent then (x.mantissa * Nat.pow 2 x.exponent.toNat, 1)
  else (x.mantissa, Nat.pow 2 (-x.exponent).toNat)

def ofNat (n : Nat) : Extended := ofRatio false n 1

def ofInt (i : Int) : Extended := ofRatio (decide (i < 0)) i.natAbs 1

def mul (x y : Binary64) : Extended :=
  let a := x.toRatio
  let b := y.toRatio
  ofRatio (x.negative != y.negative) (a.1 * b.1) (a.2 * b.2)

def div (x y : Binary64) : Extended :=
  let a := x.toRatio
  let b := y.toRatio
  ofRatio (x.negative != y.negative) (a.1 * b.2) (a.2 * b.1)

def addMagnitudes (x y : Binary64) : Extended :=
  let a := x.toRatio
  let b := y.toRatio
  ofRatio false (a.1 * b.2 + b.1 * a.2) (a.2 * b.2)

def negate (x : Binary64) : Binary64 := { x with negative := !x.negative }

def one : Binary64 := ⟨false, leastMantissa, -52⟩

def powerOfTen (n : Nat) : Binary64 :=
  match ofRatio false (Nat.pow 10 n) 1 with
  | .finite x => x
  | _ => zero false

end Binary64

namespace Extended

def isPositive : Extended → Bool
  | .finite x => !x.negative && !x.isZero
  | _ => false

def isFinite : Extended → Bool
  | .finite _ => true
  | _ => false

def same : Extended → Extended → Bool
  | .finite x, .finite y => x.same y
  | .infinite a, .infinite b => a == b
  | _, _ => false

instance : BEq Extended := ⟨same⟩

end Extended

end ExtensionLock
