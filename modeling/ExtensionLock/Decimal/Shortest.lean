import ExtensionLock.Decimal.Binary64

/-! The fewest decimal digits that read back as a given number. For one digit, two digits and so
on, the two decimals of that many digits next to the number are tried; the first count with a
decimal that rounds to the number wins, and of two such decimals the nearer. Where both are equally
near, the format decides. -/

namespace ExtensionLock.Decimal

structure Scaled where
  digits : Nat
  exponent : Int
  deriving DecidableEq, Repr

/-- Which of two equally near decimals is written. -/
inductive Tie where
  /-- the one whose last digit is even -/
  | toEven
  /-- the one with the greater magnitude -/
  | up
  deriving DecidableEq, Repr

def Tie.keepsBelow : Tie → Nat → Bool
  | .toEven, digits => digits % 2 == 0
  | .up, _ => false

/-- The numbers that round to a positive number, in units of a quarter of its last place: its own
value, the lower and upper end, and whether the ends themselves belong. -/
structure Interval where
  low : Nat
  value : Nat
  high : Nat
  exponent : Int
  closed : Bool

def roundingInterval (x : Binary64) : Interval :=
  let m := x.mantissa
  let narrow := m = Binary64.leastMantissa ∧ x.exponent ≠ Binary64.leastExponent
  { low := if narrow then 4 * m - 1 else 4 * m - 2
    value := 4 * m
    high := 4 * m + 2
    exponent := x.exponent - 2
    closed := m % 2 = 0 }

def align (n : Nat) (e : Int) (d : Nat) (p : Int) : Nat × Nat :=
  (n * Nat.pow 2 e.toNat * Nat.pow 10 (-p).toNat, d * Nat.pow 10 p.toNat * Nat.pow 2 (-e).toNat)

def Interval.holds (i : Interval) (s : Scaled) : Bool :=
  let low := align i.low i.exponent s.digits s.exponent
  let high := align i.high i.exponent s.digits s.exponent
  if i.closed then low.1 ≤ low.2 && high.2 ≤ high.1 else low.1 < low.2 && high.2 < high.1

/-- The power of ten of the leading digit: the greatest `k` with `10 ^ k ≤ n · 2 ^ e`, looked for
upwards from a first guess. -/
def leadingPower (n : Nat) (e : Int) : Nat → Int → Int
  | 0, k => k
  | fuel + 1, k =>
    let next := align n e 1 (k + 1)
    if next.2 ≤ next.1 then leadingPower n e fuel (k + 1) else k

def below (n : Nat) (e p : Int) : Nat :=
  (n * Nat.pow 2 e.toNat * Nat.pow 10 (-p).toNat) / (Nat.pow 10 p.toNat * Nat.pow 2 (-e).toNat)

def search (tie : Tie) (i : Interval) (lead : Int) : Nat → Nat → Scaled
  | 0, count => ⟨below i.value i.exponent (lead - count), lead - count⟩
  | fuel + 1, count =>
    let p := lead - count
    let c := below i.value i.exponent p
    let low : Scaled := ⟨c, p⟩
    let high : Scaled := ⟨c + 1, p⟩
    match i.holds low, i.holds high with
    | true, false => low
    | false, true => high
    | true, true =>
      let middle := align i.value i.exponent (2 * c + 1) p
      if 2 * middle.1 < middle.2 ∨ (2 * middle.1 = middle.2 ∧ tie.keepsBelow c) then low else high
    | false, false => search tie i lead fuel (count + 1)

def trim : Nat → Scaled → Scaled
  | 0, s => s
  | fuel + 1, s =>
    if s.digits ≠ 0 ∧ s.digits % 10 = 0 then trim fuel ⟨s.digits / 10, s.exponent + 1⟩ else s

def shortest (tie : Tie) (x : Binary64) : Scaled :=
  if x.isZero then ⟨0, 0⟩
  else
    let i := roundingInterval x
    let bits : Int := (Nat.log2 i.value : Int) + i.exponent
    let guess := Int.fdiv (bits * 30103) 100000 - 1
    let lead := leadingPower i.value i.exponent 3 guess
    trim 20 (search tie i lead 17 0)

def digitChars (n : Nat) : List Char := (Nat.repr n).toList

def positional (s : Scaled) : List Char × List Char :=
  let ds := digitChars s.digits
  if 0 ≤ s.exponent then (ds ++ List.replicate s.exponent.toNat '0', [])
  else
    let places := (-s.exponent).toNat
    if places < ds.length then (ds.take (ds.length - places), ds.drop (ds.length - places))
    else (['0'], List.replicate (places - ds.length) '0' ++ ds)

def signed (negative : Bool) (cs : List Char) : String :=
  String.ofList (if negative then '-' :: cs else cs)

/-- Plain decimal text, never with an exponent and with a point only where digits follow it. A tie
goes up. -/
def plainText (x : Binary64) : String :=
  let (whole, part) := positional (shortest .up x)
  signed x.negative (if part.isEmpty then whole else whole ++ '.' :: part)

/-- Number text for data: always recognisable as a floating-point number, positional from
`0.00001` up to sixteen digits before the point, otherwise one digit, the rest, and an exponent
with its sign. A tie goes to the even digit. -/
def dataText (x : Binary64) : String :=
  let s := shortest .toEven x
  let ds := digitChars s.digits
  let point : Int := ds.length + s.exponent
  if x.isZero ∨ (-5 < point ∧ point ≤ 16) then
    let (whole, part) := positional s
    signed x.negative (whole ++ '.' :: (if part.isEmpty then ['0'] else part))
  else
    let power := point - 1
    let exponent := (if power < 0 then '-' else '+') :: digitChars power.natAbs
    let fraction := if ds.length ≤ 1 then [] else '.' :: ds.drop 1
    signed x.negative (ds.take 1 ++ fraction ++ 'e' :: exponent)

end ExtensionLock.Decimal

namespace ExtensionLock

def Extended.plainText : Extended → String
  | .finite x => Decimal.plainText x
  | .infinite negative => if negative then "-inf" else "inf"
  | .nan => "NaN"

end ExtensionLock
