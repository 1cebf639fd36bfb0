import ExtensionLock.Decimal.Binary64

/-! Lengths of time, in whole nanoseconds. -/

namespace ExtensionLock

structure Duration where
  seconds : Nat
  nanoseconds : Nat
  fits : seconds < UInt64.size ∧ nanoseconds < 1000000000
  deriving DecidableEq, Repr

namespace Duration

def perSecond : Nat := 1000000000

def ofNanoseconds? (n : Nat) : Option Duration :=
  if h : n / perSecond < UInt64.size then
    some ⟨n / perSecond, n % perSecond, h, Nat.mod_lt _ (by decide)⟩
  else none

/-- The length in seconds. The two parts are rounded, then their sum. -/
def toSeconds (d : Duration) : Extended :=
  match Binary64.ofNat d.seconds, Binary64.ofRatio false d.nanoseconds perSecond with
  | .finite whole, .finite part => whole.addMagnitudes part
  | _, _ => .nan

/-- The length of time nearest to a number of seconds, a half going to the even nanosecond. There
is none for a negative number and for one that is too large. -/
def ofSeconds? : Extended → Option Duration
  | .finite x =>
    if x.negative && !x.isZero then none
    else
      let (num, den) := x.toRatio
      ofNanoseconds? (Binary64.divideNearest (num * perSecond) den)
  | _ => none

def product : Extended → Extended → Extended
  | .finite x, .finite y => x.mul y
  | _, _ => .nan

def scaled (d : Duration) (factor : Extended) : Option Duration :=
  ofSeconds? (product factor d.toSeconds)

end Duration

end ExtensionLock
