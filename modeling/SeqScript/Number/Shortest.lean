import SeqScript.Number.Binary64

/-!
# The shortest decimal of a double

Every double is printed with the fewest significant digits that still single it out: the decimal
must lie in the interval of reals that round to the double (`Interval`), ends included when the
significand is even.  For one digit, two, and so on up to seventeen, the double has two neighbours
on that decimal grid; the first grid on which one of them lies in the interval wins, and of two the
nearer, a tie going to the even one.
-/

namespace SeqScript

/-- `digits * 10 ^ exponent`. -/
structure Decimal where
  digits : Nat
  exponent : Int
  deriving DecidableEq

/-- The reals that round to a double, in quarters of a unit of `2 ^ (-1074)`. -/
structure Interval where
  lower : Nat
  middle : Nat
  upper : Nat
  closed : Bool

namespace Interval

/-- Quarters of a unit in one. -/
def one : Nat := 4 * Binary64.unitsInOne

def ofBinary64 (x : Binary64) : Interval :=
  let m := x.significand
  let gap := twoTo x.scale
  let middle := 4 * m * gap
  let below := if m = binadeSize ∧ 0 < x.scale then gap else 2 * gap
  ⟨middle - below, middle, middle + 2 * gap, m % 2 == 0⟩

/-- Is `a / b` quarters in the interval? -/
def contains (i : Interval) (a b : Nat) : Bool :=
  if i.closed then i.lower * b ≤ a && a ≤ i.upper * b else i.lower * b < a && a < i.upper * b

/-- How far `a / b` quarters are from the middle, in `b`-ths of a quarter. -/
def distance (i : Interval) (a b : Nat) : Nat := (i.middle * b - a) + (a - i.middle * b)

end Interval

namespace Binary64

/-- The number of digits of a natural in base ten; zero has one. -/
def digitCount (n : Nat) : Nat := (Nat.toDigits 10 n).length

/-- The exponent of the first digit: `10 ^ e ≤ x < 10 ^ (e + 1)`. -/
def leadingExponent (x : Binary64) : Int :=
  let n := (Interval.ofBinary64 x).middle
  if Interval.one ≤ n then (digitCount (n / Interval.one) : Int) - 1
  else -(digitCount ((Interval.one + n - 1) / n - 1) : Int)

/-- A grid of decimals `k * 10 ^ e`, as quarters `k * step / parts`. -/
structure Grid where
  exponent : Int
  step : Nat
  parts : Nat

def grid (e : Int) : Grid :=
  match e with
  | .ofNat n => ⟨e, Interval.one * tenTo n, 1⟩
  | .negSucc n => ⟨e, Interval.one, tenTo (n + 1)⟩

/-- The greatest `k` whose place on the grid is not above the middle of the interval. -/
def floorOn (i : Interval) (g : Grid) : Nat := i.middle * g.parts / g.step

/-- The member of the grid that singles a double out: of the two neighbours of the double on the
grid the nearer one that lies in its interval. -/
def onGrid? (i : Interval) (g : Grid) : Option Decimal :=
  let low := floorOn i g
  let high := low + 1
  let inside (k : Nat) := i.contains (k * g.step) g.parts
  let far (k : Nat) := i.distance (k * g.step) g.parts
  let pick (k : Nat) : Option Decimal := some ⟨k, g.exponent⟩
  if inside low then
    if inside high then
      if far high < far low then pick high
      else if far low < far high then pick low
      else if low % 2 = 0 then pick low else pick high
    else pick low
  else if inside high then pick high else none

/-- The number of digits that always single a double out. -/
def maxDigits : Nat := 17

/-- The shortest decimal of the magnitude of `x`. -/
def shortest (x : Binary64) : Decimal :=
  if x.isZero then ⟨0, 0⟩ else
    let i := Interval.ofBinary64 x
    let e := x.leadingExponent
    let found := (List.range maxDigits).findSome? fun (k : Nat) => onGrid? i (grid (e - k))
    let finest := grid (e - (maxDigits - 1 : Nat))
    found.getD ⟨floorOn i finest, finest.exponent⟩

end Binary64

end SeqScript
