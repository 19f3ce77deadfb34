import SeqScript.Number.Power

/-!
# Finite double-precision numbers

A finite double is a sign and the rank of its magnitude in the increasing list of the finite
nonnegative doubles: rank 0 is zero, the first `2 ^ 52` ranks are subnormal, and every binade above
them has `2 ^ 52` members.  Each magnitude is a whole number of units of `2 ^ (-1074)`, so all
arithmetic is exact arithmetic on naturals followed by one rounding to the nearest rank, ties to
even (`nearestRank`).

`Binary64.scaleByTen` is the reading of a decimal: one conversion of the significand and then one
multiplication or division by a power of ten, each rounded.
-/

namespace SeqScript

/-- The number of magnitudes in a binade, `2 ^ 52`. -/
abbrev binadeSize : Nat := 0x10000000000000

/-- The number of finite magnitudes: the subnormal ones and 2046 binades. -/
abbrev magnitudeCount : Nat := 2047 * binadeSize

/-- A finite double. -/
structure Binary64 where
  negative : Bool
  rank : Fin magnitudeCount
  deriving DecidableEq

namespace Binary64

def zero : Binary64 := ⟨false, ⟨0, by decide⟩⟩

instance : Inhabited Binary64 := ⟨zero⟩

/-- The exponent of the unit in the last place, counted from `-1074`. -/
def scale (x : Binary64) : Nat := x.rank / binadeSize - 1

def significand (x : Binary64) : Nat := x.rank - x.scale * binadeSize

/-- The number of units in one. -/
def unitsInOne : Nat := twoTo 1074

/-- The magnitude in units of `2 ^ (-1074)`. -/
def units (x : Binary64) : Nat := x.significand * twoTo x.scale

def isZero (x : Binary64) : Bool := x.rank.val == 0

/-- The two zeros are the only distinct doubles of equal value; this picks the positive one. -/
def canonical (x : Binary64) : Binary64 := if x.isZero then zero else x

def withSign (negative : Bool) (x : Binary64) : Binary64 := ⟨negative, x.rank⟩

/-! ### Rounding -/

/-- The quotient rounded to the nearest natural, a half to the even one. -/
def divEven (a b : Nat) : Nat :=
  let q := a / b
  let r := a % b
  if 2 * r < b then q else if b < 2 * r then q + 1 else q + q % 2

/-- The rank nearest to `a / b` units; it may lie beyond the last finite magnitude. -/
def nearestRank (a b : Nat) : Nat :=
  let s := Nat.log2 (a / b) - 52
  s * binadeSize + divEven a (b * twoTo s)

/-- The double nearest to `a / b` units, unless it overflows. -/
def ofUnits? (a b : Nat) : Option Binary64 :=
  if h : nearestRank a b < magnitudeCount then some ⟨false, ⟨nearestRank a b, h⟩⟩ else none

def ofNat? (n : Nat) : Option Binary64 := ofUnits? (n * unitsInOne) 1

/-- The magnitude of the product. -/
def mul? (x y : Binary64) : Option Binary64 := ofUnits? (x.units * y.units) unitsInOne

/-- The magnitude of the quotient. -/
def div? (x y : Binary64) : Option Binary64 := ofUnits? (x.units * unitsInOne) y.units

/-! ### Powers of ten -/

/-- The greatest exponent whose power of ten is finite. -/
def maxTen : Nat := 308

def mulTen? (x : Binary64) (n : Nat) : Option Binary64 := ofNat? (tenTo n) >>= x.mul?

def divTen? (x : Binary64) (n : Nat) : Option Binary64 := ofNat? (tenTo n) >>= x.div?

/-- The magnitude of `x` times `10 ^ e`, rounded once for a power that is finite and once more for
each whole `10 ^ 308` that is divided out first.  Two such divisions leave zero of anything below
`10 ^ 292`, so a smaller exponent needs no more. -/
def scaleByTen (x : Binary64) : Int → Option Binary64
  | .ofNat n => if n ≤ maxTen then x.mulTen? n else if x.isZero then some zero else none
  | .negSucc k =>
    let n := k + 1
    if n ≤ maxTen then x.divTen? n
    else if n ≤ 2 * maxTen then x.divTen? maxTen >>= (·.divTen? (n - maxTen))
    else some zero

/-- The integer that `x` is, if it is one. -/
def toInt? (x : Binary64) : Option Int :=
  if x.units % unitsInOne = 0 then
    let n : Int := x.units / unitsInOne
    some (if x.negative then -n else n)
  else none

end Binary64

end SeqScript
