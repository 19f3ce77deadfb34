import SeqScript.Number.Shortest

/-!
# Numbers of a document

A number is an integer that fits 64 bits, signed or unsigned, or a finite double.  The two kinds
never equal each other: `1` and `1.0` are different numbers with different texts.  A double is
written positionally while its first digit stands between the fifth decimal place and the sixteenth
place before the point, and in scientific form otherwise (`Binary64.text`).
-/

namespace SeqScript

/-- A number as documents carry it. -/
inductive Number where
  | integer (value : Int) (lower : -0x8000000000000000 ≤ value)
      (upper : value < 0x10000000000000000)
  | real (value : Binary64)
  deriving DecidableEq

namespace Binary64

/-- The least and greatest exponents of the first digit that are written positionally. -/
def leastPositional : Int := -5
def greatestPositional : Int := 15

/-- The significant digits, without zeros at their end, and the exponent of the first. -/
def significantDigits (x : Binary64) : List Char × Int :=
  let d := x.shortest
  let cs := Nat.toDigits 10 d.digits
  let kept := (cs.reverse.dropWhile (· == '0')).reverse
  (if kept.isEmpty then ['0'] else kept, d.exponent + cs.length - 1)

/-- Digits with the point after place `e`, counted from the first digit. -/
def positional (ds : List Char) (e : Int) : List Char :=
  match e with
  | .ofNat n =>
    let whole := ds.take (n + 1)
    let part := ds.drop (n + 1)
    whole ++ List.replicate (n + 1 - whole.length) '0' ++
      '.' :: (if part.isEmpty then ['0'] else part)
  | .negSucc n => '0' :: '.' :: (List.replicate n '0' ++ ds)

/-- One digit, the others after a point, and the exponent with its sign. -/
def scientific (ds : List Char) (e : Int) : List Char :=
  let mantissa := if ds.length ≤ 1 then ds else ds.take 1 ++ '.' :: ds.drop 1
  mantissa ++ 'e' :: (if e < 0 then '-' else '+') :: Nat.toDigits 10 e.natAbs

def text (x : Binary64) : String :=
  let (ds, e) := x.significantDigits
  let body :=
    if leastPositional ≤ e ∧ e ≤ greatestPositional then positional ds e else scientific ds e
  String.ofList (if x.negative then '-' :: body else body)

end Binary64

/-- An integer in base ten. -/
def decimalText (i : Int) : String :=
  String.ofList (if i < 0 then '-' :: Nat.toDigits 10 i.natAbs else Nat.toDigits 10 i.natAbs)

namespace Number

instance : Inhabited Number := ⟨.real .zero⟩

def ofInt? (i : Int) : Option Number :=
  if h : -0x8000000000000000 ≤ i ∧ i < 0x10000000000000000 then some (.integer i h.1 h.2)
  else none

/-- A signed word as a number. -/
def ofInt64 (i : Int64) : Number :=
  .integer i.toInt (Int64.le_toInt i) (Int.lt_trans (Int64.toInt_lt i) (by decide))

def text : Number → String
  | .integer i _ _ => decimalText i
  | .real x => x.text

/-- Numbers are compared by value: of the two zeros among the doubles this keeps one. -/
def canonical : Number → Number
  | .real x => .real x.canonical
  | n => n

end Number

end SeqScript
