import Treewalk.Number.Binary64

/-! The fewest decimal digits that still round to a given number, and the way they are written.

Every real in `interval` rounds to the number. For one digit, two digits and so on the two neighbours of
the number on that decimal grid are tried; the first grid with a neighbour inside the interval wins, and
of two neighbours the nearer one. Seventeen digits always suffice. -/
namespace Treewalk.Number.Binary64

structure Fraction where
  numerator : Nat
  denominator : Nat
deriving DecidableEq, Repr

namespace Fraction

def lt (x y : Fraction) : Bool := decide (x.numerator * y.denominator < y.numerator * x.denominator)

def ofScaled (power : Nat → Nat) (n : Nat) (e : Int) : Fraction :=
  let (p, q) := scale power e n 1
  ⟨p, q⟩

end Fraction

/-- The reals that round to a number: its two ends, and whether they belong to it. -/
structure Interval where
  low : Fraction
  value : Fraction
  high : Fraction
  closed : Bool

/-- The interval of a number other than zero. The gap below a power of two is half the gap above it. -/
def interval (x : Binary64) : Interval :=
  let quarter := x.exponent - 2
  let below := if x.significand = two 52 && decide (leastExponent < x.exponent) then 1 else 2
  { low := .ofScaled two (4 * x.significand - below) quarter
    value := .ofScaled two (4 * x.significand) quarter
    high := .ofScaled two (4 * x.significand + 2) quarter
    closed := x.significand % 2 == 0 }

namespace Interval

def contains (i : Interval) (x : Fraction) : Bool :=
  if i.closed then !x.lt i.low && !i.high.lt x else i.low.lt x && x.lt i.high

def decimalOrder (i : Interval) : Int :=
  let n := i.value.numerator
  let d := i.value.denominator
  if d ≤ n then (decimalLength (n / d) : Int) - 1
  else
    let k := decimalLength d - decimalLength n
    if d ≤ n * ten k then -(k : Int) else -(k : Int) - 1

/-- The better of the value's two neighbours on the grid of multiples of `10 ^ e`, if one is inside. -/
def nearestOnGrid? (i : Interval) (e : Int) : Option Nat :=
  let (p, q) := scale ten (-e) i.value.numerator i.value.denominator
  let below := p / q
  let above := below + 1
  let inside (n : Nat) : Bool := i.contains (.ofScaled ten n e)
  match inside below, inside above with
  | true, true => some (if 2 * (p % q) < q || (2 * (p % q) == q && below % 2 == 0) then below else above)
  | true, false => some below
  | false, true => some above
  | false, false => none

def shortestOf (i : Interval) : List Nat → Nat × Int
  | [] => (0, 0)
  | n :: rest =>
      let e := i.decimalOrder - n
      match i.nearestOnGrid? e with
      | some digits => (digits, e)
      | none => i.shortestOf rest

end Interval

def shortest (x : Binary64) : Nat × Int := x.interval.shortestOf (List.range 17)

def significant (n : Nat) : List Char := ((Nat.toDigits 10 n).reverse.dropWhile (· == '0')).reverse

/-- Decimal orders from `-5` to `15` are written with a point and no exponent. -/
def isPositional (order : Int) : Bool := decide (-5 ≤ order) && decide (order ≤ 15)

def exponentText (e : Int) : List Char :=
  'e' :: (if e < 0 then '-' else '+') :: Nat.toDigits 10 e.natAbs

def positional (digits : List Char) (order : Int) : List Char :=
  if order < 0 then '0' :: '.' :: List.replicate ((-order).toNat - 1) '0' ++ digits
  else
    let whole := order.toNat + 1
    if digits.length ≤ whole then digits ++ List.replicate (whole - digits.length) '0' ++ ['.', '0']
    else digits.take whole ++ '.' :: digits.drop whole

def scientific (digits : List Char) (order : Int) : List Char :=
  match digits with
  | [] => []
  | [d] => d :: exponentText order
  | d :: rest => d :: '.' :: rest ++ exponentText order

/-- The text of a number: the shortest digits, with a fractional part or an exponent always present. -/
def text (x : Binary64) : String :=
  let body :=
    if x.significand = 0 then ['0', '.', '0']
    else
      let (n, e) := x.shortest
      let order := e + decimalLength n - 1
      let digits := significant n
      if isPositional order then positional digits order else scientific digits order
  String.ofList (if x.negative then '-' :: body else body)

end Treewalk.Number.Binary64
