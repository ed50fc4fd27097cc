/-! Finite binary floating-point numbers of 64 bits, their products and their quotients.

A number is a sign, a significand below two to the 53 and a power of two. All arithmetic is exact, on
natural numbers; the only rounding is `roundQuotient`, to the nearest integer with ties to even. -/
namespace Treewalk.Number

def two (k : Nat) : Nat := Nat.pow 2 k

def ten (k : Nat) : Nat := Nat.pow 10 k

/-- The value `significand * 2 ^ exponent`, negated for a negative number; zero has two signs. -/
structure Binary64 where
  negative : Bool
  significand : Nat
  exponent : Int
deriving DecidableEq, Repr

/-- The integer nearest to a quotient; of two equally near ones, the even one. -/
def roundQuotient (numerator denominator : Nat) : Nat :=
  let q := numerator / denominator
  let r := numerator % denominator
  if denominator < 2 * r || (2 * r == denominator && q % 2 == 1) then q + 1 else q

def decimalLength (n : Nat) : Nat := (Nat.toDigits 10 n).length

/-- Multiplies a fraction by an integral power of a base, whose natural powers are given. -/
def scale (power : Nat → Nat) (e : Int) (numerator denominator : Nat) : Nat × Nat :=
  if 0 ≤ e then (numerator * power e.toNat, denominator) else (numerator, denominator * power (-e).toNat)

namespace Binary64

def leastExponent : Int := -1074

def greatestExponent : Int := 971

def zero (negative : Bool) : Binary64 := ⟨negative, 0, leastExponent⟩

/-- The greatest `e` with `2 ^ e` at most the given positive fraction. -/
def binaryOrder (numerator denominator : Nat) : Int :=
  let guess : Int := (numerator.log2 : Int) - (denominator.log2 : Int)
  let (n, d) := scale two (-guess) numerator denominator
  if n < d then guess - 1 else guess

/-- The number nearest to a positive fraction, as significand and power of two; nothing if it would be
too great. -/
def roundFraction? (numerator denominator : Nat) : Option (Nat × Int) :=
  let exponent := max (binaryOrder numerator denominator - 52) leastExponent
  let (n, d) := scale two (-exponent) numerator denominator
  let significand := roundQuotient n d
  let (significand, exponent) :=
    if significand = two 53 then (two 52, exponent + 1) else (significand, exponent)
  if greatestExponent < exponent then none else some (significand, exponent)

def ofFraction? (negative : Bool) (numerator denominator : Nat) : Option Binary64 :=
  if numerator = 0 then some (zero negative)
  else
    (roundFraction? numerator denominator).map fun (significand, exponent) =>
      ⟨negative, significand, exponent⟩

def fraction (x : Binary64) : Nat × Nat := scale two x.exponent x.significand 1

def multiply? (x y : Binary64) : Option Binary64 :=
  let (n, d) := x.fraction
  let (m, e) := y.fraction
  ofFraction? (x.negative != y.negative) (n * m) (d * e)

def divide? (x y : Binary64) : Option Binary64 :=
  let (n, d) := x.fraction
  let (m, e) := y.fraction
  ofFraction? (x.negative != y.negative) (n * e) (d * m)

end Binary64

end Treewalk.Number
