import Treewalk.Number.Binary64

/-! Decimals with a significand of at most 64 bits, and the floating-point numbers that they stand for.

Digits are taken into the significand as long as it fits; from the first one that does not fit, digits of
the integral part count as zeros and digits of the fractional part are dropped. The significand is rounded
to a floating-point number first, and that number is then multiplied or divided by a power of ten, so the
result is rounded more than once and need not be the number nearest to the decimal. -/
namespace Treewalk.Number

/-- The value `significand * 10 ^ exponent`, negated for a negative number. -/
structure Decimal where
  negative : Bool
  significand : Nat
  exponent : Int
deriving DecidableEq, Repr

namespace Decimal

def greatestSignificand : Nat := 18446744073709551615

/-- Appends digits to a significand as long as it fits. The digits from the first one that does not fit
are given back. -/
def appendDigits (significand : Nat) : List Nat → Nat × List Nat
  | [] => (significand, [])
  | digit :: rest =>
      let longer := 10 * significand + digit
      if greatestSignificand < longer then (significand, digit :: rest) else appendDigits longer rest

def ofDigits (negative : Bool) (digits : List Nat) : Decimal :=
  let (significand, left) := appendDigits 0 digits
  ⟨negative, significand, left.length⟩

def withPlaces (d : Decimal) (digits : List Nat) : Decimal :=
  let (significand, left) := appendDigits d.significand digits
  { d with significand := significand, exponent := d.exponent - (digits.length - left.length : Nat) }

def shift (d : Decimal) (exponent : Int) : Decimal := { d with exponent := d.exponent + exponent }

end Decimal

namespace Binary64

def greatestTen : Nat := 308

def powerOfTen? (k : Nat) : Option Binary64 :=
  if k ≤ greatestTen then ofFraction? false (ten k) 1 else none

def scaleUp? (x : Binary64) (k : Nat) : Option Binary64 :=
  if x.significand = 0 then some x else (powerOfTen? k).bind x.multiply?

/-- Divides by the greatest power of ten so many times, then by one more power. -/
def scaleDownBy? (x : Binary64) (k : Nat) : Nat → Option Binary64
  | 0 => (powerOfTen? k).bind x.divide?
  | times + 1 =>
      if x.significand = 0 then some x
      else
        match (powerOfTen? greatestTen).bind x.divide? with
        | some y => y.scaleDownBy? k times
        | none => none

/-- Divides by a power of ten, in as few steps as there can be, the last of them by what is left. -/
def scaleDown? (x : Binary64) (k : Nat) : Option Binary64 :=
  let times := (k - 1) / greatestTen
  x.scaleDownBy? (k - times * greatestTen) times

end Binary64

def Decimal.toBinary64? (d : Decimal) : Option Binary64 :=
  (Binary64.ofFraction? d.negative d.significand 1).bind fun x =>
    if 0 ≤ d.exponent then x.scaleUp? d.exponent.toNat else x.scaleDown? (-d.exponent).toNat

end Treewalk.Number
