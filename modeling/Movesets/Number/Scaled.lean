import Movesets.Number.Decimal

set_option autoImplicit false

/-!
# Numerals read by scaling

A quick way to read a decimal numeral.  Its leading digits, as many as an integer of 64 bits can
hold, are taken as an integer, which is rounded to a binary number and then multiplied or divided by
a power of ten, rounding again.  The result is the nearest number or one close by; a numeral that is
too large has no value.
-/

namespace Movesets.Number.Scaled

/-- The greatest integer made of digits. -/
def limit : Nat := UInt64.size - 1

/-- Appends digits to a number up to the limit; the number, and the digits from the first that does
not fit. -/
def accumulate (n : Nat) : List Char → Nat × List Char
  | [] => (n, [])
  | c :: cs =>
    let next := 10 * n + (digit? c).getD 0
    if next ≤ limit then accumulate next cs else (n, c :: cs)

/-- The greatest power of ten that is a finite number. -/
def largestPower : Nat := 308

def powerOfTen (e : Nat) : Binary64 := .ofInt (Nat.pow 10 e)

/-- The number divided by the largest power of ten a number of times, or until it is zero. -/
def divideDown (x : Binary64) : Nat → Binary64
  | 0 => x
  | steps + 1 => if x.rank = 0 then x else divideDown (x / powerOfTen largestPower) steps

/-- A non-negative number times a power of ten; `none` if that is not finite. -/
def scale? (x : Binary64) (e : Int) : Option Binary64 :=
  if e < 0 then
    let steps := (e.natAbs - 1) / largestPower
    some (divideDown x steps / powerOfTen (e.natAbs - steps * largestPower))
  else if x.rank = 0 then some x
  else if largestPower < e then none
  else
    let y := x * powerOfTen e.toNat
    if y.isInfinite then none else some y

/-- Exponents are counted up to this. -/
def largestExponent : Int := Int32.maxValue.toInt

/-- The absolute value of a numeral from its digits on both sides of the point and its exponent.
Digits of the whole part that are not taken raise the exponent, those of the fraction are without
effect. -/
def magnitude? (whole fraction : List Char) (exponent : Int) : Option Binary64 :=
  let (n, dropped) := accumulate 0 whole
  let (n, ignored) := accumulate n fraction
  if largestExponent < exponent then if n = 0 then some .zero else none
  else if exponent < -largestExponent then some .zero
  else scale? (.ofInt n) (exponent + dropped.length + ignored.length - fraction.length)

def read? (negative : Bool) (whole fraction : List Char) (exponent : Int) : Option Binary64 :=
  (magnitude? whole fraction exponent).map fun x => ⟨negative, x.rank⟩

end Movesets.Number.Scaled
