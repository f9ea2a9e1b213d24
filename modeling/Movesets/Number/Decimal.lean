import Movesets.Number.Binary

set_option autoImplicit false

/-!
# Decimal numerals

Reading a decimal numeral as the nearest binary number, and writing a binary number with the fewest
digits that read back as it.  Two spellings of the digits are offered: `positional`, which never
uses an exponent, and `dotted`, which always shows that the number is not an integer literal.
-/

namespace Movesets.Number

/-- The value of a decimal digit. -/
def digit? (c : Char) : Option Nat :=
  if c.isDigit then some (c.toNat - 48) else none

/-- The number written by a run of digits; other characters count as zero. -/
def readDigits (cs : List Char) : Nat :=
  cs.foldl (fun n c => 10 * n + (digit? c).getD 0) 0

/-- The number that a text is: digits alone, one at least. -/
def natural? (cs : List Char) : Option Nat :=
  if cs.isEmpty || !cs.all Char.isDigit then none else some (readDigits cs)

/-- The decimal digits of a number, most significant first; zero has one digit. -/
def decimalDigits (n : Nat) : List Char :=
  if n < 10 then [Char.ofNat (48 + n)]
  else decimalDigits (n / 10) ++ [Char.ofNat (48 + n % 10)]
termination_by n

/-- The decimal digits of an integer behind its sign. -/
def integerText (i : Int) : List Char :=
  if i < 0 then '-' :: decimalDigits i.natAbs else decimalDigits i.natAbs

/-- The number `± digits * 10 ^ exponent`. -/
structure Numeral where
  negative : Bool
  digits : Nat
  exponent : Int
  deriving Repr

namespace Numeral

/-- Beyond this power of ten every format is exhausted in both directions. -/
def reach : Nat := 400

/-- The nearest binary number.  A power of ten out of reach is decided without computing it: three
binary digits are less than one decimal digit. -/
def toBinary {F : Format} (n : Numeral) : Binary F :=
  if n.digits = 0 then ⟨n.negative, 0⟩
  else if n.exponent > reach then .infinity n.negative
  else if n.exponent + (n.digits.log2 / 3 + 1) < -(reach : Int) then ⟨n.negative, 0⟩
  else if n.exponent ≥ 0 then
    .ofUnits n.negative ((n.digits * Nat.pow 10 n.exponent.toNat) <<< F.scale) 1
  else .ofUnits n.negative (n.digits <<< F.scale) (Nat.pow 10 (-n.exponent).toNat)

/-- The digits and decimal places of a fraction part. -/
def ofParts (negative : Bool) (whole fraction : List Char) (exponent : Int) : Numeral :=
  ⟨negative, readDigits (whole ++ fraction), exponent - fraction.length⟩

end Numeral

/-- The exponent behind `e` or `E`: an optional sign and at least one digit. -/
def readExponent? (cs : List Char) : Option (Int × List Char) :=
  let signed (sign : Int) (cs : List Char) : Option (Int × List Char) :=
    match cs.takeWhile Char.isDigit with
    | [] => none
    | ds => some (sign * readDigits ds, cs.dropWhile Char.isDigit)
  match cs with
  | '+' :: rest => signed 1 rest
  | '-' :: rest => signed (-1) rest
  | rest => signed 1 rest

/-- The digits and the decimal point of a number: `0.d₁d₂… * 10 ^ point`. -/
structure Decimal where
  digits : List Char
  point : Int
  deriving Repr

namespace Binary

variable {F : Format}

/-- The finite number in decimal: `decimalUnits * 10 ^ (-scale)`. -/
def decimalUnits (F : Format) (units : Nat) : Nat := units * Nat.pow 5 F.scale

/-- `2 * d` lies among the reals that round to the rank, the ends counting for an even rank. -/
def readsBack (F : Format) (rank d : Nat) : Bool :=
  let below := decimalUnits F (F.units (rank - 1) + F.units rank)
  let above := decimalUnits F (F.units rank + F.units (rank + 1))
  if rank % 2 = 0 then below ≤ 2 * d && 2 * d ≤ above else below < 2 * d && 2 * d < above

/-- Of the two neighbours on the decimal grid of step `step`, the nearer that reads back; a tie goes
to the even one. -/
def onGrid? (F : Format) (rank step : Nat) : Option Nat :=
  let value := decimalUnits F (F.units rank)
  let low := value / step * step
  let high := low + step
  match readsBack F rank low, readsBack F rank high with
  | true, true =>
    if 2 * value < low + high then some low
    else if low + high < 2 * value then some high
    else some (if value / step % 2 = 0 then low else high)
  | true, false => some low
  | false, true => some high
  | false, false => none

/-- The fewest decimal digits that read back as the number, and where its point stands. -/
def shortest (x : Binary F) : Decimal :=
  let value := decimalUnits F (F.units x.rank)
  let length := (decimalDigits value).length
  let steps := (List.range length).reverse.map (Nat.pow 10)
  let chosen := (steps.findSome? (onGrid? F x.rank)).getD value
  let digits := decimalDigits chosen
  ⟨(digits.reverse.dropWhile (· == '0')).reverse, digits.length - F.scale⟩

end Binary

namespace Decimal

def zeros (n : Int) : List Char := List.replicate n.toNat '0'

/-- The digits in positional notation, and whether they end before the point. -/
def spread (d : Decimal) : List Char × Bool :=
  let n : Int := d.digits.length
  if d.point ≤ 0 then (['0', '.'] ++ zeros (-d.point) ++ d.digits, false)
  else if n ≤ d.point then (d.digits ++ zeros (d.point - n), true)
  else (d.digits.take d.point.toNat ++ ['.'] ++ d.digits.drop d.point.toNat, false)

/-- Digits, a point behind the first if there are more, and the exponent with its sign. -/
def scientific (d : Decimal) : List Char :=
  let mantissa := match d.digits with
    | c :: c' :: cs => c :: '.' :: c' :: cs
    | cs => cs
  let exponent := d.point - 1
  mantissa ++ (if exponent < 0 then ['e'] else ['e', '+']) ++ integerText exponent

end Decimal

namespace Binary

variable {F : Format}

def signed (x : Binary F) (cs : List Char) : List Char :=
  if x.negative then '-' :: cs else cs

/-- Digits without an exponent; an integer has no point. -/
def positional (x : Binary F) : String :=
  .ofList <|
    if x.isNaN then ['N', 'a', 'N']
    else x.signed <|
      if x.isInfinite then ['i', 'n', 'f']
      else if x.rank = 0 then ['0']
      else x.shortest.spread.1

/-- Digits that keep the number apart from an integer: positional from `0.00001` up to below
`10 ^ 16`, with `.0` behind an integer, and with an exponent elsewhere. -/
def dotted (x : Binary F) : String :=
  .ofList <|
    if x.isNaN then ['.', 'n', 'a', 'n']
    else x.signed <|
      if x.isInfinite then ['.', 'i', 'n', 'f']
      else if x.rank = 0 then ['0', '.', '0']
      else
        let d := x.shortest
        if -5 < d.point ∧ d.point ≤ 16 then
          let (cs, whole) := d.spread
          if whole then cs ++ ['.', '0'] else cs
        else d.scientific

/-- The integer nearest to a finite number, a half going away from zero. -/
def roundAway (x : Binary F) : Int :=
  let n : Int := (2 * F.units x.rank + 1 <<< F.scale : Nat) / (2 <<< F.scale : Nat)
  if x.negative then -n else n

end Binary

end Movesets.Number
