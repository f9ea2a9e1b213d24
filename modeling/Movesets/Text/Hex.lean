set_option autoImplicit false

/-!
# Hexadecimal digits

Reading a run of hexadecimal digits of either case, and writing a number with a fixed or the least
number of digits.  Letters are written in upper case; `lowered` gives the lower-case spelling.
-/

namespace Movesets.Text

def hexDigit? (c : Char) : Option Nat :=
  let n := c.toNat
  if 48 ≤ n ∧ n ≤ 57 then some (n - 48)
  else if 65 ≤ n ∧ n ≤ 70 then some (n - 55)
  else if 97 ≤ n ∧ n ≤ 102 then some (n - 87)
  else none

/-- The digits read after the value `acc`; `none` if one of them is no digit. -/
def readHexFrom (acc : Nat) : List Char → Option Nat
  | [] => some acc
  | c :: cs => (hexDigit? c).bind fun d => readHexFrom (16 * acc + d) cs

/-- The value of a non-empty run of digits. -/
def readHex : List Char → Option Nat
  | [] => none
  | cs => readHexFrom 0 cs

/-- The digit of value `d`, for `d` below 16. -/
def hexChar (d : Nat) : Char :=
  Char.ofNat (if d < 10 then 48 + d else 55 + d)

/-- The last `width` digits of `n`, with leading zeros. -/
def writeHex : Nat → Nat → List Char
  | 0, _ => []
  | width + 1, n => writeHex width (n / 16) ++ [hexChar (n % 16)]

def dropZeros : List Char → List Char
  | '0' :: c :: cs => dropZeros (c :: cs)
  | cs => cs

/-- The digits of a 32-bit number without leading zeros. -/
def shortHex (n : Nat) : List Char :=
  dropZeros (writeHex 8 n)

def lowered (cs : List Char) : List Char :=
  cs.map Char.toLower

@[simp] theorem length_writeHex (width n : Nat) : (writeHex width n).length = width := by
  induction width generalizing n with
  | zero => rfl
  | succ width ih => simp [writeHex, ih]

end Movesets.Text
