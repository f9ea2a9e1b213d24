set_option autoImplicit false

/-!
# Binary interchange numbers

The numbers of a binary format with a sign: zero, subnormal and normal values, infinity and a NaN.
A value is kept as its sign and its *rank*, the position of its absolute value among the
non-negative values of the format in increasing order.  The rank is the word of the format without
its sign bit, so order and printing as bits need no decoding; arithmetic decodes a rank to an
integer number of *units*, the least positive value of the format, works exactly, and rounds once.

Rounding is to the nearest value, a tie goes to the even rank, and too large a value becomes
infinite.
-/

namespace Movesets.Number

/-- The quotient rounded to the nearest integer, a tie to the even one. -/
def roundDiv (num den : Nat) : Nat :=
  let q := num / den
  let r := num % den
  if 2 * r < den then q else if den < 2 * r then q + 1 else q + q % 2

/-- A format by its significant bits, the rank of infinity and the scale of its unit,
`2 ^ (-scale)`. -/
structure Format where
  precision : Nat
  infinity : Nat
  scale : Nat

/-- 32-bit numbers. -/
def single : Format := ⟨24, 0x7F800000, 149⟩

/-- 64-bit numbers. -/
def double : Format := ⟨53, 0x7FF0000000000000, 1074⟩

namespace Format

variable (F : Format)

/-- How many ranks share one exponent. -/
def half : Nat := 1 <<< (F.precision - 1)

/-- The absolute value of a finite rank in units. -/
def units (rank : Nat) : Nat :=
  if rank < F.half then rank
  else (F.half + rank % F.half) <<< (rank / F.half - 1)

/-- The exponent of the last place of the values around `num / den` units. -/
def place (num den : Nat) : Nat :=
  (num / den).log2 - (F.precision - 1)

/-- The rank nearest to `num / den` units. -/
def rankOf (num den : Nat) : Nat :=
  let e := F.place num den
  min F.infinity (e * F.half + roundDiv num (den <<< e))

end Format

/-- A number of the format; ranks above infinity are NaNs. -/
structure Binary (F : Format) where
  negative : Bool
  rank : Nat
  deriving DecidableEq, Repr

abbrev Binary32 := Binary single
abbrev Binary64 := Binary double

namespace Binary

variable {F : Format}

/-- The number `± num / den` units, rounded. -/
def ofUnits (negative : Bool) (num den : Nat) : Binary F :=
  ⟨negative, F.rankOf num den⟩

/-- The nearest number to an integer. -/
def ofInt (i : Int) : Binary F :=
  ofUnits (i < 0) (i.natAbs <<< F.scale) 1

/-- Zero without a sign. -/
def zero : Binary F := ⟨false, 0⟩

def infinity (negative : Bool) : Binary F := ⟨negative, F.infinity⟩

/-- The one NaN that arithmetic yields. -/
def nan : Binary F := ⟨false, F.infinity + 1⟩

def isNaN (x : Binary F) : Bool := F.infinity < x.rank

def isInfinite (x : Binary F) : Bool := x.rank == F.infinity

/-- The signed count of units of a finite number. -/
def signedUnits (x : Binary F) : Int :=
  if x.negative then -(F.units x.rank : Int) else F.units x.rank

def neg (x : Binary F) : Binary F := ⟨!x.negative, x.rank⟩

/-- The sum, rounded once; an exact zero is positive unless both addends are negative. -/
def add (x y : Binary F) : Binary F :=
  if x.isNaN || y.isNaN then nan
  else if x.isInfinite then
    if y.isInfinite && x.negative != y.negative then nan else x
  else if y.isInfinite then y
  else
    let sum := x.signedUnits + y.signedUnits
    if sum = 0 then ⟨x.negative && y.negative, 0⟩
    else ofUnits (sum < 0) sum.natAbs 1

instance : Add (Binary F) := ⟨add⟩

instance : Sub (Binary F) := ⟨fun x y => x.add y.neg⟩

/-- The product, rounded once; infinity times zero is no number. -/
def mul (x y : Binary F) : Binary F :=
  let negative := x.negative != y.negative
  if x.isNaN || y.isNaN then nan
  else if x.isInfinite || y.isInfinite then
    if x.rank = 0 || y.rank = 0 then nan else infinity negative
  else ofUnits negative (F.units x.rank * F.units y.rank) (1 <<< F.scale)

/-- The quotient, rounded once; zero over zero and infinity over infinity are no numbers. -/
def div (x y : Binary F) : Binary F :=
  let negative := x.negative != y.negative
  if x.isNaN || y.isNaN then nan
  else if x.isInfinite then
    if y.isInfinite then nan else infinity negative
  else if y.isInfinite then ⟨negative, 0⟩
  else if y.rank = 0 then
    if x.rank = 0 then nan else infinity negative
  else ofUnits negative (F.units x.rank <<< F.scale) (F.units y.rank)

instance : Mul (Binary F) := ⟨mul⟩

instance : Div (Binary F) := ⟨div⟩

/-- The nearest number of another format. -/
def convert {G : Format} (x : Binary F) : Binary G :=
  if x.isNaN then nan
  else if x.isInfinite then infinity x.negative
  else ofUnits x.negative (F.units x.rank <<< G.scale) (1 <<< F.scale)

/-- Position among the numbers; the two zeros share one. -/
def numericKey (x : Binary F) : Int :=
  if x.negative then -(x.rank : Int) else x.rank

/-- Numeric comparison: no NaN is at most anything. -/
def le (x y : Binary F) : Bool :=
  !x.isNaN && !y.isNaN && x.numericKey ≤ y.numericKey

/-- Numbers are equal as numbers: the zeros are equal, a NaN equals nothing. -/
instance : BEq (Binary F) :=
  ⟨fun x y => !x.isNaN && !y.isNaN && x.numericKey == y.numericKey⟩

/-- Position in the total order, in which the negative zero comes just before the positive one. -/
def totalKey (x : Binary F) : Int :=
  if x.negative then -(x.rank : Int) - 1 else x.rank

/-- The total order of the format. -/
def totalLe (x y : Binary F) : Bool :=
  x.totalKey ≤ y.totalKey

theorem totalKey_injective {x y : Binary F} (h : x.totalKey = y.totalKey) : x = y := by
  obtain ⟨s, r⟩ := x
  obtain ⟨t, q⟩ := y
  cases s <;> cases t <;> simp [totalKey] at h ⊢ <;> omega

theorem totalLe_total (x y : Binary F) : (x.totalLe y || y.totalLe x) = true := by
  simp [totalLe]; omega

theorem totalLe_trans {x y z : Binary F} (h : x.totalLe y = true) (h' : y.totalLe z = true) :
    x.totalLe z = true := by
  simp [totalLe] at *; omega

theorem totalLe_antisymm {x y : Binary F} (h : x.totalLe y = true) (h' : y.totalLe x = true) :
    x = y := by
  simp [totalLe] at *
  exact totalKey_injective (by omega)

/-- The word of a 32-bit number. -/
def word (x : Binary32) : Nat :=
  x.rank + if x.negative then 0x80000000 else 0

end Binary

end Movesets.Number
