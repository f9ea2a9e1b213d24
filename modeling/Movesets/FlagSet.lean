import Movesets.Text.Blank
import Movesets.Text.Hex
import Movesets.Text.Split

set_option autoImplicit false

/-!
# Sets of named flags

A set of flags is a byte whose bits have names, from bit 0 upward.  As text it is the names of the
set bits in that order, then the bits without a name as one hexadecimal number, joined by bars.
Reading accepts the parts in any order, blanks around each not counted, and a hexadecimal number in
the place of any name.
-/

namespace Movesets.FlagSet

/-- The byte that a hexadecimal number names; a plus sign may stand before its digits. -/
def readByte? (cs : List Char) : Option UInt8 :=
  let digits := match cs with
    | '+' :: ds => ds
    | ds => ds
  (Text.readHex digits).bind fun n => if n < 256 then some (UInt8.ofNat n) else none

/-- The bits that one part stands for. -/
def readPart? (names : List String) (part : List Char) : Option UInt8 :=
  match part with
  | '0' :: 'x' :: digits => readByte? digits
  | [] => none
  | name => (names.findIdx? fun n => n.toList == name).map fun i => UInt8.ofNat (1 <<< i)

/-- The set that a text names; a blank text names the empty set. -/
def parse? (names : List String) (s : String) : Option UInt8 :=
  let cs := s.toList
  if (Text.trim cs).isEmpty then some 0
  else
    ((Text.splitOn '|' cs).mapM fun part => readPart? names (Text.trim part)).map
      fun parts => parts.foldl (· ||| ·) 0

/-- Bit `i` is set. -/
def hasBit (bits : UInt8) (i : Nat) : Bool :=
  bits.toNat.testBit i

/-- The text of a set. -/
def print (names : List String) (bits : UInt8) : String :=
  let named := (names.zipIdx.filter fun n => hasBit bits n.2).map (·.1)
  let unnamed := bits.toNat >>> names.length <<< names.length
  let rest :=
    if unnamed = 0 then [] else ["0x" ++ String.ofList (Text.lowered (Text.shortHex unnamed))]
  " | ".intercalate (named ++ rest)

end Movesets.FlagSet
