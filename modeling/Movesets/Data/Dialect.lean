set_option autoImplicit false

/-!
# Kinds of text

Data is kept in texts of three kinds.  A *document* is strict JSON.  A *configuration file* is what
JSON and a richer notation have in common: lines, characters that cannot be printed and the length
of keys matter there.  A *verbatim file* is a configuration file whose records are known beforehand,
so that the meaning of a bare scalar is left to whoever decodes it.
-/

namespace Movesets.Data

/-- What sets the kinds of text apart. -/
structure Dialect where
  /-- How deeply containers may nest, if there is a limit. -/
  depth : Option Nat
  /-- The text is a configuration file. -/
  isFile : Bool
  /-- Repeated keys are kept, and so is the spelling of bare scalars. -/
  isVerbatim : Bool
  deriving DecidableEq, Repr

namespace Dialect

def document : Dialect := ⟨some 127, false, false⟩

/-- A configuration file of any shape. -/
def configuration : Dialect := ⟨some 128, true, false⟩

/-- A configuration file whose records are known. -/
def verbatim : Dialect := ⟨none, true, true⟩

end Dialect

def isBreak (c : Char) : Bool :=
  c == '\n' || c == '\r' || c == '\x85' || c == '\u2028' || c == '\u2029'

/-- The characters that may stand in a file. -/
def isPrintable (c : Char) : Bool :=
  let n := c.toNat
  n == 0x09 || n == 0x0A || n == 0x0D || (0x20 ≤ n && n ≤ 0x7E) || n == 0x85 ||
    (0xA0 ≤ n && n ≤ 0xFFFD) || 0x10000 ≤ n

/-- The white space between the parts of a text. -/
def Dialect.isGap (D : Dialect) (c : Char) : Bool :=
  c == ' ' || c == '\n' || c == '\r' || c == '\t' || (D.isFile && isBreak c)

def Dialect.skipGap (D : Dialect) (cs : List Char) : List Char :=
  cs.dropWhile D.isGap

/-- A character that is written as an escape inside quotation marks. -/
def Dialect.escapes (D : Dialect) (c : Char) : Bool :=
  c.toNat < 0x20 || (D.isFile && (!isPrintable c || isBreak c))

/-- A key of a file stands on one line with its colon, which is at most this many bytes behind the
start of the key. -/
def keyRoom : Nat := 1024

/-- The key that a text starts with ends in time for its colon; `quoted` tells whether the text
starts inside quotation marks. -/
def fitsKey (room : Nat) (quoted : Bool) : List Char → Bool
  | [] => false
  | '\\' :: c :: rest =>
    let size := 1 + c.utf8Size
    size ≤ room && fitsKey (room - size) quoted rest
  | c :: rest =>
    if c == ':' && !quoted then true
    else if isBreak c then false
    else c.utf8Size ≤ room && fitsKey (room - c.utf8Size) (quoted != (c == '"')) rest

end Movesets.Data
