import Movesets.Data.Dialect
import Movesets.Text.Hex

set_option autoImplicit false

/-!
# Texts in quotation marks

Reading and writing a text between quotation marks.  In a file such a text may run over several
lines: blanks around the end of a line are dropped, a line feed or next-line character between two
lines is a space, a line or paragraph separator stays, and empty lines stay as line feeds.
-/

namespace Movesets.Data

/-- White space of a file whose meaning hangs on what follows. -/
inductive Pending where
  /-- Blanks on one line, the last one first. -/
  | blanks (held : List Char)
  /-- The first end of a line and those after it, the last one first. -/
  | breaks (first : Char) (more : List Char)
  deriving DecidableEq, Repr

namespace Pending

def none : Pending := .blanks []

/-- One more blank; at the start of a line it is dropped. -/
def blank (c : Char) : Pending → Pending
  | .blanks held => .blanks (c :: held)
  | .breaks first more => .breaks first more

/-- One more end of a line; the blanks before it are dropped. -/
def lineEnd (c : Char) : Pending → Pending
  | .blanks _ => .breaks c []
  | .breaks first more => .breaks first (c :: more)

/-- A separator of lines or paragraphs is kept. -/
def isSeparator (c : Char) : Bool := c == '\u2028' || c == '\u2029'

/-- Every end of a line but a separator is a line feed. -/
def plainBreak (c : Char) : Char := if isSeparator c then c else '\n'

/-- The characters that the white space stands for, in front of what was read before it; the last
character comes first. -/
def onto (text : List Char) : Pending → List Char
  | .blanks held => held ++ text
  | .breaks first more =>
    if isSeparator first then more.map plainBreak ++ first :: text
    else if more.isEmpty then ' ' :: text
    else more.map plainBreak ++ text

end Pending

/-- The text starts with the mark that begins or ends a document of a file. -/
def startsMark : List Char → Bool
  | a :: b :: c :: rest =>
    (a == '-' || a == '.') && b == a && c == a &&
      match rest with
      | [] => true
      | d :: _ => d == ' ' || d == '\t' || isBreak d
  | _ => false

/-- The value of four hexadecimal digits. -/
def unit16? (a b c d : Char) : Option Nat :=
  Text.readHex [a, b, c, d]

def isHighSurrogate (n : Nat) : Bool := 0xD800 ≤ n && n < 0xDC00

def isLowSurrogate (n : Nat) : Bool := 0xDC00 ≤ n && n < 0xE000

/-- The character of an escape of one letter. -/
def escaped? : Char → Option Char
  | '"' => some '"'
  | '\\' => some '\\'
  | '/' => some '/'
  | 'b' => some '\x08'
  | 'f' => some '\x0c'
  | 'n' => some '\n'
  | 'r' => some '\r'
  | 't' => some '\t'
  | _ => none

/-- The rest of a text behind its opening quotation mark: its characters and what follows it.  The
characters read so far are given with the last one first.  Only a document may write a character as
two escapes of its 16-bit units. -/
def readQuoted (D : Dialect) (p : Pending) (text : List Char) :
    List Char → Option (List Char × List Char)
  | [] => none
  | '"' :: rest => some ((p.onto text).reverse, rest)
  | '\\' :: 'u' :: a :: b :: c :: d :: rest =>
    match unit16? a b c d with
    | none => none
    | some high =>
      if isLowSurrogate high then none
      else if isHighSurrogate high then
        match rest with
        | '\\' :: 'u' :: e :: f :: g :: h :: rest =>
          match unit16? e f g h with
          | none => none
          | some low =>
            if isLowSurrogate low && !D.isFile then
              let code := 0x10000 + (high - 0xD800) * 0x400 + (low - 0xDC00)
              readQuoted D .none (.ofNat code :: p.onto text) rest
            else none
        | _ => none
      else readQuoted D .none (.ofNat high :: p.onto text) rest
  | '\\' :: c :: rest =>
    match escaped? c with
    | none => none
    | some c => readQuoted D .none (c :: p.onto text) rest
  | c :: rest =>
    if c.toNat < 0x20 then none
    else if D.isFile && c == ' ' then readQuoted D (p.blank c) text rest
    else if D.isFile && isBreak c then
      if startsMark rest then none else readQuoted D (p.lineEnd c) text rest
    else readQuoted D .none (c :: p.onto text) rest

/-- A character inside quotation marks: quotation mark, backslash and the characters that the
dialect escapes are written as escapes, every other one stands for itself. -/
def escape (D : Dialect) (c : Char) : List Char :=
  match c with
  | '"' => ['\\', '"']
  | '\\' => ['\\', '\\']
  | '\x08' => ['\\', 'b']
  | '\t' => ['\\', 't']
  | '\n' => ['\\', 'n']
  | '\x0c' => ['\\', 'f']
  | '\r' => ['\\', 'r']
  | c => if D.escapes c then '\\' :: 'u' :: Text.lowered (Text.writeHex 4 c.toNat) else [c]

def quote (D : Dialect) (s : String) : String :=
  .ofList ('"' :: s.toList.flatMap (escape D) ++ ['"'])

end Movesets.Data
