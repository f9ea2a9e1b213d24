import Movesets.Data.Basic
import Movesets.Data.Quoted
import Movesets.Number.Scaled

set_option autoImplicit false

/-!
# Reading data from text

One grammar, that of JSON, in the three dialects.  In a document the last field with a key wins, and
fields are put in the order of their keys.  A file keeps its fields in the order of the text, admits
bare numbers, booleans and null as keys, which a colon ends only in front of white space, and knows
infinities; unless it is verbatim it refuses a repeated key, and takes a number that is too large to
be finite for a text.

The readers take the rest of the text and return what remains of it; `fuel` bounds their calls and
is computed from the length of the text.
-/

namespace Movesets.Data

/-- The fields with one more in the order of text keys, replacing a field of the same key. -/
def insertSorted (key : String) (value : Data) : List (Key × Data) → List (Key × Data)
  | [] => [(.text key, value)]
  | (.text k, v) :: rest =>
    if key < k then (.text key, value) :: (.text k, v) :: rest
    else if key = k then (.text key, value) :: rest
    else (.text k, v) :: insertSorted key value rest
  | f :: rest => f :: insertSorted key value rest

/-- One more field of a map under construction; the fields so far are in the dialect's order. -/
def Dialect.addField (D : Dialect) (fields : List (Key × Data)) (key : Key) (value : Data) :
    Option (List (Key × Data)) :=
  match D.isFile, key with
  | false, .text k => some (insertSorted k value fields)
  | false, .bare _ => none
  | true, key =>
    if !D.isVerbatim && fields.any (·.1 == key) then none else some (fields ++ [(key, value)])

/-- The parts of a number as it is spelled; the exponent may be missing. -/
structure NumberParts where
  negative : Bool
  whole : List Char
  fraction : List Char
  exponent : Option Int
  deriving Repr

namespace NumberParts

/-- The digits before the point: a zero, or a run that does not start with one. -/
def readWhole : List Char → Option (List Char × List Char)
  | '0' :: rest => some (['0'], rest)
  | cs =>
    match cs.takeWhile Char.isDigit with
    | [] => none
    | ds => some (ds, cs.dropWhile Char.isDigit)

/-- The digits behind a point, if there is one. -/
def readFraction : List Char → Option (List Char × List Char)
  | '.' :: rest =>
    match rest.takeWhile Char.isDigit with
    | [] => none
    | ds => some (ds, rest.dropWhile Char.isDigit)
  | cs => some ([], cs)

/-- The exponent, if there is one. -/
def readExponent : List Char → Option (Option Int × List Char)
  | 'e' :: rest => (Number.readExponent? rest).map fun r => (some r.1, r.2)
  | 'E' :: rest => (Number.readExponent? rest).map fun r => (some r.1, r.2)
  | cs => some (none, cs)

/-- The sign in front of a number, and what follows it. -/
def readSign : List Char → Bool × List Char
  | '-' :: rest => (true, rest)
  | cs => (false, cs)

/-- The parts of a text that is a number. -/
def read? (cs : List Char) : Option NumberParts := do
  let (negative, cs) := readSign cs
  let (whole, cs) ← readWhole cs
  let (fraction, cs) ← readFraction cs
  let (exponent, cs) ← readExponent cs
  if cs.isEmpty then some ⟨negative, whole, fraction, exponent⟩ else none

def isInteger (n : NumberParts) : Bool := n.fraction.isEmpty && n.exponent.isNone

def integer (n : NumberParts) : Int :=
  if n.negative then -Number.readDigits n.whole else Number.readDigits n.whole

def nearest (n : NumberParts) : Number.Binary64 :=
  (Number.Numeral.ofParts n.negative n.whole n.fraction (n.exponent.getD 0)).toBinary

def scaled? (n : NumberParts) : Option Number.Binary64 :=
  Number.Scaled.read? n.negative n.whole n.fraction (n.exponent.getD 0)

end NumberParts

/-- An integer of 64 bits, with or without a sign. -/
def isWord (i : Int) : Bool := Int64.minValue.toInt ≤ i && i < UInt64.size

/-- An integer of 128 bits, with or without a sign. -/
def isDoubleWord (i : Int) : Bool := -Int.pow 2 127 ≤ i && i < Int.pow 2 128

/-- A number of a document: an integer of 64 bits other than minus zero, else a number that is read
by scaling and has to be finite. -/
def documentNumber? (n : NumberParts) : Option Data :=
  if n.isInteger && isWord n.integer && !(n.negative && n.integer == 0) then some (.int n.integer)
  else n.scaled?.map .real

/-- A number of a configuration file: an integer of 64 bits, else the nearest number, else a text.
An integer of more than 64 bits is refused while it has at most 128. -/
def fileNumber? (n : NumberParts) (spelling : String) : Option Data :=
  if n.isInteger && isWord n.integer then some (.int n.integer)
  else if n.isInteger && isDoubleWord n.integer then none
  else if n.nearest.isInfinite then some (.text spelling)
  else some (.real n.nearest)

def words : List (String × Data) :=
  [("null", .null), ("true", .bool true), ("false", .bool false)]

/-- The words that are values of a file alone. -/
def fileWords : List (String × Data) :=
  [(".inf", .real (.infinity false)), ("-.inf", .real (.infinity true)), (".nan", .real .nan)]

def Dialect.words (D : Dialect) : List (String × Data) :=
  if D.isFile then Data.words ++ fileWords else Data.words

/-- A value that is a word: its spelling, the value, and what follows it. -/
def readWord (D : Dialect) (cs : List Char) : Option (String × Data × List Char) :=
  D.words.findSome? fun w =>
    if w.1.toList.isPrefixOf cs then some (w.1, w.2, cs.drop w.1.length) else none

/-- A character that a number may be written with. -/
def isNumberChar (c : Char) : Bool :=
  c.isDigit || c == '-' || c == '+' || c == '.' || c == 'e' || c == 'E'

/-- A number: its spelling, its value, and what follows it. -/
def readNumber (D : Dialect) (cs : List Char) : Option (String × Data × List Char) := do
  let token := cs.takeWhile isNumberChar
  let spelling := String.ofList token
  let n ← NumberParts.read? token
  let d ← if D.isFile then fileNumber? n spelling else documentNumber? n
  return (spelling, d, cs.dropWhile isNumberChar)

/-- The spelling of a bare scalar of a verbatim file and what follows it. -/
def readVerbatim (D : Dialect) (cs : List Char) : Option (String × List Char) :=
  match readWord D cs with
  | some (spelling, _, rest) => some (spelling, rest)
  | none =>
    let token := cs.takeWhile isNumberChar
    (NumberParts.read? token).map fun _ => (.ofList token, cs.dropWhile isNumberChar)

/-- A value without quotation marks or brackets: its spelling, its value, and what follows it. -/
def readBare (D : Dialect) (cs : List Char) : Option (String × Data × List Char) :=
  if D.isVerbatim then (readVerbatim D cs).map fun (s, rest) => (s, .bare s, rest)
  else readWord D cs <|> readNumber D cs

/-- A text whose opening quotation mark is read. -/
def readText (D : Dialect) (cs : List Char) : Option (String × List Char) :=
  (readQuoted D .none [] cs).map fun r => (.ofList r.1, r.2)

/-- A comma, bracket or brace: it ends a bare key wherever it stands. -/
def isDelimiter (c : Char) : Bool :=
  c == ',' || c == '[' || c == ']' || c == '\x7b' || c == '\x7d'

/-- The characters of a bare key, with the last one first, and what follows them.  A colon ends the
key if white space is behind it and else belongs to it, but none may stand before a delimiter or a
question mark, nor a number sign behind a blank.  `seen` is what is read so far. -/
def scanBareKey (seen : List Char) : List Char → Option (List Char × List Char)
  | [] => some (seen, [])
  | [':'] => some (seen, [':'])
  | ':' :: c :: rest =>
    if Dialect.configuration.isGap c then some (seen, ':' :: c :: rest)
    else if isDelimiter c || c == '?' then none
    else scanBareKey (':' :: seen) (c :: rest)
  | c :: rest =>
    if isBreak c || isDelimiter c then some (seen, c :: rest)
    else if c == '#' && seen.head?.all Dialect.configuration.isGap then none
    else scanBareKey (c :: seen) rest

/-- The key that is spelled so: a number, a boolean or null is bare, all else is a text. -/
def keyOfSpelling (D : Dialect) (spelling : List Char) : Key :=
  match readBare D spelling with
  | some (_, .text s, []) => .text s
  | some (s, _, []) => .bare s
  | _ => .text (.ofList spelling)

/-- The field ends here, which leaves its key without a value. -/
def Dialect.endsField (D : Dialect) (cs : List Char) : Bool :=
  match D.skipGap cs with
  | c :: _ => c == ',' || c == '\x7d'
  | [] => false

/-- A key of a file that starts like a number, a boolean or null, without the blanks behind it, and
what follows it: a colon on the same line and near enough, or the end of the field. -/
def readBareKey (D : Dialect) (cs : List Char) : Option (Key × List Char) := do
  guard (readBare D cs).isSome
  let (seen, rest) ← scanBareKey [] cs
  let key := keyOfSpelling D (seen.dropWhile D.isGap).reverse
  match rest with
  | ':' :: _ => if (String.ofList seen).utf8ByteSize ≤ keyRoom then some (key, rest) else none
  | _ => if D.endsField rest then some (key, rest) else none

/-- The key of a field and what follows it.  A file may set a key off by a question mark, and limits
the others to one short line if a colon follows. -/
def readKey (D : Dialect) : List Char → Option (Key × List Char)
  | '"' :: cs =>
    match readText D cs with
    | none => none
    | some (s, rest) =>
      if D.isFile && !fitsKey (keyRoom - 1) true cs && !D.endsField rest then none
      else some (.text s, rest)
  | '?' :: ' ' :: '"' :: cs =>
    if D.isFile then (readText D cs).map fun r => (.text r.1, r.2) else none
  | cs => if D.isFile then readBareKey D cs else none

mutual

/-- A value at the start of the text; `depth` containers may still be opened. -/
def readValue (D : Dialect) : Nat → Nat → List Char → Option (Data × List Char)
  | 0, _, _ => none
  | fuel + 1, depth, cs =>
    match cs, depth with
    | '"' :: rest, _ => (readText D rest).map fun r => (.text r.1, r.2)
    | '[' :: _, 0 => none
    | '\x7b' :: _, 0 => none
    | '[' :: rest, depth + 1 =>
      match D.skipGap rest with
      | ']' :: rest => some (.list [], rest)
      | rest => (readItems D fuel depth rest).map fun r => (.list r.1, r.2)
    | '\x7b' :: rest, depth + 1 =>
      match D.skipGap rest with
      | '\x7d' :: rest => some (.map [], rest)
      | rest => (readFields D fuel depth [] rest).map fun r => (.map r.1, r.2)
    | cs, _ => (readBare D cs).map (·.2)
termination_by structural fuel => fuel

/-- The items of a list and its closing bracket. -/
def readItems (D : Dialect) : Nat → Nat → List Char → Option (List Data × List Char)
  | 0, _, _ => none
  | fuel + 1, depth, cs =>
    match readValue D fuel depth cs with
    | none => none
    | some (d, rest) =>
      match D.skipGap rest with
      | ',' :: rest => (readItems D fuel depth (D.skipGap rest)).map fun r => (d :: r.1, r.2)
      | ']' :: rest => some ([d], rest)
      | _ => none

/-- The fields of a map after those read so far, and its closing brace. -/
def readFields (D : Dialect) :
    Nat → Nat → List (Key × Data) → List Char → Option (List (Key × Data) × List Char)
  | 0, _, _, _ => none
  | fuel + 1, depth, fields, cs =>
    match readKey D cs with
    | none => none
    | some (key, rest) =>
      match readHeld D fuel depth (D.skipGap rest) with
      | none => none
      | some (d, rest) =>
        match D.addField fields key d with
        | none => none
        | some fields =>
          match D.skipGap rest with
          | ',' :: rest => readFields D fuel depth fields (D.skipGap rest)
          | '\x7d' :: rest => some (fields, rest)
          | _ => none

/-- The value that a key holds, behind its colon; in a file a key without a colon holds null. -/
def readHeld (D : Dialect) : Nat → Nat → List Char → Option (Data × List Char)
  | 0, _, _ => none
  | fuel + 1, depth, cs =>
    match cs with
    | ':' :: rest => readValue D fuel depth (D.skipGap rest)
    | cs => if D.isFile then some (.null, cs) else none

end

/-- The value is written in quotation marks or brackets. -/
def isEnclosed : List Char → Bool
  | c :: _ => c == '"' || c == '[' || c == '\x7b'
  | [] => false

/-- The white space around the value of a file: no tab comes before the value, and behind a value
that is enclosed none comes on a later line. -/
def allowsAround (lead value trail : List Char) : Bool :=
  !lead.contains '\t' &&
    !(isEnclosed value && (trail.dropWhile fun c => !isBreak c).contains '\t')

/-- A file around its value: all its characters can be printed, and the white space is allowed. -/
def isWellFramed (cs value trail : List Char) : Bool :=
  cs.all isPrintable && allowsAround (cs.takeWhile Dialect.configuration.isGap) value trail

/-- The value that the text is. -/
def read? (D : Dialect) (s : String) : Option Data :=
  let cs := s.toList
  let value := D.skipGap cs
  match readValue D (2 * cs.length + 2) (D.depth.getD cs.length) value with
  | none => none
  | some (d, rest) =>
    if !(D.skipGap rest).isEmpty then none
    else if D.isFile && !isWellFramed cs value rest then none
    else some d

/-- A file without a value: nothing but spaces and line breaks. -/
def isEmptyFile (s : String) : Bool :=
  s.toList.all fun c => c == ' ' || isBreak c

end Movesets.Data
