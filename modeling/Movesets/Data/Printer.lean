import Movesets.Data.Basic
import Movesets.Data.Quoted

set_option autoImplicit false

/-!
# Data as text

Data is written in JSON, on one line or indented by two spaces.  Fields are written in the order the
map holds them.  In a file, infinities and NaN have the spellings `.inf` and `.nan`, a bare scalar
or key is written as it was spelled, and a key that is too long for one is set off by a question
mark.
-/

namespace Movesets.Data

/-- A value that is neither a list nor a map. -/
def scalarText (D : Dialect) : Data → String
  | .null => "null"
  | .bool b => if b then "true" else "false"
  | .int i => .ofList (Number.integerText i)
  | .real x => x.dotted
  | .text s => quote D s
  | .bare s => s
  | .list _ => "[]"
  | .map _ => "\x7b\x7d"

def keyText (D : Dialect) : Key → String
  | .text s =>
    let quoted := quote D s
    if D.isFile && keyRoom < quoted.utf8ByteSize then "? " ++ quoted else quoted
  | .bare s => s

/-- What stands between a key and its value on one line; a bare key would take in a colon that no
blank follows. -/
def keyEnd : Key → String
  | .text _ => ":"
  | .bare _ => ": "

mutual

/-- The pieces of the value on one line. -/
def compactParts (D : Dialect) : Data → List String
  | .list xs => "[" :: compactItems D xs
  | .map fs => "\x7b" :: compactFields D fs
  | d => [scalarText D d]

/-- The items of a list, each but the last followed by a comma, and the closing bracket. -/
def compactItems (D : Dialect) : List Data → List String
  | [] => ["]"]
  | [d] => compactParts D d ++ ["]"]
  | d :: ds => compactParts D d ++ "," :: compactItems D ds

/-- The fields of a map, each but the last followed by a comma, and the closing brace. -/
def compactFields (D : Dialect) : List (Key × Data) → List String
  | [] => ["\x7d"]
  | [(k, d)] => keyText D k :: keyEnd k :: compactParts D d ++ ["\x7d"]
  | (k, d) :: fs => keyText D k :: keyEnd k :: compactParts D d ++ "," :: compactFields D fs

end

def compact (D : Dialect) (d : Data) : String :=
  String.join (compactParts D d)

def lineBreak (depth : Nat) : String :=
  "\n" ++ String.ofList (List.replicate (2 * depth) ' ')

mutual

/-- The pieces of the value over several lines, its parts indented one step more than `depth`. -/
def prettyParts (D : Dialect) (depth : Nat) : Data → List String
  | .list [] => ["[]"]
  | .map [] => ["\x7b\x7d"]
  | .list xs => "[" :: prettyItems D (depth + 1) xs ++ [lineBreak depth, "]"]
  | .map fs => "\x7b" :: prettyFields D (depth + 1) fs ++ [lineBreak depth, "\x7d"]
  | d => [scalarText D d]

def prettyItems (D : Dialect) (depth : Nat) : List Data → List String
  | [] => []
  | [d] => lineBreak depth :: prettyParts D depth d
  | d :: ds => lineBreak depth :: prettyParts D depth d ++ "," :: prettyItems D depth ds

def prettyFields (D : Dialect) (depth : Nat) : List (Key × Data) → List String
  | [] => []
  | [(k, d)] => lineBreak depth :: keyText D k :: ": " :: prettyParts D depth d
  | (k, d) :: fs =>
    lineBreak depth :: keyText D k :: ": " :: prettyParts D depth d ++
      "," :: prettyFields D depth fs

end

def pretty (D : Dialect) (d : Data) : String :=
  String.join (prettyParts D 0 d)

end Movesets.Data
