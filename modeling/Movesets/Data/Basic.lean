import Movesets.Number.Decimal

set_option autoImplicit false

/-!
# Structured data

The values that configuration files and documents are made of.  A map keeps its fields in order and
looks a key up by its first occurrence.  A key is usually a text; files may also hold bare keys such
as `5` or `null`, which no text equals.  A bare scalar is one without quotation marks that has not
been told to be a number, a boolean or null, because that depends on what is wanted in its place.
-/

namespace Movesets

/-- A key of a map: a text, or a bare number, boolean or null with its spelling. -/
inductive Key where
  | text (s : String)
  | bare (spelling : String)
  deriving DecidableEq, Repr

def Key.isText : Key → Bool
  | .text _ => true
  | .bare _ => false

inductive Data where
  | null
  | bool (b : Bool)
  | int (i : Int)
  | real (x : Number.Binary64)
  | text (s : String)
  | bare (spelling : String)
  | list (items : List Data)
  | map (fields : List (Key × Data))
  deriving Repr, Inhabited

namespace Data

def record (fields : List (String × Data)) : Data :=
  .map (fields.map fun f => (.text f.1, f.2))

/-- The value of the first field with the key. -/
def lookup (key : Key) (fields : List (Key × Data)) : Option Data :=
  (fields.find? fun f => f.1 == key).map (·.2)

/-- The field of a map with a text key; `none` for every other value. -/
def get? (d : Data) (key : String) : Option Data :=
  match d with
  | .map fields => lookup (.text key) fields
  | _ => none

def text? : Data → Option String
  | .text s => some s
  | _ => none

def list? : Data → Option (List Data)
  | .list xs => some xs
  | _ => none

def isMap : Data → Bool
  | .map _ => true
  | _ => false

def isNull : Data → Bool
  | .null => true
  | _ => false

@[simp] theorem get?_record_nil (key : String) : (record []).get? key = none := rfl

@[simp] theorem get?_record_cons (key name : String) (value : Data) (rest : List (String × Data)) :
    (record ((name, value) :: rest)).get? key =
      if name = key then some value else (record rest).get? key := by
  by_cases h : name = key <;> simp [record, get?, lookup, h]

end Data

end Movesets
