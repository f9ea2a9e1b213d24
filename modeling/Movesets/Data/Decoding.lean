import Movesets.Data.Basic

set_option autoImplicit false

/-!
# Decoding data

How a structured value is read as a text, a number, a list or a record.  Types match exactly, but a
bare scalar is whatever its spelling allows where it stands.  A list or a scalar is never a record,
unknown fields are ignored, and a field that is present must decode and occur once.  A `Reading`
says in which ways data from one source or another is taken differently.
-/

namespace Movesets

/-- How the data of a source is taken. -/
structure Reading where
  /-- Null stands for an empty list or an empty record. -/
  nullIsEmpty : Bool
  /-- A record with a key that is no text does not decode. -/
  keysAreTexts : Bool
  /-- A name out of a fixed set may be given as a record with that one field, which is null. -/
  namesAsFields : Bool
  deriving DecidableEq, Repr

namespace Reading

def exact : Reading := ⟨false, false, true⟩

/-- Data of a file whose parts are decoded one by one. -/
def lenient : Reading := ⟨true, true, false⟩

/-- Data of a file that is decoded as a whole. -/
def verbatim : Reading := ⟨false, false, false⟩

end Reading

namespace Data

def asText? : Data → Option String
  | .text s => some s
  | .bare s => some s
  | _ => none

/-- A name out of a fixed set. -/
def asName? (R : Reading) : Data → Option String
  | .map [(.text s, .null)] => if R.namesAsFields then some s else none
  | d => d.asText?

def asBool? : Data → Option Bool
  | .bool b => some b
  | .bare s => if s = "true" then some true else if s = "false" then some false else none
  | _ => none

/-- An integer from zero up to below the bound; a bare one has no sign. -/
def asNatBelow? (bound : Nat) : Data → Option Nat
  | .int i => if 0 ≤ i ∧ i < bound then some i.toNat else none
  | .bare s => (Number.natural? s.toList).filter (· < bound)
  | _ => none

def asUInt8? (d : Data) : Option UInt8 := (d.asNatBelow? UInt8.size).map UInt8.ofNat

def asUInt16? (d : Data) : Option UInt16 := (d.asNatBelow? UInt16.size).map UInt16.ofNat

def asUInt32? (d : Data) : Option UInt32 := (d.asNatBelow? UInt32.size).map UInt32.ofNat

/-- A number of 64 bits: a position in a list, a time or a draw. -/
def asWord? (d : Data) : Option Nat := d.asNatBelow? UInt64.size

/-- An integer, which a bare scalar may be too. -/
def asInt? : Data → Option Int
  | .int i => some i
  | .bare s =>
    match s.toList with
    | '-' :: cs => (Number.natural? cs).map fun n => -(n : Int)
    | cs => (Number.natural? cs).map Int.ofNat
  | _ => none

def asInt32? (d : Data) : Option Int32 :=
  d.asInt?.bind fun i =>
    if Int32.minValue.toInt ≤ i ∧ i ≤ Int32.maxValue.toInt then some (.ofInt i) else none

/-- A 32-bit number: an integer or a real rounded once. -/
def asBinary32? : Data → Option Number.Binary32
  | .int i => some (.ofInt i)
  | .real x => some x.convert
  | _ => none

def asListOf? {α : Type} (R : Reading) (item : Data → Option α) : Data → Option (List α)
  | .list xs => xs.mapM item
  | .null => if R.nullIsEmpty then some [] else none
  | _ => none

def asFields? (R : Reading) : Data → Option (List (Key × Data))
  | .map fields =>
    if R.keysAreTexts && !fields.all (·.1.isText) then none else some fields
  | .null => if R.nullIsEmpty then some [] else none
  | _ => none

/-- The value of a field, if the key is there; a key that is there twice does not decode. -/
def field? (fields : List (Key × Data)) (key : String) : Option (Option Data) :=
  match fields.filter fun f => f.1 == .text key with
  | [] => some none
  | [f] => some (some f.2)
  | _ => none

def required? {α : Type} (fields : List (Key × Data)) (key : String) (decode : Data → Option α) :
    Option α :=
  match field? fields key with
  | some (some d) => decode d
  | _ => none

def optional? {α : Type} (fields : List (Key × Data)) (key : String) (fallback : α)
    (decode : Data → Option α) : Option α :=
  match field? fields key with
  | none => none
  | some none => some fallback
  | some (some d) => decode d

def ofNat (n : Nat) : Data := .int n

def ofInt32 (i : Int32) : Data := .int i.toInt

def ofBinary32 (x : Number.Binary32) : Data := .real x.convert

def ofTexts (ss : List String) : Data := .list (ss.map .text)

end Data

end Movesets
