import Movesets.Animation

set_option autoImplicit false

/-!
# Variants

A variant is one use of an animation in a playlist.  A parent opens a slot of the playlist; a child
is shown in place of the parent before it while one of its gates is open.  A gate that is never open
makes no child: `Role.ofFlags` reads a variant without gates as a parent, and a `Gate` always has
one.
-/

namespace Movesets

/-- A set of the eight movement directions; direction code `k` is bit `k - 1`. -/
structure Directions where
  bits : UInt8
  deriving DecidableEq, Repr

namespace Directions

def names : List String :=
  ["FRONT", "FRONT_RIGHT", "RIGHT", "BACK_RIGHT", "BACK", "BACK_LEFT", "LEFT", "FRONT_LEFT"]

def empty : Directions := ⟨0⟩

def parse? (s : String) : Option Directions := (FlagSet.parse? names s).map .mk

def print (d : Directions) : String := FlagSet.print names d.bits

def isEmpty (d : Directions) : Bool := d.bits == 0

/-- The set of one direction; there are directions of code 1 to 8. -/
def ofCode? (code : Nat) : Option Directions :=
  if 1 ≤ code ∧ code ≤ 8 then some ⟨UInt8.ofNat (1 <<< (code - 1))⟩ else none

/-- The set holds the direction of a code. -/
def hasCode (d : Directions) (code : Nat) : Bool :=
  1 ≤ code && code ≤ 8 && FlagSet.hasBit d.bits (code - 1)

/-- The codes of the set in ascending order. -/
def codes (d : Directions) : List Nat :=
  [1, 2, 3, 4, 5, 6, 7, 8].filter d.hasCode

@[simp] theorem mem_codes {d : Directions} {code : Nat} :
    code ∈ d.codes ↔ d.hasCode code = true := by
  simp only [codes, List.mem_filter, and_iff_right_iff_imp]
  intro h
  simp only [hasCode, Bool.and_eq_true, decide_eq_true_eq] at h
  have : code = 1 ∨ code = 2 ∨ code = 3 ∨ code = 4 ∨ code = 5 ∨ code = 6 ∨ code = 7 ∨ code = 8 := by
    omega
  simpa using this

end Directions

/-- What has to happen for a child to be shown; at least one of the three. -/
structure Gate where
  directions : Directions
  random : Bool
  movement : Bool
  opens : directions.isEmpty = false ∨ random = true ∨ movement = true
  deriving DecidableEq, Repr

/-- Whether a variant opens a slot or belongs to the one before it. -/
inductive Role where
  | parent
  | child (gate : Gate)
  deriving DecidableEq, Repr

namespace Role

def ofFlags (directions : Directions) (random movement : Bool) : Role :=
  if h : directions.isEmpty = false ∨ random = true ∨ movement = true then
    .child ⟨directions, random, movement, h⟩
  else .parent

def isParent : Role → Bool
  | parent => true
  | child _ => false

def gate? : Role → Option Gate
  | parent => none
  | child g => some g

def directions (r : Role) : Directions := (r.gate?.map Gate.directions).getD .empty

def random (r : Role) : Bool := (r.gate?.map Gate.random).getD false

def movement (r : Role) : Bool := (r.gate?.map Gate.movement).getD false

@[simp] theorem ofFlags_flags (r : Role) : ofFlags r.directions r.random r.movement = r := by
  cases r with
  | parent => rfl
  | child g => simp [ofFlags, directions, random, movement, gate?, g.opens]

def toData (r : Role) : Data :=
  .record [("directions", .text r.directions.print), ("random", .bool r.random),
    ("movement", .bool r.movement)]

def ofData? (R : Reading) (d : Data) : Option Role := do
  let fields ← d.asFields? R
  let directions ← Data.optional? fields "directions" .empty
    fun d => d.asText?.bind Directions.parse?
  let random ← Data.optional? fields "random" false Data.asBool?
  let movement ← Data.optional? fields "movement" false Data.asBool?
  return .ofFlags directions random movement

end Role

/-- One use of an animation in a playlist. -/
structure Variant where
  source : Source
  displayName : String
  selected : Bool
  role : Role
  deriving DecidableEq, Repr

namespace Variant

def plain (source : Source) (role : Role) : Variant := ⟨source, "", true, role⟩

def isParent (v : Variant) : Bool := v.role.isParent

def toData (v : Variant) : Data :=
  .record [("source", v.source.toData), ("display_name", .text v.displayName),
    ("selected", .bool v.selected), ("role", v.role.toData)]

def ofData? (R : Reading) (d : Data) : Option Variant := do
  let fields ← d.asFields? R
  let source ← Data.required? fields "source" (Source.ofData? R)
  let displayName ← Data.optional? fields "display_name" "" Data.asText?
  let selected ← Data.optional? fields "selected" true Data.asBool?
  let role ← Data.optional? fields "role" .parent (Role.ofData? R)
  return ⟨source, displayName, selected, role⟩

end Variant

end Movesets
