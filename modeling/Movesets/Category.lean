import Movesets.Playlist.Order
import Movesets.Table

set_option autoImplicit false

/-!
# Categories

A category describes what is held in the two hands, by the equipped type and by keywords of the
equipped item, and holds one playlist for each stance.
-/

namespace Movesets

inductive Hand where
  | right
  | left
  deriving DecidableEq, Repr

/-- The equipped type that stands for any type. -/
def anyType : Int32 := -1

def shieldType : Int32 := 10

/-- The equipped types of the weapons held in one hand: sword, dagger, war axe and mace. -/
def oneHandedTypes : List Int32 := [1, 2, 3, 4]

def stanceCount : Nat := 4

/-- A configuration of the two hands with its playlists. -/
structure Category where
  name : String
  rightType : Int32
  leftType : Int32
  dualWield : Bool
  shield : Bool
  custom : Bool
  rightKeywords : List String
  leftKeywords : List String
  stances : List Playlist
  deriving BEq, Repr

namespace Category

/-- A category known by its name and the type in the right hand, with empty stances. -/
def plain (name : String) (rightType : Int32) : Category :=
  ⟨name, rightType, anyType, false, false, false, [], [], List.replicate stanceCount []⟩

def equipType (c : Category) : Hand → Int32
  | .right => c.rightType
  | .left => c.leftType

/-- The keywords asked of the item in a hand. -/
def keywords (c : Category) : Hand → List String
  | .right => c.rightKeywords
  | .left => c.leftKeywords

def withKeywords (c : Category) (hand : Hand) (keywords : List String) : Category :=
  match hand with
  | .right => { c with rightKeywords := keywords }
  | .left => { c with leftKeywords := keywords }

def stance? (c : Category) (i : Nat) : Option Playlist := c.stances[i]?

/-- The list of stances cut or filled up with empty ones to a length. -/
def resize (c : Category) (length : Nat) : Category :=
  { c with stances := c.stances.take length ++ List.replicate (length - c.stances.length) [] }

def normalized (c : Category) : Category := c.resize stanceCount

def cleared (c : Category) : Category := { c with stances := List.replicate stanceCount [] }

def modifyStance (c : Category) (i : Nat) (f : Playlist → Playlist) : Category :=
  { c with stances := c.stances.modify i f }

@[simp] theorem length_normalized (c : Category) : c.normalized.stances.length = stanceCount := by
  simp [normalized, resize]; omega

@[simp] theorem length_cleared (c : Category) : c.cleared.stances.length = stanceCount := by
  simp [cleared]

def toData (c : Category) : Data :=
  .record [("name", .text c.name), ("right_type", .ofInt32 c.rightType),
    ("left_type", .ofInt32 c.leftType), ("dual_wield", .bool c.dualWield),
    ("shield", .bool c.shield), ("custom", .bool c.custom),
    ("right_keywords", .ofTexts c.rightKeywords), ("left_keywords", .ofTexts c.leftKeywords),
    ("stances", .list (c.stances.map fun p => .list (p.map Entry.toData)))]

def ofData? (R : Reading) (d : Data) : Option Category := do
  let fields ← d.asFields? R
  let texts := Data.asListOf? R Data.asText?
  let name ← Data.required? fields "name" Data.asText?
  let rightType ← Data.optional? fields "right_type" anyType Data.asInt32?
  let leftType ← Data.optional? fields "left_type" anyType Data.asInt32?
  let dualWield ← Data.optional? fields "dual_wield" false Data.asBool?
  let shield ← Data.optional? fields "shield" false Data.asBool?
  let custom ← Data.optional? fields "custom" false Data.asBool?
  let rightKeywords ← Data.optional? fields "right_keywords" [] texts
  let leftKeywords ← Data.optional? fields "left_keywords" [] texts
  let stances ← Data.optional? fields "stances" []
    (Data.asListOf? R (Data.asListOf? R (Entry.ofData? R)))
  return ⟨name, rightType, leftType, dualWield, shield, custom, rightKeywords, leftKeywords,
    stances⟩

def builtIn : List Category :=
  [{ plain "Unarmed" 0 with leftType := 0 },
    plain "Sword" 1,
    plain "Dagger" 2,
    plain "War Axe" 3,
    plain "Mace" 4,
    plain "Greatsword" 5,
    { plain "Battleaxe" 6 with rightKeywords := ["WeapTypeBattleaxe"] },
    { plain "Warhammer" 6 with rightKeywords := ["WeapTypeWarhammer"] },
    plain "Bow" 7,
    { plain "Dual Sword" 1 with leftType := 1, dualWield := true },
    { plain "Dual Dagger" 2 with leftType := 2, dualWield := true },
    { plain "One-Handed and Shield" anyType with leftType := shieldType, shield := true }]

end Category

/-- Categories by key; a key is usually the name of its category. -/
abbrev Categories := Table String Category

namespace Categories

def builtIn : Categories := Table.ofList (Category.builtIn.map fun c => (c.name, c))

/-- The table with an emptied copy of every template that it lacks. -/
def fillFrom (templates : Categories) (cs : Categories) : Categories :=
  templates.toList.foldl (fun t e => t.insertNew e.1 e.2.cleared) cs

def lacking (templates : Categories) (cs : Categories) : Nat :=
  templates.keys.countP fun k => !cs.contains k

def toData (cs : Categories) : Data :=
  .record (cs.toList.map fun e => (e.1, e.2.toData))

end Categories

end Movesets
