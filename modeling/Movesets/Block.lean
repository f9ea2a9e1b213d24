import Movesets.Exclusion
import Movesets.Rule

set_option autoImplicit false

/-!
# Condition blocks

Every placement of a playlist becomes one conjunction: the conditions shared by the whole stance,
the ordinal of its parent, and what separates a parent from its children.  Blocks of different
rules, categories, stances and ordinals exclude one another, and a parent excludes its children.
-/

namespace Movesets

/-- A compiled conjunction and the placement it activates. -/
structure Block where
  entryIndex : Nat
  variantIndex : Nat
  source : Source
  ordinal : UInt32
  isParent : Bool
  parts : List Condition
  deriving Repr

namespace Block

def condition (b : Block) : Condition := .all b.parts

def equals (v : Variable) (value : Int32) : Condition := .is (.graphValue v value)

/-- The actors of a matcher. -/
def identity : Matcher → Condition
  | .player => .is (.actorBase .playerBase)
  | .general => .isNot (.actorBase .playerBase)
  | .unique base => .is (.actorBase base)
  | .faction f => .is (.factionMember f)
  | .keyword k => .is (.actorKeyword k)
  | .race r => .is (.race r)

/-- Some keyword of the category is on the item in a hand; nothing is asked without keywords. -/
def keywordParts (c : Category) (hand : Hand) : List Condition :=
  match c.keywords hand with
  | [] => []
  | [k] => [.is (.equippedKeyword hand k)]
  | ks => [.any (ks.map fun k => .is (.equippedKeyword hand k))]

/-- A conjunction of tests, unless there are none. -/
def exclusionParts (tests : List Test) : List Condition :=
  if tests.isEmpty then [] else [.all (tests.map .test)]

/-- The keywords of the category in a hand, and not those of its competitors. -/
def handParts (cs : Categories) (c : Category) (hand : Hand) : List Condition :=
  keywordParts c hand ++ exclusionParts (Exclusion.competing cs c hand)

/-- The type in the right hand; any type stands for a one-handed weapon that no custom shield
category claims. -/
def rightTypeParts (cs : Categories) (c : Category) : List Condition :=
  if c.rightType = anyType then
    .any (oneHandedTypes.map fun code => .is (.equippedType .right code)) ::
      exclusionParts (Exclusion.shields cs c)
  else [.is (.equippedType .right c.rightType)]

/-- The type in the left hand, unless any will do. -/
def leftTypeParts (c : Category) : List Condition :=
  if c.leftType = anyType then [] else [.is (.equippedType .left c.leftType)]

/-- The tier of a rule; without a rule that of the player. -/
def tierOf (rule : Option Rule) : Int32 :=
  (rule.elim RuleKind.player Rule.kind).priority

/-- Stances are told apart for the player and where there is no rule. -/
def hasStances (rule : Option Rule) : Bool := rule.elim true Rule.isPlayer

/-- The value that selects a stance: the stance from one as a 32-bit integer, or zero. -/
def stanceValue (rule : Option Rule) (stance : Nat) : Int32 :=
  if hasStances rule then Int32.ofNat stance + 1 else 0

/-- What every block of a stance asks. -/
def shared (cs : Categories) (rule : Option Rule) (c : Category) (stance : Nat) : List Condition :=
  (rule.map fun r => identity r.matcher).toList ++
  [equals .priorityTier (tierOf rule)] ++
  rightTypeParts cs c ++
  handParts cs c .right ++
  (if c.leftKeywords.isEmpty then [] else handParts cs c .left) ++
  leftTypeParts c ++
  [equals .stanceSelector (stanceValue rule stance)]

/-- A direction of movement as a value of its variable. -/
def isDirection (code : Nat) : Fact := .graphValue .direction (Int32.ofNat code)

def isPicked (ordinal : UInt32) : Fact := .graphValue .randomSelector ordinal.toInt32

/-- What a child waits for. -/
def childParts (ordinal : UInt32) (g : Gate) : List Condition :=
  (if g.directions.codes.isEmpty then []
    else [.any (g.directions.codes.map fun code => .is (isDirection code))]) ++
  (if g.movement then [.is .moving] else []) ++
  (if g.random then [.is (isPicked ordinal)] else [])

/-- The direction codes of some gates, ascending, each once. -/
def gateCodes (gates : List Gate) : List Nat :=
  [1, 2, 3, 4, 5, 6, 7, 8].filter fun code => gates.any fun g => g.directions.hasCode code

/-- A parent steps aside whenever a gate of one of its children is open. -/
def parentParts (ordinal : UInt32) (gates : List Gate) : List Condition :=
  let negations : List Condition :=
    (gateCodes gates).map (fun code => .isNot (isDirection code)) ++
    (if gates.any Gate.movement then [.isNot .moving] else []) ++
    (if gates.any Gate.random then [.isNot (isPicked ordinal)] else [])
  if negations.isEmpty then [] else [.all negations]

/-- The gates of the children that come before the next parent. -/
def childGates (rest : List Placement) : List Gate :=
  (rest.takeWhile fun p => !p.isParent).filterMap fun p => p.variant.role.gate?

/-- What separates a placement from those that share its ordinal. -/
def gateParts (p : Placement) (rest : List Placement) : List Condition :=
  match p.variant.role with
  | .parent => parentParts p.ordinal (childGates rest)
  | .child g => childParts p.ordinal g

/-- The block of a placement, given the placements behind it. -/
def ofPlacement (shared : List Condition) (p : Placement) (rest : List Placement) : Block :=
  ⟨p.entryIndex, p.variantIndex, p.variant.source, p.ordinal, p.isParent,
    shared ++ [equals .playlistOrder p.ordinal.toInt32] ++ gateParts p rest⟩

def ofPlacements (shared : List Condition) : List Placement → List Block
  | [] => []
  | p :: rest => ofPlacement shared p rest :: ofPlacements shared rest

/-- The blocks of one stance of a category, in the order of its playlist. -/
def compileAll (cs : Categories) (rule : Option Rule) (c : Category) (stance : Nat) (p : Playlist) :
    List Block :=
  ofPlacements (shared cs rule c stance) (Playlist.order p)

/-- A choice of blocks, or the kill switch if there is none. -/
def choice (parts : List Condition) : Condition :=
  if parts.isEmpty then .killSwitch else .any parts

def compile (cs : Categories) (rule : Option Rule) (c : Category) (stance : Nat) (p : Playlist) :
    Condition :=
  choice ((compileAll cs rule c stance p).map condition)

end Block

end Movesets
