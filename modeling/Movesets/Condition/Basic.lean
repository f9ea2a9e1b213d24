import Movesets.Category

set_option autoImplicit false

/-!
# Conditions

A condition is a tree of conjunctions and disjunctions over tests.  A test asks one fact about the
actor, its equipment or the variables that the runtime sets, and may be negated.
-/

namespace Movesets

/-- The integer variables that the runtime sets. -/
inductive Variable where
  /-- The tier of the rule that drives the actor. -/
  | priorityTier
  /-- The stance of the player from one, zero for everyone else. -/
  | stanceSelector
  /-- The ordinal of the active parent. -/
  | playlistOrder
  /-- The code of the direction of movement, zero at rest. -/
  | direction
  /-- The random pick of an actor other than the player. -/
  | randomSelector
  deriving DecidableEq, Repr

namespace Variable

def name : Variable → String
  | .priorityTier => "StancecraftPriority"
  | .stanceSelector => "StancecraftStance"
  | .playlistOrder => "StancecraftPlaylistOrder"
  | .direction => "StancecraftDirection"
  | .randomSelector => "NPCrandomNumber"

end Variable

/-- What a test asks. -/
inductive Fact where
  | actorBase (form : Form)
  | factionMember (form : Form)
  | actorKeyword (keyword : String)
  | race (form : Form)
  | equippedType (hand : Hand) (code : Int32)
  | equippedKeyword (hand : Hand) (keyword : String)
  | graphValue (var : Variable) (value : Int32)
  | moving
  /-- What is never so. -/
  | never
  deriving DecidableEq, Repr

/-- A fact that has to be so, or not to be so. -/
structure Test where
  fact : Fact
  negated : Bool
  deriving DecidableEq, Repr

/-- A condition on the runtime. -/
inductive Condition where
  | all (parts : List Condition)
  | any (parts : List Condition)
  | test (t : Test)
  deriving Repr, Inhabited

namespace Condition

def is (f : Fact) : Condition := .test ⟨f, false⟩

def isNot (f : Fact) : Condition := .test ⟨f, true⟩

/-- The condition that switches a document off. -/
def killSwitch : Condition := is .never

/-- The condition is a lone test of what is never so. -/
def isKillSwitch : Condition → Bool
  | .test t => t.fact == .never
  | _ => false

def parts : Condition → List Condition
  | .all cs => cs
  | .any cs => cs
  | .test _ => []

mutual

def tests : Condition → List Test
  | .all cs => testsOfAll cs
  | .any cs => testsOfAll cs
  | .test t => [t]

def testsOfAll : List Condition → List Test
  | [] => []
  | c :: cs => tests c ++ testsOfAll cs

end

end Condition

end Movesets
