import Movesets.Condition.Basic
import Movesets.Actor

set_option autoImplicit false

/-!
# What a condition means

The state of the runtime that conditions are asked of, and when a condition holds in it.  Keywords
are compared without regard to ASCII case.
-/

namespace Movesets

/-- What the runtime knows when it evaluates conditions for one actor. -/
structure RuntimeState where
  base : Form
  race : Form
  factions : List Form
  keywords : List String
  equippedType : Hand → Int32
  equippedKeywords : Hand → List String
  value : Variable → Int32
  moving : Bool

/-- A keyword is among the keywords, up to ASCII case. -/
def hasName (names : List String) (name : String) : Bool :=
  names.any fun own => Text.sameName own name

namespace RuntimeState

/-- The state is about this actor. -/
def Describes (s : RuntimeState) (a : Actor) : Prop :=
  s.base = a.base ∧ s.race = a.race ∧ s.factions = a.factions ∧ s.keywords = a.keywords

end RuntimeState

namespace Fact

def holds (s : RuntimeState) : Fact → Bool
  | .actorBase f => s.base == f
  | .factionMember f => s.factions.contains f
  | .actorKeyword k => hasName s.keywords k
  | .race f => s.race == f
  | .equippedType h code => s.equippedType h == code
  | .equippedKeyword h k => hasName (s.equippedKeywords h) k
  | .graphValue v value => s.value v == value
  | .moving => s.moving
  | .never => false

end Fact

namespace Test

def holds (s : RuntimeState) (t : Test) : Bool := t.fact.holds s != t.negated

end Test

namespace Condition

mutual

def holds (s : RuntimeState) : Condition → Bool
  | .all cs => allHold s cs
  | .any cs => someHolds s cs
  | .test t => t.holds s

def allHold (s : RuntimeState) : List Condition → Bool
  | [] => true
  | c :: cs => holds s c && allHold s cs

def someHolds (s : RuntimeState) : List Condition → Bool
  | [] => false
  | c :: cs => holds s c || someHolds s cs

end

@[simp] theorem allHold_eq (s : RuntimeState) (cs : List Condition) :
    allHold s cs = cs.all (holds s) := by
  induction cs with
  | nil => simp [allHold]
  | cons c cs ih => simp [allHold, ih]

@[simp] theorem someHolds_eq (s : RuntimeState) (cs : List Condition) :
    someHolds s cs = cs.any (holds s) := by
  induction cs with
  | nil => simp [someHolds]
  | cons c cs ih => simp [someHolds, ih]

@[simp] theorem holds_all (s : RuntimeState) (cs : List Condition) :
    (all cs).holds s = cs.all (holds s) := by simp [holds]

@[simp] theorem holds_any (s : RuntimeState) (cs : List Condition) :
    (any cs).holds s = cs.any (holds s) := by simp [holds]

@[simp] theorem holds_is (s : RuntimeState) (f : Fact) : (is f).holds s = f.holds s := by
  simp [is, holds, Test.holds]

@[simp] theorem holds_isNot (s : RuntimeState) (f : Fact) : (isNot f).holds s = !f.holds s := by
  simp [isNot, holds, Test.holds]

end Condition

end Movesets
