import Movesets.Condition.Basic

set_option autoImplicit false

/-!
# Conditions in documents

The JSON form of a condition, and the marked form: a disjunction that carries a comment, by which a
later export finds and replaces it among the conditions of a document.  Fields stand in the order of
their keys.
-/

namespace Movesets

/-- A form in a document: the id in hexadecimal without leading zeros. -/
def Form.toDocument (f : Form) : Data :=
  .record [("formID", .text (.ofList (Text.shortHex f.localId.toNat))),
    ("pluginName", .text f.plugin)]

def Hand.isLeft : Hand → Bool
  | .right => false
  | .left => true

def valueData (i : Int32) : Data := .record [("value", .ofInt32 i)]

namespace Test

def toDocument (t : Test) : Data :=
  match t.fact with
  | .actorBase f =>
    .record [("Actor base", f.toDocument), ("condition", .text "IsActorBase"),
      ("negated", .bool t.negated)]
  | .factionMember f =>
    .record [("Faction", f.toDocument), ("condition", .text "IsInFaction"),
      ("negated", .bool t.negated)]
  | .actorKeyword k =>
    .record [("Keyword", .record [("editorID", .text k)]), ("condition", .text "HasKeyword"),
      ("negated", .bool t.negated)]
  | .race f =>
    .record [("Race", f.toDocument), ("condition", .text "IsRace"), ("negated", .bool t.negated)]
  | .equippedType hand code =>
    .record [("Left hand", .bool hand.isLeft), ("Type", valueData code),
      ("condition", .text "IsEquippedType"), ("negated", .bool t.negated)]
  | .equippedKeyword hand k =>
    .record [("Keyword", .record [("editorID", .text k)]), ("Left hand", .bool hand.isLeft),
      ("condition", .text "IsEquippedHasKeyword"), ("negated", .bool t.negated)]
  | .graphValue v value =>
    .record [("Comparison", .text "=="),
      ("Value A", .record [("graphVariable", .text v.name), ("graphVariableType", .text "Int")]),
      ("Value B", valueData value), ("condition", .text "CompareValues"),
      ("negated", .bool t.negated)]
  | .moving => .record [("condition", .text "IsMoving"), ("negated", .bool t.negated)]
  | .never =>
    .record [("Comparison", .text "=="), ("Value A", valueData 0), ("Value B", valueData 1),
      ("comment", .text "Disabled by Stancecraft"), ("condition", .text "CompareValues"),
      ("negated", .bool t.negated)]

end Test

namespace Condition

/-- The comment of a marked condition. -/
def marker : String := "STANCECRAFT_CONDITIONS"

/-- A conjunction or disjunction of given parts. -/
def groupDocument (name : String) (parts : List Data) : Data :=
  .record [("Conditions", .list parts), ("condition", .text name), ("negated", .bool false)]

mutual

def toDocument : Condition → Data
  | .all cs => groupDocument "AND" (toDocuments cs)
  | .any cs => groupDocument "OR" (toDocuments cs)
  | .test t => t.toDocument

def toDocuments : List Condition → List Data
  | [] => []
  | c :: cs => toDocument c :: toDocuments cs

end

@[simp] theorem toDocuments_eq (cs : List Condition) : toDocuments cs = cs.map toDocument := by
  induction cs with
  | nil => simp [toDocuments]
  | cons c cs ih => simp [toDocuments, ih]

/-- The alternatives that a marked condition lists: those of a disjunction, else the condition. -/
def alternatives : Condition → List Condition
  | .any cs => cs
  | c => [c]

def toMarkedDocument (c : Condition) : Data :=
  .record [("Conditions", .list (c.alternatives.map toDocument)), ("comment", .text marker),
    ("condition", .text "OR"), ("negated", .bool false)]

def isMarked (d : Data) : Bool :=
  (d.get? "comment").bind Data.text? == some marker

end Condition

end Movesets
