import Movesets.Condition.Document
import Movesets.Condition.Meaning
import Movesets.Proofs.RoundTrip

set_option autoImplicit false

/-!
# Conditions that read back

The document of a test says which test it is: its name and the fields beside it are read back, the
form id from its digits without leading zeros.  A group is told from a test by its list of parts, so
the document of a condition is that of no other.  A marked document gives the alternatives, and a
condition is lost in it only where it is the single alternative of a disjunction.
-/

namespace Movesets

theorem map_cancel {α β : Type} {f : α → β} {xs ys : List α}
    (cancel : ∀ x ∈ xs, ∀ ⦃y⦄, f x = f y → x = y) (same : xs.map f = ys.map f) : xs = ys := by
  induction xs generalizing ys with
  | nil => exact (List.map_eq_nil_iff.mp same.symm).symm
  | cons x xs ih =>
    obtain ⟨y, ys, rfl, head, tail⟩ := List.map_eq_cons_iff.mp same.symm
    have here := cancel x List.mem_cons_self head.symm
    have rest := ih (fun x mem => cancel x (List.mem_cons_of_mem _ mem)) tail.symm
    rw [here, rest]

namespace Text

theorem dropZeros_ne_nil {cs : List Char} (digits : cs ≠ []) : dropZeros cs ≠ [] := by
  fun_induction dropZeros cs with
  | case1 c cs ih => exact ih (List.cons_ne_nil c cs)
  | case2 cs _ => exact digits

theorem readHexFrom_dropZeros (cs : List Char) :
    readHexFrom 0 (dropZeros cs) = readHexFrom 0 cs := by
  fun_induction dropZeros cs with
  | case1 c cs ih => exact ih
  | case2 cs _ => rfl

theorem readHex_shortHex {n : Nat} (small : n < UInt32.size) : readHex (shortHex n) = some n := by
  have digits : writeHex 8 n ≠ [] := List.ne_nil_of_length_pos (by simp)
  rw [shortHex, readHex_of_ne_nil (dropZeros_ne_nil digits), readHexFrom_dropZeros,
    ← readHex_of_ne_nil digits]
  exact readHex_writeHex small

end Text

/-! ## Tests -/

/-- The form in a document. -/
def Form.ofDocument? (d : Data) : Option Form := do
  let digits ← (d.get? "formID").bind Data.text?
  let plugin ← (d.get? "pluginName").bind Data.text?
  let id ← Text.readHex digits.toList
  return ⟨plugin, UInt32.ofNat id⟩

theorem Form.ofDocument?_toDocument (f : Form) : ofDocument? f.toDocument = some f := by
  have read : Text.readHex (Text.shortHex f.localId.toNat) = some f.localId.toNat :=
    Text.readHex_shortHex f.localId.toNat_lt
  simp [ofDocument?, toDocument, Data.text?, read]

def Hand.ofIsLeft : Bool → Hand
  | false => .right
  | true => .left

@[simp] theorem Hand.ofIsLeft_isLeft (hand : Hand) : ofIsLeft hand.isLeft = hand := by
  cases hand <;> rfl

def Variable.ofName? : String → Option Variable
  | "StancecraftPriority" => some .priorityTier
  | "StancecraftStance" => some .stanceSelector
  | "StancecraftPlaylistOrder" => some .playlistOrder
  | "StancecraftDirection" => some .direction
  | "NPCrandomNumber" => some .randomSelector
  | _ => none

@[simp] theorem Variable.ofName?_name (v : Variable) : ofName? v.name = some v := by
  cases v <;> rfl

namespace Test

def hand? (d : Data) : Option Hand := ((d.get? "Left hand").bind Data.asBool?).map .ofIsLeft

def keyword? (d : Data) : Option String :=
  ((d.get? "Keyword").bind (·.get? "editorID")).bind Data.text?

def value? (d : Data) (key : String) : Option Int32 :=
  ((d.get? key).bind (·.get? "value")).bind Data.asInt32?

/-- The comparison in a document: a variable with a value, or two values that are never equal. -/
def comparison? (d : Data) : Option Fact :=
  match (d.get? "Value A").bind (·.get? "graphVariable") with
  | none => some .never
  | some name => do
    let v ← name.text?.bind Variable.ofName?
    return .graphValue v (← value? d "Value B")

def fact? (d : Data) : Option Fact := do
  match ← (d.get? "condition").bind Data.text? with
  | "IsActorBase" => ((d.get? "Actor base").bind Form.ofDocument?).map .actorBase
  | "IsInFaction" => ((d.get? "Faction").bind Form.ofDocument?).map .factionMember
  | "HasKeyword" => (keyword? d).map .actorKeyword
  | "IsRace" => ((d.get? "Race").bind Form.ofDocument?).map .race
  | "IsEquippedType" => return .equippedType (← hand? d) (← value? d "Type")
  | "IsEquippedHasKeyword" => return .equippedKeyword (← hand? d) (← keyword? d)
  | "CompareValues" => comparison? d
  | "IsMoving" => some .moving
  | _ => none

/-- The test in a document. -/
def ofDocument? (d : Data) : Option Test := do
  let negated ← (d.get? "negated").bind Data.asBool?
  return ⟨← fact? d, negated⟩

theorem value?_valueData (i : Int32) : ((valueData i).get? "value").bind Data.asInt32? = some i := by
  simp [valueData, Data.asInt32?_ofInt32]

theorem variable?_valueData (i : Int32) : (valueData i).get? "graphVariable" = none := by
  simp [valueData]

theorem ofDocument?_toDocument (t : Test) : ofDocument? t.toDocument = some t := by
  obtain ⟨fact, negated⟩ := t
  cases fact <;>
    simp [ofDocument?, toDocument, fact?, comparison?, keyword?, hand?, value?,
      Form.ofDocument?_toDocument, value?_valueData, variable?_valueData, Data.text?, Data.asBool?]

theorem toDocument_injective : Function.Injective toDocument := by
  intro t u same
  have read := congrArg ofDocument? same
  rw [ofDocument?_toDocument, ofDocument?_toDocument] at read
  exact Option.some.inj read

theorem parts?_toDocument (t : Test) : t.toDocument.get? "Conditions" = none := by
  obtain ⟨fact, negated⟩ := t
  cases fact <;> simp [toDocument]

theorem isMarked_toDocument (t : Test) : Condition.isMarked t.toDocument = false := by
  obtain ⟨fact, negated⟩ := t
  cases fact <;> simp [toDocument, Condition.isMarked, Condition.marker, Data.text?]

end Test

/-! ## Trees -/

namespace Condition

/-- Induction on a condition, where a group may assume the statement of its parts. -/
@[elab_as_elim]
theorem induction_parts {motive : Condition → Prop}
    (all : ∀ cs, (∀ c ∈ cs, motive c) → motive (.all cs))
    (any : ∀ cs, (∀ c ∈ cs, motive c) → motive (.any cs)) (test : ∀ t, motive (.test t))
    (c : Condition) : motive c :=
  @Condition.rec motive (fun cs => ∀ c ∈ cs, motive c) all any test
    (fun _ mem => absurd mem List.not_mem_nil)
    (fun _ _ first rest => List.forall_mem_cons.mpr ⟨first, rest⟩) c

theorem toDocument_all (cs : List Condition) :
    (all cs).toDocument = groupDocument "AND" (cs.map toDocument) := by simp [toDocument]

theorem toDocument_any (cs : List Condition) :
    (any cs).toDocument = groupDocument "OR" (cs.map toDocument) := by simp [toDocument]

theorem toDocument_test (t : Test) : (test t).toDocument = t.toDocument := by simp [toDocument]

theorem groupDocument_inj {name name' : String} {parts parts' : List Data} :
    groupDocument name parts = groupDocument name' parts' ↔ name = name' ∧ parts = parts' := by
  simp [groupDocument, Data.record, and_comm]

theorem groupDocument_ne_test (name : String) (parts : List Data) (t : Test) :
    groupDocument name parts ≠ t.toDocument := by
  intro same
  -- A test has no list of parts.
  have none := t.parts?_toDocument
  rw [← same] at none
  simp [groupDocument] at none

/-- Where the parts are told apart by their documents, a group with the document of a condition is
that condition. -/
theorem eq_of_groupDocument {name : String} {cs : List Condition} {c : Condition}
    (apart : ∀ d ∈ cs, ∀ ⦃e⦄, d.toDocument = e.toDocument → d = e)
    (same : groupDocument name (cs.map toDocument) = c.toDocument) :
    name = "AND" ∧ all cs = c ∨ name = "OR" ∧ any cs = c := by
  cases c with
  | all ds =>
    rw [toDocument_all, groupDocument_inj] at same
    exact Or.inl ⟨same.1, congrArg all (map_cancel apart same.2)⟩
  | any ds =>
    rw [toDocument_any, groupDocument_inj] at same
    exact Or.inr ⟨same.1, congrArg any (map_cancel apart same.2)⟩
  | test t =>
    rw [toDocument_test] at same
    exact absurd same (groupDocument_ne_test name _ t)

theorem toDocument_injective : Function.Injective toDocument := by
  intro c c' same
  induction c using induction_parts generalizing c' with
  | all cs ih =>
    rw [toDocument_all] at same
    rcases eq_of_groupDocument ih same with ⟨_, eq⟩ | ⟨wrong, _⟩
    · exact eq
    · exact absurd wrong (by decide)
  | any cs ih =>
    rw [toDocument_any] at same
    rcases eq_of_groupDocument ih same with ⟨wrong, _⟩ | ⟨_, eq⟩
    · exact absurd wrong (by decide)
    · exact eq
  | test t =>
    rw [toDocument_test] at same
    cases c' with
    | all cs =>
      rw [toDocument_all] at same
      exact absurd same.symm (groupDocument_ne_test "AND" _ t)
    | any cs =>
      rw [toDocument_any] at same
      exact absurd same.symm (groupDocument_ne_test "OR" _ t)
    | test u =>
      rw [toDocument_test] at same
      exact congrArg test (Test.toDocument_injective same)

theorem isMarked_toDocument (c : Condition) : isMarked c.toDocument = false := by
  cases c with
  | all cs => simp [toDocument_all, groupDocument, isMarked]
  | any cs => simp [toDocument_any, groupDocument, isMarked]
  | test t =>
    rw [toDocument_test]
    exact t.isMarked_toDocument

theorem isMarked_toMarkedDocument (c : Condition) : isMarked c.toMarkedDocument = true := by
  simp [toMarkedDocument, isMarked, Data.text?]

theorem toMarkedDocument_inj {c c' : Condition} :
    c.toMarkedDocument = c'.toMarkedDocument ↔ c.alternatives = c'.alternatives := by
  have parts : c.toMarkedDocument = c'.toMarkedDocument ↔
      c.alternatives.map toDocument = c'.alternatives.map toDocument := by
    simp [toMarkedDocument, Data.record]
  rw [parts, (List.map_injective_iff.mpr toDocument_injective).eq_iff]

/-- One condition is the only alternative of the other, a disjunction. -/
def LoneAlternative (c c' : Condition) : Prop := c = .any [c'] ∨ c' = .any [c]

theorem eq_or_loneAlternative {c c' : Condition} (same : c.alternatives = c'.alternatives) :
    c = c' ∨ LoneAlternative c c' := by
  cases c <;> cases c' <;> simp_all [alternatives, LoneAlternative]

theorem LoneAlternative.holds_eq {c c' : Condition} (lone : LoneAlternative c c')
    (s : RuntimeState) : c.holds s = c'.holds s := by
  rcases lone with rfl | rfl <;> simp

/-- The document of a condition is that of no other.  Its marked document is that of another only
where one is the lone alternative of the other, and then they hold in the same states.  The mark is
on the marked document alone. -/
theorem documents_lose_nothing (c c' : Condition) :
    (c.toDocument = c'.toDocument ↔ c = c') ∧
    (c.toMarkedDocument = c'.toMarkedDocument →
      (c = c' ∨ LoneAlternative c c') ∧ ∀ s : RuntimeState, c.holds s = c'.holds s) ∧
    isMarked c.toMarkedDocument = true ∧ isMarked c.toDocument = false := by
  refine ⟨toDocument_injective.eq_iff, fun same => ?_, c.isMarked_toMarkedDocument,
    c.isMarked_toDocument⟩
  rcases eq_or_loneAlternative (toMarkedDocument_inj.mp same) with rfl | lone
  · exact ⟨Or.inl rfl, fun _ => rfl⟩
  · exact ⟨Or.inr lone, lone.holds_eq⟩

theorem documents_lose_nothing_killSwitch :
    (any [killSwitch]).toDocument ≠ killSwitch.toDocument ∧
    (any [killSwitch]).toMarkedDocument = killSwitch.toMarkedDocument ∧
    ∀ s : RuntimeState, (any [killSwitch]).holds s = killSwitch.holds s := by
  obtain ⟨plain, marked, _⟩ := documents_lose_nothing (any [killSwitch]) killSwitch
  exact ⟨fun same => (nomatch plain.mp same), rfl, (marked rfl).2⟩

end Condition

end Movesets
