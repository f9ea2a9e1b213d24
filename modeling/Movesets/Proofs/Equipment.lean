import Mathlib.Tactic.MkIffOfInductiveProp
import Movesets.Proofs.Satisfaction

set_option autoImplicit false

/-!
# What a category asks of the two hands

The conditions on types and keywords of a category, with the keywords it leaves to others, as one
predicate on states.  Keywords are compared up to ASCII case throughout, so the order of the table
and the spelling that is listed first do not show.
-/

namespace Movesets
open RuntimeState

namespace Exclusion

theorem mem_byName {cs : Categories} {c : Category} : c ∈ byName cs ↔ c ∈ cs.values := by
  simp [byName]

theorem hasName_distinctNames (listed ks : List String) (k : String) :
    hasName (distinctNames listed ks) k = (hasName ks k && !hasName listed k) := by
  induction ks generalizing listed with
  | nil => simp [distinctNames]
  | cons x ks ih =>
    rw [hasName_cons]
    by_cases hx : hasName listed x = true
    · have skip : distinctNames listed (x :: ks) = distinctNames listed ks := by
        unfold hasName at hx
        simp [distinctNames, hx]
      rw [skip, ih]
      by_cases same : Text.sameName x k = true
      · rw [hasName_congr listed same] at hx
        simp [hx]
      · simp [same]
    · have keep : distinctNames listed (x :: ks) = x :: distinctNames (x :: listed) ks := by
        unfold hasName at hx
        simp [distinctNames, hx]
      rw [keep, hasName_cons, ih, hasName_cons]
      by_cases same : Text.sameName x k = true
      · rw [hasName_congr listed same] at hx
        simp [same, hx]
      · simp [same]

theorem mem_distinctSpellings (claimed kept : List String) (k : String) :
    k ∈ claimed.foldl (fun ks k => if ks.contains k then ks else ks ++ [k]) kept ↔
      k ∈ kept ∨ k ∈ claimed := by
  induction claimed generalizing kept with
  | nil => simp
  | cons x claimed ih =>
    rw [List.foldl_cons, ih]
    by_cases hx : kept.contains x = true
    · have mem : x ∈ kept := by simpa using hx
      rw [if_pos hx, List.mem_cons]
      constructor
      · rintro (h | h)
        · exact Or.inl h
        · exact Or.inr (Or.inr h)
      · rintro (h | rfl | h)
        · exact Or.inl h
        · exact Or.inl mem
        · exact Or.inr h
    · rw [if_neg hx, List.mem_append, List.mem_singleton, List.mem_cons, or_assoc]

/-- A category of another name claims the keyword on the hand for the same type, and this one does
not. -/
def Competing (cs : Categories) (c : Category) (hand : Hand) (k : String) : Prop :=
  (∃ other ∈ cs.values, other.name ≠ c.name ∧ other.equipType hand = c.equipType hand ∧
    hasName (other.keywords hand) k = true) ∧ hasName (c.keywords hand) k = false

/-- A custom shield category of another name claims the keyword on the right hand. -/
def OfCustomShield (cs : Categories) (c : Category) (k : String) : Prop :=
  ∃ other ∈ cs.values, other.name ≠ c.name ∧ other.custom = true ∧ other.shield = true ∧
    hasName other.rightKeywords k = true

theorem mem_competitors {cs : Categories} {c : Category} {hand : Hand} {other : Category} :
    other ∈ competitors cs c hand ↔
      other ∈ cs.values ∧ other.name ≠ c.name ∧ other.equipType hand = c.equipType hand := by
  simp [competitors, mem_byName]

theorem mem_customShields {cs : Categories} {c other : Category} :
    other ∈ customShields cs c ↔
      other ∈ cs.values ∧ other.name ≠ c.name ∧ other.custom = true ∧ other.shield = true := by
  simp [customShields, mem_byName, and_assoc]

theorem without_holds_iff (s : RuntimeState) (hand : Hand) (ks : List String) :
    (∀ t ∈ ks.map (without hand), t.holds s = true) ↔
      ∀ k, hasName ks k = true → hasName (s.equippedKeywords hand) k = false := by
  have one (k : String) :
      (without hand k).holds s = true ↔ hasName (s.equippedKeywords hand) k = false := by
    simp [without, Test.holds, Fact.holds]
  simp only [List.mem_map, forall_exists_index, and_imp, forall_apply_eq_imp_iff₂, one]
  constructor
  · intro h k hk
    obtain ⟨own, mem, same⟩ := hasName_iff.mp hk
    rw [← hasName_congr _ same]
    exact h own mem
  · intro h k mem
    exact h k (hasName_iff.mpr ⟨k, mem, Text.sameName_refl k⟩)

theorem competing_holds_iff (s : RuntimeState) (cs : Categories) (c : Category) (hand : Hand) :
    (∀ t ∈ competing cs c hand, t.holds s = true) ↔
      ∀ k, Competing cs c hand k → hasName (s.equippedKeywords hand) k = false := by
  rw [competing, without_holds_iff]
  refine forall_congr' fun k => imp_congr_left ?_
  rw [hasName_distinctNames, Bool.and_eq_true, hasName_flatMap, Bool.not_eq_true']
  simp only [mem_competitors, Competing, and_assoc]

theorem shields_holds_iff (s : RuntimeState) (cs : Categories) (c : Category) :
    (∀ t ∈ shields cs c, t.holds s = true) ↔
      ∀ k, OfCustomShield cs c k → hasName (s.equippedKeywords .right) k = false := by
  rw [shields, without_holds_iff]
  refine forall_congr' fun k => imp_congr_left ?_
  have same : hasName (((customShields cs c).flatMap fun other => other.rightKeywords).foldl
      (fun ks k => if ks.contains k then ks else ks ++ [k]) []) k = true ↔
      hasName ((customShields cs c).flatMap fun other => other.rightKeywords) k = true := by
    simp only [hasName_iff, mem_distinctSpellings, List.not_mem_nil, false_or]
  rw [same, hasName_flatMap]
  simp only [mem_customShields, OfCustomShield, and_assoc]

/-- The keyword may not be on the hand in a block of the category. -/
def Excludes (cs : Categories) (c : Category) : Hand → String → Prop
  | .right, k => Competing cs c .right k ∨ (c.rightType = anyType ∧ OfCustomShield cs c k)
  | .left, k => c.leftKeywords ≠ [] ∧ Competing cs c .left k

end Exclusion

/-- The types in the right hand that a category is for. -/
def Category.rightCodes (c : Category) : List Int32 :=
  if c.rightType = anyType then oneHandedTypes else [c.rightType]

/-- The names on a hand have one of the keywords that the category asks for, if it asks for any. -/
def Category.ServedBy (c : Category) (hand : Hand) (names : List String) : Prop :=
  c.keywords hand = [] ∨ ∃ k ∈ c.keywords hand, hasName names k = true

open Exclusion in
/-- What the hands hold is what the category asks for. -/
@[mk_iff]
structure Wields (cs : Categories) (c : Category) (s : RuntimeState) : Prop where
  right : s.equippedType .right ∈ c.rightCodes
  left : c.leftType = anyType ∨ s.equippedType .left = c.leftType
  claims : ∀ hand, c.ServedBy hand (s.equippedKeywords hand)
  leaves : ∀ hand k, Excludes cs c hand k → hasName (s.equippedKeywords hand) k = false

theorem Wields.of_bare {cs : Categories} {c : Category} {s : RuntimeState}
    (bare : ∀ hand, s.equippedKeywords hand = []) (noRight : c.rightKeywords = [])
    (noLeft : c.leftKeywords = []) (right : s.equippedType .right ∈ c.rightCodes)
    (left : c.leftType = anyType ∨ s.equippedType .left = c.leftType) : Wields cs c s := by
  refine ⟨right, left, fun hand => ?_, fun hand k _ => ?_⟩
  · cases hand with
    | right => exact Or.inl noRight
    | left => exact Or.inl noLeft
  · rw [bare hand]
    rfl

namespace Block
open Condition Exclusion

theorem meets_keywordParts (s : RuntimeState) (c : Category) (hand : Hand) :
    s.Meets (keywordParts c hand) ↔ c.ServedBy hand (s.equippedKeywords hand) := by
  unfold keywordParts Category.ServedBy
  split
  next h => simp [h]
  next k h => simp [h, Fact.holds]
  next ks none one =>
    have some : ¬ c.keywords hand = [] := fun h => none h
    simp [some, Fact.holds]

theorem meets_exclusionParts (s : RuntimeState) (tests : List Test) :
    s.Meets (exclusionParts tests) ↔ ∀ t ∈ tests, t.holds s = true := by
  unfold exclusionParts
  rw [meets_ite_not, meets_cons, all_holds_iff, meets_map]
  cases tests with
  | nil => simp
  | cons t ts => simp [Condition.holds]

theorem meets_handParts (s : RuntimeState) (cs : Categories) (c : Category) (hand : Hand) :
    s.Meets (handParts cs c hand) ↔ c.ServedBy hand (s.equippedKeywords hand) ∧
      ∀ k, Competing cs c hand k → hasName (s.equippedKeywords hand) k = false := by
  rw [handParts, meets_append, meets_keywordParts, meets_exclusionParts, competing_holds_iff]

theorem meets_rightTypeParts (s : RuntimeState) (cs : Categories) (c : Category) :
    s.Meets (rightTypeParts cs c) ↔ s.equippedType .right ∈ c.rightCodes ∧
      (c.rightType = anyType → ∀ k, OfCustomShield cs c k →
        hasName (s.equippedKeywords .right) k = false) := by
  unfold rightTypeParts Category.rightCodes
  split
  next any =>
    rw [meets_cons, meets_exclusionParts, shields_holds_iff]
    simp [Fact.holds, any]
  next one => simp [Fact.holds, one]

theorem meets_leftTypeParts (s : RuntimeState) (c : Category) :
    s.Meets (leftTypeParts c) ↔ c.leftType = anyType ∨ s.equippedType .left = c.leftType := by
  rw [leftTypeParts, meets_ite_not]
  simp [Fact.holds]

theorem meets_handConditions (s : RuntimeState) (cs : Categories) (c : Category) :
    (s.Meets (rightTypeParts cs c) ∧ s.Meets (handParts cs c .right) ∧
      s.Meets (if c.leftKeywords.isEmpty then [] else handParts cs c .left) ∧
      s.Meets (leftTypeParts c)) ↔ Wields cs c s := by
  rw [meets_rightTypeParts, meets_handParts, meets_ite_not, meets_handParts, meets_leftTypeParts,
    List.isEmpty_iff]
  constructor
  · rintro ⟨⟨right, shields⟩, ⟨claims, competing⟩, leftHand, left⟩
    refine ⟨right, left, ?_, ?_⟩
    · intro hand
      cases hand with
      | right => exact claims
      | left => exact leftHand.elim Or.inl fun h => h.1
    · intro hand k excluded
      cases hand with
      | right => exact excluded.elim (competing k) fun h => shields h.1 k h.2
      | left => exact (leftHand.resolve_left excluded.1).2 k excluded.2
  · rintro ⟨right, left, claims, leaves⟩
    refine ⟨⟨right, fun any k h => leaves .right k (Or.inr ⟨any, h⟩)⟩,
      ⟨claims .right, fun k h => leaves .right k (Or.inl h)⟩, ?_, left⟩
    by_cases none : c.leftKeywords = []
    · exact Or.inl none
    · exact Or.inr ⟨claims .left, fun k h => leaves .left k ⟨none, h⟩⟩

end Block

end Movesets
