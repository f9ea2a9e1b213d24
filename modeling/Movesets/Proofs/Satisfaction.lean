import Movesets.Block
import Movesets.Condition.Meaning

set_option autoImplicit false

/-!
# Lists of conditions in a state

A block is a list of conditions that all have to hold.  `Meets` is that requirement as a
proposition, with one equation for each way in which blocks are put together.
-/

namespace Movesets
open Condition

namespace RuntimeState

def Meets (s : RuntimeState) (cs : List Condition) : Prop := ∀ c ∈ cs, c.holds s = true

@[simp] theorem meets_nil (s : RuntimeState) : s.Meets [] := by
  simp [Meets]

@[simp] theorem meets_cons (s : RuntimeState) (c : Condition) (cs : List Condition) :
    s.Meets (c :: cs) ↔ c.holds s = true ∧ s.Meets cs := by
  simp [Meets]

@[simp] theorem meets_append (s : RuntimeState) (cs ds : List Condition) :
    s.Meets (cs ++ ds) ↔ s.Meets cs ∧ s.Meets ds := by
  simp [Meets, or_imp, forall_and]

theorem meets_map {α : Type} (s : RuntimeState) (f : α → Condition) (xs : List α) :
    s.Meets (xs.map f) ↔ ∀ x ∈ xs, (f x).holds s = true := by
  simp [Meets]

theorem meets_ite (s : RuntimeState) (p : Prop) [Decidable p] (cs : List Condition) :
    s.Meets (if p then cs else []) ↔ (p → s.Meets cs) := by
  split
  next h => simp [h]
  next h => simp [h]

theorem meets_ite_not (s : RuntimeState) (p : Prop) [Decidable p] (cs : List Condition) :
    s.Meets (if p then [] else cs) ↔ (p ∨ s.Meets cs) := by
  split
  next h => simp [h]
  next h => simp [h]

end RuntimeState

namespace Condition

theorem all_holds_iff (s : RuntimeState) (cs : List Condition) :
    (all cs).holds s = true ↔ s.Meets cs := by
  rw [holds_all, List.all_eq_true]
  rfl

end Condition

namespace Block

theorem condition_holds_iff (s : RuntimeState) (b : Block) :
    b.condition.holds s = true ↔ s.Meets b.parts :=
  all_holds_iff s b.parts

theorem equals_holds_iff (s : RuntimeState) (v : Variable) (value : Int32) :
    (equals v value).holds s = true ↔ s.value v = value := by
  rw [equals, holds_is]
  simp [Fact.holds]

end Block

theorem hasName_congr (names : List String) {k l : String} (h : Text.sameName k l = true) :
    hasName names k = hasName names l := by
  have key : Text.caseKey k = Text.caseKey l := Text.sameName_iff.mp h
  unfold hasName Text.sameName
  rw [key]

@[simp] theorem hasName_nil (k : String) : hasName [] k = false := rfl

theorem hasName_cons (x : String) (names : List String) (k : String) :
    hasName (x :: names) k = (Text.sameName x k || hasName names k) := by
  simp [hasName]

theorem hasName_append (xs ys : List String) (k : String) :
    hasName (xs ++ ys) k = (hasName xs k || hasName ys k) := by
  simp [hasName]

theorem hasName_flatMap {α : Type} (xs : List α) (f : α → List String) (k : String) :
    hasName (xs.flatMap f) k = true ↔ ∃ x ∈ xs, hasName (f x) k = true := by
  simp [hasName]

theorem hasName_iff {names : List String} {k : String} :
    hasName names k = true ↔ ∃ own ∈ names, Text.sameName own k = true := by
  simp [hasName]

end Movesets
