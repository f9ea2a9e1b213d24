import Mathlib.Tactic.Choose
import Movesets.Proofs.LoneParent

set_option autoImplicit false

/-!
# Categories that share a pair of hands

Two categories are kept apart by what they ask of the hands and by nothing else.  A pair of hands
that suits both exists exactly when their types agree on each hand, the sentinel standing for every
type it allows, and each finds one of its keywords that neither excludes.  Categories of different
types can overlap only through the sentinel.
-/

namespace Movesets
open RuntimeState Playlist Exclusion

/-- The first category asks for no keyword on the hand, or for one that neither excludes. -/
def FreeKeyword (cs : Categories) (a b : Category) (hand : Hand) : Prop :=
  a.keywords hand = [] ∨
    ∃ k ∈ a.keywords hand, ¬ Excludes cs a hand k ∧ ¬ Excludes cs b hand k

/-- The types and keywords that two categories ask for leave room for both. -/
structure Overlap (cs : Categories) (a b : Category) : Prop where
  right : ∃ code ∈ a.rightCodes, code ∈ b.rightCodes
  left : a.leftType = anyType ∨ b.leftType = anyType ∨ a.leftType = b.leftType
  keywords : ∀ hand, FreeKeyword cs a b hand ∧ FreeKeyword cs b a hand

theorem Category.mem_rightCodes_of_ne {c : Category} (concrete : c.rightType ≠ anyType)
    {code : Int32} : code ∈ c.rightCodes ↔ code = c.rightType := by
  rw [rightCodes, if_neg concrete, List.mem_singleton]

/-- Without the sentinel on any hand, categories of different types do not overlap. -/
theorem Overlap.anyType_of_types_ne {cs : Categories} {a b : Category} (overlap : Overlap cs a b)
    (types : (a.rightType, a.leftType) ≠ (b.rightType, b.leftType)) :
    a.rightType = anyType ∨ b.rightType = anyType ∨ a.leftType = anyType ∨
      b.leftType = anyType := by
  by_cases ha : a.rightType = anyType
  · exact Or.inl ha
  by_cases hb : b.rightType = anyType
  · exact Or.inr (Or.inl hb)
  obtain ⟨code, mem, mem'⟩ := overlap.right
  rw [Category.mem_rightCodes_of_ne ha] at mem
  rw [Category.mem_rightCodes_of_ne hb] at mem'
  rcases overlap.left with left | left | left
  · exact Or.inr (Or.inr (Or.inl left))
  · exact Or.inr (Or.inr (Or.inr left))
  · exact absurd (by rw [← mem, ← mem', left]) types

namespace Exclusion

theorem Excludes.congr {cs : Categories} {c : Category} {hand : Hand} {k l : String}
    (same : Text.sameName k l = true) (h : Excludes cs c hand k) : Excludes cs c hand l := by
  have competing (hand : Hand) : Competing cs c hand k → Competing cs c hand l := by
    simp only [Competing, hasName_congr _ same, imp_self]
  have shields : OfCustomShield cs c k → OfCustomShield cs c l := by
    simp only [OfCustomShield, hasName_congr _ same, imp_self]
  cases hand with
  | right => exact h.imp (competing .right) (And.imp_right shields)
  | left => exact And.imp_right (competing .left) h

end Exclusion

theorem FreeKeyword.exists_names {cs : Categories} {a b : Category} {hand : Hand}
    (free : FreeKeyword cs a b hand) : ∃ names : List String, a.ServedBy hand names ∧
      ∀ k, Excludes cs a hand k ∨ Excludes cs b hand k → hasName names k = false := by
  rcases free with none | ⟨own, mem, freeA, freeB⟩
  · exact ⟨[], Or.inl none, fun _ _ => rfl⟩
  · have held (k : String) : hasName [own] k = Text.sameName own k := by
      rw [hasName_cons, hasName_nil, Bool.or_false]
    refine ⟨[own], Or.inr ⟨own, mem, ?_⟩, ?_⟩
    · rw [held]
      exact Text.sameName_refl own
    · intro k excluded
      rw [held, ← Bool.not_eq_true]
      intro same
      rw [Text.sameName_comm] at same
      rcases excluded with ex | ex
      · exact freeA (ex.congr same)
      · exact freeB (ex.congr same)

theorem Overlap.exists_names {cs : Categories} {a b : Category} (overlap : Overlap cs a b)
    (hand : Hand) : ∃ names : List String, a.ServedBy hand names ∧ b.ServedBy hand names ∧
      ∀ k, Excludes cs a hand k ∨ Excludes cs b hand k → hasName names k = false := by
  obtain ⟨freeA, freeB⟩ := overlap.keywords hand
  obtain ⟨forA, claimsA, leavesA⟩ := freeA.exists_names
  obtain ⟨forB, claimsB, leavesB⟩ := freeB.exists_names
  refine ⟨forA ++ forB, ?_, ?_, ?_⟩
  · refine claimsA.imp_right fun ⟨k, mem, held⟩ => ⟨k, mem, ?_⟩
    rw [hasName_append, held, Bool.true_or]
  · refine claimsB.imp_right fun ⟨k, mem, held⟩ => ⟨k, mem, ?_⟩
    rw [hasName_append, held, Bool.or_true]
  · intro k excluded
    rw [hasName_append, leavesA k excluded, leavesB k excluded.symm, Bool.or_false]

theorem Overlap.exists_hands {cs : Categories} {a b : Category} (overlap : Overlap cs a b) :
    ∃ (types : Hand → Int32) (names : Hand → List String), ∀ s : RuntimeState,
      s.equippedType = types → s.equippedKeywords = names → Wields cs a s ∧ Wields cs b s := by
  obtain ⟨code, inA, inB⟩ := overlap.right
  choose names claimsA claimsB leaves using overlap.exists_names
  have left : ∃ code, (a.leftType = anyType ∨ code = a.leftType) ∧
      (b.leftType = anyType ∨ code = b.leftType) := by
    rcases overlap.left with any | any | same
    · exact ⟨b.leftType, Or.inl any, Or.inr rfl⟩
    · exact ⟨a.leftType, Or.inr rfl, Or.inl any⟩
    · exact ⟨a.leftType, Or.inr rfl, Or.inr same⟩
  obtain ⟨code', leftA, leftB⟩ := left
  refine ⟨fun hand => if hand = .right then code else code', names, fun s types held => ?_⟩
  constructor
  · refine ⟨by rw [types]; exact inA, by rw [types]; exact leftA, ?_, ?_⟩
    · rw [held]
      exact claimsA
    · rw [held]
      exact fun hand k excluded => leaves hand k (Or.inl excluded)
  · refine ⟨by rw [types]; exact inB, by rw [types]; exact leftB, ?_, ?_⟩
    · rw [held]
      exact claimsB
    · rw [held]
      exact fun hand k excluded => leaves hand k (Or.inr excluded)

theorem Wields.overlap {cs : Categories} {a b : Category} {s : RuntimeState}
    (wieldsA : Wields cs a s) (wieldsB : Wields cs b s) : Overlap cs a b := by
  have free {x y : Category} (wieldsX : Wields cs x s) (wieldsY : Wields cs y s) (hand : Hand) :
      FreeKeyword cs x y hand := by
    refine (wieldsX.claims hand).imp_right fun ⟨k, mem, held⟩ => ⟨k, mem, ?_, ?_⟩
    · intro excluded
      rw [wieldsX.leaves hand k excluded] at held
      cases held
    · intro excluded
      rw [wieldsY.leaves hand k excluded] at held
      cases held
  refine ⟨⟨_, wieldsA.right, wieldsB.right⟩, ?_,
    fun hand => ⟨free wieldsA wieldsB hand, free wieldsB wieldsA hand⟩⟩
  rcases wieldsA.left with any | typeA
  · exact Or.inl any
  rcases wieldsB.left with any | typeB
  · exact Or.inr (Or.inl any)
  · exact Or.inr (Or.inr (typeA.symm.trans typeB))

namespace Block

/-- Blocks of two categories exclude each other exactly when the categories do not overlap, and an
overlap of different types goes through the sentinel on one of the hands. -/
theorem categories_exclusive_iff (cs : Categories) (rule : Option Rule) (a b : Category) :
    ((∀ stance stance' p p' x y s, x ∈ compileAll cs rule a stance p →
      y ∈ compileAll cs rule b stance' p' →
      ¬ (x.condition.holds s = true ∧ y.condition.holds s = true)) ↔ ¬ Overlap cs a b) ∧
    ((a.rightType, a.leftType) ≠ (b.rightType, b.leftType) → Overlap cs a b →
      a.rightType = anyType ∨ b.rightType = anyType ∨ a.leftType = anyType ∨
        b.leftType = anyType) := by
  refine ⟨⟨?_, ?_⟩, fun types overlap => overlap.anyType_of_types_ne types⟩
  · intro exclusive overlap
    obtain ⟨types, names, wields⟩ := overlap.exists_hands
    obtain ⟨actor, admits⟩ := exists_admitted rule
    obtain ⟨wieldsA, wieldsB⟩ := wields (atFirst rule actor types names) rfl rfl
    refine exclusive 0 0 lone lone _ _ _ ?_ ?_
      ⟨loneBlock_holds_atFirst admits wieldsA, loneBlock_holds_atFirst admits wieldsB⟩
    · rw [compileAll_lone]
      exact List.mem_singleton_self _
    · rw [compileAll_lone]
      exact List.mem_singleton_self _
  · intro apart stance stance' p p' x y s hx hy ⟨holds, holds'⟩
    have meetsA := (meets_shared s cs rule a stance).mp (meets_shared_of_mem hx holds)
    have meetsB := (meets_shared s cs rule b stance').mp (meets_shared_of_mem hy holds')
    exact apart (meetsA.2.2.1.overlap meetsB.2.2.1)

def twoSwords : RuntimeState :=
  atFirst (some ⟨"Player", .player, .builtIn⟩) (.plain .playerBase ⟨"Skyrim.esm", 0x13746⟩)
    (fun _ => 1) (fun _ => [])

/-- A sword in each hand suits the built-in category of swords as well as that of two swords. -/
theorem sword_and_dual_sword_hold_together : ∃ a ∈ Categories.builtIn.values,
    ∃ b ∈ Categories.builtIn.values, a.name = "Sword" ∧ b.name = "Dual Sword" ∧
      (a.rightType, a.leftType) ≠ (b.rightType, b.leftType) ∧
      ∃ x ∈ compileAll .builtIn (some ⟨"Player", .player, .builtIn⟩) a 0 lone,
      ∃ y ∈ compileAll .builtIn (some ⟨"Player", .player, .builtIn⟩) b 0 lone,
        x.condition.holds twoSwords = true ∧ y.condition.holds twoSwords = true := by
  have values : Categories.builtIn.values = Category.builtIn := rfl
  refine ⟨.plain "Sword" 1, ?_,
    { Category.plain "Dual Sword" 1 with leftType := 1, dualWield := true }, ?_,
    rfl, rfl, by decide, ?_⟩
  · rw [values]
    simp [Category.builtIn]
  · rw [values]
    simp [Category.builtIn]
  · rw [compileAll_lone, compileAll_lone]
    have admits : ∀ r ∈ some (⟨"Player", .player, .builtIn⟩ : Rule), r.matcher.admits
        (.plain .playerBase ⟨"Skyrim.esm", 0x13746⟩) = true := by
      simp only [Option.mem_some_iff, forall_eq']
      rfl
    refine ⟨_, List.mem_singleton_self _, _, List.mem_singleton_self _, ?_, ?_⟩
    · exact loneBlock_holds_atFirst admits
        (Wields.of_bare (fun _ => rfl) rfl rfl (by decide) (Or.inl rfl))
    · exact loneBlock_holds_atFirst admits
        (Wields.of_bare (fun _ => rfl) rfl rfl (by decide) (Or.inr rfl))

end Block

end Movesets
