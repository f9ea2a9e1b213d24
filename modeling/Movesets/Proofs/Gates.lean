import Movesets.Proofs.Satisfaction

set_option autoImplicit false

/-!
# Gates of parents and children

A child waits until its gate is open in full; its parent steps aside as soon as a part of the gate
is open.  A gate has at least one part, so the two never happen together.
-/

namespace Movesets

namespace Directions

theorem isEmpty_iff (d : Directions) :
    d.isEmpty = true ↔ ∀ code, d.hasCode code = false := by
  constructor
  · intro empty code
    have zero : d.bits = 0 := by simpa [isEmpty] using empty
    simp [hasCode, FlagSet.hasBit, zero]
  · intro none
    have zero : d.bits.toNat = 0 := by
      refine Nat.eq_of_testBit_eq fun i => ?_
      rw [Nat.zero_testBit]
      by_cases small : i < 8
      · have bit := none (i + 1)
        simpa [hasCode, FlagSet.hasBit, Nat.succ_le_of_lt small] using bit
      · have width : d.bits.toNat < 2 ^ 8 := d.bits.toNat_lt
        have wide : 2 ^ 8 ≤ 2 ^ i := Nat.pow_le_pow_right (by decide) (by omega)
        exact Nat.testBit_lt_two_pow (by omega)
    rw [isEmpty, beq_iff_eq]
    exact UInt8.toNat_inj.mp zero

theorem codes_eq_nil_iff (d : Directions) : d.codes = [] ↔ d.isEmpty = true := by
  rw [isEmpty_iff, List.eq_nil_iff_forall_not_mem]
  simp

/-- The value of the variable is the code of one of the directions. -/
def HasValue (d : Directions) (value : Int32) : Prop :=
  ∃ code, d.hasCode code = true ∧ value = Int32.ofNat code

def Share (d e : Directions) : Prop := ∃ code, d.hasCode code = true ∧ e.hasCode code = true

end Directions

namespace Gate

/-- Every part of the gate is open, for a parent of this ordinal. -/
def AllOpen (g : Gate) (ordinal : UInt32) (s : RuntimeState) : Prop :=
  (g.directions.isEmpty = true ∨ g.directions.HasValue (s.value .direction)) ∧
  (g.movement = true → s.moving = true) ∧
  (g.random = true → s.value .randomSelector = ordinal.toInt32)

/-- Some part of the gate is open, for a parent of this ordinal. -/
def AnyOpen (g : Gate) (ordinal : UInt32) (s : RuntimeState) : Prop :=
  g.directions.HasValue (s.value .direction) ∨
  (g.movement = true ∧ s.moving = true) ∨
  (g.random = true ∧ s.value .randomSelector = ordinal.toInt32)

theorem AllOpen.anyOpen {g : Gate} {ordinal : UInt32} {s : RuntimeState}
    (h : g.AllOpen ordinal s) : g.AnyOpen ordinal s := by
  obtain ⟨directions, movement, random⟩ := h
  rcases g.opens with has | has | has
  · rcases directions with empty | now
    · rw [has] at empty
      cases empty
    · exact Or.inl now
  · exact Or.inr (Or.inr ⟨has, random has⟩)
  · exact Or.inr (Or.inl ⟨has, movement has⟩)

end Gate

namespace Block
open Condition RuntimeState

theorem isDirection_holds_iff (s : RuntimeState) (code : Nat) :
    (isDirection code).holds s = true ↔ s.value .direction = Int32.ofNat code := by
  simp [isDirection, Fact.holds]

theorem isPicked_holds_iff (s : RuntimeState) (ordinal : UInt32) :
    (isPicked ordinal).holds s = true ↔ s.value .randomSelector = ordinal.toInt32 := by
  simp [isPicked, Fact.holds]

theorem meets_childParts (s : RuntimeState) (ordinal : UInt32) (g : Gate) :
    s.Meets (childParts ordinal g) ↔ g.AllOpen ordinal s := by
  have directions : s.Meets (if g.directions.codes.isEmpty then []
      else [.any (g.directions.codes.map fun code => .is (isDirection code))]) ↔
      g.directions.isEmpty = true ∨ g.directions.HasValue (s.value .direction) := by
    rw [meets_ite_not, meets_cons, List.isEmpty_iff, Directions.codes_eq_nil_iff]
    simp [isDirection_holds_iff, Directions.HasValue]
  have movement : s.Meets (if g.movement then [.is .moving] else []) ↔
      (g.movement = true → s.moving = true) := by
    rw [meets_ite]
    simp [Fact.holds]
  have random : s.Meets (if g.random then [.is (isPicked ordinal)] else []) ↔
      (g.random = true → s.value .randomSelector = ordinal.toInt32) := by
    rw [meets_ite]
    simp [isPicked_holds_iff]
  rw [childParts, meets_append, meets_append, directions, movement, random, and_assoc]
  rfl

theorem mem_gateCodes (gates : List Gate) (code : Nat) :
    code ∈ gateCodes gates ↔ ∃ g ∈ gates, g.directions.hasCode code = true := by
  rw [gateCodes, List.mem_filter, List.any_eq_true, and_iff_right_iff_imp]
  rintro ⟨g, _, has⟩
  exact (List.mem_filter.mp (Directions.mem_codes.mpr has)).1

theorem meets_parentParts (s : RuntimeState) (ordinal : UInt32) (gates : List Gate) :
    s.Meets (parentParts ordinal gates) ↔ ∀ g ∈ gates, ¬ g.AnyOpen ordinal s := by
  have unwrap (cs : List Condition) :
      s.Meets (if cs.isEmpty then [] else [.all cs]) ↔ s.Meets cs := by
    rw [meets_ite_not, meets_cons, all_holds_iff, List.isEmpty_iff]
    constructor
    · rintro (rfl | ⟨h, _⟩)
      · exact meets_nil s
      · exact h
    · exact fun h => Or.inr ⟨h, meets_nil s⟩
  rw [parentParts, unwrap, meets_append, meets_append, meets_map, meets_ite, meets_ite]
  simp only [mem_gateCodes, List.any_eq_true, meets_cons, meets_nil, and_true, holds_isNot,
    Bool.not_eq_true', ← Bool.not_eq_true, isDirection_holds_iff, isPicked_holds_iff]
  constructor
  · rintro ⟨⟨directions, movement⟩, random⟩ g mem (⟨code, has, now⟩ | ⟨has, now⟩ | ⟨has, now⟩)
    · exact directions code ⟨g, mem, has⟩ now
    · exact movement ⟨g, mem, has⟩ now
    · exact random ⟨g, mem, has⟩ now
  · intro shut
    refine ⟨⟨?_, ?_⟩, ?_⟩
    · rintro code ⟨g, mem, has⟩ now
      exact shut g mem (Or.inl ⟨code, has, now⟩)
    · rintro ⟨g, mem, has⟩ now
      exact shut g mem (Or.inr (Or.inl ⟨has, now⟩))
    · rintro ⟨g, mem, has⟩ now
      exact shut g mem (Or.inr (Or.inr ⟨has, now⟩))

theorem mem_childGates {rest : List Placement} {g : Gate} :
    g ∈ childGates rest ↔
      ∃ r ∈ rest.takeWhile fun r => !r.isParent, r.variant.role = .child g := by
  have gate (role : Role) : role.gate? = some g ↔ role = .child g := by
    cases role <;> simp [Role.gate?]
  simp only [childGates, List.mem_filterMap, gate]

end Block

end Movesets
