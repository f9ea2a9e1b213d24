import Movesets.Proofs.Equipment

set_option autoImplicit false

/-!
# What every block of a stance asks

The shared conditions of a block say who the actor is, which tier and stance the runtime has set and
what the hands hold.  None of them looks at the ordinal, the direction, the random pick or the
movement of the actor.
-/

namespace Movesets

/-- The actor that a state is about, its stats left at full. -/
def RuntimeState.actor (s : RuntimeState) : Actor :=
  ⟨s.base, s.race, s.factions, s.keywords, .full⟩

/-- The matcher sees of an actor only what a state describes. -/
theorem Matcher.admits_of_describes {s : RuntimeState} {a : Actor} (h : s.Describes a)
    (m : Matcher) : m.admits a = m.admits s.actor := by
  obtain ⟨base, race, factions, keywords⟩ := h
  cases m <;> simp [admits, RuntimeState.actor, Actor.isPlayer, Actor.inFaction, Actor.hasKeyword,
    base, race, factions, keywords]

namespace Block
open Condition RuntimeState

theorem identity_holds (s : RuntimeState) (m : Matcher) :
    (identity m).holds s = m.admits s.actor := by
  cases m with
  | player | unique _ | race _ => exact holds_is s _
  | general => exact holds_isNot s _
  | faction _ | keyword _ => exact holds_is s _

theorem meets_identity (s : RuntimeState) (rule : Option Rule) :
    s.Meets (rule.map fun r => identity r.matcher).toList ↔
      ∀ r ∈ rule, r.matcher.admits s.actor = true := by
  cases rule with
  | none => simp
  | some r => simp [identity_holds]

theorem meets_shared (s : RuntimeState) (cs : Categories) (rule : Option Rule) (c : Category)
    (stance : Nat) : s.Meets (shared cs rule c stance) ↔
      (∀ r ∈ rule, r.matcher.admits s.actor = true) ∧ s.value .priorityTier = tierOf rule ∧
        Wields cs c s ∧ s.value .stanceSelector = stanceValue rule stance := by
  simp only [shared, meets_append, meets_identity, meets_cons, meets_nil, equals_holds_iff,
    and_true, ← meets_handConditions, and_assoc]

/-- The shared conditions cannot tell apart states that differ in other variables and in movement
alone. -/
theorem meets_shared_congr {s u : RuntimeState} (who : u.actor = s.actor)
    (types : u.equippedType = s.equippedType) (keywords : u.equippedKeywords = s.equippedKeywords)
    (tier : u.value .priorityTier = s.value .priorityTier)
    (selector : u.value .stanceSelector = s.value .stanceSelector) (cs : Categories)
    (rule : Option Rule) (c : Category) (stance : Nat) :
    u.Meets (shared cs rule c stance) ↔ s.Meets (shared cs rule c stance) := by
  have hands : Wields cs c u ↔ Wields cs c s := by
    simp only [wields_iff, types, keywords]
  rw [meets_shared, meets_shared, who, tier, selector, hands]

end Block

end Movesets
