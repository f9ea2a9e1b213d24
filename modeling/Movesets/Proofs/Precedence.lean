import Movesets.Resolution

set_option autoImplicit false

/-!
# The first eligible rule

Within a tier the eligible rule that was declared first is found, and a tier is tried only if no
rule of the tiers before it is eligible.  The tags of these tiers differ from one another and from
that of the general rule, so the reported tier says where the rule was found.
-/

namespace Movesets

/-- Only the kinds of the player and of everyone else share a tier. -/
theorem RuleKind.eq_of_priority_eq {k k' : RuleKind} (h : k.priority = k'.priority) :
    k = k' ∨ (k = .player ∧ k' = .general) ∨ (k = .general ∧ k' = .player) := by
  cases k <;> cases k' <;> revert h <;> decide

theorem RuleKind.eq_of_mem_tiers {k k' : RuleKind} (tried : k ∈ tiers)
    (h : k.priority = k'.priority) : k = k' := by
  rcases eq_of_priority_eq h with same | ⟨rfl, _⟩ | ⟨rfl, _⟩
  · exact same
  · exact absurd tried (by decide)
  · exact absurd tried (by decide)

theorem Matcher.kind_mem_tiers {matcher : Matcher} (declared : matcher.isBuiltIn = false) :
    matcher.kind ∈ RuleKind.tiers := by
  cases matcher with
  | player | general => cases declared
  | unique _ | faction _ | keyword _ | race _ => simp [kind, RuleKind.tiers]

namespace Resolution

variable {m : Model} {a : Actor} {category : String} {kind : RuleKind}

/-- The rule found in a tier is the eligible one that was declared first. -/
theorem inTier?_eq_some_iff {res : Resolution} : inTier? m a category kind = some res ↔
    ∃ i r, m.rules[i]? = some r ∧ Eligible kind a category r ∧
      (∀ j r', m.rules[j]? = some r' → Eligible kind a category r' → i ≤ j) ∧
      res = ⟨.declared i, r.available category, kind.priority⟩ := by
  rw [inTier?, Option.map_eq_some_iff]
  constructor
  · rintro ⟨⟨r, i⟩, found, rfl⟩
    obtain ⟨eligible, n, bound, at_n, before⟩ := List.find?_eq_some_iff_getElem.mp found
    rw [List.getElem_zipIdx, Nat.zero_add, Prod.mk.injEq] at at_n
    obtain ⟨rfl, rfl⟩ := at_n
    have inRules : n < m.rules.length := by simpa using bound
    refine ⟨n, _, List.getElem?_eq_getElem inRules, of_decide_eq_true eligible, ?_, rfl⟩
    intro j r' at_j eligible'
    obtain ⟨_, rfl⟩ := List.getElem?_eq_some_iff.mp at_j
    apply Nat.le_of_not_lt
    intro earlier
    have skipped := before j earlier
    rw [List.getElem_zipIdx, decide_eq_true eligible'] at skipped
    cases skipped
  · rintro ⟨i, r, at_i, eligible, first, rfl⟩
    obtain ⟨inRules, rfl⟩ := List.getElem?_eq_some_iff.mp at_i
    refine ⟨(m.rules[i], i), ?_, rfl⟩
    rw [List.find?_eq_some_iff_getElem]
    refine ⟨decide_eq_true eligible, i, by simpa using inRules, ?_, ?_⟩
    · rw [List.getElem_zipIdx, Nat.zero_add]
    · intro j earlier
      have skipped : ¬ Eligible kind a category m.rules[j] := fun eligible' =>
        absurd (first j _ (List.getElem?_eq_getElem (by omega)) eligible') (by omega)
      rw [List.getElem_zipIdx, decide_eq_false skipped]
      rfl

theorem tier_of_inTier? {res : Resolution} (found : inTier? m a category kind = some res) :
    res.tier = kind.priority := by
  obtain ⟨_, _, _, _, _, rfl⟩ := inTier?_eq_some_iff.mp found
  rfl

theorem inTier?_eq_none_iff :
    inTier? m a category kind = none ↔ ∀ r ∈ m.rules, ¬ Eligible kind a category r := by
  rw [inTier?, Option.map_eq_none_iff, List.find?_eq_none]
  simp only [decide_eq_true_eq, Prod.forall, List.mem_zipIdx_iff_getElem?]
  constructor
  · intro none r mem
    obtain ⟨i, at_i⟩ := List.mem_iff_getElem?.mp mem
    exact none r i at_i
  · intro none r i at_i
    exact none r (List.mem_of_getElem? at_i)

end Resolution

namespace Model
open Resolution

variable {m : Model} {a : Actor} {category : String}

theorem resolve_cases (m : Model) (a : Actor) (category : String) :
    (∃ kind ∈ RuleKind.tiers, inTier? m a category kind = some (m.resolve (some a) category)) ∨
    (∀ kind ∈ RuleKind.tiers, inTier? m a category kind = none) ∧
      m.resolve (some a) category = .general (m.general.available category) := by
  cases found : RuleKind.tiers.findSome? (inTier? m a category) with
  | some res =>
    have resolved : m.resolve (some a) category = res := by
      simp only [resolve, found, Option.getD_some]
    rw [resolved]
    exact Or.inl (List.exists_of_findSome?_eq_some found)
  | none =>
    refine Or.inr ⟨List.findSome?_eq_none_iff.mp found, ?_⟩
    simp only [resolve, found, Option.getD_none]

theorem resolve_rule_eq_general
    (tier : RuleKind.general.priority = (m.resolve (some a) category).tier) :
    (m.resolve (some a) category).rule = .general := by
  rcases m.resolve_cases a category with ⟨kind, tried, found⟩ | ⟨_, general⟩
  · have same := tier.trans (tier_of_inTier? found)
    obtain rfl := RuleKind.eq_of_mem_tiers tried same.symm
    exact absurd tried (by decide)
  · rw [general]
    rfl

/-- An eligible rule that does not drive the actor, though its tier does, has one before it. -/
theorem exists_earlier_of_eligible {j : Nat} {r : Rule} (at_j : m.rules[j]? = some r)
    (tried : r.kind ∈ RuleKind.tiers) (eligible : Eligible r.kind a category r)
    (tier : r.kind.priority = (m.resolve (some a) category).tier)
    (beside : .declared j ≠ (m.resolve (some a) category).rule) :
    ∃ i first, (m.resolve (some a) category).rule = .declared i ∧ i < j ∧
      m.rules[i]? = some first ∧ Eligible r.kind a category first := by
  rcases m.resolve_cases a category with ⟨kind, _, found⟩ | ⟨none, _⟩
  · obtain rfl : r.kind = kind :=
      RuleKind.eq_of_mem_tiers tried (tier.trans (tier_of_inTier? found))
    obtain ⟨i, first, at_i, eligible', least, res⟩ := inTier?_eq_some_iff.mp found
    rw [res] at beside ⊢
    have le := least j r at_j eligible
    have ne : i ≠ j := fun same => beside (congrArg RuleRef.declared same.symm)
    exact ⟨i, first, rfl, by omega, at_i, eligible'⟩
  -- the rule itself would have been found in its tier
  · have skipped := inTier?_eq_none_iff.mp (none r.kind tried) r (List.mem_of_getElem? at_j)
    exact absurd eligible skipped

end Model

end Movesets
