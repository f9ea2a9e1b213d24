import Movesets.Proofs.Attainability
import Movesets.Proofs.RuleSeparation

set_option autoImplicit false

/-!
# Blocks beside the rule that drives an actor

The runtime is told the tier of the rule that drives an actor, and blocks ask for identity and tier
alone.  A block of another rule can hold beside it exactly when its rule is for the actor and shares
the tier, which in a model with distinct matchers leaves the rules by keyword or by faction that
were declared behind the first eligible one: declaration order is not exported.
-/

namespace Movesets
open RuntimeState Playlist

/-- The runtime is about the actor and has been told which tier drives it, outside of the player's
stances. -/
structure RuntimeState.Follows (s : RuntimeState) (res : Resolution) (a : Actor) : Prop where
  describes : s.Describes a
  tier : s.value .priorityTier = res.tier
  stance : s.value .stanceSelector = 0

namespace Document

def categoryBlocks (r : Rule) (category : String) : List Block :=
  (r.category? category).elim [] fun c => (stancesOf r).flatMap (stanceBlocks r c)

theorem mem_categoryBlocks {r : Rule} {category : String} {b : Block} :
    b ∈ categoryBlocks r category ↔ ∃ c, r.category? category = some c ∧
      ∃ stance ∈ stancesOf r, ∃ p, c.stance? stance = some p ∧
        b ∈ Block.compileAll r.categories (some r) c stance p := by
  unfold categoryBlocks
  cases r.category? category with
  | none => simp
  | some c => simp [List.mem_flatMap, mem_stanceBlocks]

theorem mem_ruleBlocks_of_mem_categoryBlocks {r : Rule} {category : String} {b : Block}
    (hb : b ∈ categoryBlocks r category) : b ∈ ruleBlocks r := by
  obtain ⟨c, found, compiled⟩ := mem_categoryBlocks.mp hb
  exact mem_ruleBlocks.mpr ⟨c, Table.mem_values_of_get? found, compiled⟩

/-- The stances of the player are counted from one. -/
theorem stanceValue_eq_zero_iff {r : Rule} {stance : Nat} (mem : stance ∈ stancesOf r) :
    Block.stanceValue (some r) stance = 0 ↔ r.isPlayer = false := by
  cases player : r.isPlayer with
  | false => simp [Block.stanceValue, Block.hasStances, player]
  | true =>
    have few : stance < 4 := by simpa [stancesOf, player, stanceCount] using mem
    have positive : ∀ n < 4, Int32.ofNat n + 1 ≠ 0 := by decide
    simp [Block.stanceValue, Block.hasStances, player, positive stance few]

/-- A block can hold in a state of the actor that follows a resolution exactly when its rule is for
the actor, is not the player's, has the tier of the resolution and an attainable category. -/
theorem exists_follows_holds_iff {r : Rule} {category : String} {b : Block}
    (hb : b ∈ categoryBlocks r category) (res : Resolution) (a : Actor) :
    (∃ s : RuntimeState, s.Follows res a ∧ b.condition.holds s = true) ↔
      r.isPlayer = false ∧ r.matcher.admits a = true ∧ r.kind.priority = res.tier ∧
        ∃ c, r.category? category = some c ∧ c.Attainable r.categories := by
  obtain ⟨c, found, stance, inStances, p, _, compiled⟩ := mem_categoryBlocks.mp hb
  have told {s : RuntimeState} (holds : b.condition.holds s = true) :
      s.value .priorityTier = r.kind.priority ∧
        s.value .stanceSelector = Block.stanceValue (some r) stance := by
    have meets := (Block.meets_shared s _ _ c stance).mp (Block.meets_shared_of_mem compiled holds)
    exact ⟨meets.2.1, meets.2.2.2⟩
  constructor
  · rintro ⟨s, ⟨describes, tier, selector⟩, holds⟩
    have admits := (admits_of_holds (mem_ruleBlocks_of_mem_categoryBlocks hb) holds).1
    rw [← Matcher.admits_of_describes describes] at admits
    obtain ⟨tier', selector'⟩ := told holds
    rw [selector] at selector'
    refine ⟨?_, admits, tier'.symm.trans tier, c, found, Block.attainable_of_holds compiled holds⟩
    exact (stanceValue_eq_zero_iff inStances).mp selector'.symm
  · rintro ⟨notPlayer, admits, tier, c', found', attainable⟩
    rw [found] at found'
    cases found'
    have admitted : ∀ r' ∈ some r, r'.matcher.admits a = true := by
      intro r' same
      cases same
      exact admits
    -- what the block asks of tier and stance is what the runtime has been told
    obtain ⟨s, describes, holds⟩ := Block.exists_holds_of_admits admitted attainable compiled
    obtain ⟨tier', selector⟩ := told holds
    rw [(stanceValue_eq_zero_iff inStances).mpr notPlayer] at selector
    exact ⟨s, ⟨describes, tier'.trans tier, selector⟩, holds⟩

theorem available_pos_of_mem {r : Rule} {category : String} {b : Block}
    (hb : b ∈ categoryBlocks r category) (notPlayer : r.isPlayer = false) :
    0 < r.available category := by
  obtain ⟨c, found, stance, inStances, p, stance_p, compiled⟩ := mem_categoryBlocks.mp hb
  have first : stance = 0 := by simpa [stancesOf, notPlayer] using inStances
  subst first
  have playlist : r.playlist? category 0 = some p := by
    rw [Rule.playlist?, found, Option.bind_some, stance_p]
  obtain ⟨i, at_i⟩ := List.mem_iff_getElem?.mp compiled
  obtain ⟨q, placed, _⟩ := Block.placement_of_getElem? at_i
  obtain ⟨e, entry, selected, _⟩ := entry_of_mem_order (List.mem_of_getElem? placed)
  rw [Rule.available, playlist, Option.map_some, Option.getD_some]
  exact List.countP_pos_iff.mpr ⟨e, List.mem_of_getElem? entry, selected⟩

/-- A block beside the rule that drives an actor can hold exactly when its rule is for the actor and
shares the tier.  With matchers of their own, these are rules by keyword or by faction behind the
first eligible one. -/
theorem holds_beside_resolved_iff (m : Model) (a : Actor) (category : String) {ref : RuleRef}
    {r : Rule} (hr : (ref, r) ∈ m.allRules)
    (beside : ref ≠ (m.resolve (some a) category).rule) {b : Block}
    (hb : b ∈ categoryBlocks r category) :
    ((∃ s : RuntimeState, s.Follows (m.resolve (some a) category) a ∧ b.condition.holds s = true) ↔
      r.isPlayer = false ∧ r.matcher.admits a = true ∧
        r.kind.priority = (m.resolve (some a) category).tier ∧
          ∃ c, r.category? category = some c ∧ c.Attainable r.categories) ∧
    (m.Distinct →
      (∃ s : RuntimeState, s.Follows (m.resolve (some a) category) a ∧
        b.condition.holds s = true) →
      (r.kind = .keyword ∨ r.kind = .faction) ∧
        ∃ i j first, (m.resolve (some a) category).rule = .declared i ∧ ref = .declared j ∧ i < j ∧
          m.rules[i]? = some first ∧ first.kind = r.kind) := by
  have possible := exists_follows_holds_iff hb (m.resolve (some a) category) a
  refine ⟨possible, fun distinct holds => ?_⟩
  obtain ⟨notPlayer, admits, tier, _⟩ := possible.mp holds
  rcases Model.mem_allRules.mp hr with ⟨rfl, rfl⟩ | ⟨rfl, rfl⟩ | ⟨j, rfl, at_j⟩
  · rw [Rule.isPlayer, Rule.kind, distinct.player] at notPlayer
    cases notPlayer
  · rw [Rule.kind, distinct.general] at tier
    exact absurd (Model.resolve_rule_eq_general tier).symm beside
  -- a declared rule with a block is eligible, so the rule found in its tier is an earlier one
  · have tried : r.kind ∈ RuleKind.tiers :=
      Matcher.kind_mem_tiers (distinct.declared r (List.mem_of_getElem? at_j))
    have eligible : Resolution.Eligible r.kind a category r :=
      ⟨rfl, admits, available_pos_of_mem hb notPlayer⟩
    obtain ⟨i, first, resolved, earlier, at_i, kind, admits', _⟩ :=
      Model.exists_earlier_of_eligible at_j tried eligible tier beside
    refine ⟨?_, i, j, first, resolved, rfl, earlier, at_i, kind⟩
    have declared_i : (.declared i, first) ∈ m.allRules :=
      Model.mem_allRules.mpr (Or.inr (Or.inr ⟨i, rfl, at_i⟩))
    have ne : RuleRef.declared j ≠ .declared i := by
      rw [← resolved]
      exact beside
    exact (Matcher.eq_of_admits kind.symm admits admits').resolve_left
      (distinct.matcher_ne hr declared_i ne)

theorem resolve_vampire :
    twoKeywords.resolve (some vampire) "Sword" = ⟨.declared 0, 1, 3⟩ := by
  decide +kernel

theorem exists_follows_vampire {b : Block}
    (hb : b ∈ categoryBlocks (keywordRule "ActorTypeNPC") "Sword") : ∃ s : RuntimeState,
      s.Follows (twoKeywords.resolve (some vampire) "Sword") vampire ∧
        b.condition.holds s = true := by
  rw [resolve_vampire, exists_follows_holds_iff hb]
  refine ⟨rfl, by decide, rfl, _, rfl, fun any => ?_⟩
  exact absurd any (by decide)

theorem holds_beside_resolved_iff_vampire :
    (.declared 1, keywordRule "ActorTypeNPC") ∈ twoKeywords.allRules ∧
    .declared 1 ≠ (twoKeywords.resolve (some vampire) "Sword").rule ∧ twoKeywords.Distinct ∧
    ∃ b ∈ categoryBlocks (keywordRule "ActorTypeNPC") "Sword",
      (∃ s : RuntimeState, s.Follows (twoKeywords.resolve (some vampire) "Sword") vampire ∧
        b.condition.holds s = true) ∧
      ∃ i j first, (twoKeywords.resolve (some vampire) "Sword").rule = .declared i ∧
        RuleRef.declared 1 = .declared j ∧ i < j ∧ twoKeywords.rules[i]? = some first ∧
          first.kind = .keyword := by
  have hr : (.declared 1, keywordRule "ActorTypeNPC") ∈ twoKeywords.allRules :=
    List.mem_of_getElem? (i := 3) rfl
  have beside : .declared 1 ≠ (twoKeywords.resolve (some vampire) "Sword").rule := by
    rw [resolve_vampire]
    decide
  obtain ⟨b, hb⟩ : ∃ b, b ∈ categoryBlocks (keywordRule "ActorTypeNPC") "Sword" :=
    ⟨_, List.mem_cons_self⟩
  have holds := exists_follows_vampire hb
  have later := (holds_beside_resolved_iff twoKeywords vampire "Sword" hr beside hb).2
    twoKeywords_distinct holds
  exact ⟨hr, beside, twoKeywords_distinct, b, hb, holds, later.2⟩

/-- The first of two keyword rules drives the actor with both keywords, and the second one holds. -/
theorem second_keyword_rule_holds : twoKeywords.Distinct ∧
    (twoKeywords.resolve (some vampire) "Sword").rule = .declared 0 ∧
    (.declared 1, keywordRule "ActorTypeNPC") ∈ twoKeywords.allRules ∧
    ∃ b ∈ categoryBlocks (keywordRule "ActorTypeNPC") "Sword", ∃ s : RuntimeState,
      s.Follows (twoKeywords.resolve (some vampire) "Sword") vampire ∧
        b.condition.holds s = true := by
  obtain ⟨b, hb⟩ : ∃ b, b ∈ categoryBlocks (keywordRule "ActorTypeNPC") "Sword" :=
    ⟨_, List.mem_cons_self⟩
  refine ⟨twoKeywords_distinct, ?_, List.mem_of_getElem? (i := 3) rfl, b, hb,
    exists_follows_vampire hb⟩
  rw [resolve_vampire]

end Document

end Movesets
