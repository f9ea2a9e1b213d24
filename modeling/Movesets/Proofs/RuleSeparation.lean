import Mathlib.Data.List.Nodup
import Movesets.Document
import Movesets.Proofs.LoneParent
import Movesets.Proofs.Precedence

set_option autoImplicit false

/-!
# Rules of a model

Blocks of two rules can hold together only if both rules go by keywords or both by factions, since
an actor has one base and one race but may have many keywords and factions.  Rules of other kinds
are kept apart by the tier and the identity, the player's rule and the general one by the identity
alone.
-/

namespace Movesets

/-- Every rule goes by a matcher of its own, the two that are always there by theirs. -/
structure Model.Distinct (m : Model) : Prop where
  player : m.player.matcher = .player
  general : m.general.matcher = .general
  declared : ∀ r ∈ m.rules, r.matcher.isBuiltIn = false
  nodup : (m.rules.map Rule.matcher).Nodup

namespace Model

theorem mem_allRules {m : Model} {ref : RuleRef} {r : Rule} : (ref, r) ∈ m.allRules ↔
    (ref = .player ∧ r = m.player) ∨ (ref = .general ∧ r = m.general) ∨
      ∃ j, ref = .declared j ∧ m.rules[j]? = some r := by
  simp only [allRules, List.mem_cons, Prod.mk.injEq, List.mem_map, Prod.exists,
    List.mem_zipIdx_iff_getElem?]
  refine or_congr_right (or_congr_right ?_)
  constructor
  · rintro ⟨r', j, at_j, rfl, rfl⟩
    exact ⟨j, rfl, at_j⟩
  · rintro ⟨j, rfl, at_j⟩
    exact ⟨r, j, at_j, rfl, rfl⟩

theorem mem_allRules_iff_rule? {m : Model} {ref : RuleRef} {r : Rule} :
    (ref, r) ∈ m.allRules ↔ m.rule? ref = some r := by
  rw [mem_allRules]
  cases ref <;> simp [rule?, eq_comm]

theorem matchers_allRules (m : Model) : (m.allRules.map fun x => x.2.matcher) =
    m.player.matcher :: m.general.matcher :: m.rules.map Rule.matcher := by
  have declared : (m.rules.zipIdx.map fun x => x.1.matcher) = m.rules.map Rule.matcher := by
    conv => rhs; rw [← List.zipIdx_map_fst 0 m.rules, List.map_map]
    rfl
  rw [allRules, List.map_cons, List.map_cons, List.map_map, ← declared]
  rfl

theorem Distinct.nodup_allRules {m : Model} (distinct : m.Distinct) :
    (m.allRules.map fun x => x.2.matcher).Nodup := by
  have fresh {matcher : Matcher} (builtIn : matcher.isBuiltIn = true) :
      matcher ∉ m.rules.map Rule.matcher := by
    intro mem
    obtain ⟨r, inRules, rfl⟩ := List.mem_map.mp mem
    rw [distinct.declared r inRules] at builtIn
    cases builtIn
  rw [matchers_allRules, distinct.player, distinct.general, List.nodup_cons, List.nodup_cons,
    List.mem_cons, not_or]
  exact ⟨⟨by decide, fresh rfl⟩, fresh rfl, distinct.nodup⟩

theorem Distinct.matcher_ne {m : Model} (distinct : m.Distinct) {ref ref' : RuleRef} {r r' : Rule}
    (hr : (ref, r) ∈ m.allRules) (hr' : (ref', r') ∈ m.allRules) (ne : ref ≠ ref') :
    r.matcher ≠ r'.matcher := by
  intro same
  have pair := List.inj_on_of_nodup_map distinct.nodup_allRules hr hr' same
  exact ne (congrArg Prod.fst pair)

end Model

/-- Two matchers of one kind for the same actor agree, but for keywords and factions. -/
theorem Matcher.eq_of_admits {m m' : Matcher} {a : Actor} (kind : m.kind = m'.kind)
    (admits : m.admits a = true) (admits' : m'.admits a = true) :
    m = m' ∨ m.kind = .keyword ∨ m.kind = .faction := by
  cases m <;> cases m' <;> cases kind
  case player.player => exact Or.inl rfl
  case general.general => exact Or.inl rfl
  case unique.unique base base' =>
    have eq : a.base = base := beq_iff_eq.mp admits
    have eq' : a.base = base' := beq_iff_eq.mp admits'
    exact Or.inl (by rw [← eq, ← eq'])
  case race.race race race' =>
    have eq : a.race = race := beq_iff_eq.mp admits
    have eq' : a.race = race' := beq_iff_eq.mp admits'
    exact Or.inl (by rw [← eq, ← eq'])
  case keyword.keyword => exact Or.inr (Or.inl rfl)
  case faction.faction => exact Or.inr (Or.inr rfl)

theorem Matcher.kind_eq_of_admits {m m' : Matcher} {a : Actor}
    (tier : m.kind.priority = m'.kind.priority) (admits : m.admits a = true)
    (admits' : m'.admits a = true) : m.kind = m'.kind := by
  have apart {x y : Matcher} (player : x.kind = .player) (general : y.kind = .general)
      (hx : x.admits a = true) (hy : y.admits a = true) : False := by
    cases x <;> cases player
    cases y <;> cases general
    have isPlayer : a.isPlayer = true := hx
    have notPlayer : (!a.isPlayer) = true := hy
    rw [isPlayer] at notPlayer
    cases notPlayer
  rcases RuleKind.eq_of_priority_eq tier with same | ⟨player, general⟩ | ⟨general, player⟩
  · exact same
  · exact (apart player general admits admits').elim
  · exact (apart player general admits' admits).elim

namespace Document

theorem mem_stanceBlocks {r : Rule} {c : Category} {stance : Nat} {b : Block} :
    b ∈ stanceBlocks r c stance ↔ ∃ p, c.stance? stance = some p ∧
      b ∈ Block.compileAll r.categories (some r) c stance p := by
  unfold stanceBlocks
  cases c.stance? stance with
  | none => simp
  | some p => simp

theorem mem_ruleBlocks {r : Rule} {b : Block} : b ∈ ruleBlocks r ↔
    ∃ c ∈ r.categories.values, ∃ stance ∈ stancesOf r, ∃ p, c.stance? stance = some p ∧
      b ∈ Block.compileAll r.categories (some r) c stance p := by
  simp only [ruleBlocks, List.mem_flatMap, mem_stanceBlocks]

/-- A block of a rule holds only for an actor that the rule is for, in the tier of the rule. -/
theorem admits_of_holds {r : Rule} {b : Block} (mem : b ∈ ruleBlocks r) {s : RuntimeState}
    (holds : b.condition.holds s = true) :
    r.matcher.admits s.actor = true ∧ s.value .priorityTier = r.kind.priority := by
  obtain ⟨c, _, stance, _, p, _, mem⟩ := mem_ruleBlocks.mp mem
  have meets := (Block.meets_shared s r.categories (some r) c stance).mp
    (Block.meets_shared_of_mem mem holds)
  exact ⟨meets.1 r rfl, meets.2.1⟩

/-- Blocks of two rules hold together only if both go by keywords or both by factions. -/
theorem ruleBlocks_exclusive {m : Model} (distinct : m.Distinct) {ref ref' : RuleRef} {r r' : Rule}
    (ne : ref ≠ ref') (hr : (ref, r) ∈ m.allRules) (hr' : (ref', r') ∈ m.allRules) {b b' : Block}
    (hb : b ∈ ruleBlocks r) (hb' : b' ∈ ruleBlocks r') {s : RuntimeState}
    (holds : b.condition.holds s = true) (holds' : b'.condition.holds s = true) :
    (r.kind = .keyword ∧ r'.kind = .keyword) ∨ (r.kind = .faction ∧ r'.kind = .faction) := by
  obtain ⟨admits, tier⟩ := admits_of_holds hb holds
  obtain ⟨admits', tier'⟩ := admits_of_holds hb' holds'
  have kind : r.kind = r'.kind :=
    Matcher.kind_eq_of_admits (tier.symm.trans tier') admits admits'
  rcases Matcher.eq_of_admits kind admits admits' with same | keyword | faction
  · exact absurd same (distinct.matcher_ne hr hr' ne)
  · exact Or.inl ⟨keyword, kind.symm.trans keyword⟩
  · exact Or.inr ⟨faction, kind.symm.trans faction⟩

/-- A rule for the actors with a keyword, with one parent for swords. -/
def keywordRule (keyword : String) : Rule :=
  ⟨keyword, .keyword keyword,
    .ofList [("Sword", { Category.plain "Sword" 1 with stances := [Block.lone] })]⟩

def twoKeywords : Model :=
  ⟨.empty, ⟨"Player", .player, .empty⟩, ⟨"General NPC", .general, .empty⟩,
    [keywordRule "Vampire", keywordRule "ActorTypeNPC"]⟩

theorem twoKeywords_distinct : twoKeywords.Distinct := ⟨rfl, rfl, by decide, by decide⟩

def vampire : Actor :=
  { Actor.plain ⟨"Skyrim.esm", 0x1B07A⟩ ⟨"Skyrim.esm", 0x13746⟩ with
    keywords := ["Vampire", "ActorTypeNPC"] }

theorem exists_keywordRule_holds (keyword : String) (has : vampire.hasKeyword keyword = true) :
    ∃ b ∈ ruleBlocks (keywordRule keyword), b.condition.holds
      (Block.atFirst (some (keywordRule keyword)) vampire (fun _ => 1) fun _ => []) = true := by
  have blocks : ruleBlocks (keywordRule keyword) = [Block.loneBlock
      (Block.shared (keywordRule keyword).categories (some (keywordRule keyword))
        { Category.plain "Sword" 1 with stances := [Block.lone] } 0)] := rfl
  rw [blocks]
  refine ⟨_, List.mem_singleton_self _, Block.loneBlock_holds_atFirst ?_ ?_⟩
  · intro r mem
    cases mem
    exact has
  · exact Wields.of_bare (fun _ => rfl) rfl rfl (List.mem_singleton_self _) (Or.inl rfl)

theorem ruleBlocks_exclusive_twoKeywords : twoKeywords.Distinct ∧
    RuleRef.declared 0 ≠ .declared 1 ∧
    (.declared 0, keywordRule "Vampire") ∈ twoKeywords.allRules ∧
    (.declared 1, keywordRule "ActorTypeNPC") ∈ twoKeywords.allRules ∧
    ∃ b ∈ ruleBlocks (keywordRule "Vampire"), ∃ b' ∈ ruleBlocks (keywordRule "ActorTypeNPC"),
      ∃ s, b.condition.holds s = true ∧ b'.condition.holds s = true ∧
        (((keywordRule "Vampire").kind = .keyword ∧ (keywordRule "ActorTypeNPC").kind = .keyword) ∨
          ((keywordRule "Vampire").kind = .faction ∧
            (keywordRule "ActorTypeNPC").kind = .faction)) := by
  have ne : RuleRef.declared 0 ≠ .declared 1 := by decide
  have hr : (.declared 0, keywordRule "Vampire") ∈ twoKeywords.allRules :=
    List.mem_of_getElem? (i := 2) rfl
  have hr' : (.declared 1, keywordRule "ActorTypeNPC") ∈ twoKeywords.allRules :=
    List.mem_of_getElem? (i := 3) rfl
  obtain ⟨b, hb, holds⟩ := exists_keywordRule_holds "Vampire" (by decide)
  obtain ⟨b', hb', holds'⟩ := exists_keywordRule_holds "ActorTypeNPC" (by decide)
  exact ⟨twoKeywords_distinct, ne, hr, hr', b, hb, b', hb', _, holds, holds',
    ruleBlocks_exclusive twoKeywords_distinct ne hr hr' hb hb' holds holds'⟩

end Document

end Movesets
