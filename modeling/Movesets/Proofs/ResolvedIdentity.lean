import Movesets.Proofs.RuleSeparation

set_option autoImplicit false

/-!
# What blocks ask of the actor and its tier

A block begins with the identity of its rule and the tier of its kind.  The identity holds of an
actor exactly when the matcher of the rule admits it, so the rule that drives an actor asks for what
the runtime has been told, and rules of other tiers do not hold.
-/

namespace Movesets
open RuntimeState

namespace Block

theorem identity_holds_iff_admits {s : RuntimeState} {a : Actor} (describes : s.Describes a)
    (matcher : Matcher) : (identity matcher).holds s = true ↔ matcher.admits a = true := by
  rw [identity_holds, Matcher.admits_of_describes describes]

/-- The block is compiled for a rule, for any category, stance and playlist. -/
def IsFor (b : Block) (r : Rule) : Prop :=
  ∃ cs c stance p, b ∈ compileAll cs (some r) c stance p

variable {b : Block} {r : Rule}

theorem IsFor.exists_parts (compiled : b.IsFor r) : ∃ rest,
    b.parts = identity r.matcher :: equals .priorityTier r.kind.priority :: rest := by
  obtain ⟨cs, c, stance, p, mem⟩ := compiled
  obtain ⟨i, at_i⟩ := List.mem_iff_getElem?.mp mem
  obtain ⟨q, _, rfl⟩ := placement_of_getElem? at_i
  exact ⟨_, rfl⟩

theorem IsFor.tier_of_holds (compiled : b.IsFor r) {s : RuntimeState}
    (holds : b.condition.holds s = true) : s.value .priorityTier = r.kind.priority := by
  obtain ⟨rest, parts⟩ := compiled.exists_parts
  rw [condition_holds_iff, parts, meets_cons, meets_cons, equals_holds_iff] at holds
  exact holds.2.1

end Block

namespace Model

/-- The rule that drives an actor other than the player is there, is for the actor and has the tier
of the resolution. -/
theorem exists_resolved {m : Model} {a : Actor} (other : a.isPlayer = false) {category : String}
    (general : (m.resolve (some a) category).rule = .general → m.general.matcher = .general) :
    ∃ r, m.rule? (m.resolve (some a) category).rule = some r ∧ r.matcher.admits a = true ∧
      r.kind.priority = (m.resolve (some a) category).tier := by
  rcases m.resolve_cases a category with ⟨kind, _, found⟩ | ⟨_, fallback⟩
  · obtain ⟨i, r, at_i, ⟨sameKind, admits, _⟩, _, resolved⟩ :=
      Resolution.inTier?_eq_some_iff.mp found
    rw [resolved]
    exact ⟨r, at_i, admits, congrArg RuleKind.priority sameKind⟩
  · rw [fallback] at general ⊢
    refine ⟨m.general, rfl, ?_, ?_⟩
    · rw [general rfl, Matcher.admits, other]
      rfl
    · rw [Rule.kind, general rfl]
      rfl

end Model

namespace Document
open Block

/-- The identity of a matcher holds exactly of the actors that it admits.  So with the tier that the
resolution reports, every block of the rule that drives an actor finds its identity and tier as it
asks, and no block of a rule of another tier holds.  Where the general rule drives the actor it has
to go by its own matcher, as in every model that is built or loaded. -/
theorem identity_and_tier_of_resolved (m : Model) :
    (∀ (matcher : Matcher) (a : Actor) (s : RuntimeState), s.Describes a →
      ((identity matcher).holds s = true ↔ matcher.admits a = true)) ∧
    ∀ (a : Actor) (category : String) (s : RuntimeState), a.isPlayer = false → s.Describes a →
      s.value .priorityTier = (m.resolve (some a) category).tier →
      (((m.resolve (some a) category).rule = .general → m.general.matcher = .general) →
        ∃ r, m.rule? (m.resolve (some a) category).rule = some r ∧
          ∀ b : Block, b.IsFor r → ∃ rest,
            b.parts = identity r.matcher :: equals .priorityTier r.kind.priority :: rest ∧
            (identity r.matcher).holds s = true ∧
            (equals .priorityTier r.kind.priority).holds s = true) ∧
      ∀ ref r, (ref, r) ∈ m.allRules → r.kind.priority ≠ (m.resolve (some a) category).tier →
        ∀ b : Block, b.IsFor r → b.condition.holds s = false := by
  refine ⟨fun matcher a s describes => identity_holds_iff_admits describes matcher, ?_⟩
  intro a category s other describes told
  constructor
  · intro general
    obtain ⟨r, driving, admits, tier⟩ := Model.exists_resolved other general
    refine ⟨r, driving, fun b compiled => ?_⟩
    obtain ⟨rest, parts⟩ := compiled.exists_parts
    refine ⟨rest, parts, (identity_holds_iff_admits describes r.matcher).mpr admits, ?_⟩
    exact (equals_holds_iff s _ _).mpr (told.trans tier.symm)
  · intro ref r _ apart b compiled
    by_contra holds
    rw [Bool.not_eq_false] at holds
    exact apart ((compiled.tier_of_holds holds).symm.trans told)

/-- An actor without keywords. -/
def commoner : Actor := .plain ⟨"Skyrim.esm", 0x13BBF⟩ ⟨"Skyrim.esm", 0x13746⟩

theorem identity_and_tier_of_resolved_commoner :
    twoKeywords.general.matcher = .general ∧ commoner.isPlayer = false ∧
    twoKeywords.resolve (some commoner) "Sword" = ⟨.general, 0, 0⟩ ∧
    ∃ s : RuntimeState, s.Describes commoner ∧
      s.value .priorityTier = (twoKeywords.resolve (some commoner) "Sword").tier ∧
      (∀ b : Block, b.IsFor twoKeywords.general → (identity .general).holds s = true) ∧
      ∀ b ∈ ruleBlocks (keywordRule "Vampire"), b.condition.holds s = false := by
  have resolved : twoKeywords.resolve (some commoner) "Sword" = ⟨.general, 0, 0⟩ := by
    decide +kernel
  let s := atFirst (some twoKeywords.general) commoner (fun _ => 1) fun _ => []
  have told : s.value .priorityTier = (twoKeywords.resolve (some commoner) "Sword").tier := by
    rw [resolved]
    rfl
  obtain ⟨driven, others⟩ := (identity_and_tier_of_resolved twoKeywords).2
    commoner "Sword" s (by decide) ⟨rfl, rfl, rfl, rfl⟩ told
  obtain ⟨r, driving, asks⟩ := driven fun _ => rfl
  rw [resolved] at driving
  cases driving
  refine ⟨rfl, by decide, resolved, s, ⟨rfl, rfl, rfl, rfl⟩, told, ?_, ?_⟩
  · intro b compiled
    obtain ⟨_, _, holds, _⟩ := asks b compiled
    exact holds
  · intro b mem
    obtain ⟨c, _, stance, _, p, _, compiled⟩ := mem_ruleBlocks.mp mem
    refine others (.declared 0) _ (List.mem_of_getElem? (i := 2) rfl) ?_ b
      ⟨_, c, stance, p, compiled⟩
    rw [resolved]
    decide

/-- A model whose general rule goes by a keyword. -/
def keywordGeneral : Model := { Model.builtIn with general := keywordRule "Vampire" }

/-- The general rule drives an actor whatever matcher it goes by, in the lowest tier.  By a keyword
its blocks ask for the keyword and for the tier of keywords, so they find neither. -/
theorem keyword_general_asks_elsewhere : commoner.isPlayer = false ∧
    keywordGeneral.resolve (some commoner) "Sword" = ⟨.general, 1, 0⟩ ∧
    keywordGeneral.rule? .general = some (keywordRule "Vampire") ∧
    ∃ b ∈ ruleBlocks (keywordRule "Vampire"), ∃ s : RuntimeState, s.Describes commoner ∧
      s.value .priorityTier = (keywordGeneral.resolve (some commoner) "Sword").tier ∧
      ∃ rest, b.parts = identity (.keyword "Vampire") :: equals .priorityTier 3 :: rest ∧
        (identity (.keyword "Vampire")).holds s = false ∧
        (equals .priorityTier 3).holds s = false := by
  have resolved : keywordGeneral.resolve (some commoner) "Sword" = ⟨.general, 1, 0⟩ := by
    decide +kernel
  obtain ⟨b, mem⟩ : ∃ b, b ∈ ruleBlocks (keywordRule "Vampire") := ⟨_, List.mem_cons_self⟩
  obtain ⟨c, _, stance, _, p, _, compiled⟩ := mem_ruleBlocks.mp mem
  obtain ⟨rest, parts⟩ := IsFor.exists_parts ⟨_, c, stance, p, compiled⟩
  -- the runtime is told the tier of the general rule
  let s := atFirst none commoner (fun _ => 1) fun _ => []
  have describes : s.Describes commoner := ⟨rfl, rfl, rfl, rfl⟩
  refine ⟨by decide, resolved, rfl, b, mem, s, describes, ?_, rest, parts, ?_, ?_⟩
  · rw [resolved]
    rfl
  · rw [← Bool.not_eq_true, identity_holds_iff_admits describes]
    decide
  · rw [← Bool.not_eq_true, equals_holds_iff]
    decide

end Document

end Movesets
