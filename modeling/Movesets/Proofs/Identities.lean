import Movesets.Proofs.WellFormed

set_option autoImplicit false

/-!
# Rules for the same actors

Declared rules have different matchers, so that no two of them would be for the same actors.  Forms
are the same for an actor when they are the same in two matchers, but an actor carries a keyword in
any spelling: two rules by one keyword that is spelled differently are both declared, and no actor
tells them apart.
-/

namespace Movesets

namespace Matcher

/-- Both matchers are for one keyword, up to ASCII case. -/
def sameKeyword : Matcher → Matcher → Bool
  | .keyword k, .keyword l => Text.sameName k l
  | _, _ => false

/-- The matchers are for the same actors. -/
def Alike (m n : Matcher) : Prop := ∀ a : Actor, m.admits a = n.admits a

theorem alike_of_sameKeyword {m n : Matcher} (same : m.sameKeyword n = true) : m.Alike n := by
  intro a
  cases m <;> cases n <;> try cases same
  case keyword.keyword k l => exact hasName_congr a.keywords same

theorem exists_admits_apart {m n : Matcher} (kinds : m.kind = n.kind) (ne : m ≠ n)
    (keywords : m.sameKeyword n = false) : ∃ a : Actor, m.admits a = true ∧ n.admits a = false := by
  cases m <;> cases n <;> cases kinds
  case player.player => exact absurd rfl ne
  case general.general => exact absurd rfl ne
  case unique.unique base base' =>
    have other : base ≠ base' := fun same => ne (congrArg unique same)
    exact ⟨.plain base base, beq_self_eq_true base, beq_eq_false_iff_ne.mpr other⟩
  case race.race race race' =>
    have other : race ≠ race' := fun same => ne (congrArg Matcher.race same)
    exact ⟨.plain race race, beq_self_eq_true race, beq_eq_false_iff_ne.mpr other⟩
  case faction.faction f g =>
    have other : g ≠ f := fun same => ne (congrArg faction same.symm)
    refine ⟨{ Actor.plain f f with factions := [f] }, ?_, ?_⟩ <;>
      simp [admits, Actor.inFaction, other]
  case keyword.keyword k l =>
    have other : Text.sameName k l = false := keywords
    refine ⟨{ Actor.plain .playerBase .playerBase with keywords := [k] }, ?_, ?_⟩ <;>
      simp [admits, Actor.hasKeyword, other]

/-- Different matchers of one kind are for the same actors only by one keyword in two spellings. -/
theorem alike_iff {m n : Matcher} (kinds : m.kind = n.kind) (ne : m ≠ n) :
    m.Alike n ↔ m.sameKeyword n = true := by
  refine ⟨fun alike => ?_, alike_of_sameKeyword⟩
  by_contra apart
  rw [Bool.not_eq_true] at apart
  obtain ⟨a, admits, refuses⟩ := exists_admits_apart kinds ne apart
  rw [alike a, refuses] at admits
  cases admits

end Matcher

namespace Model

/-- However a model was built, read and edited: some actor tells two declared rules of one kind
apart, unless both go by one keyword in two spellings. -/
theorem Reached.exists_actor_iff {m : Model} (reached : m.Reached) {i j : Nat} {r s : Rule}
    (at_i : m.rules[i]? = some r) (at_j : m.rules[j]? = some s) (ne : i ≠ j)
    (kinds : r.kind = s.kind) :
    (∃ a : Actor, r.matcher.admits a ≠ s.matcher.admits a) ↔
      r.matcher.sameKeyword s.matcher = false := by
  have inModel : (.declared i, r) ∈ m.allRules := mem_allRules_iff_rule?.mpr at_i
  have inModel' : (.declared j, s) ∈ m.allRules := mem_allRules_iff_rule?.mpr at_j
  have different : r.matcher ≠ s.matcher :=
    reached.wellFormed.matcher_ne inModel inModel' fun same => ne (RuleRef.declared.inj same)
  rw [← Bool.not_eq_true, ← Matcher.alike_iff kinds different, Matcher.Alike, not_forall]

/-- A model without templates and with two rules, for keywords. -/
def twoNames (first second : String) : Model :=
  ((ofTemplates .empty).edited (.addRule "Vampires" (.keyword first))).edited
    (.addRule "Vampires again" (.keyword second))

theorem reached_twoNames (first second : String) : (twoNames first second).Reached :=
  .edited (.edited (.ofTemplates .empty) _) _

theorem Reached.exists_actor_iff_vampire :
    (twoNames "Vampire" "VampireLord").rules.map Rule.matcher =
      [.keyword "Vampire", .keyword "VampireLord"] ∧
    ∃ a : Actor, (Matcher.keyword "Vampire").admits a ≠ (Matcher.keyword "VampireLord").admits a :=
  ⟨rfl, (exists_actor_iff (reached_twoNames "Vampire" "VampireLord") (i := 0) (j := 1) rfl rfl
    (by decide) rfl).mpr (by decide)⟩

/-- A rule by a keyword is declared beside one by the same keyword in capitals, and no actor tells
the two apart. -/
theorem spelled_keyword_declared_twice :
    ∃ m m' : Model, (ofTemplates .empty).addRule "Vampires" (.keyword "Vampire") =
        .ok (m, .declared 0) ∧
      m.addRule "Vampires again" (.keyword "VAMPIRE") = .ok (m', .declared 1) ∧
      m'.rules.map Rule.matcher = [.keyword "Vampire", .keyword "VAMPIRE"] ∧
      ∀ a : Actor,
        (Matcher.keyword "Vampire").admits a = (Matcher.keyword "VAMPIRE").admits a :=
  ⟨_, _, rfl, rfl, rfl, Matcher.alike_of_sameKeyword (by decide)⟩

end Model

end Movesets
