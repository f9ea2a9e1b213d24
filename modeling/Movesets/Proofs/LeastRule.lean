import Mathlib.Data.Prod.Lex
import Mathlib.Order.Bounds.Basic
import Movesets.Proofs.RuleSeparation

set_option autoImplicit false

/-!
# The least of the rules in question

Of the declared rules that are for an actor and have something to offer, the one that drives it is
the least by the position of its kind and then by its own place.  So the order of the rules matters
within a kind alone.
-/

namespace Movesets

/-- The position of a kind in the order in which kinds are tried for an actor. -/
def RuleKind.position? : RuleKind → Option Nat
  | .unique => some 0
  | .keyword => some 1
  | .faction => some 2
  | .race => some 3
  | .player => none
  | .general => none

theorem RuleKind.position?_eq_some_iff {kind : RuleKind} {n : Nat} :
    kind.position? = some n ↔ RuleKind.tiers[n]? = some kind := by
  match n with
  | 0 | 1 | 2 | 3 => cases kind <;> decide
  | n + 4 => cases kind <;> simp [position?, tiers]

namespace Rule

/-- The selected entries of a category in the first stance; none without the category. -/
def offered (r : Rule) (category : String) : List Entry :=
  ((r.playlist? category 0).getD []).filter Entry.selected

theorem length_offered (r : Rule) (category : String) :
    (r.offered category).length = r.available category := by
  rw [offered, available, ← List.countP_eq_length_filter]
  cases r.playlist? category 0 <;> rfl

theorem offered_ne_nil_iff {r : Rule} {category : String} :
    r.offered category ≠ [] ↔ 0 < r.available category := by
  rw [← length_offered, List.length_pos_iff]

end Rule

/-- The rule at a place is in question for an actor: its kind is the `n`th to be tried, it is for
the actor, and it has something to offer. -/
structure Contends (rules : List Rule) (a : Actor) (category : String) (n i : Nat) (r : Rule) :
    Prop where
  declared : rules[i]? = some r
  position : r.kind.position? = some n
  admits : r.matcher.admits a = true
  offers : r.offered category ≠ []

/-- The positions of the kinds and the places of the rules in question. -/
def contenders (rules : List Rule) (a : Actor) (category : String) : Set (ℕ ×ₗ ℕ) :=
  {x | ∃ r, Contends rules a category (ofLex x).1 (ofLex x).2 r}

variable {rules : List Rule} {a : Actor} {category : String}

theorem mem_contenders {n i : Nat} :
    toLex (n, i) ∈ contenders rules a category ↔ ∃ r, Contends rules a category n i r := Iff.rfl

theorem Contends.kind_eq {n n' i i' : Nat} {r r' : Rule}
    (contends : Contends rules a category n i r) (contends' : Contends rules a category n' i' r')
    (same : n = n') : r.kind = r'.kind := by
  have tier := RuleKind.position?_eq_some_iff.mp contends.position
  rw [same, RuleKind.position?_eq_some_iff.mp contends'.position] at tier
  exact (Option.some.inj tier).symm

theorem Contends.eligible {n i : Nat} {r : Rule} (contends : Contends rules a category n i r) :
    Resolution.Eligible r.kind a category r :=
  ⟨rfl, contends.admits, Rule.offered_ne_nil_iff.mp contends.offers⟩

namespace Model

variable {m : Model}

/-- The first tier that finds a rule finds the least of all rules in question. -/
theorem isLeast_of_inTier? {n : Nat} {kind : RuleKind} {res : Resolution}
    (position : RuleKind.tiers[n]? = some kind)
    (found : Resolution.inTier? m a category kind = some res)
    (earlier : ∀ k < n, ∀ other, RuleKind.tiers[k]? = some other →
      Resolution.inTier? m a category other = none) :
    ∃ i r, IsLeast (contenders m.rules a category) (toLex (n, i)) ∧ m.rules[i]? = some r ∧
      res = ⟨.declared i, (r.offered category).length, r.kind.priority⟩ := by
  obtain ⟨i, r, at_i, ⟨rfl, admits, offers⟩, first, rfl⟩ :=
    Resolution.inTier?_eq_some_iff.mp found
  have contends : Contends m.rules a category n i r :=
    ⟨at_i, RuleKind.position?_eq_some_iff.mpr position, admits, Rule.offered_ne_nil_iff.mpr offers⟩
  refine ⟨i, r, ⟨⟨r, contends⟩, ?_⟩, at_i, by rw [r.length_offered]⟩
  rintro x ⟨r', contends'⟩
  have place := RuleKind.position?_eq_some_iff.mp contends'.position
  change toLex (n, i) ≤ toLex ((ofLex x).1, (ofLex x).2)
  rw [Prod.Lex.toLex_le_toLex]
  rcases Nat.lt_trichotomy n (ofLex x).1 with before | same | after
  · exact Or.inl before
  · refine Or.inr ⟨same, first _ r' contends'.declared ?_⟩
    rw [← same, position] at place
    rw [Option.some.inj place]
    exact contends'.eligible
  · have skipped := Resolution.inTier?_eq_none_iff.mp (earlier _ after _ place)
    exact absurd contends'.eligible (skipped r' (List.mem_of_getElem? contends'.declared))

/-- Either a declared rule drives an actor, which is the least of those in question, or there is
none in question and the general rule does. -/
theorem resolve_least_or_general (m : Model) (a : Actor) (category : String) :
    (∃ n i r, IsLeast (contenders m.rules a category) (toLex (n, i)) ∧ m.rules[i]? = some r ∧
      m.resolve (some a) category =
        ⟨.declared i, (r.offered category).length, r.kind.priority⟩) ∨
    contenders m.rules a category = ∅ ∧
      m.resolve (some a) category = ⟨.general, (m.general.offered category).length, 0⟩ := by
  cases found : RuleKind.tiers.findSome? (Resolution.inTier? m a category) with
  | some res =>
    have resolved : m.resolve (some a) category = res := by
      simp only [resolve, found, Option.getD_some]
    obtain ⟨before, kind, after, tiers, here, skipped⟩ := List.findSome?_eq_some_iff.mp found
    have position : RuleKind.tiers[before.length]? = some kind := by
      rw [tiers, List.getElem?_append_right le_rfl, Nat.sub_self]
      rfl
    have earlier : ∀ k < before.length, ∀ other, RuleKind.tiers[k]? = some other →
        Resolution.inTier? m a category other = none := by
      intro k bound other at_k
      rw [tiers, List.getElem?_append_left bound] at at_k
      exact skipped other (List.mem_of_getElem? at_k)
    obtain ⟨i, r, least, at_i, rfl⟩ := isLeast_of_inTier? position here earlier
    exact Or.inl ⟨_, i, r, least, at_i, resolved⟩
  | none =>
    have resolved : m.resolve (some a) category = .general (m.general.available category) := by
      simp only [resolve, found, Option.getD_none]
    refine Or.inr ⟨Set.eq_empty_iff_forall_notMem.mpr ?_, ?_⟩
    · rintro x ⟨r, contends⟩
      have tried := List.mem_of_getElem? (RuleKind.position?_eq_some_iff.mp contends.position)
      have nothing := List.findSome?_eq_none_iff.mp found _ tried
      exact Resolution.inTier?_eq_none_iff.mp nothing r (List.mem_of_getElem? contends.declared)
        contends.eligible
    · rw [resolved, ← m.general.length_offered]
      rfl

end Model

/-- Rules in another order, those of one kind in the same, and where each of them has gone. -/
structure Reordering (rules rules' : List Rule) where
  place : Fin rules.length ≃ Fin rules'.length
  keeps : ∀ i, rules'[place i] = rules[i]
  inOrder : ∀ i j, i < j → rules[i].kind = rules[j].kind → place i < place j

namespace Reordering

variable {rules' : List Rule} (moved : Reordering rules rules')

/-- What a reference to a rule becomes. -/
def ref : RuleRef → RuleRef
  | .declared i =>
    if bound : i < rules.length then .declared (moved.place ⟨i, bound⟩) else .declared i
  | r => r

theorem ref_declared (i : Fin rules.length) :
    moved.ref (.declared i) = .declared (moved.place i) :=
  dif_pos i.isLt

include moved in
theorem getElem?_iff {j : Nat} {r : Rule} : rules'[j]? = some r ↔
    ∃ i : Fin rules.length, (moved.place i : Nat) = j ∧ rules[i] = r := by
  rw [List.getElem?_eq_some_iff]
  constructor
  · rintro ⟨bound, rfl⟩
    obtain ⟨i, here⟩ := moved.place.surjective ⟨j, bound⟩
    obtain rfl : (moved.place i : Nat) = j := congrArg Fin.val here
    exact ⟨i, rfl, (moved.keeps i).symm⟩
  · rintro ⟨i, rfl, rfl⟩
    exact ⟨(moved.place i).isLt, moved.keeps i⟩

theorem contends_iff {n j : Nat} {r : Rule} : Contends rules' a category n j r ↔
    ∃ i : Fin rules.length, (moved.place i : Nat) = j ∧ Contends rules a category n i r := by
  constructor
  · rintro ⟨declared, position, admits, offers⟩
    obtain ⟨i, rfl, rfl⟩ := moved.getElem?_iff.mp declared
    exact ⟨i, rfl, List.getElem?_eq_getElem i.isLt, position, admits, offers⟩
  · rintro ⟨i, rfl, declared, position, admits, offers⟩
    obtain ⟨_, same⟩ := List.getElem?_eq_some_iff.mp declared
    exact ⟨moved.getElem?_iff.mpr ⟨i, rfl, same⟩, position, admits, offers⟩

theorem isLeast {n : Nat} {i : Fin rules.length}
    (least : IsLeast (contenders rules a category) (toLex (n, (i : Nat)))) :
    IsLeast (contenders rules' a category) (toLex (n, (moved.place i : Nat))) := by
  obtain ⟨⟨r, contends⟩, lower⟩ := least
  refine ⟨⟨r, moved.contends_iff.mpr ⟨i, rfl, contends⟩⟩, ?_⟩
  rintro x ⟨r', contends'⟩
  obtain ⟨j, at_j, contends'⟩ := moved.contends_iff.mp contends'
  have before := lower (mem_contenders.mpr ⟨r', contends'⟩)
  change toLex (n, (moved.place i : Nat)) ≤ toLex ((ofLex x).1, (ofLex x).2)
  rw [← at_j, Prod.Lex.toLex_le_toLex]
  rcases Prod.Lex.toLex_le_toLex.mp before with earlier | ⟨same, le⟩
  · exact Or.inl earlier
  -- two rules in question at one position are of one kind, whose order has not changed
  · refine Or.inr ⟨same, ?_⟩
    have kind : r.kind = r'.kind := contends.kind_eq contends' same
    obtain ⟨_, rfl⟩ := List.getElem?_eq_some_iff.mp contends.declared
    obtain ⟨_, rfl⟩ := List.getElem?_eq_some_iff.mp contends'.declared
    rcases Nat.lt_or_eq_of_le le with lt | eq
    · exact Nat.le_of_lt (moved.inOrder i j lt kind)
    · rw [Fin.ext eq]

end Reordering

namespace Model

theorem resolve_of_isLeast {m : Model} {n i : Nat}
    (least : IsLeast (contenders m.rules a category) (toLex (n, i))) :
    ∃ r, Contends m.rules a category n i r ∧ m.resolve (some a) category =
      ⟨.declared i, (r.offered category).length, r.kind.priority⟩ := by
  obtain ⟨r, contends⟩ := least.1
  rcases m.resolve_least_or_general a category with ⟨n', i', r', least', at_i, resolved⟩ | ⟨none, _⟩
  · obtain ⟨rfl, rfl⟩ := Prod.mk.inj (toLex.injective (least.unique least'))
    obtain rfl : r = r' := Option.some.inj (contends.declared.symm.trans at_i)
    exact ⟨r, contends, resolved⟩
  · have absent := Set.eq_empty_iff_forall_notMem.mp none
    exact absurd least.1 (absent _)

theorem resolve_of_contenders_empty {m : Model} (none : contenders m.rules a category = ∅) :
    m.resolve (some a) category = ⟨.general, (m.general.offered category).length, 0⟩ := by
  rcases m.resolve_least_or_general a category with ⟨_, _, _, least, _⟩ | ⟨_, resolved⟩
  · exact absurd least.1 (Set.eq_empty_iff_forall_notMem.mp none _)
  · exact resolved

/-- Moving rules of different kinds past one another changes nothing but the place that is told. -/
theorem resolve_reordered (m : Model) (a : Actor) (category : String) {rules' : List Rule}
    (moved : Reordering m.rules rules') :
    ({ m with rules := rules' } : Model).resolve (some a) category =
      { m.resolve (some a) category with
        rule := moved.ref (m.resolve (some a) category).rule } := by
  rcases m.resolve_least_or_general a category with ⟨n, i, r, least, at_i, here⟩ | ⟨none, here⟩
  · obtain ⟨bound, rfl⟩ := List.getElem?_eq_some_iff.mp at_i
    obtain ⟨r', contends', resolved'⟩ := resolve_of_isLeast (m := { m with rules := rules' })
      (moved.isLeast (i := ⟨i, bound⟩) least)
    obtain ⟨_, rfl⟩ := List.getElem?_eq_some_iff.mp contends'.declared
    have same : rules'[moved.place ⟨i, bound⟩] = m.rules[i] := moved.keeps ⟨i, bound⟩
    rw [resolved', here, ← moved.ref_declared ⟨i, bound⟩, ← same]
    rfl
  · have none' : contenders rules' a category = ∅ := by
      rw [Set.eq_empty_iff_forall_notMem] at none ⊢
      rintro x ⟨r, contends⟩
      obtain ⟨i, _, contends⟩ := moved.contends_iff.mp contends
      exact none _ (mem_contenders.mpr ⟨r, contends⟩)
    rw [here, resolve_of_contenders_empty (m := { m with rules := rules' }) none']
    rfl

/-- The rule that drives an actor is the least of those in question, by the position of its kind and
then by its place, or the general rule if there is none.  Moving rules of different kinds past one
another changes nothing about it but its place. -/
theorem resolve_eq_least (m : Model) (a : Actor) (category : String) :
    (∀ i, (m.resolve (some a) category).rule = .declared i ↔
      ∃ n, IsLeast (contenders m.rules a category) (toLex (n, i))) ∧
    (∀ n i, IsLeast (contenders m.rules a category) (toLex (n, i)) →
      ∃ r, Contends m.rules a category n i r ∧ m.resolve (some a) category =
        ⟨.declared i, (r.offered category).length, r.kind.priority⟩) ∧
    (contenders m.rules a category = ∅ →
      m.resolve (some a) category = ⟨.general, (m.general.offered category).length, 0⟩) ∧
    ∀ rules' (moved : Reordering m.rules rules'),
      ({ m with rules := rules' } : Model).resolve (some a) category =
        { m.resolve (some a) category with
          rule := moved.ref (m.resolve (some a) category).rule } := by
  refine ⟨fun i => ⟨fun driven => ?_, ?_⟩, fun _ _ => resolve_of_isLeast,
    resolve_of_contenders_empty, fun _ => m.resolve_reordered a category⟩
  · rcases m.resolve_least_or_general a category with ⟨n, i', _, least, _, resolved⟩ | ⟨_, resolved⟩
    · rw [resolved] at driven
      obtain rfl : i' = i := RuleRef.declared.inj driven
      exact ⟨n, least⟩
    · rw [resolved] at driven
      cases driven
  · rintro ⟨n, least⟩
    obtain ⟨_, _, resolved⟩ := resolve_of_isLeast least
    rw [resolved]

open Document

/-- A rule by race, and one by keyword behind it. -/
def raceFirst : Model :=
  { twoKeywords with rules :=
      [{ keywordRule "Nord" with matcher := .race vampire.race }, keywordRule "Vampire"] }

def keywordFirst : Reordering raceFirst.rules raceFirst.rules.reverse where
  place := (Equiv.swap 0 1 : Equiv.Perm (Fin 2))
  keeps := Fin.forall_fin_two.mpr ⟨rfl, rfl⟩
  inOrder := by decide

theorem resolve_eq_least_raceFirst :
    raceFirst.resolve (some vampire) "Sword" = ⟨.declared 1, 1, 3⟩ ∧
    ({ raceFirst with rules := raceFirst.rules.reverse } : Model).resolve (some vampire) "Sword" =
      ⟨.declared 0, 1, 3⟩ := by
  have resolved : raceFirst.resolve (some vampire) "Sword" = ⟨.declared 1, 1, 3⟩ := by
    decide +kernel
  have reversed := (resolve_eq_least raceFirst vampire "Sword").2.2.2 _ keywordFirst
  rw [resolved] at reversed
  exact ⟨resolved, reversed⟩

end Model

end Movesets
