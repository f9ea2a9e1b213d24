import Mathlib.Data.Set.Card
import Movesets.Proofs.RuleSeparation
import Movesets.Proofs.UnreadableParts

set_option autoImplicit false

/-!
# Reconciling with the templates

Reconciling keeps what a rule has and where it has it.  Every category gets four stances, the first
four of its own where it has them, and the templates that the rule lacks come behind, emptied, in
their order.  As many are added over all rules as were lacking, and then nothing is lacking any
more.
-/

namespace Movesets

/-- The second category is the first one with four stances: its own, as far as they go, and empty
ones behind them. -/
structure Category.Padded (c d : Category) : Prop where
  length : d.stances.length = stanceCount
  stances : ∀ i < stanceCount, d.stance? i = some ((c.stance? i).getD [])
  others : { d with stances := c.stances } = c

theorem Category.padded_normalized (c : Category) : c.Padded c.normalized where
  length := c.length_normalized
  stances i small := by
    change (c.stances.take stanceCount ++
      List.replicate (stanceCount - c.stances.length) [])[i]? = some (c.stances[i]?.getD [])
    rw [List.getElem?_append, List.length_take]
    split
    next own =>
      have bound : i < c.stances.length := by omega
      rw [List.getElem?_take_of_lt small, List.getElem?_eq_getElem bound, Option.getD_some]
    next past =>
      have behind : c.stances.length ≤ i := by omega
      have filled : i - min stanceCount c.stances.length < stanceCount - c.stances.length := by omega
      rw [List.getElem?_replicate_of_lt filled, List.getElem?_eq_none behind, Option.getD_none]
  others := rfl

/-- The second rule is the first one with its categories padded in their places and, behind them,
emptied copies of the templates that it lacked, in the order of the templates. -/
structure Rule.Reconciled (templates : Categories) (r s : Rule) : Prop where
  name : s.name = r.name
  matcher : s.matcher = r.matcher
  kept : List.Forall₂ (fun own new => new.1 = own.1 ∧ own.2.Padded new.2) r.categories.toList
    (s.categories.toList.take r.categories.size)
  added : s.categories.toList.drop r.categories.size =
    (templates.toList.filter fun e => e.1 ∉ r.categories.keys).map
      fun e => (e.1, { e.2 with stances := List.replicate stanceCount [] })

namespace Categories

theorem length_completed (templates own : Categories) :
    (completed templates.toList own.toList).length = own.size + templates.lacking own := by
  rw [completed, List.length_append, List.length_map, List.length_map, lacking, Table.keys,
    List.countP_map, List.countP_eq_length_filter]
  rfl

end Categories

namespace Model

theorem reconciled_reconcileRule (templates : Categories) (r : Rule) :
    r.Reconciled templates (reconcileRule templates r) := by
  have size : (r.categories.toList.map fun e => (e.1, e.2.normalized)).length =
      r.categories.size := List.length_map _
  have lacked : (templates.toList.filter fun e => !r.categories.toList.any fun o => o.1 == e.1) =
      templates.toList.filter fun e => e.1 ∉ r.categories.keys := by
    refine List.filter_congr fun e _ => ?_
    rw [Bool.eq_iff_iff, Bool.not_eq_true', ← Bool.not_eq_true, decide_eq_true_iff]
    exact not_congr Table.contains_iff
  refine ⟨rfl, rfl, ?kept, ?added⟩
  case kept =>
    rw [toList_reconcileRule, Categories.completed, List.take_left' size, List.forall₂_map_right_iff]
    exact List.forall₂_same.mpr fun e _ => ⟨rfl, e.2.padded_normalized⟩
  case added =>
    rw [toList_reconcileRule, Categories.completed, List.drop_left' size, lacked]
    rfl

/-! ## What is lacking -/

/-- The rule has no category under the key of a template. -/
def Lacks (m : Model) (ref : RuleRef) (key : String) : Prop :=
  ∃ r, m.rule? ref = some r ∧ key ∈ m.templates.keys ∧ key ∉ r.categories.keys

def lackedKeys (m : Model) (r : Rule) : List String :=
  m.templates.keys.filter fun k => !r.categories.contains k

/-- Every rule with each key that it lacks. -/
def lackings (m : Model) : List (RuleRef × String) :=
  m.allRules.flatMap fun x => (m.lackedKeys x.2).map fun k => (x.1, k)

theorem mem_lackings {m : Model} {ref : RuleRef} {key : String} :
    (ref, key) ∈ m.lackings ↔ m.Lacks ref key := by
  simp only [lackings, List.mem_flatMap, Prod.exists, mem_allRules_iff_rule?, List.mem_map,
    Prod.mk.injEq, lackedKeys, List.mem_filter, Bool.not_eq_true', ← Bool.not_eq_true,
    Table.contains_iff, Lacks]
  constructor
  · rintro ⟨_, r, found, _, lacked, rfl, rfl⟩
    exact ⟨r, found, lacked⟩
  · rintro ⟨r, found, lacked⟩
    exact ⟨ref, r, found, key, lacked, rfl, rfl⟩

theorem nodup_refs (m : Model) : (m.allRules.map (·.1)).Nodup := by
  have places : m.allRules.map (·.1) =
      .player :: .general :: (List.range m.rules.length).map RuleRef.declared := by
    rw [allRules, List.map_cons, List.map_cons, List.map_map, List.range_eq_range',
      ← List.zipIdx_map_snd 0 m.rules, List.map_map]
    rfl
  rw [places]
  simp [List.nodup_range.map fun i j same => RuleRef.declared.inj same]

theorem nodup_lackings (m : Model) : m.lackings.Nodup := by
  refine List.nodup_flatMap.mpr ⟨fun x _ => ?_, ?_⟩
  · exact (m.templates.nodup.filter _).map fun k l same => (Prod.mk.inj same).2
  · refine (List.pairwise_map.mp m.nodup_refs).imp fun apart p inFirst inSecond => ?_
    obtain ⟨k, _, rfl⟩ := List.mem_map.mp inFirst
    obtain ⟨l, _, same⟩ := List.mem_map.mp inSecond
    exact apart (Prod.mk.inj same).1.symm

theorem map_snd_allRules (m : Model) : m.allRules.map (·.2) = m.player :: m.general :: m.rules := by
  rw [allRules, List.map_cons, List.map_cons, List.map_map]
  exact congrArg (fun rs => m.player :: m.general :: rs) (List.zipIdx_map_fst 0 m.rules)

theorem missing_eq_sum (m : Model) :
    m.missing = (m.allRules.map fun x => m.templates.lacking x.2.categories).sum := by
  rw [missing, ← map_snd_allRules, List.map_map, ← List.sum_eq_foldl]
  rfl

theorem length_lackings (m : Model) : m.lackings.length = m.missing := by
  rw [lackings, List.length_flatMap, missing_eq_sum]
  refine congrArg List.sum (List.map_congr_left fun x _ => ?_)
  rw [List.length_map, lackedKeys, ← List.countP_eq_length_filter]
  rfl

theorem ncard_lacks (m : Model) :
    {x : RuleRef × String | m.Lacks x.1 x.2}.ncard = m.missing := by
  -- `lackings` lists the pairs without repetition, rule by rule, as the loop counts them.
  have listed : {x : RuleRef × String | m.Lacks x.1 x.2} = ↑m.lackings.toFinset := by
    ext ⟨ref, key⟩
    rw [List.coe_toFinset]
    exact mem_lackings.symm
  rw [listed, Set.ncard_coe_finset, List.toFinset_card_of_nodup m.nodup_lackings, length_lackings]

theorem missing_of_complete {m : Model}
    (complete : ∀ (ref : RuleRef) {r : Rule}, m.rule? ref = some r → r.Complete m.templates) :
    m.missing = 0 := by
  have nothing : {x : RuleRef × String | m.Lacks x.1 x.2} = ∅ := by
    refine Set.eq_empty_of_forall_notMem fun x lacks => ?_
    obtain ⟨r, found, template, absent⟩ := lacks
    exact absent ((complete x.1 found).keys x.2 template)
  rw [← ncard_lacks, nothing, Set.ncard_empty]

/-- How many categories the rules have. -/
def categoryCount (m : Model) : Nat := (m.allRules.map fun x => x.2.categories.size).sum

theorem size_reconcileRule (templates : Categories) (r : Rule) :
    (reconcileRule templates r).categories.size =
      r.categories.size + templates.lacking r.categories := by
  rw [← Categories.length_completed, ← toList_reconcileRule]
  rfl

theorem categoryCount_reconcile (m : Model) :
    m.reconcile.categoryCount = m.categoryCount + m.missing := by
  have reconciled : m.reconcile.allRules.map (·.2) =
      (m.allRules.map (·.2)).map (reconcileRule m.templates) := by
    rw [map_snd_allRules, map_snd_allRules]
    rfl
  have sizes : (m.reconcile.allRules.map fun x => x.2.categories.size) =
      m.allRules.map fun x => x.2.categories.size + m.templates.lacking x.2.categories := by
    calc
      _ = (m.reconcile.allRules.map (·.2)).map fun r => r.categories.size := by
        rw [List.map_map]
        rfl
      _ = m.allRules.map fun x => (reconcileRule m.templates x.2).categories.size := by
        rw [reconciled, List.map_map, List.map_map]
        rfl
      _ = _ := List.map_congr_left fun x _ => size_reconcileRule m.templates x.2
  rw [categoryCount, sizes, List.sum_map_add, ← missing_eq_sum]
  rfl

/-- The count of a reconciliation is the number of rules with a template that they lack, and as many
categories come in.  Templates stay, each rule stays at its place with what it has, padded, and the
templates that it lacked behind; a second reconciliation finds nothing to do. -/
theorem reconcile_completes (m : Model) :
    {x : RuleRef × String | m.Lacks x.1 x.2}.ncard = m.missing ∧
    m.reconcile.categoryCount = m.categoryCount + m.missing ∧
    m.reconcile.templates = m.templates ∧
    (∀ ref, Option.Rel (Rule.Reconciled m.templates) (m.rule? ref) (m.reconcile.rule? ref)) ∧
    m.reconcile.missing = 0 ∧ m.reconcile.reconcile = m.reconcile := by
  refine ⟨m.ncard_lacks, m.categoryCount_reconcile, rfl, fun ref => ?_,
    missing_of_complete complete_reconcile, reconcile_of_complete complete_reconcile⟩
  rw [reconcile, rule?_mapRules]
  cases m.rule? ref with
  | none => exact .none
  | some r => exact .some (reconciled_reconcileRule m.templates r)

end Model

end Movesets
