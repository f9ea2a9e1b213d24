import Mathlib.Data.List.Nodup
import Movesets.Proofs.EditLocality
import Movesets.RulesFile

set_option autoImplicit false

/-!
# Well-formed models

A model that is built from templates or read from data is well-formed, and every edit keeps it so:
each rule goes by a matcher of its own, has a category under every key of a template, and has four
stances in every category.  Reconciling changes nothing about such a model.
-/

namespace Movesets

inductive ModelEdit where
  | addRule (name : String) (matcher : Matcher)
  | removeRule (index : Nat)
  | addCategory (category : Category)
  | reconcile
  | setPlaylist (rule : RuleRef) (category : String) (stance : Nat) (playlist : Playlist)

namespace Model

/-- The model after an edit; an edit that is refused leaves it as it is. -/
def edited (m : Model) : ModelEdit → Model
  | .addRule name matcher =>
    match m.addRule name matcher with
    | .error _ => m
    | .ok (m, _) => m
  | .removeRule index =>
    match m.removeRule index with
    | .error _ => m
    | .ok (m, _) => m
  | .addCategory category => m.addCategory category
  | .reconcile => m.reconcile
  | .setPlaylist rule category stance playlist =>
    match m.setPlaylist rule category stance playlist with
    | .error _ => m
    | .ok m => m

def editedAll (m : Model) (edits : List ModelEdit) : Model := edits.foldl edited m

/-- The model is built from templates or read from data, and edited any number of times. -/
inductive Reached : Model → Prop where
  | ofTemplates (templates : Categories) : Reached (ofTemplates templates)
  | loaded (d : Data) : Reached (RulesFile.model d)
  | edited {m : Model} (reached : Reached m) (e : ModelEdit) : Reached (m.edited e)

end Model

/-- Rules that can be declared beside each other. -/
structure Declarable (rules : List Rule) : Prop where
  notBuiltIn : ∀ r ∈ rules, r.matcher.isBuiltIn = false
  nodup : (rules.map Rule.matcher).Nodup

theorem Declarable.nil : Declarable [] := ⟨fun _ mem => absurd mem List.not_mem_nil, .nil⟩

theorem Declarable.append {rules : List Rule} (declared : Declarable rules) {r : Rule}
    (notBuiltIn : r.matcher.isBuiltIn = false)
    (fresh : (rules.any fun s => s.matcher == r.matcher) = false) : Declarable (rules ++ [r]) := by
  refine ⟨fun s mem => ?_, ?_⟩
  · rcases List.mem_append.mp mem with old | added
    · exact declared.notBuiltIn s old
    · rw [List.mem_singleton.mp added]
      exact notBuiltIn
  · rw [List.map_append, List.nodup_append]
    refine ⟨declared.nodup, List.nodup_singleton _, fun a inOld b added => ?_⟩
    have added : b = r.matcher := List.mem_singleton.mp added
    obtain ⟨s, inRules, rfl⟩ := List.mem_map.mp inOld
    exact fun same => List.any_eq_false.mp fresh s inRules (beq_iff_eq.mpr (same.trans added))

/-- The rule has a category under every key of the templates, and four stances in every category. -/
structure Rule.Complete (templates : Categories) (r : Rule) : Prop where
  keys : ∀ k ∈ templates.keys, k ∈ r.categories.keys
  stances : ∀ c ∈ r.categories.values, c.stances.length = stanceCount

/-- The rules go by matchers of their own and are complete. -/
structure Model.WellFormed (m : Model) : Prop extends m.Distinct where
  complete : ∀ (ref : RuleRef) {r : Rule}, m.rule? ref = some r → r.Complete m.templates

namespace Categories

theorem mem_keys_fillFrom {templates cs : Categories} {k : String} :
    k ∈ (fillFrom templates cs).keys ↔ k ∈ cs.keys ∨ k ∈ templates.keys := by
  have fold (entries : List (String × Category)) (cs : Categories) :
      k ∈ (entries.foldl (fun t e => t.insertNew e.1 e.2.cleared) cs).keys ↔
        k ∈ cs.keys ∨ k ∈ entries.map (·.1) := by
    induction entries generalizing cs with
    | nil => simp
    | cons e rest ih =>
      rw [List.foldl_cons, ih, Table.mem_keys_insertNew, List.map_cons, List.mem_cons, or_assoc]
  exact fold templates.toList cs

theorem fillFrom_of_mem_keys {templates cs : Categories}
    (full : ∀ k ∈ templates.keys, k ∈ cs.keys) : fillFrom templates cs = cs := by
  have fold (entries : List (String × Category)) (full : ∀ e ∈ entries, e.1 ∈ cs.keys) :
      entries.foldl (fun t e => t.insertNew e.1 e.2.cleared) cs = cs := by
    induction entries with
    | nil => rfl
    | cons e rest ih =>
      rw [List.foldl_cons, Table.insertNew_of_mem (full e List.mem_cons_self)]
      exact ih fun e mem => full e (List.mem_cons_of_mem _ mem)
  exact fold templates.toList fun e mem => full e.1 (List.mem_map_of_mem mem)

end Categories

theorem Category.normalized_of_length {c : Category} (four : c.stances.length = stanceCount) :
    c.normalized = c := by
  have same : c.stances.take stanceCount ++ List.replicate (stanceCount - c.stances.length) [] =
      c.stances := by
    rw [four, Nat.sub_self, List.replicate_zero, List.append_nil, ← four, List.take_length]
  rw [normalized, resize, same]

theorem Rule.Complete.withPlaylist {templates : Categories} {r : Rule}
    (complete : r.Complete templates) (category : String) (stance : Nat) (q : Playlist) :
    (r.withPlaylist category stance q).Complete templates := by
  refine ⟨fun k mem => ?_, fun c mem => ?_⟩
  · change k ∈ (r.categories.modify _ _).keys
    rw [Table.keys_modify]
    exact complete.keys k mem
  · obtain ⟨old, inTable, rfl | rfl⟩ := Table.mem_values_modify mem
    · exact complete.stances _ inTable
    · rw [Category.modifyStance, List.length_modify]
      exact complete.stances _ inTable

namespace Model

theorem complete_reconcileRule (templates : Categories) (r : Rule) :
    (reconcileRule templates r).Complete templates := by
  refine ⟨fun k mem => ?_, fun c mem => ?_⟩
  · rw [reconcileRule, Table.keys_map]
    exact Categories.mem_keys_fillFrom.mpr (Or.inr mem)
  · rw [reconcileRule, Table.values_map] at mem
    obtain ⟨old, _, rfl⟩ := List.mem_map.mp mem
    exact old.length_normalized

theorem reconcileRule_of_complete {templates : Categories} {r : Rule}
    (complete : r.Complete templates) : reconcileRule templates r = r := by
  have filled := Categories.fillFrom_of_mem_keys complete.keys
  have normal : r.categories.map Category.normalized = r.categories :=
    Table.map_eq_self fun c mem => Category.normalized_of_length (complete.stances c mem)
  rw [reconcileRule, filled, normal]

theorem rule?_mapRules (m : Model) (f : Rule → Rule) (ref : RuleRef) :
    (m.mapRules f).rule? ref = (m.rule? ref).map f := by
  cases ref with
  | player => rfl
  | general => rfl
  | declared i => exact List.getElem?_map

theorem rule?_modifyRule (m : Model) (ref ref' : RuleRef) (f : Rule → Rule) :
    (m.modifyRule ref f).rule? ref' =
      if ref = ref' then (m.rule? ref').map f else m.rule? ref' := by
  cases ref <;> cases ref' <;> try rfl
  case declared.declared i j =>
    simp only [modifyRule, rule?, List.getElem?_modify, RuleRef.declared.injEq]
    split
    · rfl
    · simp

theorem Distinct.congr {m m' : Model} (distinct : m.Distinct)
    (player : m'.player.matcher = m.player.matcher)
    (general : m'.general.matcher = m.general.matcher)
    (rules : m'.rules.map Rule.matcher = m.rules.map Rule.matcher) : m'.Distinct where
  player := player.trans distinct.player
  general := general.trans distinct.general
  declared r mem := by
    have inOther : r.matcher ∈ m.rules.map Rule.matcher := rules ▸ List.mem_map_of_mem mem
    obtain ⟨other, inRules, same⟩ := List.mem_map.mp inOther
    rw [← same]
    exact distinct.declared other inRules
  nodup := rules ▸ distinct.nodup

theorem Distinct.mapRules {m : Model} (distinct : m.Distinct) {f : Rule → Rule}
    (same : ∀ r, (f r).matcher = r.matcher) : (m.mapRules f).Distinct := by
  refine distinct.congr (same _) (same _) ?_
  change (m.rules.map f).map Rule.matcher = _
  rw [List.map_map]
  exact List.map_congr_left fun r _ => same r

theorem Distinct.modifyRule {m : Model} (distinct : m.Distinct) (ref : RuleRef) {f : Rule → Rule}
    (same : ∀ r, (f r).matcher = r.matcher) : (m.modifyRule ref f).Distinct := by
  cases ref with
  | player => exact distinct.congr (same _) rfl rfl
  | general => exact distinct.congr rfl (same _) rfl
  | declared i =>
    refine distinct.congr rfl rfl (List.ext_getElem? fun j => ?_)
    change ((m.rules.modify i f).map Rule.matcher)[j]? = _
    rw [List.getElem?_map, List.getElem?_modify, List.getElem?_map]
    split
    · rw [Option.map_eq_map, Option.map_map]
      exact Option.map_congr fun r _ => same r
    · simp

theorem complete_reconcile {m : Model} (ref : RuleRef) {r : Rule}
    (found : m.reconcile.rule? ref = some r) : r.Complete m.templates := by
  rw [reconcile, rule?_mapRules] at found
  obtain ⟨old, _, rfl⟩ := Option.map_eq_some_iff.mp found
  exact complete_reconcileRule m.templates old

theorem reconcile_of_complete {m : Model}
    (complete : ∀ (ref : RuleRef) {r : Rule}, m.rule? ref = some r → r.Complete m.templates) :
    m.reconcile = m := by
  have declared : m.rules.map (reconcileRule m.templates) = m.rules := by
    refine (List.map_congr_left fun r mem => ?_).trans (List.map_id _)
    obtain ⟨i, at_i⟩ := List.mem_iff_getElem?.mp mem
    exact reconcileRule_of_complete (complete (.declared i) at_i)
  have player := reconcileRule_of_complete (complete .player rfl)
  have general := reconcileRule_of_complete (complete .general rfl)
  rw [reconcile, mapRules, player, general, declared]

theorem wellFormed_reconcile {m : Model} (distinct : m.Distinct) : m.reconcile.WellFormed where
  toDistinct := distinct.mapRules fun _ => rfl
  complete := complete_reconcile

theorem wellFormed_ofTemplates (templates : Categories) : (ofTemplates templates).WellFormed :=
  wellFormed_reconcile ⟨rfl, rfl, Declarable.nil.notBuiltIn, Declarable.nil.nodup⟩

namespace WellFormed

variable {m : Model}

theorem reconcile_eq (wf : m.WellFormed) : m.reconcile = m := reconcile_of_complete wf.complete

theorem addRule (wf : m.WellFormed) {m' : Model} {name : String} {matcher : Matcher}
    {ref : RuleRef} (ok : m.addRule name matcher = .ok (m', ref)) : m'.WellFormed := by
  obtain ⟨fresh, rfl, _⟩ := addRule_ok ok
  obtain ⟨notBuiltIn, fresh⟩ := Bool.or_eq_false_iff.mp fresh
  let added : Rule := ⟨name, matcher, m.templates.map Category.cleared⟩
  have declared : Declarable (m.rules ++ [added]) :=
    Declarable.append ⟨wf.declared, wf.nodup⟩ notBuiltIn fresh
  have complete : added.Complete m.templates := by
    refine ⟨fun k mem => by simpa [added] using mem, fun c mem => ?_⟩
    rw [Table.values_map] at mem
    obtain ⟨template, _, rfl⟩ := List.mem_map.mp mem
    exact template.length_cleared
  refine ⟨⟨wf.player, wf.general, declared.notBuiltIn, declared.nodup⟩, fun ref r found => ?_⟩
  cases ref with
  | player => exact wf.complete .player found
  | general => exact wf.complete .general found
  | declared i =>
    rcases List.mem_append.mp (List.mem_of_getElem? found) with old | new
    · obtain ⟨j, at_j⟩ := List.mem_iff_getElem?.mp old
      exact wf.complete (.declared j) at_j
    · rw [List.mem_singleton.mp new]
      exact complete

theorem removeRule (wf : m.WellFormed) {m' : Model} {i : Nat} {r : Rule}
    (ok : m.removeRule i = .ok (m', r)) : m'.WellFormed := by
  obtain ⟨_, rfl⟩ := removeRule_ok ok
  have kept : (m.rules.eraseIdx i).Sublist m.rules := List.eraseIdx_sublist m.rules i
  refine ⟨⟨wf.player, wf.general, fun r mem => wf.declared r (kept.subset mem),
    (kept.map _).nodup wf.nodup⟩, fun ref r found => ?_⟩
  cases ref with
  | player => exact wf.complete .player found
  | general => exact wf.complete .general found
  | declared j =>
    obtain ⟨k, at_k⟩ := List.mem_iff_getElem?.mp (kept.subset (List.mem_of_getElem? found))
    exact wf.complete (.declared k) at_k

theorem addCategory (wf : m.WellFormed) (c : Category) : (m.addCategory c).WellFormed where
  toDistinct := wf.toDistinct.congr rfl rfl (by
    change (m.rules.map _).map Rule.matcher = _
    rw [List.map_map]
    rfl)
  complete ref r found := by
    rw [Model.addCategory, rule?_mapRules] at found
    obtain ⟨old, there, rfl⟩ := Option.map_eq_some_iff.mp found
    have complete : old.Complete m.templates :=
      wf.complete ref (by cases ref <;> exact there)
    refine ⟨fun k mem => ?_, fun d mem => ?_⟩
    · exact Table.mem_keys_insertNew.mpr ((Table.mem_keys_insert.mp mem).imp_left (complete.keys k))
    · rcases Table.mem_values_insertNew mem with inOld | rfl
      · exact complete.stances d inOld
      · exact c.length_cleared

theorem setPlaylist (wf : m.WellFormed) {m' : Model} {ref : RuleRef} {category : String}
    {stance : Nat} {q : Playlist} (ok : m.setPlaylist ref category stance q = .ok m') :
    m'.WellFormed := by
  obtain ⟨_, _, _, _, _, _, rfl⟩ := setPlaylist_ok ok
  refine ⟨wf.toDistinct.modifyRule ref fun _ => rfl, fun ref' r found => ?_⟩
  have templates : (m.modifyRule ref fun r => r.withPlaylist category stance q).templates =
      m.templates := by
    cases ref <;> rfl
  rw [templates]
  rw [rule?_modifyRule] at found
  split at found
  · obtain ⟨old, there, rfl⟩ := Option.map_eq_some_iff.mp found
    exact (wf.complete ref' there).withPlaylist category stance q
  · exact wf.complete ref' found

theorem edited (wf : m.WellFormed) (e : ModelEdit) : (m.edited e).WellFormed := by
  cases e with
  | addRule name matcher =>
    rw [Model.edited]
    split
    next => exact wf
    next ok => exact wf.addRule ok
  | removeRule i =>
    rw [Model.edited]
    split
    next => exact wf
    next ok => exact wf.removeRule ok
  | addCategory c => exact wf.addCategory c
  | reconcile => exact wellFormed_reconcile wf.toDistinct
  | setPlaylist ref category stance q =>
    rw [Model.edited]
    split
    next => exact wf
    next ok => exact wf.setPlaylist ok

theorem editedAll (wf : m.WellFormed) (edits : List ModelEdit) :
    (m.editedAll edits).WellFormed := by
  induction edits generalizing m with
  | nil => exact wf
  | cons e edits ih => exact ih (wf.edited e)

end WellFormed

end Model

namespace RulesFile

theorem declarable_declared (d : Data) : Declarable (declared d) := by
  have fold (found rules : List Rule) (start : Declarable rules) :
      Declarable (found.foldl declare rules) := by
    induction found generalizing rules with
    | nil => exact start
    | cons r rest ih =>
      refine ih _ ?_
      unfold declare
      split
      next => exact start
      next fresh =>
        obtain ⟨notBuiltIn, fresh⟩ := Bool.or_eq_false_iff.mp (Bool.eq_false_iff.mpr fresh)
        exact start.append notBuiltIn fresh
  exact fold _ [] .nil

theorem matcher_builtInRule (d : Data) (key : String) (fallback : Rule) :
    (builtInRule d key fallback).matcher = fallback.matcher := by
  unfold builtInRule
  split <;> rfl

theorem wellFormed_model (d : Data) : (model d).WellFormed := by
  obtain ⟨notBuiltIn, nodup⟩ := declarable_declared d
  exact Model.wellFormed_reconcile
    ⟨matcher_builtInRule .., matcher_builtInRule .., notBuiltIn, nodup⟩

end RulesFile

/-- Whatever a model is built from or read from, and whatever is done to it, it is well-formed. -/
theorem Model.wellFormed_of_edits (templates : Categories) (d : Data) (edits : List ModelEdit) :
    ((ofTemplates templates).editedAll edits).WellFormed ∧
      ((RulesFile.model d).editedAll edits).WellFormed :=
  ⟨(wellFormed_ofTemplates templates).editedAll edits,
    (RulesFile.wellFormed_model d).editedAll edits⟩

theorem Model.Reached.wellFormed {m : Model} (reached : m.Reached) : m.WellFormed := by
  induction reached with
  | ofTemplates templates => exact wellFormed_ofTemplates templates
  | loaded d => exact RulesFile.wellFormed_model d
  | edited _ e ih => exact ih.edited e

end Movesets
