import Mathlib.Data.List.Forall2
import Movesets.Proofs.DistinctKeys
import Movesets.Proofs.Reload

set_option autoImplicit false

/-!
# Parts of a rules file that cannot be read

A category that cannot be read and a rule that is not declared leave no trace in the model: it is
the one of the file without them.  What remains stays in the order of the file, the templates that
a rule lacks come behind its own categories.
-/

namespace Movesets

theorem forall₂_filterMap {α β : Type} {f : α → Option β} {xs : List α}
    (total : ∀ x ∈ xs, (f x).isSome = true) :
    List.Forall₂ (fun x y => f x = some y) xs (xs.filterMap f) := by
  induction xs with
  | nil => exact List.Forall₂.nil
  | cons x xs ih =>
    rw [List.forall_mem_cons] at total
    obtain ⟨y, found⟩ := Option.isSome_iff_exists.mp total.1
    rw [List.filterMap_cons_some found]
    exact List.Forall₂.cons found (ih total.2)

namespace Data

/-- The value with a field of a map changed. -/
def modifyField (key : String) (f : Data → Data) : Data → Data
  | .map fields => .map (fields.map fun e => (e.1, if e.1 = .text key then f e.2 else e.2))
  | d => d

theorem get?_modifyField (d : Data) (key k : String) (f : Data → Data) :
    (d.modifyField key f).get? k = if key = k then (d.get? k).map f else d.get? k := by
  cases d with
  | map fields =>
    rw [modifyField, get?, lookup, List.find?_map, Option.map_map, get?, lookup]
    change (fields.find? fun e => e.1 == .text k).map _ = _
    cases hit : fields.find? fun e => e.1 == .text k with
    | none => simp
    | some e =>
      have here : e.1 = .text k := by simpa using List.find?_some hit
      by_cases same : key = k
      · simp [here, same]
      · simp [here, same, Ne.symm same]
  | _ => split <;> rfl

end Data

namespace Categories

/-- Categories of one's own, each with four stances, and behind them emptied copies of the templates
under other keys. -/
def completed (templates own : List (String × Category)) : List (String × Category) :=
  own.map (fun e => (e.1, e.2.normalized)) ++
    (templates.filter fun e => !own.any fun o => o.1 == e.1).map fun e => (e.1, e.2.cleared)

theorem toList_fillFrom (templates cs : Categories) : (fillFrom templates cs).toList =
    cs.toList ++ (templates.toList.filter fun e => !cs.contains e.1).map
      fun e => (e.1, e.2.cleared) := by
  have fold (entries : List (String × Category)) (nodup : (entries.map (·.1)).Nodup)
      (cs : Categories) :
      (entries.foldl (fun t e => t.insertNew e.1 e.2.cleared) cs).toList =
        cs.toList ++ (entries.filter fun e => !cs.contains e.1).map
          fun e => (e.1, e.2.cleared) := by
    induction entries generalizing cs with
    | nil => simp
    | cons e rest ih =>
      rw [List.map_cons, List.nodup_cons] at nodup
      rw [List.foldl_cons, ih nodup.2]
      by_cases there : cs.contains e.1 = true
      · rw [Table.insertNew, if_pos there, List.filter_cons_of_neg (by simpa using there)]
      · have fresh : e.1 ∉ cs.keys := fun mem => there (Table.contains_iff.mpr mem)
        have added : (cs.insert e.1 e.2.cleared).toList = cs.toList ++ [(e.1, e.2.cleared)] :=
          Table.setEntry_of_not_mem fresh _
        have others : rest.filter (fun f => !(cs.insert e.1 e.2.cleared).contains f.1) =
            rest.filter fun f => !cs.contains f.1 := by
          refine List.filter_congr fun f mem => congrArg Bool.not ?_
          have other : f.1 ≠ e.1 := fun same => nodup.1 (same ▸ List.mem_map_of_mem mem)
          rw [Bool.eq_iff_iff, Table.contains_iff, Table.contains_iff, Table.mem_keys_insert]
          exact or_iff_left other
        rw [Table.insertNew, if_neg there, added, others,
          List.filter_cons_of_pos (by simpa using there), List.map_cons, List.append_assoc]
        rfl
  exact fold templates.toList templates.nodup cs

end Categories

theorem Model.toList_reconcileRule (templates : Categories) (r : Rule) :
    (reconcileRule templates r).categories.toList =
      Categories.completed templates.toList r.categories.toList := by
  have cleared (e : String × Category) : (e.1, e.2.cleared.normalized) = (e.1, e.2.cleared) := by
    rw [Category.normalized_of_length e.2.length_cleared]
  change (Categories.fillFrom templates r.categories).toList.map
    (fun e => (e.1, e.2.normalized)) = _
  rw [Categories.toList_fillFrom, List.map_append, List.map_map, Categories.completed]
  exact congrArg _ (List.map_congr_left fun e _ => cleared e)

namespace RulesFile
open Categories

/-- The matcher of a rule, if it can be read. -/
def matcher? (d : Data) : Option Matcher := (d.get? "matcher").bind (Matcher.ofData? .lenient)

/-- The categories of a mapping that can be read, in the order of the file. -/
def listedIn : Data → List (String × Category)
  | .map fields => fields.filterMap category?
  | _ => []

/-- The categories of a rule that can be read, in the order of the file. -/
def listed (d : Data) : List (String × Category) := (d.get? "categories").elim [] listedIn

theorem categories_eq (d : Data) : categories d = Table.ofList (listedIn d) := by
  cases d <;> rfl

theorem key_of_category? {f : Key × Data} {e : String × Category} (read : category? f = some e) :
    f.1 = .text e.1 := by
  unfold category? at read
  split at read
  · cases read
  next key here =>
    obtain ⟨_, _, rfl⟩ := Option.map_eq_some_iff.mp read
    exact here

theorem keys_filterMap_sublist (fields : List (Key × Data)) :
    (((fields.filterMap category?).map (·.1)).map Key.text).Sublist (fields.map (·.1)) := by
  induction fields with
  | nil => exact List.Sublist.slnil
  | cons f fields ih =>
    cases read : category? f with
    | none =>
      rw [List.filterMap_cons_none read]
      exact ih.cons f.1
    | some e =>
      rw [List.filterMap_cons_some read, List.map_cons, List.map_cons, List.map_cons,
        key_of_category? read]
      exact ih.cons_cons _

theorem nodup_keys_listedIn {d : Data} (distinct : d.keysDistinct = true) :
    ((listedIn d).map (·.1)).Nodup := by
  cases d with
  | map fields =>
    have nodup := (Data.keysDistinct_map_iff.mp distinct).1
    exact ((keys_filterMap_sublist fields).nodup nodup).of_map Key.text
  | _ => exact List.nodup_nil

theorem toList_categories {d : Data} (distinct : d.keysDistinct = true) :
    (categories d).toList = listedIn d := by
  rw [categories_eq]
  exact Table.toList_ofList (nodup_keys_listedIn distinct)

theorem rule?_eq (d : Data) : rule? d = (matcher? d).map fun matcher =>
    ⟨name d, matcher, ((d.get? "categories").map categories).getD .empty⟩ := rfl

theorem isSome_rule? (d : Data) : (rule? d).isSome = (matcher? d).isSome := by
  rw [rule?_eq, Option.isSome_map]

theorem toList_of_rule? {d : Data} (distinct : d.keysDistinct = true) {r : Rule}
    (read : rule? d = some r) : r.categories.toList = listed d := by
  obtain ⟨matcher, _, rfl⟩ := Option.map_eq_some_iff.mp read
  unfold listed
  cases found : d.get? "categories" with
  | none => simp
  | some cs => simpa [found] using toList_categories (Data.keysDistinct_of_get? distinct found)

/-! ## The file without what cannot be read -/

/-- The categories of a mapping without those that cannot be read. -/
def soundCategories : Data → Data
  | .map fields => .map (fields.filter fun f => (category? f).isSome)
  | d => d

/-- A rule without the categories that cannot be read. -/
def soundRule (d : Data) : Data := d.modifyField "categories" soundCategories

/-- The items of a list of rules that are declared beside some matchers: their own matcher can be
read, is not built in, and is not that of a rule declared before. -/
def declaredItems (taken : List Matcher) : List Data → List Data
  | [] => []
  | d :: ds =>
    match matcher? d with
    | none => declaredItems taken ds
    | some matcher =>
      if matcher.isBuiltIn || taken.contains matcher then declaredItems taken ds
      else d :: declaredItems (taken ++ [matcher]) ds

/-- A list of rules without those that are not declared. -/
def soundRules : Data → Data
  | .list items => .list ((declaredItems [] items).map soundRule)
  | d => d

/-- The value of a rules file without what cannot be read. -/
def sound (d : Data) : Data :=
  (((d.modifyField "templates" soundCategories).modifyField "player" soundRule).modifyField
    "general" soundRule).modifyField "rules" soundRules

theorem categories_soundCategories (d : Data) : categories (soundCategories d) = categories d := by
  cases d with
  | map fields =>
    have same : (fields.filter fun f => (category? f).isSome).filterMap category? =
        fields.filterMap category? := by
      rw [List.filterMap_filter]
      refine List.filterMap_congr fun f _ => ?_
      cases category? f <;> simp
    exact congrArg Table.ofList same
  | _ => rfl

theorem matcher?_soundRule (d : Data) : matcher? (soundRule d) = matcher? d := by
  rw [matcher?, soundRule, Data.get?_modifyField, if_neg (by decide)]
  rfl

theorem rule?_soundRule (d : Data) : rule? (soundRule d) = rule? d := by
  have named : name (soundRule d) = name d := by
    rw [name, soundRule, Data.get?_modifyField, if_neg (by decide)]
    rfl
  have table : ((soundRule d).get? "categories").map categories =
      (d.get? "categories").map categories := by
    rw [soundRule, Data.get?_modifyField, if_pos rfl, Option.map_map]
    exact Option.map_congr fun cs _ => categories_soundCategories cs
  rw [rule?_eq, rule?_eq, matcher?_soundRule, named, table]

theorem any_matcher_eq (rules : List Rule) (matcher : Matcher) :
    (rules.any fun s => s.matcher == matcher) = (rules.map Rule.matcher).contains matcher := by
  rw [List.contains_eq_any_beq, List.any_map]
  exact congrArg rules.any (funext fun s => Bool.eq_iff_iff.mpr (by
    rw [Function.comp_apply, beq_iff_eq, beq_iff_eq, eq_comm]))

theorem foldl_declare_eq (rules : List Rule) (items : List Data) :
    (items.filterMap rule?).foldl declare rules =
      rules ++ (declaredItems (rules.map Rule.matcher) items).filterMap rule? := by
  induction items generalizing rules with
  | nil => simp [declaredItems]
  | cons d ds ih =>
    rw [declaredItems]
    cases read : matcher? d with
    | none =>
      have unread : rule? d = none := by rw [rule?_eq, read, Option.map_none]
      rw [List.filterMap_cons_none unread, ih]
    | some matcher =>
      obtain ⟨r, isRule, rfl⟩ : ∃ r, rule? d = some r ∧ r.matcher = matcher := by
        rw [rule?_eq, read]
        exact ⟨_, rfl, rfl⟩
      rw [List.filterMap_cons_some isRule, List.foldl_cons, declare, any_matcher_eq]
      dsimp only
      split
      next => exact ih rules
      next =>
        rw [ih, List.map_append, List.map_singleton, List.append_assoc,
          List.filterMap_cons_some isRule]
        rfl

/-- The items of the list of rules. -/
def ruleItems (d : Data) : List Data := ((d.get? "rules").bind Data.list?).getD []

theorem declared_eq (d : Data) : declared d = (declaredItems [] (ruleItems d)).filterMap rule? :=
  foldl_declare_eq [] (ruleItems d)

theorem ruleItems_sound (d : Data) :
    ruleItems (sound d) = (declaredItems [] (ruleItems d)).map soundRule := by
  have found : (sound d).get? "rules" = (d.get? "rules").map soundRules := by
    simp [sound, Data.get?_modifyField]
  rw [ruleItems, found, ruleItems]
  cases d.get? "rules" with
  | none => rfl
  | some value => cases value <;> rfl

theorem declared_sound (d : Data) : declared (sound d) = declared d := by
  have read : (ruleItems (sound d)).filterMap rule? = declared d := by
    rw [ruleItems_sound, List.filterMap_map, declared_eq]
    exact List.filterMap_congr fun x _ => rule?_soundRule x
  change ((ruleItems (sound d)).filterMap rule?).foldl declare [] = _
  rw [read]
  exact foldl_declare (declarable_declared d)

theorem mem_of_mem_declaredItems {items : List Data} {taken : List Matcher} {x : Data}
    (kept : x ∈ declaredItems taken items) : x ∈ items ∧ (matcher? x).isSome = true := by
  fun_induction declaredItems taken items with
  | case1 => cases kept
  | case2 taken d ds unread ih => exact ⟨List.mem_cons_of_mem d (ih kept).1, (ih kept).2⟩
  | case3 taken d ds matcher read refused ih =>
    exact ⟨List.mem_cons_of_mem d (ih kept).1, (ih kept).2⟩
  | case4 taken d ds matcher read declared ih =>
    rcases List.mem_cons.mp kept with rfl | later
    · exact ⟨List.mem_cons_self, by rw [read, Option.isSome_some]⟩
    · exact ⟨List.mem_cons_of_mem d (ih later).1, (ih later).2⟩

theorem keysDistinct_of_mem_ruleItems {d x : Data} (distinct : d.keysDistinct = true)
    (item : x ∈ ruleItems d) : x.keysDistinct = true := by
  unfold ruleItems at item
  cases found : d.get? "rules" with
  | none => simp [found] at item
  | some value =>
    have inner := Data.keysDistinct_of_get? distinct found
    rw [found, Option.bind_some] at item
    cases value with
    | list items => exact Data.keysDistinct_list_iff.mp inner x item
    | _ => cases item

theorem templates_sound (d : Data) :
    ((sound d).get? "templates").map categories = (d.get? "templates").map categories := by
  have found : (sound d).get? "templates" = (d.get? "templates").map soundCategories := by
    simp [sound, Data.get?_modifyField]
  rw [found, Option.map_map]
  exact Option.map_congr fun cs _ => categories_soundCategories cs

theorem builtInRule_congr {d d' : Data} {key : String}
    (same : (d'.get? key).bind rule? = (d.get? key).bind rule?) (fallback : Rule) :
    builtInRule d' key fallback = builtInRule d key fallback := by
  rw [builtInRule, same, builtInRule]

theorem model_congr {d d' : Data}
    (templates : (d'.get? "templates").map categories = (d.get? "templates").map categories)
    (player : (d'.get? "player").bind rule? = (d.get? "player").bind rule?)
    (general : (d'.get? "general").bind rule? = (d.get? "general").bind rule?)
    (rules : declared d' = declared d) : model d' = model d := by
  rw [model, templates, rules, model, builtInRule_congr player, builtInRule_congr general]

theorem model_sound (d : Data) : model (sound d) = model d := by
  have same (found : Option Data) : (found.map soundRule).bind rule? = found.bind rule? := by
    rw [Option.bind_map]
    exact congrArg found.bind (funext rule?_soundRule)
  have player : (sound d).get? "player" = (d.get? "player").map soundRule := by
    simp [sound, Data.get?_modifyField]
  have general : (sound d).get? "general" = (d.get? "general").map soundRule := by
    simp [sound, Data.get?_modifyField]
  exact model_congr (templates_sound d) (player ▸ same _) (general ▸ same _) (declared_sound d)

/-! ## The order of what is read -/

/-- The rule has the name and the matcher of an item and the categories of the item that can be
read, completed by the templates. -/
structure ReadAs (templates : List (String × Category)) (d : Data) (r : Rule) : Prop where
  name : r.name = name d
  matcher : matcher? d = some r.matcher
  categories : r.categories.toList = completed templates (listed d)

/-- The categories under a key of the file that can be read; none without a readable matcher. -/
def listedUnder (d : Data) (key : String) : List (String × Category) :=
  ((d.get? key).filter fun x => (matcher? x).isSome).elim [] listed

/-- Templates and rules stand in the model in the order of the file. -/
structure InFileOrder (d : Data) (m : Model) : Prop where
  templates : m.templates.toList = (d.get? "templates").elim Categories.builtIn.toList listedIn
  player : m.player.categories.toList = completed m.templates.toList (listedUnder d "player")
  general : m.general.categories.toList = completed m.templates.toList (listedUnder d "general")
  rules : List.Forall₂ (ReadAs m.templates.toList) (declaredItems [] (ruleItems d)) m.rules

theorem readAs_reconcileRule {d : Data} (distinct : d.keysDistinct = true) {r : Rule}
    (read : rule? d = some r) (templates : Categories) :
    ReadAs templates.toList d (Model.reconcileRule templates r) := by
  have own := toList_of_rule? distinct read
  obtain ⟨matcher, found, rfl⟩ := Option.map_eq_some_iff.mp read
  refine ⟨rfl, found, ?_⟩
  rw [Model.toList_reconcileRule, own]

theorem listedUnder_of_unread {d : Data} {key : String}
    (unread : (d.get? key).bind rule? = none) : listedUnder d key = [] := by
  rw [listedUnder]
  cases found : d.get? key with
  | none => rfl
  | some x =>
    rw [found, Option.bind_some] at unread
    have bad : ¬(matcher? x).isSome = true := by simp [← isSome_rule?, unread]
    rw [Option.filter_some, if_neg bad, Option.elim_none]

theorem toList_of_read {d : Data} (distinct : d.keysDistinct = true) {key : String} {r : Rule}
    (read : (d.get? key).bind rule? = some r) : r.categories.toList = listedUnder d key := by
  obtain ⟨x, found, decoded⟩ := Option.bind_eq_some_iff.mp read
  have good : (matcher? x).isSome = true := by rw [← isSome_rule?, decoded, Option.isSome_some]
  rw [listedUnder, found, Option.filter_some, if_pos good, Option.elim_some]
  exact toList_of_rule? (Data.keysDistinct_of_get? distinct found) decoded

theorem toList_builtInRule {d : Data} (distinct : d.keysDistinct = true) (key : String)
    {templates : Categories} {fallback plain : Rule} (empty : plain.categories = .empty)
    (filled : fallback = Model.reconcileRule templates plain) :
    (Model.reconcileRule templates (builtInRule d key fallback)).categories.toList =
      completed templates.toList (listedUnder d key) := by
  rw [builtInRule]
  cases read : (d.get? key).bind rule? with
  | none =>
    -- the rule in its place is reconciled already
    have refilled : Model.reconcileRule templates fallback = fallback := by
      rw [filled]
      exact Model.reconcileRule_of_complete (Model.complete_reconcileRule templates plain)
    dsimp only
    rw [refilled, filled, Model.toList_reconcileRule, empty, listedUnder_of_unread read]
    rfl
  | some r =>
    have own : r.categories.toList = listedUnder d key := toList_of_read distinct read
    rw [Model.toList_reconcileRule, ← own]

theorem forall₂_declared {d : Data} (distinct : d.keysDistinct = true) (templates : Categories) :
    List.Forall₂ (ReadAs templates.toList) (declaredItems [] (ruleItems d))
      ((declared d).map (Model.reconcileRule templates)) := by
  have readable : ∀ x ∈ declaredItems [] (ruleItems d), (rule? x).isSome = true :=
    fun x mem => (isSome_rule? x).trans (mem_of_mem_declaredItems mem).2
  have decoded := forall₂_filterMap readable
  rw [List.forall₂_map_right_iff, declared_eq]
  have both := (List.forall₂_and_left (p := fun x => x.keysDistinct = true) _ _).mpr
    ⟨fun x mem => keysDistinct_of_mem_ruleItems distinct (mem_of_mem_declaredItems mem).1, decoded⟩
  exact both.imp fun x r read => readAs_reconcileRule read.1 read.2 templates

theorem inFileOrder_model {d : Data} (distinct : d.keysDistinct = true) :
    InFileOrder d (model d) where
  templates := by
    change (((d.get? "templates").map categories).getD Categories.builtIn).toList = _
    cases found : d.get? "templates" with
    | none => rfl
    | some cs => exact toList_categories (Data.keysDistinct_of_get? distinct found)
  player := toList_builtInRule distinct "player" rfl rfl
  general := toList_builtInRule distinct "general" rfl rfl
  rules := forall₂_declared distinct _

/-- The model is the one of the file without what cannot be read.  If no map of the file has a key
twice, its templates and rules stand in the order of the file; so they do for every file that is
read, because the reader refuses repeated keys. -/
theorem unreadable_parts_dropped (d : Data) :
    model (sound d) = model d ∧ (d.keysDistinct = true → InFileOrder d (model d)) ∧
    ∀ text, Data.read? .configuration text = some d → InFileOrder d (model d) :=
  ⟨model_sound d, inFileOrder_model,
    fun _ read => inFileOrder_model (Data.keysDistinct_of_read? read)⟩

/-- A file with a template under a number, and beside the bandits a race that is no form, a second
rule for bandits and a second one for the player.  The bandits' sword is no category. -/
def damaged : Data :=
  .record [("templates", .map [(.text "Sword", (Category.plain "Sword" 1).toData),
      (.bare "5", (Category.plain "Mace" 4).toData)]),
    ("rules", .list [
      .record [("name", .text "Broken"),
        ("matcher", .record [("type", .text "Race"), ("target", .text "none")])],
      .record [("name", .text "Bandits"), ("matcher", (Matcher.keyword "Bandit").toData),
        ("categories", .record [("Bow", (Category.plain "Bow" 7).toData),
          ("Sword", .record [("name", .text "Sword"), ("right_type", .text "one")])])],
      .record [("name", .text "Bandits again"), ("matcher", (Matcher.keyword "Bandit").toData)],
      .record [("name", .text "Player"), ("matcher", Matcher.player.toData)]])]

theorem unreadable_parts_dropped_damaged :
    damaged.keysDistinct = true ∧ model (sound damaged) = model damaged ∧
    InFileOrder damaged (model damaged) ∧ (model damaged).templates.keys = ["Sword"] ∧
    (model damaged).rules.map (fun r => (r.name, r.categories.keys)) =
      [("Bandits", ["Bow", "Sword"])] :=
  have distinct : damaged.keysDistinct = true := by decide
  ⟨distinct, (unreadable_parts_dropped damaged).1, (unreadable_parts_dropped damaged).2.1 distinct,
    by decide +kernel, by decide +kernel⟩

end RulesFile

end Movesets
