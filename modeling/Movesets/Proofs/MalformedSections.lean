import Movesets.Proofs.UnreadableParts

set_option autoImplicit false

/-!
# Sections of the wrong shape

A section of a rules file that does not have the shape that is wanted of it counts as absent, with
one exception.  Without the section of templates the built-in ones are used, but one of the wrong
shape counts as an empty one, and there are no templates.
-/

namespace Movesets

theorem filterMap_modify {α β : Type} {f : α → α} {g : α → Option β} {xs : List α} {i : Nat}
    (same : ∀ x, xs[i]? = some x → g (f x) = g x) :
    (xs.modify i f).filterMap g = xs.filterMap g := by
  induction xs generalizing i with
  | nil => simp
  | cons x xs ih =>
    cases i with
    | zero => rw [List.modify_zero_cons, List.filterMap_cons, List.filterMap_cons, same x rfl]
    | succ i => rw [List.modify_succ_cons, List.filterMap_cons, List.filterMap_cons, ih same]

namespace Data

/-- The value without the fields of a map under a key. -/
def eraseField (key : String) : Data → Data
  | .map fields => .map (fields.filter fun e => e.1 != .text key)
  | d => d

theorem get?_eraseField (d : Data) (key k : String) :
    (d.eraseField key).get? k = if key = k then none else d.get? k := by
  cases d with
  | map fields =>
    change ((fields.filter fun e => e.1 != .text key).find? fun e => e.1 == .text k).map _ = _
    rw [List.find?_filter]
    split
    next same =>
      rw [List.find?_eq_none.mpr (by simp [same])]
      rfl
    next other =>
      refine congrArg (Option.map _) (congrArg (fields.find? ·) (funext fun e => ?_))
      by_cases here : e.1 = .text k
      · simp [here, Ne.symm other]
      · simp [here]
  | _ => split <;> rfl

/-- The value with an item of a list changed. -/
def modifyItem (i : Nat) (f : Data → Data) : Data → Data
  | .list items => .list (items.modify i f)
  | d => d

end Data

namespace RulesFile

/-- The value of a rule in the file. -/
def ruleData? (d : Data) : RuleRef → Option Data
  | .player => d.get? "player"
  | .general => d.get? "general"
  | .declared i => (ruleItems d)[i]?

/-- A part of a rules file that is wanted in one shape. -/
inductive Section where
  | templates
  | player
  | general
  | rules
  | categories (rule : RuleRef)
  deriving DecidableEq, Repr

namespace Section

def value? (d : Data) : Section → Option Data
  | templates => d.get? "templates"
  | player => d.get? "player"
  | general => d.get? "general"
  | rules => d.get? "rules"
  | categories rule => (ruleData? d rule).bind fun x => x.get? "categories"

/-- The value has the shape of the section: categories are a map, rules a list, and a rule has a
matcher that can be read. -/
def fits (x : Data) : Section → Bool
  | templates | categories _ => x.isMap
  | player | general => (matcher? x).isSome
  | rules => x.list?.isSome

/-- The section is there and has not its shape. -/
def malformed (d : Data) (s : Section) : Bool := (s.value? d).any fun x => !s.fits x

/-- The value of the file with the section removed. -/
def removed (d : Data) : Section → Data
  | templates => d.eraseField "templates"
  | player => d.eraseField "player"
  | general => d.eraseField "general"
  | rules => d.eraseField "rules"
  | categories .player => d.modifyField "player" (Data.eraseField "categories")
  | categories .general => d.modifyField "general" (Data.eraseField "categories")
  | categories (.declared i) =>
    d.modifyField "rules" (Data.modifyItem i (Data.eraseField "categories"))

theorem malformed_iff {d : Data} {s : Section} :
    s.malformed d = true ↔ ∃ x, s.value? d = some x ∧ s.fits x = false := by
  rw [malformed]
  cases s.value? d <;> simp

end Section

theorem categories_of_not_isMap {x : Data} (notMap : x.isMap = false) : categories x = .empty := by
  cases x with
  | map fields => cases notMap
  | _ => rfl

theorem rule?_eraseField {x cs : Data} (found : x.get? "categories" = some cs)
    (notMap : cs.isMap = false) : rule? (x.eraseField "categories") = rule? x := by
  have named : name (x.eraseField "categories") = name x := by
    rw [name, Data.get?_eraseField, if_neg (by decide)]
    rfl
  have matcher : matcher? (x.eraseField "categories") = matcher? x := by
    rw [matcher?, Data.get?_eraseField, if_neg (by decide)]
    rfl
  rw [rule?_eq, rule?_eq, named, matcher, Data.get?_eraseField, if_pos rfl, found,
    Option.map_some, categories_of_not_isMap notMap]
  rfl

/-! ## Rules of a file with a field removed -/

theorem bind_rule?_eraseField {d x : Data} {key : String} (found : d.get? key = some x)
    (unread : rule? x = none) (k : String) :
    ((d.eraseField key).get? k).bind rule? = (d.get? k).bind rule? := by
  rw [Data.get?_eraseField]
  split
  next same => rw [← same, found, Option.bind_none, Option.bind_some, unread]
  next => rfl

theorem bind_rule?_modifyField {d x cs : Data} {key : String} (rule : d.get? key = some x)
    (found : x.get? "categories" = some cs) (notMap : cs.isMap = false) (k : String) :
    ((d.modifyField key (Data.eraseField "categories")).get? k).bind rule? =
      (d.get? k).bind rule? := by
  rw [Data.get?_modifyField]
  split
  next same =>
    rw [← same, rule, Option.map_some, Option.bind_some, Option.bind_some,
      rule?_eraseField found notMap]
  next => rfl

theorem ruleItems_eraseField {key : String} (other : key ≠ "rules") (d : Data) :
    ruleItems (d.eraseField key) = ruleItems d := by
  rw [ruleItems, Data.get?_eraseField, if_neg other]
  rfl

theorem ruleItems_modifyField {key : String} (other : key ≠ "rules") (d : Data) (f : Data → Data) :
    ruleItems (d.modifyField key f) = ruleItems d := by
  rw [ruleItems, Data.get?_modifyField, if_neg other]
  rfl

theorem ruleItems_modifyItem (d : Data) (i : Nat) (f : Data → Data) :
    ruleItems (d.modifyField "rules" (Data.modifyItem i f)) = (ruleItems d).modify i f := by
  rw [ruleItems, Data.get?_modifyField, if_pos rfl, ruleItems]
  cases d.get? "rules" with
  | none => simp
  | some value => cases value <;> simp [Data.modifyItem, Data.list?]

theorem declared_congr {d d' : Data}
    (same : (ruleItems d').filterMap rule? = (ruleItems d).filterMap rule?) :
    declared d' = declared d :=
  congrArg (List.foldl declare []) same

/-! ## The model without a section -/

theorem model_eraseField_of_unread {d x : Data} {key : String} (found : d.get? key = some x)
    (unread : (matcher? x).isSome = false) (noTemplates : key ≠ "templates")
    (noRules : key ≠ "rules") : model (d.eraseField key) = model d := by
  have noRule : rule? x = none := by
    rw [← Option.not_isSome_iff_eq_none, isSome_rule?, unread]
    exact Bool.false_ne_true
  have same := bind_rule?_eraseField found noRule
  refine model_congr ?templates (same "player") (same "general") (declared_congr ?rules)
  case templates => rw [Data.get?_eraseField, if_neg noTemplates]
  case rules => rw [ruleItems_eraseField noRules]

theorem model_eraseField_rules {d x : Data} (found : d.get? "rules" = some x)
    (noList : x.list? = none) : model (d.eraseField "rules") = model d := by
  have absent : ruleItems (d.eraseField "rules") = [] := by
    rw [ruleItems, Data.get?_eraseField, if_pos rfl]
    rfl
  have unread : ruleItems d = [] := by
    rw [ruleItems, found, Option.bind_some, noList, Option.getD_none]
  have others (k : String) (other : "rules" ≠ k) : (d.eraseField "rules").get? k = d.get? k := by
    rw [Data.get?_eraseField, if_neg other]
  refine model_congr ?_ ?_ ?_ (declared_congr (by rw [absent, unread])) <;>
    rw [others _ (by decide)]

theorem model_modifyField_of_not_isMap {d x cs : Data} {key : String} (rule : d.get? key = some x)
    (found : x.get? "categories" = some cs) (notMap : cs.isMap = false)
    (noTemplates : key ≠ "templates") (noRules : key ≠ "rules") :
    model (d.modifyField key (Data.eraseField "categories")) = model d := by
  have same := bind_rule?_modifyField rule found notMap
  refine model_congr ?templates (same "player") (same "general") (declared_congr ?rules)
  case templates => rw [Data.get?_modifyField, if_neg noTemplates]
  case rules => rw [ruleItems_modifyField noRules]

theorem model_modifyItem_of_not_isMap {d x cs : Data} {i : Nat} (rule : (ruleItems d)[i]? = some x)
    (found : x.get? "categories" = some cs) (notMap : cs.isMap = false) :
    model (d.modifyField "rules" (Data.modifyItem i (Data.eraseField "categories"))) =
      model d := by
  have same : ∀ y, (ruleItems d)[i]? = some y →
      rule? (y.eraseField "categories") = rule? y := by
    intro y here
    cases rule.symm.trans here
    exact rule?_eraseField found notMap
  have others (k : String) (other : "rules" ≠ k) (f : Data → Data) :
      (d.modifyField "rules" f).get? k = d.get? k := by
    rw [Data.get?_modifyField, if_neg other]
  refine model_congr ?templates ?player ?general (declared_congr ?rules)
  case rules => rw [ruleItems_modifyItem, filterMap_modify same]
  all_goals rw [others _ (by decide)]

/-- Templates that are no map count as an empty map. -/
theorem model_of_templates_not_isMap {d x : Data} (found : d.get? "templates" = some x)
    (notMap : x.isMap = false) : model d = model (d.modifyField "templates" fun _ => .map []) := by
  have others (k : String) (other : "templates" ≠ k) :
      (d.modifyField "templates" fun _ => .map []).get? k = d.get? k := by
    rw [Data.get?_modifyField, if_neg other]
  refine (model_congr ?templates ?player ?general (declared_congr ?rules)).symm
  case templates =>
    rw [Data.get?_modifyField, if_pos rfl, found, Option.map_some, Option.map_some, Option.map_some,
      categories_of_not_isMap notMap]
    rfl
  case rules => rw [ruleItems_modifyField (by decide)]
  all_goals rw [others _ (by decide)]

theorem model_eraseField_templates_ne {d x : Data} (found : d.get? "templates" = some x)
    (notMap : x.isMap = false) : model (d.eraseField "templates") ≠ model d := by
  have absent : (model (d.eraseField "templates")).templates = Categories.builtIn := by
    change (((d.eraseField "templates").get? "templates").map categories).getD _ = _
    rw [Data.get?_eraseField, if_pos rfl]
    rfl
  have unread : (model d).templates = .empty := by
    change ((d.get? "templates").map categories).getD _ = _
    rw [found, Option.map_some, Option.getD_some, categories_of_not_isMap notMap]
  intro same
  have sizes : Categories.builtIn.size = (Table.empty : Categories).size := by
    rw [← absent, ← unread, same]
  exact absurd sizes (by decide)

/-- A section of the wrong shape counts as absent if and only if it is not that of the templates,
which counts as empty. -/
theorem model_removed_iff {d : Data} {s : Section} (malformed : s.malformed d = true) :
    (model (s.removed d) = model d ↔ s ≠ .templates) ∧
    (s = .templates → model d = model (d.modifyField "templates" fun _ => .map [])) := by
  obtain ⟨x, found, bad⟩ := Section.malformed_iff.mp malformed
  cases s with
  | templates =>
    exact ⟨iff_of_false (model_eraseField_templates_ne found bad) (fun h => h rfl),
      fun _ => model_of_templates_not_isMap found bad⟩
  | player =>
    have same := model_eraseField_of_unread found bad (by decide) (by decide)
    exact ⟨iff_of_true same (by decide), nofun⟩
  | general =>
    have same := model_eraseField_of_unread found bad (by decide) (by decide)
    exact ⟨iff_of_true same (by decide), nofun⟩
  | rules =>
    have noList := Option.not_isSome_iff_eq_none.mp (Bool.eq_false_iff.mp bad)
    have same := model_eraseField_rules found noList
    exact ⟨iff_of_true same (by decide), nofun⟩
  | categories rule =>
    refine ⟨iff_of_true ?_ nofun, nofun⟩
    obtain ⟨y, inFile, inRule⟩ := Option.bind_eq_some_iff.mp found
    cases rule with
    | player => exact model_modifyField_of_not_isMap inFile inRule bad (by decide) (by decide)
    | general => exact model_modifyField_of_not_isMap inFile inRule bad (by decide) (by decide)
    | declared i => exact model_modifyItem_of_not_isMap inFile inRule bad

/-- A file in which neither the templates nor the categories of a rule are a map. -/
def shapeless : Data :=
  .record [("templates", .text "Sword"), ("rules", .list [.record [("name", .text "Bandits"),
    ("matcher", (Matcher.keyword "Bandit").toData), ("categories", .text "Sword")]])]

theorem model_removed_iff_shapeless :
    Section.templates.malformed shapeless = true ∧
    model (Section.templates.removed shapeless) ≠ model shapeless ∧
    (Section.categories (.declared 0)).malformed shapeless = true ∧
    model ((Section.categories (.declared 0)).removed shapeless) = model shapeless := by
  have templates : Section.templates.malformed shapeless = true := by decide
  have categories : (Section.categories (.declared 0)).malformed shapeless = true := by decide
  exact ⟨templates, fun same => (model_removed_iff templates).1.mp same rfl, categories,
    (model_removed_iff categories).1.mpr (by decide)⟩

def listedTemplates : Data :=
  .record [("templates", .list [.record [("name", .text "Sword"), ("right_type", .int 1)]])]

/-- Templates in a list are not read, and yet the built-in ones are not used. -/
theorem listed_templates_not_absent :
    Section.templates.malformed listedTemplates = true ∧
    (model (Section.templates.removed listedTemplates)).templates.size = 12 ∧
    (model listedTemplates).templates.size = 0 ∧
    model (Section.templates.removed listedTemplates) ≠ model listedTemplates := by
  have builtIn : (model (Section.templates.removed listedTemplates)).templates.size = 12 := by
    decide
  have unread : (model listedTemplates).templates.size = 0 := by decide
  refine ⟨by decide, builtIn, unread, fun same => ?_⟩
  rw [same, unread] at builtIn
  cases builtIn

end RulesFile

end Movesets
