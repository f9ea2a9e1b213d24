import Movesets.Model

set_option autoImplicit false

/-!
# The rules file

A model is read from whatever data the rules file holds.  What cannot be read is left out: a
category under a key that is no text or that does not decode, a rule without a matcher, a declared
rule whose matcher is built in or declared before it.  Without templates the built-in ones are used,
and every rule is reconciled with the templates.
-/

namespace Movesets.RulesFile

/-- One field of a mapping of categories, if it can be read. -/
def category? (field : Key × Data) : Option (String × Category) :=
  match field.1 with
  | .bare _ => none
  | .text key => (Category.ofData? .lenient field.2).map fun c => (key, c)

/-- The categories of a mapping that can be read; none if it is no mapping. -/
def categories : Data → Categories
  | .map fields => Table.ofList (fields.filterMap category?)
  | _ => .empty

def name (d : Data) : String := ((d.get? "name").bind Data.text?).getD "<unnamed>"

/-- A rule, if its matcher can be read. -/
def rule? (d : Data) : Option Rule :=
  ((d.get? "matcher").bind (Matcher.ofData? .lenient)).map fun matcher =>
    ⟨name d, matcher, ((d.get? "categories").map categories).getD .empty⟩

/-- The rule under a key in the place of a built-in one, whose matcher it takes. -/
def builtInRule (d : Data) (key : String) (fallback : Rule) : Rule :=
  match (d.get? key).bind rule? with
  | none => fallback
  | some r => { r with matcher := fallback.matcher }

/-- The declared rules with one more, unless its matcher is built in or taken. -/
def declare (rules : List Rule) (r : Rule) : List Rule :=
  if r.matcher.isBuiltIn || rules.any (fun s => s.matcher == r.matcher) then rules else rules ++ [r]

def declared (d : Data) : List Rule :=
  ((((d.get? "rules").bind Data.list?).getD []).filterMap rule?).foldl declare []

def model (d : Data) : Model :=
  let templates := ((d.get? "templates").map categories).getD Categories.builtIn
  let plain := Model.ofTemplates templates
  Model.reconcile ⟨templates, builtInRule d "player" plain.player,
    builtInRule d "general" plain.general, declared d⟩

end Movesets.RulesFile
