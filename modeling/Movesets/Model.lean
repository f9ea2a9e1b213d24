import Movesets.Rule

set_option autoImplicit false

/-!
# Moveset models

A model holds category templates, the player's rule, the general rule and the declared rules in
order.  Rules are edited through a `RuleRef`; an edit that names something that is not there fails
with the reason and changes nothing.  Reconciling gives every rule an emptied copy of each template
it lacks, and every category of every rule exactly four stances.
-/

namespace Movesets

/-- Why an edit of a model, or a form reference, is refused. -/
inductive ModelError where
  | invalidForm (text : String)
  | unknownCategory (name : String)
  | stanceOutOfRange (index : Nat)
  | duplicateRule (name : String)
  | unknownRule (index : Nat)
  deriving DecidableEq, Repr

namespace ModelError

def numberText (n : Nat) : String := .ofList (Number.decimalDigits n)

def message : ModelError → String
  | .invalidForm text => "Invalid form reference: " ++ text
  | .unknownCategory name => "Category " ++ name ++ " not found"
  | .stanceOutOfRange i => "Stance index " ++ numberText i ++ " out of range"
  | .duplicateRule name => "Rule " ++ name ++ " already declared"
  | .unknownRule i => "Rule index " ++ numberText i ++ " out of range"

end ModelError

/-- The whole configuration of movesets. -/
structure Model where
  templates : Categories
  player : Rule
  general : Rule
  rules : List Rule
  deriving BEq, Repr

namespace Model

/-- The rule with the templates it lacked and four stances in every category. -/
def reconcileRule (templates : Categories) (r : Rule) : Rule :=
  { r with categories := (Categories.fillFrom templates r.categories).map Category.normalized }

/-- The model with every rule changed. -/
def mapRules (m : Model) (f : Rule → Rule) : Model :=
  { m with player := f m.player, general := f m.general, rules := m.rules.map f }

/-- The model with every rule reconciled with the templates. -/
def reconcile (m : Model) : Model := m.mapRules (reconcileRule m.templates)

def missing (m : Model) : Nat :=
  ((m.player :: m.general :: m.rules).map fun r => m.templates.lacking r.categories).foldl (· + ·) 0

/-- The model of some templates, without declared rules. -/
def ofTemplates (templates : Categories) : Model :=
  reconcile ⟨templates, ⟨"Player", .player, .empty⟩, ⟨"General NPC", .general, .empty⟩, []⟩

def builtIn : Model := ofTemplates Categories.builtIn

def rule? (m : Model) : RuleRef → Option Rule
  | .player => some m.player
  | .general => some m.general
  | .declared i => m.rules[i]?

/-- Every rule with its place: player, general, then the declared ones in order. -/
def allRules (m : Model) : List (RuleRef × Rule) :=
  (.player, m.player) :: (.general, m.general) ::
    m.rules.zipIdx.map fun r => (.declared r.2, r.1)

def modifyRule (m : Model) (r : RuleRef) (f : Rule → Rule) : Model :=
  match r with
  | .player => { m with player := f m.player }
  | .general => { m with general := f m.general }
  | .declared i => { m with rules := m.rules.modify i f }

def playlist? (m : Model) (r : RuleRef) (category : String) (stance : Nat) : Option Playlist :=
  (m.rule? r).bind fun rule => rule.playlist? category stance

def modifyPlaylist (m : Model) (r : RuleRef) (category : String) (stance : Nat)
    (f : Playlist → Playlist) : Model :=
  m.modifyRule r fun rule => rule.modifyCategory category fun c => c.modifyStance stance f

/-- A rule with the matcher is declared, or always there. -/
def declares (m : Model) (matcher : Matcher) : Bool :=
  matcher.isBuiltIn || m.rules.any fun r => r.matcher == matcher

/-- Declares a rule with an emptied copy of every template. -/
def addRule (m : Model) (name : String) (matcher : Matcher) : Except ModelError (Model × RuleRef) :=
  if m.declares matcher then .error (.duplicateRule name)
  else
    let rule : Rule := ⟨name, matcher, m.templates.map Category.cleared⟩
    .ok ({ m with rules := m.rules ++ [rule] }, .declared m.rules.length)

/-- Removes a declared rule; later rules move up. -/
def removeRule (m : Model) (i : Nat) : Except ModelError (Model × Rule) :=
  match m.rules[i]? with
  | none => .error (.unknownRule i)
  | some rule => .ok ({ m with rules := m.rules.eraseIdx i }, rule)

/-- Makes a category a template, replacing one of its name, and gives an emptied copy to every rule
that has none of its name. -/
def addCategory (m : Model) (c : Category) : Model :=
  let m := { m with templates := m.templates.insert c.name c.cleared }
  m.mapRules fun r => { r with categories := r.categories.insertNew c.name c.cleared }

/-- Replaces the playlist of a rule, a category and a stance. -/
def setPlaylist (m : Model) (r : RuleRef) (category : String) (stance : Nat) (p : Playlist) :
    Except ModelError Model :=
  if stanceCount ≤ stance then .error (.stanceOutOfRange stance)
  else
    match m.rule? r with
    | none => .error (.unknownRule (match r with | .declared i => i | _ => 0))
    | some rule =>
      match rule.category? category with
      | none => .error (.unknownCategory category)
      | some c =>
        match c.stance? stance with
        | none => .error (.stanceOutOfRange stance)
        | some _ => .ok (m.modifyPlaylist r category stance fun _ => p)

def toData (m : Model) : Data :=
  .record [("templates", m.templates.toData), ("player", m.player.toData),
    ("general", m.general.toData), ("rules", .list (m.rules.map Rule.toData))]

end Model

end Movesets
