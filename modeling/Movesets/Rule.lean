import Movesets.Category

set_option autoImplicit false

/-!
# Rules

A rule says which actors it is for and holds their categories.  The kinds of rules are ranked: a
rule for one actor comes before one for a keyword, a faction, a race, and all of these before the
general rule.
-/

namespace Movesets

inductive RuleKind where
  | player
  | general
  | unique
  | faction
  | keyword
  | race
  deriving DecidableEq, Repr

namespace RuleKind

/-- The kinds that are tried for an actor, in this order. -/
def tiers : List RuleKind := [.unique, .keyword, .faction, .race]

/-- The tier that the runtime is told. -/
def priority : RuleKind → Int32
  | .unique => 4
  | .keyword => 3
  | .faction => 2
  | .race => 1
  | .general => 0
  | .player => 0

def title : RuleKind → String
  | .player => "Player"
  | .general => "General NPC"
  | .unique => "Unique NPC"
  | .faction => "Faction"
  | .keyword => "Keyword"
  | .race => "Race"

end RuleKind

/-- The actors a rule is for. -/
inductive Matcher where
  | player
  | general
  | unique (base : Form)
  | faction (faction : Form)
  | keyword (keyword : String)
  | race (race : Form)
  deriving DecidableEq, Repr

namespace Matcher

def kind : Matcher → RuleKind
  | .player => .player
  | .general => .general
  | .unique _ => .unique
  | .faction _ => .faction
  | .keyword _ => .keyword
  | .race _ => .race

def admits : Matcher → Actor → Bool
  | .player, a => a.isPlayer
  | .general, a => !a.isPlayer
  | .unique base, a => a.base == base
  | .faction f, a => a.inFaction f
  | .keyword k, a => a.hasKeyword k
  | .race r, a => a.race == r

/-- The matcher is one of the two that every model has. -/
def isBuiltIn : Matcher → Bool
  | .player => true
  | .general => true
  | _ => false

def toData : Matcher → Data
  | .player => .record [("type", .text "Player")]
  | .general => .record [("type", .text "General")]
  | .unique f => .record [("type", .text "UniqueNpc"), ("target", .text f.print)]
  | .faction f => .record [("type", .text "Faction"), ("target", .text f.print)]
  | .keyword k => .record [("type", .text "Keyword"), ("target", .text k)]
  | .race f => .record [("type", .text "Race"), ("target", .text f.print)]

/-- A matcher without a target: the field is absent or null. -/
def untargeted? (target : Option Data) (m : Matcher) : Option Matcher :=
  match target with
  | none => some m
  | some d => if d.isNull then some m else none

def ofData? (R : Reading) (d : Data) : Option Matcher := do
  let fields ← d.asFields? R
  let type ← Data.required? fields "type" (Data.asName? R)
  let target := Data.lookup (.text "target") fields
  let form := target.bind Form.ofData?
  match type with
  | "Player" => untargeted? target .player
  | "General" => untargeted? target .general
  | "UniqueNpc" => form.map .unique
  | "Faction" => form.map .faction
  | "Race" => form.map .race
  | "Keyword" => (target.bind Data.asText?).map .keyword
  | _ => none

end Matcher

structure Rule where
  name : String
  matcher : Matcher
  categories : Categories
  deriving BEq, Repr

namespace Rule

def kind (r : Rule) : RuleKind := r.matcher.kind

def isPlayer (r : Rule) : Bool := r.kind == .player

def category? (r : Rule) (key : String) : Option Category := r.categories.get? key

def playlist? (r : Rule) (category : String) (stance : Nat) : Option Playlist :=
  (r.category? category).bind fun c => c.stance? stance

def modifyCategory (r : Rule) (key : String) (f : Category → Category) : Rule :=
  { r with categories := r.categories.modify key f }

def toData (r : Rule) : Data :=
  .record [("name", .text r.name), ("matcher", r.matcher.toData),
    ("categories", r.categories.toData)]

end Rule

inductive RuleRef where
  | player
  | general
  | declared (index : Nat)
  deriving DecidableEq, Repr

end Movesets
