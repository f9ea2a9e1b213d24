import Movesets.Model

set_option autoImplicit false

/-!
# Which rule drives an actor

The declared rules for an actor are tried tier by tier, in order of declaration within a tier.  The
first that has a selected entry in the first stance of the category wins; without one, or without
an actor, the general rule drives.
-/

namespace Movesets

/-- The rule that drives an actor for a category, how many entries it offers, and its tier. -/
structure Resolution where
  rule : RuleRef
  available : Nat
  tier : Int32
  deriving DecidableEq, Repr

/-- How many entries of a category a rule offers to actors other than the player. -/
def Rule.available (r : Rule) (category : String) : Nat :=
  ((r.playlist? category 0).map Playlist.selectedCount).getD 0

namespace Resolution

def general (available : Nat) : Resolution := ⟨.general, available, RuleKind.general.priority⟩

/-- The rule is of the tier, is for the actor and has something to offer. -/
def Eligible (kind : RuleKind) (a : Actor) (category : String) (r : Rule) : Prop :=
  r.kind = kind ∧ r.matcher.admits a = true ∧ 0 < r.available category

instance (kind : RuleKind) (a : Actor) (category : String) (r : Rule) :
    Decidable (Eligible kind a category r) := by
  unfold Eligible; infer_instance

def inTier? (m : Model) (a : Actor) (category : String) (kind : RuleKind) : Option Resolution :=
  (m.rules.zipIdx.find? fun r => decide (Eligible kind a category r.1)).map fun r =>
    ⟨.declared r.2, r.1.available category, kind.priority⟩

end Resolution

/-- The rule that drives an actor for a category. -/
def Model.resolve (m : Model) (actor : Option Actor) (category : String) : Resolution :=
  match actor with
  | none => .general 0
  | some a =>
    (RuleKind.tiers.findSome? (Resolution.inTier? m a category)).getD
      (.general (m.general.available category))

end Movesets
