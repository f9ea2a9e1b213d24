import Movesets.Playlist.Order
import Movesets.Library

set_option autoImplicit false

/-!
# The name of the active variant

The name shown for a parent ordinal and a direction of movement: that of the first child of the
parent gated on the direction, else that of the parent.  A variant has its own name or that of its
animation.
-/

namespace Movesets.VariantName

/-- What is shown when there is nothing to name. -/
def notFound : String := "Not found"

def ofVariant? (l : Library) (v : Variant) : Option String :=
  if v.displayName = "" then (l.get? v.source).map Animation.name else some v.displayName

/-- The child is shown in a direction. -/
def facing (direction : Nat) (p : Placement) : Bool :=
  match p.variant.role with
  | .parent => false
  | .child g => g.directions.hasCode direction

/-- The name among the placements from a parent on. -/
def amongPlacements (l : Library) (direction : Nat) : List Placement → String
  | [] => notFound
  | parent :: rest =>
    let child := (rest.takeWhile fun p => !p.isParent).find? (facing direction)
    ((child.bind fun p => ofVariant? l p.variant) <|> ofVariant? l parent.variant).getD notFound

/-- The name of the variant that is active for an ordinal and a direction code. -/
def active (p : Playlist) (l : Library) (ordinal : UInt32) (direction : Nat) : String :=
  amongPlacements l direction
    ((Playlist.order p).dropWhile fun q => !(q.isParent && q.ordinal == ordinal))

end Movesets.VariantName
