import Movesets.Playlist.Entry

set_option autoImplicit false

/-!
# The order of a playlist

The selected variants of the selected entries, in order.  Parents are numbered from one; a child
carries the ordinal of the parent before it, also across the border of an entry, and a child before
every parent is left out.
-/

namespace Movesets

/-- A selected variant at its place in the playlist. -/
structure Placement where
  entryIndex : Nat
  variantIndex : Nat
  variant : Variant
  ordinal : UInt32
  deriving DecidableEq, Repr

namespace Placement

def isParent (p : Placement) : Bool := p.variant.isParent

end Placement

/-- The entries of one stance, in the order they are played. -/
abbrev Playlist := List Entry

namespace Playlist

/-- The selected variants of one entry with their positions. -/
def selectedVariants (entryIndex : Nat) (e : Entry) : List (Nat × Nat × Variant) :=
  (e.variants.zipIdx.filter fun v => v.1.selected).map fun v => (entryIndex, v.2, v.1)

/-- The selected variants of the selected entries with their positions. -/
def selection (entries : Playlist) : List (Nat × Nat × Variant) :=
  (entries.zipIdx.filter fun e => e.1.selected).flatMap fun e => selectedVariants e.2 e.1

/-- Numbers a selection when `parents` parents came before it. -/
def number (parents : Nat) : List (Nat × Nat × Variant) → List Placement
  | [] => []
  | (i, j, v) :: rest =>
    if v.isParent then ⟨i, j, v, UInt32.ofNat (parents + 1)⟩ :: number (parents + 1) rest
    else if parents = 0 then number parents rest
    else ⟨i, j, v, UInt32.ofNat parents⟩ :: number parents rest

def order (entries : Playlist) : List Placement :=
  number 0 (selection entries)

/-- How many parents a playlist has, which is its highest ordinal. -/
def parentCount (entries : Playlist) : UInt32 :=
  UInt32.ofNat ((order entries).countP Placement.isParent)

def selectedCount (entries : Playlist) : Nat :=
  entries.countP Entry.selected

end Playlist

end Movesets
