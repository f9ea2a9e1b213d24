import Movesets.Model

set_option autoImplicit false

/-!
# Counted parents

How many parents each playlist of a model has, counted once and valid until the model is edited.
-/

namespace Movesets

/-- The place of a playlist: rule, category and stance. -/
abbrev PlaylistKey := RuleRef × String × Nat

namespace ParentCounts

/-- The counts of one rule; playlists without parents are left out. -/
def ofRule (ref : RuleRef) (r : Rule) : List (PlaylistKey × UInt32) :=
  (r.categories.toList.flatMap fun c =>
    (c.2.stances.take stanceCount).zipIdx.map fun p =>
      ((ref, c.1, p.2), Playlist.parentCount p.1)).filter fun count => 0 < count.2

def ofModel (m : Model) : List (PlaylistKey × UInt32) :=
  m.allRules.flatMap fun r => ofRule r.1 r.2

/-- The count at a place, zero where none was kept. -/
def lookup (counts : List (PlaylistKey × UInt32)) (key : PlaylistKey) : UInt32 :=
  ((counts.find? fun c => c.1 == key).map (·.2)).getD 0

end ParentCounts

/-- Counts that were taken at some time, and whether they still stand. -/
structure CountCache where
  counts : List (PlaylistKey × UInt32)
  isValid : Bool

namespace CountCache

def empty : CountCache := ⟨[], false⟩

/-- The counts stay but stand no longer. -/
def invalidate (c : CountCache) : CountCache := { c with isValid := false }

def rebuild (m : Model) : CountCache := ⟨ParentCounts.ofModel m, true⟩

/-- The count at a place, unless the counts stand no longer. -/
def get? (c : CountCache) (key : PlaylistKey) : Option UInt32 :=
  if c.isValid then some (ParentCounts.lookup c.counts key) else none

end CountCache

end Movesets
