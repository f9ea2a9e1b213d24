import Movesets.Resolution

set_option autoImplicit false

/-!
# Candidates for an actor

The entries that an actor other than the player may be given: those of the first stance whose
thresholds admit its stats, the tightest fit first.  An entry is named by its ordinal, its position
from one among the selected entries.
-/

namespace Movesets

/-- Ordinals with the room their entries leave. -/
def Playlist.fitting (p : Playlist) (s : Stats) : List (UInt32 × Number.Binary32) :=
  ((p.filter Entry.selected).zipIdx.filter fun e => e.1.thresholds.admits s).map
    fun e => (UInt32.ofNat (e.2 + 1), e.1.thresholds.slack s)

/-- The ordinals of the entries open to the stats, by the room they leave, ties by position. -/
def Playlist.candidates (p : Playlist) (s : Stats) : List UInt32 :=
  ((p.fitting s).mergeSort fun a b => a.2.totalLe b.2).map (·.1)

def Rule.candidates (r : Rule) (category : String) (s : Stats) : List UInt32 :=
  ((r.playlist? category 0).map fun p => p.candidates s).getD []

/-- The rule that drives an actor and the candidates it offers. -/
def Model.candidates (m : Model) (actor : Option Actor) (category : String) :
    Resolution × List UInt32 :=
  let resolution := m.resolve actor category
  let ordinals := match actor with
    | none => []
    | some a => ((m.rule? resolution.rule).map fun r => r.candidates category a.stats).getD []
  (resolution, ordinals)

end Movesets
