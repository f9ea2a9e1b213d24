import Movesets.Document

set_option autoImplicit false

/-!
# Blocks and the playlists of other places

What a block asks of the actor and of the hands comes from the matcher of its rule and from the
categories without their playlists.  Rules that agree when their playlists are cleared compile a
playlist to the same blocks, so what one place holds cannot show in the blocks of another.
-/

namespace Movesets

namespace Exclusion

theorem byName_cleared (cs : Categories) :
    byName (cs.map Category.cleared) = (byName cs).map Category.cleared := by
  rw [byName, byName, Table.values_map]
  symm
  apply List.map_mergeSort
  intro a _ b _
  rfl

theorem competing_cleared (cs : Categories) (c : Category) (hand : Hand) :
    competing (cs.map Category.cleared) c.cleared hand = competing cs c hand := by
  cases hand <;>
    (rw [competing, competitors, byName_cleared, List.filter_map, List.flatMap_map]; rfl)

theorem shields_cleared (cs : Categories) (c : Category) :
    shields (cs.map Category.cleared) c.cleared = shields cs c := by
  rw [shields, customShields, byName_cleared, List.filter_map, List.flatMap_map]
  rfl

end Exclusion

def Rule.cleared (r : Rule) : Rule := { r with categories := r.categories.map Category.cleared }

namespace Block

theorem shared_cleared (cs : Categories) (r : Rule) (c : Category) (stance : Nat) :
    shared (cs.map Category.cleared) (some r.cleared) c.cleared stance =
      shared cs (some r) c stance := by
  have hand (h : Hand) : handParts (cs.map Category.cleared) c.cleared h = handParts cs c h := by
    cases h <;> (rw [handParts, Exclusion.competing_cleared]; rfl)
  have right : rightTypeParts (cs.map Category.cleared) c.cleared = rightTypeParts cs c := by
    rw [rightTypeParts, Exclusion.shields_cleared]
    rfl
  unfold shared
  rw [hand .right, hand .left, right]
  rfl

/-- Rules and categories that differ in playlists alone compile a playlist alike. -/
theorem compileAll_congr {r r' : Rule} {c c' : Category} (rules : r.cleared = r'.cleared)
    (categories : c.cleared = c'.cleared) (stance : Nat) (p : Playlist) :
    compileAll r.categories (some r) c stance p =
      compileAll r'.categories (some r') c' stance p := by
  have tables : r.categories.map Category.cleared = r'.categories.map Category.cleared :=
    congrArg Rule.categories rules
  rw [compileAll, ← shared_cleared, tables, rules, categories, shared_cleared]
  rfl

end Block

namespace Document

theorem stancesOf_congr {r r' : Rule} (rules : r.cleared = r'.cleared) :
    stancesOf r = stancesOf r' := by
  change List.range (if r.cleared.isPlayer then stanceCount else 1) = _
  rw [rules]
  rfl

theorem stanceBlocks_congr {r r' : Rule} {c c' : Category} (rules : r.cleared = r'.cleared)
    (categories : c.cleared = c'.cleared) {stance : Nat}
    (playlists : c.stance? stance = c'.stance? stance) :
    stanceBlocks r c stance = stanceBlocks r' c' stance := by
  unfold stanceBlocks
  rw [playlists]
  cases c'.stance? stance with
  | none => rfl
  | some p => exact Block.compileAll_congr rules categories stance p

end Document

end Movesets
