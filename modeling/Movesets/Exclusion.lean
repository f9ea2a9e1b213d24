import Movesets.Condition.Basic
import Movesets.Text.Case

set_option autoImplicit false

/-!
# Keywords that a category leaves to others

Categories that share an equipped type are told apart by keywords.  A category excludes on each hand
every keyword that another category of the same type claims there and that it does not claim itself;
the category for a shield of any kind excludes the keywords of custom shield categories.  Other
categories are taken in order of their names, so the order of the table does not matter.
-/

namespace Movesets.Exclusion

/-- The categories of a table in order of their names. -/
def byName (cs : Categories) : List Category :=
  cs.values.mergeSort fun a b => a.name ≤ b.name

/-- The keyword is not on the item in a hand. -/
def without (hand : Hand) (keyword : String) : Test := ⟨.equippedKeyword hand keyword, true⟩

/-- The first of each keyword, texts that agree up to ASCII case counting as one, except those that
agree with one listed already. -/
def distinctNames (listed : List String) : List String → List String
  | [] => []
  | k :: ks =>
    if listed.any fun l => Text.sameName l k then distinctNames listed ks
    else k :: distinctNames (k :: listed) ks

/-- The categories that compete for the item in a hand. -/
def competitors (cs : Categories) (c : Category) (hand : Hand) : List Category :=
  (byName cs).filter fun other => other.name != c.name && other.equipType hand == c.equipType hand

/-- The keywords that competitors claim on a hand. -/
def competing (cs : Categories) (c : Category) (hand : Hand) : List Test :=
  let claimed := (competitors cs c hand).flatMap fun other => other.keywords hand
  (distinctNames (c.keywords hand) claimed).map (without hand)

/-- The custom shield categories of other names. -/
def customShields (cs : Categories) (c : Category) : List Category :=
  (byName cs).filter fun other => other.name != c.name && other.custom && other.shield

/-- The right-hand keywords of custom shield categories, each spelling once. -/
def shields (cs : Categories) (c : Category) : List Test :=
  let claimed := (customShields cs c).flatMap fun other => other.rightKeywords
  (claimed.foldl (fun ks k => if ks.contains k then ks else ks ++ [k]) []).map (without .right)

end Movesets.Exclusion
