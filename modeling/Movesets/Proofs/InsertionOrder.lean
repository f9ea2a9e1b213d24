import Mathlib.Data.List.Nodup
import Movesets.Proofs.KeywordClaims

set_option autoImplicit false

/-!
# Tables in another order

A table lists its categories as they were inserted.  Everything that is compiled looks at them in
the order of their names, and as long as no two share a name there is only one such order.
-/

namespace Movesets

namespace Exclusion

theorem byName_sorted (cs : Categories) : (byName cs).Pairwise fun a b => a.name ≤ b.name := by
  refine (List.pairwise_mergeSort ?_ ?_ cs.values).imp of_decide_eq_true
  · intro a b c h h'
    exact decide_eq_true (String.le_trans (of_decide_eq_true h) (of_decide_eq_true h'))
  · intro a b
    simpa using String.le_total a.name b.name

theorem byName_eq_of_sorted {cs : Categories}
    (sorted : cs.values.Pairwise fun a b => a.name ≤ b.name) : byName cs = cs.values :=
  List.mergeSort_of_pairwise (sorted.imp decide_eq_true)

theorem byName_perm {cs cs' : Categories} (moved : cs.toList.Perm cs'.toList) :
    (byName cs).Perm (byName cs') :=
  ((List.mergeSort_perm ..).trans (moved.map Prod.snd)).trans (List.mergeSort_perm ..).symm

theorem byName_eq_of_perm {cs cs' : Categories} (moved : cs.toList.Perm cs'.toList)
    (distinct : (cs.values.map Category.name).Nodup) : byName cs = byName cs' := by
  have perm := byName_perm moved
  refine List.Perm.eq_of_pairwise ?_ (byName_sorted cs) (byName_sorted cs') perm
  intro a b mem mem' le ge
  have inTable : a ∈ cs.values := mem_byName.mp mem
  have inTable' : b ∈ cs.values := mem_byName.mp (perm.mem_iff.mpr mem')
  exact List.inj_on_of_nodup_map distinct inTable inTable' (String.le_antisymm le ge)

theorem competing_congr {cs cs' : Categories} (same : byName cs = byName cs') (c : Category)
    (hand : Hand) : competing cs c hand = competing cs' c hand := by
  rw [competing, competitors, same]
  rfl

theorem shields_congr {cs cs' : Categories} (same : byName cs = byName cs') (c : Category) :
    shields cs c = shields cs' c := by
  rw [shields, customShields, same]
  rfl

end Exclusion

namespace Block
open Exclusion

/-- What is shared by the blocks of a stance depends on a table through what is excluded. -/
theorem shared_congr {cs cs' : Categories} {c : Category}
    (hands : ∀ hand, competing cs c hand = competing cs' c hand)
    (shield : shields cs c = shields cs' c) (rule : Option Rule) (stance : Nat) :
    shared cs rule c stance = shared cs' rule c stance := by
  simp only [shared, handParts, rightTypeParts, hands, shield]

theorem compile_congr {cs cs' : Categories} (same : byName cs = byName cs') (rule : Option Rule)
    (c : Category) (stance : Nat) (p : Playlist) :
    compile cs rule c stance p = compile cs' rule c stance p := by
  rw [compile, compileAll, shared_congr (competing_congr same c) (shields_congr same c)]
  rfl

/-- Tables that hold the same categories in different orders, no two under one name, exclude the
same keywords and compile every playlist to the same tree, for any rule and for one that holds the
table itself. -/
theorem compile_eq_of_perm {cs cs' : Categories} (moved : cs.toList.Perm cs'.toList)
    (distinct : (cs.values.map Category.name).Nodup) (c : Category) (hand : Hand)
    (rule : Option Rule) (stance : Nat) (p : Playlist) :
    competing cs c hand = competing cs' c hand ∧ shields cs c = shields cs' c ∧
    compile cs rule c stance p = compile cs' rule c stance p ∧
    ∀ r : Rule, compile cs (some { r with categories := cs }) c stance p =
      compile cs' (some { r with categories := cs' }) c stance p := by
  have same := byName_eq_of_perm moved distinct
  exact ⟨competing_congr same c hand, shields_congr same c, compile_congr same rule c stance p,
    fun r => compile_congr same (some { r with categories := cs }) c stance p⟩

/-- The categories for the off hand, the last of them first. -/
def offHandsReversed : Categories := .ofList offHands.toList.reverse

/-- Two categories claim the keyword of rapiers.  Its spelling by the one that comes first by name
is excluded, also where the other one was inserted before it. -/
theorem compile_eq_of_perm_offHands : offHands.toList.Perm offHandsReversed.toList ∧
    offHandsReversed.values = [saber, rapier, parry, dualSword] ∧
    (offHands.values.map Category.name).Nodup ∧
    competing offHandsReversed saber .left = [⟨.equippedKeyword .left "WEAPTYPERAPIER", true⟩] ∧
    compile offHandsReversed none saber 0 lone = compile offHands none saber 0 lone := by
  have reversed : offHandsReversed.toList = offHands.toList.reverse := rfl
  have moved : offHands.toList.Perm offHandsReversed.toList := by
    rw [reversed]
    exact (List.reverse_perm _).symm
  have distinct : (offHands.values.map Category.name).Nodup := by decide
  have sorted : offHands.values.Pairwise fun a b => a.name ≤ b.name := by
    rw [values_offHands]
    decide
  have excluded : competing offHands saber .left =
      [⟨.equippedKeyword .left "WEAPTYPERAPIER", true⟩] := by
    rw [competing, competitors, byName_eq_of_sorted sorted]
    decide
  obtain ⟨same, _, trees, _⟩ := compile_eq_of_perm moved distinct saber .left none 0 lone
  exact ⟨moved, rfl, distinct, same ▸ excluded, trees.symm⟩

end Block

end Movesets
