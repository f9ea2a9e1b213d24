import Movesets.Proofs.Gates
import Movesets.Proofs.Ordinals
import Movesets.Proofs.Shared

set_option autoImplicit false

/-!
# Blocks of a stance

The block at a position of a compiled stance is that of the placement at the same position.  It
holds when the shared conditions hold, the ordinal is the active one and the gates are as the
placement wants them.
-/

namespace Movesets.Block
open Condition RuntimeState Playlist

variable {cs : Categories} {rule : Option Rule} {c : Category} {stance : Nat} {p : Playlist}

theorem getElem?_ofPlacements (shared : List Condition) (ps : List Placement) (i : Nat) :
    (ofPlacements shared ps)[i]? =
      (ps[i]?).map fun q => ofPlacement shared q (ps.drop (i + 1)) := by
  induction ps generalizing i with
  | nil => rfl
  | cons q ps ih =>
    cases i with
    | zero => rfl
    | succ i => exact ih i

theorem placement_of_getElem? {i : Nat} {b : Block}
    (h : (compileAll cs rule c stance p)[i]? = some b) : ∃ q, (order p)[i]? = some q ∧
      b = ofPlacement (shared cs rule c stance) q ((order p).drop (i + 1)) := by
  rw [compileAll, getElem?_ofPlacements, Option.map_eq_some_iff] at h
  obtain ⟨q, at_i, rfl⟩ := h
  exact ⟨q, at_i, rfl⟩

/-- Blocks and placements agree in entry, ordinal and being a parent. -/
theorem exists_mem_compileAll (cs : Categories) (rule : Option Rule) (c : Category) (stance : Nat)
    (p : Playlist) (Q : Nat → UInt32 → Bool → Prop) :
    (∃ b ∈ compileAll cs rule c stance p, Q b.entryIndex b.ordinal b.isParent) ↔
      ∃ q ∈ order p, Q q.entryIndex q.ordinal q.isParent := by
  constructor
  · rintro ⟨b, mem, property⟩
    obtain ⟨i, at_i⟩ := List.mem_iff_getElem?.mp mem
    obtain ⟨q, placed, rfl⟩ := placement_of_getElem? at_i
    exact ⟨q, List.mem_of_getElem? placed, property⟩
  · rintro ⟨q, mem, property⟩
    obtain ⟨i, placed⟩ := List.mem_iff_getElem?.mp mem
    have at_i : (compileAll cs rule c stance p)[i]? =
        some (ofPlacement (shared cs rule c stance) q ((order p).drop (i + 1))) := by
      rw [compileAll, getElem?_ofPlacements, placed, Option.map_some]
    exact ⟨_, List.mem_of_getElem? at_i, property⟩

theorem ofPlacement_holds_iff (s : RuntimeState) (shared : List Condition) (q : Placement)
    (rest : List Placement) : (ofPlacement shared q rest).condition.holds s = true ↔
      s.Meets shared ∧ s.value .playlistOrder = q.ordinal.toInt32 ∧ s.Meets (gateParts q rest) := by
  rw [condition_holds_iff, ofPlacement, meets_append, meets_append, meets_cons, equals_holds_iff,
    and_assoc]
  simp only [meets_nil, and_true]

theorem meets_shared_of_mem {b : Block} (hb : b ∈ compileAll cs rule c stance p)
    {s : RuntimeState} (holds : b.condition.holds s = true) :
    s.Meets (shared cs rule c stance) := by
  obtain ⟨i, at_i⟩ := List.mem_iff_getElem?.mp hb
  obtain ⟨q, _, rfl⟩ := placement_of_getElem? at_i
  exact ((ofPlacement_holds_iff s _ q _).mp holds).1

theorem wields_of_holds {b : Block} (hb : b ∈ compileAll cs rule c stance p) {s : RuntimeState}
    (holds : b.condition.holds s = true) : Wields cs c s :=
  ((meets_shared s cs rule c stance).mp (meets_shared_of_mem hb holds)).2.2.1

theorem gateParts_parent {q : Placement} (parent : q.isParent = true) (rest : List Placement) :
    gateParts q rest = parentParts q.ordinal (childGates rest) := by
  unfold gateParts
  cases role : q.variant.role with
  | parent => rfl
  | child g => simp [Placement.isParent, Variant.isParent, role, Role.isParent] at parent

theorem gateParts_child {q : Placement} {g : Gate} (child : q.variant.role = .child g)
    (rest : List Placement) : gateParts q rest = childParts q.ordinal g := by
  unfold gateParts
  rw [child]

theorem exists_gate {q : Placement} (child : q.isParent = false) :
    ∃ g, q.variant.role = .child g := by
  cases role : q.variant.role with
  | parent => simp [Placement.isParent, Variant.isParent, role, Role.isParent] at child
  | child g => exact ⟨g, rfl⟩

def variant? (p : Playlist) (b : Block) : Option Variant :=
  (p[b.entryIndex]?).bind fun e => e.variants[b.variantIndex]?

theorem variant?_ofPlacement {q : Placement} (mem : q ∈ order p) (shared : List Condition)
    (rest : List Placement) : (ofPlacement shared q rest).variant? p = some q.variant := by
  obtain ⟨e, entry, _, variant, _⟩ := entry_of_mem_order mem
  simp only [variant?, ofPlacement, entry, Option.bind_some, variant]

end Movesets.Block
