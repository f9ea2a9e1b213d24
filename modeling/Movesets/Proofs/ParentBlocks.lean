import Movesets.Proofs.PlaylistOrder
import Movesets.Proofs.ShownName

set_option autoImplicit false

/-!
# When a parent holds

A parent steps aside while a gate of one of its children has an open part, and for no other reason.
Its children are the blocks up to the next parent, which are those of its ordinal.  Where every
child waits for one kind of thing, a parent that steps aside leaves the place to one of them.
-/

namespace Movesets
open RuntimeState Playlist

namespace Gate

/-- The gate has parts of one kind: directions, movement or the random pick. -/
def OneKind (g : Gate) : Prop :=
  g.movement = false ∧ g.random = false ∨
  g.directions.isEmpty = true ∧ g.random = false ∨
  g.directions.isEmpty = true ∧ g.movement = false

instance (g : Gate) : Decidable g.OneKind := by
  unfold OneKind; infer_instance

theorem not_hasValue_of_isEmpty {d : Directions} (empty : d.isEmpty = true) (value : Int32) :
    ¬ d.HasValue value := by
  rintro ⟨code, has, _⟩
  rw [d.isEmpty_iff.mp empty code] at has
  cases has

theorem OneKind.allOpen_iff {g : Gate} (single : g.OneKind) (ordinal : UInt32) (s : RuntimeState) :
    g.AllOpen ordinal s ↔ g.AnyOpen ordinal s := by
  refine ⟨AllOpen.anyOpen, fun some => ?_⟩
  rcases single with ⟨movement, random⟩ | ⟨empty, random⟩ | ⟨empty, movement⟩
  · have directions : g.directions.HasValue (s.value .direction) := by
      simpa [AnyOpen, movement, random] using some
    exact ⟨Or.inr directions, by simp [movement], by simp [random]⟩
  · have moving : g.movement = true ∧ s.moving = true := by
      simpa [AnyOpen, random, not_hasValue_of_isEmpty empty] using some
    exact ⟨Or.inl empty, fun _ => moving.2, by simp [random]⟩
  · have picked : g.random = true ∧ s.value .randomSelector = ordinal.toInt32 := by
      simpa [AnyOpen, movement, not_hasValue_of_isEmpty empty] using some
    exact ⟨Or.inl empty, by simp [movement], fun _ => picked.2⟩

end Gate

namespace Playlist

theorem nodup_order (p : Playlist) : (order p).Nodup :=
  (pairwise_order p).imp fun before same => (congrArg Placement.position same).not_lt before

variable {p : Playlist} {i : Nat} {q x : Placement}

theorem ordinal_of_mem_children (hq : (order p)[i]? = some q)
    (mem : x ∈ ((order p).drop (i + 1)).takeWhile fun r => !r.isParent) :
    x.ordinal = q.ordinal := by
  obtain ⟨m, sel, drop, ordinal, _⟩ := drop_number hq
  rw [order, drop] at mem
  rw [ordinal_of_mem_takeWhile mem, ordinal]

/-- No placement before a parent has its ordinal. -/
theorem ordinal_ne_of_lt (fits : p.selectedParents < UInt32.size) (hq : (order p)[i]? = some q)
    (parent : q.isParent = true) {j : Nat} (before : j < i) (hx : (order p)[j]? = some x) :
    x.ordinal ≠ q.ordinal := by
  intro same
  have child := List.mem_takeWhile_imp (mem_children_of_ordinal_eq fits before hx hq same)
  rw [parent] at child
  cases child

/-- No placement from the next parent on has the ordinal of a placement. -/
theorem ordinal_ne_of_mem_dropWhile (fits : p.selectedParents < UInt32.size)
    (hq : (order p)[i]? = some q)
    (mem : x ∈ ((order p).drop (i + 1)).dropWhile fun r => !r.isParent) :
    x.ordinal ≠ q.ordinal := by
  intro same
  have nodup : ((order p).drop (i + 1)).Nodup := (nodup_order p).sublist (List.drop_sublist _ _)
  obtain ⟨j, at_j⟩ := List.mem_iff_getElem?.mp ((List.dropWhile_sublist _).subset mem)
  rw [List.getElem?_drop] at at_j
  have inFront := mem_children_of_ordinal_eq fits (show i < i + 1 + j by omega) hq at_j same.symm
  rw [← List.takeWhile_append_dropWhile (p := fun r => !r.isParent) (l := (order p).drop (i + 1)),
    List.nodup_append] at nodup
  exact nodup.2.2 x inFront x mem rfl

end Playlist

namespace Block

/-- The blocks behind a place up to the next parent. -/
def childrenAt (blocks : List Block) (i : Nat) : List Block :=
  (blocks.drop (i + 1)).takeWhile fun r => !r.isParent

/-- The gate of the variant of a block, if it is a child. -/
def gate? (p : Playlist) (b : Block) : Option Gate := (b.variant? p).bind fun v => v.role.gate?

section

variable {shared : List Condition} {ps : List Placement}

theorem mem_takeWhile_not_iff {α : Type} {f : α → Bool} {l : List α} {x : α} :
    x ∈ l.takeWhile (fun y => !f y) ↔ ∃ i, i < l.findIdx f ∧ l[i]? = some x := by
  rw [List.takeWhile_eq_take_findIdx_not, List.mem_iff_getElem?]
  simp only [Bool.not_not, List.getElem?_take, Option.ite_none_right_eq_some]

theorem drop_ofPlacements (shared : List Condition) (ps : List Placement) (n : Nat) :
    (ofPlacements shared ps).drop n = ofPlacements shared (ps.drop n) := by
  induction ps generalizing n with
  | nil => simp [ofPlacements]
  | cons q ps ih =>
    cases n with
    | zero => rfl
    | succ n => exact ih n

theorem findIdx_ofPlacements (shared : List Condition) (ps : List Placement) :
    (ofPlacements shared ps).findIdx Block.isParent = ps.findIdx Placement.isParent := by
  induction ps with
  | nil => rfl
  | cons q ps ih =>
    have role : (ofPlacement shared q ps).isParent = q.isParent := rfl
    rw [ofPlacements, List.findIdx_cons, List.findIdx_cons, role, ih]

theorem dropWhile_ofPlacements (shared : List Condition) (ps : List Placement) :
    (ofPlacements shared ps).dropWhile (fun r => !r.isParent) =
      ofPlacements shared (ps.dropWhile fun q => !q.isParent) := by
  simp only [List.dropWhile_eq_drop_findIdx_not, Bool.not_not, findIdx_ofPlacements,
    drop_ofPlacements]

theorem exists_placement {r : Block} (mem : r ∈ ofPlacements shared ps) :
    ∃ q ∈ ps, ∃ rest, r = ofPlacement shared q rest := by
  obtain ⟨i, at_i⟩ := List.mem_iff_getElem?.mp mem
  rw [getElem?_ofPlacements, Option.map_eq_some_iff] at at_i
  obtain ⟨q, placed, rfl⟩ := at_i
  exact ⟨q, List.mem_of_getElem? placed, _, rfl⟩

theorem exists_child_placement {r : Block}
    (mem : r ∈ (ofPlacements shared ps).takeWhile fun r => !r.isParent) :
    ∃ q ∈ ps.takeWhile fun q => !q.isParent, ∃ rest, r = ofPlacement shared q rest := by
  obtain ⟨i, bound, at_i⟩ := mem_takeWhile_not_iff.mp mem
  rw [findIdx_ofPlacements] at bound
  rw [getElem?_ofPlacements, Option.map_eq_some_iff] at at_i
  obtain ⟨q, placed, rfl⟩ := at_i
  exact ⟨q, mem_takeWhile_not_iff.mpr ⟨i, bound, placed⟩, _, rfl⟩

theorem exists_child_block (shared : List Condition) {q : Placement}
    (mem : q ∈ ps.takeWhile fun q => !q.isParent) :
    ∃ rest, ofPlacement shared q rest ∈
      (ofPlacements shared ps).takeWhile fun r => !r.isParent := by
  obtain ⟨i, bound, placed⟩ := mem_takeWhile_not_iff.mp mem
  refine ⟨ps.drop (i + 1), mem_takeWhile_not_iff.mpr ⟨i, ?_, ?_⟩⟩
  · rwa [findIdx_ofPlacements]
  · rw [getElem?_ofPlacements, placed, Option.map_some]

end

variable {cs : Categories} {rule : Option Rule} {c : Category} {stance : Nat} {p : Playlist}
  {i : Nat} {b : Block}

/-- The blocks of a stance around a place: those before it, its own, those up to the next parent,
and those from there on. -/
theorem compileAll_eq_append (hb : (compileAll cs rule c stance p)[i]? = some b) :
    compileAll cs rule c stance p = (compileAll cs rule c stance p).take i ++
      b :: (childrenAt (compileAll cs rule c stance p) i ++ ofPlacements (shared cs rule c stance)
        (((order p).drop (i + 1)).dropWhile fun x => !x.isParent)) := by
  obtain ⟨bound, at_i⟩ := List.getElem?_eq_some_iff.mp hb
  rw [← dropWhile_ofPlacements, ← drop_ofPlacements, ← compileAll, childrenAt,
    List.takeWhile_append_dropWhile, ← at_i, ← List.drop_eq_getElem_cons bound,
    List.take_append_drop]

/-- Up to the next parent stand the children of its ordinal, and the stance has no others. -/
theorem childrenAt_eq_filter (fits : p.selectedParents < UInt32.size)
    (hb : (compileAll cs rule c stance p)[i]? = some b) (parent : b.isParent = true) :
    childrenAt (compileAll cs rule c stance p) i =
      (compileAll cs rule c stance p).filter fun r => !r.isParent && r.ordinal == b.ordinal := by
  obtain ⟨q, hq, same⟩ := placement_of_getElem? hb
  have role : q.isParent = true := by rwa [same] at parent
  have ordinal : b.ordinal = q.ordinal := congrArg Block.ordinal same
  have front : ((compileAll cs rule c stance p).take i).filter
      (fun r => !r.isParent && r.ordinal == b.ordinal) = [] := by
    rw [List.filter_eq_nil_iff]
    intro r mem
    obtain ⟨j, at_j⟩ := List.mem_iff_getElem?.mp mem
    rw [List.getElem?_take, Option.ite_none_right_eq_some] at at_j
    obtain ⟨x, hx, rfl⟩ := placement_of_getElem? at_j.2
    simp [ofPlacement, ordinal, ordinal_ne_of_lt fits hq role at_j.1 hx]
  have between : (childrenAt (compileAll cs rule c stance p) i).filter
      (fun r => !r.isParent && r.ordinal == b.ordinal) =
        childrenAt (compileAll cs rule c stance p) i := by
    rw [List.filter_eq_self]
    intro r mem
    have child := List.mem_takeWhile_imp mem
    rw [childrenAt, compileAll, drop_ofPlacements] at mem
    obtain ⟨x, inFront, rest, rfl⟩ := exists_child_placement mem
    rw [Bool.and_eq_true, beq_iff_eq, ordinal]
    exact ⟨child, ordinal_of_mem_children hq inFront⟩
  have back : (ofPlacements (shared cs rule c stance)
      (((order p).drop (i + 1)).dropWhile fun x => !x.isParent)).filter
        (fun r => !r.isParent && r.ordinal == b.ordinal) = [] := by
    rw [List.filter_eq_nil_iff]
    intro r mem
    obtain ⟨x, behind, rest, rfl⟩ := exists_placement mem
    simp [ofPlacement, ordinal, ordinal_ne_of_mem_dropWhile fits hq behind]
  conv => rhs; rw [compileAll_eq_append hb]
  rw [List.filter_append, front, List.filter_cons_of_neg (by simp [parent]), List.filter_append,
    between, back, List.nil_append, List.append_nil]

theorem gate?_ofPlacement {x : Placement} (placed : x ∈ order p) {g : Gate}
    (role : x.variant.role = .child g) (shared : List Condition) (rest : List Placement) :
    (ofPlacement shared x rest).gate? p = some g := by
  rw [gate?, variant?_ofPlacement placed, Option.bind_some, role, Role.gate?]

/-- A child of a parent holds at the ordinal of the parent when its gate is open in full. -/
theorem exists_gate_of_mem_childrenAt (hb : (compileAll cs rule c stance p)[i]? = some b)
    {r : Block} (mem : r ∈ childrenAt (compileAll cs rule c stance p) i) :
    ∃ g ∈ childGates ((order p).drop (i + 1)), r.gate? p = some g ∧
      ∀ s : RuntimeState, r.condition.holds s = true ↔
        s.Meets (shared cs rule c stance) ∧ s.value .playlistOrder = b.ordinal.toInt32 ∧
          g.AllOpen b.ordinal s := by
  obtain ⟨q, hq, rfl⟩ := placement_of_getElem? hb
  rw [childrenAt, compileAll, drop_ofPlacements] at mem
  obtain ⟨x, between, rest, rfl⟩ := exists_child_placement mem
  obtain ⟨g, role⟩ := exists_gate_of_mem_takeWhile between
  have placed : x ∈ order p :=
    (List.drop_subset _ _) ((List.takeWhile_prefix _).subset between)
  refine ⟨g, mem_childGates.mpr ⟨x, between, role⟩, gate?_ofPlacement placed role _ rest, ?_⟩
  intro s
  rw [child_holds_iff s _ role, ordinal_of_mem_children hq between]
  rfl

theorem exists_child_of_mem_childGates (cs : Categories) (rule : Option Rule) (c : Category)
    (stance : Nat) {g : Gate} (mem : g ∈ childGates ((order p).drop (i + 1))) :
    ∃ r ∈ childrenAt (compileAll cs rule c stance p) i, r.gate? p = some g := by
  obtain ⟨x, between, role⟩ := mem_childGates.mp mem
  have placed : x ∈ order p :=
    (List.drop_subset _ _) ((List.takeWhile_prefix _).subset between)
  obtain ⟨rest, child⟩ := exists_child_block (shared cs rule c stance) between
  rw [← drop_ofPlacements] at child
  exact ⟨_, child, gate?_ofPlacement placed role _ rest⟩

/-- A parent holds unless a gate of one of its children has an open part. -/
theorem parent_holds_iff (hb : (compileAll cs rule c stance p)[i]? = some b)
    (parent : b.isParent = true) (s : RuntimeState) : b.condition.holds s = true ↔
      s.Meets (shared cs rule c stance) ∧ s.value .playlistOrder = b.ordinal.toInt32 ∧
        ∀ r ∈ childrenAt (compileAll cs rule c stance p) i, ∃ g, r.gate? p = some g ∧
          ¬ g.AnyOpen b.ordinal s := by
  have gates : (∀ g ∈ childGates ((order p).drop (i + 1)), ¬ g.AnyOpen b.ordinal s) ↔
      ∀ r ∈ childrenAt (compileAll cs rule c stance p) i, ∃ g, r.gate? p = some g ∧
        ¬ g.AnyOpen b.ordinal s := by
    constructor
    · intro shut r mem
      obtain ⟨g, waits, gate, _⟩ := exists_gate_of_mem_childrenAt hb mem
      exact ⟨g, gate, shut g waits⟩
    · intro shut g waits
      obtain ⟨r, mem, gate⟩ := exists_child_of_mem_childGates cs rule c stance waits
      obtain ⟨g', gate', closed⟩ := shut r mem
      rw [gate] at gate'
      cases gate'
      exact closed
  rw [← gates]
  obtain ⟨q, _, rfl⟩ := placement_of_getElem? hb
  have role : q.isParent = true := parent
  rw [ofPlacement_holds_iff, gateParts_parent role, meets_parentParts]
  rfl

/-- A parent block holds exactly when the shared conditions do, its ordinal is the active one and no
gate of its children has an open part.  Its children, the blocks up to the next parent, are those of
its ordinal as long as ordinals fit 32 bits.  If each waits for one kind of thing alone, then at
this ordinal either the parent holds or some of its children do. -/
theorem parent_steps_aside (cs : Categories) (rule : Option Rule) (c : Category) (stance : Nat)
    (p : Playlist) {i : Nat} {b : Block} (hb : (compileAll cs rule c stance p)[i]? = some b)
    (parent : b.isParent = true) :
    let blocks := compileAll cs rule c stance p
    let children := childrenAt blocks i
    (p.selectedParents < UInt32.size →
      children = blocks.filter fun r => !r.isParent && r.ordinal == b.ordinal) ∧
    (∀ s : RuntimeState, b.condition.holds s = true ↔
      s.Meets (shared cs rule c stance) ∧ s.value .playlistOrder = b.ordinal.toInt32 ∧
        ∀ r ∈ children, ∃ g, r.gate? p = some g ∧ ¬ g.AnyOpen b.ordinal s) ∧
    ((∀ r ∈ children, ∀ g, r.gate? p = some g → g.OneKind) →
      ∀ s : RuntimeState, s.Meets (shared cs rule c stance) →
        s.value .playlistOrder = b.ordinal.toInt32 →
          (b.condition.holds s = true ∨ ∃ r ∈ children, r.condition.holds s = true) ∧
          ¬ (b.condition.holds s = true ∧ ∃ r ∈ children, r.condition.holds s = true)) := by
  intro blocks children
  refine ⟨fun fits => childrenAt_eq_filter fits hb parent, parent_holds_iff hb parent, ?_⟩
  intro single s meets active
  have holds : b.condition.holds s = true ↔ ∀ r ∈ children, ¬ r.condition.holds s = true := by
    rw [parent_holds_iff hb parent]
    simp only [meets, active, true_and]
    refine forall₂_congr fun r mem => ?_
    obtain ⟨g, _, gate, open_iff⟩ := exists_gate_of_mem_childrenAt hb mem
    rw [open_iff s, (single r mem g gate).allOpen_iff]
    simp [gate, meets, active]
  rw [holds]
  constructor
  · by_cases shown : ∃ r ∈ children, r.condition.holds s = true
    · exact Or.inr shown
    · exact Or.inl fun r mem holds => shown ⟨r, mem, holds⟩
  · rintro ⟨away, r, mem, shown⟩
    exact away r mem shown

/-- A parent with a child for the front, one for movement and, in the next entry, one for the random
pick, then a parent with a child to the right. -/
def fanned : Playlist :=
  [.plain "Moveset" [.plain ⟨0, 0⟩ .parent, .plain ⟨0, 1⟩ (.ofFlags ⟨1⟩ false false),
      .plain ⟨0, 2⟩ (.ofFlags ⟨0⟩ false true)],
    .plain "Finisher" [.plain ⟨0, 3⟩ (.ofFlags ⟨0⟩ true false), .plain ⟨0, 4⟩ .parent,
      .plain ⟨0, 5⟩ (.ofFlags ⟨4⟩ false false)]]

/-- On the move to the right the first parent steps aside for children of its own. -/
theorem parent_steps_aside_fanned :
    let blocks := compileAll .builtIn none (.plain "Sword" 1) 0 fanned
    let s := underway swordsman 1 3
    ∃ b, blocks[0]? = some b ∧ b.isParent = true ∧ fanned.selectedParents < UInt32.size ∧
      (∀ r ∈ childrenAt blocks 0, ∀ g, r.gate? fanned = some g → g.OneKind) ∧
      s.Meets (shared .builtIn none (.plain "Sword" 1) 0) ∧ b.condition.holds s = false ∧
      ∃ r ∈ blocks, r.isParent = false ∧ r.ordinal = b.ordinal ∧ r.condition.holds s = true := by
  intro blocks s
  obtain ⟨b, hb⟩ : ∃ b, blocks[0]? = some b := ⟨_, rfl⟩
  obtain ⟨parent, first⟩ : b.isParent = true ∧ b.ordinal = 1 := by
    cases hb
    exact ⟨rfl, rfl⟩
  have fits : fanned.selectedParents < UInt32.size := by decide
  have single : ∀ r ∈ childrenAt blocks 0, ∀ g ∈ r.gate? fanned, g.OneKind := by decide
  have meets : s.Meets (shared .builtIn none (.plain "Sword" 1) 0) :=
    (meets_shared_underway swordsman 1 3).mpr swordsman_meets_shared
  have active : s.value .playlistOrder = b.ordinal.toInt32 := by
    rw [first]
    rfl
  obtain ⟨ofOrdinal, holds_iff, either⟩ :=
    parent_steps_aside .builtIn none (.plain "Sword" 1) 0 fanned hb parent
  have aside : ¬ b.condition.holds s = true := by
    intro holds
    obtain ⟨g, gate, shut⟩ := ((holds_iff s).mp holds).2.2 _ (List.mem_of_getElem? (i := 1) rfl)
    cases gate
    exact shut (Or.inr (Or.inl ⟨rfl, rfl⟩))
  obtain ⟨r, mem, shown⟩ := (either single s meets active).1.resolve_left aside
  rw [ofOrdinal fits, List.mem_filter, Bool.and_eq_true, Bool.not_eq_true', beq_iff_eq] at mem
  exact ⟨b, hb, parent, fits, single, meets, Bool.not_eq_true _ ▸ aside, r, mem.1, mem.2.1, mem.2.2,
    shown⟩

end Block

end Movesets
