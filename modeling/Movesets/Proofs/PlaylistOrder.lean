import Mathlib.Data.Prod.Lex
import Movesets.Proofs.Ordinals

set_option autoImplicit false

/-!
# What the order of a playlist holds

The order lists the selected variants at increasing positions and leaves out only the children in
front of the first parent.  Its parents are counted up from one, every child has the ordinal of the
nearest parent before it, and the number of parents is the highest ordinal.
-/

namespace Movesets

/-- Where a placement stands in its playlist: the entry first, then the variant in the entry. -/
def Placement.position (q : Placement) : ℕ ×ₗ ℕ := toLex (q.entryIndex, q.variantIndex)

namespace Playlist

/-- The variant at a position is selected, and so is its entry. -/
def SelectedAt (p : Playlist) (i j : Nat) (v : Variant) : Prop :=
  ∃ e, p[i]? = some e ∧ e.selected = true ∧ e.variants[j]? = some v ∧ v.selected = true

theorem selectedAt_iff {p : Playlist} {i j : Nat} {v : Variant} :
    p.SelectedAt i j v ↔ (i, j, v) ∈ selection p :=
  (mem_selection (x := (i, j, v))).symm

theorem pairwise_zipIdx {α : Type} (xs : List α) : xs.zipIdx.Pairwise fun a b => a.2 < b.2 := by
  have indices : (List.range' 0 xs.length).Pairwise (· < ·) := List.pairwise_lt_range' 1
  rw [← List.zipIdx_map_snd 0 xs] at indices
  exact List.pairwise_map.mp indices

theorem pairwise_selectedVariants (i : Nat) (e : Entry) :
    (selectedVariants i e).Pairwise fun x y => toLex (x.1, x.2.1) < toLex (y.1, y.2.1) := by
  rw [selectedVariants, List.pairwise_map]
  refine ((pairwise_zipIdx e.variants).filter _).imp fun before => ?_
  exact Prod.Lex.toLex_lt_toLex.mpr (Or.inr ⟨rfl, before⟩)

theorem pairwise_selection (p : Playlist) :
    (selection p).Pairwise fun x y => toLex (x.1, x.2.1) < toLex (y.1, y.2.1) := by
  rw [selection, List.pairwise_flatMap]
  refine ⟨fun e _ => pairwise_selectedVariants e.2 e.1, ?_⟩
  refine ((pairwise_zipIdx p).filter _).imp fun before x mem y mem' => ?_
  rw [(mem_selectedVariants.mp mem).1, (mem_selectedVariants.mp mem').1]
  exact Prod.Lex.toLex_lt_toLex.mpr (Or.inl before)

/-- Numbering from zero leaves out what is in front of the first parent, and nothing else. -/
theorem map_number (n : Nat) (sel : List (Nat × Nat × Variant)) :
    (number n sel).map (fun q => (q.entryIndex, q.variantIndex, q.variant)) =
      if n = 0 then sel.dropWhile fun x => !x.2.2.isParent else sel := by
  fun_induction number n sel with
  | case1 n => simp
  | case2 n i j v rest parent ih =>
    rw [List.map_cons, ih, if_neg (Nat.succ_ne_zero n),
      List.dropWhile_cons_of_neg (by simp [parent])]
    split <;> rfl
  | case3 i j v rest child ih =>
    rw [ih, if_pos rfl, if_pos rfl, List.dropWhile_cons_of_pos (by simp [child])]
  | case4 n i j v rest child some ih =>
    rw [List.map_cons, ih, if_neg some, if_neg some]

/-- Of a list in order, what follows the first element of a kind is what has one before it. -/
theorem mem_dropWhile_iff {α : Type} {R : α → α → Prop} (asymm : ∀ x y, R x y → ¬ R y x)
    {xs : List α} (sorted : xs.Pairwise R) {kind : α → Bool} {x : α} :
    x ∈ xs.dropWhile (fun y => !kind y) ↔
      x ∈ xs ∧ (kind x = true ∨ ∃ y ∈ xs, kind y = true ∧ R y x) := by
  induction xs with
  | nil => simp
  | cons a xs ih =>
    obtain ⟨first, rest⟩ := List.pairwise_cons.mp sorted
    cases found : kind a with
    | true =>
      rw [List.dropWhile_cons_of_neg (by simp [found]), iff_self_and]
      intro mem
      rcases List.mem_cons.mp mem with rfl | later
      · exact Or.inl found
      · exact Or.inr ⟨a, List.mem_cons_self, found, first x later⟩
    | false =>
      rw [List.dropWhile_cons_of_pos (by simp [found]), ih rest]
      constructor
      · rintro ⟨later, reached⟩
        refine ⟨List.mem_cons_of_mem a later, reached.imp_right ?_⟩
        rintro ⟨y, mem, kind_y, before⟩
        exact ⟨y, List.mem_cons_of_mem a mem, kind_y, before⟩
      · rintro ⟨mem, reached⟩
        have further : kind x = true ∨ ∃ y ∈ xs, kind y = true ∧ R y x := by
          refine reached.imp_right ?_
          rintro ⟨y, mem_y, kind_y, before⟩
          rcases List.mem_cons.mp mem_y with rfl | later
          · rw [found] at kind_y
            cases kind_y
          · exact ⟨y, later, kind_y, before⟩
        refine ⟨?_, further⟩
        rcases List.mem_cons.mp mem with rfl | later
        · -- nothing behind the first element is before it
          rcases further with kind_x | ⟨y, later, _, before⟩
          · rw [found] at kind_x
            cases kind_x
          · exact absurd before (asymm x y (first y later))
        · exact later

/-- The selected variants that are placed: the parents, and the children behind a parent. -/
theorem exists_mem_order_iff {p : Playlist} {i j : Nat} {v : Variant} :
    (∃ q ∈ order p, q.entryIndex = i ∧ q.variantIndex = j ∧ q.variant = v) ↔
      p.SelectedAt i j v ∧ (v.isParent = true ∨ ∃ i' j' v',
        p.SelectedAt i' j' v' ∧ v'.isParent = true ∧ toLex (i', j') < toLex (i, j)) := by
  have placed : (∃ q ∈ order p, q.entryIndex = i ∧ q.variantIndex = j ∧ q.variant = v) ↔
      (i, j, v) ∈ (order p).map fun q => (q.entryIndex, q.variantIndex, q.variant) := by
    simp [List.mem_map]
  rw [placed, order, map_number, if_pos rfl,
    mem_dropWhile_iff (fun _ _ before => lt_asymm before) (pairwise_selection p)]
  simp only [selectedAt_iff, Prod.exists]

theorem pairwise_order (p : Playlist) :
    (order p).Pairwise fun q r => q.position < r.position := by
  have kept : ((order p).map fun q => (q.entryIndex, q.variantIndex, q.variant)).Sublist
      (selection p) := by
    rw [order, map_number, if_pos rfl]
    exact List.dropWhile_sublist _
  have sorted := (pairwise_selection p).sublist kept
  rw [List.pairwise_map] at sorted
  exact sorted

theorem length_parents (p : Playlist) :
    ((order p).filter Placement.isParent).length = p.selectedParents := by
  rw [order, filter_isParent_number, List.length_map, List.length_zipIdx, selectedParents,
    parentsIn, List.countP_eq_length_filter]

theorem parentCount_eq (p : Playlist) : parentCount p = UInt32.ofNat p.selectedParents := by
  rw [parentCount, List.countP_eq_length_filter, length_parents]

theorem ordinals_parents {p : Playlist} (fits : p.selectedParents < UInt32.size) :
    ((order p).filter Placement.isParent).map (fun q => q.ordinal.toNat) =
      List.range' 1 p.selectedParents := by
  have fromZero : ((order p).filter Placement.isParent).map (fun q => q.ordinal.toNat) =
      (List.range p.selectedParents).map fun k => (UInt32.ofNat (k + 1)).toNat := by
    rw [selectedParents, parentsIn, List.countP_eq_length_filter, List.range_eq_range',
      ← List.zipIdx_map_snd, order, filter_isParent_number, List.map_map, List.map_map]
    rfl
  rw [fromZero, List.range'_eq_map_range]
  refine List.map_congr_left fun k mem => ?_
  have small : k + 1 < UInt32.size := by
    have bound := List.mem_range.mp mem
    omega
  rw [UInt32.toNat_ofNat_of_lt' small, Nat.add_comm]

/-- A child has the ordinal of the nearest parent before it, or the last one given before. -/
theorem nearest_of_number_eq {n : Nat} {sel : List (Nat × Nat × Variant)}
    {before after : List Placement} {r : Placement} (split : number n sel = before ++ r :: after)
    (child : r.isParent = false) :
    (∃ front q between, before = front ++ q :: between ∧ q.isParent = true ∧
      (∀ c ∈ between, c.isParent = false) ∧ r.ordinal = q.ordinal) ∨
    n ≠ 0 ∧ r.ordinal = UInt32.ofNat n ∧ ∀ c ∈ before, c.isParent = false := by
  fun_induction number n sel generalizing before with
  | case1 n => simp at split
  | case2 n i j v rest parent ih =>
    cases before with
    | nil =>
      obtain ⟨rfl, _⟩ := List.cons.inj split
      exact absurd (child.symm.trans parent) Bool.false_ne_true
    | cons q before =>
      obtain ⟨rfl, later⟩ := List.cons.inj split
      left
      rcases ih later with ⟨front, q, between, rfl, nearest⟩ | ⟨_, ordinal, children⟩
      · exact ⟨_ :: front, q, between, rfl, nearest⟩
      · exact ⟨[], _, before, rfl, parent, children, ordinal⟩
  | case3 i j v rest notParent ih => exact ih split
  | case4 n i j v rest notParent some ih =>
    cases before with
    | nil =>
      obtain ⟨rfl, _⟩ := List.cons.inj split
      exact Or.inr ⟨some, rfl, by simp⟩
    | cons q before =>
      obtain ⟨rfl, later⟩ := List.cons.inj split
      rcases ih later with ⟨front, q, between, rfl, nearest⟩ | ⟨_, ordinal, children⟩
      · exact Or.inl ⟨_ :: front, q, between, rfl, nearest⟩
      · refine Or.inr ⟨some, ordinal, ?_⟩
        intro c mem
        rcases List.mem_cons.mp mem with rfl | mem
        · exact Bool.eq_false_iff.mpr notParent
        · exact children c mem

theorem nearest_of_order_eq {p : Playlist} {before after : List Placement} {r : Placement}
    (split : order p = before ++ r :: after) (child : r.isParent = false) :
    ∃ front q between, before = front ++ q :: between ∧ q.isParent = true ∧
      (∀ c ∈ between, c.isParent = false) ∧ r.ordinal = q.ordinal :=
  (nearest_of_number_eq split child).resolve_right fun last => last.1 rfl

/-- Some parent has the ordinal of a placement. -/
theorem exists_parent_of_mem {p : Playlist} {r : Placement} (mem : r ∈ order p) :
    ∃ q ∈ order p, q.isParent = true ∧ q.ordinal = r.ordinal := by
  cases role : r.isParent with
  | true => exact ⟨r, mem, role, rfl⟩
  | false =>
    obtain ⟨before, after, split⟩ := List.append_of_mem mem
    obtain ⟨front, q, between, rfl, parent, _, same⟩ := nearest_of_order_eq split role
    refine ⟨q, ?_, parent, same.symm⟩
    rw [split]
    simp

theorem mem_ordinals_iff {p : Playlist} (fits : p.selectedParents < UInt32.size) (k : Nat) :
    (∃ q ∈ order p, q.ordinal.toNat = k) ↔ 1 ≤ k ∧ k ≤ p.selectedParents := by
  have parents : (∃ q ∈ order p, q.ordinal.toNat = k) ↔
      k ∈ ((order p).filter Placement.isParent).map fun q => q.ordinal.toNat := by
    rw [List.mem_map]
    constructor
    · rintro ⟨r, mem, rfl⟩
      obtain ⟨q, placed, parent, same⟩ := exists_parent_of_mem mem
      exact ⟨q, List.mem_filter.mpr ⟨placed, parent⟩, congrArg UInt32.toNat same⟩
    · rintro ⟨q, mem, rfl⟩
      exact ⟨q, (List.mem_filter.mp mem).1, rfl⟩
  rw [parents, ordinals_parents fits, List.mem_range'_1]
  omega

/-- As long as ordinals fit 32 bits, the order of a playlist lists, at strictly increasing
positions, just the selected variants that are parents or stand behind one.  The parents are
numbered from one without a gap, every child has the ordinal of the nearest parent before it, and
the number of parents is the highest ordinal. -/
theorem order_numbers_selection (p : Playlist) (fits : p.selectedParents < UInt32.size) :
    let parents := (order p).filter Placement.isParent
    (order p).Pairwise (fun q r => q.position < r.position) ∧
    (∀ i j v, (∃ q ∈ order p, q.entryIndex = i ∧ q.variantIndex = j ∧ q.variant = v) ↔
      p.SelectedAt i j v ∧ (v.isParent = true ∨ ∃ i' j' v',
        p.SelectedAt i' j' v' ∧ v'.isParent = true ∧ toLex (i', j') < toLex (i, j))) ∧
    parents.map (fun q => q.ordinal.toNat) = List.range' 1 parents.length ∧
    (∀ before r after, order p = before ++ r :: after → r.isParent = false →
      ∃ front q between, before = front ++ q :: between ∧ q.isParent = true ∧
        (∀ c ∈ between, c.isParent = false) ∧ r.ordinal = q.ordinal) ∧
    (parentCount p).toNat = parents.length ∧
    (∀ q ∈ order p, q.ordinal ≤ parentCount p) ∧
    (order p ≠ [] → ∃ q ∈ order p, q.ordinal = parentCount p) := by
  intro parents
  have count : parents.length = p.selectedParents := length_parents p
  have highest : (parentCount p).toNat = p.selectedParents := by
    rw [parentCount_eq, UInt32.toNat_ofNat_of_lt' fits]
  refine ⟨pairwise_order p, fun _ _ _ => exists_mem_order_iff, ?_, fun _ _ _ => nearest_of_order_eq,
    highest.trans count.symm, ?_, ?_⟩
  · rw [count]
    exact ordinals_parents fits
  · intro q mem
    rw [UInt32.le_iff_toNat_le, highest]
    exact ((mem_ordinals_iff fits q.ordinal.toNat).mp ⟨q, mem, rfl⟩).2
  · intro nonempty
    obtain ⟨q, mem⟩ := List.exists_mem_of_ne_nil _ nonempty
    obtain ⟨one, bound⟩ := (mem_ordinals_iff fits q.ordinal.toNat).mp ⟨q, mem, rfl⟩
    obtain ⟨r, placed, last⟩ :=
      (mem_ordinals_iff fits p.selectedParents).mpr ⟨one.trans bound, le_rfl⟩
    exact ⟨r, placed, UInt32.toNat_inj.mp (last.trans highest.symm)⟩

/-- A child in front of every parent, a parent beside one that is not selected, an entry that is not
selected, and an entry that begins with a child of the first parent. -/
def scattered : Playlist :=
  [.plain "Feint" [.plain ⟨0, 0⟩ (.ofFlags ⟨1⟩ false false)],
    .plain "Slash" [.plain ⟨0, 1⟩ .parent, { Variant.plain ⟨0, 2⟩ .parent with selected := false }],
    { Entry.plain "Rest" [.plain ⟨0, 3⟩ .parent] with selected := false },
    .plain "Riposte" [.plain ⟨0, 4⟩ (.ofFlags ⟨1⟩ false false), .plain ⟨0, 5⟩ .parent]]

theorem order_numbers_selection_scattered : scattered.selectedParents < UInt32.size ∧
    (order scattered).map (fun q => (q.position, q.ordinal)) =
      [(toLex (1, 0), 1), (toLex (3, 0), 1), (toLex (3, 1), 2)] ∧
    (parentCount scattered).toNat = 2 ∧
    ∃ q ∈ order scattered, q.ordinal = parentCount scattered := by
  have fits : scattered.selectedParents < UInt32.size := by decide
  obtain ⟨_, _, _, _, count, _, highest⟩ := order_numbers_selection scattered fits
  exact ⟨fits, rfl, count, highest (by decide)⟩

end Playlist

end Movesets
