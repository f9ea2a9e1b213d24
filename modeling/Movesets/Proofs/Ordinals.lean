import Movesets.Playlist.Order

set_option autoImplicit false

/-!
# Ordinals of placements

Numbering goes through a selection with the number of parents seen so far.  Behind each placement
the rest of the order is again a numbering, of what is left of the selection, and that number never
passes the number of all parents.  As long as this fits into 32 bits, placements of one ordinal are
a parent and the children in front of the next parent.
-/

namespace Movesets.Playlist

def parentsIn (sel : List (Nat × Nat × Variant)) : Nat :=
  sel.countP fun v => v.2.2.isParent

def selectedParents (p : Playlist) : Nat := parentsIn (selection p)

@[simp] theorem parentsIn_cons (i j : Nat) (v : Variant) (rest : List (Nat × Nat × Variant)) :
    parentsIn ((i, j, v) :: rest) = (if v.isParent then 1 else 0) + parentsIn rest := by
  simp only [parentsIn, List.countP_cons]
  omega

/-- Behind a placement of ordinal `m` stands the numbering from `m` of the rest of the selection. -/
theorem drop_number {n i : Nat} {sel : List (Nat × Nat × Variant)} {q : Placement}
    (h : (number n sel)[i]? = some q) : ∃ m rest,
      (number n sel).drop (i + 1) = number m rest ∧ q.ordinal = UInt32.ofNat m ∧
        m + parentsIn rest = n + parentsIn sel := by
  fun_induction number n sel generalizing i with
  | case1 n => simp at h
  | case2 n a b v rest parent ih =>
    cases i with
    | zero =>
      obtain rfl := Option.some.inj h
      refine ⟨n + 1, rest, rfl, rfl, ?_⟩
      rw [parentsIn_cons, if_pos parent]
      omega
    | succ i =>
      obtain ⟨m, rest', drop, ordinal, total⟩ := ih (by simpa using h)
      refine ⟨m, rest', drop, ordinal, ?_⟩
      rw [total, parentsIn_cons, if_pos parent]
      omega
  | case3 a b v rest child ih =>
    obtain ⟨m, rest', drop, ordinal, total⟩ := ih h
    refine ⟨m, rest', drop, ordinal, ?_⟩
    rw [total, parentsIn_cons, if_neg child]
    omega
  | case4 n a b v rest child some ih =>
    cases i with
    | zero =>
      obtain rfl := Option.some.inj h
      refine ⟨n, rest, rfl, rfl, ?_⟩
      rw [parentsIn_cons, if_neg child]
      omega
    | succ i =>
      obtain ⟨m, rest', drop, ordinal, total⟩ := ih (by simpa using h)
      refine ⟨m, rest', drop, ordinal, ?_⟩
      rw [total, parentsIn_cons, if_neg child]
      omega

/-- In a numbering from `m` only the children in front of the first parent are numbered `m`. -/
theorem ordinal_of_mem_number {m : Nat} {sel : List (Nat × Nat × Variant)} {q : Placement}
    (h : q ∈ number m sel) : ∃ k, q.ordinal = UInt32.ofNat k ∧ k ≤ m + parentsIn sel ∧
      (m < k ∨ k = m ∧ q ∈ (number m sel).takeWhile fun r => !r.isParent) := by
  fun_induction number m sel with
  | case1 m => simp at h
  | case2 m a b v rest parent ih =>
    rw [parentsIn_cons, if_pos parent]
    rcases List.mem_cons.mp h with rfl | later
    · exact ⟨m + 1, rfl, by omega, Or.inl (by omega)⟩
    · obtain ⟨k, ordinal, bound, place⟩ := ih later
      exact ⟨k, ordinal, by omega, Or.inl (by omega)⟩
  | case3 a b v rest child ih =>
    obtain ⟨k, ordinal, bound, place⟩ := ih h
    rw [parentsIn_cons, if_neg child]
    exact ⟨k, ordinal, by omega, place⟩
  | case4 m a b v rest child some ih =>
    have shown : (!Placement.isParent ⟨a, b, v, UInt32.ofNat m⟩) = true := by
      simpa [Placement.isParent] using child
    rw [parentsIn_cons, if_neg child, List.takeWhile_cons, if_pos shown]
    rcases List.mem_cons.mp h with rfl | later
    · exact ⟨m, rfl, by omega, Or.inr ⟨rfl, List.mem_cons_self⟩⟩
    · obtain ⟨k, ordinal, bound, place⟩ := ih later
      refine ⟨k, ordinal, by omega, ?_⟩
      exact place.imp_right fun h => ⟨h.1, List.mem_cons_of_mem _ h.2⟩

theorem ofNat_inj_of_le {a b n : Nat} (ha : a ≤ n) (hb : b ≤ n) (hn : n < UInt32.size)
    (h : UInt32.ofNat a = UInt32.ofNat b) : a = b := by
  have h' : (UInt32.ofNat a).toNat = (UInt32.ofNat b).toNat := congrArg UInt32.toNat h
  rwa [UInt32.toNat_ofNat_of_lt' (Nat.lt_of_le_of_lt ha hn),
    UInt32.toNat_ofNat_of_lt' (Nat.lt_of_le_of_lt hb hn)] at h'

/-- Of two placements of one ordinal the later is a child, with no parent between them. -/
theorem mem_children_of_ordinal_eq {p : Playlist} (hp : p.selectedParents < UInt32.size) {i j : Nat}
    (hij : i < j) {q r : Placement} (hq : (order p)[i]? = some q) (hr : (order p)[j]? = some r)
    (same : q.ordinal = r.ordinal) :
    r ∈ ((order p).drop (i + 1)).takeWhile fun r => !r.isParent := by
  obtain ⟨m, rest, drop, ordinal, total⟩ := drop_number hq
  have mem : r ∈ number m rest := by
    have at_j : ((order p).drop (i + 1))[j - (i + 1)]? = some r := by
      rw [List.getElem?_drop, show i + 1 + (j - (i + 1)) = j by omega]
      exact hr
    rw [order, drop] at at_j
    exact List.mem_of_getElem? at_j
  obtain ⟨k, ordinal', bound, place⟩ := ordinal_of_mem_number mem
  rw [Nat.zero_add] at total
  have eq : m = k := by
    refine ofNat_inj_of_le ?_ ?_ hp (by rw [← ordinal, ← ordinal', same])
    · rw [selectedParents, ← total]
      omega
    · rw [selectedParents, ← total]
      exact bound
  rw [order, drop]
  rcases place with later | ⟨_, here⟩
  · omega
  · exact here

theorem mem_selectedVariants {i : Nat} {e : Entry} {x : Nat × Nat × Variant} :
    x ∈ selectedVariants i e ↔
      x.1 = i ∧ e.variants[x.2.1]? = some x.2.2 ∧ x.2.2.selected = true := by
  obtain ⟨a, b, v⟩ := x
  simp only [selectedVariants, List.mem_map, List.mem_filter, List.mem_zipIdx_iff_getElem?,
    Prod.exists, Prod.mk.injEq]
  constructor
  · rintro ⟨w, k, ⟨at_k, selected⟩, rfl, rfl, rfl⟩
    exact ⟨rfl, at_k, selected⟩
  · rintro ⟨rfl, at_b, selected⟩
    exact ⟨v, b, ⟨at_b, selected⟩, rfl, rfl, rfl⟩

theorem mem_selection {p : Playlist} {x : Nat × Nat × Variant} :
    x ∈ selection p ↔ ∃ e, p[x.1]? = some e ∧ e.selected = true ∧
      e.variants[x.2.1]? = some x.2.2 ∧ x.2.2.selected = true := by
  simp only [selection, List.mem_flatMap, List.mem_filter, List.mem_zipIdx_iff_getElem?,
    Prod.exists, mem_selectedVariants]
  constructor
  · rintro ⟨e, i, ⟨at_i, selected⟩, rfl, variant⟩
    exact ⟨e, at_i, selected, variant⟩
  · rintro ⟨e, at_i, selected, variant⟩
    exact ⟨e, x.1, ⟨at_i, selected⟩, rfl, variant⟩

theorem mem_selection_of_mem_number {n : Nat} {sel : List (Nat × Nat × Variant)} {q : Placement}
    (h : q ∈ number n sel) : (q.entryIndex, q.variantIndex, q.variant) ∈ sel := by
  fun_induction number n sel with
  | case1 n => simp at h
  | case2 n a b v rest parent ih =>
    rcases List.mem_cons.mp h with rfl | later
    · exact List.mem_cons_self
    · exact List.mem_cons_of_mem _ (ih later)
  | case3 a b v rest child ih => exact List.mem_cons_of_mem _ (ih h)
  | case4 n a b v rest child some ih =>
    rcases List.mem_cons.mp h with rfl | later
    · exact List.mem_cons_self
    · exact List.mem_cons_of_mem _ (ih later)

/-- A placement is a selected variant of a selected entry, at the positions it names. -/
theorem entry_of_mem_order {p : Playlist} {q : Placement} (h : q ∈ order p) :
    ∃ e, p[q.entryIndex]? = some e ∧ e.selected = true ∧
      e.variants[q.variantIndex]? = some q.variant ∧ q.variant.selected = true :=
  mem_selection.mp (mem_selection_of_mem_number h)

/-- The parents of a numbering are those of the selection, counted up one by one. -/
theorem filter_isParent_number (n : Nat) (sel : List (Nat × Nat × Variant)) :
    (number n sel).filter Placement.isParent =
      ((sel.filter fun v => v.2.2.isParent).zipIdx n).map fun x =>
        ⟨x.1.1, x.1.2.1, x.1.2.2, UInt32.ofNat (x.2 + 1)⟩ := by
  fun_induction number n sel with
  | case1 n => rfl
  | case2 n a b v rest parent ih =>
    have shown : Placement.isParent ⟨a, b, v, UInt32.ofNat (n + 1)⟩ = true := parent
    rw [List.filter_cons_of_pos shown, List.filter_cons, if_pos parent, List.zipIdx_cons,
      List.map_cons, ih]
  | case3 a b v rest child ih =>
    rw [ih, List.filter_cons, if_neg child]
  | case4 n a b v rest child some ih =>
    have shown : ¬ Placement.isParent ⟨a, b, v, UInt32.ofNat n⟩ = true := child
    rw [List.filter_cons_of_neg shown, ih, List.filter_cons, if_neg child]

end Movesets.Playlist
