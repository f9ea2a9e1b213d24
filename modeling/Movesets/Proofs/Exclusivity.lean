import Movesets.Proofs.Compilation

set_option autoImplicit false

/-!
# At most one parent at a time

Within one stance two blocks hold together only as children of one parent.  Such children exclude
each other by direction or not at all: movement and the random pick are asked of them alike.
-/

namespace Movesets.Block
open Condition RuntimeState Playlist

variable {cs : Categories} {rule : Option Rule} {c : Category} {stance : Nat} {p : Playlist}

theorem toInt32_inj {a b : UInt32} (h : a.toInt32 = b.toInt32) : a = b :=
  congrArg Int32.toUInt32 h

theorem ofNat_code_inj {d e : Directions} {a b : Nat} (ha : d.hasCode a = true)
    (hb : e.hasCode b = true) (h : Int32.ofNat a = Int32.ofNat b) : a = b := by
  simp only [Directions.hasCode, Bool.and_eq_true, decide_eq_true_eq] at ha hb
  have same := congrArg Int32.toInt h
  rw [Int32.toInt_ofNat_of_lt (by omega), Int32.toInt_ofNat_of_lt (by omega)] at same
  omega

/-- The earlier of two blocks that hold together is a child, and the later one its sibling. -/
theorem siblings_of_holds (fits : p.selectedParents < UInt32.size) {i j : Nat} (hij : i < j)
    {b b' : Block} (hb : (compileAll cs rule c stance p)[i]? = some b)
    (hb' : (compileAll cs rule c stance p)[j]? = some b') {s : RuntimeState}
    (h : b.condition.holds s = true) (h' : b'.condition.holds s = true) :
    b.isParent = false ∧ b'.isParent = false ∧ b.ordinal = b'.ordinal := by
  obtain ⟨q, hq, rfl⟩ := placement_of_getElem? hb
  obtain ⟨r, hr, rfl⟩ := placement_of_getElem? hb'
  obtain ⟨_, order_q, gate_q⟩ := (ofPlacement_holds_iff s _ q _).mp h
  obtain ⟨_, order_r, gate_r⟩ := (ofPlacement_holds_iff s _ r _).mp h'
  have same : q.ordinal = r.ordinal := toInt32_inj (order_q.symm.trans order_r)
  have between := mem_children_of_ordinal_eq fits hij hq hr same
  have child : r.isParent = false := by
    simpa using List.all_eq_true.mp List.all_takeWhile r between
  obtain ⟨g, role⟩ := exists_gate child
  have isOpen : g.AllOpen r.ordinal s := by
    rw [gateParts_child role] at gate_r
    exact (meets_childParts s r.ordinal g).mp gate_r
  refine ⟨?_, child, same⟩
  cases parent : q.isParent with
  | false => exact parent
  | true =>
    rw [gateParts_parent parent] at gate_q
    have shut := (meets_parentParts s q.ordinal _).mp gate_q g
      (mem_childGates.mpr ⟨r, between, role⟩)
    rw [same] at shut
    exact absurd isOpen.anyOpen shut

/-- The state at an ordinal and a direction, on the move and with the ordinal picked. -/
def underway (s : RuntimeState) (ordinal : UInt32) (direction : Int32) : RuntimeState :=
  { s with
    value := fun v =>
      match v with
      | .priorityTier => s.value .priorityTier
      | .stanceSelector => s.value .stanceSelector
      | .playlistOrder => ordinal.toInt32
      | .direction => direction
      | .randomSelector => ordinal.toInt32
    moving := true }

theorem meets_shared_underway (s : RuntimeState) (ordinal : UInt32) (direction : Int32) :
    (underway s ordinal direction).Meets (shared cs rule c stance) ↔
      s.Meets (shared cs rule c stance) :=
  meets_shared_congr (s := s) (u := underway s ordinal direction) rfl rfl rfl rfl rfl cs rule c
    stance

theorem allOpen_underway (s : RuntimeState) (ordinal : UInt32) (direction : Int32) (g : Gate) :
    g.AllOpen ordinal (underway s ordinal direction) ↔
      g.directions.isEmpty = true ∨ g.directions.HasValue direction := by
  simp [Gate.AllOpen, underway]

theorem exists_code {d : Directions} (some : ¬ d.isEmpty = true) :
    ∃ code, d.hasCode code = true := by
  simpa [Directions.isEmpty_iff] using some

/-- Two gates can be open at once exactly when some direction, or none, suits both. -/
theorem exists_direction_iff (d e : Directions) :
    (∃ direction : Int32, (d.isEmpty = true ∨ d.HasValue direction) ∧
      (e.isEmpty = true ∨ e.HasValue direction)) ↔
      d.isEmpty = true ∨ e.isEmpty = true ∨ d.Share e := by
  constructor
  · rintro ⟨direction, hd, he⟩
    rcases hd with empty | ⟨a, ha, rfl⟩
    · exact Or.inl empty
    rcases he with empty | ⟨b, hb, same⟩
    · exact Or.inr (Or.inl empty)
    · rw [← ofNat_code_inj ha hb same] at hb
      exact Or.inr (Or.inr ⟨a, ha, hb⟩)
  · intro h
    by_cases hd : d.isEmpty = true
    · by_cases he : e.isEmpty = true
      · exact ⟨0, Or.inl hd, Or.inl he⟩
      · obtain ⟨code, has⟩ := exists_code he
        exact ⟨Int32.ofNat code, Or.inl hd, Or.inr ⟨code, has, rfl⟩⟩
    · by_cases he : e.isEmpty = true
      · obtain ⟨code, has⟩ := exists_code hd
        exact ⟨Int32.ofNat code, Or.inr ⟨code, has, rfl⟩, Or.inl he⟩
      · obtain ⟨code, ha, hb⟩ := (h.resolve_left hd).resolve_left he
        exact ⟨Int32.ofNat code, Or.inr ⟨code, ha, rfl⟩, Or.inr ⟨code, hb, rfl⟩⟩

theorem child_holds_iff (s : RuntimeState) (shared : List Condition) {q : Placement} {g : Gate}
    (role : q.variant.role = .child g) (rest : List Placement) :
    (ofPlacement shared q rest).condition.holds s = true ↔
      s.Meets shared ∧ s.value .playlistOrder = q.ordinal.toInt32 ∧ g.AllOpen q.ordinal s := by
  rw [ofPlacement_holds_iff, gateParts_child role, meets_childParts]

theorem children_hold_together_iff {q r : Placement} {g k : Gate}
    (role : q.variant.role = .child g) (role' : r.variant.role = .child k)
    (same : q.ordinal = r.ordinal) (rest rest' : List Placement)
    (possible : ∃ s : RuntimeState, s.Meets (shared cs rule c stance)) :
    (∃ s, (ofPlacement (shared cs rule c stance) q rest).condition.holds s = true ∧
        (ofPlacement (shared cs rule c stance) r rest').condition.holds s = true) ↔
      g.directions.isEmpty = true ∨ k.directions.isEmpty = true ∨
        g.directions.Share k.directions := by
  rw [← exists_direction_iff]
  constructor
  · rintro ⟨s, h, h'⟩
    have isOpen := ((child_holds_iff s _ role rest).mp h).2.2
    have isOpen' := ((child_holds_iff s _ role' rest').mp h').2.2
    exact ⟨s.value .direction, isOpen.1, isOpen'.1⟩
  · rintro ⟨direction, hg, hk⟩
    obtain ⟨s, meets⟩ := possible
    have meets' := (meets_shared_underway s q.ordinal direction).mpr meets
    refine ⟨underway s q.ordinal direction, ?_, ?_⟩
    · exact (child_holds_iff _ _ role rest).mpr
        ⟨meets', rfl, (allOpen_underway s q.ordinal direction g).mpr hg⟩
    · rw [child_holds_iff _ _ role' rest', ← same]
      exact ⟨meets', rfl, (allOpen_underway s q.ordinal direction k).mpr hk⟩

theorem directions_of_role {v : Variant} {g : Gate} (role : v.role = .child g) :
    v.role.directions = g.directions := by
  rw [role]
  rfl

/-- Two blocks of a stance hold together only as children of one parent.  Two such children do so in
some state, if the shared conditions allow any, unless both have directions and none in common. -/
theorem compileAll_exclusive (cs : Categories) (rule : Option Rule) (c : Category) (stance : Nat)
    (p : Playlist) (fits : p.selectedParents < UInt32.size) {i j : Nat} (hij : i ≠ j) {b b' : Block}
    (hb : (compileAll cs rule c stance p)[i]? = some b)
    (hb' : (compileAll cs rule c stance p)[j]? = some b') :
    ((∃ s, b.condition.holds s = true ∧ b'.condition.holds s = true) →
      b.isParent = false ∧ b'.isParent = false ∧ b.ordinal = b'.ordinal) ∧
    (b.isParent = false → b'.isParent = false → b.ordinal = b'.ordinal →
      (∃ s : RuntimeState, s.Meets (shared cs rule c stance)) →
      ∃ v v', b.variant? p = some v ∧ b'.variant? p = some v' ∧
        ((∃ s, b.condition.holds s = true ∧ b'.condition.holds s = true) ↔
          v.role.directions.isEmpty = true ∨ v'.role.directions.isEmpty = true ∨
            v.role.directions.Share v'.role.directions)) := by
  constructor
  · rintro ⟨s, h, h'⟩
    rcases Nat.lt_or_gt_of_ne hij with before | after
    · exact siblings_of_holds fits before hb hb' h h'
    · obtain ⟨child', child, same⟩ := siblings_of_holds fits after hb' hb h' h
      exact ⟨child, child', same.symm⟩
  · intro child child' same possible
    obtain ⟨q, hq, rfl⟩ := placement_of_getElem? hb
    obtain ⟨r, hr, rfl⟩ := placement_of_getElem? hb'
    obtain ⟨g, role⟩ := exists_gate child
    obtain ⟨k, role'⟩ := exists_gate child'
    refine ⟨q.variant, r.variant, variant?_ofPlacement (List.mem_of_getElem? hq) _ _,
      variant?_ofPlacement (List.mem_of_getElem? hr) _ _, ?_⟩
    rw [directions_of_role role, directions_of_role role']
    exact children_hold_together_iff role role' same _ _ possible

/-- A parent with two children, both for the front, one by the random pick and one in movement. -/
def forked : Playlist :=
  [.plain "Moveset" [.plain ⟨0, 0⟩ .parent, .plain ⟨0, 1⟩ (.ofFlags ⟨1⟩ true false),
    .plain ⟨0, 2⟩ (.ofFlags ⟨5⟩ false true)]]

/-- The player at rest with a sword in the right hand, in the first stance. -/
def swordsman : RuntimeState :=
  { base := .playerBase
    race := ⟨"Skyrim.esm", 0x13746⟩
    factions := []
    keywords := []
    equippedType := fun hand => if hand = .right then 1 else 0
    equippedKeywords := fun _ => []
    value := fun v => if v = .stanceSelector then 1 else 0
    moving := false }

theorem swordsman_meets_shared :
    swordsman.Meets (shared .builtIn none (.plain "Sword" 1) 0) := by
  rw [meets_shared]
  exact ⟨by simp, rfl, Wields.of_bare (fun _ => rfl) rfl rfl (by decide) (Or.inl rfl), rfl⟩

theorem compileAll_exclusive_forked :
    forked.selectedParents < UInt32.size ∧ (1 : Nat) ≠ 2 ∧ ∃ b b',
      (compileAll .builtIn none (.plain "Sword" 1) 0 forked)[1]? = some b ∧
      (compileAll .builtIn none (.plain "Sword" 1) 0 forked)[2]? = some b' ∧
      b.ordinal = b'.ordinal ∧ ∃ s, b.condition.holds s = true ∧ b'.condition.holds s = true := by
  have fits : forked.selectedParents < UInt32.size := by decide
  refine ⟨fits, by decide, _, _, rfl, rfl, rfl, ?_⟩
  obtain ⟨v, v', hv, hv', together⟩ := (compileAll_exclusive .builtIn none (.plain "Sword" 1) 0
    forked fits (i := 1) (j := 2) (by decide) rfl rfl).2 rfl rfl rfl
    ⟨swordsman, swordsman_meets_shared⟩
  cases hv
  cases hv'
  exact together.mpr (Or.inr (Or.inr ⟨1, by decide, by decide⟩))

end Movesets.Block
