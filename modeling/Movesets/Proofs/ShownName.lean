import Mathlib.Data.List.TakeWhile
import Mathlib.Tactic.ByContra
import Movesets.Proofs.Exclusivity
import Movesets.VariantName

set_option autoImplicit false

/-!
# The name shown and the block that holds

The name shown for an ordinal and a direction is searched among placements, while the runtime tries
the blocks that were compiled from them.  Where children wait for directions alone both arrive at
the same variant: the first child that faces the direction, else the parent.
-/

namespace Movesets
open RuntimeState

namespace Playlist

/-- The selected children of a playlist wait for directions, not for movement or a random pick. -/
def DirectionsOnly (p : Playlist) : Prop :=
  ∀ e ∈ p, e.selected = true → ∀ v ∈ e.variants, v.selected = true →
    v.role.movement = false ∧ v.role.random = false

instance (p : Playlist) : Decidable p.DirectionsOnly :=
  inferInstanceAs (Decidable (∀ e ∈ p, e.selected = true → ∀ v ∈ e.variants, v.selected = true →
    v.role.movement = false ∧ v.role.random = false))

theorem DirectionsOnly.gate {p : Playlist} (gated : p.DirectionsOnly) {q : Placement}
    (mem : q ∈ order p) {g : Gate} (child : q.variant.role = .child g) :
    g.movement = false ∧ g.random = false := by
  obtain ⟨e, entry, selected, variant, chosen⟩ := entry_of_mem_order mem
  have alone := gated e (List.mem_of_getElem? entry) selected q.variant
    (List.mem_of_getElem? variant) chosen
  rwa [child] at alone

/-- The placement opens the slot of an ordinal. -/
def opens (k : UInt32) (q : Placement) : Bool := q.isParent && q.ordinal == k

theorem opens_iff {k : UInt32} {q : Placement} :
    opens k q = true ↔ q.isParent = true ∧ q.ordinal = k := by
  rw [opens, Bool.and_eq_true, beq_iff_eq]

/-- Children in front of every parent are numbered like the last parent before them. -/
theorem ordinal_of_mem_takeWhile {n : Nat} {sel : List (Nat × Nat × Variant)} {q : Placement}
    (mem : q ∈ (number n sel).takeWhile fun q => !q.isParent) : q.ordinal = UInt32.ofNat n := by
  fun_induction number n sel with
  | case1 => cases mem
  | case2 n i j v rest parent ih =>
    rw [List.takeWhile_cons, List.mem_ite_nil_right] at mem
    simp [Placement.isParent, parent] at mem
  | case3 i j v rest child ih => exact ih mem
  | case4 n i j v rest child some ih =>
    rw [List.takeWhile_cons, List.mem_ite_nil_right, List.mem_cons] at mem
    rcases mem.2 with rfl | later
    · rfl
    · exact ih later

/-- In front of the slot of an ordinal nothing has that ordinal, unless it was given last. -/
theorem ordinal_ne_of_mem_takeWhile {n : Nat} {sel : List (Nat × Nat × Variant)} {k : UInt32}
    (apart : n = 0 ∨ UInt32.ofNat n ≠ k) {q : Placement}
    (mem : q ∈ (number n sel).takeWhile fun q => !opens k q) : q.ordinal ≠ k := by
  fun_induction number n sel with
  | case1 => cases mem
  | case2 n i j v rest parent ih =>
    rw [List.takeWhile_cons, List.mem_ite_nil_right, List.mem_cons] at mem
    obtain ⟨closed, mem⟩ := mem
    have slot : Placement.isParent ⟨i, j, v, UInt32.ofNat (n + 1)⟩ = true := parent
    have other : UInt32.ofNat (n + 1) ≠ k := by
      intro here
      rw [opens_iff.mpr ⟨slot, here⟩] at closed
      cases closed
    rcases mem with rfl | later
    · exact other
    · exact ih (Or.inr other) later
  | case3 i j v rest child ih => exact ih (Or.inl rfl) mem
  | case4 n i j v rest child some ih =>
    have other : UInt32.ofNat n ≠ k := apart.resolve_left some
    rw [List.takeWhile_cons, List.mem_ite_nil_right, List.mem_cons] at mem
    rcases mem.2 with rfl | later
    · exact other
    · exact ih apart later

/-- The order of a playlist around the slot of an ordinal: nothing before the parent has the
ordinal, and the children behind it do. -/
structure SlotAt (p : Playlist) (k : UInt32) (before : List Placement) (parent : Placement)
    (rest : List Placement) : Prop where
  order_eq : order p = before ++ parent :: rest
  ordinal_ne : ∀ q ∈ before, q.ordinal ≠ k
  opens : opens k parent = true
  children : ∀ q ∈ rest.takeWhile fun q => !q.isParent, q.ordinal = k

theorem slot_cases (p : Playlist) (k : UInt32) :
    ((order p).dropWhile (fun q => !opens k q) = [] ∧ ∀ q ∈ order p, q.ordinal ≠ k) ∨
    ∃ before parent rest, (order p).dropWhile (fun q => !opens k q) = parent :: rest ∧
      SlotAt p k before parent rest := by
  have apart (q : Placement) (mem : q ∈ (order p).takeWhile fun q => !opens k q) :
      q.ordinal ≠ k := ordinal_ne_of_mem_takeWhile (Or.inl rfl) mem
  have split := List.takeWhile_append_dropWhile (p := fun q => !opens k q) (l := order p)
  have stopped := List.head?_dropWhile_not (fun q => !opens k q) (order p)
  generalize (order p).takeWhile (fun q => !opens k q) = before at apart split
  generalize (order p).dropWhile (fun q => !opens k q) = behind at split stopped
  cases behind with
  | nil =>
    rw [List.append_nil] at split
    exact Or.inl ⟨rfl, fun q mem => apart q (split.symm ▸ mem)⟩
  | cons parent rest =>
    have slot : opens k parent = true := by simpa using stopped
    refine Or.inr ⟨before, parent, rest, rfl, split.symm, apart, slot, fun q mem => ?_⟩
    -- what follows a placement is numbered from its ordinal
    have at_slot : (number 0 (selection p))[before.length]? = some parent := by
      change (order p)[before.length]? = some parent
      simp [← split]
    have next : rest = (order p).drop (before.length + 1) := by
      simp [← split]
    obtain ⟨m, sel, drop, ordinal, _⟩ := drop_number at_slot
    rw [next, order, drop] at mem
    rw [ordinal_of_mem_takeWhile mem, ← ordinal, (opens_iff.mp slot).2]

end Playlist

theorem Directions.hasValue_ofNat_iff (d : Directions) (code : UInt8) :
    d.HasValue (Int32.ofNat code.toNat) ↔ d.hasCode code.toNat = true := by
  constructor
  · rintro ⟨code', has, same⟩
    have small := code.toNat_lt
    have small' : code' ≤ 8 := by
      simp only [hasCode, Bool.and_eq_true, decide_eq_true_eq] at has
      exact has.1.2
    have ints := congrArg Int32.toInt same
    rw [Int32.toInt_ofNat_of_lt (by omega), Int32.toInt_ofNat_of_lt (by omega)] at ints
    rwa [show code' = code.toNat by omega] at has
  · intro has
    exact ⟨code.toNat, has, rfl⟩

namespace Block
open Playlist

/-- What is found among blocks, if it is not found among those of the first placements. -/
theorem find?_ofPlacements_append {test : Block → Bool} (shared : List Condition)
    {before : List Placement}
    (skip : ∀ q ∈ before, ∀ rest, test (ofPlacement shared q rest) = false)
    (ps : List Placement) :
    (ofPlacements shared (before ++ ps)).find? test = (ofPlacements shared ps).find? test := by
  induction before with
  | nil => rfl
  | cons q before ih =>
    have first := skip q List.mem_cons_self (before ++ ps)
    rw [List.cons_append, ofPlacements, List.find?_cons_of_neg (by rw [first]; decide)]
    exact ih fun r mem => skip r (List.mem_cons_of_mem _ mem)

theorem exists_gate_of_mem_takeWhile {q : Placement} {rest : List Placement}
    (mem : q ∈ rest.takeWhile fun q => !q.isParent) : ∃ g, q.variant.role = .child g := by
  have child := List.mem_takeWhile_imp mem
  rw [Bool.not_eq_true'] at child
  exact exists_gate child

/-- The state is in a stance, at an ordinal and a direction. -/
structure Faces (s : RuntimeState) (shared : List Condition) (k : UInt32) (d : UInt8) : Prop where
  shared : s.Meets shared
  ordinal : s.value .playlistOrder = k.toInt32
  direction : s.value .direction = Int32.ofNat d.toNat

variable {s : RuntimeState} {shared : List Condition} {k : UInt32} {d : UInt8}

theorem Faces.ordinal_of_holds (faces : Faces s shared k d) {q : Placement}
    {rest : List Placement} (holds : (ofPlacement shared q rest).condition.holds s = true) :
    q.ordinal = k := by
  have order := ((ofPlacement_holds_iff s shared q rest).mp holds).2.1
  exact toInt32_inj (order.symm.trans faces.ordinal)

theorem Faces.holds_eq_false (faces : Faces s shared k d) {q : Placement} (other : q.ordinal ≠ k)
    (rest : List Placement) : (ofPlacement shared q rest).condition.holds s = false := by
  by_contra holds
  exact other (faces.ordinal_of_holds (Bool.not_eq_false _ ▸ holds))

theorem Faces.child_holds_iff (faces : Faces s shared k d) {q : Placement} (ordinal : q.ordinal = k)
    {g : Gate} (child : q.variant.role = .child g) (alone : g.movement = false ∧ g.random = false)
    (rest : List Placement) : (ofPlacement shared q rest).condition.holds s = true ↔
      VariantName.facing d.toNat q = true := by
  have directions : g.directions.isEmpty = false := by simpa [alone] using g.opens
  have facing : VariantName.facing d.toNat q = g.directions.hasCode d.toNat := by
    rw [VariantName.facing, child]
  rw [Block.child_holds_iff s shared child rest, ordinal, facing,
    ← Directions.hasValue_ofNat_iff, ← faces.direction]
  simp [faces.shared, faces.ordinal, Gate.AllOpen, alone, directions]

theorem Faces.parent_holds_iff (faces : Faces s shared k d) {q : Placement}
    (ordinal : q.ordinal = k) (parent : q.isParent = true) {rest : List Placement}
    (alone : ∀ g ∈ childGates rest, g.movement = false ∧ g.random = false) :
    (ofPlacement shared q rest).condition.holds s = true ↔
      ∀ r ∈ rest.takeWhile fun r => !r.isParent, VariantName.facing d.toNat r = false := by
  have shut : (∀ g ∈ childGates rest, ¬ g.AnyOpen k s) ↔
      ∀ g ∈ childGates rest, g.directions.hasCode d.toNat = false := by
    refine forall₂_congr fun g mem => ?_
    obtain ⟨movement, random⟩ := alone g mem
    rw [← Bool.not_eq_true, ← Directions.hasValue_ofNat_iff, ← faces.direction]
    simp [Gate.AnyOpen, movement, random]
  rw [ofPlacement_holds_iff, gateParts_parent parent, meets_parentParts, ordinal, shut]
  simp only [faces.shared, faces.ordinal, true_and]
  constructor
  · intro shut r mem
    obtain ⟨g, role⟩ := exists_gate_of_mem_takeWhile mem
    rw [VariantName.facing, role]
    exact shut g (mem_childGates.mpr ⟨r, mem, role⟩)
  · intro none g mem
    obtain ⟨r, between, role⟩ := mem_childGates.mp mem
    have away := none r between
    rwa [VariantName.facing, role] at away

/-- The block that the runtime arrives at: the first of them that holds. -/
def firstHolding (s : RuntimeState) (blocks : List Block) : Option Block :=
  blocks.find? fun b => b.condition.holds s

/-- The placement that is shown in a slot: its first child that faces the direction, or the
parent. -/
def shownIn (d : UInt8) (parent : Placement) (rest : List Placement) : Placement :=
  ((rest.takeWhile fun r => !r.isParent).find? (VariantName.facing d.toNat)).getD parent

/-- From the parent of a slot on, the first block that holds is that of the placement shown. -/
theorem Faces.firstHolding_from_parent (faces : Faces s shared k d) {parent : Placement}
    {rest : List Placement} (slot : opens k parent = true)
    (children : ∀ q ∈ rest.takeWhile fun q => !q.isParent, q.ordinal = k ∧
      ∃ g, q.variant.role = .child g ∧ g.movement = false ∧ g.random = false) :
    ∃ later, firstHolding s (ofPlacements shared (parent :: rest)) =
      some (ofPlacement shared (shownIn d parent rest) later) := by
  obtain ⟨isParent, ordinal⟩ := opens_iff.mp slot
  have gates : ∀ g ∈ childGates rest, g.movement = false ∧ g.random = false := by
    intro g mem
    obtain ⟨r, inSlot, role⟩ := mem_childGates.mp mem
    obtain ⟨_, g', role', alone⟩ := children r inSlot
    rw [role] at role'
    cases role'
    exact alone
  have parentHolds := faces.parent_holds_iff ordinal isParent gates
  have childHolds {q : Placement} (mem : q ∈ rest.takeWhile fun q => !q.isParent)
      (later : List Placement) : (ofPlacement shared q later).condition.holds s = true ↔
        VariantName.facing d.toNat q = true := by
    obtain ⟨same, g, role, alone⟩ := children q mem
    exact faces.child_holds_iff same role alone later
  have whole := List.takeWhile_append_dropWhile (p := fun r : Placement => !r.isParent) (l := rest)
  rw [firstHolding, ofPlacements, shownIn]
  cases found : (rest.takeWhile fun r => !r.isParent).find? (VariantName.facing d.toNat) with
  | none =>
    have none := List.find?_eq_none.mp found
    refine ⟨rest, List.find?_cons_of_pos (parentHolds.mpr fun r mem => ?_)⟩
    exact Bool.not_eq_true _ ▸ none r mem
  | some child =>
    -- the parent steps aside, and the children before the one that is shown face elsewhere
    have inSlot := List.mem_of_find?_eq_some found
    obtain ⟨facing, others, after, split, away⟩ := List.find?_eq_some_iff_append.mp found
    have aside : (ofPlacement shared parent rest).condition.holds s = false := by
      by_contra holds
      rw [Bool.not_eq_false] at holds
      rw [parentHolds.mp holds child inSlot] at facing
      cases facing
    have passed : ∀ q ∈ others, ∀ later,
        (ofPlacement shared q later).condition.holds s = false := by
      intro q mem later
      have before : q ∈ rest.takeWhile fun r => !r.isParent := by
        rw [split]
        exact List.mem_append_left _ mem
      rw [← Bool.not_eq_true, childHolds before]
      simpa using away q mem
    rw [split, List.append_assoc, List.cons_append] at whole
    refine ⟨after ++ rest.dropWhile fun r => !r.isParent, ?_⟩
    rw [List.find?_cons, aside, ← whole, find?_ofPlacements_append shared passed, whole]
    exact List.find?_cons_of_pos ((childHolds inSlot _).mpr facing)

variable {p : Playlist} {before : List Placement} {parent : Placement} {rest : List Placement}

/-- The first block that holds is that of the placement shown in the slot of the ordinal. -/
theorem Faces.firstHolding_slot (faces : Faces s shared k d) (gated : p.DirectionsOnly)
    (slot : SlotAt p k before parent rest) :
    ∃ later, firstHolding s (ofPlacements shared (order p)) =
      some (ofPlacement shared (shownIn d parent rest) later) := by
  rw [slot.order_eq, firstHolding, find?_ofPlacements_append shared fun q mem =>
    faces.holds_eq_false (slot.ordinal_ne q mem)]
  refine faces.firstHolding_from_parent slot.opens fun q mem => ⟨slot.children q mem, ?_⟩
  have placed : q ∈ order p := by
    rw [slot.order_eq]
    exact List.mem_append_right _ (List.mem_cons_of_mem _ ((List.takeWhile_prefix _).subset mem))
  obtain ⟨g, role⟩ := exists_gate_of_mem_takeWhile mem
  exact ⟨g, role, gated.gate placed role⟩

theorem Faces.firstHolding_eq_none (faces : Faces s shared k d) {ps : List Placement}
    (away : ∀ q ∈ ps, q.ordinal ≠ k) : firstHolding s (ofPlacements shared ps) = none := by
  rw [firstHolding, ← List.append_nil ps, find?_ofPlacements_append shared fun q mem =>
    faces.holds_eq_false (away q mem)]
  rfl

/-- The parent block of the slot that a block belongs to. -/
def parentAmong (blocks : List Block) (b : Block) : Option Block :=
  blocks.find? fun q => q.isParent && q.ordinal == b.ordinal

/-- The own name of the variant of a block, or else the name of its animation. -/
def name? (l : Library) (p : Playlist) (b : Block) : Option String :=
  (b.variant? p).bind (VariantName.ofVariant? l)

theorem parentAmong_slot (slot : SlotAt p k before parent rest) (shared : List Condition)
    {b : Block} (ordinal : b.ordinal = k) :
    parentAmong (ofPlacements shared (order p)) b = some (ofPlacement shared parent rest) := by
  have skipped : ∀ q ∈ before, ∀ later, ((ofPlacement shared q later).isParent &&
      (ofPlacement shared q later).ordinal == k) = false := by
    intro q mem later
    simp [ofPlacement, slot.ordinal_ne q mem]
  rw [parentAmong, ordinal, slot.order_eq, find?_ofPlacements_append shared skipped]
  exact List.find?_cons_of_pos slot.opens

theorem shownIn_mem (slot : SlotAt p k before parent rest) (d : UInt8) :
    shownIn d parent rest ∈ order p ∧ (shownIn d parent rest).ordinal = k := by
  rw [slot.order_eq, shownIn]
  cases found : (rest.takeWhile fun r => !r.isParent).find? (VariantName.facing d.toNat) with
  | none =>
    exact ⟨List.mem_append_right _ List.mem_cons_self, (opens_iff.mp slot.opens).2⟩
  | some child =>
    have mem := List.mem_of_find?_eq_some found
    have inRest := (List.takeWhile_prefix _).subset mem
    exact ⟨List.mem_append_right _ (List.mem_cons_of_mem _ inRest), slot.children child mem⟩

theorem name?_ofPlacement (l : Library) {q : Placement} (mem : q ∈ order p)
    (shared : List Condition) (rest : List Placement) :
    (ofPlacement shared q rest).name? l p = VariantName.ofVariant? l q.variant := by
  rw [name?, variant?_ofPlacement mem, Option.bind_some]

/-- In a slot the search among placements names the placement shown, or else its parent. -/
theorem amongPlacements_eq_shownIn (l : Library) (d : UInt8) (parent : Placement)
    (rest : List Placement) : VariantName.amongPlacements l d.toNat (parent :: rest) =
      (VariantName.ofVariant? l (shownIn d parent rest).variant <|>
        VariantName.ofVariant? l parent.variant).getD VariantName.notFound := by
  rw [VariantName.amongPlacements, shownIn]
  cases found : (rest.takeWhile fun r => !r.isParent).find? (VariantName.facing d.toNat) with
  | none => cases named : VariantName.ofVariant? l parent.variant <;> simp [named]
  | some child => rfl

/-- At an ordinal with a slot, the name shown is that of the block that holds, or of its parent. -/
theorem Faces.active_of_slot (faces : Faces s shared k d) (gated : p.DirectionsOnly) (l : Library)
    (found : (order p).dropWhile (fun q => !opens k q) = parent :: rest)
    (slot : SlotAt p k before parent rest) : ∃ b b',
      firstHolding s (ofPlacements shared (order p)) = some b ∧
      parentAmong (ofPlacements shared (order p)) b = some b' ∧
      VariantName.active p l k d.toNat =
        (b.name? l p <|> b'.name? l p).getD VariantName.notFound := by
  obtain ⟨later, first⟩ := faces.firstHolding_slot gated slot
  obtain ⟨mem, ordinal⟩ := shownIn_mem slot d
  have placed : parent ∈ order p := by
    rw [slot.order_eq]
    exact List.mem_append_right _ List.mem_cons_self
  refine ⟨_, _, first, parentAmong_slot slot shared ordinal, ?_⟩
  rw [name?_ofPlacement l mem, name?_ofPlacement l placed, ← amongPlacements_eq_shownIn, ← found]
  rfl

theorem active_of_no_slot (l : Library) (d : UInt8)
    (nothing : (order p).dropWhile (fun q => !opens k q) = []) :
    VariantName.active p l k d.toNat = VariantName.notFound := by
  change VariantName.amongPlacements l d.toNat ((order p).dropWhile fun q => !opens k q) = _
  rw [nothing, VariantName.amongPlacements]

theorem getD_notFound_iff {own above : Option String} :
    (own <|> above).getD VariantName.notFound = VariantName.notFound ↔
      own = none ∧ above = none ∨ (own <|> above) = some VariantName.notFound := by
  cases own with
  | none => cases above <;> simp
  | some n => simp

theorem firstHolding_eq_none_iff {blocks : List Block} :
    firstHolding s blocks = none ↔ ∀ b ∈ blocks, b.condition.holds s = false := by
  simp [firstHolding]

/-- The name shown for an ordinal and a direction is that of the first compiled block that holds
there, or of the parent of that block where it has no name; nothing is found where no block holds or
neither has a name. -/
theorem active_eq_name_of_firstHolding (cs : Categories) (rule : Option Rule) (c : Category)
    (stance : Nat) (p : Playlist) (gated : p.DirectionsOnly) (l : Library) (k : UInt32) (d : UInt8)
    (s : RuntimeState) (shares : s.Meets (Block.shared cs rule c stance))
    (ordinal : s.value .playlistOrder = k.toInt32)
    (direction : s.value .direction = Int32.ofNat d.toNat) :
    let blocks := compileAll cs rule c stance p
    let shown := VariantName.active p l k d.toNat
    (∀ b, firstHolding s blocks = some b → ∃ parent, parentAmong blocks b = some parent ∧
      shown = (b.name? l p <|> parent.name? l p).getD VariantName.notFound) ∧
    (shown = VariantName.notFound ↔
      (∀ b ∈ blocks, b.condition.holds s = false) ∨
      ∃ b parent, firstHolding s blocks = some b ∧ parentAmong blocks b = some parent ∧
        (b.name? l p = none ∧ parent.name? l p = none ∨
          (b.name? l p <|> parent.name? l p) = some VariantName.notFound)) := by
  have faces : Faces s (Block.shared cs rule c stance) k d := ⟨shares, ordinal, direction⟩
  intro blocks shown
  rw [← firstHolding_eq_none_iff]
  rcases slot_cases p k with ⟨nothing, away⟩ | ⟨before, parent, rest, found, slot⟩
  · have none : firstHolding s blocks = none := faces.firstHolding_eq_none away
    have hidden : shown = VariantName.notFound := active_of_no_slot l d nothing
    simp [none, hidden]
  · obtain ⟨b, b', first, above, named⟩ : ∃ b b', firstHolding s blocks = some b ∧
        parentAmong blocks b = some b' ∧
        shown = (b.name? l p <|> b'.name? l p).getD VariantName.notFound :=
      faces.active_of_slot gated l found slot
    constructor
    · intro b₀ first₀
      obtain rfl := Option.some.inj (first.symm.trans first₀)
      exact ⟨b', above, named⟩
    · rw [named, getD_notFound_iff]
      constructor
      · intro unnamed
        exact Or.inr ⟨b, b', first, above, unnamed⟩
      · rintro (none | ⟨b₀, b₁, first₀, above₀, unnamed⟩)
        · rw [first] at none
          cases none
        · obtain rfl := Option.some.inj (first.symm.trans first₀)
          obtain rfl := Option.some.inj (above.symm.trans above₀)
          exact unnamed

/-- A parent and two children for the front, the first of which has neither a name nor an
animation. -/
def flanked : Playlist :=
  [.plain "Moveset" [.plain ⟨0, 0⟩ .parent, .plain ⟨9, 9⟩ (.ofFlags ⟨3⟩ false false),
    ⟨⟨0, 1⟩, "Riposte", true, .ofFlags ⟨5⟩ false false⟩]]

def slash : Library := .ofList [.plain ⟨0, 0⟩ "Slash"]

theorem slotAt_flanked : SlotAt flanked 1 [] ⟨0, 0, .plain ⟨0, 0⟩ .parent, 1⟩
    [⟨0, 1, .plain ⟨9, 9⟩ (.ofFlags ⟨3⟩ false false), 1⟩,
      ⟨0, 2, ⟨⟨0, 1⟩, "Riposte", true, .ofFlags ⟨5⟩ false false⟩, 1⟩] :=
  ⟨rfl, by simp, by decide, by decide⟩

theorem active_eq_name_of_firstHolding_flanked :
    flanked.DirectionsOnly ∧
    (underway swordsman 1 1).Meets (Block.shared .builtIn none (.plain "Sword" 1) 0) ∧
    ∃ b, firstHolding (underway swordsman 1 1)
        (compileAll .builtIn none (.plain "Sword" 1) 0 flanked) = some b ∧
      b.source = ⟨9, 9⟩ ∧ VariantName.active flanked slash 1 1 = "Slash" := by
  have gated : flanked.DirectionsOnly := by decide
  have meets : (underway swordsman 1 1).Meets (Block.shared .builtIn none (.plain "Sword" 1) 0) :=
    (meets_shared_underway swordsman 1 1).mpr swordsman_meets_shared
  have faces : Faces (underway swordsman 1 1)
      (Block.shared .builtIn none (.plain "Sword" 1) 0) 1 1 := ⟨meets, rfl, rfl⟩
  obtain ⟨later, first⟩ := faces.firstHolding_slot gated slotAt_flanked
  obtain ⟨parent, above, shown⟩ := (active_eq_name_of_firstHolding .builtIn none (.plain "Sword" 1)
    0 flanked gated slash 1 1 (underway swordsman 1 1) meets rfl rfl).1 _ first
  cases above
  exact ⟨gated, meets, _, first, rfl, shown⟩

end Block
end Movesets
