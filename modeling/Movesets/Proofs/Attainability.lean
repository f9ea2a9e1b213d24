import Movesets.Proofs.CategoryOverlap
import Movesets.Proofs.Exclusivity

set_option autoImplicit false

/-!
# Blocks that can hold

A block asks for an actor, for hands, for an ordinal and for gates, and each of these has a state of
its own.  Only the hands may be out of reach: for a right hand of any type the keywords of custom
shield categories are excluded even where the category asks for them itself.  A category keeps one
of its keywords exactly when its blocks can hold, whatever the stance and the playlist.
-/

namespace Movesets
open Condition RuntimeState Playlist Exclusion

/-- In a right hand of any type the category has a keyword that no custom shield category of another
name claims, if it asks for keywords there. -/
def Category.Attainable (cs : Categories) (c : Category) : Prop :=
  c.rightType = anyType → c.rightKeywords = [] ∨ ∃ k ∈ c.rightKeywords, ¬ OfCustomShield cs c k

theorem Exclusion.not_competing_of_mem {cs : Categories} {c : Category} {hand : Hand} {k : String}
    (own : k ∈ c.keywords hand) : ¬ Competing cs c hand k := by
  rintro ⟨_, unclaimed⟩
  have claimed : hasName (c.keywords hand) k = true :=
    hasName_iff.mpr ⟨k, own, Text.sameName_refl k⟩
  rw [claimed] at unclaimed
  cases unclaimed

theorem Category.exists_mem_rightCodes (c : Category) : ∃ code, code ∈ c.rightCodes := by
  unfold rightCodes
  split
  · exact ⟨1, List.mem_cons_self⟩
  · exact ⟨c.rightType, List.mem_singleton_self _⟩

theorem Category.Attainable.freeKeyword {cs : Categories} {c : Category} (h : c.Attainable cs)
    (hand : Hand) : FreeKeyword cs c c hand := by
  by_cases none : c.keywords hand = []
  · exact Or.inl none
  obtain ⟨k, own⟩ := List.exists_mem_of_ne_nil _ none
  cases hand with
  | left =>
    have free : ¬ Excludes cs c .left k := fun excluded => not_competing_of_mem own excluded.2
    exact Or.inr ⟨k, own, free, free⟩
  | right =>
    by_cases any : c.rightType = anyType
    · obtain ⟨k, own, unclaimed⟩ := (h any).resolve_left none
      have free : ¬ Excludes cs c .right k := by
        rintro (competing | ⟨_, shield⟩)
        · exact not_competing_of_mem own competing
        · exact unclaimed shield
      exact Or.inr ⟨k, own, free, free⟩
    · have free : ¬ Excludes cs c .right k := by
        rintro (competing | ⟨isAny, _⟩)
        · exact not_competing_of_mem own competing
        · exact any isAny
      exact Or.inr ⟨k, own, free, free⟩

theorem overlap_self_iff (cs : Categories) (c : Category) : Overlap cs c c ↔ c.Attainable cs := by
  constructor
  · intro overlap any
    refine (overlap.keywords .right).1.imp_right fun ⟨k, own, free, _⟩ => ⟨k, own, ?_⟩
    intro shield
    exact free (Or.inr ⟨any, shield⟩)
  · intro attainable
    obtain ⟨code, mem⟩ := c.exists_mem_rightCodes
    refine ⟨⟨code, mem, mem⟩, Or.inr (Or.inr rfl), fun hand => ?_⟩
    exact ⟨attainable.freeKeyword hand, attainable.freeKeyword hand⟩

namespace Block

variable {cs : Categories} {rule : Option Rule} {c : Category} {stance : Nat} {p : Playlist}

/-- The state at an ordinal with every gate shut. -/
def atRest (s : RuntimeState) (ordinal : UInt32) : RuntimeState :=
  { s with
    value := fun v =>
      match v with
      | .priorityTier => s.value .priorityTier
      | .stanceSelector => s.value .stanceSelector
      | .playlistOrder => ordinal.toInt32
      | .direction => 0
      | .randomSelector => (ordinal + 1).toInt32
    moving := false }

theorem meets_shared_atRest (s : RuntimeState) (ordinal : UInt32) :
    (atRest s ordinal).Meets (shared cs rule c stance) ↔ s.Meets (shared cs rule c stance) :=
  meets_shared_congr (s := s) (u := atRest s ordinal) rfl rfl rfl rfl rfl cs rule c stance

theorem not_hasValue_zero (d : Directions) : ¬ d.HasValue 0 := by
  -- directions are counted from one
  rintro ⟨code, has, zero⟩
  simp only [Directions.hasCode, Bool.and_eq_true, decide_eq_true_eq] at has
  have same := congrArg Int32.toInt zero
  rw [Int32.toInt_ofNat_of_lt (by omega)] at same
  have : (0 : Int32).toInt = 0 := rfl
  omega

theorem not_anyOpen_atRest (s : RuntimeState) (ordinal : UInt32) (g : Gate) :
    ¬ g.AnyOpen ordinal (atRest s ordinal) := by
  rintro (direction | ⟨_, moving⟩ | ⟨_, picked⟩)
  · exact not_hasValue_zero g.directions direction
  · cases moving
  · have same : ordinal + 1 = ordinal := toInt32_inj picked
    have := congrArg UInt32.toNat same
    rw [UInt32.toNat_add] at this
    have bound := ordinal.toNat_lt
    have one : (1 : UInt32).toNat = 1 := rfl
    omega

/-- Where the shared conditions are met, the runtime can move on to a state of the same actor in
which the block of a placement holds. -/
theorem exists_ofPlacement_holds {s : RuntimeState} (meets : s.Meets (shared cs rule c stance))
    (q : Placement) (rest : List Placement) : ∃ u : RuntimeState,
      (∀ a, s.Describes a → u.Describes a) ∧
        (ofPlacement (shared cs rule c stance) q rest).condition.holds u = true := by
  cases parent : q.isParent with
  -- a parent holds where no child of its ordinal has an open gate, a child in movement
  | true =>
    refine ⟨atRest s q.ordinal, fun _ h => h, ?_⟩
    rw [ofPlacement_holds_iff, gateParts_parent parent, meets_parentParts]
    refine ⟨(meets_shared_atRest s q.ordinal).mpr meets, rfl, ?_⟩
    exact fun g _ => not_anyOpen_atRest s q.ordinal g
  | false =>
    obtain ⟨g, role⟩ := exists_gate parent
    obtain ⟨direction, isOpen, _⟩ :=
      (exists_direction_iff g.directions .empty).mpr (Or.inr (Or.inl rfl))
    refine ⟨underway s q.ordinal direction, fun _ h => h, ?_⟩
    rw [child_holds_iff _ _ role rest]
    exact ⟨(meets_shared_underway s q.ordinal direction).mpr meets, rfl,
      (allOpen_underway s q.ordinal direction g).mpr isOpen⟩

def inStance (rule : Option Rule) (stance : Nat) (a : Actor) (types : Hand → Int32)
    (names : Hand → List String) : RuntimeState :=
  { atFirst rule a types names with
    value := fun v =>
      if v = .stanceSelector then stanceValue rule stance
      else (atFirst rule a types names).value v }

theorem exists_holds_of_admits {a : Actor} (admits : ∀ r ∈ rule, r.matcher.admits a = true)
    (attainable : c.Attainable cs) {b : Block} (hb : b ∈ compileAll cs rule c stance p) :
    ∃ s : RuntimeState, s.Describes a ∧ b.condition.holds s = true := by
  obtain ⟨i, at_i⟩ := List.mem_iff_getElem?.mp hb
  obtain ⟨q, _, rfl⟩ := placement_of_getElem? at_i
  obtain ⟨types, names, wields⟩ := ((overlap_self_iff cs c).mpr attainable).exists_hands
  have describes : (inStance rule stance a types names).Describes a := ⟨rfl, rfl, rfl, rfl⟩
  have meets : (inStance rule stance a types names).Meets (shared cs rule c stance) := by
    rw [meets_shared]
    refine ⟨fun r mem => ?_, rfl, (wields _ rfl rfl).1, rfl⟩
    rw [← Matcher.admits_of_describes describes]
    exact admits r mem
  obtain ⟨u, same, holds⟩ := exists_ofPlacement_holds meets q ((order p).drop (i + 1))
  exact ⟨u, same a describes, holds⟩

theorem attainable_of_holds {b : Block} (hb : b ∈ compileAll cs rule c stance p)
    {s : RuntimeState} (holds : b.condition.holds s = true) : c.Attainable cs := by
  have wields := wields_of_holds hb holds
  exact (overlap_self_iff cs c).mp (wields.overlap wields)

theorem exists_holds_iff (cs : Categories) (rule : Option Rule) (c : Category) (stance : Nat)
    (p : Playlist) {b : Block} (hb : b ∈ compileAll cs rule c stance p) :
    (∃ s : RuntimeState, b.condition.holds s = true) ↔ c.Attainable cs := by
  constructor
  · rintro ⟨s, holds⟩
    exact attainable_of_holds hb holds
  · intro attainable
    obtain ⟨a, admits⟩ := exists_admitted rule
    obtain ⟨s, _, holds⟩ := exists_holds_of_admits admits attainable hb
    exact ⟨s, holds⟩

/-- The built-in category for a shield with any weapon held in one hand. -/
def weaponAndShield : Category :=
  { Category.plain "One-Handed and Shield" anyType with leftType := shieldType, shield := true }

/-- A child for two directions in movement, in the last stance. -/
theorem exists_holds_iff_forked : weaponAndShield ∈ Categories.builtIn.values ∧
    weaponAndShield.rightType = anyType ∧
    ∃ b ∈ compileAll .builtIn none weaponAndShield 3 forked, b.isParent = false ∧
      ∃ s : RuntimeState, b.condition.holds s = true := by
  have values : Categories.builtIn.values = Category.builtIn := rfl
  refine ⟨?_, rfl, ?_⟩
  · rw [values, weaponAndShield]
    simp [Category.builtIn]
  · have mem := List.mem_of_getElem? (i := 2)
      (l := compileAll .builtIn none weaponAndShield 3 forked) rfl
    refine ⟨_, mem, rfl, ?_⟩
    exact (exists_holds_iff .builtIn none weaponAndShield 3 forked mem).mpr fun _ => Or.inl rfl

/-- A custom category for a rapier and any shield of the kind. -/
def rapierAndShield (name : String) : Category :=
  { Category.plain name anyType with
    leftType := shieldType, shield := true, custom := true, rightKeywords := ["WeapTypeRapier"] }

def rapiers : Categories :=
  .ofList [("Rapier and Buckler", rapierAndShield "Rapier and Buckler"),
    ("Rapier and Targe", rapierAndShield "Rapier and Targe")]

/-- Both ask for the keyword and leave it to the other. -/
theorem rapier_and_buckler_never_holds : ∃ c ∈ rapiers.values,
    ∃ b ∈ compileAll rapiers none c 0 lone, ¬ ∃ s : RuntimeState, b.condition.holds s = true := by
  have mem := mem_compileAll_lone rapiers none (rapierAndShield "Rapier and Buckler") 0
  refine ⟨rapierAndShield "Rapier and Buckler", List.mem_cons_self, _, mem, ?_⟩
  rintro ⟨s, holds⟩
  rcases attainable_of_holds mem holds rfl with none | ⟨k, own, unclaimed⟩
  · cases none
  · obtain rfl := List.mem_singleton.mp own
    refine unclaimed ⟨rapierAndShield "Rapier and Targe", ?_, by decide, rfl, rfl, by decide⟩
    exact List.mem_cons_of_mem _ List.mem_cons_self

end Block

end Movesets
